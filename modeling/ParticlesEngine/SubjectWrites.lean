/-
**What the subject writes leave.**

Each write of the subject repository is described by what it does to four views of the store: the
subject with an id, the index rows of a subject, the links between particles and subjects, and the
subject ids of a particle.

Main definitions:

* `Store.indexRows`, `Store.Linked`, `Store.idsOf` — the views.

Main results:

* `mem_rebound`, `mem_aliasIndexRows`, `missingNames_eq` — what the three loops over names keep;
* `insertSubject_spec`, `setAliases_spec`, `mergeSubjectsMany_spec`, … — **what a write that
  succeeds found, and what it leaves in each view**.
-/

import ParticlesEngine.FirstByKey
import ParticlesEngine.SubjectStore

set_option relaxedAutoImplicit false
set_option autoImplicit false

open FirstByKey

namespace ParticlesEngine

/-! ### Views -/

/-- The index rows of a subject. -/
def Store.indexRows (store : Store) (subjectId : String) : List SubjectAliasRow :=
  store.aliasRows.rows.filter fun row => row.subjectId = subjectId

/-- The subject ids of a particle; none when there is no such particle. -/
def Store.idsOf (store : Store) (particleId : String) : List String :=
  ((store.get? particleId).map fun row => row.model.subjectIds).getD []

/-- The particle is linked to the subject. -/
def Store.Linked (store : Store) (particleId subjectId : String) : Prop :=
  ⟨particleId, subjectId⟩ ∈ store.subjectLinks.rows

theorem Store.mem_indexRows {store : Store} {subjectId : String} {row : SubjectAliasRow} :
    row ∈ store.indexRows subjectId ↔
      row ∈ store.aliasRows.rows ∧ row.subjectId = subjectId := by
  simp [Store.indexRows]

theorem Store.mem_aliasRows {store : Store} {row : SubjectAliasRow} :
    row ∈ store.aliasRows.rows ↔ row ∈ store.indexRows row.subjectId := by
  simp [Store.indexRows]

/-! ### The loops over names -/

section Loops

theorem rebound_eq (rename : String → String) (ids : List String) :
    rebound rename ids = (firstByKey rename [] ids).map rename := by
  have h := foldl_eq_firstByKey (fun _ => rfl : ∀ i, id (rename i) = rename i) [] ids []
  simpa [rebound] using h

/-- **The renamed ids are there, whichever of two equal ones is kept.** -/
theorem mem_rebound {rename : String → String} {ids : List String} {x : String} :
    x ∈ rebound rename ids ↔ ∃ i ∈ ids, rename i = x := by
  rw [rebound_eq, mem_map_firstByKey]
  simp

theorem nodup_rebound (rename : String → String) (ids : List String) :
    (rebound rename ids).Nodup := by
  rw [rebound_eq]
  exact nodup_map_firstByKey

theorem mem_replaceId {old new x : String} {ids : List String} :
    x ∈ replaceId old new ids ↔ x ∈ ids ∧ x ≠ old ∨ x = new ∧ old ∈ ids := by
  rw [replaceId, mem_rebound]
  constructor
  · rintro ⟨i, hi, rfl⟩
    split_ifs with hold
    · exact Or.inr ⟨rfl, hold ▸ hi⟩
    · exact Or.inl ⟨hi, hold⟩
  · rintro (⟨hx, hne⟩ | ⟨rfl, hold⟩)
    · exact ⟨x, hx, if_neg hne⟩
    · exact ⟨old, hold, if_pos rfl⟩

theorem mem_appendMissing {sid x : String} {ids : List String} :
    x ∈ appendMissing sid ids ↔ x ∈ ids ∨ x = sid := by
  unfold appendMissing
  split_ifs with hsid
  · constructor
    · exact Or.inl
    · rintro (hx | rfl)
      · exact hx
      · exact hsid
  · rw [List.mem_append, List.mem_singleton]

theorem nodup_appendMissing (sid : String) {ids : List String} (h : ids.Nodup) :
    (appendMissing sid ids).Nodup := by
  unfold appendMissing
  split_ifs with hsid
  · exact h
  · rw [List.nodup_append']
    exact ⟨h, by simp, by simpa [List.disjoint_singleton] using hsid⟩

variable {env : SubjectEnv}

theorem aliasIndexRows_eq (subjectId : String) (aliases : List String) :
    aliasIndexRows env subjectId aliases =
      (firstByKey (aliasKey env) [] aliases).map
        fun spelling => ⟨subjectId, aliasKey env spelling, spelling⟩ := by
  have h := foldl_eq_firstByKey (fun _ => rfl : ∀ spelling : String,
    SubjectAliasRow.aliasKey ⟨subjectId, aliasKey env spelling, spelling⟩ = aliasKey env spelling)
    [] aliases []
  simpa [aliasIndexRows] using h

theorem subjectId_of_mem_aliasIndexRows {subjectId : String} {aliases : List String}
    {row : SubjectAliasRow} (h : row ∈ aliasIndexRows env subjectId aliases) :
    row.subjectId = subjectId := by
  rw [aliasIndexRows_eq] at h
  obtain ⟨spelling, -, rfl⟩ := List.mem_map.1 h
  rfl

/-- **An index row of a subject records the first of its aliases that folds to the key.** -/
theorem mem_aliasIndexRows {subjectId : String} {aliases : List String} {row : SubjectAliasRow} :
    row ∈ aliasIndexRows env subjectId aliases ↔ row.subjectId = subjectId ∧
      aliasKey env row.spelling = row.aliasKey ∧
      aliases.find? (aliasKey env · = row.aliasKey) = some row.spelling := by
  rw [aliasIndexRows_eq, List.mem_map]
  constructor
  · rintro ⟨spelling, hmem, rfl⟩
    exact ⟨rfl, rfl, (mem_firstByKey.1 hmem).2⟩
  · rintro ⟨hsubject, hkey, hfind⟩
    refine ⟨row.spelling, mem_firstByKey.2 ⟨List.not_mem_nil, ?_⟩, ?_⟩
    · rw [hkey]
      exact hfind
    · rw [← hsubject, hkey]

/-- **A folded name is a key of a subject's index rows exactly when one of its aliases folds to
it.** -/
theorem exists_mem_aliasIndexRows {subjectId : String} {aliases : List String} {key : String} :
    (∃ row ∈ aliasIndexRows env subjectId aliases, row.aliasKey = key) ↔
      ∃ name ∈ aliases, aliasKey env name = key := by
  have hkeys : (∃ row ∈ aliasIndexRows env subjectId aliases, row.aliasKey = key) ↔
      key ∈ (firstByKey (aliasKey env) [] aliases).map (aliasKey env) := by
    rw [aliasIndexRows_eq]
    simp [List.mem_map]
  rw [hkeys, mem_map_firstByKey]
  simp

theorem nodup_keys_aliasIndexRows (subjectId : String) (aliases : List String) :
    ((aliasIndexRows env subjectId aliases).map SubjectAliasRow.key).Nodup := by
  have hkeys : (aliasIndexRows env subjectId aliases).map SubjectAliasRow.key =
      ((firstByKey (aliasKey env) [] aliases).map (aliasKey env)).map (subjectId, ·) := by
    rw [aliasIndexRows_eq]
    simp [SubjectAliasRow.key, Function.comp_def]
  rw [hkeys]
  exact nodup_map_firstByKey.map fun _ _ h => (Prod.mk.inj h).2

theorem missingNames_eq (held names : List String) :
    missingNames env held names = firstByKey env.lower held names := by
  have h := foldl_eq_firstByKey (fun _ => rfl : ∀ name, env.lower (id name) = env.lower name)
    held names []
  simpa [missingNames] using h

theorem subjectLinksOf_eq (p : Particle) :
    subjectLinksOf p = (firstByKey id [] p.subjectIds).map fun sid => ⟨p.id, sid⟩ := by
  have h := foldl_eq_firstByKey
    (fun _ => rfl : ∀ sid : String, ParticleSubjectRow.subjectId ⟨p.id, sid⟩ = id sid)
    [] p.subjectIds []
  exact h

/-- A new particle is linked to the subjects it names. -/
theorem mem_subjectLinksOf {p : Particle} {link : ParticleSubjectRow} :
    link ∈ subjectLinksOf p ↔ link.particleId = p.id ∧ link.subjectId ∈ p.subjectIds := by
  have hmem : ∀ sid, sid ∈ firstByKey id [] p.subjectIds ↔ sid ∈ p.subjectIds := by
    intro sid
    have h : sid ∈ (firstByKey id [] p.subjectIds).map id ↔ _ := mem_map_firstByKey
    simpa using h
  rw [subjectLinksOf_eq, List.mem_map]
  constructor
  · rintro ⟨sid, hsid, rfl⟩
    exact ⟨rfl, (hmem sid).1 hsid⟩
  · rintro ⟨hpid, hsid⟩
    exact ⟨link.subjectId, (hmem _).2 hsid, by rw [← hpid]⟩

end Loops

/-! ### The views after one row is written -/

section Rows

theorem ParticleSubjectRow.key_injective : Function.Injective ParticleSubjectRow.key := by
  rintro ⟨p, x⟩ ⟨q, y⟩ h
  simpa [ParticleSubjectRow.key] using h

variable {links : Table ParticleSubjectRow.key} {p q x y : String} {link : ParticleSubjectRow}

@[simp] theorem mem_linkParticle :
    link ∈ (linkParticle links p x).rows ↔ link ∈ links.rows ∨ link = ⟨p, x⟩ :=
  Table.mem_rows_insertIfAbsent ParticleSubjectRow.key_injective

@[simp] theorem mem_unlinkParticle :
    link ∈ (unlinkParticle links p x).rows ↔ link ∈ links.rows ∧ link ≠ ⟨p, x⟩ := by
  simp [unlinkParticle]

theorem isLinked_iff : isLinked links p x = true ↔ ⟨p, x⟩ ∈ links.rows := by
  unfold isLinked
  rw [Option.isSome_iff_exists]
  constructor
  · rintro ⟨link, h⟩
    obtain ⟨hmem, hkey⟩ := Table.get?_eq_some.1 h
    obtain rfl : link = ⟨p, x⟩ := ParticleSubjectRow.key_injective hkey
    exact hmem
  · intro h
    exact ⟨_, Table.get?_key h⟩

variable (store : Store) (f : List String → List String)

theorem get?_modifySubjectIds (k : String) :
    (store.modifySubjectIds p f).get? k =
      if p = k then (store.get? k).map (·.withSubjectIds f) else store.get? k :=
  Store.get?_modifyParticle _ _ _ (ParticleRow.id_withSubjectIds f)
    (ParticleRow.rowid_withSubjectIds f) k

@[simp] theorem isSome_get?_modifySubjectIds (k : String) :
    ((store.modifySubjectIds p f).get? k).isSome = (store.get? k).isSome := by
  rw [get?_modifySubjectIds]
  split_ifs
  · rw [Option.isSome_map]
  · rfl

/-- A write of one particle's ids leaves those of the others. -/
theorem idsOf_modifySubjectIds {row : ParticleRow} (hrow : store.get? p = some row) (k : String) :
    (store.modifySubjectIds p f).idsOf k =
      if p = k then f (store.idsOf k) else store.idsOf k := by
  unfold Store.idsOf
  rw [get?_modifySubjectIds]
  split_ifs with hk
  · subst hk
    rw [hrow]
    rfl
  · rfl

/-- The same when the join rows are written with the ids. -/
theorem idsOf_relinked {row : ParticleRow} (hrow : store.get? p = some row)
    (links : Table ParticleSubjectRow.key) (k : String) :
    (({ store with subjectLinks := links }).modifySubjectIds p f).idsOf k =
      if p = k then f (store.idsOf k) else store.idsOf k :=
  idsOf_modifySubjectIds { store with subjectLinks := links } f hrow k

theorem get?_modifySubject (g : Subject → Subject) (hid : ∀ subject, (g subject).id = subject.id) :
    (store.modifySubject x g hid).subjects.get? y =
      if x = y then (store.subjects.get? y).map g else store.subjects.get? y :=
  Table.get?_modify store.subjects x g hid y

theorem get?_modifyAllSubjectIds (k : String) :
    (store.modifyAllSubjectIds f).get? k = (store.get? k).map (·.withSubjectIds f) :=
  ParticleTable.get?_modifyAll _ _ (ParticleRow.id_withSubjectIds f)
    (ParticleRow.rowid_withSubjectIds f) k

theorem idsOf_modifyAllSubjectIds (hf : f [] = []) (k : String) :
    (store.modifyAllSubjectIds f).idsOf k = f (store.idsOf k) := by
  unfold Store.idsOf
  rw [get?_modifyAllSubjectIds]
  cases store.get? k with
  | none => exact hf.symm
  | some row => rfl

end Rows

/-! ### The alias index -/

section Index

variable {env : SubjectEnv} {store store' : Store} {subjectId : String} {aliases : List String}

/-- **A re-index of one subject** rewrites its index rows, and those of no other. -/
theorem indexAliases_spec (h : indexAliases env store subjectId aliases = .ok store') :
    (∀ x, store'.indexRows x =
      if subjectId = x then aliasIndexRows env subjectId aliases else store.indexRows x) ∧
    store' = { store with aliasRows := store'.aliasRows } := by
  simp only [indexAliases, bind_eq_ok, insertAll_eq_ok] at h
  obtain ⟨aliasRows, ⟨-, hrows⟩, hstore⟩ := h
  obtain rfl := Except.ok.inj hstore
  refine ⟨fun x => ?_, rfl⟩
  simp only [Store.indexRows, hrows, List.filter_append, Table.rows_filter, List.filter_filter]
  split_ifs with hx
  · subst hx
    have hold : (store.aliasRows.rows.filter fun row =>
        decide (row.subjectId = subjectId) && decide (row.subjectId ≠ subjectId)) = [] := by
      simp
    have hnew : (aliasIndexRows env subjectId aliases).filter (fun row =>
        row.subjectId = subjectId) = aliasIndexRows env subjectId aliases := by
      rw [List.filter_eq_self]
      intro row hrow
      simpa using subjectId_of_mem_aliasIndexRows hrow
    rw [hold, hnew, List.nil_append]
  · have hnew : (aliasIndexRows env subjectId aliases).filter (fun row =>
        row.subjectId = x) = [] := by
      rw [List.filter_eq_nil_iff]
      intro row hrow
      simpa [subjectId_of_mem_aliasIndexRows hrow] using hx
    rw [hnew, List.append_nil]
    refine List.filter_congr fun row _ => ?_
    by_cases hrow : row.subjectId = x
    · simp [hrow, Ne.symm hx]
    · simp [hrow]

/-- The index rows of a subject can always be rewritten. -/
theorem indexAliases_isOk (env : SubjectEnv) (store : Store) (subjectId : String)
    (aliases : List String) : ∃ store', indexAliases env store subjectId aliases = .ok store' := by
  have hnodup : (((store.aliasRows.filter fun row => row.subjectId ≠ subjectId).rows ++
      aliasIndexRows env subjectId aliases).map SubjectAliasRow.key).Nodup := by
    rw [List.map_append, List.nodup_append']
    refine ⟨Table.nodup _, nodup_keys_aliasIndexRows subjectId aliases, ?_⟩
    intro key hold hnew
    obtain ⟨row, hrow, rfl⟩ := List.mem_map.1 hold
    obtain ⟨row', hrow', hkey⟩ := List.mem_map.1 hnew
    have hne : row.subjectId ≠ subjectId := by simpa using (List.mem_filter.1 hrow).2
    exact hne ((Prod.mk.inj hkey).1 ▸ subjectId_of_mem_aliasIndexRows hrow')
  refine ⟨{ store with aliasRows := ⟨_, hnodup⟩ }, ?_⟩
  unfold indexAliases
  rw [bind_eq_ok]
  exact ⟨⟨_, hnodup⟩, insertAll_eq_ok.2 ⟨hnodup, rfl⟩, rfl⟩

/-- **A write of a subject's aliases** rewrites them and its index rows together. -/
theorem setAliases_spec (h : setAliases env store subjectId aliases = .ok store') :
    (∀ x, store'.subjects.get? x =
      if subjectId = x then (store.subjects.get? x).map (·.withAliases aliases)
      else store.subjects.get? x) ∧
    (∀ x, store'.indexRows x =
      if subjectId = x then aliasIndexRows env subjectId aliases else store.indexRows x) ∧
    store' = { store with subjects := store'.subjects, aliasRows := store'.aliasRows } := by
  obtain ⟨hindex, hframe⟩ := indexAliases_spec h
  refine ⟨fun x => ?_, hindex, ?_⟩
  · rw [hframe]
    exact get?_modifySubject store _ (Subject.id_withAliases aliases)
  · rw [hframe]
    rfl

theorem indexRows_dropAliases (subjectIds : List String) (x : String) :
    (dropAliases store subjectIds).indexRows x =
      if x ∈ subjectIds then [] else store.indexRows x := by
  simp only [dropAliases, Store.indexRows, Table.rows_filter, List.filter_filter]
  split_ifs with hx
  · rw [List.filter_eq_nil_iff]
    intro row _ h
    simp only [Bool.and_eq_true, decide_eq_true_eq] at h
    exact h.2 (h.1 ▸ hx)
  · refine List.filter_congr fun row _ => ?_
    by_cases hrow : row.subjectId = x
    · simp [hrow, hx]
    · simp [hrow]

end Index

/-! ### One subject -/

section Subjects

variable {env : SubjectEnv} {store store' : Store} {subject : Subject} {subjectId : String}

/-- **An insert** adds a subject that was missing, with its index rows. -/
theorem insertSubject_spec (h : insertSubject env store subject = .ok store') :
    store.subjects.get? subject.id = none ∧
    (∀ x, store'.subjects.get? x =
      if subject.id = x then some subject else store.subjects.get? x) ∧
    (∀ x, store'.indexRows x =
      if subject.id = x then aliasIndexRows env subject.id subject.aliases
      else store.indexRows x) ∧
    store' = { store with subjects := store'.subjects, aliasRows := store'.aliasRows } := by
  simp only [insertSubject, bind_eq_ok, orRaise_eq_ok] at h
  obtain ⟨subjects, hsubjects, hstore⟩ := h
  obtain ⟨hindex, hframe⟩ := indexAliases_spec hstore
  refine ⟨(Table.insert?_eq_some.1 hsubjects).1, fun x => ?_, hindex, ?_⟩
  · rw [hframe]
    exact Table.get?_insert? hsubjects x
  · rw [hframe]

/-- What the write of new aliases leaves, whether there are some or none. -/
theorem ite_setAliases_spec {subject : Subject} {added : List String}
    (hsubject : store.subjects.get? subjectId = some subject)
    (h : (if added = [] then .ok store
      else setAliases env store subjectId (subject.aliases ++ added)) = .ok store') :
    (∀ x, store'.subjects.get? x =
      if subjectId = x then some (subject.withAliases (subject.aliases ++ added))
      else store.subjects.get? x) ∧
    (∀ x, store'.indexRows x =
      if subjectId = x ∧ added ≠ [] then aliasIndexRows env x (subject.aliases ++ added)
      else store.indexRows x) ∧
    store' = { store with subjects := store'.subjects, aliasRows := store'.aliasRows } := by
  split_ifs at h with hadded
  · obtain rfl := Except.ok.inj h
    refine ⟨fun x => ?_, fun x => ?_, rfl⟩
    · split_ifs with hx
      · rw [← hx, hsubject, hadded, List.append_nil]
        rfl
      · rfl
    · rw [if_neg (fun h => h.2 hadded)]
  · obtain ⟨hsubjects, hindex, hframe⟩ := setAliases_spec h
    refine ⟨fun x => ?_, fun x => ?_, hframe⟩
    · rw [hsubjects]
      split_ifs with hx
      · rw [← hx, hsubject]
        rfl
      · rfl
    · rw [hindex]
      by_cases hx : subjectId = x
      · rw [if_pos hx, if_pos ⟨hx, hadded⟩, hx]
      · rw [if_neg hx, if_neg (fun h => hx h.1)]

/-- **New aliases** are those that fold to no name of the subject; they join its list and its index
rows. -/
theorem addAliases_spec {newAliases added : List String} {subject' : Subject}
    (h : addAliases env store subjectId newAliases = .ok (store', subject', added)) :
    ∃ subject, store.subjects.get? subjectId = some subject ∧
      (∀ x, store'.subjects.get? x =
        if subjectId = x then some (subject.withAliases (subject.aliases ++ added))
        else store.subjects.get? x) ∧
      (∀ x, store'.indexRows x =
        if subjectId = x ∧ added ≠ [] then aliasIndexRows env x (subject.aliases ++ added)
        else store.indexRows x) ∧
      store' = { store with subjects := store'.subjects, aliasRows := store'.aliasRows } := by
  simp only [addAliases, bind_eq_ok, orRaise_eq_ok] at h
  obtain ⟨subject, hsubject, written, hwritten, hresult⟩ := h
  obtain ⟨rfl, -, rfl⟩ : written = store' ∧ _ ∧ _ = added := by
    simpa only [pure, Except.pure, Except.ok.injEq, Prod.mk.injEq] using hresult
  exact ⟨subject, hsubject, ite_setAliases_spec hsubject hwritten⟩

theorem detachedIds_nil (env : SubjectEnv) (subjectId : String) :
    detachedIds env subjectId [] = [] := by
  unfold detachedIds
  split_ifs <;> rfl

/-- What a deletion of a subject leaves. -/
structure DeleteEffect (env : SubjectEnv) (subjectId : String) (store store' : Store) : Prop where
  subjects : ∀ x, store'.subjects.get? x =
    if subjectId = x then none else store.subjects.get? x
  indexRows : ∀ x, store'.indexRows x = if subjectId = x then [] else store.indexRows x
  linked : ∀ p x, store'.Linked p x ↔ store.Linked p x ∧ x ≠ subjectId
  ids : ∀ p, store'.idsOf p = detachedIds env subjectId (store.idsOf p)
  particles : ∀ p, (store'.get? p).isSome = (store.get? p).isSome

/-- **A deletion** takes the subject out of every view, but for the ids of the particles whose text
does not match. -/
theorem deleteSubject_spec {count : ℕ}
    (h : deleteSubject env store subjectId = .ok (store', subject, count)) :
    DeleteEffect env subjectId store store' := by
  simp only [deleteSubject, bind_eq_ok, orRaise_eq_ok] at h
  obtain ⟨found, -, hresult⟩ := h
  obtain ⟨rfl, -, -⟩ : _ = store' ∧ _ ∧ _ := by
    simpa only [pure, Except.pure, Except.ok.injEq, Prod.mk.injEq] using hresult
  refine ⟨fun x => ?_, fun x => ?_, fun p x => ?_, fun p => ?_, fun p => ?_⟩
  · exact Table.get?_filter_key_ne store.subjects subjectId x
  · rw [indexRows_dropAliases]
    simp only [List.mem_singleton, eq_comm]
    rfl
  · exact List.mem_filter.trans (and_congr_right fun _ => by simp)
  · exact idsOf_modifyAllSubjectIds _ _ (detachedIds_nil env subjectId) p
  · have hget := get?_modifyAllSubjectIds store (detachedIds env subjectId) p
    refine Eq.trans (congrArg Option.isSome hget) ?_
    rw [Option.isSome_map]

end Subjects

/-! ### The links of a particle -/

section Links

variable {store store' : Store}

/-- **A new particle** is linked to the subjects it names. -/
theorem insertParticle_links {contentHash : String → String} {modelId : String} {p : Particle}
    {embedding : Option EmbeddingJson}
    (h : insertParticle contentHash modelId store p embedding = .ok store') :
    (∀ q x, store'.Linked q x ↔ store.Linked q x ∨ q = p.id ∧ x ∈ p.subjectIds) ∧
      (∀ q, store'.idsOf q = if p.id = q then p.subjectIds else store.idsOf q) ∧
      store'.subjects = store.subjects ∧ store'.aliasRows = store.aliasRows := by
  obtain ⟨-, -, row, rfl, -, -, -, hget⟩ := get?_insertParticle h
  simp only [insertParticle, bind_eq_ok, insertAll_eq_ok] at h
  obtain ⟨-, -, particles, -, edges, -, links, ⟨-, hlinks⟩, _, -, hstore⟩ := h
  obtain rfl := Except.ok.inj hstore
  refine ⟨fun q x => ?_, fun q => ?_, rfl, rfl⟩
  · refine Iff.trans (Eq.to_iff (congrArg (⟨q, x⟩ ∈ ·) hlinks)) ?_
    rw [List.mem_append, mem_subjectLinksOf]
    rfl
  · unfold Store.idsOf
    rw [hget]
    split_ifs <;> rfl

/-- Links to existing subjects, added one by one. -/
theorem foldlM_attach {particleId : String} (subjects : Table Subject.id) (ids : List String) :
    ∀ {links links' : Table ParticleSubjectRow.key},
      ids.foldlM (fun links sid => do
        require (subjects.get? sid).isSome (.subjectNotFound sid)
        orRaise (links.insert? ⟨particleId, sid⟩) .integrity) links = .ok links' →
      (∀ sid ∈ ids, (subjects.get? sid).isSome) ∧
        links'.rows = links.rows ++ ids.map (⟨particleId, ·⟩) := by
  induction ids with
  | nil =>
      intro links links' h
      obtain rfl := Except.ok.inj h
      simp
  | cons sid ids ih =>
      intro links links' h
      rw [List.foldlM_cons] at h
      simp only [bind_eq_ok, require_eq_ok, orRaise_eq_ok] at h
      obtain ⟨mid, ⟨-, hsid, hmid⟩, hrest⟩ := h
      obtain ⟨hall, hrows⟩ := ih hrest
      refine ⟨?_, ?_⟩
      · intro x hx
        rcases List.mem_cons.1 hx with rfl | hx
        · exact hsid
        · exact hall x hx
      · rw [hrows, (Table.insert?_eq_some.1 hmid).2]
        simp

/-- **An attachment** gives a particle without subjects those of the list, which all exist. -/
theorem attachSubjectsInPlace_spec {particleId : String} {subjectIds ids : List String}
    (h : attachSubjectsInPlace store particleId subjectIds = .ok (store', ids)) :
    ids.Nodup ∧ (∀ sid ∈ ids, (store.subjects.get? sid).isSome) ∧
      (∀ x, ¬ store.Linked particleId x) ∧
      (∀ p x, store'.Linked p x ↔ store.Linked p x ∨ p = particleId ∧ x ∈ ids) ∧
      (∀ p, store'.idsOf p = if particleId = p then ids else store.idsOf p) ∧
      store'.subjects = store.subjects ∧ store'.aliasRows = store.aliasRows := by
  simp only [attachSubjectsInPlace, bind_eq_ok, require_eq_ok, orRaise_eq_ok,
    decide_eq_true_eq] at h
  obtain ⟨-, -, row, hrow, -, ⟨hfree, -⟩, links, hlinks, hresult⟩ := h
  obtain ⟨rfl, rfl⟩ : _ = store' ∧ _ = ids := by
    simpa only [pure, Except.pure, Except.ok.injEq, Prod.mk.injEq] using hresult
  obtain ⟨hall, hrows⟩ := foldlM_attach store.subjects _ hlinks
  refine ⟨nodup_rebound _ _, hall, ?_, fun p x => ?_, fun p => ?_, rfl, rfl⟩
  · intro x hx
    simpa using List.all_eq_true.1 hfree _ hx
  · refine Iff.trans (Eq.to_iff (congrArg (⟨p, x⟩ ∈ ·) hrows)) ?_
    rw [List.mem_append, List.mem_map]
    refine or_congr Iff.rfl ?_
    constructor
    · rintro ⟨sid, hsid, heq⟩
      obtain ⟨rfl, rfl⟩ : particleId = p ∧ sid = x := by simpa using heq
      exact ⟨rfl, hsid⟩
    · rintro ⟨rfl, hx⟩
      exact ⟨x, hx, rfl⟩
  · exact idsOf_relinked store _ hrow links p

/-- What moving one particle from a subject to another leaves. -/
structure SplitEffect (sourceId newSubjectId particleId : String) (store store' : Store) : Prop where
  subjects : store'.subjects = store.subjects
  aliasRows : store'.aliasRows = store.aliasRows
  linked : ∀ p x, store'.Linked p x ↔
    if p = particleId then x = newSubjectId ∨ store.Linked p x ∧ x ≠ sourceId
    else store.Linked p x
  ids : (store.get? particleId).isSome → ∀ p, store'.idsOf p =
    if p = particleId then replaceId sourceId newSubjectId (store.idsOf p) else store.idsOf p

/-- **A particle bound to the source** of a split moves, and any other is left. -/
theorem splitParticle_spec {sourceId newSubjectId : String}
    (acc : Store × List String × List String) (q : String) :
    (acc.1.Linked q sourceId ∧ SplitEffect sourceId newSubjectId q acc.1
      (splitParticle sourceId newSubjectId acc q).1) ∨
    (splitParticle sourceId newSubjectId acc q).1 = acc.1 := by
  obtain ⟨store, relinked, notBound⟩ := acc
  simp only [splitParticle]
  split_ifs with hbound
  · refine Or.inl ⟨isLinked_iff.1 hbound, rfl, rfl, fun p x => ?_, fun hsome p => ?_⟩
    · refine Iff.trans mem_linkParticle ?_
      simp only [mem_unlinkParticle, Store.Linked, ParticleSubjectRow.mk.injEq, ne_eq]
      grind
    · obtain ⟨row, hrow⟩ := Option.isSome_iff_exists.1 hsome
      rw [idsOf_relinked store _ hrow]
      simp only [eq_comm]
  · exact Or.inr rfl

/-- A split is between two existing subjects, and runs through its particles. -/
theorem splitSubject_spec {sourceId newSubjectId : String} {pids relinked notBound : List String}
    (h : splitSubject store sourceId newSubjectId pids = .ok (store', relinked, notBound)) :
    (store.subjects.get? newSubjectId).isSome ∧
      (pids.foldl (splitParticle sourceId newSubjectId) (store, [], [])).1 = store' := by
  simp only [splitSubject, bind_eq_ok, require_eq_ok, orRaise_eq_ok] at h
  obtain ⟨-, -, _, -, new, hnew, hresult⟩ := h
  exact ⟨by rw [hnew]; rfl, congrArg Prod.fst (Except.ok.inj hresult)⟩

end Links

/-! ### Merges -/

section Merges

variable {env : SubjectEnv} {store store' : Store}

theorem mem_of_onlyMatch {sid : String} {subject : Subject} {matched : List Subject}
    (h : onlyMatch sid matched = .ok (some subject)) : subject ∈ matched := by
  cases matched with
  | nil => cases h
  | cons first rest =>
      cases rest with
      | nil =>
          obtain rfl : first = subject := by simpa [onlyMatch] using h
          exact List.mem_cons_self
      | cons second rest => cases h

/-- A subject that is found has a row under its id. -/
theorem get?_getSubject {sid : String} {subject : Subject}
    (h : getSubject env store sid = .ok (some subject)) :
    store.subjects.get? subject.id = some subject := by
  unfold getSubject at h
  cases hget : store.subjects.get? sid with
  | some found =>
      rw [hget] at h
      obtain rfl : found = subject := by simpa using h
      rw [Table.key_of_get? hget]
      exact hget
  | none =>
      rw [hget] at h
      exact Table.get?_key (List.mem_filter.1 (mem_of_onlyMatch h)).1

/-- The sources that are resolved exist, are not the target, and are there once. -/
theorem resolveSources_spec {target : Subject} {sourceIds : List String} {resolved : List Subject}
    (h : resolveSources env store target sourceIds = .ok resolved) :
    (∀ source ∈ resolved, store.subjects.get? source.id = some source ∧ source.id ≠ target.id) ∧
      (resolved.map Subject.id).Nodup := by
  suffices hfold : ∀ (sids : List String) (acc : List Subject),
      (∀ source ∈ acc, store.subjects.get? source.id = some source ∧ source.id ≠ target.id) →
      (acc.map Subject.id).Nodup →
      ∀ resolved, sids.foldlM (fun resolved sid => do
        let source ← getSubject env store sid
        let source ← orRaise source (.subjectNotFound sid)
        require (source.id ≠ target.id) (.sourceIsTarget source.id)
        require (source.id ∉ resolved.map Subject.id) (.repeatedSource source.id)
        return resolved ++ [source]) acc = .ok resolved →
      (∀ source ∈ resolved, store.subjects.get? source.id = some source ∧
        source.id ≠ target.id) ∧ (resolved.map Subject.id).Nodup from
    hfold sourceIds [] (by simp) (by simp) resolved h
  intro sids
  induction sids with
  | nil =>
      intro acc hacc hnodup resolved h
      obtain rfl := Except.ok.inj h
      exact ⟨hacc, hnodup⟩
  | cons sid sids ih =>
      intro acc hacc hnodup resolved h
      rw [List.foldlM_cons] at h
      simp only [bind_eq_ok, orRaise_eq_ok, require_eq_ok, decide_eq_true_eq] at h
      obtain ⟨next, ⟨_, hfound, source, rfl, -, hne, -, hfresh, hnext⟩, hrest⟩ := h
      obtain rfl := Except.ok.inj hnext
      refine ih _ ?_ ?_ resolved hrest
      · intro s hs
        rcases List.mem_append.1 hs with hs | hs
        · exact hacc s hs
        · obtain rfl := List.mem_singleton.1 hs
          exact ⟨get?_getSubject hfound, hne⟩
      · rw [List.map_append, List.nodup_append']
        refine ⟨hnodup, by simp, ?_⟩
        simpa [List.disjoint_singleton] using hfresh

/-- The ids of the sources of a plan. -/
def SubjectMergePlan.sourceIds (plan : SubjectMergePlan) : List String :=
  plan.sources.map MergeSourcePlan.subjectId

/-- The refs that the target of a plan gains. -/
def SubjectMergePlan.carried (plan : SubjectMergePlan) : List ExternalRef :=
  plan.sources.flatMap MergeSourcePlan.refsCarried

/-- The target of a plan once it is written. -/
def SubjectMergePlan.merged (plan : SubjectMergePlan) : Subject :=
  (plan.target.withAliases (plan.target.aliases ++ plan.aliasesAdded)).withRefs (· ++ plan.carried)

/-- The subjects that a merge of some sources takes away: the ones that the ids name. -/
def resolvedIds (env : SubjectEnv) (store : Store) (sourceIds : List String) : List String :=
  sourceIds.filterMap fun sid => ((getSubject env store sid).toOption.join).map Subject.id

/-- The sources that are resolved are the subjects that the ids name, in order. -/
theorem map_id_resolveSources {target : Subject} {sourceIds : List String} {resolved : List Subject}
    (h : resolveSources env store target sourceIds = .ok resolved) :
    resolved.map Subject.id = resolvedIds env store sourceIds := by
  suffices hfold : ∀ (sids : List String) (acc resolved : List Subject),
      sids.foldlM (fun resolved sid => do
        let source ← getSubject env store sid
        let source ← orRaise source (.subjectNotFound sid)
        require (source.id ≠ target.id) (.sourceIsTarget source.id)
        require (source.id ∉ resolved.map Subject.id) (.repeatedSource source.id)
        return resolved ++ [source]) acc = .ok resolved →
      resolved.map Subject.id = acc.map Subject.id ++ resolvedIds env store sids by
    simpa using hfold sourceIds [] resolved h
  intro sids
  induction sids with
  | nil =>
      intro acc resolved h
      obtain rfl := Except.ok.inj h
      simp [resolvedIds]
  | cons sid sids ih =>
      intro acc resolved h
      rw [List.foldlM_cons] at h
      simp only [bind_eq_ok, orRaise_eq_ok, require_eq_ok] at h
      obtain ⟨next, ⟨_, hfound, source, rfl, -, -, -, -, hnext⟩, hrest⟩ := h
      obtain rfl := Except.ok.inj hnext
      have hnamed : resolvedIds env store (sid :: sids) =
          source.id :: resolvedIds env store sids := by
        simp [resolvedIds, hfound, Except.toOption]
      rw [ih _ _ hrest, hnamed, List.map_append, List.append_assoc]
      rfl

/-- What a plan found in the store. -/
structure PlanFound (store : Store) (plan : SubjectMergePlan) : Prop where
  target : store.subjects.get? plan.target.id = some plan.target
  sources : ∀ sid ∈ plan.sourceIds, (store.subjects.get? sid).isSome ∧ sid ≠ plan.target.id

/-- The plans of the sources name the sources, in order. -/
theorem map_subjectId_plans (f : List MergeSourcePlan → Subject → MergeSourcePlan)
    (hf : ∀ plans source, (f plans source).subjectId = source.id) (resolved : List Subject) :
    ∀ plans : List MergeSourcePlan,
      (resolved.foldl (fun plans source => plans ++ [f plans source]) plans).map
        MergeSourcePlan.subjectId = plans.map MergeSourcePlan.subjectId ++
          resolved.map Subject.id := by
  induction resolved with
  | nil =>
      intro plans
      simp
  | cons source resolved ih =>
      intro plans
      rw [List.foldl_cons, ih]
      simp [hf]

/-- **A plan that is made** found its target and its sources. -/
theorem planSubjectMerge_spec {sourceIds : List String} {targetId : String}
    {plan : SubjectMergePlan} (h : planSubjectMerge env store sourceIds targetId = .ok plan) :
    PlanFound store plan := by
  simp only [planSubjectMerge, bind_eq_ok, orRaise_eq_ok] at h
  obtain ⟨-, -, _, htarget, target, rfl, resolved, hresolved, hplan⟩ := h
  obtain rfl := Except.ok.inj hplan
  refine ⟨get?_getSubject htarget, ?_⟩
  intro sid hsid
  rw [SubjectMergePlan.sourceIds, map_subjectId_plans _ (fun _ _ => rfl)] at hsid
  obtain ⟨source, hsource, rfl⟩ := List.mem_map.1 (by simpa using hsid)
  obtain ⟨hget, hne⟩ := (resolveSources_spec hresolved).1 source hsource
  exact ⟨by rw [hget]; rfl, hne⟩

/-- The sources of a plan are the subjects that the ids name. -/
theorem sourceIds_planSubjectMerge {sourceIds : List String} {targetId : String}
    {plan : SubjectMergePlan} (h : planSubjectMerge env store sourceIds targetId = .ok plan) :
    plan.sourceIds = resolvedIds env store sourceIds := by
  simp only [planSubjectMerge, bind_eq_ok, orRaise_eq_ok] at h
  obtain ⟨-, -, _, -, target, rfl, resolved, hresolved, hplan⟩ := h
  obtain rfl := Except.ok.inj hplan
  rw [SubjectMergePlan.sourceIds, map_subjectId_plans _ (fun _ _ => rfl),
    ← map_id_resolveSources hresolved]
  rfl

/-- **The join rows of the sources become rows of the target**, and no other row moves. -/
theorem mem_relinkRow {targetId : String} (rows : List ParticleSubjectRow)
    (hne : ∀ row ∈ rows, row.subjectId ≠ targetId) :
    ∀ (acc : Relinking) (p x : String),
      ⟨p, x⟩ ∈ (rows.foldl (relinkRow targetId) acc).links.rows ↔
        (⟨p, x⟩ ∈ acc.links.rows ∧ ⟨p, x⟩ ∉ rows) ∨
          x = targetId ∧ ∃ row ∈ rows, row.particleId = p := by
  induction rows with
  | nil =>
      intro acc p x
      simp
  | cons row rows ih =>
      intro acc p x
      have hrow : row.subjectId ≠ targetId := hne row List.mem_cons_self
      rw [List.foldl_cons, ih (fun r hr => hne r (List.mem_cons_of_mem _ hr))]
      simp only [relinkRow, mem_linkParticle, mem_unlinkParticle, List.mem_cons,
        exists_eq_or_imp, ParticleSubjectRow.mk.injEq]
      obtain ⟨q, y⟩ := row
      simp only [ParticleSubjectRow.mk.injEq]
      grind

/-- Every particle of a source is relinked. -/
theorem relinkedPids_relinkRow (targetId : String) (rows : List ParticleSubjectRow) :
    ∀ acc : Relinking, (rows.foldl (relinkRow targetId) acc).relinkedPids =
      acc.relinkedPids ++ rows.map ParticleSubjectRow.particleId := by
  induction rows with
  | nil =>
      intro acc
      simp
  | cons row rows ih =>
      intro acc
      rw [List.foldl_cons, ih]
      simp [relinkRow]

/-- **The particles found on the target already** are those the target had before the merge. -/
theorem mem_alreadyOnTarget_relinkRow {targetId : String} (rows : List ParticleSubjectRow)
    (hne : ∀ row ∈ rows, row.subjectId ≠ targetId) :
    ∀ (acc : Relinking) (p : String),
      p ∈ (rows.foldl (relinkRow targetId) acc).alreadyOnTarget ↔ p ∈ acc.alreadyOnTarget ∨
        ⟨p, targetId⟩ ∈ acc.links.rows ∧ p ∉ acc.relinkedPids ∧
          ∃ row ∈ rows, row.particleId = p := by
  induction rows with
  | nil =>
      intro acc p
      simp
  | cons row rows ih =>
      intro acc p
      obtain ⟨q, y⟩ := row
      have hrow : y ≠ targetId := hne ⟨q, y⟩ List.mem_cons_self
      rw [List.foldl_cons, ih (fun r hr => hne r (List.mem_cons_of_mem _ hr))]
      have hstep : p ∈ (relinkRow targetId acc ⟨q, y⟩).alreadyOnTarget ↔
          p ∈ acc.alreadyOnTarget ∨
            p = q ∧ ⟨q, targetId⟩ ∈ acc.links.rows ∧ q ∉ acc.relinkedPids := by
        simp only [relinkRow, isLinked_iff]
        split_ifs with hnew
        · rw [List.mem_append, List.mem_singleton]
          tauto
        · tauto
      rw [hstep]
      simp only [relinkRow, mem_linkParticle, mem_unlinkParticle, List.mem_cons,
        List.mem_append, exists_eq_or_imp, ParticleSubjectRow.mk.injEq, List.not_mem_nil, or_false]
      grind

theorem mergedIds_nil (env : SubjectEnv) (sources : List String) (target : String) :
    mergedIds env sources target [] = [] := by
  unfold mergedIds
  split_ifs <;> rfl

/-- What a merge leaves. -/
structure MergeEffect (env : SubjectEnv) (plan : SubjectMergePlan) (store store' : Store) :
    Prop where
  subjects : ∀ x, store'.subjects.get? x =
    if x ∈ plan.sourceIds then none
    else if plan.target.id = x then some plan.merged else store.subjects.get? x
  indexRows : ∀ x, store'.indexRows x =
    if x ∈ plan.sourceIds then []
    else if plan.target.id = x ∧ plan.aliasesAdded ≠ [] then
      aliasIndexRows env x plan.merged.aliases
    else store.indexRows x
  linked : ∀ p x, store'.Linked p x ↔ x ∉ plan.sourceIds ∧
    (store.Linked p x ∨ x = plan.target.id ∧ ∃ s ∈ plan.sourceIds, store.Linked p s)
  ids : ∀ p, store'.idsOf p = mergedIds env plan.sourceIds plan.target.id (store.idsOf p)
  particles : ∀ p, (store'.get? p).isSome = (store.get? p).isSome

/-- **A merge** makes the sources names, refs and links of the target. -/
theorem mergeSubjectsMany_spec {sourceIds : List String} {targetId : String}
    {record : Option SourceRecord} {result : MergeResult}
    (h : mergeSubjectsMany env store sourceIds targetId record = .ok (store', result)) :
    planSubjectMerge env store sourceIds targetId = .ok result.plan ∧
      MergeEffect env result.plan store store' := by
  simp only [mergeSubjectsMany, bind_eq_ok] at h
  obtain ⟨plan, hplan, written, hwritten, hresult⟩ := h
  obtain ⟨rfl, rfl⟩ : _ = store' ∧ _ = result := by
    simpa only [pure, Except.pure, Except.ok.injEq, Prod.mk.injEq] using hresult
  obtain ⟨htarget, hsources⟩ := planSubjectMerge_spec hplan
  refine ⟨hplan, ?_⟩
  obtain ⟨hsubjects, hindex, hframe⟩ := ite_setAliases_spec htarget hwritten
  have hlinks : written.subjectLinks = store.subjectLinks := by rw [hframe]
  have hparticles : written.particles = store.particles := by rw [hframe]
  refine ⟨fun x => ?_, fun x => ?_, fun p x => ?_, fun p => ?_, fun p => ?_⟩
  · have hfilter := Table.get?_filter_key
      (written.modifySubject plan.target.id (·.withRefs (· ++ plan.carried))
        (Subject.id_withRefs (· ++ plan.carried))).subjects (· ∉ plan.sourceIds) x
    refine Eq.trans hfilter ?_
    rw [get?_modifySubject, hsubjects]
    by_cases hx : x ∈ plan.sourceIds
    · simp [hx]
    · rw [if_pos (by simpa using hx), if_neg hx]
      split_ifs <;> rfl
  · rw [indexRows_dropAliases]
    exact if_congr Iff.rfl rfl (hindex x)
  · have hrows := mem_relinkRow
      (written.subjectLinks.rows.filter fun row => row.subjectId ∈ plan.sourceIds)
      (fun row hrow => (hsources _ (by simpa using (List.mem_filter.1 hrow).2)).2)
      ⟨written.subjectLinks, [], []⟩ p x
    refine Iff.trans hrows ?_
    rw [hlinks]
    simp only [List.mem_filter, decide_eq_true_eq]
    constructor
    · rintro (⟨hlink, hnot⟩ | ⟨rfl, ⟨q, s⟩, ⟨hlink, hs⟩, rfl⟩)
      · exact ⟨fun hx => hnot ⟨hlink, hx⟩, Or.inl hlink⟩
      · exact ⟨fun hx => (hsources _ hx).2 rfl, Or.inr ⟨rfl, s, hs, hlink⟩⟩
    · rintro ⟨hx, hlink | ⟨rfl, s, hs, hlink⟩⟩
      · exact Or.inl ⟨hlink, fun h => hx h.2⟩
      · exact Or.inr ⟨rfl, ⟨p, s⟩, ⟨hlink, hs⟩, rfl⟩
  · refine Eq.trans (idsOf_modifyAllSubjectIds _ _ (mergedIds_nil ..) p) ?_
    unfold Store.idsOf Store.get?
    rw [← hparticles]
    rfl
  · have hget := get?_modifyAllSubjectIds written (mergedIds env plan.sourceIds plan.target.id) p
    refine Eq.trans (congrArg Option.isSome hget) ?_
    rw [Option.isSome_map]
    unfold Store.get?
    rw [hparticles]

end Merges

/-! ### Restores -/

section Restores

/-- A relation between particles and subjects once the moved particles are back on the source: they
gain the source, and leave the target unless they are kept there. -/
def MovedBack (moved : String → Prop) (sourceId targetId : String) (keep : List String)
    (related : String → String → Prop) (p x : String) : Prop :=
  moved p ∧ x = sourceId ∨ related p x ∧ ¬ (moved p ∧ x = targetId ∧ p ∉ keep)

/-- What moving some particles back onto a source leaves. -/
structure RestoreEffect (moved : String → Prop) (sourceId targetId : String) (keep : List String)
    (store store' : Store) : Prop where
  subjects : store'.subjects = store.subjects
  aliasRows : store'.aliasRows = store.aliasRows
  linked : ∀ p x, store'.Linked p x ↔
    MovedBack moved sourceId targetId keep store.Linked p x
  mem_ids : ∀ p x, x ∈ store'.idsOf p ↔
    MovedBack moved sourceId targetId keep (fun p x => x ∈ store.idsOf p) p x
  nodup_ids : ∀ p, (store.idsOf p).Nodup → (store'.idsOf p).Nodup
  particles : ∀ p, (store'.get? p).isSome = (store.get? p).isSome

variable {sourceId targetId : String} {keep : List String} {store store' store'' : Store}
  {moved moved' : String → Prop}

theorem RestoreEffect.of_none (h : ∀ p, ¬ moved p) :
    RestoreEffect moved sourceId targetId keep store store where
  subjects := rfl
  aliasRows := rfl
  linked p x := by simp [MovedBack, h p]
  mem_ids p x := by simp [MovedBack, h p]
  nodup_ids _ hnodup := hnodup
  particles _ := rfl

/-- Moving some particles back, then others, moves both back. -/
theorem RestoreEffect.trans (hne : sourceId ≠ targetId)
    (h : RestoreEffect moved sourceId targetId keep store store')
    (h' : RestoreEffect moved' sourceId targetId keep store' store'') :
    RestoreEffect (fun p => moved p ∨ moved' p) sourceId targetId keep store store'' where
  subjects := h'.subjects.trans h.subjects
  aliasRows := h'.aliasRows.trans h.aliasRows
  linked p x := by
    rw [h'.linked]
    simp only [MovedBack, h.linked]
    grind
  mem_ids p x := by
    rw [h'.mem_ids]
    simp only [MovedBack, h.mem_ids]
    grind
  nodup_ids p hnodup := h'.nodup_ids p (h.nodup_ids p hnodup)
  particles p := (h'.particles p).trans (h.particles p)

theorem RestoreEffect.congr (heq : ∀ p, moved p ↔ moved' p)
    (h : RestoreEffect moved sourceId targetId keep store store') :
    RestoreEffect moved' sourceId targetId keep store store' := by
  obtain rfl : moved = moved' := funext fun p => propext (heq p)
  exact h

/-- One particle is moved back when it has a row. -/
theorem restoreParticle_spec (hne : sourceId ≠ targetId) (acc : Store × List String) (q : String) :
    RestoreEffect (fun p => p = q ∧ (acc.1.get? p).isSome) sourceId targetId keep acc.1
      (restoreParticle sourceId targetId keep acc q).1 := by
  obtain ⟨store, relinked⟩ := acc
  cases hrow : store.get? q with
  | none =>
      simp only [restoreParticle, hrow]
      refine RestoreEffect.of_none ?_
      rintro p ⟨rfl, hsome⟩
      simp [hrow] at hsome
  | some row =>
      have hmoved : ∀ p, p = q ↔ p = q ∧ (store.get? p).isSome := by
        intro p
        constructor
        · rintro rfl
          exact ⟨rfl, by rw [hrow]; rfl⟩
        · exact And.left
      refine RestoreEffect.congr hmoved ?_
      simp only [restoreParticle, hrow]
      split_ifs with hkeep
      · have hids := idsOf_relinked store (appendMissing sourceId) hrow
          (linkParticle store.subjectLinks q sourceId)
        refine ⟨rfl, rfl, fun p x => ?_, fun p x => ?_, fun p hnodup => ?_, fun p => ?_⟩
        · refine Iff.trans mem_linkParticle ?_
          simp only [MovedBack, Store.Linked, ParticleSubjectRow.mk.injEq]
          grind
        · rw [hids]
          simp only [MovedBack]
          split_ifs with hq
          · rw [mem_appendMissing]
            grind
          · grind
        · rw [hids]
          split_ifs
          · exact nodup_appendMissing sourceId hnodup
          · exact hnodup
        · exact isSome_get?_modifySubjectIds _ _ p
      · have hids := idsOf_relinked store
          (fun ids => appendMissing sourceId (replaceId targetId sourceId ids)) hrow
          (unlinkParticle (linkParticle store.subjectLinks q sourceId) q targetId)
        refine ⟨rfl, rfl, fun p x => ?_, fun p x => ?_, fun p hnodup => ?_, fun p => ?_⟩
        · refine Iff.trans mem_unlinkParticle ?_
          simp only [MovedBack, Store.Linked, mem_linkParticle, ParticleSubjectRow.mk.injEq, ne_eq]
          grind
        · rw [hids]
          simp only [MovedBack]
          split_ifs with hq
          · rw [mem_appendMissing, mem_replaceId]
            grind
          · grind
        · rw [hids]
          split_ifs
          · exact nodup_appendMissing sourceId (nodup_rebound _ _)
          · exact hnodup
        · exact isSome_get?_modifySubjectIds _ _ p

/-- **The loop moves back every particle of the list that has a row.** -/
theorem restoreParticles_spec (hne : sourceId ≠ targetId) (pids : List String) :
    ∀ acc : Store × List String,
      RestoreEffect (fun p => p ∈ pids ∧ (acc.1.get? p).isSome) sourceId targetId keep acc.1
        (pids.foldl (restoreParticle sourceId targetId keep) acc).1 := by
  induction pids with
  | nil =>
      intro acc
      exact RestoreEffect.of_none (by simp)
  | cons q pids ih =>
      intro acc
      have hstep : RestoreEffect _ sourceId targetId keep acc.1 _ :=
        restoreParticle_spec hne acc q
      refine RestoreEffect.congr ?_ (hstep.trans hne (ih _))
      intro p
      rw [hstep.particles, List.mem_cons]
      tauto

/-- **A restore** recreates the source, takes back from the target what the merge gave it, and moves
the particles back. -/
theorem restoreMergedSource_spec {env : SubjectEnv} {source : Subject}
    {pids aliasesAdded refsCarried relinked : List String}
    (h : restoreMergedSource env store source targetId pids keep aliasesAdded refsCarried =
      .ok (store', relinked)) :
    store.subjects.get? source.id = none ∧
      ∃ target, store.subjects.get? targetId = some target ∧
        (∀ x, store'.subjects.get? x =
          if source.id = x then some source
          else if targetId = x then
            some ((target.withAliases
              (target.aliases.filter fun name => env.lower name ∉ aliasesAdded.map env.lower)).withRefs
                fun refs => refs.filter (·.text ∉ refsCarried))
          else store.subjects.get? x) ∧
        (∀ x, store'.indexRows x =
          if source.id = x then aliasIndexRows env x source.aliases
          else if targetId = x then
            aliasIndexRows env x
              (target.aliases.filter fun name => env.lower name ∉ aliasesAdded.map env.lower)
          else store.indexRows x) ∧
        ∃ mid, (∀ p x, mid.Linked p x ↔ store.Linked p x) ∧ (∀ p, mid.idsOf p = store.idsOf p) ∧
          (∀ p, mid.get? p = store.get? p) ∧
          RestoreEffect (fun p => p ∈ pids ∧ (store.get? p).isSome) source.id targetId keep mid
            store' := by
  simp only [restoreMergedSource, bind_eq_ok, require_eq_ok, orRaise_eq_ok,
    Option.isNone_iff_eq_none] at h
  obtain ⟨-, hnone, target, htarget, inserted, hinserted, written, hwritten, hresult⟩ := h
  have hne : source.id ≠ targetId := by
    intro heq
    rw [heq, htarget] at hnone
    cases hnone
  obtain ⟨-, hsubjects, hindex, hframe⟩ := insertSubject_spec hinserted
  obtain ⟨hsubjects', hindex', hframe'⟩ := setAliases_spec hwritten
  refine ⟨hnone, target, htarget, ?_⟩
  set keepRefs : List ExternalRef → List ExternalRef := fun refs =>
    refs.filter (·.text ∉ refsCarried) with hkeepRefs
  set mid := written.modifySubject targetId (·.withRefs keepRefs) (Subject.id_withRefs keepRefs)
    with hmid
  have heffect : RestoreEffect _ source.id targetId keep mid _ :=
    restoreParticles_spec hne pids (mid, [])
  have hfinal : (pids.foldl (restoreParticle source.id targetId keep) (mid, [])).1 = store' :=
    congrArg Prod.fst (Except.ok.inj hresult)
  rw [hfinal] at heffect
  have hget : ∀ p, mid.get? p = store.get? p := by
    intro p
    rw [hmid, hframe', hframe]
    rfl
  refine ⟨fun x => ?_, fun x => ?_, mid, fun p x => ?_, fun p => ?_, hget, ?_⟩
  · rw [heffect.subjects]
    refine (get?_modifySubject written _ (Subject.id_withRefs keepRefs)).trans ?_
    rw [hsubjects', hsubjects]
    grind
  · have hrows : store'.indexRows x = mid.indexRows x := by
      unfold Store.indexRows
      rw [heffect.aliasRows]
    have hrows' : mid.indexRows x = written.indexRows x := rfl
    rw [hrows, hrows', hindex', hindex]
    grind
  · rw [hmid, hframe', hframe]
    rfl
  · unfold Store.idsOf
    rw [hget]
  · refine RestoreEffect.congr (fun p => ?_) heffect
    rw [hget]

end Restores

end ParticlesEngine
