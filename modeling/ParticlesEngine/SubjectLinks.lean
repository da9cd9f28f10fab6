/-
**The two records of the subject links stay in step.**

The subjects of a particle are listed in its row and again, pair by pair, in the join table.  Six
writes rewrite the two separately.  A merge and a deletion look for the rows to rewrite by a test on
their JSON text, which spells some characters of an id otherwise and so passes rows over.  This module
shows that the two stay in step over a run of the repository, whose inserts of particles name existing
subjects, each once, exactly as long as no row is passed over.

Main definitions:

* `InStep` — the list of a particle has no repetitions, names the subjects of its join rows, and
  names existing subjects only;
* `calledWell`, `applyWellCalled` — what an insert of a particle asks of its caller, and the runs
  in which every insert is called so;
* `Finds`, `CallFinds` — the text of every particle that names a subject to be taken away matches.

Main results:

* `InStep.merge`, `InStep.restore`, `InStep.split`, … — each write keeps the two in step;
* `inStep_run_iff` — **they are in step in every store that such a run reaches exactly when each step
  finds the particles of the subjects it takes away**;
* `finds_of_plain` — the particles of a subject whose id JSON spells as it is are found.
-/

import ParticlesEngine.AliasIndex

set_option relaxedAutoImplicit false
set_option autoImplicit false

open Runs

namespace ParticlesEngine

/-! ### The rows that a write finds -/

/-- The text of every particle that names one of the subjects matches. -/
def Finds (env : SubjectEnv) (store : Store) (subjectIds : List String) : Prop :=
  ∀ row ∈ store.particles.rows, (∃ x ∈ row.model.subjectIds, x ∈ subjectIds) →
    matchesText env subjectIds row.model.subjectIds = true

instance (env : SubjectEnv) (store : Store) (subjectIds : List String) :
    Decidable (Finds env store subjectIds) :=
  inferInstanceAs (Decidable (∀ row ∈ store.particles.rows, _ → _))

theorem Finds.idsOf {env : SubjectEnv} {store : Store} {subjectIds : List String}
    (h : Finds env store subjectIds) (p : String) (hnamed : ∃ x ∈ store.idsOf p, x ∈ subjectIds) :
    matchesText env subjectIds (store.idsOf p) = true := by
  unfold Store.idsOf at hnamed ⊢
  cases hrow : store.get? p with
  | none =>
      rw [hrow] at hnamed
      obtain ⟨x, hx, -⟩ := hnamed
      cases hx
  | some row =>
      rw [hrow] at hnamed
      exact h row (ParticleTable.get?_eq_some.1 hrow).1 hnamed

/-- **The particles of a subject are found when its id has characters only that JSON spells as they
are**, by any test that finds what stands in a text. -/
theorem finds_of_plain {env : SubjectEnv} (store : Store) {subjectIds : List String}
    (hcontains : ∀ text part, part.toList <:+: text → env.contains text part = true)
    (hplain : ∀ x ∈ subjectIds, ∀ c ∈ x.toList, JsonText.IsPlain c) :
    Finds env store subjectIds := by
  rintro row - ⟨x, hx, hsubject⟩
  exact List.any_eq_true.2
    ⟨x, hsubject, hcontains _ _ (JsonText.infix_dumpTexts hx (hplain x hsubject))⟩

/-- Only a particle with a row has subject ids. -/
theorem isSome_of_mem_idsOf {store : Store} {p x : String} (h : x ∈ store.idsOf p) :
    (store.get? p).isSome := by
  unfold Store.idsOf at h
  cases hrow : store.get? p with
  | none =>
      rw [hrow] at h
      cases h
  | some row => rfl

/-! ### The invariant -/

/-- The two records of the subject links agree, and name existing subjects. -/
structure InStep (store : Store) : Prop where
  nodup : ∀ p, (store.idsOf p).Nodup
  linked : ∀ p x, x ∈ store.idsOf p ↔ store.Linked p x
  exist : ∀ p x, x ∈ store.idsOf p → (store.subjects.get? x).isSome

namespace InStep

variable {env : SubjectEnv} {store store' : Store}

theorem empty : InStep .empty where
  nodup _ := List.nodup_nil
  linked _ _ := iff_of_false List.not_mem_nil List.not_mem_nil
  exist _ _ h := absurd h List.not_mem_nil

/-- A write that leaves the links and the ids, and deletes no subject, keeps them in step. -/
theorem of_eq (h : InStep store) (hlinks : store'.subjectLinks = store.subjectLinks)
    (hparticles : store'.particles = store.particles)
    (hsubjects : ∀ x, (store.subjects.get? x).isSome → (store'.subjects.get? x).isSome) :
    InStep store' := by
  have hids : ∀ p, store'.idsOf p = store.idsOf p := by
    intro p
    unfold Store.idsOf Store.get?
    rw [hparticles]
  refine ⟨fun p => ?_, fun p x => ?_, fun p x hx => ?_⟩
  · rw [hids]
    exact h.nodup p
  · unfold Store.Linked
    rw [hids, hlinks]
    exact h.linked p x
  · rw [hids] at hx
    exact hsubjects x (h.exist p x hx)

/-- A write that links a particle without links to existing subjects keeps them in step. -/
theorem linkedTo {particleId : String} {ids : List String} (h : InStep store) (hnodup : ids.Nodup)
    (hexist : ∀ x ∈ ids, (store.subjects.get? x).isSome) (hfree : ∀ x, ¬ store.Linked particleId x)
    (hlinked : ∀ q x, store'.Linked q x ↔ store.Linked q x ∨ q = particleId ∧ x ∈ ids)
    (hids : ∀ q, store'.idsOf q = if particleId = q then ids else store.idsOf q)
    (hsubjects : store'.subjects = store.subjects) : InStep store' := by
  refine ⟨fun q => ?_, fun q x => ?_, fun q x hx => ?_⟩
  · rw [hids]
    split_ifs
    · exact hnodup
    · exact h.nodup q
  · rw [hids, hlinked]
    split_ifs with hq
    · subst hq
      simp [hfree x]
    · rw [h.linked]
      simp [Ne.symm hq]
  · rw [hids] at hx
    rw [hsubjects]
    split_ifs at hx
    · exact hexist x hx
    · exact h.exist q x hx

theorem insertParticle {contentHash : String → String} {modelId : String} {p : Particle}
    {embedding : Option EmbeddingJson} (h : InStep store) (hnodup : p.subjectIds.Nodup)
    (hexist : ∀ x ∈ p.subjectIds, (store.subjects.get? x).isSome)
    (hok : insertParticle contentHash modelId store p embedding = .ok store') : InStep store' := by
  obtain ⟨hlinked, hids, hsubjects, -⟩ := insertParticle_links hok
  -- a particle without a row has no ids, so no links either
  have hfree : ∀ x, ¬ store.Linked p.id x := by
    intro x hx
    have hmem := (h.linked p.id x).2 hx
    rw [Store.idsOf, (get?_insertParticle hok).1] at hmem
    cases hmem
  exact h.linkedTo hnodup hexist hfree hlinked hids hsubjects

theorem insertSubject {subject : Subject} (h : InStep store)
    (hok : insertSubject env store subject = .ok store') : InStep store' := by
  obtain ⟨-, hsubjects, -, hframe⟩ := insertSubject_spec hok
  refine h.of_eq (by rw [hframe]) (by rw [hframe]) fun x hx => ?_
  rw [hsubjects]
  split_ifs
  · rfl
  · exact hx

theorem addAliases {subjectId : String} {newAliases added : List String} {subject : Subject}
    (h : InStep store)
    (hok : addAliases env store subjectId newAliases = .ok (store', subject, added)) :
    InStep store' := by
  obtain ⟨found, -, hsubjects, -, hframe⟩ := addAliases_spec hok
  refine h.of_eq (by rw [hframe]) (by rw [hframe]) fun x hx => ?_
  rw [hsubjects]
  split_ifs
  · rfl
  · exact hx

theorem attach {particleId : String} {subjectIds ids : List String} (h : InStep store)
    (hok : attachSubjectsInPlace store particleId subjectIds = .ok (store', ids)) :
    InStep store' := by
  obtain ⟨hnodup, hexist, hfree, hlinked, hids, hsubjects, -⟩ := attachSubjectsInPlace_spec hok
  exact h.linkedTo hnodup hexist hfree hlinked hids hsubjects

theorem nodup_mergedIds (sources : List String) (target : String) {ids : List String}
    (h : ids.Nodup) : (mergedIds env sources target ids).Nodup := by
  unfold mergedIds
  split_ifs
  · exact nodup_rebound _ _
  · exact h

/-- The ids of a particle that is found, after a merge: the sources are gone, and the target is there
when one of them was. -/
theorem mem_mergedIds {sources ids : List String} {target x : String} (htarget : target ∉ sources)
    (hfound : (∃ i ∈ ids, i ∈ sources) → matchesText env sources ids = true) :
    x ∈ mergedIds env sources target ids ↔
      x ∉ sources ∧ (x ∈ ids ∨ x = target ∧ ∃ s ∈ sources, s ∈ ids) := by
  unfold mergedIds
  split_ifs with hany
  · rw [mem_rebound]
    constructor
    · rintro ⟨i, hi, rfl⟩
      split_ifs with hs
      · exact ⟨htarget, Or.inr ⟨rfl, i, hs, hi⟩⟩
      · exact ⟨hs, Or.inl hi⟩
    · rintro ⟨hx, hids | ⟨rfl, s, hs, hi⟩⟩
      · exact ⟨x, hids, if_neg hx⟩
      · exact ⟨s, hi, if_pos hs⟩
  · have hnone : ¬ ∃ i ∈ ids, i ∈ sources := fun h => hany ⟨hfound h, h⟩
    constructor
    · intro hx
      exact ⟨fun hs => hnone ⟨x, hx, hs⟩, Or.inl hx⟩
    · rintro ⟨-, hx | ⟨-, s, hs, hi⟩⟩
      · exact hx
      · exact absurd ⟨s, hi, hs⟩ hnone

/-- **A merge that finds the particles of its sources** keeps the two records in step. -/
theorem merge {plan : SubjectMergePlan} (h : InStep store) (hfound : PlanFound store plan)
    (hfinds : Finds env store plan.sourceIds) (heffect : MergeEffect env plan store store') :
    InStep store' := by
  have htarget : plan.target.id ∉ plan.sourceIds := fun hmem => (hfound.sources _ hmem).2 rfl
  refine ⟨fun p => ?_, fun p x => ?_, fun p x hx => ?_⟩
  · rw [heffect.ids]
    exact nodup_mergedIds _ _ (h.nodup p)
  · rw [heffect.ids, mem_mergedIds htarget (hfinds.idsOf p), heffect.linked]
    simp only [h.linked]
  · rw [heffect.ids, mem_mergedIds htarget (hfinds.idsOf p)] at hx
    obtain ⟨hsource, hx⟩ := hx
    rw [heffect.subjects, if_neg hsource]
    split_ifs with heq
    · rfl
    · rcases hx with hx | ⟨rfl, -⟩
      · exact h.exist p x hx
      · exact absurd rfl heq

theorem restore {source : Subject} {targetId : String}
    {pids keep aliasesAdded refsCarried relinked : List String} (h : InStep store)
    (hok : restoreMergedSource env store source targetId pids keep aliasesAdded refsCarried =
      .ok (store', relinked)) : InStep store' := by
  obtain ⟨-, target, -, hsubjects, -, mid, hlinked, hids, -, heffect⟩ := restoreMergedSource_spec hok
  refine ⟨fun p => ?_, fun p x => ?_, fun p x hx => ?_⟩
  · refine heffect.nodup_ids p ?_
    rw [hids]
    exact h.nodup p
  · -- both records move the same particles in the same way
    rw [heffect.mem_ids, heffect.linked]
    simp only [MovedBack, hids, hlinked, h.linked]
  · rw [heffect.mem_ids] at hx
    rw [hsubjects]
    split_ifs with hsource htarget
    · rfl
    · rfl
    · rcases hx with ⟨-, rfl⟩ | ⟨hx, -⟩
      · exact absurd rfl hsource
      · rw [hids] at hx
        exact h.exist p x hx

/-- One particle of a split. -/
theorem splitEffect {sourceId newSubjectId q : String} (h : InStep store)
    (hnew : (store.subjects.get? newSubjectId).isSome) (hbound : store.Linked q sourceId)
    (heffect : SplitEffect sourceId newSubjectId q store store') : InStep store' := by
  have hsource : sourceId ∈ store.idsOf q := (h.linked q sourceId).2 hbound
  have hids := heffect.ids (isSome_of_mem_idsOf hsource)
  refine ⟨fun p => ?_, fun p x => ?_, fun p x hx => ?_⟩
  · rw [hids]
    split_ifs
    · exact nodup_rebound _ _
    · exact h.nodup p
  · rw [hids, heffect.linked]
    split_ifs with hp
    · subst hp
      rw [mem_replaceId, h.linked]
      tauto
    · exact h.linked p x
  · rw [heffect.subjects]
    rw [hids] at hx
    split_ifs at hx with hp
    · rcases mem_replaceId.1 hx with ⟨hx, -⟩ | ⟨rfl, -⟩
      · exact h.exist p x hx
      · exact hnew
    · exact h.exist p x hx

theorem split {sourceId newSubjectId : String} {pids relinked notBound : List String}
    (h : InStep store)
    (hok : splitSubject store sourceId newSubjectId pids = .ok (store', relinked, notBound)) :
    InStep store' := by
  obtain ⟨hnew, hfold⟩ := splitSubject_spec hok
  suffices hall : ∀ (pids : List String) (acc : Store × List String × List String),
      InStep acc.1 → (acc.1.subjects.get? newSubjectId).isSome →
      InStep (pids.foldl (splitParticle sourceId newSubjectId) acc).1 by
    rw [← hfold]
    exact hall pids (store, [], []) h hnew
  intro pids
  induction pids with
  | nil =>
      intro acc hacc _
      exact hacc
  | cons q pids ih =>
      intro acc hacc hnew
      rw [List.foldl_cons]
      rcases splitParticle_spec acc q with ⟨hbound, heffect⟩ | hsame
      · refine ih _ (hacc.splitEffect hnew hbound heffect) ?_
        rw [heffect.subjects]
        exact hnew
      · refine ih _ ?_ ?_ <;> rw [hsame]
        · exact hacc
        · exact hnew

/-- The ids of a particle that is found, after a deletion. -/
theorem mem_detachedIds {subjectId x : String} {ids : List String}
    (hfound : (∃ i ∈ ids, i ∈ [subjectId]) → matchesText env [subjectId] ids = true) :
    x ∈ detachedIds env subjectId ids ↔ x ∈ ids ∧ x ≠ subjectId := by
  unfold detachedIds
  split_ifs with hmatches
  · rw [List.mem_filter, decide_eq_true_eq]
  · refine (and_iff_left_of_imp fun hx => ?_).symm
    rintro rfl
    exact hmatches (hfound ⟨x, hx, List.mem_singleton_self x⟩)

/-- **A deletion that finds the particles of its subject** keeps the two records in step. -/
theorem delete {subject : Subject} {subjectId : String} {count : ℕ} (h : InStep store)
    (hfinds : Finds env store [subjectId])
    (hok : deleteSubject env store subjectId = .ok (store', subject, count)) : InStep store' := by
  have heffect := deleteSubject_spec hok
  have hmem : ∀ p x, x ∈ store'.idsOf p ↔ x ∈ store.idsOf p ∧ x ≠ subjectId := by
    intro p x
    rw [heffect.ids, mem_detachedIds (hfinds.idsOf p)]
  refine ⟨fun p => ?_, fun p x => ?_, fun p x hx => ?_⟩
  · rw [heffect.ids, detachedIds]
    split_ifs
    · exact (h.nodup p).filter _
    · exact h.nodup p
  · rw [hmem, heffect.linked, h.linked]
  · obtain ⟨hx, hne⟩ := (hmem p x).1 hx
    rw [heffect.subjects, if_neg (Ne.symm hne)]
    exact h.exist p x hx

end InStep

/-! ### Runs -/

section Runs

/-- What an insert of a particle asks of its caller: distinct ids of existing subjects. -/
def calledWell (store : Store) : SubjectCall → Bool
  | .insertParticle p _ =>
      p.subjectIds.Nodup ∧ p.subjectIds.all fun x => (store.subjects.get? x).isSome
  | _ => true

/-- A step of a run in which every insert of a particle is called as it asks. -/
def applyWellCalled (env : SubjectEnv) (contentHash : String → String) (modelId : String)
    (store : Store) (call : SubjectCall) : Option Store :=
  if calledWell store call then applySubjectCall env contentHash modelId store call else none

/-- The subjects that a write takes away. -/
def takenAway (env : SubjectEnv) (store : Store) : SubjectCall → List String
  | .merge sourceIds _ _ => resolvedIds env store sourceIds
  | .delete subjectId => [subjectId]
  | _ => []

/-- The write finds the particles of the subjects it takes away. -/
def CallFinds (env : SubjectEnv) (store : Store) (call : SubjectCall) : Prop :=
  Finds env store (takenAway env store call)

instance (env : SubjectEnv) (store : Store) : DecidablePred (CallFinds env store) := fun call =>
  inferInstanceAs (Decidable (Finds env store (takenAway env store call)))

variable {env : SubjectEnv} {contentHash : String → String} {modelId : String}
  {store store' : Store}

/-- **Every write that finds the particles it has to keeps the two records in step.** -/
theorem InStep.step {call : SubjectCall} (h : InStep store) (hfinds : CallFinds env store call)
    (hstep : applyWellCalled env contentHash modelId store call = some store') :
    InStep store' := by
  unfold applyWellCalled at hstep
  split_ifs at hstep with hcalled
  rw [applySubjectCall, toOption_eq_some] at hstep
  cases call with
  | insertParticle p embedding =>
      simp only [calledWell, decide_eq_true_eq, List.all_eq_true] at hcalled
      exact h.insertParticle hcalled.1 hcalled.2 hstep
  | insertSubject subject => exact h.insertSubject hstep
  | addAliases subjectId newAliases =>
      obtain ⟨⟨subject, added⟩, hok⟩ := fst_map_eq_ok.1 hstep
      exact h.addAliases hok
  | attach particleId subjectIds =>
      obtain ⟨ids, hok⟩ := fst_map_eq_ok.1 hstep
      exact h.attach hok
  | merge sourceIds targetId record =>
      obtain ⟨result, hok⟩ := fst_map_eq_ok.1 hstep
      obtain ⟨hplan, heffect⟩ := mergeSubjectsMany_spec hok
      refine h.merge (planSubjectMerge_spec hplan) ?_ heffect
      rw [sourceIds_planSubjectMerge hplan]
      exact hfinds
  | restore source targetId pids keep aliasesAdded refsCarried =>
      obtain ⟨relinked, hok⟩ := fst_map_eq_ok.1 hstep
      exact h.restore hok
  | split sourceId newSubjectId pids =>
      obtain ⟨⟨relinked, notBound⟩, hok⟩ := fst_map_eq_ok.1 hstep
      exact h.split hok
  | delete subjectId =>
      obtain ⟨⟨subject, count⟩, hok⟩ := fst_map_eq_ok.1 hstep
      exact h.delete hfinds hok

/-- The subject ids of a particle have no repetition, are those of its join rows, and are ids of
existing subjects. -/
structure RowInStep (store : Store) (row : ParticleRow) : Prop where
  nodup : row.model.subjectIds.Nodup
  linked : ∀ x, x ∈ row.model.subjectIds ↔ store.Linked row.id x
  exist : ∀ x ∈ row.model.subjectIds, (store.subjects.get? x).isSome

theorem InStep.row {p : String} {row : ParticleRow} (h : InStep store)
    (hrow : store.get? p = some row) : RowInStep store row := by
  obtain rfl := ParticleTable.id_of_get? hrow
  have hids : store.idsOf row.id = row.model.subjectIds := by
    rw [Store.idsOf, hrow]
    rfl
  exact ⟨hids ▸ h.nodup row.id, hids ▸ h.linked row.id, hids ▸ h.exist row.id⟩

/-- A particle that a write did not find names a subject to which it is linked no more. -/
theorem matchesText_of_rowInStep {subjectIds : List String}
    (hafter : ∀ p row, store'.get? p = some row → RowInStep store' row)
    (hparticles : ∀ p, (store'.get? p).isSome = (store.get? p).isSome)
    (hkept : ∀ p, matchesText env subjectIds (store.idsOf p) ≠ true →
      store'.idsOf p = store.idsOf p)
    (hgone : ∀ p x, store'.Linked p x → x ∉ subjectIds) : Finds env store subjectIds := by
  rintro row hrow ⟨x, hx, hsubject⟩
  have hget : store.get? row.id = some row := ParticleTable.get?_eq_some.2 ⟨hrow, rfl⟩
  have hids : store.idsOf row.id = row.model.subjectIds := by
    rw [Store.idsOf, hget]
    rfl
  by_contra hnot
  obtain ⟨row', hrow'⟩ : ∃ row', store'.get? row.id = some row' :=
    Option.isSome_iff_exists.1 (by rw [hparticles, hget]; rfl)
  have hids' : row'.model.subjectIds = row.model.subjectIds := by
    rw [← hids, ← hkept row.id (by rwa [hids]), Store.idsOf, hrow']
    rfl
  have hlinked := ((hafter _ _ hrow').linked x).1 (by rwa [hids'])
  exact hgone _ x hlinked hsubject

/-- **A write after which the two records agree found the particles it had to.** -/
theorem callFinds_of_rowInStep {call : SubjectCall}
    (hstep : applyWellCalled env contentHash modelId store call = some store')
    (hafter : ∀ p row, store'.get? p = some row → RowInStep store' row) :
    CallFinds env store call := by
  unfold applyWellCalled at hstep
  split_ifs at hstep with hcalled
  rw [applySubjectCall, toOption_eq_some] at hstep
  cases call with
  | merge sourceIds targetId record =>
      obtain ⟨result, hok⟩ := fst_map_eq_ok.1 hstep
      obtain ⟨hplan, heffect⟩ := mergeSubjectsMany_spec hok
      rw [CallFinds, takenAway, ← sourceIds_planSubjectMerge hplan]
      refine matchesText_of_rowInStep hafter heffect.particles (fun p hnot => ?_)
        fun p x hx => ((heffect.linked p x).1 hx).1
      rw [heffect.ids, mergedIds, if_neg fun h => hnot h.1]
  | delete subjectId =>
      obtain ⟨⟨subject, count⟩, hok⟩ := fst_map_eq_ok.1 hstep
      have heffect := deleteSubject_spec hok
      change Finds env store [subjectId]
      refine matchesText_of_rowInStep hafter heffect.particles (fun p hnot => ?_)
        fun p x hx => mt List.mem_singleton.1 ((heffect.linked p x).1 hx).2
      rw [heffect.ids, detachedIds, if_neg hnot]
  | _ =>
      rintro row - ⟨x, -, hx⟩
      cases hx

/-- A run whose steps find the particles they have to keeps the two records in step. -/
theorem InStep.run {calls : List SubjectCall} (h : InStep store)
    (hfinds : StepsMeet (applyWellCalled env contentHash modelId) (CallFinds env) store calls)
    (hrun : run (applyWellCalled env contentHash modelId) store calls = some store') :
    InStep store' :=
  hfinds.invariant InStep (fun _ _ _ hinv hmeets hstep => hinv.step hmeets hstep) h
    (List.append_nil _).symm hrun

end Runs

/-- **Subject links stay in step exactly as long as no write passes a particle over.**  In every state
of a run the subject ids of each particle have no repetition, are those of its join rows and are ids of
existing subjects, if and only if each merge and each deletion of the run finds, by its test on their
JSON text, the particles that name a subject it takes away. -/
theorem inStep_run_iff (env : SubjectEnv) (contentHash : String → String) (modelId : String)
    {calls : List SubjectCall} {store : Store}
    (hrun : run (applyWellCalled env contentHash modelId) .empty calls = some store) :
    (∀ before after reached, calls = before ++ after →
      run (applyWellCalled env contentHash modelId) .empty before = some reached →
      ∀ p row, reached.get? p = some row → RowInStep reached row) ↔
    StepsMeet (applyWellCalled env contentHash modelId) (CallFinds env) .empty calls := by
  constructor
  · intro hagree before call after reached hcalls hreached
    rw [hcalls, run_append_eq_some] at hrun
    obtain ⟨middle, hmiddle, hrest⟩ := hrun
    obtain rfl := Option.some.inj (hreached.symm.trans hmiddle)
    obtain ⟨next, hnext, -⟩ := run_cons_eq_some.1 hrest
    refine callFinds_of_rowInStep hnext (hagree (before ++ [call]) after next ?_ ?_)
    · rw [hcalls, List.append_assoc]
      rfl
    · exact run_concat_eq_some.2 ⟨reached, hreached, hnext⟩
  · intro hfinds before after reached hcalls hreached p row hrow
    rw [hcalls] at hfinds
    exact (InStep.empty.run hfinds.left hreached).row hrow

/-- A particle of two subjects that are merged, and one that names the target too. -/
def linkedMerge : List SubjectCall :=
  [.insertSubject { id := "s1", canonicalName := "agency" },
    .insertSubject { id := "s2", canonicalName := "office" },
    .insertSubject { id := "s3", canonicalName := "bureau" },
    .insertParticle { id := "p1", content := "x", subjectIds := ["s1", "s2"] } none,
    .insertParticle { id := "p2", content := "y", subjectIds := ["s3", "s1"] } none,
    .merge ["s1", "s2"] "s3" none]

/-- The store after the merge. -/
def linkedMerged : Store := (run (applyWellCalled nasaEnv id "model") .empty linkedMerge).getD {}

theorem inStep_run_iff_linkedMerged :
    ∃ row, linkedMerged.get? "p2" = some row ∧ row.model.subjectIds = ["s3"] ∧
      row.model.subjectIds.Nodup ∧ ⟨"p2", "s3"⟩ ∈ linkedMerged.subjectLinks.rows := by
  have hrun : run (applyWellCalled nasaEnv id "model") .empty linkedMerge = some linkedMerged := by
    decide +kernel
  have hfinds : StepsMeet (applyWellCalled nasaEnv id "model") (CallFinds nasaEnv) .empty
      linkedMerge := by
    decide +kernel
  obtain ⟨row, hrow⟩ : ∃ row, linkedMerged.get? "p2" = some row :=
    Option.isSome_iff_exists.1 (by decide +kernel)
  have hids : (linkedMerged.get? "p2").map (·.model.subjectIds) = some ["s3"] := by
    decide +kernel
  rw [hrow] at hids
  have hids' : row.model.subjectIds = ["s3"] := Option.some.inj hids
  have hstep := (inStep_run_iff nasaEnv id "model" hrun).2 hfinds linkedMerge [] linkedMerged
    (List.append_nil _).symm hrun "p2" row hrow
  have hid : row.id = "p2" := ParticleTable.id_of_get? hrow
  refine ⟨row, hrow, hids', hstep.nodup, ?_⟩
  have hlinked := (hstep.linked "s3").1 (by rw [hids']; exact List.mem_singleton_self _)
  rwa [hid] at hlinked

/-- A subject with an accent in its id, as a restored bundle may bring one, and its deletion. -/
def accentedDeletion : List SubjectCall :=
  [.insertSubject { id := "é", canonicalName := "agency" },
    .insertParticle { id := "p1", content := "x", subjectIds := ["é"] } none,
    .delete "é"]

/-- **The deletion of a subject whose id JSON spells otherwise leaves the id in the particle's row.** -/
theorem accented_id_stays :
    ∃ store row, run (applyWellCalled nasaEnv id "model") .empty accentedDeletion = some store ∧
      store.get? "p1" = some row ∧ row.model.subjectIds = ["é"] ∧
      store.subjects.get? "é" = none ∧ store.subjectLinks.rows = [] ∧ ¬ RowInStep store row := by
  have hrun : ((run (applyWellCalled nasaEnv id "model") .empty accentedDeletion).map fun store =>
      ((store.get? "p1").map fun row => row.model.subjectIds, store.subjects.get? "é",
        store.subjectLinks.rows)) = some (some ["é"], none, []) := by
    decide +kernel
  obtain ⟨store, hstore, hviews⟩ := Option.map_eq_some_iff.1 hrun
  obtain ⟨hids, hsubjects, hlinks⟩ : _ = some ["é"] ∧ _ = none ∧ _ = [] := by
    simpa only [Prod.mk.injEq] using hviews
  obtain ⟨row, hrow, hrowIds⟩ := Option.map_eq_some_iff.1 hids
  refine ⟨store, row, hstore, hrow, hrowIds, hsubjects, hlinks, fun h => ?_⟩
  have hexists := h.exist "é" (by rw [hrowIds]; exact List.mem_singleton_self _)
  rw [hsubjects] at hexists
  cases hexists

end ParticlesEngine
