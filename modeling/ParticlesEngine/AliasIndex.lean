/-
**The alias index is what the aliases derive.**

A run of the subject repository starts from an empty store and takes any of its writes.  Each write
maintains the index rows of the subjects it touches, by rewriting them or by deleting them; so at
every point the index rows of a subject are those that its aliases derive, a subject that is gone
has none, and a lookup through the index gives what a scan of all the alias lists would.

Main definitions:

* `SubjectCall`, `applySubjectCall` — the writes of the repository as the steps of a run;
* `AliasIndexed` — the index rows of each subject are those its aliases derive;
* `rowsByScan`, `scanByAlias` — the lookup by a scan of the alias lists.

Main results:

* `AliasIndexed.step` — **every write keeps the index derived**;
* `rowsWithAlias_eq` — **a derived index answers as the scan does**;
* `aliasIndex_eq_scan` — both, for every store that a run reaches.
-/

import ParticlesEngine.Runs
import ParticlesEngine.SubjectWrites

set_option relaxedAutoImplicit false
set_option autoImplicit false

open Runs SortBy

namespace ParticlesEngine

/-! ### Runs -/

/-- A write of the subject repository, or an insert of a particle. -/
inductive SubjectCall where
  | insertParticle (p : Particle) (embedding : Option EmbeddingJson)
  | insertSubject (subject : Subject)
  | addAliases (subjectId : String) (newAliases : List String)
  | attach (particleId : String) (subjectIds : List String)
  | merge (sourceIds : List String) (targetId : String) (record : Option SourceRecord)
  | restore (source : Subject) (targetId : String)
      (particleIds keepOnTarget aliasesAdded refsCarried : List String)
  | split (sourceId newSubjectId : String) (particleIds : List String)
  | delete (subjectId : String)

section Steps

variable (env : SubjectEnv) (contentHash : String → String) (modelId : String)

/-- What a write does; a write that raises is rolled back. -/
def subjectWrite (store : Store) : SubjectCall → Except StoreError Store
  | .insertParticle p embedding => insertParticle contentHash modelId store p embedding
  | .insertSubject subject => insertSubject env store subject
  | .addAliases subjectId newAliases => Prod.fst <$> addAliases env store subjectId newAliases
  | .attach particleId subjectIds => Prod.fst <$> attachSubjectsInPlace store particleId subjectIds
  | .merge sourceIds targetId record =>
      Prod.fst <$> mergeSubjectsMany env store sourceIds targetId record
  | .restore source targetId particleIds keepOnTarget aliasesAdded refsCarried =>
      Prod.fst <$> restoreMergedSource env store source targetId particleIds keepOnTarget
        aliasesAdded refsCarried
  | .split sourceId newSubjectId particleIds =>
      Prod.fst <$> splitSubject store sourceId newSubjectId particleIds
  | .delete subjectId => Prod.fst <$> deleteSubject env store subjectId

/-- One step of a run. -/
def applySubjectCall (store : Store) (call : SubjectCall) : Option Store :=
  (subjectWrite env contentHash modelId store call).toOption

end Steps

/-- The first part of a result, with what came beside it. -/
theorem fst_map_eq_ok {α β : Type} {x : Except StoreError (α × β)} {a : α} :
    Prod.fst <$> x = .ok a ↔ ∃ b, x = .ok (a, b) := by
  cases x with
  | error e =>
      constructor
      · intro h
        cases h
      · rintro ⟨b, h⟩
        cases h
  | ok result =>
      obtain ⟨a', b⟩ := result
      constructor
      · intro h
        obtain rfl : a' = a := Except.ok.inj h
        exact ⟨b, rfl⟩
      · rintro ⟨b', h⟩
        obtain ⟨rfl, rfl⟩ := Prod.mk.inj (Except.ok.inj h)
        rfl

/-! ### The invariant -/

section Invariant

variable {env : SubjectEnv} {contentHash : String → String} {modelId : String}
  {store store' : Store}

/-- The index rows of each subject are those its aliases derive; a subject that is gone has none. -/
def AliasIndexed (env : SubjectEnv) (store : Store) : Prop :=
  ∀ x, store.indexRows x =
    ((store.subjects.get? x).map fun subject => aliasIndexRows env x subject.aliases).getD []

theorem AliasIndexed.empty (env : SubjectEnv) : AliasIndexed env .empty := fun _ => rfl

/-- A write that leaves the subjects and the index keeps the invariant. -/
theorem AliasIndexed.of_eq (h : AliasIndexed env store) (hsubjects : store'.subjects = store.subjects)
    (hrows : store'.aliasRows = store.aliasRows) : AliasIndexed env store' := by
  intro x
  unfold Store.indexRows
  rw [hsubjects, hrows]
  exact h x

theorem AliasIndexed.insertSubject {subject : Subject} (h : AliasIndexed env store)
    (hok : insertSubject env store subject = .ok store') : AliasIndexed env store' := by
  intro x
  obtain ⟨-, hsubjects, hindex, -⟩ := insertSubject_spec hok
  rw [hsubjects, hindex]
  split_ifs with hx
  · rw [← hx]
    rfl
  · exact h x

theorem AliasIndexed.addAliases {subjectId : String} {newAliases added : List String}
    {subject : Subject} (h : AliasIndexed env store)
    (hok : addAliases env store subjectId newAliases = .ok (store', subject, added)) :
    AliasIndexed env store' := by
  intro x
  obtain ⟨found, hfound, hsubjects, hindex, -⟩ := addAliases_spec hok
  rw [hsubjects, hindex, h x]
  by_cases hx : subjectId = x
  · rw [if_pos hx, ← hx, hfound]
    -- when nothing was added the rows were left, and the aliases too
    by_cases hadded : added = []
    · rw [if_neg (fun hc => hc.2 hadded), hadded, List.append_nil]
      rfl
    · rw [if_pos ⟨rfl, hadded⟩]
      rfl
  · rw [if_neg hx, if_neg (fun hc => hx hc.1)]

theorem AliasIndexed.merge {plan : SubjectMergePlan} (h : AliasIndexed env store)
    (hfound : PlanFound store plan) (heffect : MergeEffect env plan store store') :
    AliasIndexed env store' := by
  intro x
  rw [heffect.subjects, heffect.indexRows, h x]
  split_ifs with hx htarget hadded hadded
  · rfl
  · rfl
  · exact absurd htarget.1 hadded
  · -- the target gained no alias, so its index rows were left
    have hnil : plan.aliasesAdded = [] := by
      by_contra hne
      exact htarget ⟨hadded, hne⟩
    rw [← hadded, hfound.target]
    simp [SubjectMergePlan.merged, Subject.withRefs, Subject.withAliases, hnil]
  · rfl

theorem AliasIndexed.restore {source : Subject} {targetId : String}
    {pids keep aliasesAdded refsCarried relinked : List String} (h : AliasIndexed env store)
    (hok : restoreMergedSource env store source targetId pids keep aliasesAdded refsCarried =
      .ok (store', relinked)) : AliasIndexed env store' := by
  intro x
  obtain ⟨-, target, -, hsubjects, hindex, -⟩ := restoreMergedSource_spec hok
  rw [hsubjects, hindex]
  split_ifs
  · rfl
  · rfl
  · exact h x

theorem AliasIndexed.delete {subject : Subject} {subjectId : String} {count : ℕ}
    (h : AliasIndexed env store)
    (hok : deleteSubject env store subjectId = .ok (store', subject, count)) :
    AliasIndexed env store' := by
  intro x
  have heffect := deleteSubject_spec hok
  rw [heffect.subjects, heffect.indexRows]
  split_ifs
  · rfl
  · exact h x

/-- A split writes neither the subjects nor the index. -/
theorem foldl_splitParticle_frame {sourceId newSubjectId : String} (pids : List String) :
    ∀ acc : Store × List String × List String,
      (pids.foldl (splitParticle sourceId newSubjectId) acc).1.subjects = acc.1.subjects ∧
        (pids.foldl (splitParticle sourceId newSubjectId) acc).1.aliasRows = acc.1.aliasRows := by
  induction pids with
  | nil =>
      intro acc
      exact ⟨rfl, rfl⟩
  | cons q pids ih =>
      intro acc
      obtain ⟨hsubjects, hrows⟩ := ih (splitParticle sourceId newSubjectId acc q)
      rw [List.foldl_cons, hsubjects, hrows]
      rcases splitParticle_spec acc q with ⟨-, heffect⟩ | hsame
      · exact ⟨heffect.subjects, heffect.aliasRows⟩
      · rw [hsame]
        exact ⟨rfl, rfl⟩

/-- **Every write keeps the index derived.** -/
theorem AliasIndexed.step {call : SubjectCall} (h : AliasIndexed env store)
    (hstep : applySubjectCall env contentHash modelId store call = some store') :
    AliasIndexed env store' := by
  rw [applySubjectCall, toOption_eq_some] at hstep
  cases call with
  | insertParticle p embedding =>
      obtain ⟨-, -, hsubjects, hrows⟩ := insertParticle_links hstep
      exact h.of_eq hsubjects hrows
  | insertSubject subject => exact h.insertSubject hstep
  | addAliases subjectId newAliases =>
      obtain ⟨⟨subject, added⟩, hok⟩ := fst_map_eq_ok.1 hstep
      exact h.addAliases hok
  | attach particleId subjectIds =>
      obtain ⟨ids, hok⟩ := fst_map_eq_ok.1 hstep
      obtain ⟨-, -, -, -, -, hsubjects, hrows⟩ := attachSubjectsInPlace_spec hok
      exact h.of_eq hsubjects hrows
  | merge sourceIds targetId record =>
      obtain ⟨result, hok⟩ := fst_map_eq_ok.1 hstep
      obtain ⟨hplan, heffect⟩ := mergeSubjectsMany_spec hok
      exact h.merge (planSubjectMerge_spec hplan) heffect
  | restore source targetId pids keep aliasesAdded refsCarried =>
      obtain ⟨relinked, hok⟩ := fst_map_eq_ok.1 hstep
      exact h.restore hok
  | split sourceId newSubjectId pids =>
      obtain ⟨⟨relinked, notBound⟩, hok⟩ := fst_map_eq_ok.1 hstep
      obtain ⟨-, hfold⟩ := splitSubject_spec hok
      obtain ⟨hsubjects, hrows⟩ := foldl_splitParticle_frame pids (store, [], [])
      rw [hfold] at hsubjects hrows
      exact h.of_eq hsubjects hrows
  | delete subjectId =>
      obtain ⟨⟨subject, count⟩, hok⟩ := fst_map_eq_ok.1 hstep
      exact h.delete hok

end Invariant

/-! ### The lookups -/

section Lookups

variable (env : SubjectEnv) (store : Store)

/-- The subjects with an alias that folds as a name does, by a scan of the alias lists, earliest
first. -/
def rowsByScan (name : String) : List Subject :=
  sortBy subjectOrder <| store.subjects.rows.filter fun subject =>
    subject.aliases.any (aliasKey env · = aliasKey env name)

/-- The lookup by alias, over the scan. -/
def scanByAlias (name : String) (skipAliasesOf : List String) : Option Subject :=
  (rowsByScan env store name).find? fun subject =>
    env.lower subject.canonicalName ∉ skipAliasesOf.map env.lower

variable {env store}

theorem AliasIndexed.indexRows_id (h : AliasIndexed env store) {subject : Subject}
    (hsubject : subject ∈ store.subjects.rows) :
    store.indexRows subject.id = aliasIndexRows env subject.id subject.aliases := by
  rw [h, Table.get?_key hsubject]
  rfl

/-- **The index holds exactly the rows that the aliases derive.** -/
theorem AliasIndexed.perm (h : AliasIndexed env store) :
    store.aliasRows.rows.Perm (expectedAliasRows env store) := by
  have hexpected : (expectedAliasRows env store).Nodup := by
    unfold expectedAliasRows
    rw [List.nodup_flatMap]
    refine ⟨fun subject _ => (nodup_keys_aliasIndexRows _ _).of_map, ?_⟩
    have hpairs : store.subjects.rows.Pairwise fun s s' => s.id ≠ s'.id :=
      List.pairwise_map.1 store.subjects.nodup
    refine hpairs.imp fun hne row hrow hrow' => hne ?_
    rw [← subjectId_of_mem_aliasIndexRows hrow, subjectId_of_mem_aliasIndexRows hrow']
  refine (List.perm_ext_iff_of_nodup store.aliasRows.nodup.of_map hexpected).2 fun row => ?_
  rw [Store.mem_aliasRows, h, expectedAliasRows, List.mem_flatMap]
  cases hget : store.subjects.get? row.subjectId with
  | none =>
      simp only [Option.map_none, Option.getD_none, List.not_mem_nil, false_iff]
      rintro ⟨subject, hsubject, hrow⟩
      exact Table.get?_eq_none.1 hget subject hsubject (subjectId_of_mem_aliasIndexRows hrow).symm
  | some subject =>
      obtain ⟨hmem, hid⟩ := Table.get?_eq_some.1 hget
      simp only [Option.map_some, Option.getD_some]
      constructor
      · intro hrow
        exact ⟨subject, hmem, hid ▸ hrow⟩
      · rintro ⟨other, hother, hrow⟩
        have hsame : other = subject :=
          Table.eq_of_key_eq hother hmem ((subjectId_of_mem_aliasIndexRows hrow).symm.trans hid.symm)
        rw [← hsame, subjectId_of_mem_aliasIndexRows hrow]
        exact hrow

/-- The audit of a derived index finds nothing. -/
theorem AliasIndexed.clean (h : AliasIndexed env store) : (checkAliasIndex env store).clean := by
  have hmem : ∀ row, row ∈ store.aliasRows.rows ↔ row ∈ expectedAliasRows env store :=
    fun row => h.perm.mem_iff
  have hsurplus : store.aliasRows.rows.filter (· ∉ expectedAliasRows env store) = [] := by
    rw [List.filter_eq_nil_iff]
    intro row hrow
    simpa using (hmem row).1 hrow
  have hmissing : (expectedAliasRows env store).filter (· ∉ store.aliasRows.rows) = [] := by
    rw [List.filter_eq_nil_iff]
    intro row hrow
    simpa using (hmem row).2 hrow
  unfold checkAliasIndex AliasIndexDrift.clean
  simp only [hsurplus, hmissing, List.filter_nil, List.length_nil]
  rfl

/-- A subject is joined to the index rows of a name once when one of its aliases folds to it, and
not at all otherwise. -/
theorem AliasIndexed.joined (h : AliasIndexed env store) {subject : Subject}
    (hsubject : subject ∈ store.subjects.rows) (name : String) :
    ((store.aliasRows.rows.filter fun row =>
      row.subjectId = subject.id ∧ row.aliasKey = aliasKey env name).map fun _ => subject) =
      if subject.aliases.any (aliasKey env · = aliasKey env name) then [subject] else [] := by
  set matched := store.aliasRows.rows.filter fun row =>
    row.subjectId = subject.id ∧ row.aliasKey = aliasKey env name with hmatched
  have hmem : ∀ row, row ∈ matched ↔
      row ∈ aliasIndexRows env subject.id subject.aliases ∧ row.aliasKey = aliasKey env name := by
    intro row
    rw [hmatched, List.mem_filter, decide_eq_true_eq, ← and_assoc, ← Store.mem_indexRows,
      h.indexRows_id hsubject]
  -- the primary key admits one row for a subject and a folded name
  have hone : ∀ row ∈ matched, ∀ row' ∈ matched, row = row' := by
    intro row hrow row' hrow'
    rw [hmatched, List.mem_filter, decide_eq_true_eq] at hrow hrow'
    refine Table.eq_of_key_eq hrow.1 hrow'.1 ?_
    rw [SubjectAliasRow.key, SubjectAliasRow.key, hrow.2.1, hrow.2.2, hrow'.2.1, hrow'.2.2]
  have hnodup : matched.Nodup := store.aliasRows.nodup.of_map.filter _
  have hany : subject.aliases.any (aliasKey env · = aliasKey env name) = true ↔
      ∃ row, row ∈ matched := by
    simp only [hmem, List.any_eq_true, decide_eq_true_eq]
    exact exists_mem_aliasIndexRows.symm
  cases hlist : matched with
  | nil =>
      rw [if_neg, List.map_nil]
      rw [hany, hlist]
      simp
  | cons row rest =>
      have hrest : rest = [] := by
        rw [List.eq_nil_iff_forall_not_mem]
        intro row' hrow'
        have hne : row ≠ row' := by
          rintro rfl
          exact (List.nodup_cons.1 (hlist ▸ hnodup)).1 hrow'
        exact hne (hone row (hlist ▸ List.mem_cons_self) row'
          (hlist ▸ List.mem_cons_of_mem _ hrow'))
      rw [if_pos (hany.2 ⟨row, hlist ▸ List.mem_cons_self⟩), hrest, List.map_cons, List.map_nil]

/-- **A derived index answers as the scan does**, subject by subject and in the same order. -/
theorem AliasIndexed.rowsWithAlias_eq (h : AliasIndexed env store) (name : String) :
    rowsWithAlias env store name = rowsByScan env store name := by
  unfold rowsWithAlias rowsByScan
  congr 1
  have hcongr : ∀ subjects : List Subject, (∀ s ∈ subjects, s ∈ store.subjects.rows) →
      (subjects.flatMap fun subject => (store.aliasRows.rows.filter fun row =>
        row.subjectId = subject.id ∧ row.aliasKey = aliasKey env name).map fun _ => subject) =
      subjects.filter fun subject =>
        subject.aliases.any (aliasKey env · = aliasKey env name) := by
    intro subjects
    induction subjects with
    | nil =>
        intro _
        rfl
    | cons subject subjects ih =>
        intro hall
        rw [List.flatMap_cons, h.joined (hall subject List.mem_cons_self), List.filter_cons,
          ih fun s hs => hall s (List.mem_cons_of_mem _ hs)]
        split_ifs <;> rfl
  exact hcongr store.subjects.rows fun _ hs => hs

end Lookups

/-- A run keeps the index derived. -/
theorem AliasIndexed.run {env : SubjectEnv} {contentHash : String → String} {modelId : String}
    {calls : List SubjectCall} {store store' : Store} (h : AliasIndexed env store)
    (hrun : run (applySubjectCall env contentHash modelId) store calls = some store') :
    AliasIndexed env store' :=
  run_invariant (AliasIndexed env) (fun _ _ _ hinv hstep => hinv.step hstep) h hrun

/-- **The alias index equals the scan.**  In every store that a run of the repository reaches, the
index holds exactly the rows that the aliases of the existing subjects derive, an audit of it is
clean, and a lookup through it gives the subject that a scan of all the alias lists gives. -/
theorem aliasIndex_eq_scan (env : SubjectEnv) (contentHash : String → String) (modelId : String)
    {calls : List SubjectCall} {store : Store}
    (hrun : run (applySubjectCall env contentHash modelId) .empty calls = some store) :
    store.aliasRows.rows.Perm (expectedAliasRows env store) ∧
      (checkAliasIndex env store).clean ∧
      ∀ name skip, findByAlias env store name skip = scanByAlias env store name skip := by
  have h : AliasIndexed env store := (AliasIndexed.empty env).run hrun
  refine ⟨h.perm, h.clean, fun name skip => ?_⟩
  rw [findByAlias, scanByAlias, h.rowsWithAlias_eq]

/-- A `LIKE` test that folds the ASCII letters. -/
def asciiContains (text : List Char) (part : String) : Bool :=
  part.toList.map Char.toLower <:+: text.map Char.toLower

/-- A repository in which the one upper-case name is NASA, and refs are of one project. -/
def nasaEnv : SubjectEnv where
  lower name := if name = "NASA" then "nasa" else name
  hasPrefix typed id := typed.isPrefixOf id
  contains := asciiContains
  ARTIFACT_REF_NAMESPACE := "artifact"
  artifactRefProject _ := some "project"

/-- Two subjects, one of them with an alias in two spellings, and their merge. -/
def nasaMerge : List SubjectCall :=
  [.insertSubject { id := "s1", canonicalName := "agency", aliases := ["NASA", "nasa"] },
    .insertSubject { id := "s2", canonicalName := "bureau", createdAt := 1 },
    .merge ["s1"] "s2" none]

/-- The store after the merge. -/
def nasaMerged : Store := (run (applySubjectCall nasaEnv id "model") .empty nasaMerge).getD {}

theorem aliasIndex_eq_scan_nasaMerged :
    findByAlias nasaEnv nasaMerged "nasa" [] = scanByAlias nasaEnv nasaMerged "nasa" [] ∧
      nasaMerged.aliasRows.rows = [⟨"s2", "agency", "agency"⟩, ⟨"s2", "nasa", "NASA"⟩] := by
  have hrun : run (applySubjectCall nasaEnv id "model") .empty nasaMerge = some nasaMerged := by
    decide +kernel
  exact ⟨(aliasIndex_eq_scan nasaEnv id "model" hrun).2.2 "nasa" [], by decide +kernel⟩

end ParticlesEngine
