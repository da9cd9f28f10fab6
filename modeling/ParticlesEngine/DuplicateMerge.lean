/-
**Merging identical claims.**

An exact-duplicate merge links the survivor of each group to its redundant copies and supersedes
these.  The groups are joined through chains of shared subjects and the survivor is never changed, so
a copy may have a subject that the survivor lacks.

Main definitions:

* `mergeCopies` — the writes of one group;
* `autoMergeExactDuplicates` — a run over the store;
* `ClaimsKept` — every subject keeps the claims it had;
* `SubjectsCovered` — the runs that supersede no claim of a subject that the survivor lacks.

Main results:

* `autoMerge_spec` — what a run leaves at every id;
* `claimsKept_iff_subjectsCovered` — **a run keeps the claims of every subject exactly when the
  survivors cover the subjects of their copies**.
-/

import ParticlesEngine.Attestations
import ParticlesEngine.DuplicateGroups
import ParticlesEngine.RelationStore

set_option relaxedAutoImplicit false
set_option autoImplicit false

open SortBy FirstByKey

namespace ParticlesEngine

/-! ### The run -/

/-- What a merge reads of its process. -/
structure MergeEnv where
  core : CorePackage
  table : TransitionTable
  /-- `links_suggest.auto_merge.enabled` -/
  enabled : Bool
  /-- `links_suggest.auto_merge.max_per_run` -/
  maxPerRun : ℕ
  /-- of a schema version -/
  writtenByNewerMinor : String → Bool

/-- A `DUPLICATES_MERGED` event. -/
structure DuplicatesMerged where
  survivor : String
  superseded : List String
  contentHash : String
  subjectIds : List String
  /-- the basis of a re-read merge -/
  basis : Option String := none
  deriving DecidableEq, Repr

/-- One copy of a group: linked to the survivor, unless a path joined them before the merge, and
superseded.  The count is of the links. -/
def mergeCopy (table : TransitionTable) (now : Instant) (createdBy : RelationCreatedBy)
    (alreadyLinked : Finset String) (survivorId : String) (state : Store × ℕ) (copyId : String) :
    Except StoreError (Store × ℕ) := do
  let (store, links) ← (if copyId ∈ alreadyLinked then return state
    else do
      let store ← createRelation state.1 survivorId copyId .CO_EVIDENTIAL createdBy
      return (store, state.2 + 1))
  let store ← updateParticleStatus table now store copyId .SUPERSEDED (some .DUPLICATE_MERGED)
  return (store, links)

/-- The copies of one group. -/
def mergeCopies (table : TransitionTable) (now : Instant) (createdBy : RelationCreatedBy)
    (store : Store) (survivorId : String) (copyIds : List String) :
    Except StoreError (Store × ℕ) :=
  copyIds.foldlM (mergeCopy table now createdBy (coEvidentialGroup store survivorId) survivorId)
    (store, 0)

/-- What a run reports. -/
structure DedupReport where
  dryRun : Bool
  groups : List DuplicateGroup := []
  heldNewerSchemaGroups : ℕ := 0
  deferredGroups : ℕ := 0
  linksCreated : ℕ := 0
  mergedGroups : ℕ := 0
  mergedParticles : ℕ := 0
  deriving DecidableEq, Repr

/-- What a run leaves, reports and records. -/
structure MergeRun where
  store : Store
  report : DedupReport
  events : List DuplicatesMerged := []

section Run

variable (menv : MergeEnv)

/-- `_groups_held_for_newer_schema`: a member was written by a newer schema. -/
def heldForNewerSchema (store : Store) (group : DuplicateGroup) : Bool :=
  group.members.any fun id => (store.get? id).any fun row =>
    menv.writtenByNewerMinor row.model.schemaVersion

/-- The groups that a run may merge. -/
def mergeableGroups (store : Store) (subjectId : Option String) : List DuplicateGroup :=
  (findExactDuplicateGroups menv.core store subjectId).filter fun group =>
    !heldForNewerSchema menv store group

/-- One group of a run. -/
def mergeGroup (now : Instant) (run : MergeRun) (group : DuplicateGroup) :
    Except StoreError MergeRun := do
  let (store, links) ← mergeCopies menv.table now .EXACT_DUPLICATE run.store group.survivorId
    group.redundantIds
  return {
    store := store
    report :=
      { run.report with
        linksCreated := run.report.linksCreated + links
        mergedGroups := run.report.mergedGroups + 1
        mergedParticles := run.report.mergedParticles + group.redundantIds.length }
    events := run.events ++ [{
      survivor := group.survivorId
      superseded := group.redundantIds
      contentHash := group.contentHash
      subjectIds := group.subjectIds }] }

/-- **`auto_merge_exact_duplicates`.** -/
def autoMergeExactDuplicates (now : Instant) (store : Store) (subjectId : Option String)
    (dryRun : Bool) : Except StoreError MergeRun := do
  require (dryRun || menv.enabled) .autoMergeDisabled
  let groups := findExactDuplicateGroups menv.core store subjectId
  let mergeable := mergeableGroups menv store subjectId
  let report : DedupReport :=
    { dryRun := dryRun
      groups := groups
      heldNewerSchemaGroups := groups.length - mergeable.length }
  if dryRun then return { store := store, report := report }
  else
    (mergeable.take menv.maxPerRun).foldlM (mergeGroup menv now)
      { store := store
        report := { report with deferredGroups := mergeable.length - menv.maxPerRun } }

/-- The groups that a run merges. -/
def mergingGroups (store : Store) (subjectId : Option String) (dryRun : Bool) :
    List DuplicateGroup :=
  if dryRun then [] else (mergeableGroups menv store subjectId).take menv.maxPerRun

end Run

/-! ### What a run leaves -/

/-- The rows of the copies have been superseded, and every other row is as it was. -/
structure CopiesSuperseded (now : Instant) (before after : Store) (copyIds : List String) :
    Prop where
  other : ∀ id, id ∉ copyIds → after.get? id = before.get? id
  copy : ∀ id ∈ copyIds, ∃ row, before.get? id = some row ∧ row.model.status ≠ .SUPERSEDED ∧
    after.get? id = some (row.withStatus now .SUPERSEDED (some .DUPLICATE_MERGED))

namespace CopiesSuperseded

variable {now : Instant} {before mid after : Store} {ids ids' : List String}

theorem refl (now : Instant) (store : Store) : CopiesSuperseded now store store [] :=
  ⟨fun _ _ => rfl, by simp⟩

theorem append (h : CopiesSuperseded now before mid ids) (h' : CopiesSuperseded now mid after ids') :
    CopiesSuperseded now before after (ids ++ ids') := by
  refine ⟨fun id hid => ?_, fun id hid => ?_⟩
  · rw [List.mem_append, not_or] at hid
    rw [h'.other id hid.2, h.other id hid.1]
  · by_cases hfirst : id ∈ ids
    · obtain ⟨row, hrow, hstatus, hmid⟩ := h.copy id hfirst
      refine ⟨row, hrow, hstatus, ?_⟩
      -- a superseded row is not superseded again
      have hsecond : id ∉ ids' := by
        intro hmem
        obtain ⟨row', hrow', hstatus', -⟩ := h'.copy id hmem
        obtain rfl := Option.some.inj (hmid.symm.trans hrow')
        exact hstatus' rfl
      rw [h'.other id hsecond, hmid]
    · obtain ⟨row, hrow, hstatus, hafter⟩ := h'.copy id ((List.mem_append.1 hid).resolve_left hfirst)
      exact ⟨row, by rw [← hrow, h.other id hfirst], hstatus, hafter⟩

end CopiesSuperseded

section Laws

variable {table : TransitionTable} {now : Instant} {createdBy : RelationCreatedBy}

theorem mergeCopy_spec {already : Finset String} {survivorId copyId : String}
    {state state' : Store × ℕ}
    (h : mergeCopy table now createdBy already survivorId state copyId = .ok state') :
    CopiesSuperseded now state.1 state'.1 [copyId] := by
  simp only [mergeCopy, bind_eq_ok] at h
  obtain ⟨⟨linked, links⟩, hlinked, updated, hupdate, hstate⟩ := h
  obtain rfl := Except.ok.inj hstate
  have hsame : ∀ id, linked.get? id = state.1.get? id := by
    split_ifs at hlinked
    · obtain rfl := Except.ok.inj hlinked
      exact fun _ => rfl
    · simp only [bind_eq_ok] at hlinked
      obtain ⟨created, hcreate, hpair⟩ := hlinked
      obtain ⟨rfl, -⟩ := Prod.mk.inj (Except.ok.inj hpair)
      intro id
      rw [(relations_createRelation hcreate).2.2.2]
      rfl
  obtain ⟨row, hrow, hallows, hget⟩ := get?_updateParticleStatus hupdate
  refine ⟨fun id hid => ?_, fun id hid => ?_⟩
  · rw [hget, if_neg fun heq => hid (List.mem_singleton.2 heq.symm), hsame]
  · obtain rfl := List.mem_singleton.1 hid
    refine ⟨row, by rw [← hsame, hrow], fun hsuperseded => ?_, by rw [hget, if_pos rfl]⟩
    rw [hsuperseded, table.from_superseded] at hallows
    cases hallows

theorem foldlM_mergeCopy_spec {already : Finset String} {survivorId : String}
    (copyIds : List String) : ∀ {state state' : Store × ℕ},
    copyIds.foldlM (mergeCopy table now createdBy already survivorId) state = .ok state' →
      CopiesSuperseded now state.1 state'.1 copyIds := by
  induction copyIds with
  | nil =>
      intro state state' h
      obtain rfl := Except.ok.inj h
      exact .refl now _
  | cons copyId copyIds ih =>
      intro state state' h
      simp only [List.foldlM_cons, bind_eq_ok] at h
      obtain ⟨mid, hcopy, hrest⟩ := h
      exact (mergeCopy_spec hcopy).append (ih hrest)

variable {menv : MergeEnv}

theorem foldlM_mergeGroup_spec (groups : List DuplicateGroup) : ∀ {run run' : MergeRun},
    groups.foldlM (mergeGroup menv now) run = .ok run' →
      CopiesSuperseded now run.store run'.store (groups.flatMap DuplicateGroup.redundantIds) := by
  induction groups with
  | nil =>
      intro run run' h
      obtain rfl := Except.ok.inj h
      exact .refl now _
  | cons group groups ih =>
      intro run run' h
      simp only [List.foldlM_cons, bind_eq_ok] at h
      obtain ⟨mid, hgroup, hrest⟩ := h
      simp only [mergeGroup, bind_eq_ok] at hgroup
      obtain ⟨⟨store, links⟩, hcopies, hmid⟩ := hgroup
      obtain rfl := Except.ok.inj hmid
      exact (foldlM_mergeCopy_spec _ hcopies).append (ih hrest)

/-- **What a run leaves at every id**: the copies of the groups it merges are superseded, and nothing
else changes. -/
theorem autoMerge_spec {store : Store} {subjectId : Option String} {dryRun : Bool}
    {result : MergeRun}
    (h : autoMergeExactDuplicates menv now store subjectId dryRun = .ok result) :
    CopiesSuperseded now store result.store
      ((mergingGroups menv store subjectId dryRun).flatMap DuplicateGroup.redundantIds) := by
  simp only [autoMergeExactDuplicates, bind_eq_ok] at h
  obtain ⟨-, -, h⟩ := h
  unfold mergingGroups
  split_ifs at h ⊢
  · obtain rfl := Except.ok.inj h
    exact .refl now _
  · exact foldlM_mergeGroup_spec _ h

theorem mem_groups_of_merging {store : Store} {subjectId : Option String} {dryRun : Bool}
    {group : DuplicateGroup} (h : group ∈ mergingGroups menv store subjectId dryRun) :
    group ∈ findExactDuplicateGroups menv.core store subjectId := by
  unfold mergingGroups at h
  split_ifs at h
  · cases h
  · exact List.mem_of_mem_filter (List.mem_of_mem_take h)

/-- A member of a group that a run merges is ACTIVE, and a candidate. -/
theorem candidate_of_merging {store : Store} {subjectId : Option String} {dryRun : Bool}
    {group : DuplicateGroup} (h : group ∈ mergingGroups menv store subjectId dryRun) {id : String}
    (hid : id ∈ group.members) {row : ParticleRow} (hrow : store.get? id = some row) :
    row.model ∈ mergeCandidates menv.core store subjectId ∧ row.model.status = .ACTIVE := by
  obtain ⟨p, hp, rfl, -⟩ := members_spec (mem_groups_of_merging h) hid
  obtain ⟨row', hrow', rfl, hactive⟩ := get?_of_mem_mergeCandidates hp
  obtain rfl := Option.some.inj (hrow.symm.trans hrow')
  exact ⟨hp, hactive⟩

end Laws

/-! ### The claims of a subject -/

/-- Every claim with an ACTIVE copy about a subject still has one: the same content key, the same
holder. -/
def ClaimsKept (core : CorePackage) (before after : Store) : Prop :=
  ∀ id row, before.get? id = some row → row.model.status = .ACTIVE → ∀ s ∈ row.model.subjectIds,
    ∃ id' row', after.get? id' = some row' ∧ row'.model.status = .ACTIVE ∧
      s ∈ row'.model.subjectIds ∧ bucketKey core row'.model = bucketKey core row.model

/-- Each subject of a copy that the run supersedes is a subject of the survivor, or of an ACTIVE copy
that the finder leaves out. -/
def SubjectsCovered (menv : MergeEnv) (store : Store) (subjectId : Option String) (dryRun : Bool) :
    Prop :=
  ∀ group ∈ mergingGroups menv store subjectId dryRun, ∀ id ∈ group.redundantIds,
    ∀ row, store.get? id = some row → ∀ s ∈ row.model.subjectIds,
      (∃ survivor, store.get? group.survivorId = some survivor ∧ s ∈ survivor.model.subjectIds) ∨
        ∃ id' other, store.get? id' = some other ∧ other.model.status = .ACTIVE ∧
          other.model ∉ mergeCandidates menv.core store subjectId ∧ s ∈ other.model.subjectIds ∧
          bucketKey menv.core other.model = bucketKey menv.core row.model

/-- **A run keeps the claims of every subject exactly when the survivors cover the subjects of their
copies.** -/
theorem claimsKept_iff_subjectsCovered (menv : MergeEnv) (now : Instant) (store : Store)
    (subjectId : Option String) (dryRun : Bool) (result : MergeRun)
    (h : autoMergeExactDuplicates menv now store subjectId dryRun = .ok result) :
    ClaimsKept menv.core store result.store ↔ SubjectsCovered menv store subjectId dryRun := by
  have hspec := autoMerge_spec h
  constructor
  · intro hkept group hgroup id hid row hrow s hs
    have hmember := List.mem_cons_of_mem group.survivorId hid
    obtain ⟨hcandidate, hactive⟩ := candidate_of_merging hgroup hmember hrow
    obtain ⟨id', row', hrow', hactive', hs', hkey⟩ := hkept id row hrow hactive s hs
    -- what is ACTIVE after the run is none of the copies
    have hnot : id' ∉ (mergingGroups menv store subjectId dryRun).flatMap
        DuplicateGroup.redundantIds := by
      intro hmem
      obtain ⟨before, -, -, hafter⟩ := hspec.copy id' hmem
      obtain rfl := Option.some.inj (hrow'.symm.trans hafter)
      cases hactive'
    rw [hspec.other id' hnot] at hrow'
    by_cases hfound : row'.model ∈ mergeCandidates menv.core store subjectId
    · refine Or.inl ⟨row', ?_, hs'⟩
      obtain ⟨p, hp, hpid, hshared⟩ := members_spec (mem_groups_of_merging hgroup) hmember
      have hprow : p = row.model := mergeCandidates_inj hp hcandidate
        (hpid.trans (ParticleTable.id_of_get? hrow).symm)
      subst hprow
      have hin : id' ∈ group.members := by
        rw [← ParticleTable.id_of_get? hrow']
        exact hshared _ hfound hkey ⟨s, hs, hs'⟩
      rcases List.mem_cons.1 hin with rfl | hin
      · exact hrow'
      · exact absurd (List.mem_flatMap.2 ⟨group, hgroup, hin⟩) hnot
    · exact Or.inr ⟨id', row', hrow', hactive', hfound, hs', hkey⟩
  · intro hcovered id row hrow hactive s hs
    by_cases hcopy : id ∈ (mergingGroups menv store subjectId dryRun).flatMap
        DuplicateGroup.redundantIds
    · obtain ⟨group, hgroup, hid⟩ := List.mem_flatMap.1 hcopy
      have hmember := List.mem_cons_of_mem group.survivorId hid
      have hcandidate := (candidate_of_merging hgroup hmember hrow).1
      rcases hcovered group hgroup id hid row hrow s hs with
        ⟨survivor, hsurvivor, hs'⟩ | ⟨id', other, hother, hactive', hleft, hs', hkey⟩
      · obtain ⟨hcandidate', hactive'⟩ := candidate_of_merging hgroup List.mem_cons_self hsurvivor
        have hstays : group.survivorId ∉ (mergingGroups menv store subjectId dryRun).flatMap
            DuplicateGroup.redundantIds := by
          intro hmem
          obtain ⟨group', hgroup', hmem'⟩ := List.mem_flatMap.1 hmem
          exact survivor_not_redundant (mem_groups_of_merging hgroup)
            (mem_groups_of_merging hgroup') hmem'
        refine ⟨_, survivor, by rw [hspec.other _ hstays, hsurvivor], hactive', hs', ?_⟩
        refine bucketKey_of_members (mem_groups_of_merging hgroup) hcandidate' ?_ hcandidate ?_
        · rw [show survivor.model.id = _ from ParticleTable.id_of_get? hsurvivor]
          exact List.mem_cons_self
        · rw [show row.model.id = _ from ParticleTable.id_of_get? hrow]
          exact hmember
      · have hstays : id' ∉ (mergingGroups menv store subjectId dryRun).flatMap
            DuplicateGroup.redundantIds := by
          intro hmem
          obtain ⟨group', hgroup', hmem'⟩ := List.mem_flatMap.1 hmem
          exact hleft (candidate_of_merging hgroup' (List.mem_cons_of_mem _ hmem') hother).1
        exact ⟨id', other, by rw [hspec.other id' hstays, hother], hactive', hs', hkey⟩
    · exact ⟨id, row, by rw [hspec.other id hcopy, hrow], hactive, hs, rfl⟩

/-- A process that merges everything it finds. -/
def MergeEnv.enabling : MergeEnv where
  core := .verbatim
  table := .documented
  enabled := true
  maxPerRun := 100
  writtenByNewerMinor _ := false

/-- A copy of one claim. -/
def copyOf (id : String) (assertedAt : Instant) (subjectIds : List String) : Particle :=
  { id := id, content := "same", assertedAt := assertedAt, subjectIds := subjectIds }

/-- The store of the given particles. -/
def storeOf (particles : List Particle) : Store :=
  (particles.foldlM (fun store p => insertParticle CorePackage.verbatim.contentHash "" store p none)
    {}).toOption.getD {}

theorem claimsKept_iff_subjectsCovered_pair :
    let store := storeOf [copyOf "a" 1 ["s"], copyOf "b" 2 ["s"]]
    ∃ result, autoMergeExactDuplicates .enabling 5 store none false = .ok result ∧
      result.events.map DuplicatesMerged.superseded = [["b"]] ∧
      (ClaimsKept .verbatim store result.store ↔ SubjectsCovered .enabling store none false) := by
  intro store
  have hrun : (autoMergeExactDuplicates .enabling 5 store none false).toOption.map
      (fun result => result.events.map DuplicatesMerged.superseded) = some [["b"]] := by
    decide +kernel
  obtain ⟨result, hok, hevents⟩ := Option.map_eq_some_iff.1 hrun
  exact ⟨result, toOption_eq_some.1 hok, hevents,
    claimsKept_iff_subjectsCovered .enabling 5 store none false result (toOption_eq_some.1 hok)⟩

/-- Two copies that share the subject `s`; the later one is also about `t`. -/
def chainedCopies : Store := storeOf [copyOf "a" 1 ["s"], copyOf "b" 2 ["s", "t"]]

/-- The later copy is superseded, and `t` loses the claim. -/
theorem claim_of_second_subject_lost :
    ¬ ∀ (menv : MergeEnv) (now : Instant) (store : Store) (subjectId : Option String)
      (dryRun : Bool) (result : MergeRun),
      autoMergeExactDuplicates menv now store subjectId dryRun = .ok result →
        ClaimsKept menv.core store result.store := by
  intro hall
  have hrun : (autoMergeExactDuplicates .enabling 5 chainedCopies none false).toOption.map
      (fun result => result.store.particles.rows.any fun row =>
        row.model.status = .ACTIVE && "t" ∈ row.model.subjectIds) = some false := by
    decide +kernel
  obtain ⟨result, hok, hnone⟩ := Option.map_eq_some_iff.1 hrun
  obtain ⟨row, hrow, hid, hactive, ht⟩ : ∃ row ∈ chainedCopies.particles.rows, row.id = "b" ∧
      row.model.status = .ACTIVE ∧ "t" ∈ row.model.subjectIds := by decide +kernel
  obtain ⟨id', row', hrow', hactive', ht', -⟩ :=
    hall .enabling 5 chainedCopies none false result (toOption_eq_some.1 hok) "b" row
      (ParticleTable.get?_eq_some.2 ⟨hrow, hid⟩) hactive "t" ht
  refine absurd (List.any_eq_false.1 hnone row' (ParticleTable.get?_eq_some.1 hrow').1) ?_
  simp [hactive', ht']

end ParticlesEngine
