/-
**Undoing merges restores the store.**

A merge supersedes copies and links them to their survivor; an unmerge makes the copies of an event
ACTIVE again and deletes the links that carry the merge's tag.  A superseded copy is not merged again, so
no two events list one copy, and the events can be undone in any order.  What an unmerge cannot know is
whether a link with the tag was there before its merge, and which reason and retirement instant a copy
had.

Main definitions:

* `planUnmergeGroup`, `unmergeExactDuplicates` — one event, and a call over several;
* `MergeRequest`, `mergeRuns` — the merge runs, one after the other;
* `SparesMarks` — a run that merges only copies without a mark, over no link of its own tag;
* `UnmergeRestores` — undoing all of the events restores the store.

Main results:

* `mergeLedger_runs` — what the runs leave, and what their events list;
* `unmergeCalls_view` — **what undoing some of the events leaves**;
* `unmergeRestores_iff_sparesMarks` — **undoing every event restores the store exactly when the runs
  spare the marks**.
-/

import ParticlesEngine.RereadMerge

set_option relaxedAutoImplicit false
set_option autoImplicit false

namespace ParticlesEngine

/-! ### One event -/

/-- Why a listed copy is not restored. -/
inductive UnmergeSkipReason where
  | MISSING
  | ALREADY_ACTIVE
  | NOT_SUPERSEDED
  | NOT_MERGE_SUPERSEDED
  deriving DecidableEq, Repr

/-- A listed copy that is not restored. -/
structure UnmergeSkip where
  particleId : String
  reason : UnmergeSkipReason
  foundStatus : Option Status := none
  foundStatusReason : Option StatusReason := none
  deriving DecidableEq, Repr

/-- How one event reverts. -/
structure UnmergeGroup where
  survivorId : String
  survivorStatus : Option Status
  contentHash : String
  restoredIds : List String
  skipped : List UnmergeSkip
  relationsDeleted : ℕ := 0
  reverted : Bool := false
  deriving DecidableEq, Repr

/-- Why a copy is skipped; `none` when it is restored. -/
def skipReason (store : Store) (copyId : String) : Option UnmergeSkip :=
  match store.get? copyId with
  | none => some { particleId := copyId, reason := .MISSING }
  | some row =>
      let found (reason : UnmergeSkipReason) : UnmergeSkip :=
        ⟨copyId, reason, some row.model.status, row.model.statusReason⟩
      if row.model.status = .ACTIVE then some (found .ALREADY_ACTIVE)
      else if row.model.status ≠ .SUPERSEDED then some (found .NOT_SUPERSEDED)
      else if row.model.statusReason ≠ some .DUPLICATE_MERGED then some (found .NOT_MERGE_SUPERSEDED)
      else none

/-- **`plan_unmerge_group`**, of an event with a readable payload. -/
def planUnmergeGroup (store : Store) (event : DuplicatesMerged) : UnmergeGroup where
  survivorId := event.survivor
  survivorStatus := (store.get? event.survivor).map fun row => row.model.status
  contentHash := event.contentHash
  restoredIds := event.superseded.filter fun id => (skipReason store id).isNone
  skipped := event.superseded.filterMap (skipReason store)

/-- The tag of the edges that an event's merge wrote. -/
def DuplicatesMerged.edgeTag (event : DuplicatesMerged) : RelationCreatedBy :=
  if event.basis = some BASIS then .REREAD_DUPLICATE else .EXACT_DUPLICATE

/-- One copy of an event: ACTIVE again, without its edge.  The count is of the edges. -/
def unmergeCopy (table : TransitionTable) (now : Instant) (event : DuplicatesMerged)
    (state : Store × ℕ) (copyId : String) : Except StoreError (Store × ℕ) := do
  let store ← updateParticleStatus table now state.1 copyId .ACTIVE none
  let (store, removed) :=
    deleteRelation store event.survivor copyId .CO_EVIDENTIAL (some event.edgeTag)
  return (store, state.2 + removed.toNat)

/-- What an unmerge reports. -/
structure UnmergeReport where
  dryRun : Bool
  totalEvents : ℕ
  groups : List UnmergeGroup := []
  restoredParticles : ℕ := 0
  skippedParticles : ℕ := 0
  relationsDeleted : ℕ := 0
  deriving DecidableEq, Repr

/-- The report with one more group. -/
def UnmergeReport.add (report : UnmergeReport) (group : UnmergeGroup) : UnmergeReport :=
  { report with
    groups := report.groups ++ [group]
    restoredParticles := report.restoredParticles + group.restoredIds.length
    skippedParticles := report.skippedParticles + group.skipped.length
    relationsDeleted := report.relationsDeleted + group.relationsDeleted }

/-- One event of a call. -/
def unmergeEvent (table : TransitionTable) (now : Instant) (dryRun : Bool)
    (state : Store × UnmergeReport) (event : DuplicatesMerged) :
    Except StoreError (Store × UnmergeReport) := do
  let group := planUnmergeGroup state.1 event
  if dryRun then
    return (state.1, state.2.add { group with relationsDeleted := group.restoredIds.length })
  else
    let (store, deleted) ← group.restoredIds.foldlM (unmergeCopy table now event) (state.1, 0)
    return (store, state.2.add { group with
      relationsDeleted := deleted
      reverted := group.restoredIds ≠ [] })

/-- **`unmerge_exact_duplicates`** over the events that its selector names. -/
def unmergeExactDuplicates (table : TransitionTable) (now : Instant) (store : Store)
    (events : List DuplicatesMerged) (dryRun : Bool) : Except StoreError (Store × UnmergeReport) :=
  events.foldlM (unmergeEvent table now dryRun)
    (store, { dryRun := dryRun, totalEvents := events.length })

/-! ### Runs -/

/-- A call of one of the two merges. -/
inductive MergeRequest where
  | exact (menv : MergeEnv) (now : Instant) (subjectId : Option String) (dryRun : Bool)
  | reread (renv : RereadEnv) (now : Instant)

namespace MergeRequest

/-- What a call leaves and records. -/
def run (store : Store) : MergeRequest → Except StoreError (Store × List DuplicatesMerged)
  | .exact menv now subjectId dryRun =>
      (autoMergeExactDuplicates menv now store subjectId dryRun).map fun r => (r.store, r.events)
  | .reread renv now => (applyReread renv store now).map fun r => (r.store, r.events)

/-- The copies that a call merges, each with its survivor. -/
def merging (store : Store) : MergeRequest → List (String × String)
  | .exact menv _ subjectId dryRun =>
      (mergingGroups menv store subjectId dryRun).flatMap fun g =>
        g.redundantIds.map fun copyId => (g.survivorId, copyId)
  | .reread renv _ =>
      (mergingSurvivors renv store).flatMap fun survivorId =>
        (rereadCopies renv store survivorId).map fun copyId => (survivorId, copyId)

/-- The tag of the edges that a call writes. -/
def tag : MergeRequest → RelationCreatedBy
  | .exact .. => .EXACT_DUPLICATE
  | .reread .. => .REREAD_DUPLICATE

/-- The instant of a call. -/
def now : MergeRequest → Instant
  | .exact _ now _ _ => now
  | .reread _ now => now

end MergeRequest

/-- One call in a sequence; a call that raises is rolled back. -/
def mergeStep (state : Store × List DuplicatesMerged) (request : MergeRequest) :
    Store × List DuplicatesMerged :=
  match request.run state.1 with
  | .ok (store, events) => (store, state.2 ++ events)
  | .error _ => state

/-- A sequence of calls, with all of their events. -/
def mergeRuns (original : Store) (requests : List MergeRequest) : Store × List DuplicatesMerged :=
  requests.foldl mergeStep (original, [])

/-- One call of the unmerge. -/
structure UnmergeCall where
  now : Instant
  events : List DuplicatesMerged

/-- A sequence of unmerges. -/
def unmergeCalls (table : TransitionTable) (store : Store) (calls : List UnmergeCall) :
    Except StoreError Store :=
  calls.foldlM (fun store call =>
    (unmergeExactDuplicates table call.now store call.events false).map Prod.fst) store

/-! ### What a merge leaves -/

/-- The edge that a merge writes. -/
def mergeEdge (tag : RelationCreatedBy) (survivorId copyId : String) : ParticleRelationRow :=
  ⟨(relationKey survivorId copyId .CO_EVIDENTIAL).1,
    (relationKey survivorId copyId .CO_EVIDENTIAL).2.1, .CO_EVIDENTIAL, tag⟩

/-- Two edges that a merge writes are one only between the same two claims. -/
theorem copy_of_mergeEdge_eq {tag tag' : RelationCreatedBy} {a b a' b' : String}
    (h : mergeEdge tag a b = mergeEdge tag' a' b') : b' = a ∨ b' = b := by
  simp only [mergeEdge, relationKey, endpointsForWrite, SYMMETRIC_KINDS, List.mem_cons, true_or,
    if_true, canonicalPair, ParticleRelationRow.mk.injEq] at h
  obtain ⟨hfirst, hsecond, -⟩ := h
  split_ifs at hfirst hsecond <;> simp_all

/-- The copies have been superseded, each once, and edges of the tag joined them to their survivors. -/
structure MergesMade (now : Instant) (tag : RelationCreatedBy) (before after : Store)
    (merges : List (String × String)) : Prop where
  rows : CopiesSuperseded now before after (merges.map Prod.snd)
  distinct : (merges.map Prod.snd).Nodup
  edges : ∃ added, after.relations.rows = before.relations.rows ++ added ∧
    ∀ rel ∈ added, ∃ m ∈ merges, rel = mergeEdge tag m.1 m.2

namespace MergesMade

variable {now : Instant} {tag : RelationCreatedBy} {before mid after : Store}
  {merges merges' : List (String × String)}

theorem refl (now : Instant) (tag : RelationCreatedBy) (store : Store) :
    MergesMade now tag store store [] :=
  ⟨.refl now store, List.nodup_nil, [], by simp, by simp⟩

theorem append (h : MergesMade now tag before mid merges) (h' : MergesMade now tag mid after merges') :
    MergesMade now tag before after (merges ++ merges') := by
  refine ⟨?_, ?_, ?_⟩
  · rw [List.map_append]
    exact h.rows.append h'.rows
  · rw [List.map_append, List.nodup_append']
    refine ⟨h.distinct, h'.distinct, fun id hid hid' => ?_⟩
    -- a superseded copy is not superseded again
    obtain ⟨row, -, -, hmid⟩ := h.rows.copy id hid
    obtain ⟨row', hrow', hstatus, -⟩ := h'.rows.copy id hid'
    obtain rfl := Option.some.inj (hmid.symm.trans hrow')
    exact hstatus rfl
  · obtain ⟨added, hrows, hadded⟩ := h.edges
    obtain ⟨added', hrows', hadded'⟩ := h'.edges
    refine ⟨added ++ added', by rw [hrows', hrows, List.append_assoc], fun rel hrel => ?_⟩
    rcases List.mem_append.1 hrel with hrel | hrel
    · obtain ⟨m, hm, rfl⟩ := hadded rel hrel
      exact ⟨m, List.mem_append_left _ hm, rfl⟩
    · obtain ⟨m, hm, rfl⟩ := hadded' rel hrel
      exact ⟨m, List.mem_append_right _ hm, rfl⟩

end MergesMade

section Merges

variable {table : TransitionTable} {now : Instant} {tag : RelationCreatedBy}

theorem mergeCopy_made {already : Finset String} {survivorId copyId : String}
    {state state' : Store × ℕ}
    (h : mergeCopy table now tag already survivorId state copyId = .ok state') :
    MergesMade now tag state.1 state'.1 [(survivorId, copyId)] := by
  refine ⟨mergeCopy_spec h, List.nodup_singleton _, ?_⟩
  simp only [mergeCopy, bind_eq_ok] at h
  obtain ⟨⟨linked, links⟩, hlinked, updated, hupdate, hstate⟩ := h
  obtain rfl := Except.ok.inj hstate
  obtain ⟨row, -, -, -, rfl⟩ := updateParticleStatus_eq_ok.1 hupdate
  rw [show (linked.setStatus now copyId .SUPERSEDED (some .DUPLICATE_MERGED)).relations =
    linked.relations from rfl]
  split_ifs at hlinked
  · obtain rfl := Except.ok.inj hlinked
    exact ⟨[], by simp, by simp⟩
  · simp only [bind_eq_ok] at hlinked
    obtain ⟨created, hcreate, hpair⟩ := hlinked
    obtain ⟨rfl, -⟩ := Prod.mk.inj (Except.ok.inj hpair)
    refine ⟨_, (relations_createRelation hcreate).2.2.1, fun rel hrel => ?_⟩
    exact ⟨_, List.mem_singleton_self _, List.mem_singleton.1 hrel⟩

theorem mergeCopies_made {store after : Store} {survivorId : String} {copyIds : List String} {n : ℕ}
    (h : mergeCopies table now tag store survivorId copyIds = .ok (after, n)) :
    MergesMade now tag store after (copyIds.map fun copyId => (survivorId, copyId)) := by
  unfold mergeCopies at h
  generalize coEvidentialGroup store survivorId = already at h
  have hfold : ∀ {ids : List String} {state state' : Store × ℕ},
      ids.foldlM (mergeCopy table now tag already survivorId) state = .ok state' →
        MergesMade now tag state.1 state'.1 (ids.map fun copyId => (survivorId, copyId)) := by
    intro ids
    induction ids with
    | nil =>
        intro state state' h
        obtain rfl := Except.ok.inj h
        exact .refl now tag _
    | cons copyId ids ih =>
        intro state state' h
        simp only [List.foldlM_cons, bind_eq_ok] at h
        obtain ⟨mid, hcopy, hrest⟩ := h
        exact (mergeCopy_made hcopy).append (ih hrest)
  exact hfold h

/-- The copies that an event lists, each with its survivor. -/
def DuplicatesMerged.merges (event : DuplicatesMerged) : List (String × String) :=
  event.superseded.map fun copyId => (event.survivor, copyId)

/-- A fold over groups, each of which records one event. -/
theorem foldlM_made {ρ γ : Type} {step : ρ → γ → Except StoreError ρ} {storeOf : ρ → Store}
    {eventsOf : ρ → List DuplicatesMerged} {mergesOf : γ → List (String × String)}
    (hstep : ∀ r g r', step r g = .ok r' → ∃ event, eventsOf r' = eventsOf r ++ [event] ∧
      event.merges = mergesOf g ∧ event.edgeTag = tag ∧
      MergesMade now tag (storeOf r) (storeOf r') (mergesOf g)) (groups : List γ) :
    ∀ {r r' : ρ}, groups.foldlM step r = .ok r' → ∃ events, eventsOf r' = eventsOf r ++ events ∧
      events.flatMap DuplicatesMerged.merges = groups.flatMap mergesOf ∧
      (∀ event ∈ events, event.edgeTag = tag) ∧
      MergesMade now tag (storeOf r) (storeOf r') (groups.flatMap mergesOf) := by
  induction groups with
  | nil =>
      intro r r' h
      obtain rfl := Except.ok.inj h
      exact ⟨[], by simp, rfl, by simp, .refl now tag _⟩
  | cons group groups ih =>
      intro r r' h
      simp only [List.foldlM_cons, bind_eq_ok] at h
      obtain ⟨mid, hgroup, hrest⟩ := h
      obtain ⟨event, hevent, hmerges, htag, hmade⟩ := hstep _ _ _ hgroup
      obtain ⟨events, hevents, hlisted, htags, hmade'⟩ := ih hrest
      refine ⟨event :: events, by simp [hevents, hevent], ?_, ?_, hmade.append hmade'⟩
      · rw [List.flatMap_cons, List.flatMap_cons, hmerges, hlisted]
      · intro e he
        rcases List.mem_cons.1 he with rfl | he
        · exact htag
        · exact htags e he

/-- What a call leaves, and what its events list. -/
structure CallSpec (request : MergeRequest) (store after : Store) (events : List DuplicatesMerged) :
    Prop where
  made : MergesMade request.now request.tag store after (request.merging store)
  listed : events.flatMap DuplicatesMerged.merges = request.merging store
  tagged : ∀ event ∈ events, event.edgeTag = request.tag

theorem mergeGroup_made {menv : MergeEnv} (r : MergeRun) (group : DuplicateGroup) (r' : MergeRun)
    (h : mergeGroup menv now r group = .ok r') : ∃ event, r'.events = r.events ++ [event] ∧
      event.merges = group.redundantIds.map (fun copyId => (group.survivorId, copyId)) ∧
      event.edgeTag = .EXACT_DUPLICATE ∧
      MergesMade now .EXACT_DUPLICATE r.store r'.store
        (group.redundantIds.map fun copyId => (group.survivorId, copyId)) := by
  simp only [mergeGroup, bind_eq_ok] at h
  obtain ⟨⟨after, links⟩, hcopies, hr'⟩ := h
  obtain rfl := Except.ok.inj hr'
  exact ⟨_, rfl, rfl, rfl, mergeCopies_made hcopies⟩

theorem autoMerge_callSpec {menv : MergeEnv} {store : Store} {subjectId : Option String}
    {dryRun : Bool} {result : MergeRun}
    (h : autoMergeExactDuplicates menv now store subjectId dryRun = .ok result) :
    CallSpec (.exact menv now subjectId dryRun) store result.store result.events := by
  simp only [autoMergeExactDuplicates, bind_eq_ok] at h
  obtain ⟨-, -, h⟩ := h
  have hmerging : (MergeRequest.exact menv now subjectId dryRun).merging store =
      (mergingGroups menv store subjectId dryRun).flatMap fun g =>
        g.redundantIds.map fun copyId => (g.survivorId, copyId) := rfl
  unfold mergingGroups at hmerging
  split_ifs at h hmerging
  · obtain rfl := Except.ok.inj h
    refine ⟨?_, hmerging.symm, by simp⟩
    rw [hmerging]
    exact .refl now _ store
  · obtain ⟨events, hevents, hlisted, htags, hmade⟩ := foldlM_made mergeGroup_made _ h
    rw [List.nil_append] at hevents
    rw [hevents]
    refine ⟨?_, hlisted.trans hmerging.symm, htags⟩
    rw [hmerging]
    exact hmade

theorem rereadGroup_made {renv : RereadEnv} {store : Store} (r : RereadRun) (survivorId : String)
    (r' : RereadRun) (h : rereadGroup renv store now r survivorId = .ok r') :
    ∃ event, r'.events = r.events ++ [event] ∧
      event.merges = (rereadCopies renv store survivorId).map (fun copyId => (survivorId, copyId)) ∧
      event.edgeTag = .REREAD_DUPLICATE ∧
      MergesMade now .REREAD_DUPLICATE r.store r'.store
        ((rereadCopies renv store survivorId).map fun copyId => (survivorId, copyId)) := by
  simp only [rereadGroup, bind_eq_ok] at h
  obtain ⟨⟨after, links⟩, hcopies, hr'⟩ := h
  obtain rfl := Except.ok.inj hr'
  exact ⟨_, rfl, rfl, rfl, mergeCopies_made hcopies⟩

theorem applyReread_callSpec {renv : RereadEnv} {store : Store} {result : RereadRun}
    (h : applyReread renv store now = .ok result) :
    CallSpec (.reread renv now) store result.store result.events := by
  simp only [applyReread, bind_eq_ok] at h
  obtain ⟨-, -, -, -, h⟩ := h
  obtain ⟨events, hevents, hlisted, htags, hmade⟩ := foldlM_made rereadGroup_made _ h
  rw [List.nil_append] at hevents
  rw [hevents]
  exact ⟨hmade, hlisted, htags⟩

/-- **What a call leaves, and what its events list.** -/
theorem run_callSpec {request : MergeRequest} {store after : Store} {events : List DuplicatesMerged}
    (h : request.run store = .ok (after, events)) : CallSpec request store after events := by
  cases request with
  | exact menv now subjectId dryRun =>
      obtain ⟨result, hrun, hpair⟩ := map_eq_ok.1 h
      obtain ⟨rfl, rfl⟩ := Prod.mk.inj hpair
      exact autoMerge_callSpec hrun
  | reread renv now =>
      obtain ⟨result, hrun, hpair⟩ := map_eq_ok.1 h
      obtain ⟨rfl, rfl⟩ := Prod.mk.inj hpair
      exact applyReread_callSpec hrun

end Merges

/-- The claims that a call merges are ACTIVE. -/
theorem active_of_mem_merging {request : MergeRequest} {store : Store} {m : String × String}
    (h : m ∈ request.merging store) :
    (∃ row, store.get? m.1 = some row ∧ row.model.status = .ACTIVE) ∧
      ∃ row, store.get? m.2 = some row ∧ row.model.status = .ACTIVE := by
  cases request with
  | exact menv now subjectId dryRun =>
      obtain ⟨group, hgroup, hm⟩ := List.mem_flatMap.1 h
      obtain ⟨copyId, hcopy, rfl⟩ := List.mem_map.1 hm
      have hactive : ∀ id ∈ group.members,
          ∃ row, store.get? id = some row ∧ row.model.status = .ACTIVE := by
        intro id hid
        obtain ⟨p, hp, rfl, -⟩ := members_spec (mem_groups_of_merging hgroup) hid
        obtain ⟨row, hrow, rfl, hstatus⟩ := get?_of_mem_mergeCandidates hp
        exact ⟨row, hrow, hstatus⟩
      exact ⟨hactive _ List.mem_cons_self, hactive _ (List.mem_cons_of_mem _ hcopy)⟩
  | reread renv now =>
      obtain ⟨survivorId, -, hm⟩ := List.mem_flatMap.1 h
      obtain ⟨copyId, hcopy, rfl⟩ := List.mem_map.1 hm
      obtain ⟨item, hitem, rfl⟩ := List.mem_map.1 hcopy
      obtain ⟨hmem, hkeep⟩ := List.mem_filter.1 hitem
      obtain ⟨-, rfl⟩ : item.block = none ∧ item.survivorId = survivorId := by simpa using hkeep
      exact active_of_mem_rereadItems hmem

/-! ### The events of a sequence of calls -/

/-- The copies that events list. -/
def mergedCopies (events : List DuplicatesMerged) : List String :=
  events.flatMap DuplicatesMerged.superseded

/-- The edge of a copy that an event lists. -/
def DuplicatesMerged.edge (event : DuplicatesMerged) (copyId : String) : ParticleRelationRow :=
  mergeEdge event.edgeTag event.survivor copyId

/-- The edges of the copies that events list. -/
def mergedEdges (events : List DuplicatesMerged) : List ParticleRelationRow :=
  events.flatMap fun event => event.superseded.map event.edge

theorem mem_mergedCopies {events : List DuplicatesMerged} {id : String} :
    id ∈ mergedCopies events ↔ ∃ event ∈ events, id ∈ event.superseded := List.mem_flatMap

theorem mem_mergedEdges {events : List DuplicatesMerged} {rel : ParticleRelationRow} :
    rel ∈ mergedEdges events ↔ ∃ event ∈ events, ∃ id ∈ event.superseded, event.edge id = rel := by
  simp [mergedEdges]

theorem mergedCopies_eq (events : List DuplicatesMerged) :
    mergedCopies events = (events.flatMap DuplicatesMerged.merges).map Prod.snd := by
  rw [List.map_flatMap]
  refine List.flatMap_congr fun event _ => ?_
  simp [DuplicatesMerged.merges, Function.comp_def]

/-- What holds of a store and the events of the calls that led to it. -/
structure MergeLedger (original store : Store) (events : List DuplicatesMerged) : Prop where
  /-- no copy is merged twice -/
  distinct : (mergedCopies events).Nodup
  other : ∀ id, id ∉ mergedCopies events → store.get? id = original.get? id
  copy : ∀ id ∈ mergedCopies events, ∃ now row, original.get? id = some row ∧
    row.model.status = .ACTIVE ∧
    store.get? id = some (row.withStatus now .SUPERSEDED (some .DUPLICATE_MERGED))
  edges : ∃ added, store.relations.rows = original.relations.rows ++ added ∧
    ∀ rel ∈ added, rel ∈ mergedEdges events

namespace MergeLedger

variable {original store after : Store} {events new : List DuplicatesMerged}
  {request : MergeRequest}

theorem refl (original : Store) : MergeLedger original original [] :=
  ⟨List.nodup_nil, fun _ _ => rfl, by simp [mergedCopies], [], by simp, by simp⟩

/-- A claim that is ACTIVE was not merged. -/
theorem not_merged (h : MergeLedger original store events) {id : String}
    (hactive : ∃ row, store.get? id = some row ∧ row.model.status = .ACTIVE) :
    id ∉ mergedCopies events := by
  intro hid
  obtain ⟨row, hrow, hactive⟩ := hactive
  obtain ⟨now, before, -, -, hafter⟩ := h.copy id hid
  obtain rfl := Option.some.inj (hrow.symm.trans hafter)
  cases hactive

/-- **A call extends the ledger.** -/
theorem call (h : MergeLedger original store events) (hspec : CallSpec request store after new) :
    MergeLedger original after (events ++ new) := by
  have hnew : mergedCopies new = (request.merging store).map Prod.snd := by
    rw [mergedCopies_eq, hspec.listed]
  have hsplit : mergedCopies (events ++ new) = mergedCopies events ++ mergedCopies new := by
    simp [mergedCopies]
  have hfresh : ∀ id ∈ mergedCopies new, id ∉ mergedCopies events := by
    intro id hid
    rw [hnew] at hid
    obtain ⟨m, hm, rfl⟩ := List.mem_map.1 hid
    exact h.not_merged (active_of_mem_merging hm).2
  refine ⟨?_, ?_, ?_, ?_⟩
  · rw [hsplit, List.nodup_append']
    refine ⟨h.distinct, ?_, fun id hid hid' => hfresh id hid' hid⟩
    rw [hnew]
    exact hspec.made.distinct
  · intro id hid
    rw [hsplit, List.mem_append, not_or] at hid
    rw [hspec.made.rows.other id (hnew ▸ hid.2), h.other id hid.1]
  · intro id hid
    rw [hsplit, List.mem_append] at hid
    rcases hid with hid | hid
    · obtain ⟨now, row, hrow, hactive, hstore⟩ := h.copy id hid
      refine ⟨now, row, hrow, hactive, ?_⟩
      rw [hspec.made.rows.other id (fun hid' => hfresh id (hnew ▸ hid') hid), hstore]
    · have hfree := hfresh id hid
      rw [hnew] at hid
      obtain ⟨row, hrow, -, hafter⟩ := hspec.made.rows.copy id hid
      obtain ⟨m, hm, rfl⟩ := List.mem_map.1 hid
      obtain ⟨row', hrow', hactive⟩ := (active_of_mem_merging hm).2
      obtain rfl := Option.some.inj (hrow.symm.trans hrow')
      exact ⟨request.now, row, by rw [← hrow, h.other _ hfree], hactive, hafter⟩
  · obtain ⟨added, hrows, hadded⟩ := h.edges
    obtain ⟨added', hrows', hadded'⟩ := hspec.made.edges
    refine ⟨added ++ added', by rw [hrows', hrows, List.append_assoc], fun rel hrel => ?_⟩
    rw [mem_mergedEdges]
    rcases List.mem_append.1 hrel with hrel | hrel
    · obtain ⟨event, hevent, hid⟩ := mem_mergedEdges.1 (hadded rel hrel)
      exact ⟨event, List.mem_append_left _ hevent, hid⟩
    · obtain ⟨m, hm, rfl⟩ := hadded' rel hrel
      rw [← hspec.listed] at hm
      obtain ⟨event, hevent, hmerges⟩ := List.mem_flatMap.1 hm
      obtain ⟨id, hid, rfl⟩ := List.mem_map.1 hmerges
      refine ⟨event, List.mem_append_right _ hevent, id, hid, ?_⟩
      rw [DuplicatesMerged.edge, hspec.tagged event hevent]

/-- An edge between two ACTIVE claims is no merge's. -/
theorem mem_relations (h : MergeLedger original store events) {tag : RelationCreatedBy}
    {a b : String} (ha : ∃ row, store.get? a = some row ∧ row.model.status = .ACTIVE)
    (hb : ∃ row, store.get? b = some row ∧ row.model.status = .ACTIVE) :
    mergeEdge tag a b ∈ store.relations.rows ↔ mergeEdge tag a b ∈ original.relations.rows := by
  obtain ⟨added, hrows, hadded⟩ := h.edges
  rw [hrows, List.mem_append, or_iff_left]
  intro hmem
  obtain ⟨event, hevent, id, hid, hedge⟩ := mem_mergedEdges.1 (hadded _ hmem)
  have hmerged := mem_mergedCopies.2 ⟨event, hevent, hid⟩
  rcases copy_of_mergeEdge_eq hedge.symm with rfl | rfl
  · exact h.not_merged ha hmerged
  · exact h.not_merged hb hmerged

end MergeLedger

/-! ### Runs that spare the marks -/

/-- A copy without a mark: no status reason, no retirement instant, and no edge of this tag to its
survivor. -/
def Unmarked (store : Store) (tag : RelationCreatedBy) (survivorId copyId : String) : Prop :=
  (∀ row, store.get? copyId = some row → row.model.statusReason = none ∧ row.retiredAt = none) ∧
    mergeEdge tag survivorId copyId ∉ store.relations.rows

/-- Every copy that a call merges is unmarked, in the store before it. -/
def MergeRequest.Spares (request : MergeRequest) (store : Store) : Prop :=
  ∀ result, request.run store = .ok result →
    ∀ m ∈ request.merging store, Unmarked store request.tag m.1 m.2

/-- Every call of a sequence spares the marks. -/
def SparesMarks (original : Store) (requests : List MergeRequest) : Prop :=
  ∀ before request after, requests = before ++ request :: after →
    request.Spares (mergeRuns original before).1

section Runs

variable {original store : Store} {events : List DuplicatesMerged}

theorem mergeRuns_concat (original : Store) (requests : List MergeRequest) (request : MergeRequest) :
    mergeRuns original (requests ++ [request]) = mergeStep (mergeRuns original requests) request := by
  simp [mergeRuns]

theorem sparesMarks_concat (original : Store) (requests : List MergeRequest)
    (request : MergeRequest) :
    SparesMarks original (requests ++ [request]) ↔
      SparesMarks original requests ∧ request.Spares (mergeRuns original requests).1 := by
  constructor
  · intro h
    refine ⟨fun before r after hsplit => ?_, h requests request [] rfl⟩
    exact h before r (after ++ [request]) (by simp [hsplit])
  · rintro ⟨h, hlast⟩ before r after hsplit
    cases after using List.reverseRecOn with
    | nil =>
        obtain ⟨rfl, hr⟩ := List.append_inj' hsplit rfl
        obtain rfl := List.head_eq_of_cons_eq hr
        exact hlast
    | append_singleton after last =>
        rw [← List.cons_append, ← List.append_assoc] at hsplit
        exact h before r after (List.append_inj' hsplit rfl).1

/-- **What the calls leave, and what their events list**; the marks are spared when every copy listed
was unmarked from the start. -/
theorem mergeLedger_runs (original : Store) (requests : List MergeRequest) :
    MergeLedger original (mergeRuns original requests).1 (mergeRuns original requests).2 ∧
      (SparesMarks original requests ↔ ∀ event ∈ (mergeRuns original requests).2,
        ∀ id ∈ event.superseded, Unmarked original event.edgeTag event.survivor id) := by
  induction requests using List.reverseRecOn with
  | nil =>
      refine ⟨.refl original, ?_⟩
      simp [SparesMarks, mergeRuns]
  | append_singleton requests request ih =>
      obtain ⟨hledger, hspares⟩ := ih
      rw [sparesMarks_concat, mergeRuns_concat, hspares]
      generalize mergeRuns original requests = state at hledger ⊢
      obtain ⟨store, events⟩ := state
      unfold mergeStep
      cases hrun : request.run store with
      | error e =>
          refine ⟨hledger, and_iff_left ?_⟩
          intro result hok
          cases hrun.symm.trans hok
      | ok result =>
          obtain ⟨after, new⟩ := result
          have hspec := run_callSpec hrun
          refine ⟨hledger.call hspec, ?_⟩
          -- what a call finds of the claims it merges is what was there from the start
          have hnew : request.Spares store ↔ ∀ event ∈ new, ∀ id ∈ event.superseded,
              Unmarked original event.edgeTag event.survivor id := by
            have hsame : ∀ m ∈ request.merging store, (Unmarked store request.tag m.1 m.2 ↔
                Unmarked original request.tag m.1 m.2) := by
              intro m hm
              obtain ⟨hsurvivor, hcopy⟩ := active_of_mem_merging hm
              unfold Unmarked
              rw [hledger.mem_relations hsurvivor hcopy, hledger.other _ (hledger.not_merged hcopy)]
            constructor
            · intro h event hevent id hid
              have hm : (event.survivor, id) ∈ request.merging store := by
                rw [← hspec.listed]
                exact List.mem_flatMap.2 ⟨event, hevent, List.mem_map.2 ⟨id, hid, rfl⟩⟩
              rw [hspec.tagged event hevent]
              exact (hsame _ hm).1 (h _ hrun _ hm)
            · intro h result _ m hm
              refine (hsame m hm).2 ?_
              rw [← hspec.listed] at hm
              obtain ⟨event, hevent, hmerges⟩ := List.mem_flatMap.1 hm
              obtain ⟨id, hid, rfl⟩ := List.mem_map.1 hmerges
              rw [← hspec.tagged event hevent]
              exact h event hevent id hid
          rw [hnew]
          simp only [List.mem_append, or_imp, forall_and]

end Runs

/-! ### What an unmerge leaves -/

/-- A row that is ACTIVE again. -/
def ParticleRow.restored (row : ParticleRow) : ParticleRow := row.withStatus 0 .ACTIVE none

theorem ParticleRow.restored_withStatus (row : ParticleRow) (now : Instant) (status : Status)
    (reason : Option StatusReason) : (row.withStatus now status reason).restored = row.restored := rfl

/-- The copies of an event are ACTIVE again, without its edges. -/
structure CopiesRestored (event : DuplicatesMerged) (before after : Store) (ids : List String) :
    Prop where
  copy : ∀ id ∈ ids, after.get? id = (before.get? id).map ParticleRow.restored
  other : ∀ id, id ∉ ids → after.get? id = before.get? id
  relations : after.relations.rows =
    before.relations.rows.filter fun rel => rel ∉ ids.map event.edge

/-- A copy that an unmerge restores. -/
def Restorable (store : Store) (id : String) : Prop :=
  ∃ row, store.get? id = some row ∧ row.model.status = .SUPERSEDED ∧
    row.model.statusReason = some .DUPLICATE_MERGED

theorem isNone_skipReason {store : Store} {id : String} :
    (skipReason store id).isNone = true ↔ Restorable store id := by
  unfold skipReason Restorable
  cases store.get? id with
  | none => simp
  | some row =>
      simp only [Option.some.injEq, exists_eq_left']
      split_ifs with hactive hsuperseded hreason
      · simp [hactive]
      · simp [hsuperseded]
      · simp [hreason]
      · simp_all

/-- The edge that an unmerge deletes. -/
theorem rows_deleteRelation (store : Store) (event : DuplicatesMerged) (id : String) :
    (deleteRelation store event.survivor id .CO_EVIDENTIAL (some event.edgeTag)).1.relations.rows =
      store.relations.rows.filter fun rel => rel ≠ event.edge id := by
  refine List.filter_congr fun rel _ => ?_
  obtain ⟨a, b, kind, tag⟩ := rel
  simp only [DuplicatesMerged.edge, mergeEdge, ParticleRelationRow.key, relationKey,
    Option.mem_def, Option.some.injEq, forall_eq', Prod.mk.injEq, ne_eq,
    ParticleRelationRow.mk.injEq, and_assoc, Bool.decide_and, decide_not]

section Unmerge

variable (table : TransitionTable) (now : Instant) (event : DuplicatesMerged)

theorem unmergeCopy_restores {store : Store} (n : ℕ) {id : String} (h : Restorable store id) :
    ∃ state, unmergeCopy table now event (store, n) id = .ok state ∧
      CopiesRestored event store state.1 [id] := by
  obtain ⟨row, hrow, hstatus, hreason⟩ := h
  have hupdate : updateParticleStatus table now store id .ACTIVE none =
      .ok (store.setStatus now id .ACTIVE none) := by
    refine updateParticleStatus_eq_ok.2 ⟨row, hrow, ?_, fun _ _ => hreason, rfl⟩
    rw [hstatus]
    exact (table.from_superseded _).2 rfl
  refine ⟨_, by rw [unmergeCopy, hupdate]; rfl, fun k hk => ?_, fun k hk => ?_, ?_⟩
  · obtain rfl := List.mem_singleton.1 hk
    exact (get?_setStatus store now k .ACTIVE none k).trans (if_pos rfl)
  · exact (get?_setStatus store now id .ACTIVE none k).trans
      (if_neg fun heq => hk (List.mem_singleton.2 heq.symm))
  · refine (rows_deleteRelation _ event id).trans ?_
    simp [Store.setStatus, Store.modifyParticle]

/-- **Each restorable copy is restored.** -/
theorem foldlM_unmergeCopy_restores (ids : List String) : ∀ {store : Store} (n : ℕ), ids.Nodup →
    (∀ id ∈ ids, Restorable store id) →
      ∃ state, ids.foldlM (unmergeCopy table now event) (store, n) = .ok state ∧
        CopiesRestored event store state.1 ids := by
  induction ids with
  | nil =>
      intro store n _ _
      exact ⟨_, rfl, by simp, fun _ _ => rfl, by simp⟩
  | cons id ids ih =>
      intro store n hnodup hall
      obtain ⟨hfirst, hrest⟩ := List.nodup_cons.1 hnodup
      obtain ⟨⟨mid, n'⟩, hmid, hrestored⟩ :=
        unmergeCopy_restores table now event n (hall id List.mem_cons_self)
      have hothers : ∀ k ∈ ids, mid.get? k = store.get? k := fun k hk =>
        hrestored.other k fun heq => hfirst (List.mem_singleton.1 heq ▸ hk)
      have hmidrest : ∀ k ∈ ids, Restorable mid k := by
        intro k hk
        obtain ⟨row, hrow, hsuperseded⟩ := hall k (List.mem_cons_of_mem _ hk)
        exact ⟨row, by rw [hothers k hk, hrow], hsuperseded⟩
      obtain ⟨state, hstate, hafter⟩ := ih n' hrest hmidrest
      refine ⟨state, ?_, fun k hk => ?_, fun k hk => ?_, ?_⟩
      · rw [List.foldlM_cons, hmid]
        exact hstate
      · rcases List.mem_cons.1 hk with rfl | hk
        · rw [hafter.other k hfirst, hrestored.copy k (List.mem_singleton_self k)]
        · rw [hafter.copy k hk, hothers k hk]
      · rw [List.mem_cons, not_or] at hk
        rw [hafter.other k hk.2, hrestored.other k fun heq => hk.1 (List.mem_singleton.1 heq)]
      · rw [hafter.relations, hrestored.relations, List.filter_filter]
        refine List.filter_congr fun rel _ => ?_
        simp [Bool.and_comm]

end Unmerge

/-- The store while the events `undone` are undone, and the others are not. -/
structure UnmergeView (original merged : Store) (events undone : List DuplicatesMerged)
    (store : Store) : Prop where
  live : ∀ event ∈ events, event ∉ undone → ∀ id ∈ event.superseded, ∃ now row,
    original.get? id = some row ∧
      store.get? id = some (row.withStatus now .SUPERSEDED (some .DUPLICATE_MERGED))
  restored : ∀ event ∈ events, event ∈ undone → ∀ id ∈ event.superseded, ∃ row,
    original.get? id = some row ∧ store.get? id = some row.restored
  other : ∀ id, id ∉ mergedCopies events → store.get? id = original.get? id
  relations : store.relations.rows =
    merged.relations.rows.filter fun rel => rel ∉ mergedEdges undone

theorem MergeLedger.view {original merged : Store} {events : List DuplicatesMerged}
    (h : MergeLedger original merged events) : UnmergeView original merged events [] merged := by
  refine ⟨fun event hevent _ id hid => ?_, fun _ _ hnil => (nomatch hnil), h.other, ?_⟩
  · obtain ⟨now, row, hrow, -, hstore⟩ := h.copy id (mem_mergedCopies.2 ⟨event, hevent, hid⟩)
    exact ⟨now, row, hrow, hstore⟩
  · simp [mergedEdges]

/-- A copy is listed by one event. -/
theorem MergeLedger.event_unique {original merged : Store} {events : List DuplicatesMerged}
    (h : MergeLedger original merged events) {event event' : DuplicatesMerged}
    (hevent : event ∈ events) (hevent' : event' ∈ events) {id : String} (hid : id ∈ event.superseded)
    (hid' : id ∈ event'.superseded) : event = event' := by
  have : Std.Symm (Function.onFun List.Disjoint DuplicatesMerged.superseded) :=
    ⟨fun _ _ hdisjoint => hdisjoint.symm⟩
  by_contra hne
  exact (List.nodup_flatMap.1 h.distinct).2.forall hevent hevent' hne hid hid'

section Undo

variable (table : TransitionTable) {original merged store : Store}
  {events undone : List DuplicatesMerged} {event : DuplicatesMerged}

/-- **An event that was undone already changes nothing more.** -/
theorem UnmergeView.undo_again (hview : UnmergeView original merged events undone store)
    (hevent : event ∈ events) (hundone : event ∈ undone) (now : Instant) (report : UnmergeReport) :
    ∃ report', unmergeEvent table now false (store, report) event = .ok (store, report') := by
  have hnone : (planUnmergeGroup store event).restoredIds = [] := by
    refine List.filter_eq_nil_iff.2 fun id hid => ?_
    rw [isNone_skipReason]
    rintro ⟨row, hrow, hstatus, -⟩
    obtain ⟨row', -, hrow'⟩ := hview.restored event hevent hundone id hid
    obtain rfl := Option.some.inj (hrow.symm.trans hrow')
    cases hstatus
  simp only [unmergeEvent, hnone, List.foldlM_nil]
  exact ⟨_, rfl⟩

/-- **An event joins the undone ones.** -/
theorem UnmergeView.undo (hledger : MergeLedger original merged events)
    (hview : UnmergeView original merged events undone store) (hevent : event ∈ events)
    (now : Instant) (report : UnmergeReport) :
    ∃ after report', unmergeEvent table now false (store, report) event = .ok (after, report') ∧
      UnmergeView original merged events (undone ++ [event]) after := by
  by_cases hundone : event ∈ undone
  · obtain ⟨report', hok⟩ := hview.undo_again table hevent hundone now report
    have hmem : ∀ e, e ∈ undone ++ [event] ↔ e ∈ undone := by
      intro e
      rw [List.mem_append, List.mem_singleton, or_iff_left_of_imp]
      rintro rfl
      exact hundone
    refine ⟨store, report', hok, fun e he hlive => hview.live e he (by rwa [← hmem]),
      fun e he hdone => hview.restored e he ((hmem e).1 hdone), hview.other, ?_⟩
    rw [hview.relations]
    refine List.filter_congr fun rel _ => ?_
    simp only [mem_mergedEdges, hmem]
  · have hall : ∀ id ∈ event.superseded, Restorable store id := by
      intro id hid
      obtain ⟨then_, row, -, hrow⟩ := hview.live event hevent hundone id hid
      exact ⟨_, hrow, rfl, rfl⟩
    have hplan : (planUnmergeGroup store event).restoredIds = event.superseded :=
      List.filter_eq_self.2 fun id hid => isNone_skipReason.2 (hall id hid)
    have hnodup : event.superseded.Nodup := (List.nodup_flatMap.1 hledger.distinct).1 event hevent
    obtain ⟨⟨after, deleted⟩, hfold, hafter⟩ :=
      foldlM_unmergeCopy_restores table now event event.superseded 0 hnodup hall
    have hothers : ∀ e ∈ events, e ≠ event → ∀ id ∈ e.superseded, id ∉ event.superseded :=
      fun e he hne id hid hid' => hne (hledger.event_unique he hevent hid hid')
    have hok : ∃ report', unmergeEvent table now false (store, report) event =
        .ok (after, report') := by
      simp only [unmergeEvent, hplan, hfold]
      exact ⟨_, rfl⟩
    obtain ⟨report', hok⟩ := hok
    refine ⟨after, report', hok, fun e he hlive id hid => ?_, fun e he hdone id hid => ?_,
      fun id hid => ?_, ?_⟩
    · rw [List.mem_append, not_or, List.mem_singleton] at hlive
      rw [hafter.other id (hothers e he hlive.2 id hid)]
      exact hview.live e he hlive.1 id hid
    · by_cases he' : e = event
      · subst he'
        obtain ⟨then_, row, hrow, hstore⟩ := hview.live e he hundone id hid
        refine ⟨row, hrow, ?_⟩
        rw [hafter.copy id hid, hstore, Option.map_some, ParticleRow.restored_withStatus]
      · rw [hafter.other id (hothers e he he' id hid)]
        refine hview.restored e he ?_ id hid
        exact (List.mem_append.1 hdone).resolve_right fun h => he' (List.mem_singleton.1 h)
    · rw [hafter.other id fun hid' => hid (mem_mergedCopies.2 ⟨event, hevent, hid'⟩)]
      exact hview.other id hid
    · rw [hafter.relations, hview.relations, List.filter_filter]
      refine List.filter_congr fun rel _ => ?_
      simp [mergedEdges, Bool.and_comm]

/-- The events of a call join the undone ones. -/
theorem UnmergeView.undo_all (hledger : MergeLedger original merged events) (now : Instant)
    (listed : List DuplicatesMerged) : ∀ {undone : List DuplicatesMerged} {store : Store}
    (report : UnmergeReport), UnmergeView original merged events undone store →
      (∀ event ∈ listed, event ∈ events) → ∃ after report',
        listed.foldlM (unmergeEvent table now false) (store, report) = .ok (after, report') ∧
          UnmergeView original merged events (undone ++ listed) after ∧
          ((∀ event ∈ listed, event ∈ undone) → after = store) := by
  induction listed with
  | nil =>
      intro undone store report hview _
      exact ⟨store, report, rfl, by simpa using hview, fun _ => rfl⟩
  | cons event listed ih =>
      intro undone store report hview hlisted
      have hevent := hlisted event List.mem_cons_self
      obtain ⟨mid, report', hok, hmid⟩ := hview.undo table hledger hevent now report
      obtain ⟨after, report'', hrest, hafter, hsame⟩ := ih report' hmid
        fun e he => hlisted e (List.mem_cons_of_mem _ he)
      refine ⟨after, report'', ?_, by simpa using hafter, fun hdone => ?_⟩
      · rw [List.foldlM_cons, hok]
        exact hrest
      · obtain ⟨_, hagain⟩ := hview.undo_again table hevent
          (hdone event List.mem_cons_self) now report
        obtain ⟨rfl, -⟩ := Prod.mk.inj (Except.ok.inj (hok.symm.trans hagain))
        exact hsame fun e he =>
          List.mem_append_left _ (hdone e (List.mem_cons_of_mem _ he))

/-- **What undoing some of the events leaves**: the calls succeed, and those that list only events
undone before change nothing. -/
theorem unmergeCalls_view (hledger : MergeLedger original merged events) (calls : List UnmergeCall) :
    ∀ {undone : List DuplicatesMerged} {store : Store},
      UnmergeView original merged events undone store →
      (∀ call ∈ calls, ∀ event ∈ call.events, event ∈ events) →
        ∃ after, unmergeCalls table store calls = .ok after ∧
          UnmergeView original merged events (undone ++ calls.flatMap UnmergeCall.events) after ∧
          ((∀ call ∈ calls, ∀ event ∈ call.events, event ∈ undone) → after = store) := by
  induction calls with
  | nil =>
      intro undone store hview _
      exact ⟨store, rfl, by simpa using hview, fun _ => rfl⟩
  | cons call calls ih =>
      intro undone store hview hlisted
      obtain ⟨mid, report, hok, hmid, hsame⟩ := UnmergeView.undo_all table hledger call.now call.events
        { dryRun := false, totalEvents := call.events.length } hview
        (hlisted call List.mem_cons_self)
      obtain ⟨after, hrest, hafter, hsame'⟩ := ih hmid
        fun c hc => hlisted c (List.mem_cons_of_mem _ hc)
      refine ⟨after, ?_, by simpa using hafter, fun hdone => ?_⟩
      · unfold unmergeCalls unmergeExactDuplicates at hrest ⊢
        rw [List.foldlM_cons, hok]
        exact hrest
      · rw [hsame' fun c hc e he => List.mem_append_left _
          (hdone c (List.mem_cons_of_mem _ hc) e he)]
        exact hsame (hdone call List.mem_cons_self)

end Undo

/-! ### The law -/

/-- Every particle has its status, its reason and its retirement instant, and the co-evidential
relations are those that were there. -/
structure SameMarks (before after : Store) : Prop where
  particles : ∀ id, (after.get? id).map (fun row =>
      (row.model.status, row.model.statusReason, row.retiredAt)) =
    (before.get? id).map fun row => (row.model.status, row.model.statusReason, row.retiredAt)
  relations : ∀ rel : ParticleRelationRow, rel.relationType = .CO_EVIDENTIAL →
    (rel ∈ after.relations.rows ↔ rel ∈ before.relations.rows)

/-- Unmerge calls that list the events of the runs, each at least once and in any order, restore the
store; and any further ones change nothing. -/
def UnmergeRestores (table : TransitionTable) (original : Store) (requests : List MergeRequest) :
    Prop :=
  ∀ calls : List UnmergeCall,
    (∀ event, event ∈ (mergeRuns original requests).2 ↔ ∃ call ∈ calls, event ∈ call.events) →
      ∃ restored, unmergeCalls table (mergeRuns original requests).1 calls = .ok restored ∧
        SameMarks original restored ∧ ∀ again : List UnmergeCall,
          (∀ call ∈ again, ∀ event ∈ call.events, event ∈ (mergeRuns original requests).2) →
            unmergeCalls table restored again = .ok restored

/-- With every event undone, the marks are those of the original exactly when the copies were
unmarked. -/
theorem UnmergeView.sameMarks_iff {original merged store : Store}
    {events undone : List DuplicatesMerged} (hledger : MergeLedger original merged events)
    (hview : UnmergeView original merged events undone store)
    (hall : ∀ event, event ∈ events ↔ event ∈ undone) :
    SameMarks original store ↔ ∀ event ∈ events, ∀ id ∈ event.superseded,
      Unmarked original event.edgeTag event.survivor id := by
  constructor
  · intro hsame event hevent id hid
    refine ⟨fun row hrow => ?_, fun hedge => ?_⟩
    · obtain ⟨row', hrow', hstore⟩ := hview.restored event hevent ((hall event).1 hevent) id hid
      obtain rfl := Option.some.inj (hrow.symm.trans hrow')
      have hmarks := hsame.particles id
      rw [hstore, hrow] at hmarks
      obtain ⟨-, hreason, hretired⟩ : row.restored.model.status = row.model.status ∧
          row.restored.model.statusReason = row.model.statusReason ∧
          row.restored.retiredAt = row.retiredAt := by
        simpa using hmarks
      exact ⟨hreason.symm, hretired.symm⟩
    · have hmem := (hsame.relations (event.edge id) rfl).2 hedge
      rw [hview.relations, List.mem_filter] at hmem
      exact of_decide_eq_true hmem.2
        (mem_mergedEdges.2 ⟨event, (hall event).1 hevent, id, hid, rfl⟩)
  · intro hunmarked
    refine ⟨fun id => ?_, fun rel _ => ?_⟩
    · by_cases hid : id ∈ mergedCopies events
      · obtain ⟨event, hevent, hid'⟩ := mem_mergedCopies.1 hid
        obtain ⟨row, hrow, hstore⟩ := hview.restored event hevent ((hall event).1 hevent) id hid'
        obtain ⟨_, row', hrow', hactive, -⟩ := hledger.copy id hid
        obtain rfl := Option.some.inj (hrow.symm.trans hrow')
        obtain ⟨hreason, hretired⟩ := (hunmarked event hevent id hid').1 row hrow
        rw [hstore, hrow, Option.map_some, Option.map_some, hactive, hreason, hretired]
        rfl
      · rw [hview.other id hid]
    · obtain ⟨added, hrows, hadded⟩ := hledger.edges
      have hedges : ∀ rel, rel ∈ mergedEdges undone ↔ rel ∈ mergedEdges events := by
        intro rel
        simp only [mem_mergedEdges, hall]
      rw [hview.relations, List.mem_filter, hrows, List.mem_append, decide_eq_true_eq, hedges]
      constructor
      · rintro ⟨hrel | hrel, hfree⟩
        · exact hrel
        · exact absurd (hadded rel hrel) hfree
      · intro hrel
        refine ⟨Or.inl hrel, fun hedge => ?_⟩
        obtain ⟨event, hevent, id, hid, rfl⟩ := mem_mergedEdges.1 hedge
        exact (hunmarked event hevent id hid).2 hrel

/-- **Undoing every event restores the store exactly when the runs spare the marks.** -/
theorem unmergeRestores_iff_sparesMarks (table : TransitionTable) (original : Store)
    (requests : List MergeRequest) :
    UnmergeRestores table original requests ↔ SparesMarks original requests := by
  obtain ⟨hledger, hspares⟩ := mergeLedger_runs original requests
  unfold UnmergeRestores
  rw [hspares]
  generalize mergeRuns original requests = state at hledger
  obtain ⟨merged, events⟩ := state
  have hundo : ∀ calls : List UnmergeCall,
      (∀ event, event ∈ events ↔ ∃ call ∈ calls, event ∈ call.events) → ∃ restored,
        unmergeCalls table merged calls = .ok restored ∧
          UnmergeView original merged events (calls.flatMap UnmergeCall.events) restored := by
    intro calls hcalls
    obtain ⟨restored, hok, hview, -⟩ := unmergeCalls_view table hledger calls
      hledger.view fun call hcall event hevent => (hcalls event).2 ⟨call, hcall, hevent⟩
    exact ⟨restored, hok, hview⟩
  constructor
  · intro hrestores
    have hcalls : ∀ event, event ∈ events ↔
        ∃ call ∈ [(⟨0, events⟩ : UnmergeCall)], event ∈ call.events := by simp
    obtain ⟨restored, hok, hview⟩ := hundo _ hcalls
    obtain ⟨restored', hok', hsame, -⟩ := hrestores _ hcalls
    obtain rfl := Except.ok.inj (hok.symm.trans hok')
    exact (hview.sameMarks_iff hledger (by simp)).1 hsame
  · intro hunmarked calls hcalls
    obtain ⟨restored, hok, hview⟩ := hundo calls hcalls
    have hall : ∀ event, event ∈ events ↔ event ∈ calls.flatMap UnmergeCall.events := by
      simpa using hcalls
    refine ⟨restored, hok, (hview.sameMarks_iff hledger hall).2 hunmarked, fun again hagain => ?_⟩
    obtain ⟨after, hok', -, hsame⟩ := unmergeCalls_view table hledger again hview hagain
    rw [hok', hsame fun call hcall event hevent => (hall event).1 (hagain call hcall event hevent)]

/-- Two copies are merged and restored, a third one is older and merged with both; the first event is
undone again before the second. -/
def copiesDrifted : Except StoreError Store := do
  let table := TransitionTable.documented
  let first ← autoMergeExactDuplicates .enabling 5
    (storeOf [copyOf "b" 2 ["s"], copyOf "c" 3 ["s"]]) none false
  let apart ← unmergeExactDuplicates table 6 first.store first.events false
  let joined ← insertParticle CorePackage.verbatim.contentHash "" apart.1 (copyOf "a" 1 ["s"]) none
  let second ← autoMergeExactDuplicates .enabling 7 joined none false
  let undone ← unmergeExactDuplicates table 8 second.store (first.events ++ second.events) false
  return undone.1

/-- The three copies are ACTIVE, and the edge of the second merge is still there. -/
def driftedCopies : Store := copiesDrifted.toOption.getD {}

/-- Merging the three again and undoing that deletes the edge. -/
theorem earlier_edge_withdrawn :
    ¬ ∀ (table : TransitionTable) (original : Store) (requests : List MergeRequest),
      UnmergeRestores table original requests := by
  intro hall
  let requests := [MergeRequest.exact .enabling 9 none false]
  let calls : List UnmergeCall := [⟨10, (mergeRuns driftedCopies requests).2⟩]
  obtain ⟨restored, hok, hsame, -⟩ :=
    hall .documented driftedCopies requests calls (fun event => by simp [calls])
  have hrows : (unmergeCalls .documented (mergeRuns driftedCopies requests).1 calls).toOption.map
      (fun store => store.relations.rows) = some [] := by decide +kernel
  rw [hok] at hrows
  have hedge : (⟨"a", "c", .CO_EVIDENTIAL, .EXACT_DUPLICATE⟩ : ParticleRelationRow) ∈
      driftedCopies.relations.rows := by decide +kernel
  have hgone := (hsame.relations _ rfl).2 hedge
  rw [show restored.relations.rows = [] from Option.some.inj hrows] at hgone
  cases hgone

end ParticlesEngine
