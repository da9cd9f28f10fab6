/-
**The catch-up queue.**

The nightly pass extracts what is PENDING, least tried first and then longest owed, and of each entry at
most one snapshot.  An entry owes since the earliest capture that nothing newer of it has been extracted
for, and not since the capture of the snapshot that is left of it: a collapse moves the work of a MUTABLE
entry to its newest snapshot.

Main definitions:

* `PendingSnapshot`, `owedSince`, `listPendingSnapshotsForCatchup` — the queue;
* `Pass`, `prioritised`, `onePerEntry`, `extractSelection` — what a pass takes of it;
* `isExtracted`, `lastExtracted`, `Owes` — what has been extracted of an entry, and what it owes.

Main results:

* `onePerEntry_eq` — the loop takes the first snapshot of each of the first entries;
* `chosen_first` — of an entry the pass takes the first snapshot;
* `passed_over` — **an entry is passed over only for entries that stand before it**, each with its
  first snapshot;
* `mem_listPending`, `owed_eq_some` — what is in the queue, and since when an entry owes.
-/

import ParticlesEngine.PendingCollapse

set_option relaxedAutoImplicit false
set_option autoImplicit false

namespace ParticlesEngine
namespace CatchupQueue

open FirstByKey SortBy

/-! ### The queue -/

/-- One PENDING snapshot as the catch-up reads it. -/
structure PendingSnapshot where
  entryId : String
  snapshotId : String
  capturedAt : Instant
  /-- how many times extraction has claimed it -/
  attempts : ℕ
  /-- when the entry began owing extraction -/
  owedSince : Option Instant := none
  tags : List String := []
  absent : Bool := false
  deriving DecidableEq, Repr

/-- `PendingSnapshot.waiting_since`. -/
def PendingSnapshot.waitingSince (item : PendingSnapshot) : Instant :=
  item.owedSince.getD item.capturedAt

/-- `owed_since`; none where nothing is pending. -/
def owedSince (pending collapsed : List Instant) (lastExtracted : Option Instant) : Option Instant :=
  (pending ++ collapsed.filter fun c => lastExtracted.all (· < c)).min?

/-- The row is an extracted generation. -/
def isExtracted (row : ExtractionRow) : Bool :=
  row.warcRecordType = .RESPONSE && row.extractionStatus = .COMPLETE &&
    row.supersededBySnapshotId = none

/-- The row is a collapsed generation. -/
def isCollapsed (row : ExtractionRow) : Bool :=
  row.warcRecordType ∈ GENERATION_TYPES && row.supersededBySnapshotId ≠ none

section Listing

variable (t : ExtractionTable)

/-- When the rows of an entry that pass a test were captured. -/
def captures (test : ExtractionRow → Bool) (entryId : String) : List Instant :=
  (t.rows.filter fun row => row.entryId = entryId && test row).map ExtractionRow.capturedAt

/-- When the newest extracted generation of an entry was captured. -/
def lastExtracted (entryId : String) : Option Instant := (captures t isExtracted entryId).max?

/-- Since when an entry owes an extraction. -/
def owed (entryId : String) : Option Instant :=
  owedSince (captures t (fun row => row.extractionStatus = .PENDING) entryId)
    (captures t isCollapsed entryId) (lastExtracted t entryId)

/-- A row of the queue. -/
def pendingSnapshot (row : ExtractionRow) (entry : CorpusEntryRow) : PendingSnapshot where
  entryId := row.entryId
  snapshotId := row.snapshotId
  capturedAt := row.capturedAt
  attempts := row.extractionAttempts
  owedSince := owed t row.entryId
  tags := entry.tags
  absent := row.warcRecordType = .ABSENT

/-- The order of the queue. -/
def catchupOrder (item : PendingSnapshot) : ℕ ×ₗ Instant ×ₗ Instant ×ₗ String :=
  toLex (item.attempts, toLex (item.waitingSince, toLex (item.capturedAt, item.snapshotId)))

/-- `list_pending_snapshots_for_catchup`. -/
def listPendingSnapshotsForCatchup (entries : Table CorpusEntryRow.entryId) : List PendingSnapshot :=
  sortBy catchupOrder <|
    (t.rows.filter fun row => row.extractionStatus = .PENDING).filterMap fun row =>
      (entries.get? row.entryId).map (pendingSnapshot t row)

/-- `catchup_listing`: a snapshot that a refusal holds is left out. -/
def catchupListing (entries : Table CorpusEntryRow.entryId) (held : List String) :
    List PendingSnapshot :=
  (listPendingSnapshotsForCatchup t entries).filter fun item => item.snapshotId ∉ held

end Listing

/-! ### What a pass takes -/

/-- The settings of the pass. -/
structure Pass where
  /-- `consolidation.max_pending_entries` -/
  maxPendingEntries : ℕ
  /-- `consolidation.priority_tags` -/
  priorityTags : List String := []
  /-- `consolidation.extract_batching` -/
  extractBatching : Bool := true

/-- The entry is in the priority class. -/
def Pass.isPriority (pass : Pass) (item : PendingSnapshot) : Bool :=
  item.tags.any (· ∈ pass.priorityTags)

/-- `_prioritised`. -/
def prioritised (pass : Pass) (pending : List PendingSnapshot) : List PendingSnapshot :=
  if pass.priorityTags = [] then pending
  else pending.filter pass.isPriority ++ pending.filter fun item => !pass.isPriority item

/-- `_one_per_entry`, the entries in `seen` being taken. -/
def onePerEntry : ℕ → List String → List PendingSnapshot → List (String × String)
  | 0, _, _ => []
  | _, _, [] => []
  | cap + 1, seen, item :: pending =>
    if item.entryId ∈ seen then onePerEntry (cap + 1) seen pending
    else (item.entryId, item.snapshotId) :: onePerEntry cap (seen ++ [item.entryId]) pending

/-- `_extract_selection`. -/
def extractSelection (pass : Pass) (pending : List PendingSnapshot) : List (String × String) :=
  let ordered := prioritised pass pending
  if pass.extractBatching then onePerEntry pass.maxPendingEntries [] ordered
  else (ordered.take pass.maxPendingEntries).map fun item => (item.entryId, item.snapshotId)

/-- **The loop takes the first snapshot of each of the first entries.** -/
theorem onePerEntry_eq (cap : ℕ) (seen : List String) (pending : List PendingSnapshot) :
    onePerEntry cap seen pending =
      ((firstByKey PendingSnapshot.entryId seen pending).take cap).map
        fun item => (item.entryId, item.snapshotId) := by
  induction pending generalizing cap seen with
  | nil => cases cap <;> rfl
  | cons item pending ih =>
      cases cap with
      | zero => rfl
      | succ cap =>
          rw [onePerEntry, firstByKey_cons]
          split_ifs
          · exact ih _ _
          · rw [ih]
            rfl

section Selection

variable {pass : Pass} {pending : List PendingSnapshot}

/-- The order of the queue with the priority class in front. -/
def classOrder (pass : Pass) (item : PendingSnapshot) : ℕ ×ₗ ℕ ×ₗ Instant ×ₗ Instant ×ₗ String :=
  toLex (if pass.isPriority item then 0 else 1, catchupOrder item)

theorem mem_prioritised {item : PendingSnapshot} :
    item ∈ prioritised pass pending ↔ item ∈ pending := by
  unfold prioritised
  split_ifs
  · exact Iff.rfl
  · cases hclass : pass.isPriority item <;> simp [hclass]

theorem classOrder_le_of_eq {a b : PendingSnapshot} (hclass : pass.isPriority a = pass.isPriority b)
    (h : catchupOrder a ≤ catchupOrder b) : classOrder pass a ≤ classOrder pass b := by
  unfold classOrder
  rw [hclass]
  exact Prod.Lex.toLex_le_toLex.2 (.inr ⟨rfl, h⟩)

theorem pairwise_prioritised (hsorted : pending.Pairwise fun a b => catchupOrder a ≤ catchupOrder b) :
    (prioritised pass pending).Pairwise fun a b => classOrder pass a ≤ classOrder pass b := by
  have hpart : ∀ (c : Bool) {part : List PendingSnapshot}, part.Sublist pending →
      (∀ item ∈ part, pass.isPriority item = c) →
      part.Pairwise fun a b => classOrder pass a ≤ classOrder pass b := by
    intro c part hsub hclass
    refine (hsorted.sublist hsub).imp_of_mem fun ha hb hle => classOrder_le_of_eq ?_ hle
    rw [hclass _ ha, hclass _ hb]
  unfold prioritised
  split_ifs with htags
  · refine hpart false (List.Sublist.refl _) fun item _ => ?_
    simp [Pass.isPriority, htags]
  · refine List.pairwise_append.2 ⟨?_, ?_, ?_⟩
    · exact hpart true List.filter_sublist fun item hitem => (List.mem_filter.1 hitem).2
    · refine hpart false List.filter_sublist fun item hitem => ?_
      simpa using (List.mem_filter.1 hitem).2
    · intro a ha b hb
      have hfirst : pass.isPriority a = true := (List.mem_filter.1 ha).2
      have hrest : pass.isPriority b = false := by simpa using (List.mem_filter.1 hb).2
      unfold classOrder
      rw [hfirst, hrest]
      exact Prod.Lex.toLex_le_toLex.2 (.inl Nat.zero_lt_one)

theorem extractSelection_eq (hbatching : pass.extractBatching = true) :
    extractSelection pass pending =
      ((firstByKey PendingSnapshot.entryId [] (prioritised pass pending)).take
        pass.maxPendingEntries).map fun item => (item.entryId, item.snapshotId) := by
  unfold extractSelection
  rw [if_pos hbatching, onePerEntry_eq]

/-- **Of an entry the pass takes the first snapshot.** -/
theorem chosen_first (hbatching : pass.extractBatching = true)
    (hsorted : pending.Pairwise fun a b => catchupOrder a ≤ catchupOrder b) {chosen : String × String}
    (hchosen : chosen ∈ extractSelection pass pending) :
    ∃ first ∈ (firstByKey PendingSnapshot.entryId [] (prioritised pass pending)).take
        pass.maxPendingEntries, first ∈ pending ∧ chosen = (first.entryId, first.snapshotId) ∧
      ∀ other ∈ pending, other.entryId = first.entryId →
        classOrder pass first ≤ classOrder pass other := by
  have hordered : (prioritised pass pending).Pairwise fun a b => classOrder pass a ≤ classOrder pass b :=
    pairwise_prioritised hsorted
  rw [extractSelection_eq hbatching] at hchosen
  obtain ⟨first, hfirst, rfl⟩ := List.mem_map.1 hchosen
  have hkept := List.mem_of_mem_take hfirst
  refine ⟨first, hfirst, mem_prioritised.1 (mem_of_mem_firstByKey hkept), rfl, ?_⟩
  intro other hother hentry
  exact order_le_of_mem_firstByKey hordered hkept (mem_prioritised.2 hother) hentry

/-- **An entry is passed over only for entries that stand before it**: as many as a pass takes, each
with its first snapshot. -/
theorem passed_over (hbatching : pass.extractBatching = true)
    (hsorted : pending.Pairwise fun a b => catchupOrder a ≤ catchupOrder b) {item : PendingSnapshot}
    (hitem : item ∈ pending) (hnot : item.entryId ∉ (extractSelection pass pending).map Prod.fst) :
    (extractSelection pass pending).length = pass.maxPendingEntries ∧
    ((extractSelection pass pending).map Prod.fst).Nodup ∧
    ∀ chosen ∈ extractSelection pass pending, ∃ first ∈ pending,
      chosen = (first.entryId, first.snapshotId) ∧ classOrder pass first ≤ classOrder pass item ∧
      ∀ other ∈ pending, other.entryId = first.entryId →
        classOrder pass first ≤ classOrder pass other := by
  have hordered : (prioritised pass pending).Pairwise fun a b => classOrder pass a ≤ classOrder pass b :=
    pairwise_prioritised hsorted
  have hentries : (extractSelection pass pending).map Prod.fst =
      ((firstByKey PendingSnapshot.entryId [] (prioritised pass pending)).take
        pass.maxPendingEntries).map PendingSnapshot.entryId := by
    rw [extractSelection_eq hbatching, List.map_map]
    rfl
  rw [hentries] at hnot ⊢
  obtain ⟨hlength, hbefore⟩ := firstByKey_take_of_not_mem hordered (mem_prioritised.2 hitem) hnot
  refine ⟨by rw [extractSelection_eq hbatching, List.length_map, hlength], ?_, ?_⟩
  · exact (nodup_map_firstByKey.sublist ((List.take_sublist _ _).map _))
  · intro chosen hchosen
    obtain ⟨first, hfirst, hpending, heq, hleast⟩ := chosen_first hbatching hsorted hchosen
    exact ⟨first, hpending, heq, hbefore first hfirst, hleast⟩

end Selection

/-! ### What is in the queue -/

section Queue

variable {t : ExtractionTable} {entries : Table CorpusEntryRow.entryId} {entryId : String}

theorem mem_captures {test : ExtractionRow → Bool} {c : Instant} :
    c ∈ captures t test entryId ↔
      ∃ row ∈ t.rows, row.entryId = entryId ∧ test row = true ∧ row.capturedAt = c := by
  simp [captures, and_assoc]

/-- The row is one that its entry owes an extraction for. -/
def Owes (t : ExtractionTable) (row : ExtractionRow) : Prop :=
  row.extractionStatus = .PENDING ∨
    isCollapsed row = true ∧ (lastExtracted t row.entryId).all (· < row.capturedAt) = true

/-- **Since when an entry owes an extraction.** -/
theorem owed_eq_some {w : Instant} : owed t entryId = some w ↔
    (∃ row ∈ t.rows, row.entryId = entryId ∧ Owes t row ∧ row.capturedAt = w) ∧
      ∀ row ∈ t.rows, row.entryId = entryId → Owes t row → w ≤ row.capturedAt := by
  have hmem : ∀ c, c ∈ captures t (fun row => row.extractionStatus = .PENDING) entryId ++
        (captures t isCollapsed entryId).filter (fun c => (lastExtracted t entryId).all (· < c)) ↔
      ∃ row ∈ t.rows, row.entryId = entryId ∧ Owes t row ∧ row.capturedAt = c := by
    intro c
    rw [List.mem_append, List.mem_filter, mem_captures, mem_captures]
    constructor
    · rintro (⟨row, hrow, hentry, hpending, rfl⟩ | ⟨⟨row, hrow, hentry, hcollapsed, rfl⟩, hlast⟩)
      · exact ⟨row, hrow, hentry, .inl (of_decide_eq_true hpending), rfl⟩
      · exact ⟨row, hrow, hentry, .inr ⟨hcollapsed, hentry ▸ hlast⟩, rfl⟩
    · rintro ⟨row, hrow, hentry, hpending | ⟨hcollapsed, hlast⟩, rfl⟩
      · exact .inl ⟨row, hrow, hentry, decide_eq_true hpending, rfl⟩
      · exact .inr ⟨⟨row, hrow, hentry, hcollapsed, rfl⟩, hentry ▸ hlast⟩
  unfold owed owedSince
  rw [List.min?_eq_some_iff, hmem]
  refine and_congr_right fun _ => ⟨fun hle row hrow hentry howes => ?_, fun hle c hc => ?_⟩
  · exact hle _ ((hmem _).2 ⟨row, hrow, hentry, howes, rfl⟩)
  · obtain ⟨row, hrow, hentry, howes, rfl⟩ := (hmem c).1 hc
    exact hle row hrow hentry howes

/-- What is in the queue. -/
theorem mem_listPending {item : PendingSnapshot} :
    item ∈ listPendingSnapshotsForCatchup t entries ↔
      ∃ row ∈ t.rows, row.extractionStatus = .PENDING ∧ ∃ entry,
        entries.get? row.entryId = some entry ∧ pendingSnapshot t row entry = item := by
  simp [listPendingSnapshotsForCatchup, and_assoc]

theorem pairwise_catchupListing (held : List String) :
    (catchupListing t entries held).Pairwise fun a b => catchupOrder a ≤ catchupOrder b :=
  (pairwise_sortBy catchupOrder _).sublist List.filter_sublist

theorem mem_catchupListing {held : List String} {item : PendingSnapshot} :
    item ∈ catchupListing t entries held ↔
      ∃ row ∈ t.rows, row.extractionStatus = .PENDING ∧ row.snapshotId ∉ held ∧ ∃ entry,
        entries.get? row.entryId = some entry ∧ pendingSnapshot t row entry = item := by
  unfold catchupListing
  rw [List.mem_filter, mem_listPending]
  constructor
  · rintro ⟨⟨row, hrow, hpending, entry, hentry, rfl⟩, hheld⟩
    exact ⟨row, hrow, hpending, of_decide_eq_true hheld, entry, hentry, rfl⟩
  · rintro ⟨row, hrow, hpending, hheld, entry, hentry, rfl⟩
    exact ⟨⟨row, hrow, hpending, entry, hentry, rfl⟩, decide_eq_true hheld⟩

end Queue

end CatchupQueue
end ParticlesEngine
