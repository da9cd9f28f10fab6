/-
**A whole read that nothing resumes.**

An append-only entry is read snapshot by snapshot, each read going on from the one before.  A read of the
whole text that failed partway leaves a marker on its snapshot, and while the marker stands no later
snapshot of the entry is tried.  The nightly pass takes one snapshot of each entry, and of an entry the
least tried one.  So once a later snapshot has been deposited the pass takes that one, night after night,
finds it waiting, and never comes to the marked one: nothing of the entry is read any more.

Main definitions:

* `listExtractionBases`, `waitingOn`, `earlierAllComplete` — the snapshots of an entry, the one that a
  snapshot waits on, and whether all before it are COMPLETE;
* `nightReads` — what a night reads of what it takes;
* `Standstill` — a marked snapshot, and another that has not been tried;
* `NightStep` — the reads of a night, a stale reset, a deposit, or work on other entries.

Main results:

* `isSome_waitingOn` — what comes after a marked snapshot waits;
* `earlierAllComplete_iff` — what the rule that sets the marker asks of the snapshots before it;
* `Standstill.not_read` — a night reads nothing of the entry;
* `Standstill.step` — **and nothing that goes on changes that**;
* `neither_is_read` — over every run.
-/

import ParticlesEngine.CatchupWaits
import Mathlib.Logic.Relation

set_option relaxedAutoImplicit false
set_option autoImplicit false

namespace ParticlesEngine
namespace CatchupQueue

open SortBy

/-! ### What a snapshot waits on -/

/-- The order of the snapshots of an entry. -/
def baseOrder (row : ExtractionRow) : Instant ×ₗ String := toLex (row.capturedAt, row.snapshotId)

/-- `list_extraction_bases`, every snapshot being archived. -/
def listExtractionBases (t : ExtractionTable) (entryId : String) : List ExtractionRow :=
  sortBy baseOrder (t.rows.filter fun row => row.entryId = entryId && row.warcRecordType = .RESPONSE)

/-- `waiting_on`. -/
def waitingOn : List ExtractionRow → String → Option ExtractionRow
  | [], _ => none
  | row :: rows, snapshotId =>
    if row.snapshotId = snapshotId then none
    else if row.resumeWhole then some row
    else waitingOn rows snapshotId

/-- **What comes after a marked snapshot waits.** -/
theorem isSome_waitingOn {rows : List ExtractionRow} {snapshotId : String} {marked : ExtractionRow}
    (hsorted : rows.Pairwise fun a b => baseOrder a ≤ baseOrder b) (hmarked : marked ∈ rows)
    (hwhole : marked.resumeWhole = true)
    (hlater : ∀ row ∈ rows, row.snapshotId = snapshotId → baseOrder marked < baseOrder row) :
    (waitingOn rows snapshotId).isSome = true := by
  induction rows with
  | nil => cases hmarked
  | cons row rows ih =>
      obtain ⟨hhead, hrest⟩ := List.pairwise_cons.1 hsorted
      rw [waitingOn]
      have hle : baseOrder row ≤ baseOrder marked := by
        rcases List.mem_cons.1 hmarked with rfl | hin
        · exact le_rfl
        · exact hhead marked hin
      rw [if_neg fun hid => absurd (hlater row List.mem_cons_self hid) (not_lt_of_ge hle)]
      split_ifs with hresume
      · rfl
      · rcases List.mem_cons.1 hmarked with rfl | hin
        · exact absurd hwhole hresume
        · exact ih hrest hin fun other hother => hlater other (List.mem_cons_of_mem _ hother)

/-- `earlier_all_complete`, which a read of the whole text asks for before it leaves the marker. -/
def earlierAllComplete : List ExtractionRow → String → Bool
  | [], _ => true
  | row :: rows, snapshotId =>
    if row.snapshotId = snapshotId then true
    else if row.extractionStatus ≠ .COMPLETE then false
    else earlierAllComplete rows snapshotId

/-- **What comes before the snapshot is COMPLETE.** -/
theorem earlierAllComplete_iff {rows : List ExtractionRow} {marked : ExtractionRow}
    (hsorted : rows.Pairwise fun a b => baseOrder a ≤ baseOrder b) (hmarked : marked ∈ rows)
    (hkey : ∀ row ∈ rows, row.snapshotId = marked.snapshotId → row = marked) :
    earlierAllComplete rows marked.snapshotId = true ↔
      ∀ row ∈ rows, baseOrder row < baseOrder marked → row.extractionStatus = .COMPLETE := by
  induction rows with
  | nil => cases hmarked
  | cons row rows ih =>
      obtain ⟨hhead, hrest⟩ := List.pairwise_cons.1 hsorted
      rw [earlierAllComplete]
      by_cases hid : row.snapshotId = marked.snapshotId
      · -- nothing comes before the first
        obtain rfl := hkey row List.mem_cons_self hid
        rw [if_pos rfl]
        refine iff_of_true rfl fun other hother hlt => ?_
        rcases List.mem_cons.1 hother with rfl | hin
        · exact absurd hlt (lt_irrefl _)
        · exact absurd hlt (not_lt_of_ge (hhead other hin))
      · have hin : marked ∈ rows := (List.mem_cons.1 hmarked).resolve_left fun heq => hid (heq ▸ rfl)
        have hlt : baseOrder row < baseOrder marked := by
          refine lt_of_le_of_ne (hhead marked hin) fun heq => hid ?_
          exact congrArg (fun order => (ofLex order).2) heq
        have hiff := ih hrest hin fun other hother => hkey other (List.mem_cons_of_mem _ hother)
        rw [if_neg hid, List.forall_mem_cons, ← hiff]
        by_cases hcomplete : row.extractionStatus = .COMPLETE
        · simp [hcomplete]
        · simp [hcomplete, hlt]

theorem pairwise_listExtractionBases (t : ExtractionTable) (entryId : String) :
    (listExtractionBases t entryId).Pairwise fun a b => baseOrder a ≤ baseOrder b :=
  pairwise_sortBy _ _

theorem mem_listExtractionBases {t : ExtractionTable} {entryId : String} {row : ExtractionRow} :
    row ∈ listExtractionBases t entryId ↔
      row ∈ t.rows ∧ row.entryId = entryId ∧ row.warcRecordType = .RESPONSE := by
  simp [listExtractionBases]

/-! ### A night -/

section Night

variable (inScope : String → Bool) (pass : Pass)

/-- The snapshot is of an entry that is read from the end of an earlier read, and waits. -/
def waits (t : ExtractionTable) (chosen : String × String) : Bool :=
  inScope chosen.1 && (waitingOn (listExtractionBases t chosen.1) chosen.2).isSome

/-- What a night reads: of what it takes, what does not wait. -/
def nightReads (st : ClaimState) (held : List String) : List (String × String) :=
  (extractSelection pass (catchupListing st.rows st.entries held)).filter fun chosen =>
    !waits inScope st.rows chosen

/-- The reads of a night, whatever comes of them, while the waiting snapshot is not held; a reset of
snapshots that are IN_PROGRESS; a deposit, later than the marked snapshot if it is another content of
the entry; or work on other entries. -/
inductive NightStep (entryId : String) (marked waiting : ExtractionRow) :
    ClaimState → ClaimState → Prop
  | night {st st' : ClaimState} (held : List String) (read : ExtractionRow → ExtractionRow)
      (hheld : waiting.snapshotId ∉ held) (hread : ∀ row, SameColumns row (read row))
      (hrows : st'.rows.rows = st.rows.rows.map fun row =>
        if (row.entryId, row.snapshotId) ∈ nightReads inScope pass st held then read row else row) :
      NightStep entryId marked waiting st st'
  | reset {st st' : ClaimState} (staleIds : List String)
      (hstale : ∀ row ∈ st.rows.rows, row.snapshotId ∈ staleIds → row.extractionStatus = .IN_PROGRESS)
      (hrows : st'.rows = st.rows.resetInProgress staleIds) : NightStep entryId marked waiting st st'
  | deposited {st st' : ClaimState} (row : ExtractionRow)
      (hlater : row.entryId = entryId → row.warcRecordType = .RESPONSE →
        marked.capturedAt < row.capturedAt)
      (hrows : st'.rows.rows = st.rows.rows ++ [row]) : NightStep entryId marked waiting st st'
  | elsewhere {st st' : ClaimState}
      (hrows : st'.rows.rows.filter (fun row => row.entryId = entryId) =
        st.rows.rows.filter fun row => row.entryId = entryId) :
      NightStep entryId marked waiting st st'

end Night

/-! ### The standstill -/

/-- A snapshot that was tried, is PENDING again and is marked, all before it being COMPLETE as the marker
asks; and another of the entry that is PENDING and has not been tried. -/
structure Standstill (entryId : String) (marked waiting : ExtractionRow) (st : ClaimState) : Prop where
  marked_mem : marked ∈ st.rows.rows
  waiting_mem : waiting ∈ st.rows.rows
  marked_of : marked.entryId = entryId ∧ marked.warcRecordType = .RESPONSE ∧
    marked.resumeWhole = true ∧ marked.extractionStatus = .PENDING ∧ 0 < marked.extractionAttempts
  waiting_of : waiting.entryId = entryId ∧ waiting.extractionStatus = .PENDING ∧
    waiting.extractionAttempts = 0
  earlier : earlierAllComplete (listExtractionBases st.rows entryId) marked.snapshotId = true

variable {inScope : String → Bool} {pass : Pass} {entryId : String}
  {marked waiting : ExtractionRow} {st st' : ClaimState}

/-- What the marker asks of the snapshots before the marked one, read off the table. -/
theorem earlierAllComplete_bases {t : ExtractionTable} (hmarked : marked ∈ t.rows)
    (hof : marked.entryId = entryId) (htype : marked.warcRecordType = .RESPONSE) :
    earlierAllComplete (listExtractionBases t entryId) marked.snapshotId = true ↔
      ∀ row ∈ t.rows, row.entryId = entryId → row.warcRecordType = .RESPONSE →
        baseOrder row < baseOrder marked → row.extractionStatus = .COMPLETE := by
  rw [earlierAllComplete_iff (pairwise_listExtractionBases t entryId)
    (mem_listExtractionBases.2 ⟨hmarked, hof, htype⟩)
    fun row hrow hid => Table.eq_of_key_eq (mem_listExtractionBases.1 hrow).1 hmarked hid]
  simp only [mem_listExtractionBases, and_imp]

/-- A content of the entry that is pending and has not been tried comes after the marked one. -/
theorem Standstill.later (h : Standstill entryId marked waiting st) {row : ExtractionRow}
    (hrow : row ∈ st.rows.rows) (hof : row.entryId = entryId) (htype : row.warcRecordType = .RESPONSE)
    (hpending : row.extractionStatus = .PENDING) (huntried : row.extractionAttempts = 0) :
    baseOrder marked < baseOrder row := by
  obtain ⟨hmarkedOf, hmarkedType, -, -, htried⟩ := h.marked_of
  by_contra hnot
  rcases lt_or_eq_of_le (le_of_not_gt hnot) with hlt | heq
  · have hearlier := (earlierAllComplete_bases h.marked_mem hmarkedOf hmarkedType).1 h.earlier
    have hcomplete := hearlier row hrow hof htype hlt
    rw [hpending] at hcomplete
    cases hcomplete
  · have hid : row.snapshotId = marked.snapshotId := congrArg (fun order => (ofLex order).2) heq
    obtain rfl := Table.eq_of_key_eq hrow h.marked_mem hid
    exact absurd huntried (Nat.ne_of_gt htried)

/-- **A night reads nothing of the entry.** -/
theorem Standstill.not_read (h : Standstill entryId marked waiting st)
    (hbatching : pass.extractBatching = true) (hscope : inScope entryId = true)
    {held : List String} (hheld : waiting.snapshotId ∉ held) {chosen : String × String}
    (hchosen : chosen ∈ nightReads inScope pass st held) : chosen.1 ≠ entryId := by
  intro hentry
  obtain ⟨htaken, hreads⟩ := List.mem_filter.1 hchosen
  obtain ⟨first, -, hfirst, rfl, hleast⟩ := chosen_first hbatching (pairwise_catchupListing held) htaken
  obtain ⟨row, hrow, hpending, -, entry', hentry', rfl⟩ := mem_catchupListing.1 hfirst
  have hof : row.entryId = entryId := hentry
  -- what is taken has not been tried either
  have hitem : pendingSnapshot st.rows waiting entry' ∈ catchupListing st.rows st.entries held := by
    refine mem_catchupListing.2 ⟨waiting, h.waiting_mem, h.waiting_of.2.1, hheld, entry', ?_, rfl⟩
    rw [h.waiting_of.1, ← hof]
    exact hentry'
  have hclasses : pass.isPriority (pendingSnapshot st.rows row entry') =
      pass.isPriority (pendingSnapshot st.rows waiting entry') := rfl
  have horder := catchupOrder_of_classOrder (.inr (.inr hclasses))
    (hleast _ hitem (h.waiting_of.1.trans hof.symm))
  have huntried : row.extractionAttempts = 0 := by
    have hzero : (pendingSnapshot st.rows waiting entry').attempts = 0 := h.waiting_of.2.2
    obtain ⟨hsame, -⟩ := catchupOrder_le horder (by rw [hzero]; exact Nat.zero_le _)
    exact hsame.trans hzero
  -- and so it waits
  have hwaits : (waitingOn (listExtractionBases st.rows row.entryId) row.snapshotId).isSome = true := by
    refine isSome_waitingOn (pairwise_listExtractionBases _ _)
      (mem_listExtractionBases.2 ⟨h.marked_mem, h.marked_of.1.trans hof.symm, h.marked_of.2.1⟩)
      h.marked_of.2.2.1 fun other hother hid => ?_
    obtain ⟨hin, -, htype⟩ := mem_listExtractionBases.1 hother
    obtain rfl := Table.eq_of_key_eq hin hrow hid
    exact h.later hin hof htype hpending huntried
  simp only [waits, Bool.not_eq_true', Bool.and_eq_false_iff] at hreads
  rcases hreads with hout | hnot
  · change inScope row.entryId = false at hout
    rw [hof, hscope] at hout
    cases hout
  · change (waitingOn (listExtractionBases st.rows row.entryId) row.snapshotId).isSome = false at hnot
    rw [hwaits] at hnot
    cases hnot

/-- The standstill is about its two snapshots, and about what comes before the marked one. -/
theorem Standstill.of_rows (h : Standstill entryId marked waiting st) (hmarked : marked ∈ st'.rows.rows)
    (hwaiting : waiting ∈ st'.rows.rows)
    (hback : ∀ row ∈ st'.rows.rows, row.entryId = entryId → row.warcRecordType = .RESPONSE →
      baseOrder row < baseOrder marked → row.extractionStatus = .COMPLETE ∨ row ∈ st.rows.rows) :
    Standstill entryId marked waiting st' where
  marked_mem := hmarked
  waiting_mem := hwaiting
  marked_of := h.marked_of
  waiting_of := h.waiting_of
  earlier := by
    obtain ⟨hof, htype, -⟩ := h.marked_of
    have hearlier := (earlierAllComplete_bases h.marked_mem hof htype).1 h.earlier
    refine (earlierAllComplete_bases hmarked hof htype).2 fun row hrow hrowOf hrowType hlt => ?_
    rcases hback row hrow hrowOf hrowType hlt with hcomplete | hold
    · exact hcomplete
    · exact hearlier row hold hrowOf hrowType hlt

/-- A step that takes each row to one with its columns, and leaves alone what is not IN_PROGRESS. -/
theorem Standstill.of_map (h : Standstill entryId marked waiting st) {f : ExtractionRow → ExtractionRow}
    (hrows : st'.rows.rows = st.rows.rows.map f) (hcolumns : ∀ row, SameColumns row (f row))
    (hsame : ∀ row ∈ st.rows.rows, row.entryId = entryId → row.extractionStatus ≠ .IN_PROGRESS →
      f row = row) : Standstill entryId marked waiting st' := by
  have hkept : ∀ row ∈ st.rows.rows, row.entryId = entryId → row.extractionStatus ≠ .IN_PROGRESS →
      row ∈ st'.rows.rows := by
    intro row hrow hof hidle
    rw [hrows]
    exact List.mem_map.2 ⟨row, hrow, hsame row hrow hof hidle⟩
  obtain ⟨hmarkedOf, hmarkedType, -, hmarkedPending, -⟩ := h.marked_of
  obtain ⟨hwaitingOf, hwaitingPending, -⟩ := h.waiting_of
  refine h.of_rows (hkept marked h.marked_mem hmarkedOf (by simp [hmarkedPending]))
    (hkept waiting h.waiting_mem hwaitingOf (by simp [hwaitingPending])) fun row hrow hof htype hlt => ?_
  rw [hrows] at hrow
  obtain ⟨old, hold, rfl⟩ := List.mem_map.1 hrow
  have hold' := hcolumns old
  have holdOf : old.entryId = entryId := hold'.entryId.symm.trans hof
  have holdLt : baseOrder old < baseOrder marked := by
    have hbase : baseOrder (f old) = baseOrder old := by
      rw [baseOrder, hold'.capturedAt, hold'.snapshotId]
      rfl
    rwa [hbase] at hlt
  have hcomplete := (earlierAllComplete_bases h.marked_mem hmarkedOf hmarkedType).1 h.earlier old hold
    holdOf (hold'.warcRecordType.symm.trans htype) holdLt
  right
  rw [hsame old hold holdOf (by simp [hcomplete])]
  exact hold

/-- **Neither a night nor a reset nor a deposit nor work on other entries ends the standstill.** -/
theorem Standstill.step (h : Standstill entryId marked waiting st)
    (hbatching : pass.extractBatching = true) (hscope : inScope entryId = true)
    (hstep : NightStep inScope pass entryId marked waiting st st') :
    Standstill entryId marked waiting st' := by
  cases hstep with
  | night held read hheld hread hrows =>
      refine h.of_map hrows (fun row => ?_) fun row _ hof _ => ?_
      · split_ifs
        · exact hread row
        · exact .refl row
      · exact if_neg fun hin => h.not_read hbatching hscope hheld hin hof
  | reset staleIds hstale hrows =>
      have hmap : st'.rows.rows = st.rows.rows.map fun row =>
          if row.snapshotId ∈ staleIds then row.reset else row := by
        rw [hrows]
        rfl
      refine h.of_map hmap (fun row => ?_) fun row hrow _ hidle => ?_
      · split_ifs
        · exact ⟨rfl, rfl, rfl, rfl⟩
        · exact .refl row
      · exact if_neg fun hin => hidle (hstale row hrow hin)
  | deposited row hlater hrows =>
      have hkept : ∀ old ∈ st.rows.rows, old ∈ st'.rows.rows := by
        intro old hold
        rw [hrows]
        exact List.mem_append_left _ hold
      refine h.of_rows (hkept marked h.marked_mem) (hkept waiting h.waiting_mem)
        fun other hother hof htype hlt => ?_
      rw [hrows] at hother
      rcases List.mem_append.1 hother with hold | hnew
      · exact .inr hold
      · obtain rfl := List.mem_singleton.1 hnew
        have hafter : baseOrder marked < baseOrder other :=
          Prod.Lex.toLex_lt_toLex.2 (.inl (hlater hof htype))
        exact absurd hlt (not_lt_of_gt hafter)
  | elsewhere hrows =>
      have hiff : ∀ row : ExtractionRow, row.entryId = entryId →
          (row ∈ st'.rows.rows ↔ row ∈ st.rows.rows) := by
        intro row hof
        have hmem : row ∈ st'.rows.rows.filter (fun row => row.entryId = entryId) ↔
            row ∈ st.rows.rows.filter fun row => row.entryId = entryId := by
          rw [hrows]
        simpa [hof] using hmem
      exact h.of_rows ((hiff marked h.marked_of.1).2 h.marked_mem)
        ((hiff waiting h.waiting_of.1).2 h.waiting_mem)
        fun row hrow hof _ _ => .inr ((hiff row hof).1 hrow)

/-- **Neither is ever read.**  Once an append-only entry has a snapshot with a partial whole read that is
PENDING again, all before it being COMPLETE, and another that is PENDING and has not been tried, then in
every run of nights, stale resets, deposits and work on other entries both stay as they are, and no night
reads anything of the entry. -/
theorem neither_is_read (h : Standstill entryId marked waiting st)
    (hbatching : pass.extractBatching = true) (hscope : inScope entryId = true)
    (hrun : Relation.ReflTransGen (NightStep inScope pass entryId marked waiting) st st') :
    marked ∈ st'.rows.rows ∧ waiting ∈ st'.rows.rows ∧
      ∀ held, waiting.snapshotId ∉ held → ∀ chosen ∈ nightReads inScope pass st' held,
        chosen.1 ≠ entryId := by
  have hlast : Standstill entryId marked waiting st' := by
    induction hrun with
    | refl => exact h
    | tail _ hstep ih => exact ih.step hbatching hscope hstep
  exact ⟨hlast.marked_mem, hlast.waiting_mem,
    fun _ hheld _ hchosen => hlast.not_read hbatching hscope hheld hchosen⟩

/-- An append-only entry. -/
def growing : CorpusEntryRow := { entryId := "E", mutability := .APPEND_ONLY }

/-- Its first snapshot, of which a whole read failed partway. -/
def failedPartway : ExtractionRow :=
  { snapshotId := "E1", entryId := "E", capturedAt := 1, contentHash := "h1", extractionAttempts := 1,
    resumeWhole := true }

/-- The next one. -/
def grown : ExtractionRow := { snapshotId := "E2", entryId := "E", capturedAt := 2, contentHash := "h2" }

/-- The store with both. -/
def grownStore : ClaimState where
  entries := ⟨[growing], by decide⟩
  rows := ⟨[failedPartway, grown], by decide⟩

theorem grown_night_reads_nothing :
    extractSelection ⟨20, [], true⟩ (catchupListing grownStore.rows grownStore.entries []) =
        [("E", "E2")] ∧
      ∀ chosen ∈ nightReads (fun _ => true) ⟨20, [], true⟩ grownStore [], chosen.1 ≠ "E" := by
  have hstart : Standstill "E" failedPartway grown grownStore :=
    ⟨List.mem_cons_self, List.mem_cons_of_mem _ List.mem_cons_self, ⟨rfl, rfl, rfl, rfl, Nat.one_pos⟩,
      ⟨rfl, rfl, rfl⟩, by decide +kernel⟩
  have hnight : NightStep (fun _ => true) ⟨20, [], true⟩ "E" failedPartway grown grownStore
      grownStore := by
    refine .night [] id List.not_mem_nil (fun row => .refl row) ?_
    simp
  refine ⟨by decide +kernel, ?_⟩
  exact (neither_is_read hstart rfl rfl (.single hnight)).2.2 [] List.not_mem_nil

end CatchupQueue
end ParticlesEngine
