/-
**How long an entry waits to be read.**

Deposits, edits, collapses and reads go on while an entry waits in the catch-up queue.  As long as whoever
ends a claim finds it, and nothing of the entry has been claimed since its last extraction, it waits since
the first capture that it owes, so that an edit never sends it back.  And as long as what the passes choose
is read, and none of what was there first was handed back, they pass it over a bounded number of times:
each pass that does takes its whole share of a backlog that only shrinks.

Main definitions:

* `BulkStep`, `RowStep` — the steps of the bulk paths, and what one does to a row;
* `QueueInv` — what holds of the rows in every run of such steps;
* `Untouched`, `Spares` — an entry that nothing has claimed, and a step that leaves it so;
* `counts`, `backlog` — the snapshots that keep other entries in front of it;
* `Waited` — a run in which a number of passes took other entries.

Main results:

* `rowStep_of_step` — what a step does to the rows;
* `Untouched.owed_eq` — **the entry waits since its first capture**;
* `waits_since_first_capture` — over every run;
* `passed_over_boundedly` — **the passes that pass the entry over take at most the backlog**.
-/

import ParticlesEngine.CatchupQueue
import Mathlib.Data.Finset.Card
import Mathlib.Data.Finset.Image

set_option relaxedAutoImplicit false
set_option autoImplicit false

namespace ParticlesEngine
namespace CatchupQueue

open Runs

/-! ### One step -/

/-- A step of the bulk paths: a deposit is new and PENDING, a claim takes a snapshot that is PENDING and
not collapsed, and the writers that do not look find the claim as it was made. -/
def BulkStep (st : ClaimState) : DepositAction → Prop
  | .deposit row => row.extractionStatus = .PENDING ∧ row.extractionAttempts = 0
  | .writer (.claim _ snapshotId _) => ∀ row ∈ st.rows.rows, row.snapshotId = snapshotId →
      row.extractionStatus = .PENDING ∧ row.supersededBySnapshotId = none
  | .writer (.finish runner _) => ∀ row ∈ st.rows.rows, st.reading runner = some row.snapshotId →
      row.extractionStatus = .IN_PROGRESS
  | .writer (.resetStale pass) => ∀ row ∈ st.rows.rows, ∀ staleIds ∈ st.stale[pass]?,
      row.snapshotId ∈ staleIds → row.extractionStatus = .IN_PROGRESS
  | _ => True

instance (st : ClaimState) : DecidablePred (BulkStep st)
  | .deposit _ => inferInstanceAs (Decidable (_ ∧ _))
  | .writer (.claim ..) => inferInstanceAs (Decidable (∀ row ∈ st.rows.rows, _ → _))
  | .writer (.release _) => inferInstanceAs (Decidable True)
  | .writer (.finish ..) => inferInstanceAs (Decidable (∀ row ∈ st.rows.rows, _ → _))
  | .writer (.readStale _) => inferInstanceAs (Decidable True)
  | .writer (.resetStale _) => inferInstanceAs (Decidable (∀ row ∈ st.rows.rows, _))
  | .writer (.planCollapse ..) => inferInstanceAs (Decidable True)
  | .writer (.markCollapsed _) => inferInstanceAs (Decidable True)

/-- The columns that no writer changes. -/
structure SameColumns (row row' : ExtractionRow) : Prop where
  snapshotId : row'.snapshotId = row.snapshotId
  entryId : row'.entryId = row.entryId
  capturedAt : row'.capturedAt = row.capturedAt
  warcRecordType : row'.warcRecordType = row.warcRecordType

theorem SameColumns.refl (row : ExtractionRow) : SameColumns row row := ⟨rfl, rfl, rfl, rfl⟩

/-- What a step does to a row: nothing, or it claims it, or ends a claim, or collapses it. -/
inductive RowStep (action : DepositAction) (row : ExtractionRow) : ExtractionRow → Prop
  | same : RowStep action row row
  | claimed (runner : ℕ) (startedAt : Instant)
      (haction : action = .writer (.claim runner row.snapshotId startedAt))
      (hpending : row.extractionStatus = .PENDING) (hmark : row.supersededBySnapshotId = none) :
      RowStep action row (row.claim startedAt)
  | ended (row' : ExtractionRow) (hcolumns : SameColumns row row')
      (hreading : row.extractionStatus = .IN_PROGRESS)
      (hattempts : row'.extractionAttempts = row.extractionAttempts)
      (hmark : row'.supersededBySnapshotId = row.supersededBySnapshotId) : RowStep action row row'
  | collapsed (later : String) (howes : row.owesWork = true)
      (hmark : row.supersededBySnapshotId = none)
      (htype : row.warcRecordType ∈ GENERATION_TYPES) :
      RowStep action row (row.markSuperseded later)

theorem RowStep.columns {action : DepositAction} {row row' : ExtractionRow}
    (h : RowStep action row row') : SameColumns row row' := by
  cases h with
  | same => exact .refl row
  | claimed => exact ⟨rfl, rfl, rfl, rfl⟩
  | ended _ hcolumns => exact hcolumns
  | collapsed later howes hmark =>
      rw [markSuperseded_of_collapsible (by simp [ExtractionRow.isCollapsible, howes, hmark])]
      exact ⟨rfl, rfl, rfl, rfl⟩

/-- What holds of the rows in every run of the bulk paths. -/
structure QueueInv (st : ClaimState) : Prop where
  marks : MarksForward st
  /-- an uncollapsed snapshot that was never claimed is PENDING -/
  untried : ∀ row ∈ st.rows.rows, row.extractionAttempts = 0 → row.supersededBySnapshotId = none →
    row.extractionStatus = .PENDING
  /-- a collapsed one is a COMPLETE generation -/
  collapsed : ∀ row ∈ st.rows.rows, row.supersededBySnapshotId ≠ none →
    row.extractionStatus = .COMPLETE ∧ row.warcRecordType ∈ GENERATION_TYPES
  planned : ∀ marks ∈ st.planned, ∀ mark ∈ marks, ∃ row ∈ st.rows.rows, row.snapshotId = mark.1 ∧
    row.warcRecordType ∈ GENERATION_TYPES

variable {st st' : ClaimState} {action : DepositAction}

/-- An update of one row, as a step of the rows. -/
theorem rows_modify_eq {t : ExtractionTable} {snapshotId : String} {f : ExtractionRow → ExtractionRow}
    (hid : ∀ row, (f row).snapshotId = row.snapshotId)
    (hstep : ∀ row ∈ t.rows, row.snapshotId = snapshotId → RowStep action row (f row)) :
    ∃ g, (t.modify snapshotId f hid).rows = t.rows.map g ∧
      ∀ row ∈ t.rows, RowStep action row (g row) := by
  refine ⟨fun row => if row.snapshotId = snapshotId then f row else row, rfl, fun row hrow => ?_⟩
  dsimp only
  split_ifs with hkey
  · exact hstep row hrow hkey
  · exact .same

/-- **What a step does to the rows**: each takes a step of its own, and a deposit is added. -/
theorem rowStep_of_step (h : QueueInv st) (hbulk : BulkStep st action)
    (hstep : depositStep st action = some st') :
    ∃ f added, st'.rows.rows = st.rows.rows.map f ++ added ∧
      (∀ row ∈ st.rows.rows, RowStep action row (f row)) ∧
      ∀ row ∈ added, action = .deposit row ∧ row.supersededBySnapshotId = none := by
  suffices hkept : (∃ f, st'.rows.rows = st.rows.rows.map f ∧
      ∀ row ∈ st.rows.rows, RowStep action row (f row)) ∨
      ∃ row, action = .deposit row ∧ row.supersededBySnapshotId = none ∧
        st'.rows.rows = st.rows.rows ++ [row] by
    rcases hkept with ⟨f, hrows, hf⟩ | ⟨row, rfl, hmark, hrows⟩
    · exact ⟨f, [], by rw [hrows, List.append_nil], hf, fun _ h => absurd h List.not_mem_nil⟩
    · refine ⟨id, [row], by rw [hrows, List.map_id], fun _ _ => .same, fun added hadded => ?_⟩
      obtain rfl := List.mem_singleton.1 hadded
      exact ⟨rfl, hmark⟩
  have hsame : st'.rows = st.rows → ∃ f, st'.rows.rows = st.rows.rows.map f ∧
      ∀ row ∈ st.rows.rows, RowStep action row (f row) :=
    fun heq => ⟨id, by rw [heq, List.map_id], fun _ _ => .same⟩
  cases action with
  | deposit row =>
      simp only [depositStep, Option.ite_none_right_eq_some, Option.map_eq_some_iff] at hstep
      obtain ⟨hmark, rows, hinsert, rfl⟩ := hstep
      exact .inr ⟨row, rfl, hmark, (Table.insert?_eq_some.1 hinsert).2⟩
  | writer action =>
      left
      cases action with
      | claim runner snapshotId startedAt =>
          simp only [depositStep, claimStep, Option.ite_none_right_eq_some, Option.some.injEq] at hstep
          obtain ⟨-, rfl⟩ := hstep
          refine rows_modify_eq (f := ExtractionRow.claim startedAt) (fun _ => rfl)
            fun row hrow hkey => ?_
          obtain ⟨hpending, hmark⟩ := hbulk row hrow hkey
          exact .claimed runner startedAt (by rw [hkey]) hpending hmark
      | release runner =>
          obtain ⟨snapshotId, -, rfl⟩ := Option.map_eq_some_iff.1 hstep
          refine rows_modify_eq ExtractionRow.release_snapshotId fun row _ _ => ?_
          unfold ExtractionRow.release
          split_ifs with hreading
          · exact .ended _ ⟨rfl, rfl, rfl, rfl⟩ hreading rfl rfl
          · exact .same
      | finish runner outcome =>
          obtain ⟨snapshotId, hreads, hstep⟩ := Option.bind_eq_some_iff.1 hstep
          simp only [Option.ite_none_right_eq_some, Option.some.injEq] at hstep
          obtain ⟨-, rfl⟩ := hstep
          obtain ⟨extractedThrough, components, resumeWhole, hupdate⟩ :=
            outcome.update_eq snapshotId st.rows
          dsimp only
          rw [hupdate]
          refine rows_modify_eq (f := ExtractionRow.updateStatus outcome.status extractedThrough
            components resumeWhole) (fun _ => rfl) fun row hrow hkey => ?_
          have hreading := hbulk row hrow (by rw [hkey]; exact hreads)
          exact .ended _ ⟨rfl, rfl, rfl, rfl⟩ hreading rfl rfl
      | readStale olderThan =>
          obtain rfl := Option.some.inj hstep
          exact hsame rfl
      | resetStale pass =>
          obtain ⟨staleIds, hpass, rfl⟩ := Option.map_eq_some_iff.1 hstep
          refine ⟨_, rfl, fun row hrow => ?_⟩
          split_ifs with hstale
          · exact .ended _ ⟨rfl, rfl, rfl, rfl⟩ (hbulk row hrow staleIds hpass hstale) rfl rfl
          · exact .same
      | planCollapse entryIds blobsOnDisk =>
          obtain rfl := Option.some.inj hstep
          exact hsame rfl
      | markCollapsed pass =>
          obtain ⟨marks, hpass, rfl⟩ := Option.map_eq_some_iff.1 hstep
          refine ⟨applyMarks marks, rows_collapse st.rows marks, fun row hrow => ?_⟩
          rcases applyMarks_cases marks row with ⟨heq, -⟩ | ⟨hcollapsible, later, hmark, heq⟩
          · rw [heq]
            exact .same
          · obtain ⟨howes, hunmarked⟩ := Bool.and_eq_true_iff.1 hcollapsible
            obtain ⟨found, hfound, hid, htype⟩ := h.planned marks (List.mem_of_getElem? hpass) _ hmark
            obtain rfl := Table.eq_of_key_eq hfound hrow hid
            rw [heq]
            exact .collapsed later howes (of_decide_eq_true hunmarked) htype

/-- Where a row comes from: a step of a row that was there, or the deposit. -/
theorem mem_rows_of_step (h : QueueInv st) (hbulk : BulkStep st action)
    (hstep : depositStep st action = some st') {row' : ExtractionRow} (hrow' : row' ∈ st'.rows.rows) :
    (∃ row ∈ st.rows.rows, RowStep action row row') ∨
      (action = .deposit row' ∧ row'.supersededBySnapshotId = none) := by
  obtain ⟨f, added, hrows, hf, hadded⟩ := rowStep_of_step h hbulk hstep
  rw [hrows] at hrow'
  rcases List.mem_append.1 hrow' with hold | hnew
  · obtain ⟨row, hrow, rfl⟩ := List.mem_map.1 hold
    exact .inl ⟨row, hrow, hf row hrow⟩
  · exact .inr (hadded row' hnew)

/-- What becomes of a row. -/
theorem exists_row_of_step (h : QueueInv st) (hbulk : BulkStep st action)
    (hstep : depositStep st action = some st') {row : ExtractionRow} (hrow : row ∈ st.rows.rows) :
    ∃ row' ∈ st'.rows.rows, RowStep action row row' := by
  obtain ⟨f, added, hrows, hf, -⟩ := rowStep_of_step h hbulk hstep
  refine ⟨f row, ?_, hf row hrow⟩
  rw [hrows]
  exact List.mem_append_left _ (List.mem_map_of_mem hrow)

/-- A row that a step leaves as the queue has it. -/
theorem RowStep.inv {row row' : ExtractionRow} (h : RowStep action row row')
    (huntried : row.extractionAttempts = 0 → row.supersededBySnapshotId = none →
      row.extractionStatus = .PENDING)
    (hcollapsed : row.supersededBySnapshotId ≠ none →
      row.extractionStatus = .COMPLETE ∧ row.warcRecordType ∈ GENERATION_TYPES) :
    (row'.extractionAttempts = 0 → row'.supersededBySnapshotId = none →
      row'.extractionStatus = .PENDING) ∧
    (row'.supersededBySnapshotId ≠ none →
      row'.extractionStatus = .COMPLETE ∧ row'.warcRecordType ∈ GENERATION_TYPES) := by
  cases h with
  | same => exact ⟨huntried, hcollapsed⟩
  | claimed =>
      refine ⟨fun hattempts => ?_, fun hmark => absurd rfl hmark⟩
      exact absurd hattempts (Nat.succ_ne_zero _)
  | ended _ hcolumns hreading hattempts hmark =>
      rw [hattempts, hmark]
      refine ⟨fun hzero hnone => ?_, fun hsome => ?_⟩
      · have hpending := huntried hzero hnone
        rw [hreading] at hpending
        cases hpending
      · have hcomplete := (hcollapsed hsome).1
        rw [hreading] at hcomplete
        cases hcomplete
  | collapsed later howes hmark htype =>
      rw [markSuperseded_of_collapsible (by simp [ExtractionRow.isCollapsible, howes, hmark])]
      refine ⟨fun _ hnone => ?_, fun _ => ⟨rfl, htype⟩⟩
      cases hnone

/-- What a step plans to collapse are generations. -/
theorem planned_of_step (h : QueueInv st) (hstep : depositStep st action = some st')
    {marks : List (String × String)} (hmarks : marks ∈ st'.planned) {mark : String × String}
    (hmark : mark ∈ marks) :
    ∃ row ∈ st.rows.rows, row.snapshotId = mark.1 ∧ row.warcRecordType ∈ GENERATION_TYPES := by
  have hold : marks ∈ st.planned →
      ∃ row ∈ st.rows.rows, row.snapshotId = mark.1 ∧ row.warcRecordType ∈ GENERATION_TYPES :=
    fun hin => h.planned marks hin mark hmark
  cases action with
  | deposit row =>
      simp only [depositStep, Option.ite_none_right_eq_some, Option.map_eq_some_iff] at hstep
      obtain ⟨-, rows, -, rfl⟩ := hstep
      exact hold hmarks
  | writer action =>
      cases action with
      | claim runner snapshotId startedAt =>
          simp only [depositStep, claimStep, Option.ite_none_right_eq_some, Option.some.injEq] at hstep
          obtain ⟨-, rfl⟩ := hstep
          exact hold hmarks
      | release runner =>
          obtain ⟨_, -, rfl⟩ := Option.map_eq_some_iff.1 hstep
          exact hold hmarks
      | finish runner outcome =>
          obtain ⟨snapshotId, -, hstep⟩ := Option.bind_eq_some_iff.1 hstep
          simp only [Option.ite_none_right_eq_some, Option.some.injEq] at hstep
          obtain ⟨-, rfl⟩ := hstep
          exact hold hmarks
      | readStale olderThan =>
          obtain rfl := Option.some.inj hstep
          exact hold hmarks
      | resetStale pass =>
          obtain ⟨_, -, rfl⟩ := Option.map_eq_some_iff.1 hstep
          exact hold hmarks
      | planCollapse entryIds blobsOnDisk =>
          obtain rfl := Option.some.inj hstep
          rcases List.mem_append.1 hmarks with hin | hlast
          · exact hold hin
          · obtain rfl := List.mem_singleton.1 hlast
            obtain ⟨entryId, -, -, hplan⟩ := mem_plannedCollapses.1 hmark
            obtain ⟨_, row, -, hrow, -, -, rfl⟩ :=
              (mem_planCollapse (oldestFirst_generationsOf st.rows entryId).1).1 hplan
            obtain ⟨hmem, htype, -⟩ := mem_generationsOf.1 hrow
            exact ⟨row, hmem, rfl, htype⟩
      | markCollapsed pass =>
          obtain ⟨_, -, rfl⟩ := Option.map_eq_some_iff.1 hstep
          exact hold (List.mem_of_mem_eraseIdx hmarks)

/-- **Every step keeps what holds of the rows.** -/
theorem QueueInv.step (h : QueueInv st) (hbulk : BulkStep st action)
    (hstep : depositStep st action = some st') : QueueInv st' := by
  have hrow : ∀ row' ∈ st'.rows.rows,
      (row'.extractionAttempts = 0 → row'.supersededBySnapshotId = none →
        row'.extractionStatus = .PENDING) ∧
      (row'.supersededBySnapshotId ≠ none →
        row'.extractionStatus = .COMPLETE ∧ row'.warcRecordType ∈ GENERATION_TYPES) := by
    intro row' hrow'
    rcases mem_rows_of_step h hbulk hstep hrow' with ⟨row, hrow, hrowStep⟩ | ⟨rfl, hmark⟩
    · exact hrowStep.inv (h.untried row hrow) (h.collapsed row hrow)
    · exact ⟨fun _ _ => hbulk.1, fun hsome => absurd hmark hsome⟩
  refine ⟨h.marks.step hstep, fun row' hrow' => (hrow row' hrow').1,
    fun row' hrow' => (hrow row' hrow').2, fun marks hmarks mark hmark => ?_⟩
  obtain ⟨row, hmem, hid, htype⟩ := planned_of_step h hstep hmarks hmark
  obtain ⟨row', hmem', hrowStep⟩ := exists_row_of_step h hbulk hstep hmem
  have hcolumns := hrowStep.columns
  exact ⟨row', hmem', hcolumns.snapshotId.trans hid, hcolumns.warcRecordType ▸ htype⟩

theorem queueInv_run {start st : ClaimState} (hrows : start.rows.rows = []) (hplanned : start.planned = [])
    {actions : List DepositAction} (hbulk : StepsMeet depositStep BulkStep start actions)
    (hrun : run depositStep start actions = some st) : QueueInv st := by
  have hstart : QueueInv start := by
    refine ⟨⟨?_, ?_⟩, ?_, ?_, ?_⟩ <;> simp [hrows, hplanned]
  exact hbulk.invariant QueueInv (fun _ _ _ h hmeets hstep => h.step hmeets hstep) hstart
    (List.append_nil _).symm hrun

/-! ### The entry that waits -/

/-- The snapshot is newer than the last extracted generation of its entry. -/
def IsNewer (t : ExtractionTable) (row : ExtractionRow) : Prop :=
  (lastExtracted t row.entryId).all (· < row.capturedAt) = true

/-- Nothing of the entry has been claimed since its last extraction, and what is older is done. -/
structure Untouched (st : ClaimState) (entryId : String) : Prop where
  untried : ∀ row ∈ st.rows.rows, row.entryId = entryId → IsNewer st.rows row →
    row.extractionAttempts = 0
  done : ∀ row ∈ st.rows.rows, row.entryId = entryId → ¬IsNewer st.rows row →
    row.extractionStatus = .COMPLETE

/-- The step claims nothing of the entry, and what it deposits is captured later than a given time. -/
def Spares (entryId : String) (since : Instant) (st : ClaimState) : DepositAction → Prop
  | .deposit row => since < row.capturedAt
  | .writer (.claim _ snapshotId _) => ∀ row ∈ st.rows.rows, row.snapshotId = snapshotId →
      row.entryId ≠ entryId
  | _ => True

instance (entryId : String) (since : Instant) (st : ClaimState) : DecidablePred (Spares entryId since st)
  | .deposit _ => inferInstanceAs (Decidable (_ < _))
  | .writer (.claim ..) => inferInstanceAs (Decidable (∀ row ∈ st.rows.rows, _ → _))
  | .writer (.release _) => inferInstanceAs (Decidable True)
  | .writer (.finish ..) => inferInstanceAs (Decidable True)
  | .writer (.readStale _) => inferInstanceAs (Decidable True)
  | .writer (.resetStale _) => inferInstanceAs (Decidable True)
  | .writer (.planCollapse ..) => inferInstanceAs (Decidable True)
  | .writer (.markCollapsed _) => inferInstanceAs (Decidable True)

variable {entryId : String} {since : Instant}

/-- What a newer snapshot of the entry is: PENDING, or collapsed. -/
theorem Untouched.newer_cases (hu : Untouched st entryId) (h : QueueInv st) {row : ExtractionRow}
    (hrow : row ∈ st.rows.rows) (hentry : row.entryId = entryId) (hnewer : IsNewer st.rows row) :
    (row.extractionStatus = .PENDING ∧ row.supersededBySnapshotId = none) ∨
      (row.extractionStatus = .COMPLETE ∧ isCollapsed row = true) := by
  by_cases hmark : row.supersededBySnapshotId = none
  · exact .inl ⟨h.untried row hrow (hu.untried row hrow hentry hnewer) hmark, hmark⟩
  · obtain ⟨hcomplete, htype⟩ := h.collapsed row hrow hmark
    exact .inr ⟨hcomplete, by simp [isCollapsed, htype, hmark]⟩

/-- **What the entry owes is what is newer than its last extraction.** -/
theorem Untouched.owes_iff (hu : Untouched st entryId) (h : QueueInv st) {row : ExtractionRow}
    (hrow : row ∈ st.rows.rows) (hentry : row.entryId = entryId) :
    Owes st.rows row ↔ IsNewer st.rows row := by
  constructor
  · rintro (hpending | ⟨-, hnewer⟩)
    · by_contra hold
      rw [hu.done row hrow hentry hold] at hpending
      cases hpending
    · exact hnewer
  · intro hnewer
    rcases hu.newer_cases h hrow hentry hnewer with ⟨hpending, -⟩ | ⟨-, hcollapsed⟩
    · exact .inl hpending
    · exact .inr ⟨hcollapsed, hnewer⟩

/-- **The entry waits since the first capture that is newer than its last extraction.** -/
theorem Untouched.owed_eq (hu : Untouched st entryId) (h : QueueInv st) :
    owed st.rows entryId = some since ↔
      (∃ row ∈ st.rows.rows, row.entryId = entryId ∧ IsNewer st.rows row ∧ row.capturedAt = since) ∧
        ∀ row ∈ st.rows.rows, row.entryId = entryId → IsNewer st.rows row → since ≤ row.capturedAt := by
  rw [owed_eq_some]
  constructor
  · rintro ⟨⟨row, hrow, hentry, howes, hat⟩, hle⟩
    exact ⟨⟨row, hrow, hentry, (hu.owes_iff h hrow hentry).1 howes, hat⟩, fun row hrow hentry hnewer =>
      hle row hrow hentry ((hu.owes_iff h hrow hentry).2 hnewer)⟩
  · rintro ⟨⟨row, hrow, hentry, hnewer, hat⟩, hle⟩
    exact ⟨⟨row, hrow, hentry, (hu.owes_iff h hrow hentry).2 hnewer, hat⟩, fun row hrow hentry howes =>
      hle row hrow hentry ((hu.owes_iff h hrow hentry).1 howes)⟩

/-- What a step does to a snapshot of the entry: nothing, or it collapses a newer one. -/
theorem Untouched.rowStep (hu : Untouched st entryId) (h : QueueInv st)
    (hspares : Spares entryId since st action) {row row' : ExtractionRow} (hrow : row ∈ st.rows.rows)
    (hentry : row.entryId = entryId) (hstep : RowStep action row row') :
    row' = row ∨ IsNewer st.rows row ∧ isExtracted row = false ∧ isExtracted row' = false ∧
      row'.extractionAttempts = row.extractionAttempts := by
  cases hstep with
  | same => exact .inl rfl
  | claimed runner startedAt haction =>
      rw [haction] at hspares
      exact absurd hentry (hspares row hrow rfl)
  | ended _ _ hreading =>
      exfalso
      by_cases hnewer : IsNewer st.rows row
      · rcases hu.newer_cases h hrow hentry hnewer with ⟨hpending, -⟩ | ⟨hcomplete, -⟩
        · rw [hreading] at hpending
          cases hpending
        · rw [hreading] at hcomplete
          cases hcomplete
      · have hcomplete := hu.done row hrow hentry hnewer
        rw [hreading] at hcomplete
        cases hcomplete
  | collapsed later howes hmark =>
      have hnot : row.extractionStatus ≠ .COMPLETE := by
        intro hcomplete
        simp [ExtractionRow.owesWork, hcomplete] at howes
      have hnewer : IsNewer st.rows row := by
        by_contra hold
        exact hnot (hu.done row hrow hentry hold)
      rw [markSuperseded_of_collapsible (by simp [ExtractionRow.isCollapsible, howes, hmark])]
      exact .inr ⟨hnewer, by simp [isExtracted, hnot], by simp [isExtracted], rfl⟩

/-- The newest extracted generation, from what is extracted. -/
theorem lastExtracted_congr {t t' : ExtractionTable}
    (h : ∀ c, c ∈ captures t isExtracted entryId ↔ c ∈ captures t' isExtracted entryId) :
    lastExtracted t entryId = lastExtracted t' entryId := by
  unfold lastExtracted
  refine Option.ext fun w => ?_
  rw [List.max?_eq_some_iff, List.max?_eq_some_iff, h]
  exact and_congr_right fun _ => forall_congr' fun c => by rw [h]

/-- A step that spares the entry extracts nothing of it. -/
theorem Untouched.lastExtracted_eq (hu : Untouched st entryId) (h : QueueInv st)
    (hbulk : BulkStep st action) (hspares : Spares entryId since st action)
    (hstep : depositStep st action = some st') :
    lastExtracted st'.rows entryId = lastExtracted st.rows entryId := by
  refine lastExtracted_congr fun c => ?_
  rw [mem_captures, mem_captures]
  constructor
  · rintro ⟨row', hrow', hentry, hextracted, rfl⟩
    rcases mem_rows_of_step h hbulk hstep hrow' with ⟨row, hrow, hrowStep⟩ | ⟨rfl, -⟩
    · have hcolumns := hrowStep.columns
      have hentry' := hcolumns.entryId.symm.trans hentry
      rcases hu.rowStep h hspares hrow hentry' hrowStep with hsame | ⟨-, -, hnot, -⟩
      · exact ⟨row, hrow, hentry', hsame ▸ hextracted, hcolumns.capturedAt.symm⟩
      · rw [hnot] at hextracted
        cases hextracted
    · simp [isExtracted, hbulk.1] at hextracted
  · rintro ⟨row, hrow, hentry, hextracted, rfl⟩
    obtain ⟨row', hrow', hrowStep⟩ := exists_row_of_step h hbulk hstep hrow
    have hcolumns := hrowStep.columns
    rcases hu.rowStep h hspares hrow hentry hrowStep with hsame | ⟨-, hnot, -⟩
    · exact ⟨row', hrow', hcolumns.entryId.trans hentry, hsame ▸ hextracted, hcolumns.capturedAt⟩
    · rw [hnot] at hextracted
      cases hextracted

/-- **A step that spares the entry leaves it untouched, and waiting since when it did.** -/
theorem Untouched.step (hu : Untouched st entryId) (h : QueueInv st) (hbulk : BulkStep st action)
    (hspares : Spares entryId since st action) (hstep : depositStep st action = some st')
    (howed : owed st.rows entryId = some since) :
    Untouched st' entryId ∧ owed st'.rows entryId = some since := by
  have hlast := hu.lastExtracted_eq h hbulk hspares hstep
  have hinv := h.step hbulk hstep
  obtain ⟨⟨first, hfirst, hfirstEntry, hfirstNewer, rfl⟩, hle⟩ := (hu.owed_eq h).1 howed
  have hnewerIff : ∀ row row' : ExtractionRow, SameColumns row row' → row.entryId = entryId →
      (IsNewer st'.rows row' ↔ IsNewer st.rows row) := by
    intro row row' hcolumns hentry
    unfold IsNewer
    rw [hcolumns.entryId, hcolumns.capturedAt, hentry, hlast]
  -- a row of the entry was there, or is newer than what the entry owes first
  have hcases : ∀ row' ∈ st'.rows.rows, row'.entryId = entryId →
      (∃ row ∈ st.rows.rows, row.entryId = entryId ∧ RowStep action row row' ∧
        row'.capturedAt = row.capturedAt ∧ (IsNewer st'.rows row' ↔ IsNewer st.rows row)) ∨
      (IsNewer st'.rows row' ∧ first.capturedAt < row'.capturedAt ∧ row'.extractionAttempts = 0) := by
    intro row' hrow' hentry
    rcases mem_rows_of_step h hbulk hstep hrow' with ⟨row, hrow, hrowStep⟩ | ⟨rfl, -⟩
    · have hcolumns := hrowStep.columns
      have hentry' := hcolumns.entryId.symm.trans hentry
      exact .inl ⟨row, hrow, hentry', hrowStep, hcolumns.capturedAt, hnewerIff _ _ hcolumns hentry'⟩
    · have hlater : first.capturedAt < row'.capturedAt := hspares
      refine .inr ⟨?_, hlater, hbulk.2⟩
      unfold IsNewer at hfirstNewer ⊢
      rw [hentry, hlast]
      rw [hfirstEntry] at hfirstNewer
      cases hval : lastExtracted st.rows entryId with
      | none => rfl
      | some last =>
          rw [hval] at hfirstNewer
          exact decide_eq_true ((of_decide_eq_true hfirstNewer).trans hlater)
  have hu' : Untouched st' entryId := by
    constructor
    case untried =>
      intro row' hrow' hentry hnewer
      rcases hcases row' hrow' hentry with ⟨row, hrow, hentry', hrowStep, -, hiff⟩ | ⟨-, -, hzero⟩
      · have hzero := hu.untried row hrow hentry' (hiff.1 hnewer)
        rcases hu.rowStep h hspares hrow hentry' hrowStep with rfl | ⟨-, -, -, hattempts⟩
        · exact hzero
        · exact hattempts.trans hzero
      · exact hzero
    case done =>
      intro row' hrow' hentry hold'
      rcases hcases row' hrow' hentry with ⟨row, hrow, hentry', hrowStep, -, hiff⟩ | ⟨hnewer, -, -⟩
      · have hnot := mt hiff.2 hold'
        rcases hu.rowStep h hspares hrow hentry' hrowStep with rfl | ⟨hnewer, -⟩
        · exact hu.done _ hrow hentry' hnot
        · exact absurd hnewer hnot
      · exact absurd hnewer hold'
  refine ⟨hu', (hu'.owed_eq hinv).2 ⟨?_, ?_⟩⟩
  · obtain ⟨row', hrow', hrowStep⟩ := exists_row_of_step h hbulk hstep hfirst
    have hcolumns := hrowStep.columns
    exact ⟨row', hrow', hcolumns.entryId.trans hfirstEntry, (hnewerIff _ _ hcolumns hfirstEntry).2
      hfirstNewer, hcolumns.capturedAt⟩
  · intro row' hrow' hentry hnewer
    rcases hcases row' hrow' hentry with ⟨row, hrow, hentry', -, hcaptured, hiff⟩ | ⟨-, hlater, -⟩
    · rw [hcaptured]
      exact hle row hrow hentry' (hiff.1 hnewer)
    · exact le_of_lt hlater

/-- The entry has an untried snapshot in the queue. -/
theorem Untouched.exists_pending (hu : Untouched st entryId) (h : QueueInv st)
    (howed : owed st.rows entryId = some since) :
    ∃ row ∈ st.rows.rows, row.entryId = entryId ∧ row.extractionStatus = .PENDING ∧
      row.extractionAttempts = 0 := by
  obtain ⟨⟨first, hfirst, hentry, hnewer, rfl⟩, -⟩ := (hu.owed_eq h).1 howed
  by_cases hmark : first.supersededBySnapshotId = none
  · have hzero := hu.untried first hfirst hentry hnewer
    exact ⟨first, hfirst, hentry, h.untried first hfirst hzero hmark, hzero⟩
  · -- the snapshot that it was collapsed for is newer still
    obtain ⟨-, last, hlast, -, hnone, hsame, hlt⟩ := h.marks.exists_uncollapsed hfirst hmark
    have hle : first.capturedAt ≤ last.capturedAt := by
      rcases Prod.Lex.toLex_lt_toLex.1 hlt with hlt | ⟨heq, -⟩
      · exact le_of_lt hlt
      · exact le_of_eq heq
    have hnewer' : IsNewer st.rows last := by
      unfold IsNewer at hnewer ⊢
      rw [hsame]
      cases hval : lastExtracted st.rows first.entryId with
      | none => rfl
      | some at' =>
          rw [hval] at hnewer
          exact decide_eq_true (lt_of_lt_of_le (of_decide_eq_true hnewer) hle)
    have hzero := hu.untried last hlast (hsame.trans hentry) hnewer'
    exact ⟨last, hlast, hsame.trans hentry, h.untried last hlast hzero hnone, hzero⟩

/-! ### Every run -/

theorem entries_of_step (hstep : depositStep st action = some st') : st'.entries = st.entries := by
  cases action with
  | deposit row =>
      simp only [depositStep, Option.ite_none_right_eq_some, Option.map_eq_some_iff] at hstep
      obtain ⟨-, _, -, rfl⟩ := hstep
      rfl
  | writer action =>
      cases action with
      | claim =>
          simp only [depositStep, claimStep, Option.ite_none_right_eq_some, Option.some.injEq] at hstep
          obtain ⟨-, rfl⟩ := hstep
          rfl
      | release =>
          obtain ⟨_, -, rfl⟩ := Option.map_eq_some_iff.1 hstep
          rfl
      | finish =>
          obtain ⟨_, -, hstep⟩ := Option.bind_eq_some_iff.1 hstep
          simp only [Option.ite_none_right_eq_some, Option.some.injEq] at hstep
          obtain ⟨-, rfl⟩ := hstep
          rfl
      | readStale =>
          obtain rfl := Option.some.inj hstep
          rfl
      | resetStale =>
          obtain ⟨_, -, rfl⟩ := Option.map_eq_some_iff.1 hstep
          rfl
      | planCollapse =>
          obtain rfl := Option.some.inj hstep
          rfl
      | markCollapsed =>
          obtain ⟨_, -, rfl⟩ := Option.map_eq_some_iff.1 hstep
          rfl

/-- The entry waits, untouched, since a given time. -/
structure Waiting (entry : CorpusEntryRow) (since : Instant) (st : ClaimState) : Prop where
  inv : QueueInv st
  entry_eq : st.entries.get? entry.entryId = some entry
  untouched : Untouched st entry.entryId
  owed_eq : owed st.rows entry.entryId = some since

/-- The steps that go on while an entry waits. -/
def GoesOn (entryId : String) (since : Instant) (st : ClaimState) (action : DepositAction) : Prop :=
  BulkStep st action ∧ Spares entryId since st action

instance (entryId : String) (since : Instant) (st : ClaimState) : DecidablePred (GoesOn entryId since st) :=
  fun _ => inferInstanceAs (Decidable (_ ∧ _))

variable {entry : CorpusEntryRow}

theorem Waiting.step (h : Waiting entry since st) (hgoes : GoesOn entry.entryId since st action)
    (hstep : depositStep st action = some st') : Waiting entry since st' := by
  obtain ⟨huntouched, howed⟩ := h.untouched.step h.inv hgoes.1 hgoes.2 hstep h.owed_eq
  exact ⟨h.inv.step hgoes.1 hstep, (entries_of_step hstep).symm ▸ h.entry_eq, huntouched, howed⟩

theorem Waiting.run (h : Waiting entry since st) {actions : List DepositAction}
    (hgoes : StepsMeet depositStep (GoesOn entry.entryId since) st actions)
    (hrun : Runs.run depositStep st actions = some st') : Waiting entry since st' :=
  hgoes.invariant (Waiting entry since) (fun _ _ _ hu hmeets hstep => hu.step hmeets hstep) h
    (List.append_nil _).symm hrun

/-- Where a waiting entry stands in the queue. -/
theorem Waiting.exists_item (h : Waiting entry since st) {held : List String}
    (hheld : ∀ row ∈ st.rows.rows, row.entryId = entry.entryId → row.snapshotId ∉ held) :
    ∃ item ∈ catchupListing st.rows st.entries held, item.entryId = entry.entryId ∧
      item.attempts = 0 ∧ item.waitingSince = since ∧ item.tags = entry.tags := by
  obtain ⟨row, hrow, hentry, hpending, hzero⟩ := h.untouched.exists_pending h.inv h.owed_eq
  refine ⟨pendingSnapshot st.rows row entry,
    mem_catchupListing.2 ⟨row, hrow, hpending, hheld row hrow hentry, entry, ?_, rfl⟩, hentry, hzero, ?_,
    rfl⟩
  · rw [hentry]
    exact h.entry_eq
  · change (owed st.rows row.entryId).getD row.capturedAt = since
    rw [hentry, h.owed_eq]
    rfl

/-- **An entry waits since its first capture.**  In every run whose finishes and stale resets find the
claim that they end, whatever is deposited later, edited, collapsed and read meanwhile, an entry of which
nothing has been claimed since its last extraction stays in the queue, untried, and since the first
capture that is newer than that extraction. -/
theorem waits_since_first_capture {start s t : ClaimState} (hrows : start.rows.rows = [])
    (hplanned : start.planned = []) {before after : List DepositAction}
    (hbulk : StepsMeet depositStep BulkStep start before)
    (hbefore : Runs.run depositStep start before = some s)
    (hentry : s.entries.get? entry.entryId = some entry) (huntouched : Untouched s entry.entryId)
    {first : ExtractionRow} (hfirst : first ∈ s.rows.rows) (hof : first.entryId = entry.entryId)
    (hnewer : IsNewer s.rows first)
    (hleast : ∀ row ∈ s.rows.rows, row.entryId = entry.entryId → IsNewer s.rows row →
      first.capturedAt ≤ row.capturedAt)
    (hgoes : StepsMeet depositStep (GoesOn entry.entryId first.capturedAt) s after)
    (hafter : Runs.run depositStep s after = some t) :
    (∃ item ∈ listPendingSnapshotsForCatchup t.rows t.entries,
      item.entryId = entry.entryId ∧ item.attempts = 0) ∧
    ∀ item ∈ listPendingSnapshotsForCatchup t.rows t.entries, item.entryId = entry.entryId →
      item.waitingSince = first.capturedAt := by
  have hinv := queueInv_run hrows hplanned hbulk hbefore
  have hs : Waiting entry first.capturedAt s := by
    refine ⟨hinv, hentry, huntouched, (huntouched.owed_eq hinv).2 ⟨⟨first, hfirst, hof, hnewer, rfl⟩, ?_⟩⟩
    exact hleast
  have ht := hs.run hgoes hafter
  constructor
  · obtain ⟨item, hitem, hof', hzero, -⟩ := ht.exists_item
      fun row _ _ => (List.not_mem_nil : row.snapshotId ∉ ([] : List String))
    exact ⟨item, (List.mem_filter.1 hitem).1, hof', hzero⟩
  · intro item hitem hof'
    obtain ⟨row, -, -, entry', -, rfl⟩ := mem_listPending.1 hitem
    change (owed t.rows row.entryId).getD row.capturedAt = first.capturedAt
    rw [show row.entryId = entry.entryId from hof', ht.owed_eq]
    rfl

/-- The entry that waits. -/
def entryE : CorpusEntryRow := { entryId := "E" }

/-- Two MUTABLE entries without snapshots. -/
def twoEntries : ClaimState where
  entries := ⟨[entryE, { entryId := "F" }], by decide⟩
  rows := Table.empty

/-- The first snapshot of `E`. -/
def firstOfE : ExtractionRow :=
  { snapshotId := "E1", entryId := "E", capturedAt := 3, contentHash := "h1" }

/-- The first snapshots of both. -/
def bothDeposited : List DepositAction :=
  [.deposit { snapshotId := "F1", entryId := "F", capturedAt := 1, contentHash := "h0" },
    .deposit firstOfE]

/-- `E` is edited, and its first snapshot collapsed. -/
def editedE : List DepositAction :=
  [.deposit { snapshotId := "E2", entryId := "E", capturedAt := 7, contentHash := "h2" },
    .writer (.planCollapse none ["h0", "h1", "h2"]), .writer (.markCollapsed 0)]

theorem bothDeposited_waits :
    ∃ s, run depositStep twoEntries bothDeposited = some s ∧ Untouched s entryE.entryId ∧
      s.entries.get? entryE.entryId = some entryE ∧ owed s.rows entryE.entryId = some 3 ∧
      firstOfE ∈ s.rows.rows ∧ IsNewer s.rows firstOfE ∧
      ∀ row ∈ s.rows.rows, row.entryId = entryE.entryId → firstOfE.capturedAt ≤ row.capturedAt := by
  refine ⟨_, rfl, ⟨?_, ?_⟩, rfl, by decide, ?_, ?_, ?_⟩
  · intro row hrow _ _
    rcases List.mem_cons.1 hrow with rfl | hrow
    · rfl
    · obtain rfl := List.mem_singleton.1 hrow
      rfl
  · intro row hrow hentry hnot
    refine absurd ?_ hnot
    rcases List.mem_cons.1 hrow with rfl | hrow
    · rfl
    · obtain rfl := List.mem_singleton.1 hrow
      rfl
  · exact List.mem_cons_of_mem _ List.mem_cons_self
  · rfl
  · decide

theorem edited_entry_keeps_waiting :
    ∃ t, run depositStep twoEntries (bothDeposited ++ editedE) = some t ∧
      ∃ item ∈ listPendingSnapshotsForCatchup t.rows t.entries,
        item.entryId = "E" ∧ item.waitingSince = 3 := by
  obtain ⟨s, hs, huntouched, hentry, -, hfirst, hnewer, hleast⟩ := bothDeposited_waits
  have hgoes : StepsMeet depositStep (GoesOn entryE.entryId firstOfE.capturedAt) s editedE := by
    obtain rfl := Option.some.inj hs
    decide +kernel
  obtain ⟨t, ht⟩ : ∃ t, run depositStep s editedE = some t := by
    obtain rfl := Option.some.inj hs
    exact ⟨_, rfl⟩
  obtain ⟨⟨item, hitem, hof, -⟩, hwaits⟩ := waits_since_first_capture rfl rfl
    (by decide +kernel) hs hentry huntouched hfirst rfl hnewer
    (fun row hrow hof _ => hleast row hrow hof) hgoes ht
  exact ⟨t, run_append_eq_some.2 ⟨s, hs, ht⟩, item, hitem, hof, hwaits item hitem hof⟩

/-! ### What stands in front -/

/-- A snapshot of another entry, captured by then, that work is owed for, or that is collapsed and newer
than the last extraction of its entry. -/
def counts (t : ExtractionTable) (entryId : String) (since : Instant) (row : ExtractionRow) : Bool :=
  row.entryId ≠ entryId && row.capturedAt ≤ since &&
    (row.supersededBySnapshotId = none && row.extractionStatus ≠ .COMPLETE ||
      row.supersededBySnapshotId ≠ none && (lastExtracted t row.entryId).all (· < row.capturedAt))

/-- The snapshots that may keep an entry waiting. -/
def backlog (t : ExtractionTable) (entryId : String) (since : Instant) : List String :=
  (t.rows.filter (counts t entryId since)).map ExtractionRow.snapshotId

theorem nodup_backlog (t : ExtractionTable) (entryId : String) (since : Instant) :
    (backlog t entryId since).Nodup :=
  t.nodup.sublist (List.filter_sublist.map _)

theorem mem_backlog {t : ExtractionTable} {snapshotId : String} :
    snapshotId ∈ backlog t entryId since ↔
      ∃ row ∈ t.rows, row.snapshotId = snapshotId ∧ counts t entryId since row = true := by
  simp [backlog, and_comm, and_left_comm]

/-- The snapshot is newer than all that has been extracted of its entry. -/
theorem lastExtracted_all {t : ExtractionTable} {c : Instant} :
    (lastExtracted t entryId).all (· < c) = true ↔
      ∀ row ∈ t.rows, row.entryId = entryId → isExtracted row = true → row.capturedAt < c := by
  unfold lastExtracted
  cases hmax : (captures t isExtracted entryId).max? with
  | none =>
      have hnone := List.max?_eq_none_iff.1 hmax
      refine iff_of_true rfl fun row hrow hentry hextracted => ?_
      have hmem : row.capturedAt ∈ captures t isExtracted entryId :=
        mem_captures.2 ⟨row, hrow, hentry, hextracted, rfl⟩
      rw [hnone] at hmem
      cases hmem
  | some last =>
      obtain ⟨hlast, hle⟩ := List.max?_eq_some_iff.1 hmax
      rw [Option.all_some, decide_eq_true_eq]
      constructor
      · intro hlt row hrow hentry hextracted
        exact lt_of_le_of_lt (hle _ (mem_captures.2 ⟨row, hrow, hentry, hextracted, rfl⟩)) hlt
      · intro hall
        obtain ⟨row, hrow, hentry, hextracted, rfl⟩ := mem_captures.1 hlast
        exact hall row hrow hentry hextracted

/-- What a run leaves of the rows: each is there, and a COMPLETE one as it was. -/
def Follows (st st' : ClaimState) : Prop :=
  ∀ row ∈ st.rows.rows, ∃ row' ∈ st'.rows.rows, SameColumns row row' ∧
    (row.extractionStatus = .COMPLETE → row' = row)

theorem RowStep.of_complete {row row' : ExtractionRow} (h : RowStep action row row')
    (hcomplete : row.extractionStatus = .COMPLETE) : row' = row := by
  cases h with
  | same => rfl
  | claimed _ _ _ hpending =>
      rw [hcomplete] at hpending
      cases hpending
  | ended _ _ hreading =>
      rw [hcomplete] at hreading
      cases hreading
  | collapsed _ howes => simp [ExtractionRow.owesWork, hcomplete] at howes

theorem follows_of_step (h : QueueInv st) (hbulk : BulkStep st action)
    (hstep : depositStep st action = some st') : Follows st st' := by
  intro row hrow
  obtain ⟨row', hrow', hrowStep⟩ := exists_row_of_step h hbulk hstep hrow
  exact ⟨row', hrow', hrowStep.columns, hrowStep.of_complete⟩

theorem Follows.trans {a b c : ClaimState} (hab : Follows a b) (hbc : Follows b c) : Follows a c := by
  intro row hrow
  obtain ⟨mid, hmid, hcolumns, hsame⟩ := hab row hrow
  obtain ⟨last, hlast, hcolumns', hsame'⟩ := hbc mid hmid
  refine ⟨last, hlast, ⟨hcolumns'.snapshotId.trans hcolumns.snapshotId,
    hcolumns'.entryId.trans hcolumns.entryId, hcolumns'.capturedAt.trans hcolumns.capturedAt,
    hcolumns'.warcRecordType.trans hcolumns.warcRecordType⟩, fun hcomplete => ?_⟩
  obtain rfl := hsame hcomplete
  exact hsame' hcomplete

/-- **A step adds nothing to the backlog.** -/
theorem backlog_of_step (h : QueueInv st) (hgoes : GoesOn entryId since st action)
    (hstep : depositStep st action = some st') :
    backlog st'.rows entryId since ⊆ backlog st.rows entryId since := by
  have hfollows := follows_of_step h hgoes.1 hstep
  intro snapshotId hin
  obtain ⟨row', hrow', rfl, hcounts⟩ := mem_backlog.1 hin
  simp only [counts, Bool.and_eq_true, Bool.or_eq_true, decide_eq_true_eq, ne_eq,
    lastExtracted_all] at hcounts
  obtain ⟨⟨hother, hcaptured⟩, hcases⟩ := hcounts
  rcases mem_rows_of_step h hgoes.1 hstep hrow' with ⟨row, hrow, hrowStep⟩ | ⟨rfl, -⟩
  · have hcolumns := hrowStep.columns
    refine mem_backlog.2 ⟨row, hrow, hcolumns.snapshotId.symm, ?_⟩
    simp only [counts, Bool.and_eq_true, Bool.or_eq_true, decide_eq_true_eq, ne_eq, lastExtracted_all]
    rw [hcolumns.entryId] at hother hcases
    rw [hcolumns.capturedAt] at hcaptured hcases
    refine ⟨⟨hother, hcaptured⟩, ?_⟩
    cases hrowStep with
    | same =>
        refine hcases.imp id fun ⟨hmark, hnewer⟩ => ⟨hmark, fun x hx hentry hextracted => ?_⟩
        -- what was extracted still is
        obtain ⟨x', hx', hcolumns', hsame⟩ := hfollows x hx
        have hcomplete : x.extractionStatus = .COMPLETE := by
          simp only [isExtracted, Bool.and_eq_true, decide_eq_true_eq] at hextracted
          exact hextracted.1.2
        rw [hsame hcomplete] at hx'
        exact hnewer x hx' hentry hextracted
    | claimed runner startedAt haction hpending hmark =>
        refine .inl ⟨hmark, ?_⟩
        rw [hpending]
        exact nofun
    | ended _ _ hreading =>
        have hnone : row.supersededBySnapshotId = none := by
          by_contra hmark
          have hcomplete := (h.collapsed row hrow hmark).1
          rw [hreading] at hcomplete
          cases hcomplete
        refine .inl ⟨hnone, ?_⟩
        rw [hreading]
        exact nofun
    | collapsed later howes hmark =>
        refine .inl ⟨hmark, fun hcomplete => ?_⟩
        simp [ExtractionRow.owesWork, hcomplete] at howes
  · exact absurd hcaptured (not_le_of_gt hgoes.2)

theorem Waiting.follows (h : Waiting entry since st) {actions : List DepositAction}
    (hgoes : StepsMeet depositStep (GoesOn entry.entryId since) st actions)
    (hrun : Runs.run depositStep st actions = some st') :
    Follows st st' ∧ backlog st'.rows entry.entryId since ⊆ backlog st.rows entry.entryId since := by
  have hall := hgoes.invariant
    (fun u => Waiting entry since u ∧ Follows st u ∧
      backlog u.rows entry.entryId since ⊆ backlog st.rows entry.entryId since)
    (fun u a v ⟨hu, hfollows, hsub⟩ hmeets hstep =>
      ⟨hu.step hmeets hstep, hfollows.trans (follows_of_step hu.inv hmeets.1 hstep),
        List.Subset.trans (backlog_of_step hu.inv hmeets hstep) hsub⟩)
    ⟨h, fun row hrow => ⟨row, hrow, .refl row, fun _ => rfl⟩, List.Subset.refl _⟩
    (List.append_nil _).symm hrun
  exact hall.2

/-! ### A pass that takes others -/

/-- What a pass finds: the entry's snapshots are not held, and of the backlog nothing was handed back or
is held. -/
structure PassFinds (entryId : String) (since : Instant) (st : ClaimState) (held : List String) :
    Prop where
  own : ∀ row ∈ st.rows.rows, row.entryId = entryId → row.snapshotId ∉ held
  backlog : ∀ row ∈ st.rows.rows, row.extractionStatus = .PENDING → row.capturedAt ≤ since →
    row.extractionAttempts = 0 ∧ row.snapshotId ∉ held

/-- The snapshot has become an extracted generation. -/
def IsRead (st : ClaimState) (snapshotId : String) : Prop :=
  ∃ row ∈ st.rows.rows, row.snapshotId = snapshotId ∧ isExtracted row = true

variable {pass : Pass} {held : List String}

/-- A snapshot that was collapsed leaves the backlog when a later generation of its entry is read. -/
theorem Waiting.backlog_of_collapsed (h : Waiting entry since st) (hfollows : Follows st st')
    {found later : ExtractionRow} (hfound : found ∈ st.rows.rows)
    (hmark : found.supersededBySnapshotId ≠ none) (hother : found.entryId ≠ entry.entryId)
    (hle : found.capturedAt ≤ since)
    (hnewer : (lastExtracted st.rows found.entryId).all (· < found.capturedAt) = true)
    (hlater : later ∈ st'.rows.rows) (hentry : later.entryId = found.entryId)
    (hextracted : isExtracted later = true) (hlt : found.capturedAt < later.capturedAt) :
    found.snapshotId ∈ backlog st.rows entry.entryId since ∧
      found.snapshotId ∉ backlog st'.rows entry.entryId since := by
  refine ⟨mem_backlog.2 ⟨found, hfound, rfl, ?_⟩, fun hin => ?_⟩
  · simp only [counts, Bool.and_eq_true, Bool.or_eq_true, decide_eq_true_eq]
    exact ⟨⟨hother, hle⟩, .inr ⟨hmark, hnewer⟩⟩
  · obtain ⟨found', hfound', -, hsame⟩ := hfollows found hfound
    obtain rfl := hsame (h.inv.collapsed found hfound hmark).1
    obtain ⟨again, hagain, hid, hcounts⟩ := mem_backlog.1 hin
    obtain rfl := Table.eq_of_key_eq hagain hfound' hid
    simp only [counts, Bool.and_eq_true, Bool.or_eq_true, decide_eq_true_eq, lastExtracted_all] at hcounts
    rcases hcounts.2 with ⟨hnone, -⟩ | ⟨-, hall⟩
    · exact hmark hnone
    · exact absurd (hall later hlater hentry hextracted) (not_lt_of_gt hlt)

/-- A snapshot of another entry that stands first in its entry, untried and waiting as long as the given
time: reading it takes a snapshot of its entry out of the backlog. -/
theorem Waiting.backlog_of_read (h : Waiting entry since st) (hfinds : PassFinds entry.entryId since st held)
    {row : ExtractionRow} (hrow : row ∈ st.rows.rows) (hpending : row.extractionStatus = .PENDING)
    (hother : row.entryId ≠ entry.entryId) (hwait : (owed st.rows row.entryId).getD row.capturedAt ≤ since)
    (hfirst : ∀ other ∈ st.rows.rows, other.entryId = row.entryId → other.extractionStatus = .PENDING →
      other.extractionAttempts = 0 → other.snapshotId ∉ held → row.capturedAt ≤ other.capturedAt)
    (hfollows : Follows st st') (hread : IsRead st' row.snapshotId) :
    ∃ found ∈ st.rows.rows, found.entryId = row.entryId ∧
      found.snapshotId ∈ backlog st.rows entry.entryId since ∧
      found.snapshotId ∉ backlog st'.rows entry.entryId since := by
  obtain ⟨read, hreadMem, hreadId, hextracted⟩ := hread
  obtain ⟨row', hrow', hcolumns, -⟩ := hfollows row hrow
  obtain rfl := Table.eq_of_key_eq hrow' hreadMem (hcolumns.snapshotId.trans hreadId.symm)
  simp only [isExtracted, Bool.and_eq_true, decide_eq_true_eq] at hextracted
  obtain ⟨⟨htype, hcomplete⟩, hmark⟩ := hextracted
  by_cases hcaptured : row.capturedAt ≤ since
  · -- the snapshot itself was in the backlog
    have hnone : row.supersededBySnapshotId = none := by
      by_contra hsome
      have hdone := (h.inv.collapsed row hrow hsome).1
      rw [hpending] at hdone
      cases hdone
    refine ⟨row, hrow, rfl, mem_backlog.2 ⟨row, hrow, rfl, ?_⟩, fun hin => ?_⟩
    · simp [counts, hother, hcaptured, hnone, hpending]
    · obtain ⟨again, hagain, hid, hcounts⟩ := mem_backlog.1 hin
      obtain rfl := Table.eq_of_key_eq hagain hrow' (hid.trans hcolumns.snapshotId.symm)
      simp [counts, hmark, hcomplete] at hcounts
  · -- its entry has waited since a snapshot that was collapsed
    cases howed : owed st.rows row.entryId with
    | none => rw [howed] at hwait; exact absurd hwait hcaptured
    | some w =>
        rw [howed] at hwait
        obtain ⟨⟨found, hfound, hfoundEntry, howes, rfl⟩, -⟩ := owed_eq_some.1 howed
        have hle : found.capturedAt ≤ since := hwait
        have hlt : found.capturedAt < row.capturedAt := lt_of_le_of_lt hle (lt_of_not_ge hcaptured)
        rcases howes with hfoundPending | ⟨hcollapsed, hnewer⟩
        · obtain ⟨hzero, hnotHeld⟩ := hfinds.backlog found hfound hfoundPending hle
          have hback := hfirst found hfound hfoundEntry hfoundPending hzero hnotHeld
          exact absurd hlt (not_lt_of_ge hback)
        · simp only [isCollapsed, Bool.and_eq_true, decide_eq_true_eq] at hcollapsed
          -- what was read is a later generation of the entry
          exact ⟨found, hfound, hfoundEntry, h.backlog_of_collapsed hfollows hfound hcollapsed.2
            (hfoundEntry ▸ hother) hle hnewer hrow' (hcolumns.entryId.trans hfoundEntry.symm)
            (by simp [isExtracted, htype, hcomplete, hmark]) (hcolumns.capturedAt.symm ▸ hlt)⟩

/-- What the order of the queue says of two snapshots. -/
theorem catchupOrder_le {a b : PendingSnapshot} (h : catchupOrder a ≤ catchupOrder b)
    (hattempts : b.attempts ≤ a.attempts) :
    a.attempts = b.attempts ∧ a.waitingSince ≤ b.waitingSince ∧
      (a.waitingSince = b.waitingSince → a.capturedAt ≤ b.capturedAt) := by
  rcases Prod.Lex.toLex_le_toLex.1 h with hlt | ⟨heq, h⟩
  · exact absurd hlt (not_lt_of_ge hattempts)
  · refine ⟨heq, ?_⟩
    rcases Prod.Lex.toLex_le_toLex.1 h with hlt | ⟨hsame, h⟩
    · exact ⟨le_of_lt hlt, fun hsame => absurd hlt (not_lt_of_ge (le_of_eq hsame.symm))⟩
    · refine ⟨le_of_eq hsame, fun _ => ?_⟩
      rcases Prod.Lex.toLex_le_toLex.1 h with hlt | ⟨hcaptured, -⟩
      · exact le_of_lt hlt
      · exact le_of_eq hcaptured

/-- In front of a snapshot of the first class stand only snapshots that wait as long. -/
theorem catchupOrder_of_classOrder {a b : PendingSnapshot}
    (hclass : pass.priorityTags = [] ∨ pass.isPriority b = true ∨
      pass.isPriority a = pass.isPriority b)
    (h : classOrder pass a ≤ classOrder pass b) : catchupOrder a ≤ catchupOrder b := by
  rcases Prod.Lex.toLex_le_toLex.1 h with hlt | ⟨-, h⟩
  · exfalso
    rcases hclass with htags | hfirst | hsame
    · simp [Pass.isPriority, htags] at hlt
    · simp [hfirst] at hlt
    · simp [hsame] at hlt
  · exact h

/-- Each entry that such a pass takes gives a snapshot of the backlog. -/
theorem Waiting.backlog_of_taken (h : Waiting entry since st)
    (hclass : pass.priorityTags = [] ∨ entry.tags.any (· ∈ pass.priorityTags) = true)
    (hbatching : pass.extractBatching = true) (hfinds : PassFinds entry.entryId since st held)
    (hnot : entry.entryId ∉
      (extractSelection pass (catchupListing st.rows st.entries held)).map Prod.fst)
    (hfollows : Follows st st')
    (hread : ∀ chosen ∈ extractSelection pass (catchupListing st.rows st.entries held),
      IsRead st' chosen.2) {taken : String}
    (htaken : taken ∈ (extractSelection pass (catchupListing st.rows st.entries held)).map Prod.fst) :
    ∃ found ∈ st.rows.rows, found.entryId = taken ∧
      found.snapshotId ∈ backlog st.rows entry.entryId since ∧
      found.snapshotId ∉ backlog st'.rows entry.entryId since := by
  obtain ⟨item, hitem, hof, hzero, hsince, htags⟩ := h.exists_item hfinds.own
  obtain ⟨-, -, hchosen⟩ := passed_over hbatching
    (pairwise_catchupListing held) hitem (hof.symm ▸ hnot)
  obtain ⟨chosen, hmem, rfl⟩ := List.mem_map.1 htaken
  obtain ⟨first, hfirst, rfl, hbefore, hleast⟩ := hchosen chosen hmem
  obtain ⟨row, hrow, hpending, hrowHeld, entry', hentry', rfl⟩ := mem_catchupListing.1 hfirst
  have hother : row.entryId ≠ entry.entryId := by
    intro heq
    rw [← heq] at hnot
    exact hnot htaken
  have hprior : pass.priorityTags = [] ∨ pass.isPriority item = true := by
    refine hclass.imp id fun htag => ?_
    unfold Pass.isPriority
    rw [htags]
    exact htag
  have horder := catchupOrder_of_classOrder (hprior.imp id .inl) hbefore
  obtain ⟨hattempts, hwait, -⟩ := catchupOrder_le horder (by rw [hzero]; exact Nat.zero_le _)
  rw [hsince] at hwait
  rw [hzero] at hattempts
  refine h.backlog_of_read hfinds hrow hpending hother hwait ?_ hfollows (hread _ hmem)
  intro other hotherRow hotherEntry hotherPending hotherZero hotherHeld
  have hitem' : pendingSnapshot st.rows other entry' ∈ catchupListing st.rows st.entries held :=
    mem_catchupListing.2 ⟨other, hotherRow, hotherPending, hotherHeld, entry',
      by rw [hotherEntry]; exact hentry', rfl⟩
  have hclasses : pass.isPriority (pendingSnapshot st.rows row entry') =
      pass.isPriority (pendingSnapshot st.rows other entry') := rfl
  have horder' := catchupOrder_of_classOrder (.inr (.inr hclasses)) (hleast _ hitem' hotherEntry)
  have hle : (pendingSnapshot st.rows other entry').attempts ≤
      (pendingSnapshot st.rows row entry').attempts :=
    le_of_eq (hotherZero.trans hattempts.symm)
  obtain ⟨-, hwaits, hcaptured⟩ := catchupOrder_le horder' hle
  have hsame : ∀ r : ExtractionRow, r.entryId = row.entryId →
      (pendingSnapshot st.rows r entry').waitingSince =
        (owed st.rows row.entryId).getD r.capturedAt := by
    intro r hr
    change (owed st.rows r.entryId).getD r.capturedAt = _
    rw [hr]
  rw [hsame row rfl, hsame other hotherEntry] at hwaits hcaptured
  cases howed : owed st.rows row.entryId with
  | none =>
      rw [howed] at hwaits
      exact hwaits
  | some w =>
      rw [howed] at hcaptured
      exact hcaptured rfl

/-- When each of several names has an item that is lost, at least as many items are lost. -/
theorem length_add_length_le {α β : Type} [DecidableEq α] [DecidableEq β] {before after : List α}
    {names : List β} (hbefore : before.Nodup) (hafter : after.Nodup) (hsub : after ⊆ before)
    (hnames : names.Nodup) (nameOf : α → Option β)
    (hlost : ∀ name ∈ names, ∃ item ∈ before, item ∉ after ∧ nameOf item = some name) :
    names.length + after.length ≤ before.length := by
  have himage : names.toFinset.image some ⊆ (before.toFinset \ after.toFinset).image nameOf := by
    intro named hnamed
    obtain ⟨name, hname, rfl⟩ := Finset.mem_image.1 hnamed
    obtain ⟨item, hin, hout, hof⟩ := hlost name (List.mem_toFinset.1 hname)
    refine Finset.mem_image.2 ⟨item, ?_, hof⟩
    exact Finset.mem_sdiff.2 ⟨List.mem_toFinset.2 hin, fun h => hout (List.mem_toFinset.1 h)⟩
  have hcard := (Finset.card_le_card himage).trans Finset.card_image_le
  rw [Finset.card_image_of_injective _ (Option.some_injective _),
    List.toFinset_card_of_nodup hnames] at hcard
  have hsubset : after.toFinset ⊆ before.toFinset :=
    fun item hitem => List.mem_toFinset.2 (hsub (List.mem_toFinset.1 hitem))
  have hsum := Finset.card_sdiff_add_card_eq_card hsubset
  rw [List.toFinset_card_of_nodup hafter, List.toFinset_card_of_nodup hbefore] at hsum
  omega

/-- **A pass that takes other entries takes its whole share of the backlog.** -/
theorem Waiting.backlog_of_pass (h : Waiting entry since st)
    (hclass : pass.priorityTags = [] ∨ entry.tags.any (· ∈ pass.priorityTags) = true)
    (hbatching : pass.extractBatching = true) (hfinds : PassFinds entry.entryId since st held)
    (hnot : entry.entryId ∉
      (extractSelection pass (catchupListing st.rows st.entries held)).map Prod.fst)
    {actions : List DepositAction}
    (hgoes : StepsMeet depositStep (GoesOn entry.entryId since) st actions)
    (hrun : Runs.run depositStep st actions = some st')
    (hread : ∀ chosen ∈ extractSelection pass (catchupListing st.rows st.entries held),
      IsRead st' chosen.2) :
    pass.maxPendingEntries + (backlog st'.rows entry.entryId since).length ≤
      (backlog st.rows entry.entryId since).length := by
  obtain ⟨hfollows, hsub⟩ := h.follows hgoes hrun
  obtain ⟨item, hitem, hof, -⟩ := h.exists_item hfinds.own
  obtain ⟨hlength, hnodup, -⟩ := passed_over hbatching
    (pairwise_catchupListing held) hitem (hof.symm ▸ hnot)
  rw [← hlength, ← List.length_map (f := Prod.fst)]
  -- each entry that the pass takes loses a snapshot of the backlog
  refine length_add_length_le (nodup_backlog _ _ _) (nodup_backlog _ _ _) hsub hnodup
    (fun snapshotId => (st.rows.get? snapshotId).map ExtractionRow.entryId) fun taken htaken => ?_
  obtain ⟨found, hfound, rfl, hin, hout⟩ :=
    h.backlog_of_taken hclass hbatching hfinds hnot hfollows hread htaken
  refine ⟨found.snapshotId, hin, hout, ?_⟩
  rw [Table.get?_key hfound]
  rfl

/-- A run in which a number of passes take other entries while an entry waits, and read what they take. -/
inductive Waited (pass : Pass) (entryId : String) (since : Instant) : ClaimState → ClaimState → ℕ → Prop
  | refl (st : ClaimState) : Waited pass entryId since st st 0
  | step {a b c : ClaimState} {n : ℕ} (action : DepositAction) (hgoes : GoesOn entryId since a action)
      (hstep : depositStep a action = some b) (hrest : Waited pass entryId since b c n) :
      Waited pass entryId since a c n
  | passed {a b c : ClaimState} {n : ℕ} (held : List String) (actions : List DepositAction)
      (hfinds : PassFinds entryId since a held)
      (hnot : entryId ∉ (extractSelection pass (catchupListing a.rows a.entries held)).map Prod.fst)
      (hgoes : StepsMeet depositStep (GoesOn entryId since) a actions)
      (hrun : Runs.run depositStep a actions = some b)
      (hread : ∀ chosen ∈ extractSelection pass (catchupListing a.rows a.entries held),
        IsRead b chosen.2)
      (hrest : Waited pass entryId since b c n) : Waited pass entryId since a c (n + 1)

/-- **The passes that take other entries take at most the backlog.** -/
theorem Waiting.waited (h : Waiting entry since st)
    (hclass : pass.priorityTags = [] ∨ entry.tags.any (· ∈ pass.priorityTags) = true)
    (hbatching : pass.extractBatching = true) {n : ℕ}
    (hwaited : Waited pass entry.entryId since st st' n) :
    n * pass.maxPendingEntries + (backlog st'.rows entry.entryId since).length ≤
      (backlog st.rows entry.entryId since).length := by
  induction hwaited with
  | refl st => rw [Nat.zero_mul, Nat.zero_add]
  | step action hgoes hstep _ ih =>
      have hrest := ih (h.step hgoes hstep)
      have hsub := backlog_of_step h.inv hgoes hstep
      have hle := ((nodup_backlog _ _ _).subperm hsub).length_le
      omega
  | passed held actions hfinds hnot hgoes hrun hread _ ih =>
      have hrest := ih (h.run hgoes hrun)
      have hpass := h.backlog_of_pass hclass hbatching hfinds hnot hgoes hrun hread
      rw [Nat.succ_mul]
      omega

/-- **An entry is passed over boundedly often.**  While it waits, no more passes take other entries than
the backlog in front of it fills, whatever is deposited later, edited and collapsed meanwhile, as long as
what the passes take is read and they find what was pending by then untried and not held. -/
theorem passed_over_boundedly {start s t : ClaimState} (hrows : start.rows.rows = [])
    (hplanned : start.planned = []) {before : List DepositAction}
    (hbulk : StepsMeet depositStep BulkStep start before)
    (hbefore : Runs.run depositStep start before = some s)
    (hentry : s.entries.get? entry.entryId = some entry) (huntouched : Untouched s entry.entryId)
    (howed : owed s.rows entry.entryId = some since)
    (hclass : pass.priorityTags = [] ∨ entry.tags.any (· ∈ pass.priorityTags) = true)
    (hbatching : pass.extractBatching = true) {n : ℕ}
    (hwaited : Waited pass entry.entryId since s t n) :
    n * pass.maxPendingEntries ≤ (backlog s.rows entry.entryId since).length := by
  have hs : Waiting entry since s := ⟨queueInv_run hrows hplanned hbulk hbefore, hentry, huntouched, howed⟩
  have hle := hs.waited hclass hbatching hwaited
  omega

theorem first_entry_taken_once :
    ∃ s t, run depositStep twoEntries bothDeposited = some s ∧
      Waited ⟨1, [], true⟩ entryE.entryId 3 s t 1 ∧
      1 * 1 ≤ (backlog s.rows entryE.entryId 3).length := by
  obtain ⟨s, hs, huntouched, hentry, howed, -⟩ := bothDeposited_waits
  let reads : List DepositAction :=
    [.writer (.claim 0 "F1" 8), .writer (.finish 0 (.complete none "{}"))]
  obtain ⟨t, hwaited⟩ : ∃ t, Waited ⟨1, [], true⟩ entryE.entryId 3 s t 1 := by
    obtain rfl := Option.some.inj hs
    refine ⟨_, .passed [] reads ⟨by decide, by decide⟩ (by decide +kernel) (by decide +kernel) rfl ?_
      (.refl _)⟩
    intro chosen hchosen
    obtain rfl := List.mem_singleton.1 (show chosen ∈ [("F", "F1")] from hchosen)
    refine ⟨_, List.mem_cons_self, rfl, ?_⟩
    decide +kernel
  exact ⟨s, t, hs, hwaited, passed_over_boundedly rfl rfl (by decide +kernel) hs hentry huntouched howed
    (.inl rfl) rfl hwaited⟩

end CatchupQueue
end ParticlesEngine
