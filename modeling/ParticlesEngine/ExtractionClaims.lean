/-
**Extraction claims and collapse marks.**

A runner claims a snapshot, reads it for minutes, and then writes how the read went.  Meanwhile a
claim that looks abandoned is reset, and a snapshot that a newer one of its entry replaces is marked
collapsed.  Five writers share the columns of one row, and two of them, the status update of a runner
and the second statement of the stale reset, write whatever the row has become.

The runs here interleave any number of runners with the resets and the collapses.  A reset and a
collapse read first and write later, so that anything may happen between the two.

Main definitions:

* `ExtractionRow`, `ExtractionTable` — the columns of a snapshot that the writers share;
* `updateStatus`, `claim`, `release`, `resetStale`, `markSuperseded` — the five writers;
* `planCollapse`, `plannedCollapses` — the snapshots that a collapse would mark;
* `ClaimState`, `ClaimAction`, `claimStep` — the interleavings;
* `ClaimsAgree` — claims and marks do not contradict each other;
* `FindsUncollapsed` — the unconditional writers find the snapshot as its claim left it.

Main results:

* `claimsAgree_of_stepsMeet` — **in a run whose unconditional writers find the snapshot uncollapsed
  and its claims unwritten, claims and marks agree throughout**;
* `claimed_then_collapsed` — in general they do not.
-/

import Mathlib.Data.Prod.Lex
import Mathlib.Data.String.Basic
import ParticlesEngine.Corpus
import ParticlesEngine.FirstByKey
import ParticlesEngine.Runs
import ParticlesEngine.SortBy

set_option relaxedAutoImplicit false
set_option autoImplicit false

namespace ParticlesEngine

open SortBy FirstByKey Runs

/-! ### The shared columns -/

/-- The columns of a snapshot that claims, status updates and collapses read and write. -/
structure ExtractionRow where
  snapshotId : String
  entryId : String
  capturedAt : Instant
  contentHash : String
  warcRecordType : WarcRecordType := .RESPONSE
  extractionStatus : ExtractionStatus := .PENDING
  /-- set when extraction claims the snapshot -/
  extractionStartedAt : Option Instant := none
  /-- how many times extraction has claimed the snapshot -/
  extractionAttempts : ℕ := 0
  /-- set when the bulk paths skipped the snapshot for a newer one -/
  supersededBySnapshotId : Option String := none
  extractedThrough : Option ℕ := none
  /-- the column `extraction_components_json` -/
  extractionComponents : Option String := none
  resumeWhole : Bool := false
  deriving DecidableEq, Repr

abbrev ExtractionTable := Table ExtractionRow.snapshotId

namespace ExtractionRow

/-- `update_extraction_status` on a row: unconditional. -/
def updateStatus (status : ExtractionStatus) (extractedThrough : Option ℕ)
    (components : Option String) (resumeWhole : Bool) (row : ExtractionRow) : ExtractionRow :=
  let endsRead := status = .COMPLETE ∨ status = .PENDING
  { row with
    extractionStatus := status
    extractedThrough :=
      if endsRead ∧ extractedThrough ≠ none then extractedThrough else row.extractedThrough
    extractionComponents :=
      if endsRead ∧ components ≠ none then components else row.extractionComponents
    resumeWhole :=
      if status = .COMPLETE then false
      else if status = .PENDING ∧ resumeWhole then true else row.resumeWhole
    extractionStartedAt := if status = .IN_PROGRESS then row.extractionStartedAt else none }

/-- `claim_snapshot_for_extraction` on a row: unconditional; a claim un-collapses. -/
def claim (startedAt : Instant) (row : ExtractionRow) : ExtractionRow :=
  { row with
    extractionStatus := .IN_PROGRESS
    extractionStartedAt := some startedAt
    extractionAttempts := row.extractionAttempts + 1
    supersededBySnapshotId := none }

/-- What a reset leaves of a claim. -/
def reset (row : ExtractionRow) : ExtractionRow :=
  { row with extractionStatus := .PENDING, extractionStartedAt := none }

/-- `release_extraction_claim` on a row: only an IN_PROGRESS claim is handed back. -/
def release (row : ExtractionRow) : ExtractionRow :=
  if row.extractionStatus = .IN_PROGRESS then row.reset else row

/-- A claim that `reset_stale_in_progress` selects. -/
def isStale (olderThan : Instant) (row : ExtractionRow) : Bool :=
  row.extractionStatus = .IN_PROGRESS && row.extractionStartedAt.all (· < olderThan)

/-- Work is still owed: the statuses of a snapshot that can be collapsed. -/
def owesWork (row : ExtractionRow) : Bool :=
  row.extractionStatus = .PENDING || row.extractionStatus = .FAILED

/-- `mark_snapshot_superseded` on a row: COMPLETE and the mark, on an uncollapsed row that owes
work. -/
def markSuperseded (supersededBy : String) (row : ExtractionRow) : ExtractionRow :=
  if row.owesWork && row.supersededBySnapshotId = none then
    { row with
      extractionStatus := .COMPLETE
      extractionStartedAt := none
      supersededBySnapshotId := some supersededBy }
  else row

@[simp] theorem release_snapshotId (row : ExtractionRow) :
    row.release.snapshotId = row.snapshotId := by
  unfold release
  split_ifs <;> rfl

@[simp] theorem release_entryId (row : ExtractionRow) : row.release.entryId = row.entryId := by
  unfold release
  split_ifs <;> rfl

@[simp] theorem markSuperseded_snapshotId (supersededBy : String) (row : ExtractionRow) :
    (row.markSuperseded supersededBy).snapshotId = row.snapshotId := by
  unfold markSuperseded
  split_ifs <;> rfl

@[simp] theorem markSuperseded_entryId (supersededBy : String) (row : ExtractionRow) :
    (row.markSuperseded supersededBy).entryId = row.entryId := by
  unfold markSuperseded
  split_ifs <;> rfl

end ExtractionRow

namespace ExtractionTable

variable (t : ExtractionTable)

/-- **`update_extraction_status`.** -/
def updateExtractionStatus (snapshotId : String) (status : ExtractionStatus)
    (extractedThrough : Option ℕ) (components : Option String) (resumeWhole : Bool) :
    ExtractionTable :=
  t.modify snapshotId (ExtractionRow.updateStatus status extractedThrough components resumeWhole)
    fun _ => rfl

/-- **`claim_snapshot_for_extraction`.** -/
def claimSnapshotForExtraction (snapshotId : String) (startedAt : Instant) : ExtractionTable :=
  t.modify snapshotId (ExtractionRow.claim startedAt) fun _ => rfl

/-- **`release_extraction_claim`.** -/
def releaseExtractionClaim (snapshotId : String) : ExtractionTable :=
  t.modify snapshotId ExtractionRow.release ExtractionRow.release_snapshotId

/-- The first statement of `reset_stale_in_progress`: the ids of the stale claims. -/
def staleIds (olderThan : Instant) : List String :=
  (t.rows.filter fun row => row.isStale olderThan).map ExtractionRow.snapshotId

/-- The second statement of `reset_stale_in_progress`: it writes every row whose id was read. -/
def resetInProgress (staleIds : List String) : ExtractionTable :=
  t.mapRows (fun row => if row.snapshotId ∈ staleIds then row.reset else row) fun row => by
    split_ifs <;> rfl

/-- **`mark_snapshot_superseded`.** -/
def markSnapshotSuperseded (snapshotId supersededBy : String) : ExtractionTable :=
  t.modify snapshotId (ExtractionRow.markSuperseded supersededBy)
    (ExtractionRow.markSuperseded_snapshotId supersededBy)

end ExtractionTable

/-! ### What a collapse marks -/

/-- Statuses a newer snapshot must hold to supersede. -/
def CAN_SUPERSEDE : List ExtractionStatus := [.PENDING, .IN_PROGRESS, .COMPLETE]

/-- Whether a generation may supersede older snapshots, blob presence aside. -/
def isEligibleSuperseder (row : ExtractionRow) : Bool :=
  row.extractionStatus ∈ CAN_SUPERSEDE && row.supersededBySnapshotId = none

/-- `plan_collapse`: the snapshots of one entry that its newest eligible generation supersedes, with
that generation.  The generations are given oldest first. -/
def planCollapse (generations : List ExtractionRow) (presentBlobs : List String) :
    List (String × String) :=
  let superseder := generations.reverse.find? fun row =>
    isEligibleSuperseder row &&
      (row.warcRecordType = .ABSENT || row.contentHash ∈ presentBlobs)
  match superseder with
  | none => []
  | some superseder =>
      ((generations.take (generations.idxOf superseder)).filter fun row =>
        row.owesWork && row.supersededBySnapshotId = none).map fun row =>
          (row.snapshotId, superseder.snapshotId)

/-- The order of the generations of an entry. -/
def generationOrder (row : ExtractionRow) : String ×ₗ Instant ×ₗ String :=
  toLex (row.entryId, toLex (row.capturedAt, row.snapshotId))

/-- `list_generations_with_unextracted_snapshots`: the generations of every MUTABLE entry that still
owes an extraction, of the given entries when there are any. -/
def listGenerations (entries : Table CorpusEntryRow.entryId) (t : ExtractionTable)
    (entryIds : Option (List String)) : List ExtractionRow :=
  let owing := (t.rows.filter fun row =>
    row.warcRecordType ∈ GENERATION_TYPES && row.owesWork &&
      row.supersededBySnapshotId = none).map ExtractionRow.entryId
  sortBy generationOrder <| t.rows.filter fun row =>
    (entries.get? row.entryId).any (·.mutability = .MUTABLE) &&
      row.warcRecordType ∈ GENERATION_TYPES && row.entryId ∈ owing &&
      entryIds.all (row.entryId ∈ ·)

/-- What a `collapse_superseded_pending` pass plans to mark, entry after entry. -/
def plannedCollapses (entries : Table CorpusEntryRow.entryId) (t : ExtractionTable)
    (entryIds : Option (List String)) (blobsOnDisk : List String) : List (String × String) :=
  let generations := listGenerations entries t entryIds
  let presentBlobs := (generations.filter fun row =>
    isEligibleSuperseder row && row.warcRecordType ≠ .ABSENT &&
      row.contentHash ∈ blobsOnDisk).map ExtractionRow.contentHash
  (firstByKey id [] (generations.map ExtractionRow.entryId)).flatMap fun entryId =>
    planCollapse (generations.filter (·.entryId = entryId)) presentBlobs

/-! ### The interleavings -/

/-- How a read that a runner claimed ends, apart from a release. -/
inductive ReadEnd where
  /-- the claims are written, and the snapshot is COMPLETE -/
  | complete (extractedThrough : Option ℕ) (components : String)
  /-- the claims answered so far are written, and the snapshot is PENDING -/
  | partly (extractedThrough : Option ℕ) (components : String) (resumeWhole : Bool)
  /-- every call failed -/
  | pending
  /-- the blob is missing -/
  | failed
  deriving DecidableEq, Repr

namespace ReadEnd

/-- The status that the runner writes. -/
def status : ReadEnd → ExtractionStatus
  | complete .. => .COMPLETE
  | partly .. => .PENDING
  | pending => .PENDING
  | failed => .FAILED

/-- The status update of the runner. -/
def update (snapshotId : String) (t : ExtractionTable) : ReadEnd → ExtractionTable
  | complete extractedThrough components =>
      t.updateExtractionStatus snapshotId .COMPLETE extractedThrough (some components) false
  | partly extractedThrough components resumeWhole =>
      t.updateExtractionStatus snapshotId .PENDING extractedThrough (some components) resumeWhole
  | pending => t.updateExtractionStatus snapshotId .PENDING none none false
  | failed => t.updateExtractionStatus snapshotId .FAILED none none false

/-- Whether claims are written in the transaction of the status update. -/
def writesClaims : ReadEnd → Bool
  | complete .. => true
  | partly .. => true
  | pending => false
  | failed => false

end ReadEnd

/-- The rows, the runners that hold a claim, and the resets and collapses that have read and not yet
written. -/
structure ClaimState where
  entries : Table CorpusEntryRow.entryId
  rows : ExtractionTable
  /-- the snapshot that each runner is reading -/
  reading : ℕ → Option String := fun _ => none
  /-- the ids that a stale reset has read -/
  stale : List (List String) := []
  /-- the marks that a collapse has planned -/
  planned : List (List (String × String)) := []
  /-- whether the claims of a snapshot have been written since it was last claimed -/
  written : String → Bool := fun _ => false

inductive ClaimAction where
  | claim (runner : ℕ) (snapshotId : String) (startedAt : Instant)
  | release (runner : ℕ)
  | finish (runner : ℕ) (outcome : ReadEnd)
  | readStale (olderThan : Instant)
  | resetStale (pass : ℕ)
  | planCollapse (entryIds : Option (List String)) (blobsOnDisk : List String)
  | markCollapsed (pass : ℕ)

namespace ClaimState

variable (st : ClaimState)

/-- The entry of a row is MUTABLE. -/
def isMutable (row : ExtractionRow) : Bool :=
  (st.entries.get? row.entryId).any (·.mutability = .MUTABLE)

/-- Only an APPEND_ONLY snapshot keeps the claims of a read that failed in part. -/
def mayEnd (snapshotId : String) : ReadEnd → Bool
  | .partly .. => (st.rows.get? snapshotId).all fun row =>
      (st.entries.get? row.entryId).any (·.mutability = .APPEND_ONLY)
  | _ => true

end ClaimState

/-- **One step.**  A runner reads one snapshot at a time, and ends what it has claimed. -/
def claimStep (st : ClaimState) : ClaimAction → Option ClaimState
  | .claim runner snapshotId startedAt =>
      if st.reading runner = none then
        some { st with
          rows := st.rows.claimSnapshotForExtraction snapshotId startedAt
          reading := Function.update st.reading runner (some snapshotId)
          written := Function.update st.written snapshotId false }
      else none
  | .release runner =>
      (st.reading runner).map fun snapshotId =>
        { st with
          rows := st.rows.releaseExtractionClaim snapshotId
          reading := Function.update st.reading runner none }
  | .finish runner outcome =>
      (st.reading runner).bind fun snapshotId =>
        if st.mayEnd snapshotId outcome then
          some { st with
            rows := outcome.update snapshotId st.rows
            reading := Function.update st.reading runner none
            written := Function.update st.written snapshotId
              (st.written snapshotId || outcome.writesClaims) }
        else none
  | .readStale olderThan => some { st with stale := st.stale ++ [st.rows.staleIds olderThan] }
  | .resetStale pass =>
      st.stale[pass]?.map fun staleIds =>
        { st with rows := st.rows.resetInProgress staleIds, stale := st.stale.eraseIdx pass }
  | .planCollapse entryIds blobsOnDisk =>
      some { st with
        planned := st.planned ++ [plannedCollapses st.entries st.rows entryIds blobsOnDisk] }
  | .markCollapsed pass =>
      st.planned[pass]?.map fun marks =>
        { st with
          rows := marks.foldl (fun t mark => t.markSnapshotSuperseded mark.1 mark.2) st.rows
          planned := st.planned.eraseIdx pass }

/-! ### Claims and marks -/

/-- **Claims and marks agree**: a claim time stands only beside IN_PROGRESS and a mark only beside
COMPLETE, and a snapshot whose claims were written since it was last claimed is not marked. -/
structure ClaimsAgree (st : ClaimState) : Prop where
  started : ∀ row ∈ st.rows.rows, row.extractionStartedAt ≠ none →
    row.extractionStatus = .IN_PROGRESS
  collapsed : ∀ row ∈ st.rows.rows, row.supersededBySnapshotId ≠ none →
    row.extractionStatus = .COMPLETE
  written : ∀ row ∈ st.rows.rows, st.written row.snapshotId = true →
    row.supersededBySnapshotId = none

/-- No runner, reset or collapse is under way, and none of the run's claims is written yet. -/
structure Opened (st : ClaimState) : Prop where
  started : ∀ row ∈ st.rows.rows, row.extractionStartedAt = none
  collapsed : ∀ row ∈ st.rows.rows, row.supersededBySnapshotId ≠ none →
    row.extractionStatus = .COMPLETE
  reading : ∀ runner, st.reading runner = none
  stale : st.stale = []
  planned : st.planned = []
  written : ∀ snapshotId, st.written snapshotId = false

/-- **The two unconditional writers find the snapshot uncollapsed**, and leave COMPLETE a MUTABLE
snapshot whose claims were written since it was last claimed. -/
def FindsUncollapsed (st : ClaimState) : ClaimAction → Prop
  | .finish runner outcome => ∀ row ∈ st.rows.rows, st.reading runner = some row.snapshotId →
      row.supersededBySnapshotId = none ∧
        (st.written row.snapshotId = true → st.isMutable row = true → outcome.status = .COMPLETE)
  | .resetStale pass => ∀ row ∈ st.rows.rows, ∀ staleIds ∈ st.stale[pass]?,
      row.snapshotId ∈ staleIds → row.supersededBySnapshotId = none ∧
        (st.written row.snapshotId = true → st.isMutable row = false)
  | _ => True

instance (st : ClaimState) : DecidablePred (FindsUncollapsed st)
  | .claim .. => inferInstanceAs (Decidable True)
  | .release _ => inferInstanceAs (Decidable True)
  | .finish .. => inferInstanceAs (Decidable (∀ row ∈ st.rows.rows, _ → _))
  | .readStale _ => inferInstanceAs (Decidable True)
  | .resetStale _ => inferInstanceAs (Decidable (∀ row ∈ st.rows.rows, _))
  | .planCollapse .. => inferInstanceAs (Decidable True)
  | .markCollapsed _ => inferInstanceAs (Decidable True)

namespace ExtractionRow

/-- What the writers keep of one row; a MUTABLE snapshot with written claims owes no work. -/
structure Sound (isMutable written : Bool) (row : ExtractionRow) : Prop where
  started : row.extractionStartedAt ≠ none → row.extractionStatus = .IN_PROGRESS
  collapsed : row.supersededBySnapshotId ≠ none → row.extractionStatus = .COMPLETE
  unmarked : written = true → row.supersededBySnapshotId = none
  settled : written = true → isMutable = true → row.extractionStatus = .COMPLETE

variable {isMutable written : Bool} {row : ExtractionRow}

theorem sound_claim (startedAt : Instant) : Sound isMutable false (row.claim startedAt) where
  started _ := rfl
  collapsed h := absurd rfl h
  unmarked h := absurd h (by simp)
  settled h := absurd h (by simp)

/-- A reset keeps what it may keep exactly when the snapshot is uncollapsed, and not a MUTABLE one
with written claims. -/
theorem sound_reset_iff : Sound isMutable written row.reset ↔
    row.supersededBySnapshotId = none ∧ (written = true → isMutable = false) := by
  constructor
  · intro h
    refine ⟨by_contra fun hmark => (nomatch h.collapsed hmark), fun hwritten => ?_⟩
    by_contra hmutable
    exact nomatch h.settled hwritten (by simpa using hmutable)
  · rintro ⟨hmark, hwritten⟩
    exact ⟨fun h => absurd rfl h, fun h => absurd hmark h, fun _ => hmark,
      fun h hmutable => absurd (hwritten h) (by simp [hmutable])⟩

theorem Sound.release (h : Sound isMutable written row) : Sound isMutable written row.release := by
  unfold ExtractionRow.release
  split_ifs with hstatus
  · -- an IN_PROGRESS row is neither collapsed nor settled
    refine sound_reset_iff.2 ⟨by_contra fun hmark => ?_, fun hwritten => ?_⟩
    · exact nomatch hstatus.symm.trans (h.collapsed hmark)
    · by_contra hmutable
      exact nomatch hstatus.symm.trans (h.settled hwritten (by simpa using hmutable))
  · exact h

/-- A collapse marks a MUTABLE row that owes work, so one whose claims are not written. -/
theorem Sound.markSuperseded (h : Sound true written row) (supersededBy : String) :
    Sound true written (row.markSuperseded supersededBy) := by
  unfold ExtractionRow.markSuperseded
  split_ifs with howes
  · refine ⟨fun hstarted => absurd rfl hstarted, fun _ => rfl, fun hwritten => ?_, fun _ _ => rfl⟩
    have hcomplete := h.settled hwritten rfl
    simp [owesWork, hcomplete] at howes
  · exact h

/-- A status update keeps what it may keep exactly when the snapshot is uncollapsed, and a MUTABLE
one with written claims stays COMPLETE. -/
theorem sound_updateStatus_iff {status : ExtractionStatus} {extractedThrough : Option ℕ}
    {components : Option String} {resumeWhole writes : Bool} (hstatus : status ≠ .IN_PROGRESS)
    (hwrites : status = .COMPLETE → writes = true)
    (hends : writes = true → isMutable = true → status = .COMPLETE) :
    Sound isMutable (written || writes)
        (row.updateStatus status extractedThrough components resumeWhole) ↔
      row.supersededBySnapshotId = none ∧
        (written = true → isMutable = true → status = .COMPLETE) := by
  constructor
  · intro h
    refine ⟨by_contra fun hmark => ?_, fun hwritten => h.settled (by simp [hwritten])⟩
    have hcomplete : status = .COMPLETE := h.collapsed hmark
    exact hmark (h.unmarked (by simp [hwrites hcomplete]))
  · rintro ⟨hmark, hwritten⟩
    refine ⟨fun h => absurd (if_neg hstatus) h, fun h => absurd hmark h, fun _ => hmark, ?_⟩
    intro h hmutable
    rcases Bool.or_eq_true_iff.1 h with h | h
    · exact hwritten h hmutable
    · exact hends h hmutable

end ExtractionRow

/-! ### Steps -/

/-- **What the steps keep**: every row is sound, and collapses have planned marks of MUTABLE entries
only. -/
structure ClaimInv (st : ClaimState) : Prop where
  sound : ∀ row ∈ st.rows.rows, row.Sound (st.isMutable row) (st.written row.snapshotId)
  planned : ∀ marks ∈ st.planned, ∀ mark ∈ marks, ∀ row ∈ st.rows.rows,
    row.snapshotId = mark.1 → st.isMutable row = true

theorem ClaimInv.claimsAgree {st : ClaimState} (h : ClaimInv st) : ClaimsAgree st where
  started row hrow := (h.sound row hrow).started
  collapsed row hrow := (h.sound row hrow).collapsed
  written row hrow := (h.sound row hrow).unmarked

theorem Opened.claimInv {st : ClaimState} (h : Opened st) : ClaimInv st where
  sound row hrow := by
    refine ⟨fun hstarted => absurd (h.started row hrow) hstarted, h.collapsed row hrow, ?_, ?_⟩
    · simp [h.written]
    · simp [h.written]
  planned := by simp [h.planned]

/-- Every row of one table has the ids of a row of the other. -/
def SameIds (t t' : ExtractionTable) : Prop :=
  ∀ row' ∈ t'.rows, ∃ row ∈ t.rows, row'.snapshotId = row.snapshotId ∧ row'.entryId = row.entryId

theorem SameIds.refl (t : ExtractionTable) : SameIds t t := fun row hrow => ⟨row, hrow, rfl, rfl⟩

theorem SameIds.trans {t t' t'' : ExtractionTable} (h : SameIds t t') (h' : SameIds t' t'') :
    SameIds t t'' := by
  intro row'' hrow''
  obtain ⟨row', hrow', hid', hentry'⟩ := h' row'' hrow''
  obtain ⟨row, hrow, hid, hentry⟩ := h row' hrow'
  exact ⟨row, hrow, hid'.trans hid, hentry'.trans hentry⟩

theorem sameIds_mapRows {t : ExtractionTable} {f : ExtractionRow → ExtractionRow}
    (hid : ∀ row, (f row).snapshotId = row.snapshotId) (hentry : ∀ row, (f row).entryId = row.entryId) :
    SameIds t (t.mapRows f hid) := by
  intro row' hrow'
  rw [Table.rows_mapRows] at hrow'
  obtain ⟨row, hrow, rfl⟩ := List.mem_map.1 hrow'
  exact ⟨row, hrow, hid row, hentry row⟩

theorem sameIds_modify {t : ExtractionTable} {snapshotId : String}
    (f : ExtractionRow → ExtractionRow) (hid : ∀ row, (f row).snapshotId = row.snapshotId)
    (hentry : ∀ row, (f row).entryId = row.entryId) : SameIds t (t.modify snapshotId f hid) := by
  intro row' hrow'
  obtain ⟨row, hrow, rfl⟩ := Table.mem_rows_modify.1 hrow'
  refine ⟨row, hrow, ?_⟩
  split_ifs with h
  · exact ⟨hid row, hentry row⟩
  · exact ⟨rfl, rfl⟩

/-- The mark of a row that the tables share by its ids. -/
theorem isMutable_congr {st st' : ClaimState} (hentries : st'.entries = st.entries)
    {row row' : ExtractionRow} (hentry : row'.entryId = row.entryId) :
    st'.isMutable row' = st.isMutable row := by
  rw [ClaimState.isMutable, ClaimState.isMutable, hentries, hentry]

/-- Planned marks stay marks of MUTABLE entries. -/
theorem ClaimInv.planned_of_sameIds {st st' : ClaimState} (h : ClaimInv st)
    (hentries : st'.entries = st.entries) (hrows : SameIds st.rows st'.rows)
    (hplanned : ∀ marks ∈ st'.planned, marks ∈ st.planned) :
    ∀ marks ∈ st'.planned, ∀ mark ∈ marks, ∀ row ∈ st'.rows.rows,
      row.snapshotId = mark.1 → st'.isMutable row = true := by
  intro marks hmarks mark hmark row' hrow' hid
  obtain ⟨row, hrow, hid', hentry⟩ := hrows row' hrow'
  rw [isMutable_congr hentries hentry]
  exact h.planned marks (hplanned marks hmarks) mark hmark row hrow (hid'.symm.trans hid)

/-- The rows of an updated table are sound when the updated row is. -/
theorem sound_modify_iff {st : ClaimState} (h : ClaimInv st) {snapshotId : String}
    (f : ExtractionRow → ExtractionRow) (hid : ∀ row, (f row).snapshotId = row.snapshotId)
    (hentry : ∀ row, (f row).entryId = row.entryId) (written : String → Bool)
    (hwritten : ∀ id, id ≠ snapshotId → written id = st.written id) :
    (∀ row ∈ (st.rows.modify snapshotId f hid).rows,
      row.Sound (st.isMutable row) (written row.snapshotId)) ↔
      ∀ row ∈ st.rows.rows, row.snapshotId = snapshotId →
        (f row).Sound (st.isMutable row) (written snapshotId) := by
  constructor
  · rintro hsound row hrow rfl
    have hrow' := hsound (f row) (Table.mem_rows_modify.2 ⟨row, hrow, if_pos rfl⟩)
    rwa [isMutable_congr rfl (hentry row), hid row] at hrow'
  · intro hsound row' hrow'
    obtain ⟨row, hrow, rfl⟩ := Table.mem_rows_modify.1 hrow'
    split_ifs with heq
    · rw [isMutable_congr rfl (hentry row), hid row, heq]
      exact hsound row hrow heq
    · rw [hwritten _ heq]
      exact h.sound row hrow

/-- The rows of a table with a reset are sound when the rows reset are. -/
theorem sound_resetInProgress_iff {st : ClaimState} (h : ClaimInv st) (staleIds : List String) :
    (∀ row ∈ (st.rows.resetInProgress staleIds).rows,
      row.Sound (st.isMutable row) (st.written row.snapshotId)) ↔
      ∀ row ∈ st.rows.rows, row.snapshotId ∈ staleIds →
        row.reset.Sound (st.isMutable row) (st.written row.snapshotId) := by
  rw [ExtractionTable.resetInProgress, Table.rows_mapRows]
  constructor
  · intro hsound row hrow hin
    exact hsound row.reset (List.mem_map.2 ⟨row, hrow, if_pos hin⟩)
  · intro hsound row' hrow'
    obtain ⟨row, hrow, rfl⟩ := List.mem_map.1 hrow'
    split_ifs with hin
    · exact hsound row hrow hin
    · exact h.sound row hrow

/-- A runner's status update is an update of one row, to a status other than IN_PROGRESS. -/
theorem ReadEnd.update_eq (outcome : ReadEnd) (snapshotId : String) (t : ExtractionTable) :
    ∃ extractedThrough components resumeWhole, outcome.update snapshotId t =
      t.updateExtractionStatus snapshotId outcome.status extractedThrough components resumeWhole := by
  cases outcome with
  | complete extractedThrough components => exact ⟨extractedThrough, some components, false, rfl⟩
  | partly extractedThrough components resumeWhole =>
      exact ⟨extractedThrough, some components, resumeWhole, rfl⟩
  | pending => exact ⟨none, none, false, rfl⟩
  | failed => exact ⟨none, none, false, rfl⟩

theorem ReadEnd.status_ne (outcome : ReadEnd) : outcome.status ≠ .IN_PROGRESS := by
  cases outcome <;> exact nofun

theorem ReadEnd.writesClaims_of_complete {outcome : ReadEnd} (h : outcome.status = .COMPLETE) :
    outcome.writesClaims = true := by
  cases outcome with
  | complete => rfl
  | partly => exact nomatch h
  | pending => exact nomatch h
  | failed => exact nomatch h

/-- A MUTABLE snapshot whose claims a runner writes is COMPLETE. -/
theorem complete_of_writesClaims {st : ClaimState} {row : ExtractionRow} (hrow : row ∈ st.rows.rows)
    {outcome : ReadEnd} (hends : st.mayEnd row.snapshotId outcome = true)
    (hwrites : outcome.writesClaims = true) (hmutable : st.isMutable row = true) :
    outcome.status = .COMPLETE := by
  cases outcome with
  | complete => rfl
  | partly extractedThrough components resumeWhole =>
      have hget : st.rows.get? row.snapshotId = some row := Table.get?_key hrow
      simp only [ClaimState.mayEnd, hget, Option.all_some] at hends
      rw [ClaimState.isMutable] at hmutable
      cases hentry : st.entries.get? row.entryId with
      | none => simp [hentry] at hmutable
      | some entry =>
          simp only [hentry, Option.any_some, decide_eq_true_eq] at hends hmutable
          have hclash := hmutable.symm.trans hends
          cases hclash
  | pending => cases hwrites
  | failed => cases hwrites

/-- What a collapse plans is the id of a MUTABLE entry's snapshot. -/
theorem exists_of_mem_plannedCollapses {entries : Table CorpusEntryRow.entryId} {t : ExtractionTable}
    {entryIds : Option (List String)} {blobsOnDisk : List String} {mark : String × String}
    (h : mark ∈ plannedCollapses entries t entryIds blobsOnDisk) :
    ∃ row ∈ t.rows, row.snapshotId = mark.1 ∧
      (entries.get? row.entryId).any (·.mutability = .MUTABLE) = true := by
  obtain ⟨entryId, -, hmark⟩ := List.mem_flatMap.1 h
  unfold planCollapse at hmark
  simp only at hmark
  split at hmark
  · simp at hmark
  · rename_i superseder _
    obtain ⟨row, hrow, rfl⟩ := List.mem_map.1 hmark
    have hgen := (List.mem_filter.1 (List.mem_of_mem_take (List.mem_filter.1 hrow).1)).1
    obtain ⟨hmem, hmutable⟩ := List.mem_filter.1 (mem_sortBy.1 hgen)
    simp only [Bool.and_eq_true] at hmutable
    exact ⟨row, hmem, rfl, hmutable.1.1.1⟩

/-- A collapse that marks MUTABLE snapshots keeps every row sound. -/
theorem ClaimInv.markCollapsed {st : ClaimState} (h : ClaimInv st) {marks : List (String × String)}
    (hmarks : ∀ mark ∈ marks, ∀ row ∈ st.rows.rows, row.snapshotId = mark.1 →
      st.isMutable row = true) :
    ClaimInv { st with
      rows := marks.foldl (fun t mark => t.markSnapshotSuperseded mark.1 mark.2) st.rows } ∧
    SameIds st.rows (marks.foldl (fun t mark => t.markSnapshotSuperseded mark.1 mark.2) st.rows) := by
  induction marks generalizing st with
  | nil => exact ⟨h, SameIds.refl _⟩
  | cons mark marks ih =>
      have hids : SameIds st.rows (st.rows.markSnapshotSuperseded mark.1 mark.2) :=
        sameIds_modify _ _ (ExtractionRow.markSuperseded_entryId mark.2)
      -- the state after the first mark
      have hfirst : ClaimInv { st with rows := st.rows.markSnapshotSuperseded mark.1 mark.2 } := by
        refine ⟨(sound_modify_iff h _ (ExtractionRow.markSuperseded_snapshotId mark.2)
          (ExtractionRow.markSuperseded_entryId mark.2) st.written fun _ _ => rfl).2
            fun row hrow hid => ?_, h.planned_of_sameIds rfl hids fun _ hin => hin⟩
        have hmutable := hmarks mark List.mem_cons_self row hrow hid
        have hsound := h.sound row hrow
        rw [hmutable, hid] at hsound
        rw [hmutable]
        exact hsound.markSuperseded mark.2
      obtain ⟨hrest, hids'⟩ := ih hfirst fun other hother row' hrow' hid => by
        obtain ⟨row, hrow, hid', hentry'⟩ := hids row' hrow'
        have hmutable := hmarks other (List.mem_cons_of_mem _ hother) row hrow (hid'.symm.trans hid)
        rw [← hmutable]
        exact isMutable_congr rfl hentry'
      exact ⟨hrest, hids.trans hids'⟩

/-- **A step keeps what the steps keep exactly when an unconditional writer finds the snapshot
uncollapsed.** -/
theorem claimStep_inv_iff {st st' : ClaimState} {action : ClaimAction} (h : ClaimInv st)
    (hstep : claimStep st action = some st') : ClaimInv st' ↔ FindsUncollapsed st action := by
  cases action with
  | claim runner snapshotId startedAt =>
      refine iff_of_true ?_ trivial
      simp only [claimStep, Option.ite_none_right_eq_some, Option.some.injEq] at hstep
      obtain ⟨-, rfl⟩ := hstep
      refine ⟨(sound_modify_iff h (ExtractionRow.claim startedAt) (fun _ => rfl) (fun _ => rfl)
        (Function.update st.written snapshotId false) ?_).2 ?_,
        h.planned_of_sameIds rfl (sameIds_modify (ExtractionRow.claim startedAt) (fun _ => rfl) fun _ => rfl) fun _ hin => hin⟩
      · exact fun id hne => Function.update_of_ne hne _ _
      · intro row _ _
        simpa using ExtractionRow.sound_claim startedAt
  | release runner =>
      refine iff_of_true ?_ trivial
      obtain ⟨snapshotId, -, rfl⟩ := Option.map_eq_some_iff.1 hstep
      refine ⟨(sound_modify_iff h ExtractionRow.release ExtractionRow.release_snapshotId
        ExtractionRow.release_entryId st.written fun _ _ => rfl).2 fun row hrow hid => ?_,
        h.planned_of_sameIds rfl (sameIds_modify _ ExtractionRow.release_snapshotId
          ExtractionRow.release_entryId) fun _ hin => hin⟩
      exact hid ▸ (h.sound row hrow).release
  | finish runner outcome =>
      obtain ⟨snapshotId, hreading, hstep⟩ := Option.bind_eq_some_iff.1 hstep
      simp only [Option.ite_none_right_eq_some, Option.some.injEq] at hstep
      obtain ⟨hends, rfl⟩ := hstep
      obtain ⟨extractedThrough, components, resumeWhole, hupdate⟩ :=
        outcome.update_eq snapshotId st.rows
      have hids : SameIds st.rows (outcome.update snapshotId st.rows) :=
        hupdate ▸ sameIds_modify (ExtractionRow.updateStatus outcome.status extractedThrough
          components resumeWhole) (fun _ => rfl) fun _ => rfl
      have hsound := sound_modify_iff h
        (ExtractionRow.updateStatus outcome.status extractedThrough components resumeWhole)
        (fun _ => rfl) (fun _ => rfl)
        (Function.update st.written snapshotId (st.written snapshotId || outcome.writesClaims))
        fun id hne => Function.update_of_ne hne _ _
      rw [← ExtractionTable.updateExtractionStatus, ← hupdate, Function.update_self] at hsound
      have hrow : ∀ row ∈ st.rows.rows, row.snapshotId = snapshotId →
          ((row.updateStatus outcome.status extractedThrough components resumeWhole).Sound
            (st.isMutable row) (st.written snapshotId || outcome.writesClaims) ↔
          row.supersededBySnapshotId = none ∧ (st.written row.snapshotId = true →
            st.isMutable row = true → outcome.status = .COMPLETE)) := by
        rintro row hrow rfl
        exact ExtractionRow.sound_updateStatus_iff outcome.status_ne
          ReadEnd.writesClaims_of_complete (complete_of_writesClaims hrow hends)
      constructor
      · intro hinv row hmem hreading'
        obtain rfl := Option.some.inj (hreading'.symm.trans hreading)
        exact (hrow row hmem rfl).1 (hsound.1 hinv.sound row hmem rfl)
      · intro hfinds
        refine ⟨hsound.2 fun row hmem hid => ?_, h.planned_of_sameIds rfl hids fun _ hin => hin⟩
        exact (hrow row hmem hid).2 (hfinds row hmem (hid ▸ hreading))
  | readStale olderThan =>
      refine iff_of_true ?_ trivial
      obtain rfl := Option.some.inj hstep
      exact ⟨h.sound, h.planned⟩
  | resetStale pass =>
      obtain ⟨staleIds, hpass, rfl⟩ := Option.map_eq_some_iff.1 hstep
      have hids : SameIds st.rows (st.rows.resetInProgress staleIds) := by
        refine sameIds_mapRows (fun row => ?_) fun row => ?_ <;> split_ifs <;> rfl
      have hreset := sound_resetInProgress_iff h staleIds
      simp only [ExtractionRow.sound_reset_iff] at hreset
      constructor
      · rintro hinv row hrow ids hids' hin
        obtain rfl := Option.some.inj (hpass.symm.trans hids')
        exact hreset.1 hinv.sound row hrow hin
      · intro hfinds
        exact ⟨hreset.2 fun row hrow => hfinds row hrow staleIds hpass,
          h.planned_of_sameIds rfl hids fun _ hin => hin⟩
  | planCollapse entryIds blobsOnDisk =>
      refine iff_of_true ?_ trivial
      obtain rfl := Option.some.inj hstep
      refine ⟨h.sound, fun marks hmarks mark hmark row hrow hid => ?_⟩
      rcases List.mem_append.1 hmarks with hmarks | hmarks
      · exact h.planned marks hmarks mark hmark row hrow hid
      · obtain rfl := List.mem_singleton.1 hmarks
        obtain ⟨planned, hplanned, hid', hmutable⟩ := exists_of_mem_plannedCollapses hmark
        obtain rfl := Table.eq_of_key_eq hrow hplanned (hid.trans hid'.symm)
        exact hmutable
  | markCollapsed pass =>
      refine iff_of_true ?_ trivial
      obtain ⟨marks, hpass, rfl⟩ := Option.map_eq_some_iff.1 hstep
      have hmarks := h.planned marks (List.mem_of_getElem? hpass)
      obtain ⟨hafter, hids⟩ := h.markCollapsed hmarks
      exact ⟨hafter.sound, h.planned_of_sameIds rfl hids fun _ => List.mem_of_mem_eraseIdx⟩

/-! ### Runs -/

/-- **Where the unconditional writers find the snapshot uncollapsed, claims and marks agree throughout
the run.** -/
theorem claimsAgree_of_stepsMeet {start : ClaimState} (hopened : Opened start)
    {actions : List ClaimAction} (hmeets : StepsMeet claimStep FindsUncollapsed start actions)
    {before after : List ClaimAction} {st : ClaimState} (hactions : actions = before ++ after)
    (hrun : run claimStep start before = some st) : ClaimsAgree st := by
  have hinv : ClaimInv st := by
    refine hmeets.invariant ClaimInv ?_ hopened.claimInv hactions hrun
    intro s action s' hs hfinds hstep
    exact (claimStep_inv_iff hs hstep).2 hfinds
  exact hinv.claimsAgree

/-- A MUTABLE entry that was edited once before its first extraction. -/
def editedOnce : ClaimState where
  entries := ⟨[{ entryId := "E" }], by decide⟩
  rows := ⟨[
    { snapshotId := "S1", entryId := "E", capturedAt := 1, contentHash := "h1" },
    { snapshotId := "S2", entryId := "E", capturedAt := 2, contentHash := "h2" }], by decide⟩

theorem editedOnce_opened : Opened editedOnce where
  started := by decide
  collapsed := by decide
  reading _ := rfl
  stale := rfl
  planned := rfl
  written _ := rfl

/-- A collapse that was planned while a runner read the older snapshot marks it after the read has
failed; the newer one is extracted. -/
theorem claimsAgree_editedOnce : ∃ st, run claimStep editedOnce
      [.claim 0 "S1" 10, .planCollapse none ["h1", "h2"], .finish 0 .pending,
        .planCollapse none ["h1", "h2"], .markCollapsed 1, .claim 1 "S2" 30,
        .finish 1 (.complete (some 5) "{}")] = some st ∧ ClaimsAgree st ∧
    (st.rows.get? "S1").map (·.supersededBySnapshotId) = some (some "S2") ∧
    st.written "S2" = true := by
  have hrun : ((run claimStep editedOnce
      [.claim 0 "S1" 10, .planCollapse none ["h1", "h2"], .finish 0 .pending,
        .planCollapse none ["h1", "h2"], .markCollapsed 1, .claim 1 "S2" 30,
        .finish 1 (.complete (some 5) "{}")]).map fun st =>
      ((st.rows.get? "S1").map (·.supersededBySnapshotId), st.written "S2")) =
      some (some (some "S2"), true) := by decide +kernel
  obtain ⟨st, hst, hview⟩ := Option.map_eq_some_iff.1 hrun
  obtain ⟨hmark, hwritten⟩ := Prod.mk.injEq .. ▸ hview
  exact ⟨st, hst, claimsAgree_of_stepsMeet editedOnce_opened (by decide +kernel)
    (List.append_nil _).symm hst, hmark, hwritten⟩

/-- **In general claims and marks do not agree**: a claim that is reset as stale and then collapsed
writes its claims all the same. -/
theorem claimed_then_collapsed : ¬ ∀ start actions st, Opened start →
    run claimStep start actions = some st → ClaimsAgree st := by
  intro hagree
  have hrun : ((run claimStep editedOnce
      [.claim 0 "S1" 10, .readStale 20, .resetStale 0, .planCollapse none ["h1", "h2"],
        .markCollapsed 0, .finish 0 (.complete none "{}")]).map fun st =>
      ((st.rows.get? "S1").map (·.supersededBySnapshotId), st.written "S1")) =
      some (some (some "S2"), true) := by decide +kernel
  obtain ⟨st, hst, hview⟩ := Option.map_eq_some_iff.1 hrun
  obtain ⟨hmark, hwritten⟩ := Prod.mk.injEq .. ▸ hview
  obtain ⟨row, hget, hsuperseded⟩ := Option.map_eq_some_iff.1 hmark
  obtain ⟨hrow, hid⟩ := Table.get?_eq_some.1 hget
  have hnone := (hagree _ _ st editedOnce_opened hst).written row hrow (hid ▸ hwritten)
  exact nomatch hsuperseded.symm.trans hnone

end ParticlesEngine
