/-
**Reindexing: re-extract, then retire.**

A reindex reads a snapshot again and then supersedes the claims the snapshot carried before.  The
two steps are joined by the outcome record that the extraction fills: a call that failed leaves the
snapshot PENDING, and a snapshot that another runner collapsed, that has no archive, or that waits
for another one is skipped before it is claimed.  An append-only entry is replayed instead, snapshot
by snapshot, and its claims are retired after the last step.

What the extractor replies and what the write pass stores are parameters, so the results hold of
every reply and of every write.

Main definitions:

* `extractSnapshot` — the extraction, as the reindex calls it;
* `reindexSnapshot`, `reindexAppendEntry` — `_reindex_snapshot` and `_reindex_append_entry`;
* `Extracted.Read` — the snapshot was read to completion;
* `Skips` — the extraction skips the snapshot;
* `SetSuperseded` — a claim was superseded between two stores.

Main results:

* `particles_of_notSkipped` — an extraction that read nothing leaves every claim as it was;
* `retires_only_read` — **a reindex retires only after a re-extraction, unless the extraction skips
  a snapshot that carries claims; a replay always does**.
-/

import Mathlib.Data.Prod.Lex
import Mathlib.Data.String.Basic
import ParticlesEngine.Generation
import ParticlesEngine.SortBy

set_option relaxedAutoImplicit false
set_option autoImplicit false

namespace ParticlesEngine

open SortBy

/-! ### Waiting absences -/

def MEMORY_FILE_TAG : String := "memory-file"

def MEMORY_ARCHIVE_TAG : String := "memory-archive"

def PROJECT_TAG_PREFIX : String := "project:"

/-- The statuses of a RESPONSE that still owes extraction. -/
def OWES_EXTRACTION : List ExtractionStatus := [.PENDING, .IN_PROGRESS, .FAILED]

/-- The unextracted memory-file snapshot a memory-file absence waits on. -/
structure AbsenceHolder where
  entryId : String
  snapshotId : String
  failed : Bool
  deriving DecidableEq, Repr

/-- An uncollapsed RESPONSE that owes extraction, of another memory file of the projects. -/
def SnapshotRow.holdsAbsence (store : Store) (entryId : String) (projects : List String)
    (row : SnapshotRow) : Bool :=
  row.warcRecordType = .RESPONSE && row.extractionStatus ∈ OWES_EXTRACTION &&
    row.supersededBySnapshotId = none &&
    (store.entries.get? row.entryId).any fun entry =>
      entry.entryId ≠ entryId && entry.mutability = .MUTABLE &&
        MEMORY_ARCHIVE_TAG ∉ entry.tags && (MEMORY_FILE_TAG :: projects).all (· ∈ entry.tags)

/-- Oldest first; the ids tell records captured at one instant apart. -/
def snapshotOrder (row : SnapshotRow) : Instant ×ₗ String ×ₗ String :=
  toLex (row.capturedAt, toLex (row.snapshotId, row.entryId))

/-- **`memory_absence_holder`**: the oldest snapshot a memory-file absence must wait for.  A file
that was itself deleted after the snapshot holds no absence back. -/
def memoryAbsenceHolder (store : Store) (entry : CorpusEntryRow) (capturedAt : Instant) :
    Option AbsenceHolder :=
  let projects := entry.tags.filter fun tag => PROJECT_TAG_PREFIX.toList.isPrefixOf tag.toList
  if MEMORY_FILE_TAG ∉ entry.tags || projects = [] then none
  else
    let held := store.snapshots.rows.filter fun row =>
      row.holdsAbsence store entry.entryId projects && row.capturedAt ≤ capturedAt
    let held := held.filter fun row => !store.snapshots.rows.any fun deleted =>
      deleted.entryId = row.entryId && deleted.warcRecordType = .ABSENT &&
        row.capturedAt < deleted.capturedAt
    (sortBy snapshotOrder held).head?.map fun row =>
      ⟨row.entryId, row.snapshotId, row.extractionStatus = .FAILED⟩

/-! ### The extraction -/

/-- Why a snapshot was never claimed. -/
inductive Skip where
  | superseded
  | noArchive
  | waiting
  deriving DecidableEq, Repr

/-- How an extraction went. -/
structure SnapshotOutcome where
  /-- calls that produced nothing usable; the snapshot was left PENDING -/
  failedCalls : ℕ := 0
  /-- set when the snapshot was never claimed -/
  skipped : Option Skip := none
  waitingOn : Option String := none
  waitingOnFailed : Bool := false
  waitingOnMemoryFile : Bool := false
  /-- set when the snapshot was an ABSENT record: the ids its processing retired -/
  absenceRetired : Option (List String) := none
  deriving DecidableEq, Repr

/-- What the snapshot is read as a delta from. -/
inductive AppendBase where
  /-- the latest earlier COMPLETE snapshot -/
  | auto
  /-- the named snapshot, or none: the snapshot is read whole -/
  | base (snapshotId : Option String)
  deriving DecidableEq, Repr

/-- What makes an extraction raise. -/
inductive ExtractError where
  | schemaMismatch
  | entryNotFound (entryId : String)
  | purposeRefused
  | snapshotNotFound (snapshotId : String)
  | blobMissing
  | extractor (message : String)
  | store (error : StoreError)
  deriving DecidableEq, Repr

/-- What the extractor answers. -/
structure ExtractReply where
  candidates : List Particle := []
  /-- existing claims whose chunk hashed as before -/
  carryForwardIds : List String := []
  transientErrorCount : ℕ := 0

/-- What the write pass leaves. -/
structure ExtractWritten where
  store : Store
  /-- the claims that duplicate candidates were folded into -/
  suppressedIds : List String := []

/-- The parts of an extraction outside the pipeline's control flow. -/
structure ExtractEnv where
  /-- `assert_store_schema_current` passes -/
  schemaCurrent : Store → Bool
  /-- `purpose_allowed("extraction")` -/
  extractionAllowed : Bool := true
  /-- the snapshot's blob is stored -/
  loadBlob : SnapshotRow → Bool := fun _ => true
  /-- the extractor's read of a snapshot, given the base and the claims to be superseded -/
  extract : Store → SnapshotRow → AppendBase → List String → Except String ExtractReply
  /-- the conflict resolution and the write of the candidates, the snapshot's COMPLETE included -/
  write : Store → SnapshotRow → List String → ExtractReply → Except StoreError ExtractWritten

/-- What an extraction leaves: the committed store, and what it reports. -/
structure Extracted where
  store : Store
  outcome : SnapshotOutcome := {}
  carryForwardIds : List String := []
  suppressedIds : List String := []
  raised : Option ExtractError := none

def updateExtractionStatus (store : Store) (snapshotId : String) (status : ExtractionStatus) :
    Store :=
  { store with
    snapshots := store.snapshots.modify snapshotId ({ · with extractionStatus := status })
      fun _ => rfl }

/-- `claim_snapshot_for_extraction`: IN_PROGRESS; a claim un-collapses. -/
def claimSnapshotForExtraction (store : Store) (snapshotId : String) : Store :=
  { store with
    snapshots := store.snapshots.modify snapshotId
      ({ · with extractionStatus := .IN_PROGRESS, supersededBySnapshotId := none }) fun _ => rfl }

/-- `release_extraction_claim`: an IN_PROGRESS claim goes back as PENDING. -/
def releaseExtractionClaim (store : Store) (snapshotId : String) : Store :=
  { store with
    snapshots := store.snapshots.modify snapshotId
      (fun row => { row with extractionStatus :=
        if row.extractionStatus = .IN_PROGRESS then .PENDING else row.extractionStatus })
      fun _ => rfl }

/-- `process_absence`: retire what the entry stated, and mark the record COMPLETE. -/
def processAbsence (table : TransitionTable) (now : Instant) (store : Store)
    (entryId snapshotId : String) : Except StoreError (Store × List String) := do
  let result ← cascadeSupersededGeneration table now store entryId snapshotId [] true
    "extract-absence"
  return (updateExtractionStatus result.store snapshotId .COMPLETE, result.demoted)

section Extract

variable (env : ExtractEnv) (table : TransitionTable) (now : Instant)

/-- The ABSENT record is dispatched before an extractor is chosen: it makes no call. -/
def extractAbsent (store : Store) (entry : CorpusEntryRow) (absent : SnapshotRow) : Extracted :=
  if absent.supersededBySnapshotId.getD "" ≠ "" then
    { store := store, outcome := { skipped := some .superseded } }
  else if absent.extractionStatus = .COMPLETE then
    { store := store, outcome := { absenceRetired := some [] } }
  else
    match memoryAbsenceHolder store entry absent.capturedAt with
    | some sibling =>
        { store := store
          outcome :=
            { skipped := some .waiting
              waitingOn := some sibling.snapshotId
              waitingOnFailed := sibling.failed
              waitingOnMemoryFile := true } }
    | none =>
        match processAbsence table now store entry.entryId absent.snapshotId with
        | .error error => { store := store, raised := some (.store error) }
        | .ok (store, retired) => { store := store, outcome := { absenceRetired := some retired } }

/-- `_extract_claimed`, under `ignore_partial`: nothing of a failed read is kept. -/
def extractClaimed (store : Store) (snapshot : SnapshotRow) (appendBase : AppendBase)
    (supersedeIds : List String) : Extracted :=
  let id := snapshot.snapshotId
  if env.loadBlob snapshot then
    match env.extract store snapshot appendBase supersedeIds with
    | .error message =>
        { store := releaseExtractionClaim store id, raised := some (.extractor message) }
    | .ok reply =>
        if reply.transientErrorCount ≠ 0 then
          { store := updateExtractionStatus store id .PENDING
            outcome := { failedCalls := reply.transientErrorCount }
            carryForwardIds := reply.carryForwardIds }
        else
          match env.write store snapshot supersedeIds reply with
          | .error error =>
              { store := releaseExtractionClaim store id, raised := some (.store error) }
          | .ok written =>
              { store := written.store
                carryForwardIds := reply.carryForwardIds
                suppressedIds := written.suppressedIds }
  else { store := updateExtractionStatus store id .FAILED, raised := some .blobMissing }

/-- **`extract_snapshot`**, as the reindex calls it: with `skip_if_superseded` and
`ignore_partial`, so that it never waits for a partial read of the entry. -/
def extractSnapshot (store : Store) (entryId snapshotId : String) (appendBase : AppendBase)
    (supersedeIds : List String) : Extracted :=
  if !env.schemaCurrent store then { store := store, raised := some .schemaMismatch }
  else
    match store.entries.get? entryId with
    | none => { store := store, raised := some (.entryNotFound entryId) }
    | some entry =>
        match (store.snapshots.get? snapshotId).filter (·.entryId = entryId) with
        | none =>
            { store := store
              raised := some
                (if env.extractionAllowed then .snapshotNotFound snapshotId else .purposeRefused) }
        | some snapshot =>
            if snapshot.warcRecordType = .ABSENT then
              extractAbsent table now store entry snapshot
            else if !env.extractionAllowed then { store := store, raised := some .purposeRefused }
            else if snapshot.archivePath = none then
              { store := store, outcome := { skipped := some .noArchive } }
            -- checked before the claim, because the claim un-collapses
            else if snapshot.supersededBySnapshotId ≠ none then
              { store := store, outcome := { skipped := some .superseded } }
            else
              extractClaimed env (claimSnapshotForExtraction store snapshotId) snapshot appendBase
                supersedeIds

end Extract

/-! ### The reindex -/

/-- `get_active_particles_for_entry`. -/
def getActiveParticlesForEntry (store : Store) (corpusEntryId : String) : List Particle :=
  (store.particles.rows.filter fun row => row.model.status = .ACTIVE &&
    store.edges.rows.any fun edge => edge.particleId = row.id &&
      edge.corpusEntryId = corpusEntryId).map ParticleRow.toModel

/-- `p.supersedes` names a claim that a re-anchor replaced: `p` is its restatement. -/
def reanchored (store : Store) (p : Particle) : Bool :=
  p.supersedes.any fun prior =>
    (store.get? prior).any fun row => row.model.statusReason = some .SUPERSEDED_BY_REANCHOR

/-- The claims a reindex of one snapshot replaces: the ACTIVE ones that cite it, but for the
restatements, which are not the extractor's product. -/
def toSupersede (store : Store) (entryId snapshotId : String) : List Particle :=
  (getActiveParticlesForEntry store entryId).filter fun p =>
    (p.provenance.any fun ref => ref.snapshotId = some snapshotId) && !reanchored store p

/-- The claims a replay of an append-only entry replaces. -/
def toRetire (store : Store) (entryId : String) : List Particle :=
  (getActiveParticlesForEntry store entryId).filter fun p =>
    p.extractorRef.isSome &&
      (p.provenance.any fun ref => ref.type = .SOURCE && ref.corpusEntryId = entryId) &&
      !reanchored store p

/-- What makes a reindex raise. -/
inductive ReindexError where
  | extraction (error : ExtractError)
  /-- the re-extraction left the snapshot PENDING; nothing was retired -/
  | failedCalls (snapshotId : String) (failed : ℕ)
  /-- the replay stopped at the snapshot; nothing was retired -/
  | replayStopped (snapshotId : String) (outcome : SnapshotOutcome)
  | store (error : StoreError)
  deriving DecidableEq, Repr

def REINDEX_ACTOR : String := "reindex"

/-- What a retirement leaves. -/
structure ReindexRetired where
  store : Store
  retired : List String := []
  event : Option ClaimsRetired := none
  raised : Option ReindexError := none

/-- The retirement at the end of a reindex: the claims that were neither carried forward nor the
target of a suppression become SUPERSEDED.  One that cannot move undoes the others. -/
def retireReplaced (table : TransitionTable) (now : Instant) (store : Store)
    (replaced : List Particle) (kept : List String) (entryId : String)
    (snapshotId : Option String) : ReindexRetired :=
  let retired := (replaced.map Particle.id).filter (· ∉ kept)
  match retireAll table now .SUPERSEDED (some .SUPERSEDED_BY_REINDEX) store retired with
  | .error error => { store := store, raised := some (.store error) }
  | .ok store' =>
      { store := store'
        retired := retired
        event := recordClaimsRetired
          { actor := REINDEX_ACTOR
            route := "reindex"
            retiredIds := retired
            status := .SUPERSEDED
            statusReason := some .SUPERSEDED_BY_REINDEX
            reason := "reindex: the claim was replaced by a re-extraction of its source"
            entryId := some entryId
            snapshotId := snapshotId } }

/-- What a reindex of one snapshot did: its extraction, and its retirement. -/
structure Reindexed where
  extracted : Extracted
  result : ReindexRetired

/-- **`_reindex_snapshot`**: re-extract first, then supersede. -/
def reindexSnapshot (env : ExtractEnv) (table : TransitionTable) (now : Instant) (store : Store)
    (entryId snapshotId : String) : Reindexed :=
  let replaced := toSupersede store entryId snapshotId
  let extracted := extractSnapshot env table now store entryId snapshotId .auto
    (replaced.map Particle.id)
  { extracted := extracted
    result :=
      match extracted.raised with
      | some error => { store := extracted.store, raised := some (.extraction error) }
      | none =>
          -- only a failed call is checked here, not a skip
          if extracted.outcome.failedCalls ≠ 0 then
            { store := extracted.store
              raised := some (.failedCalls snapshotId extracted.outcome.failedCalls) }
          else
            retireReplaced table now extracted.store replaced
              (extracted.carryForwardIds ++ extracted.suppressedIds) entryId (some snapshotId) }

/-- The steps of a replay. -/
structure Replayed where
  /-- the store after the last step made -/
  store : Store
  steps : List Extracted := []
  raised : Option ReindexError := none

/-- The ids a replay keeps: what its steps carried forward and suppressed into. -/
def Replayed.kept (replayed : Replayed) : List String :=
  replayed.steps.flatMap Extracted.carryForwardIds ++ replayed.steps.flatMap Extracted.suppressedIds

/-- The loop of `_reindex_append_entry`: each snapshot is read as a delta from the one before, and a
step that fails or is skipped stops it. -/
def replaySnapshots (env : ExtractEnv) (table : TransitionTable) (now : Instant) (entryId : String)
    (supersedeIds : List String) : Option String → List String → Store → Replayed
  | _, [], store => { store := store }
  | previous, snapshotId :: snapshotIds, store =>
      let extracted := extractSnapshot env table now store entryId snapshotId (.base previous)
        supersedeIds
      match extracted.raised with
      | some error =>
          { store := extracted.store
            steps := [extracted]
            raised := some (.extraction error) }
      | none =>
          if extracted.outcome.failedCalls ≠ 0 ∨ extracted.outcome.skipped ≠ none then
            { store := extracted.store
              steps := [extracted]
              raised := some (.replayStopped snapshotId extracted.outcome) }
          else
            let rest := replaySnapshots env table now entryId supersedeIds (some snapshotId)
              snapshotIds extracted.store
            { rest with steps := extracted :: rest.steps }

/-- What a replay of an entry did. -/
structure ReindexedEntry where
  replayed : Replayed
  result : ReindexRetired

/-- **`_reindex_append_entry`**: replay the snapshots in order, then supersede. -/
def reindexAppendEntry (env : ExtractEnv) (table : TransitionTable) (now : Instant) (store : Store)
    (entryId : String) (snapshotIds : List String) : ReindexedEntry :=
  let replaced := toRetire store entryId
  let replayed := replaySnapshots env table now entryId (replaced.map Particle.id) none snapshotIds
    store
  { replayed := replayed
    result :=
      match replayed.raised with
      | some error => { store := replayed.store, raised := some error }
      | none => retireReplaced table now replayed.store replaced replayed.kept entryId none }

/-! ### What an extraction that read nothing leaves -/

/-- The snapshot was read to completion: nothing raised, and the outcome reports neither a skip nor
a failed call. -/
def Extracted.Read (extracted : Extracted) : Prop :=
  extracted.raised = none ∧ extracted.outcome.skipped = none ∧ extracted.outcome.failedCalls = 0

/-- The extraction skips the snapshot: an ABSENT record that was collapsed or that waits for a
memory file, or a record with no archive or that was collapsed. -/
def Skips (env : ExtractEnv) (store : Store) (entryId snapshotId : String) : Prop :=
  env.schemaCurrent store = true ∧ ∃ entry snapshot, store.entries.get? entryId = some entry ∧
    store.snapshots.get? snapshotId = some snapshot ∧ snapshot.entryId = entryId ∧
    ((snapshot.warcRecordType = .ABSENT ∧
        (snapshot.supersededBySnapshotId.getD "" ≠ "" ∨
          snapshot.extractionStatus ≠ .COMPLETE ∧
            memoryAbsenceHolder store entry snapshot.capturedAt ≠ none)) ∨
      (snapshot.warcRecordType ≠ .ABSENT ∧ env.extractionAllowed = true ∧
        (snapshot.archivePath = none ∨ snapshot.supersededBySnapshotId ≠ none)))

/-- A skip: the outcome says so, and nothing else happened. -/
def Skipped (store : Store) (extracted : Extracted) : Prop :=
  ∃ outcome : SnapshotOutcome, outcome.skipped ≠ none ∧ outcome.failedCalls = 0 ∧
    extracted = { store := store, outcome := outcome }

/-- No skip: the snapshot was read, or every claim is as it was. -/
def NotSkipped (store : Store) (extracted : Extracted) : Prop :=
  extracted.outcome.skipped = none ∧
    (extracted.Read ∨ extracted.store.particles = store.particles)

section Extract

variable (env : ExtractEnv) (table : TransitionTable) (now : Instant)

theorem extractAbsent_cases (store : Store) (entry : CorpusEntryRow) (absent : SnapshotRow) :
    ((absent.supersededBySnapshotId.getD "" ≠ "" ∨
        absent.extractionStatus ≠ .COMPLETE ∧
          memoryAbsenceHolder store entry absent.capturedAt ≠ none) ∧
        Skipped store (extractAbsent table now store entry absent)) ∨
      (¬ (absent.supersededBySnapshotId.getD "" ≠ "" ∨
        absent.extractionStatus ≠ .COMPLETE ∧
          memoryAbsenceHolder store entry absent.capturedAt ≠ none) ∧
        NotSkipped store (extractAbsent table now store entry absent)) := by
  unfold extractAbsent
  split_ifs with hsuperseded hcomplete
  · exact Or.inl ⟨Or.inl hsuperseded, _, by simp, rfl, rfl⟩
  · exact Or.inr ⟨by tauto, rfl, Or.inr rfl⟩
  · cases hholder : memoryAbsenceHolder store entry absent.capturedAt with
    | some sibling => exact Or.inl ⟨Or.inr ⟨hcomplete, by simp⟩, _, by simp, rfl, rfl⟩
    | none =>
        refine Or.inr ⟨by tauto, ?_⟩
        cases processAbsence table now store entry.entryId absent.snapshotId with
        | error error => exact ⟨rfl, Or.inr rfl⟩
        | ok processed => exact ⟨rfl, Or.inl ⟨rfl, rfl, rfl⟩⟩

/-- Once claimed, a snapshot is read, or its extraction changes no claim. -/
theorem notSkipped_extractClaimed (store : Store) (snapshot : SnapshotRow)
    (appendBase : AppendBase) (supersedeIds : List String) :
    NotSkipped store (extractClaimed env store snapshot appendBase supersedeIds) := by
  unfold extractClaimed
  split_ifs with hblob
  · cases env.extract store snapshot appendBase supersedeIds with
    | error message => exact ⟨rfl, Or.inr rfl⟩
    | ok reply =>
        by_cases hfailed : reply.transientErrorCount ≠ 0
        · simp only [if_pos hfailed]
          exact ⟨rfl, Or.inr rfl⟩
        · simp only [if_neg hfailed]
          cases env.write store snapshot supersedeIds reply with
          | error error => exact ⟨rfl, Or.inr rfl⟩
          | ok written => exact ⟨rfl, Or.inl ⟨rfl, rfl, rfl⟩⟩
  · exact ⟨rfl, Or.inr rfl⟩

/-- **An extraction skips the snapshot and does nothing, or it reads it, or it leaves every claim as
it was.** -/
theorem extractSnapshot_cases (store : Store) (entryId snapshotId : String)
    (appendBase : AppendBase) (supersedeIds : List String) :
    (Skips env store entryId snapshotId ∧
        Skipped store
          (extractSnapshot env table now store entryId snapshotId appendBase supersedeIds)) ∨
      (¬ Skips env store entryId snapshotId ∧
        NotSkipped store
          (extractSnapshot env table now store entryId snapshotId appendBase supersedeIds)) := by
  unfold extractSnapshot
  cases hschema : env.schemaCurrent store with
  | false => exact Or.inr ⟨by simp [Skips, hschema], rfl, Or.inr rfl⟩
  | true =>
      cases hentry : store.entries.get? entryId with
      | none => exact Or.inr ⟨by simp [Skips, hentry], rfl, Or.inr rfl⟩
      | some entry =>
          have hid : entry.entryId = entryId := Table.key_of_get? hentry
          cases hsnapshot : (store.snapshots.get? snapshotId).filter (·.entryId = entryId) with
          | none =>
              refine Or.inr ⟨?_, rfl, Or.inr rfl⟩
              rintro ⟨-, -, snapshot, -, hget, hsame, -⟩
              simp [hget, hsame] at hsnapshot
          | some snapshot =>
              obtain ⟨hget, hsame⟩ := Option.filter_eq_some_iff.1 hsnapshot
              have hskips : Skips env store entryId snapshotId ↔ _ :=
                ⟨fun h => by
                    obtain ⟨-, entry', snapshot', hentry', hget', -, h⟩ := h
                    obtain rfl := Option.some.inj (hentry.symm.trans hentry')
                    obtain rfl := Option.some.inj (hget.symm.trans hget')
                    exact h,
                  fun h => ⟨hschema, entry, snapshot, hentry, hget, by simpa using hsame, h⟩⟩
              rw [hskips]
              simp only [Bool.not_true, Bool.false_eq_true, if_false]
              split_ifs with habsent hallowed harchive hsuperseded
              · simpa [habsent] using extractAbsent_cases table now store entry snapshot
              · exact Or.inr ⟨by simp_all, rfl, Or.inr rfl⟩
              · exact Or.inl ⟨Or.inr ⟨habsent, by simpa using hallowed, Or.inl harchive⟩,
                  _, by simp, rfl, rfl⟩
              · exact Or.inl ⟨Or.inr ⟨habsent, by simpa using hallowed, Or.inr hsuperseded⟩,
                  _, by simp, rfl, rfl⟩
              · refine Or.inr ⟨by tauto, ?_⟩
                exact notSkipped_extractClaimed env (claimSnapshotForExtraction store snapshotId)
                  snapshot appendBase supersedeIds

end Extract

/-! ### Retiring only after a read -/

/-- The claim with the id was superseded between the two stores. -/
def SetSuperseded (before after : Store) (id : String) : Prop :=
  ∃ row row', before.get? id = some row ∧ row.model.status ≠ .SUPERSEDED ∧
    after.get? id = some row' ∧ row'.model.status = .SUPERSEDED

/-- Where no claim changed, none was superseded. -/
theorem not_setSuperseded {before after : Store} (h : after.particles = before.particles)
    (id : String) : ¬ SetSuperseded before after id := by
  rintro ⟨row, row', hrow, hnot, hrow', hsuperseded⟩
  have hget : after.get? id = before.get? id := by rw [Store.get?, Store.get?, h]
  rw [hget, hrow] at hrow'
  obtain rfl := Option.some.inj hrow'
  exact hnot hsuperseded

theorem particles_of_notSkipped {store : Store} {extracted : Extracted}
    (h : NotSkipped store extracted) (hread : ¬ extracted.Read) :
    extracted.store.particles = store.particles :=
  h.2.resolve_left hread

theorem mem_getActiveParticlesForEntry {store : Store} {corpusEntryId : String} {p : Particle}
    (h : p ∈ getActiveParticlesForEntry store corpusEntryId) :
    ∃ row, store.get? p.id = some row ∧ row.model = p ∧ p.status = .ACTIVE := by
  obtain ⟨row, hrow, rfl⟩ := List.mem_map.1 h
  obtain ⟨hmem, hactive⟩ := List.mem_filter.1 hrow
  refine ⟨row, ParticleTable.get?_id hmem, rfl, ?_⟩
  rw [Bool.and_eq_true, decide_eq_true_eq] at hactive
  exact hactive.1

theorem nodup_getActiveParticlesForEntry (store : Store) (corpusEntryId : String) :
    ((getActiveParticlesForEntry store corpusEntryId).map Particle.id).Nodup := by
  rw [getActiveParticlesForEntry, List.map_map]
  exact (List.filter_sublist.map _).nodup store.particles.table.nodup

theorem nodup_toSupersede (store : Store) (entryId snapshotId : String) :
    ((toSupersede store entryId snapshotId).map Particle.id).Nodup :=
  (List.filter_sublist.map _).nodup (nodup_getActiveParticlesForEntry store entryId)

/-- With nothing to replace, a retirement changes nothing. -/
theorem store_retireReplaced_nil (table : TransitionTable) (now : Instant) (store : Store)
    (kept : List String) (entryId : String) (snapshotId : Option String) :
    (retireReplaced table now store [] kept entryId snapshotId).store = store := rfl

/-- With nothing kept, every claim to be replaced that is still ACTIVE is superseded. -/
theorem setSuperseded_retireReplaced (table : TransitionTable) (now : Instant) {store : Store}
    {entryId snapshotId : String} {p : Particle} (hp : p ∈ toSupersede store entryId snapshotId)
    (citing : Option String) :
    SetSuperseded store (retireReplaced table now store (toSupersede store entryId snapshotId) []
      entryId citing).store p.id := by
  have hactive : ∀ id ∈ (toSupersede store entryId snapshotId).map Particle.id,
      ∃ row, store.get? id = some row ∧ row.model.status = .ACTIVE := by
    intro id hid
    obtain ⟨q, hq, rfl⟩ := List.mem_map.1 hid
    obtain ⟨row, hrow, rfl, hstatus⟩ :=
      mem_getActiveParticlesForEntry (List.mem_filter.1 hq).1
    exact ⟨row, hrow, hstatus⟩
  obtain ⟨store', hretired, -, hget⟩ := retireAll_of_allowed table now .SUPERSEDED
    (some .SUPERSEDED_BY_REINDEX) (by decide) (nodup_toSupersede store entryId snapshotId)
    fun id hid => by
      obtain ⟨row, hrow, hstatus⟩ := hactive id hid
      refine ⟨row, hrow, ?_⟩
      rw [hstatus]
      exact (table.from_active _).2 (Or.inl rfl)
  have hmem := List.mem_map_of_mem (f := Particle.id) hp
  obtain ⟨row, hrow, hstatus⟩ := hactive _ hmem
  have hstore : (retireReplaced table now store (toSupersede store entryId snapshotId) [] entryId
      citing).store = store' := by
    simp [retireReplaced, hretired]
  refine ⟨row, row.withStatus now .SUPERSEDED (some .SUPERSEDED_BY_REINDEX), hrow, ?_, ?_, rfl⟩
  · simp [hstatus]
  · rw [hstore, hget, if_pos hmem, hrow, Option.map_some]

section Law

variable (env : ExtractEnv) (table : TransitionTable) (now : Instant) (store : Store)

/-- A reindex whose extraction was not skipped retires only after a read. -/
theorem read_of_notSkipped {entryId snapshotId id : String}
    (hcase : NotSkipped store (reindexSnapshot env table now store entryId snapshotId).extracted)
    (hset : SetSuperseded store
      (reindexSnapshot env table now store entryId snapshotId).result.store id) :
    (reindexSnapshot env table now store entryId snapshotId).extracted.Read := by
  by_contra hread
  have hsame := particles_of_notSkipped hcase hread
  refine not_setSuperseded ?_ id hset
  unfold reindexSnapshot at hread hcase hsame ⊢
  simp only at hread hcase hsame ⊢
  cases hraised : (extractSnapshot env table now store entryId snapshotId .auto
      ((toSupersede store entryId snapshotId).map Particle.id)).raised with
  | some error => exact hsame
  | none =>
      have hfailed : (extractSnapshot env table now store entryId snapshotId .auto
          ((toSupersede store entryId snapshotId).map Particle.id)).outcome.failedCalls ≠ 0 :=
        fun hzero => hread ⟨hraised, hcase.1, hzero⟩
      simp only [if_pos hfailed]
      exact hsame

/-- **A reindex of a snapshot retires only after a re-extraction, exactly unless the extraction
skips the snapshot and there are claims to retire.** -/
theorem reindexSnapshot_law (entryId snapshotId : String) :
    (∀ id, SetSuperseded store
        (reindexSnapshot env table now store entryId snapshotId).result.store id →
      (reindexSnapshot env table now store entryId snapshotId).extracted.Read) ↔
      (¬ Skips env store entryId snapshotId ∨ toSupersede store entryId snapshotId = []) := by
  rcases extractSnapshot_cases env table now store entryId snapshotId .auto
      ((toSupersede store entryId snapshotId).map Particle.id) with
    ⟨hskips, hskipped⟩ | ⟨hskips, hcase⟩
  · obtain ⟨outcome, hskip, hfailed, hextracted⟩ := hskipped
    have hreindexed : reindexSnapshot env table now store entryId snapshotId =
        { extracted := { store := store, outcome := outcome }
          result := retireReplaced table now store (toSupersede store entryId snapshotId) []
            entryId (some snapshotId) } := by
      simp [reindexSnapshot, hextracted, hfailed]
    have hunread : ¬ (reindexSnapshot env table now store entryId snapshotId).extracted.Read := by
      rw [hreindexed]
      exact fun hread => hskip hread.2.1
    constructor
    · intro hlaw
      right
      by_contra hclaims
      obtain ⟨p, hp⟩ := List.exists_mem_of_ne_nil _ hclaims
      refine hunread (hlaw p.id ?_)
      rw [hreindexed]
      exact setSuperseded_retireReplaced table now hp _
    · rintro (hnot | hclaims) id hset
      · exact absurd hskips hnot
      · rw [hreindexed, hclaims, store_retireReplaced_nil] at hset
        exact absurd hset (not_setSuperseded rfl id)
  · constructor
    · exact fun _ => Or.inl hskips
    · intro _ id hset
      exact read_of_notSkipped env table now store hcase hset

/-! ### The replay -/

/-- The steps of a replay that went on to the end were all read; one that read nothing changed no
claim. -/
theorem replaySnapshots_spec (entryId : String) (supersedeIds : List String)
    (previous : Option String) (snapshotIds : List String) :
    ((replaySnapshots env table now entryId supersedeIds previous snapshotIds store).raised = none →
      (replaySnapshots env table now entryId supersedeIds previous snapshotIds
        store).steps.length = snapshotIds.length ∧
      ∀ step ∈ (replaySnapshots env table now entryId supersedeIds previous snapshotIds
        store).steps, step.Read) ∧
    ((∀ step ∈ (replaySnapshots env table now entryId supersedeIds previous snapshotIds
        store).steps, ¬ step.Read) →
      (replaySnapshots env table now entryId supersedeIds previous snapshotIds
        store).store.particles = store.particles) := by
  induction snapshotIds generalizing previous store with
  | nil => exact ⟨fun _ => ⟨rfl, by simp [replaySnapshots]⟩, fun _ => rfl⟩
  | cons snapshotId snapshotIds ih =>
      have hcases := extractSnapshot_cases env table now store entryId snapshotId (.base previous)
        supersedeIds
      set extracted := extractSnapshot env table now store entryId snapshotId (.base previous)
        supersedeIds with hextracted
      -- a step that read nothing leaves every claim as it was
      have hunread : ¬ extracted.Read → extracted.store.particles = store.particles := by
        rcases hcases with ⟨-, outcome, -, -, hskipped⟩ | ⟨-, hcase⟩
        · intro _
          rw [hskipped]
        · exact particles_of_notSkipped hcase
      rw [replaySnapshots, ← hextracted]
      cases hraised : extracted.raised with
      | some error => exact ⟨by simp, fun hsteps => hunread (hsteps _ (by simp))⟩
      | none =>
          by_cases hstop : extracted.outcome.failedCalls ≠ 0 ∨ extracted.outcome.skipped ≠ none
          · simp only [if_pos hstop]
            exact ⟨by simp, fun hsteps => hunread (hsteps _ (by simp))⟩
          · simp only [if_neg hstop]
            obtain ⟨hend, hnone⟩ := ih extracted.store (some snapshotId)
            have hread : extracted.Read := ⟨hraised, by tauto, by tauto⟩
            constructor
            · intro hrest
              obtain ⟨hlength, hall⟩ := hend hrest
              refine ⟨by simp [hlength], ?_⟩
              rintro step (_ | ⟨_, hstep⟩)
              · exact hread
              · exact hall step hstep
            · exact fun hsteps => absurd hread (hsteps _ (by simp))

/-- **A replay retires only after every snapshot was read, and supersedes nothing unless one
was.** -/
theorem reindexAppendEntry_law (entryId : String) {snapshotIds : List String}
    (hsnapshots : snapshotIds ≠ []) (id : String) :
    (SetSuperseded (reindexAppendEntry env table now store entryId snapshotIds).replayed.store
        (reindexAppendEntry env table now store entryId snapshotIds).result.store id →
      (reindexAppendEntry env table now store entryId snapshotIds).replayed.steps.length =
          snapshotIds.length ∧
        ∀ step ∈ (reindexAppendEntry env table now store entryId snapshotIds).replayed.steps,
          step.Read) ∧
    (SetSuperseded store (reindexAppendEntry env table now store entryId snapshotIds).result.store
        id →
      ∃ step ∈ (reindexAppendEntry env table now store entryId snapshotIds).replayed.steps,
        step.Read) := by
  obtain ⟨hend, hnone⟩ := replaySnapshots_spec env table now store entryId
    ((toRetire store entryId).map Particle.id) none snapshotIds
  unfold reindexAppendEntry
  simp only
  set replayed := replaySnapshots env table now entryId ((toRetire store entryId).map Particle.id)
    none snapshotIds store with hreplayed
  cases hraised : replayed.raised with
  | some error =>
      refine ⟨fun hset => absurd hset (not_setSuperseded rfl id), fun hset => ?_⟩
      by_contra hunread
      push Not at hunread
      exact not_setSuperseded (hnone hunread) id hset
  | none =>
      obtain ⟨hlength, hread⟩ := hend hraised
      refine ⟨fun _ => ⟨hlength, hread⟩, fun _ => ?_⟩
      have hsteps : replayed.steps ≠ [] := by
        intro hempty
        rw [hempty, List.length_nil] at hlength
        exact hsnapshots (List.length_eq_zero_iff.1 hlength.symm)
      obtain ⟨step, hstep⟩ := List.exists_mem_of_ne_nil _ hsteps
      exact ⟨step, hstep, hread step hstep⟩

/-- **Reindex retires only after a re-extraction, exactly where no skip is ignored.**  A reindex of
a snapshot supersedes a claim only when the same call read the snapshot to completion, if and only
if the extraction does not skip the snapshot or there is no claim to retire; and a replay, which
checks for a skip, retires only after every snapshot was read to completion and supersedes nothing
unless one was. -/
theorem retires_only_read (entryId : String) :
    (∀ snapshotId,
      (∀ id, SetSuperseded store
          (reindexSnapshot env table now store entryId snapshotId).result.store id →
        (reindexSnapshot env table now store entryId snapshotId).extracted.Read) ↔
        (¬ Skips env store entryId snapshotId ∨ toSupersede store entryId snapshotId = [])) ∧
    ∀ snapshotIds, snapshotIds ≠ [] → ∀ id,
      (SetSuperseded (reindexAppendEntry env table now store entryId snapshotIds).replayed.store
          (reindexAppendEntry env table now store entryId snapshotIds).result.store id →
        (reindexAppendEntry env table now store entryId snapshotIds).replayed.steps.length =
            snapshotIds.length ∧
          ∀ step ∈ (reindexAppendEntry env table now store entryId snapshotIds).replayed.steps,
            step.Read) ∧
      (SetSuperseded store
          (reindexAppendEntry env table now store entryId snapshotIds).result.store id →
        ∃ step ∈ (reindexAppendEntry env table now store entryId snapshotIds).replayed.steps,
          step.Read) :=
  ⟨reindexSnapshot_law env table now store entryId,
    fun _ hsnapshots => reindexAppendEntry_law env table now store entryId hsnapshots⟩

end Law

/-- An extractor that answers every read with nothing, and a write pass that stores nothing. -/
def silentEnv : ExtractEnv where
  schemaCurrent := fun _ => true
  extract := fun _ _ _ _ => .ok {}
  write := fun store snapshot _ _ =>
    .ok { store := updateExtractionStatus store snapshot.snapshotId .COMPLETE }

/-- The snapshot `E1`, which the claim `p` cites, was collapsed onto `E2` and is COMPLETE. -/
def collapsedStore : Store :=
  (generationStore []
    [{ responseRow "E1" "E" 1 .COMPLETE with
        supersededBySnapshotId := some "E2", archivePath := some "e1.warc" },
      { responseRow "E2" "E" 2 .PENDING with archivePath := some "e2.warc" }]
    [⟨.SOURCE, "E", "E1", none, none⟩]).getD {}

/-- The APPEND_ONLY entry `E`, whose snapshot `E1` an extractor read the claim `p` from. -/
def appendStore : Store :=
  (do
    let entry : CorpusEntryRow := { entryId := "E", mutability := .APPEND_ONLY }
    let snapshot := { responseRow "E1" "E" 1 .COMPLETE with archivePath := some "e1.warc" }
    let entries ← Table.insert? .empty entry
    let snapshots ← Table.insert? .empty snapshot
    if hids : entries.get? "" = none then
      let store : Store := { entries := entries, snapshots := snapshots, entryIds := hids }
      let p : Particle :=
        { id := "p"
          content := "p"
          provenance := [⟨.SOURCE, "E", "E1", none, none⟩]
          extractorRef := some ⟨"general", "1"⟩ }
      (insertParticle id "m" store p none).toOption
    else none).getD {}

theorem retires_only_read_append :
    SetSuperseded appendStore
        (reindexAppendEntry silentEnv .documented 5 appendStore "E" ["E1"]).result.store "p" ∧
      ∃ step ∈ (reindexAppendEntry silentEnv .documented 5 appendStore "E" ["E1"]).replayed.steps,
        step.Read := by
  have hset : SetSuperseded appendStore
      (reindexAppendEntry silentEnv .documented 5 appendStore "E" ["E1"]).result.store "p" :=
    ⟨_, _, rfl, by decide, rfl, by decide⟩
  have hlaw := retires_only_read silentEnv .documented 5 appendStore "E"
  exact ⟨hset, (hlaw.2 ["E1"] (by decide) "p").2 hset⟩

/-- **A skipped reindex retires unread claims**: `E1` is skipped as superseded, and `p` is retired
without a read. -/
theorem retires_unread :
    (reindexSnapshot silentEnv .documented 5 collapsedStore "E" "E1").extracted.outcome.skipped =
        some .superseded ∧
      SetSuperseded collapsedStore
        (reindexSnapshot silentEnv .documented 5 collapsedStore "E" "E1").result.store "p" ∧
      ¬ (reindexSnapshot silentEnv .documented 5 collapsedStore "E" "E1").extracted.Read := by
  refine ⟨by decide, ⟨_, _, rfl, by decide, rfl, by decide⟩, ?_⟩
  rintro ⟨-, hskipped, -⟩
  exact absurd hskipped (by decide)

end ParticlesEngine
