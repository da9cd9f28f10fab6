/-
**The order of an update.**

`update_order` of `ingest/update_supersession.py` says which of two contradicting claims is the newer
value: both must be extracted, of one lineage that trust cannot tell apart, and dated by their
sources.  Several of its lineage tests read the new side only, and rest on the equalities tested
before them.

Main definitions:

* `SourceEntry`, `Snapshot`, `DateTime` — what the order reads of a source;
* `updateOrder` — `update_order`;
* `Qualifies` — the pairs it orders, with their two dates;
* `NewerThan` — one claim is strictly newer than another, each dated by one date.

Main results:

* `updateOrder_eq_some` — when a pair is ordered, and how;
* `Qualifies.symm` — **the tests do not depend on which side is called new**;
* `updateOrder_antisymm_acyclic` — **the order is antisymmetric, and no chain of strictly newer claims
  returns to one of its claims**.
-/

import Mathlib.Data.List.Chain
import Mathlib.Data.String.Basic
import ParticlesEngine.InterchangeImport
import ParticlesEngine.SortBy

set_option relaxedAutoImplicit false
set_option autoImplicit false

open SortBy

namespace ParticlesEngine

/-! ### Sources -/

/-- A `datetime`: the time on its clock in microseconds, and the clock's offset from UTC unless the
value is naive. -/
structure DateTime where
  wall : ℤ
  offset : Option ℤ := none
  deriving DecidableEq, Repr

/-- `_as_aware`: a naive value is in UTC. -/
def DateTime.asAware (value : DateTime) : DateTime := { value with offset := some (value.offset.getD 0) }

/-- The instant of an aware value, by which two of them compare. -/
def DateTime.utc (value : DateTime) : Instant := value.wall - value.offset.getD 0

/-- A captured record, as far as the order reads it. -/
structure Snapshot where
  snapshotId : String
  authorId : Option String := none
  contentPublishedAt : Option DateTime := none
  deriving DecidableEq, Repr

/-- A `CorpusEntry` with its captured records, as far as the order reads it. -/
structure SourceEntry where
  entryId : String
  uriR : Option String := none
  sourceType : String := ""
  contributors : Option (List ContributorRef) := none
  tags : Option (List String) := none
  depositedBy : String := ""
  snapshots : List Snapshot := []
  deriving DecidableEq, Repr

/-- A particle with how its confidence was set. -/
structure SourcedParticle extends Particle where
  calibrationSource : CalibrationSource := .EXTRACTOR_DIRECT
  deriving DecidableEq

/-- What the update rung takes from other packages. -/
structure UpdateCore where
  /-- `urlparse(uri).netloc`; nothing where `urlparse` raises `ValueError` -/
  netloc : String → Option String
  /-- `particles.core.reanchor` -/
  isReanchorRestatement : SourcedParticle → Bool
  /-- `particles.core.conflict_resolution`: the newer of the existing and the new claim, as the order
  says it, is not ALEATORY -/
  newerIsSettled : SourcedParticle → SourcedParticle → ℤ → Bool

/-- `is_extractor_asserted`. -/
def isExtractorAsserted (particle : SourcedParticle) : Bool :=
  if particle.calibrationSource ∈ [.HUMAN_REVIEW, .AGENT_ASSERTED] then false
  else if particle.assertedBy.startsWith MCP_ASSERTER_PREFIX then false
  else particle.provenance.any fun ref => ref.type = .SOURCE

/-- The tag of a rule file's entry. -/
def RULE_SOURCE_TAG : String := "rule-file"

/-- `is_rule_source`. -/
def isRuleSource (entry : SourceEntry) : Bool := RULE_SOURCE_TAG ∈ entry.tags.getD []

/-- The depositors whose memory-file entries are the owner's lineage. -/
def HARVEST_DEPOSITORS : List String := ["claude-code-hook", "audit"]

/-- The tags that mark a memory-file harvest. -/
def MEMORY_HARVEST_TAGS : List String := ["memory-file", "claude-code"]

/-- `is_owner_harvest`. -/
def isOwnerHarvest (entry : SourceEntry) : Bool :=
  entry.depositedBy ∈ HARVEST_DEPOSITORS && (entry.tags.getD []).any (· ∈ MEMORY_HARVEST_TAGS)

/-- `_snapshot_of`; an empty id names no record. -/
def snapshotNamed (entry : SourceEntry) (snapshotId : Option String) : Option Snapshot :=
  match snapshotId with
  | none => none
  | some snapshotId =>
      if snapshotId = "" then none
      else entry.snapshots.find? fun snap => snap.snapshotId = snapshotId

/-- `_contributors_key`: who and in what role, never when. -/
def contributorsKey (entry : SourceEntry) : List (String × String) :=
  sortBy (fun pair : String × String => toLex pair)
    ((entry.contributors.getD []).map fun c => (c.id, c.role))

/-- A text that is there and is not empty. -/
def given (text : Option String) : Bool := text.any (· ≠ "")

section Order

variable (core : UpdateCore)

/-- `_authority`. -/
def authority (uri : Option String) : Except UriError (Option String) :=
  match uri.filter (· ≠ "") with
  | none => .ok none
  | some uri =>
      match core.netloc uri with
      | none => .error .valueError
      | some netloc => .ok (if netloc = "" then none else some netloc)

/-- `_local_lineage_shared`. -/
def localLineageShared (newEntry : SourceEntry) (newSnap : Snapshot) (existingEntry : SourceEntry) :
    Except UriError Bool := do
  let newAuthority ← authority core newEntry.uriR
  return newAuthority.isSome || (given newSnap.authorId || contributorsKey newEntry ≠ []) ||
    (isOwnerHarvest newEntry && isOwnerHarvest existingEntry)

/-- The test `same_lineage`. -/
def sameLineage (newEntry existingEntry : SourceEntry) (newSnap oldSnap : Snapshot) :
    Except UriError Bool := do
  let newAuthority ← authority core newEntry.uriR
  let existingAuthority ← authority core existingEntry.uriR
  return newAuthority = existingAuthority && newEntry.sourceType = existingEntry.sourceType &&
    newSnap.authorId = oldSnap.authorId && contributorsKey newEntry = contributorsKey existingEntry

/-- `1` when the first date is the later one, `-1` when the second one is. -/
def dateOrder (newAt oldAt : Option DateTime) : Option ℤ := do
  let newAt ← newAt
  let oldAt ← oldAt
  if newAt.asAware.utc > oldAt.asAware.utc then some 1
  else if newAt.asAware.utc < oldAt.asAware.utc then some (-1)
  else none

/-- Two distinct entries must name one principal. -/
def lineageShared (newEntry : SourceEntry) (newSnap : Snapshot) (existingEntry : SourceEntry) :
    Except UriError Bool :=
  if newEntry.entryId = existingEntry.entryId then .ok true
  else localLineageShared core newEntry newSnap existingEntry

/-- `update_order` from the test `same_lineage` on, of the records of two extracted claims. -/
def lineageOrder (newEntry existingEntry : SourceEntry) (newSnap oldSnap : Snapshot)
    (requireAttribution : Bool) (newDate existingDate : Option DateTime) :
    Except UriError (Option ℤ) := do
  let same ← sameLineage core newEntry existingEntry newSnap oldSnap
  -- a rule file updates only its own earlier records
  if !same || (newEntry.entryId ≠ existingEntry.entryId &&
      (isRuleSource newEntry || isRuleSource existingEntry)) then
    return none
  else do
    let shared ← lineageShared core newEntry newSnap existingEntry
    if !shared || (requireAttribution && !(given newSnap.authorId || contributorsKey newEntry ≠ []))
    then return none
    else
      return dateOrder (newDate.or newSnap.contentPublishedAt)
        (existingDate.or oldSnap.contentPublishedAt)

/-- **`update_order`**: `1` when the new claim is the strictly newer one, `-1` when the existing one
is. -/
def updateOrder (newParticle : SourcedParticle) (newEntry : Option SourceEntry)
    (newSnapshotId : Option String) (existing : SourcedParticle)
    (existingEntry : Option SourceEntry) (existingSnapshotId : Option String)
    (requireAttribution : Bool := false) (newDate existingDate : Option DateTime := none) :
    Except UriError (Option ℤ) :=
  if !(isExtractorAsserted newParticle && isExtractorAsserted existing) then .ok none
  else if core.isReanchorRestatement newParticle || core.isReanchorRestatement existing then .ok none
  else
    match newEntry, existingEntry with
    | some newEntry, some existingEntry =>
        match snapshotNamed newEntry newSnapshotId,
          snapshotNamed existingEntry existingSnapshotId with
        | some newSnap, some oldSnap =>
            lineageOrder core newEntry existingEntry newSnap oldSnap requireAttribution newDate
              existingDate
        | _, _ => .ok none
    | _, _ => .ok none

/-! ### The pairs ordered -/

/-- The pairs that the order compares, with the dates it compares. -/
structure Qualifies (newParticle : SourcedParticle) (newEntry : SourceEntry) (newSnap : Snapshot)
    (existing : SourcedParticle) (existingEntry : SourceEntry) (oldSnap : Snapshot)
    (requireAttribution : Bool) : Prop where
  extracted : isExtractorAsserted newParticle ∧ isExtractorAsserted existing
  notRestated : ¬core.isReanchorRestatement newParticle ∧ ¬core.isReanchorRestatement existing
  lineage : sameLineage core newEntry existingEntry newSnap oldSnap = .ok true
  noRuleFile : newEntry.entryId ≠ existingEntry.entryId →
    ¬isRuleSource newEntry ∧ ¬isRuleSource existingEntry
  localShared : newEntry.entryId ≠ existingEntry.entryId →
    localLineageShared core newEntry newSnap existingEntry = .ok true
  attributed : requireAttribution → given newSnap.authorId ∨ contributorsKey newEntry ≠ []

variable {core} {newParticle existing : SourcedParticle} {newEntry existingEntry : SourceEntry}
  {newSnap oldSnap : Snapshot} {requireAttribution : Bool}

/-- One lineage: one authority, one type, one author and the same contributors. -/
theorem sameLineage_eq_true : sameLineage core newEntry existingEntry newSnap oldSnap = .ok true ↔
    ∃ shared, authority core newEntry.uriR = .ok shared ∧
      authority core existingEntry.uriR = .ok shared ∧
      newEntry.sourceType = existingEntry.sourceType ∧ newSnap.authorId = oldSnap.authorId ∧
      contributorsKey newEntry = contributorsKey existingEntry := by
  simp only [sameLineage, bind_eq_ok]
  constructor
  · rintro ⟨newAuthority, hnew, existingAuthority, hexisting, h⟩
    obtain ⟨⟨⟨rfl, htype⟩, hauthor⟩, hcontributors⟩ :
        ((newAuthority = existingAuthority ∧ newEntry.sourceType = existingEntry.sourceType) ∧
          newSnap.authorId = oldSnap.authorId) ∧
          contributorsKey newEntry = contributorsKey existingEntry := by
      simpa using Except.ok.inj h
    exact ⟨newAuthority, hnew, hexisting, htype, hauthor, hcontributors⟩
  · rintro ⟨shared, hnew, hexisting, htype, hauthor, hcontributors⟩
    exact ⟨shared, hnew, shared, hexisting, by simp [htype, hauthor, hcontributors]; rfl⟩

/-- The test raises when the URI of one of the entries cannot be parsed, whichever it is. -/
theorem sameLineage_eq_error {error : UriError} :
    sameLineage core newEntry existingEntry newSnap oldSnap = .error error ↔
      authority core newEntry.uriR = .error error ∨ authority core existingEntry.uriR = .error error := by
  cases error
  unfold sameLineage
  cases hnew : authority core newEntry.uriR with
  | error reason =>
      cases reason
      exact iff_of_true rfl (Or.inl rfl)
  | ok newAuthority =>
      cases hexisting : authority core existingEntry.uriR with
      | error reason =>
          cases reason
          exact iff_of_true rfl (Or.inr rfl)
      | ok existingAuthority =>
          refine iff_of_false (fun h => ?_) (by simp)
          cases h

/-- **The tests do not depend on which side is called new**: what they read of the new side alone is
equal on both. -/
theorem Qualifies.symm
    (h : Qualifies core newParticle newEntry newSnap existing existingEntry oldSnap
      requireAttribution) :
    Qualifies core existing existingEntry oldSnap newParticle newEntry newSnap
      requireAttribution := by
  obtain ⟨shared, hnew, hexisting, htype, hauthor, hcontributors⟩ := sameLineage_eq_true.1 h.lineage
  have hshared : localLineageShared core existingEntry oldSnap newEntry =
      localLineageShared core newEntry newSnap existingEntry := by
    rw [localLineageShared, localLineageShared, hnew, hexisting, hauthor, hcontributors,
      Bool.and_comm (isOwnerHarvest newEntry)]
  exact
    { extracted := h.extracted.symm
      notRestated := h.notRestated.symm
      lineage := sameLineage_eq_true.2
        ⟨shared, hexisting, hnew, htype.symm, hauthor.symm, hcontributors.symm⟩
      noRuleFile := fun hne => (h.noRuleFile (Ne.symm hne)).symm
      localShared := fun hne => hshared ▸ h.localShared (Ne.symm hne)
      attributed := fun hrequired => by
        rw [← hauthor, ← hcontributors]
        exact h.attributed hrequired }

theorem dateOrder_eq_some {newAt oldAt : Option DateTime} {order : ℤ} :
    dateOrder newAt oldAt = some order ↔ ∃ at' at'', newAt = some at' ∧ oldAt = some at'' ∧
      (at''.asAware.utc < at'.asAware.utc ∧ order = 1 ∨
        at'.asAware.utc < at''.asAware.utc ∧ order = -1) := by
  simp only [dateOrder, Option.bind_eq_bind, Option.bind_eq_some_iff]
  refine ⟨?_, ?_⟩
  · rintro ⟨at', rfl, at'', rfl, h⟩
    refine ⟨at', at'', rfl, rfl, ?_⟩
    split_ifs at h with hnewer holder
    · exact Or.inl ⟨hnewer, (Option.some.inj h).symm⟩
    · exact Or.inr ⟨holder, (Option.some.inj h).symm⟩
  · rintro ⟨at', at'', rfl, rfl, ⟨hnewer, rfl⟩ | ⟨holder, rfl⟩⟩
    · exact ⟨at', rfl, at'', rfl, if_pos hnewer⟩
    · exact ⟨at', rfl, at'', rfl, by rw [if_neg (not_lt.2 holder.le), if_pos holder]⟩

/-- When the records of two extracted claims are ordered. -/
theorem lineageOrder_eq_some {newDate existingDate : Option DateTime} {order : ℤ} :
    lineageOrder core newEntry existingEntry newSnap oldSnap requireAttribution newDate existingDate =
        .ok (some order) ↔
      sameLineage core newEntry existingEntry newSnap oldSnap = .ok true ∧
        (newEntry.entryId ≠ existingEntry.entryId →
          ¬isRuleSource newEntry ∧ ¬isRuleSource existingEntry) ∧
        (newEntry.entryId ≠ existingEntry.entryId →
          localLineageShared core newEntry newSnap existingEntry = .ok true) ∧
        (requireAttribution → given newSnap.authorId ∨ contributorsKey newEntry ≠ []) ∧
        dateOrder (newDate.or newSnap.contentPublishedAt)
          (existingDate.or oldSnap.contentPublishedAt) = some order := by
  rw [lineageOrder, bind_eq_ok]
  constructor
  · rintro ⟨same, hsame, h⟩
    split_ifs at h with hrule
    · cases Except.ok.inj h
    · obtain ⟨shared, hshared, h⟩ := bind_eq_ok.1 h
      split_ifs at h with hattributed
      · cases Except.ok.inj h
      · simp only [Bool.or_eq_true, Bool.not_eq_true', not_or, Bool.and_eq_true, decide_eq_true_eq,
          not_and, Bool.not_eq_false, Bool.not_eq_true] at hrule hattributed
        refine ⟨hrule.1 ▸ hsame, fun hne => by simpa using hrule.2 hne, fun hne => ?_,
          fun hrequired => by simpa using hattributed.2 hrequired, Except.ok.inj h⟩
        rwa [lineageShared, if_neg hne, hattributed.1] at hshared
  · rintro ⟨hsame, hrule, hshared, hattributed, horder⟩
    refine ⟨true, hsame, ?_⟩
    rw [if_neg, bind_eq_ok]
    · refine ⟨true, ?_, ?_⟩
      · rw [lineageShared]
        split_ifs with hid
        · rfl
        · exact hshared hid
      · rw [if_neg, horder]
        · rfl
        · cases requireAttribution
          · simp
          · simpa [or_iff_not_imp_left] using hattributed rfl
    · by_cases hid : newEntry.entryId = existingEntry.entryId
      · simp [hid]
      · simpa [hid] using hrule hid

/-- The order of two records is read where the authorities of their entries are. -/
theorem exists_lineageOrder {newAuthority existingAuthority : Option String}
    (hnew : authority core newEntry.uriR = .ok newAuthority)
    (hexisting : authority core existingEntry.uriR = .ok existingAuthority)
    (newDate existingDate : Option DateTime) :
    ∃ order, lineageOrder core newEntry existingEntry newSnap oldSnap requireAttribution newDate
      existingDate = .ok order := by
  obtain ⟨same, hsame⟩ : ∃ same,
      sameLineage core newEntry existingEntry newSnap oldSnap = .ok same :=
    ⟨_, by rw [sameLineage, hnew, hexisting]; rfl⟩
  obtain ⟨shared, hshared⟩ : ∃ shared, lineageShared core newEntry newSnap existingEntry =
      .ok shared := by
    unfold lineageShared
    split_ifs
    · exact ⟨true, rfl⟩
    · exact ⟨_, by rw [localLineageShared, hnew]; rfl⟩
  rw [lineageOrder, hsame, hshared]
  by_cases hrule : (!same || (newEntry.entryId ≠ existingEntry.entryId &&
      (isRuleSource newEntry || isRuleSource existingEntry))) = true
  · exact ⟨none, if_pos hrule⟩
  · exact ⟨_, (if_neg hrule).trans (apply_ite Except.ok _ _ _).symm⟩

/-- **The order raises only where an authority cannot be read**, whichever side it is on. -/
theorem lineageOrder_eq_error {newDate existingDate : Option DateTime} {error : UriError} :
    lineageOrder core newEntry existingEntry newSnap oldSnap requireAttribution newDate existingDate =
        .error error ↔
      authority core newEntry.uriR = .error error ∨
        authority core existingEntry.uriR = .error error := by
  constructor
  · intro h
    cases error
    cases hnew : authority core newEntry.uriR with
    | error reason => exact Or.inl rfl
    | ok newAuthority =>
        cases hexisting : authority core existingEntry.uriR with
        | error reason => exact Or.inr rfl
        | ok existingAuthority =>
            obtain ⟨order, horder⟩ : ∃ order, lineageOrder core newEntry existingEntry newSnap oldSnap
                requireAttribution newDate existingDate = .ok order :=
              exists_lineageOrder hnew hexisting newDate existingDate
            rw [horder] at h
            cases h
  · intro h
    rw [lineageOrder, sameLineage_eq_error.2 h]
    rfl

/-- The two claims are extracted, neither is restated, and their records are found: what the order
reads of both sides. -/
structure Sides (core : UpdateCore) (newParticle : SourcedParticle) (newEntry : Option SourceEntry)
    (newSnapshotId : Option String) (existing : SourcedParticle)
    (existingEntry : Option SourceEntry) (existingSnapshotId : Option String)
    (entry entry' : SourceEntry) (snap snap' : Snapshot) : Prop where
  extracted : isExtractorAsserted newParticle ∧ isExtractorAsserted existing
  notRestated : ¬core.isReanchorRestatement newParticle ∧ ¬core.isReanchorRestatement existing
  newEntry : newEntry = some entry
  existingEntry : existingEntry = some entry'
  newSnap : snapshotNamed entry newSnapshotId = some snap
  oldSnap : snapshotNamed entry' existingSnapshotId = some snap'

section Sides

variable {newSource existingSource : Option SourceEntry}
  {newSnapshotId existingSnapshotId : Option String} {newDate existingDate : Option DateTime}
  {order : ℤ}

theorem Sides.symm {entry entry' : SourceEntry} {snap snap' : Snapshot}
    (h : Sides core newParticle newSource newSnapshotId existing existingSource existingSnapshotId
      entry entry' snap snap') :
    Sides core existing existingSource existingSnapshotId newParticle newSource newSnapshotId
      entry' entry snap' snap :=
  ⟨h.extracted.symm, h.notRestated.symm, h.existingEntry, h.newEntry, h.oldSnap, h.newSnap⟩

/-- Where both sides are read the order is that of their lineage. -/
theorem Sides.updateOrder_eq {entry entry' : SourceEntry} {snap snap' : Snapshot}
    (h : Sides core newParticle newSource newSnapshotId existing existingSource existingSnapshotId
      entry entry' snap snap') :
    updateOrder core newParticle newSource newSnapshotId existing existingSource existingSnapshotId
        requireAttribution newDate existingDate =
      lineageOrder core entry entry' snap snap' requireAttribution newDate existingDate := by
  obtain ⟨hextracted, hrestated, rfl, rfl, hsnap, hsnap'⟩ := h
  simp [updateOrder, hextracted, hrestated, hsnap, hsnap']

/-- Where one of the sides is not read there is no order. -/
theorem updateOrder_eq_none
    (h : ∀ entry entry' snap snap', ¬ Sides core newParticle newSource newSnapshotId existing
      existingSource existingSnapshotId entry entry' snap snap') :
    updateOrder core newParticle newSource newSnapshotId existing existingSource existingSnapshotId
      requireAttribution newDate existingDate = .ok none := by
  unfold updateOrder
  split_ifs with hextracted hrestated
  · rfl
  · rfl
  · cases newSource with
    | none => rfl
    | some entry =>
        cases existingSource with
        | none => rfl
        | some entry' =>
            cases hsnap : snapshotNamed entry newSnapshotId with
            | none => simp [hsnap]
            | some snap =>
                cases hsnap' : snapshotNamed entry' existingSnapshotId with
                | none => simp [hsnap, hsnap']
                | some snap' =>
                    exact absurd ⟨by simpa using hextracted, by simpa using hrestated, rfl, rfl,
                      hsnap, hsnap'⟩ (h entry entry' snap snap')

/-- **When a pair is ordered, and how.** -/
theorem updateOrder_eq_some :
    updateOrder core newParticle newSource newSnapshotId existing existingSource existingSnapshotId
        requireAttribution newDate existingDate = .ok (some order) ↔
      ∃ entry entry' snap snap' at' at'',
        newSource = some entry ∧ existingSource = some entry' ∧
        snapshotNamed entry newSnapshotId = some snap ∧
        snapshotNamed entry' existingSnapshotId = some snap' ∧
        Qualifies core newParticle entry snap existing entry' snap' requireAttribution ∧
        newDate.or snap.contentPublishedAt = some at' ∧
        existingDate.or snap'.contentPublishedAt = some at'' ∧
        (at''.asAware.utc < at'.asAware.utc ∧ order = 1 ∨
          at'.asAware.utc < at''.asAware.utc ∧ order = -1) := by
  constructor
  · intro h
    by_cases hread : ∃ entry entry' snap snap', Sides core newParticle newSource newSnapshotId
        existing existingSource existingSnapshotId entry entry' snap snap'
    · obtain ⟨entry, entry', snap, snap', hsides⟩ := hread
      rw [hsides.updateOrder_eq, lineageOrder_eq_some, dateOrder_eq_some] at h
      obtain ⟨hlineage, hrule, hshared, hattributed, at', at'', hat', hat'', horder⟩ := h
      exact ⟨entry, entry', snap, snap', at', at'', hsides.newEntry, hsides.existingEntry,
        hsides.newSnap, hsides.oldSnap,
        ⟨hsides.extracted, hsides.notRestated, hlineage, hrule, hshared, hattributed⟩, hat', hat'',
        horder⟩
    · rw [updateOrder_eq_none fun entry entry' snap snap' hsides =>
        hread ⟨entry, entry', snap, snap', hsides⟩] at h
      cases h
  · rintro ⟨entry, entry', snap, snap', at', at'', hentry, hentry', hsnap, hsnap', hpair, hat',
      hat'', horder⟩
    have hsides : Sides core newParticle newSource newSnapshotId existing existingSource
        existingSnapshotId entry entry' snap snap' :=
      ⟨hpair.extracted, hpair.notRestated, hentry, hentry', hsnap, hsnap'⟩
    rw [hsides.updateOrder_eq, lineageOrder_eq_some, dateOrder_eq_some]
    exact ⟨hpair.lineage, hpair.noRuleFile, hpair.localShared, hpair.attributed, at', at'', hat',
      hat'', horder⟩

/-- The order of a pair is that of the pair taken the other way round, with the sign changed. -/
theorem updateOrder_swap
    (h : updateOrder core newParticle newSource newSnapshotId existing existingSource
      existingSnapshotId requireAttribution newDate existingDate = .ok (some order)) :
    updateOrder core existing existingSource existingSnapshotId newParticle newSource newSnapshotId
      requireAttribution existingDate newDate = .ok (some (-order)) := by
  obtain ⟨entry, entry', snap, snap', at', at'', hentry, hentry', hsnap, hsnap', hpair, hat', hat'',
    horder⟩ := updateOrder_eq_some.1 h
  refine updateOrder_eq_some.2 ⟨entry', entry, snap', snap, at'', at', hentry', hentry, hsnap',
    hsnap, hpair.symm, hat'', hat', ?_⟩
  rcases horder with ⟨hnewer, rfl⟩ | ⟨holder, rfl⟩
  · exact Or.inr ⟨hnewer, rfl⟩
  · exact Or.inl ⟨holder, rfl⟩

/-- Where a pair raises, it raises the other way round too. -/
theorem updateOrder_error_swap {error : UriError}
    (h : updateOrder core newParticle newSource newSnapshotId existing existingSource
      existingSnapshotId requireAttribution newDate existingDate = .error error) :
    updateOrder core existing existingSource existingSnapshotId newParticle newSource newSnapshotId
      requireAttribution existingDate newDate = .error error := by
  by_cases hread : ∃ entry entry' snap snap', Sides core newParticle newSource newSnapshotId
      existing existingSource existingSnapshotId entry entry' snap snap'
  · obtain ⟨entry, entry', snap, snap', hsides⟩ := hread
    rw [hsides.updateOrder_eq, lineageOrder_eq_error] at h
    rw [hsides.symm.updateOrder_eq, lineageOrder_eq_error]
    exact h.symm
  · rw [updateOrder_eq_none fun entry entry' snap snap' hsides =>
      hread ⟨entry, entry', snap, snap', hsides⟩] at h
    cases h

/-- A pair is not ordered one way round when it is not the other way round. -/
theorem updateOrder_none_swap
    (h : updateOrder core newParticle newSource newSnapshotId existing existingSource
      existingSnapshotId requireAttribution newDate existingDate = .ok none) :
    updateOrder core existing existingSource existingSnapshotId newParticle newSource newSnapshotId
      requireAttribution existingDate newDate = .ok none := by
  cases hswapped : updateOrder core existing existingSource existingSnapshotId newParticle newSource
      newSnapshotId requireAttribution existingDate newDate with
  | error error =>
      rw [updateOrder_error_swap hswapped] at h
      cases h
  | ok order =>
      cases order with
      | none => rfl
      | some order =>
          rw [updateOrder_swap hswapped] at h
          cases h

end Sides

/-! ### Chains of newer claims -/

/-- The instant by which the order dates a side: the date given, or its record's. -/
def datedAt (entry : Option SourceEntry) (snapshotId : Option String) (date : Option DateTime) :
    Option Instant :=
  let own := (entry.bind (snapshotNamed · snapshotId)).bind Snapshot.contentPublishedAt
  (date.or own).map fun value => value.asAware.utc

/-- One claim is strictly newer than another by `update_order`, over some entries and records that
date each of them as `dateOf` does. -/
def NewerThan (core : UpdateCore) (dateOf : String → Instant) (older newer : SourcedParticle) :
    Prop :=
  ∃ newEntry newSnapshotId newDate oldEntry oldSnapshotId oldDate requireAttribution,
    datedAt newEntry newSnapshotId newDate = some (dateOf newer.id) ∧
    datedAt oldEntry oldSnapshotId oldDate = some (dateOf older.id) ∧
    updateOrder core newer newEntry newSnapshotId older oldEntry oldSnapshotId requireAttribution
      newDate oldDate = .ok (some 1)

/-- A strictly newer claim has a later date. -/
theorem NewerThan.lt {dateOf : String → Instant} {older newer : SourcedParticle}
    (h : NewerThan core dateOf older newer) : dateOf older.id < dateOf newer.id := by
  obtain ⟨newEntry, newSnapshotId, newDate, oldEntry, oldSnapshotId, oldDate, requireAttribution,
    hnew, hold, horder⟩ := h
  obtain ⟨entry, entry', snap, snap', at', at'', rfl, rfl, hsnap, hsnap', -, hat', hat'', hat⟩ :=
    updateOrder_eq_some.1 horder
  simp only [datedAt, Option.bind_some, hsnap, hsnap', hat', hat'', Option.map_some,
    Option.some.injEq] at hnew hold
  rw [← hnew, ← hold]
  rcases hat with ⟨hlt, -⟩ | ⟨-, hsign⟩
  · exact hlt
  · cases hsign

/-- **A chain of strictly newer claims never returns to one of them.** -/
theorem nodup_of_isChain {dateOf : String → Instant} {claims : List SourcedParticle}
    (h : claims.IsChain (NewerThan core dateOf)) : (claims.map fun claim => claim.id).Nodup := by
  have hdates : claims.IsChain fun older newer => dateOf older.id < dateOf newer.id :=
    h.imp fun _ _ => NewerThan.lt
  have hpairs : claims.Pairwise fun older newer => dateOf older.id < dateOf newer.id :=
    hdates.pairwise
  refine List.pairwise_map.2 (hpairs.imp fun {older newer} hlt hsame => ?_)
  rw [hsame] at hlt
  exact lt_irrefl _ hlt

/-- **`update_order` is antisymmetric and acyclic**, and raises on a pair whichever way round it is. -/
theorem updateOrder_antisymm_acyclic (core : UpdateCore) :
    (∀ (a b : SourcedParticle) (entryA entryB : Option SourceEntry)
        (snapshotA snapshotB : Option String) (requireAttribution : Bool)
        (dateA dateB : Option DateTime),
      (updateOrder core a entryA snapshotA b entryB snapshotB requireAttribution dateA dateB =
          .ok (some 1) ↔
        updateOrder core b entryB snapshotB a entryA snapshotA requireAttribution dateB dateA =
          .ok (some (-1))) ∧
      (updateOrder core a entryA snapshotA b entryB snapshotB requireAttribution dateA dateB =
          .ok none ↔
        updateOrder core b entryB snapshotB a entryA snapshotA requireAttribution dateB dateA =
          .ok none) ∧
      ∀ error, updateOrder core a entryA snapshotA b entryB snapshotB requireAttribution dateA dateB =
          .error error ↔
        updateOrder core b entryB snapshotB a entryA snapshotA requireAttribution dateB dateA =
          .error error) ∧
    ∀ (dateOf : String → Instant) (claims : List SourcedParticle),
      claims.IsChain (NewerThan core dateOf) → (claims.map fun claim => claim.id).Nodup :=
  ⟨fun _ _ _ _ _ _ _ _ _ =>
      ⟨⟨updateOrder_swap, updateOrder_swap⟩, ⟨updateOrder_none_swap, updateOrder_none_swap⟩,
        fun _ => ⟨updateOrder_error_swap, updateOrder_error_swap⟩⟩,
    fun _ _ => nodup_of_isChain⟩

end Order

/-! ### Two claims of one entry -/

/-- Nothing is restated, every newer claim is settled, and every URI has one authority. -/
def plainCore : UpdateCore where
  netloc _ := some "example.org"
  isReanchorRestatement _ := false
  newerIsSettled _ _ _ := true

/-- A claim extracted from the entry's record `snapshotId`. -/
def extractedFrom (id snapshotId : String) : SourcedParticle where
  id := id
  content := id
  provenance := [⟨.SOURCE, "notes", some snapshotId, none, none⟩]

/-- An entry captured twice; the second record is dated an hour later, on a clock of another zone. -/
def notesEntry : SourceEntry where
  entryId := "notes"
  uriR := some "https://example.org/notes"
  snapshots := [⟨"s1", none, some ⟨0, none⟩⟩, ⟨"s2", none, some ⟨0, some (-3600)⟩⟩]

/-- The two claims are a chain, and so they are two. -/
theorem updateOrder_antisymm_acyclic_notes :
    (updateOrder plainCore (extractedFrom "new" "s2") (some notesEntry) (some "s2")
          (extractedFrom "old" "s1") (some notesEntry) (some "s1") = .ok (some 1) ∧
      updateOrder plainCore (extractedFrom "old" "s1") (some notesEntry) (some "s1")
          (extractedFrom "new" "s2") (some notesEntry) (some "s2") = .ok (some (-1))) ∧
      ([extractedFrom "old" "s1", extractedFrom "new" "s2"].map fun claim => claim.id).Nodup := by
  have horder : updateOrder plainCore (extractedFrom "new" "s2") (some notesEntry) (some "s2")
      (extractedFrom "old" "s1") (some notesEntry) (some "s1") = .ok (some 1) := by decide +kernel
  refine ⟨⟨horder, ((updateOrder_antisymm_acyclic plainCore).1 _ _ _ _ _ _ _ _ _).1.1 horder⟩, ?_⟩
  refine (updateOrder_antisymm_acyclic plainCore).2 (fun id => if id = "new" then 3600 else 0) _ ?_
  refine List.isChain_pair.2 ⟨some notesEntry, some "s2", none, some notesEntry, some "s1", none,
    false, by decide +kernel, by decide +kernel, horder⟩

end ParticlesEngine
