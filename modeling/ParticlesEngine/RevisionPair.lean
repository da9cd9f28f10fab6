/-
**The revision pair.**

A MUTABLE source is extracted again when it changes, and the cascade then retires what the new snapshot
no longer states.  A claim that only an earlier generation of the source states is settled by the
generation: a contradiction that is confirmed against it is written as a corroboration, the new claim
ACTIVE, and the cascade retires the earlier one.  Which claims these are is read before the pass writes
anything, and the cascade asks again after; in between other passes may process other snapshots of the
source.  The two readings agree, so one version is left standing.

Main definitions:

* `revisionClaims`, `loadRevisionClaims` — the claims that form a revision pair with a pass;
* `settleByGeneration` — what a confirmed contradiction is written as;
* `QuietFor`, `Beside` — what goes on beside the pass;
* `Outdated` — the claim is stated by generations of the entry that are older than the snapshot, and by
  nothing else; the invariant of what goes on beside the pass.

Main results:

* `outdated_of_revision` — **a claim of a revision pair is outdated when it is read**;
* `Outdated.beside` — **it stays outdated, whatever goes on beside the pass**;
* `quiet_runDeposits`, `quiet_insertParticle`, … — the writes that may go on beside it;
* `Outdated.cascade` — **the cascade of the snapshot retires it, and keeps what the snapshot states**;
* `settled_pair_leaves_one` — all three, for a settled revision pair.
-/

import Mathlib.Logic.Relation
import ParticlesEngine.AbsencePreview
import ParticlesEngine.ConflictPlan
import ParticlesEngine.DepositIdentity

set_option relaxedAutoImplicit false
set_option autoImplicit false

open FirstByKey Relation

namespace ParticlesEngine

/-! ### The pairs of a pass -/

/-- A corpus entry with its snapshots, as a pass has loaded it. -/
structure CorpusEntry where
  entryId : String
  mutability : Mutability
  snapshots : List SnapshotRow

/-- When the snapshot that a reference names was captured, if the entry holds one. -/
def CorpusEntry.captured (entry : CorpusEntry) (snapshotId : Option String) : Option Instant :=
  (snapshotId.filter (· ≠ "")).bind fun named =>
    (entry.snapshots.find? (·.snapshotId = named)).map SnapshotRow.capturedAt

section Pairs

variable (contentHash : String → String)

/-- **`restated_ids`**: the claims the new generation restates verbatim. -/
def restatedIds (existing : List Particle) (carryForwardIds candidateContents : List String) :
    List String :=
  carryForwardIds ++ (existing.filter fun p =>
    contentHash p.content ∈ candidateContents.map contentHash).map Particle.id

/-- `is_revision`: the current generation of the entry states the claim, no other entry does, and the
snapshot was captured after every snapshot of the entry that the claim names. -/
def isRevision (entry : CorpusEntry) (snapshot : SnapshotRow)
    (currency : String → Option EntryCurrency) (restated : List String) (current : String)
    (p : Particle) : Bool :=
  let refs := p.provenance.filter (·.type = .SOURCE)
  let ownRefs := refs.filter (·.corpusEntryId = entry.entryId)
  let otherRefs := refs.filter (·.corpusEntryId ≠ entry.entryId)
  p.id ∉ restated && ownRefs.any (·.snapshotId = some current) &&
    otherRefs.all (fun ref => !((currency ref.corpusEntryId).isSome &&
      attests ⟨ref.corpusEntryId, ref.snapshotId⟩ (currency ref.corpusEntryId))) &&
    ownRefs.all fun ref => (entry.captured ref.snapshotId).any (· < snapshot.capturedAt)

/-- **`revision_claims`.** -/
def revisionClaims (existing : List Particle) (entry : CorpusEntry) (snapshot : SnapshotRow)
    (currency : String → Option EntryCurrency) (restated : List String) : List String :=
  if entry.mutability ≠ .MUTABLE then []
  else match (currency entry.entryId).bind EntryCurrency.latestSnapshotId with
    | none => []
    | some current =>
        (existing.filter (isRevision entry snapshot currency restated current)).map Particle.id

/-- **`load_generation_claims`.** -/
def loadGenerationClaims (store : Store) (existing : List Particle) (entry : CorpusEntry)
    (snapshot : SnapshotRow) (carryForwardIds : List String) : List String :=
  if entry.mutability ≠ .MUTABLE ∨ existing = [] then []
  else revisionClaims existing entry snapshot (getEntryCurrency store) carryForwardIds

/-- **`revision_from`**: the claims of the generation, less what the pass restates. -/
def revisionFrom (generation : List String) (existing : List Particle)
    (candidateContents carried : List String) : List String :=
  generation.filter (· ∉ restatedIds contentHash existing carried candidateContents)

/-- **`load_revision_claims`.** -/
def loadRevisionClaims (store : Store) (existing : List Particle) (entry : CorpusEntry)
    (snapshot : SnapshotRow) (carryForwardIds candidateContents : List String) : List String :=
  revisionFrom contentHash
    (loadGenerationClaims store existing entry snapshot carryForwardIds) existing candidateContents []

end Pairs

/-- **`settle_by_generation`**: rung 3 does not apply to a revision pair. -/
def settleByGeneration (outcome : LadderOutcome) : Option LadderOutcome :=
  match outcome.verdict with
  | some .INCONSISTENT => some { verdict := some .CORROBORATES, recordDivergence := false }
  | _ => none

/-- What `is_revision` says of a claim. -/
structure Revises (store : Store) (entry : CorpusEntry) (snapshot : SnapshotRow) (p : Particle) :
    Prop where
  mutable : entry.mutability = .MUTABLE
  current : ∃ currency current, getEntryCurrency store entry.entryId = some currency ∧
    currency.latestSnapshotId = some current ∧
    ∃ ref ∈ p.provenance, ref.type = .SOURCE ∧ ref.corpusEntryId = entry.entryId ∧
      ref.snapshotId = some current
  alone : ∀ ref ∈ p.provenance, ref.type = .SOURCE → ref.corpusEntryId ≠ entry.entryId →
    (getEntryCurrency store ref.corpusEntryId).isSome = true →
    attests ⟨ref.corpusEntryId, ref.snapshotId⟩ (getEntryCurrency store ref.corpusEntryId) = false
  older : ∀ ref ∈ p.provenance, ref.type = .SOURCE → ref.corpusEntryId = entry.entryId →
    ∃ record ∈ entry.snapshots, ref.snapshotId = some record.snapshotId ∧
      record.capturedAt < snapshot.capturedAt

theorem mem_of_captured {entry : CorpusEntry} {snapshotId : Option String} {capturedAt : Instant}
    (h : entry.captured snapshotId = some capturedAt) :
    ∃ record ∈ entry.snapshots, snapshotId = some record.snapshotId ∧
      record.capturedAt = capturedAt := by
  obtain ⟨named, hnamed, hfound⟩ := Option.bind_eq_some_iff.1 h
  obtain ⟨record, hrecord, hcaptured⟩ := Option.map_eq_some_iff.1 hfound
  have hsame : record.snapshotId = named := by simpa using List.find?_some hrecord
  refine ⟨record, List.mem_of_find?_eq_some hrecord, ?_, hcaptured⟩
  rw [(Option.filter_eq_some_iff.1 hnamed).1, hsame]

/-- **What the claims of a revision pair are.** -/
theorem revises_of_mem {contentHash : String → String} {store : Store} {existing : List Particle}
    {entry : CorpusEntry} {snapshot : SnapshotRow} {carryForwardIds candidateContents : List String}
    {claimId : String}
    (h : claimId ∈ loadRevisionClaims contentHash store existing entry snapshot carryForwardIds
      candidateContents) :
    ∃ p ∈ existing, p.id = claimId ∧ Revises store entry snapshot p := by
  have hgeneration := (List.mem_filter.1 h).1
  rw [loadGenerationClaims] at hgeneration
  split_ifs at hgeneration with hnone
  · exact nomatch hgeneration
  · rw [not_or, not_not] at hnone
    rw [revisionClaims, if_neg (not_not.2 hnone.1)] at hgeneration
    cases hcurrent : (getEntryCurrency store entry.entryId).bind EntryCurrency.latestSnapshotId with
    | none =>
        rw [hcurrent] at hgeneration
        exact nomatch hgeneration
    | some current =>
        rw [hcurrent] at hgeneration
        obtain ⟨p, hp, rfl⟩ := List.mem_map.1 hgeneration
        obtain ⟨hp, hrevision⟩ := List.mem_filter.1 hp
        obtain ⟨currency, hcurrency, hlatest⟩ := Option.bind_eq_some_iff.1 hcurrent
        simp only [isRevision, Bool.and_eq_true, List.any_eq_true, List.all_eq_true,
          List.mem_filter, decide_eq_true_eq] at hrevision
        obtain ⟨⟨⟨-, ref, ⟨⟨href, hsource⟩, hown⟩, hnames⟩, halone⟩, holder⟩ := hrevision
        refine ⟨p, hp, rfl, hnone.1, ⟨currency, current, hcurrency, hlatest, ref, href, hsource, hown,
          hnames⟩, fun ref href hsource hother hsome => ?_, fun ref href hsource hown => ?_⟩
        · simpa [hsome] using halone ref ⟨⟨href, hsource⟩, hother⟩
        · have hdated := holder ref ⟨⟨href, hsource⟩, hown⟩
          cases hcaptured : entry.captured ref.snapshotId with
          | none => simp [hcaptured] at hdated
          | some capturedAt =>
              obtain ⟨record, hrecord, hnames, rfl⟩ := mem_of_captured hcaptured
              exact ⟨record, hrecord, hnames, by simpa [hcaptured] using hdated⟩

/-! ### What is stored of a pass -/

/-- What the writes of provenance keep, besides: an edge to an entry repeats a SOURCE reference. -/
def EdgesRead (store : Store) : Prop :=
  ∀ edge ∈ store.edges.rows, ∀ row, store.get? edge.particleId = some row →
    (store.entries.get? edge.corpusEntryId).isSome = true →
    ∃ ref ∈ row.model.provenance, ref.type = .SOURCE ∧ ref.corpusEntryId = edge.corpusEntryId ∧
      ref.snapshotId = edge.snapshotId

/-- An entry as the store holds it: its snapshots are records of the entry. -/
structure CorpusEntry.LoadedFrom (entry : CorpusEntry) (store : Store) : Prop where
  stored : ∃ row, store.entries.get? entry.entryId = some row ∧ row.mutability = entry.mutability
  snapshots : ∀ snapshot ∈ entry.snapshots, ∃ record ∈ store.snapshots.rows,
    record.snapshotId = snapshot.snapshotId ∧ record.entryId = entry.entryId ∧
      record.capturedAt = snapshot.capturedAt

/-! ### Beside the pass -/

/-- What an attestation reads of an entry: everything but its tags. -/
def attesting (store : Store) (entryId : String) : Option EntryCurrency :=
  (getEntryCurrency store entryId).map fun currency => { currency with tags := [] }

/-- A reference names a record of the entry that was captured before the snapshot. -/
def NamesOlder (st : Store) (entryId : String) (snapshot : SnapshotRow) (named : Option String) :
    Prop :=
  ∃ record ∈ st.snapshots.rows, record.entryId = entryId ∧ named = some record.snapshotId ∧
    record.capturedAt < snapshot.capturedAt

/-- What is written beside a pass keeps the entry MUTABLE or not and the capture of its records,
processes none of them, changes the generation of no entry that the claim cites, adds no reference to
the claim, and keeps its edge to the entry. -/
structure QuietFor (entryId claimId : String) (st st' : Store) : Prop where
  own : ∀ entry, st.entries.get? entryId = some entry →
    ∃ entry', st'.entries.get? entryId = some entry' ∧ entry'.mutability = entry.mutability
  captured : ∀ record ∈ st.snapshots.rows, record.entryId = entryId →
    ∃ record' ∈ st'.snapshots.rows, record'.snapshotId = record.snapshotId ∧
      record'.entryId = record.entryId ∧ record'.capturedAt = record.capturedAt
  unprocessed : ∀ record' ∈ st'.snapshots.rows, record'.isGeneration entryId = true →
    ∃ record ∈ st.snapshots.rows, record.isGeneration entryId = true ∧
      record.capturedAt = record'.capturedAt
  others : ∀ row, st.get? claimId = some row → ∀ ref ∈ row.model.provenance, ref.type = .SOURCE →
    ref.corpusEntryId ≠ entryId → attesting st' ref.corpusEntryId = attesting st ref.corpusEntryId
  refs : ∀ row', st'.get? claimId = some row' →
    ∃ row, st.get? claimId = some row ∧ ∀ ref ∈ row'.model.provenance, ref.type = .SOURCE →
      ref ∈ row.model.provenance
  edges : ∀ edge ∈ st.edges.rows, edge.particleId = claimId → edge.corpusEntryId = entryId →
    edge ∈ st'.edges.rows

/-- What goes on beside a pass: a quiet write, or another pass that processes a record of the entry, does
not carry the claim forward, and leaves it ACTIVE. -/
inductive Beside (table : TransitionTable) (entryId claimId : String) (st : Store) : Store → Prop where
  | quiet {st' : Store} (h : QuietFor entryId claimId st st') : Beside table entryId claimId st st'
  | processed {now : Instant} {record : SnapshotRow} {excludeIds : List String} {absent : Bool}
      {actor : String} {result : CascadeResult} (hrecord : record ∈ st.snapshots.rows)
      (hentry : record.entryId = entryId) (hexclude : claimId ∉ excludeIds)
      (hcascade : cascadeSupersededGeneration table now st entryId record.snapshotId excludeIds absent
        actor = .ok result) (hactive : IsActive result.store claimId) :
      Beside table entryId claimId st
        (updateExtractionStatus result.store record.snapshotId .COMPLETE)

/-- The claim is stated by generations of the entry that were captured before the snapshot, and by
nothing else, and no generation of the entry was captured after the snapshot. -/
structure Outdated (entryId : String) (snapshot : SnapshotRow) (claimId : String) (st : Store) :
    Prop where
  mutable : ∃ entry, st.entries.get? entryId = some entry ∧ entry.mutability = .MUTABLE
  extracted : ∃ record ∈ st.snapshots.rows, record.entryId = entryId ∧
    record.snapshotId = snapshot.snapshotId ∧ record.capturedAt = snapshot.capturedAt
  newest : ∀ record ∈ st.snapshots.rows, record.isGeneration entryId = true →
    record.capturedAt ≤ snapshot.capturedAt
  alone : ∀ row, st.get? claimId = some row → ∀ ref ∈ row.model.provenance, ref.type = .SOURCE →
    ref.corpusEntryId ≠ entryId → (getEntryCurrency st ref.corpusEntryId).isSome = true →
    attests ⟨ref.corpusEntryId, ref.snapshotId⟩ (getEntryCurrency st ref.corpusEntryId) = false
  older : ∀ row, st.get? claimId = some row → ∀ ref ∈ row.model.provenance, ref.type = .SOURCE →
    ref.corpusEntryId = entryId → NamesOlder st entryId snapshot ref.snapshotId
  anchored : ∃ edge ∈ st.edges.rows, edge.particleId = claimId ∧ edge.corpusEntryId = entryId ∧
    NamesOlder st entryId snapshot edge.snapshotId

section Beside

variable {table : TransitionTable} {entryId claimId : String} {snapshot : SnapshotRow}
  {st st' : Store}

theorem isSome_of_attesting {otherId : String} (h : attesting st' otherId = attesting st otherId) :
    (getEntryCurrency st' otherId).isSome = (getEntryCurrency st otherId).isSome := by
  simpa [attesting] using congrArg Option.isSome h

/-- An attestation reads no tags. -/
theorem attests_of_attesting {ref : SourceRef} {otherId : String}
    (h : attesting st' otherId = attesting st otherId) :
    attests ref (getEntryCurrency st' otherId) = attests ref (getEntryCurrency st otherId) := by
  have hread : ∀ store : Store, attests ref (getEntryCurrency store otherId) =
      attests ref (attesting store otherId) := by
    intro store
    rw [attesting]
    cases getEntryCurrency store otherId with
    | none => rfl
    | some currency => rfl
  rw [hread, hread, h]

/-- What is read of an entry does not change while its row and its records stay. -/
theorem attesting_congr {otherId : String} (hentries : st'.entries = st.entries)
    (hlatest : latestRecord st' otherId = latestRecord st otherId) :
    attesting st' otherId = attesting st otherId := by
  rw [attesting, attesting, getEntryCurrency, getEntryCurrency, hentries, hlatest]

/-- A write that leaves the entries and the records alone is quiet when it adds no reference. -/
theorem quiet_of_corpus_eq (hentries : st'.entries = st.entries)
    (hsnapshots : st'.snapshots = st.snapshots)
    (hrefs : ∀ row', st'.get? claimId = some row' →
      ∃ row, st.get? claimId = some row ∧ ∀ ref ∈ row'.model.provenance, ref.type = .SOURCE →
        ref ∈ row.model.provenance)
    (hedges : ∀ edge ∈ st.edges.rows, edge.particleId = claimId → edge.corpusEntryId = entryId →
      edge ∈ st'.edges.rows) : QuietFor entryId claimId st st' where
  own := fun entry hentry => ⟨entry, hentries ▸ hentry, rfl⟩
  captured := fun record hrecord _ => ⟨record, hsnapshots ▸ hrecord, rfl, rfl, rfl⟩
  unprocessed := fun record hrecord hgeneration =>
    ⟨record, hsnapshots ▸ hrecord, hgeneration, rfl⟩
  others := fun _ _ ref _ _ _ =>
    attesting_congr hentries (by rw [latestRecord, latestRecord, hsnapshots])
  refs := hrefs
  edges := hedges

/-- The references of a revision pair's claim to the entry name older records of it. -/
theorem namesOlder_of_revises {store : Store} {entry : CorpusEntry} {p : Particle}
    (hrevises : Revises store entry snapshot p) (hloaded : entry.LoadedFrom store)
    {ref : ProvenanceRef} (href : ref ∈ p.provenance) (hsource : ref.type = .SOURCE)
    (hown : ref.corpusEntryId = entry.entryId) :
    NamesOlder store entry.entryId snapshot ref.snapshotId := by
  obtain ⟨held, hheld, hnames, hlt⟩ := hrevises.older ref href hsource hown
  obtain ⟨record, hrecord, hid, hentry, hcaptured⟩ := hloaded.snapshots held hheld
  exact ⟨record, hrecord, hentry, hid ▸ hnames, hcaptured ▸ hlt⟩

/-- **A claim of a revision pair is outdated when it is read.** -/
theorem outdated_of_revision {contentHash : String → String} {store : Store}
    {existing : List Particle} {entry : CorpusEntry}
    {carryForwardIds candidateContents : List String} (hsound : CitationsSound store)
    (hread : EdgesRead store) (hloaded : entry.LoadedFrom store)
    (hsnapshot : snapshot ∈ entry.snapshots)
    (hexisting : ∀ p ∈ existing, ∃ row, store.get? p.id = some row ∧ row.model = p)
    (h : claimId ∈ loadRevisionClaims contentHash store existing entry snapshot carryForwardIds
      candidateContents) : Outdated entry.entryId snapshot claimId store := by
  obtain ⟨p, hp, rfl, hrevises⟩ := revises_of_mem h
  obtain ⟨row, hrow, rfl⟩ := hexisting p hp
  obtain ⟨stored, hstored, hmutability⟩ := hloaded.stored
  obtain ⟨currency, current, hcurrency, hlatest, named, hnamed, hsource, hown, hnames⟩ :=
    hrevises.current
  have hmutable : stored.mutability = .MUTABLE := hmutability.trans hrevises.mutable
  have hsame : ∀ row', store.get? row.model.id = some row' → row' = row := fun row' hrow' =>
    Option.some.inj (hrow'.symm.trans hrow)
  obtain ⟨extracted, hextracted, hid, hentry, hcaptured⟩ := hloaded.snapshots snapshot hsnapshot
  constructor
  case mutable => exact ⟨stored, hstored, hmutable⟩
  case extracted => exact ⟨extracted, hextracted, hentry, hid, hcaptured⟩
  case newest =>
    -- the current generation is the newest one, and the claim names it
    intro record hrecord hgeneration
    have hlatestRecord : ∃ latest, latestRecord store entry.entryId = some latest ∧
        latest.snapshotId = current := by
      rw [getEntryCurrency, hstored, Option.map_some, Option.some.injEq] at hcurrency
      rw [← hcurrency] at hlatest
      simpa [hmutable] using hlatest
    obtain ⟨latest, hlatestRecord, rfl⟩ := hlatestRecord
    obtain ⟨hmem, -, hnewest⟩ := latestRecord_eq_some hlatestRecord
    obtain ⟨held, hheld, -, hheldNames, hlt⟩ :=
      namesOlder_of_revises hrevises hloaded hnamed hsource hown
    have hsameRecord : held = latest :=
      Table.eq_of_key_eq hheld hmem (Option.some.inj (hheldNames.symm.trans hnames))
    exact (hnewest record hrecord hgeneration).trans (hsameRecord ▸ hlt).le
  case alone =>
    intro row' hrow' ref href hsource hother hsome
    rw [hsame row' hrow'] at href
    exact hrevises.alone ref href hsource hother hsome
  case older =>
    intro row' hrow' ref href hsource hown
    rw [hsame row' hrow'] at href
    exact namesOlder_of_revises hrevises hloaded href hsource hown
  case anchored =>
    -- the edge of the claim to the entry repeats a reference, which names an older record
    obtain ⟨edge, hedge, hclaim, hcites⟩ := hsound.indexed _ row hrow named hnamed hsource
    rw [hown] at hcites
    obtain ⟨ref, href, hrefSource, hrefCites, hrefNames⟩ := hread edge hedge row (hclaim ▸ hrow)
      (by rw [hcites, hstored]; rfl)
    refine ⟨edge, hedge, hclaim, hcites, ?_⟩
    rw [← hrefNames]
    exact namesOlder_of_revises hrevises hloaded href hrefSource (hrefCites.trans hcites)

/-- A quiet write keeps the records that a reference names. -/
theorem NamesOlder.quiet {named : Option String} (h : NamesOlder st entryId snapshot named)
    (hquiet : QuietFor entryId claimId st st') : NamesOlder st' entryId snapshot named := by
  obtain ⟨record, hrecord, hentry, hnames, hlt⟩ := h
  obtain ⟨record', hrecord', hid, hentry', hcaptured⟩ := hquiet.captured record hrecord hentry
  exact ⟨record', hrecord', hentry'.trans hentry, hid ▸ hnames, hcaptured ▸ hlt⟩

/-- **A quiet write leaves the claim outdated.** -/
theorem Outdated.quiet (h : Outdated entryId snapshot claimId st)
    (hquiet : QuietFor entryId claimId st st') : Outdated entryId snapshot claimId st' := by
  constructor
  case mutable =>
    obtain ⟨entry, hentry, hmutable⟩ := h.mutable
    obtain ⟨entry', hentry', hsame⟩ := hquiet.own entry hentry
    exact ⟨entry', hentry', hsame.trans hmutable⟩
  case extracted =>
    obtain ⟨record, hrecord, hentry, hid, hat⟩ := h.extracted
    obtain ⟨record', hrecord', hid', hentry', hat'⟩ := hquiet.captured record hrecord hentry
    exact ⟨record', hrecord', hentry'.trans hentry, hid'.trans hid, hat'.trans hat⟩
  case newest =>
    intro record hrecord hgeneration
    obtain ⟨old, hold, holdGeneration, hcaptured⟩ := hquiet.unprocessed record hrecord hgeneration
    exact hcaptured ▸ h.newest old hold holdGeneration
  case alone =>
    intro row' hrow' ref href hsource hother hsome
    obtain ⟨row, hrow, hkept⟩ := hquiet.refs row' hrow'
    have hsame := hquiet.others row hrow ref (hkept ref href hsource) hsource hother
    rw [isSome_of_attesting hsame] at hsome
    rw [attests_of_attesting hsame]
    exact h.alone row hrow ref (hkept ref href hsource) hsource hother hsome
  case older =>
    intro row' hrow' ref href hsource hown
    obtain ⟨row, hrow, hkept⟩ := hquiet.refs row' hrow'
    exact (h.older row hrow ref (hkept ref href hsource) hsource hown).quiet hquiet
  case anchored =>
    obtain ⟨edge, hedge, hclaim, hentry, hnames⟩ := h.anchored
    exact ⟨edge, hquiet.edges edge hedge hclaim hentry, hclaim, hentry, hnames.quiet hquiet⟩

/-- What a pass is measured against: its own record, or a generation captured after it. -/
theorem currentGeneration_cases (st : Store) (entryId : String) {record : SnapshotRow}
    (hrecord : record ∈ st.snapshots.rows) :
    (currentGeneration st entryId record.snapshotId).snapshotId = record.snapshotId ∨
      ∃ held ∈ st.snapshots.rows, held.isGeneration entryId = true ∧
        record.capturedAt < held.capturedAt := by
  by_cases hlate : (currentGeneration st entryId record.snapshotId).late = true
  · obtain ⟨held, extracted, hheld, hextracted, hlt, -⟩ := currentGeneration_late hlate
    obtain ⟨hmem, hgeneration, -⟩ := latestRecord_eq_some hheld
    obtain rfl := Option.some.inj ((Table.get?_key hrecord).symm.trans hextracted)
    exact .inr ⟨held, hmem, hgeneration, hlt⟩
  · refine .inl ?_
    revert hlate
    unfold currentGeneration
    split
    · exact fun _ => rfl
    · split
      · exact fun _ => rfl
      · split_ifs
        · exact fun _ => rfl
        · split
          · split_ifs
            · exact fun _ => rfl
            · exact fun hlate => absurd rfl hlate
          · exact fun _ => rfl

/-- A cascade only retires. -/
theorem quiet_of_retired {now : Instant} {ids : List String} (h : RetiredAt now st st' ids) :
    QuietFor entryId claimId st st' := by
  refine quiet_of_corpus_eq h.entries h.snapshots (fun row' hrow' => ?_) fun edge hedge _ _ => ?_
  · rw [h.rows] at hrow'
    split_ifs at hrow'
    · obtain ⟨row, hrow, rfl⟩ := Option.map_eq_some_iff.1 hrow'
      exact ⟨row, hrow, fun _ href _ => href⟩
    · exact ⟨row', hrow', fun _ href _ => href⟩
  · rw [h.edges]
    exact hedge

/-- An outdated claim that a cascade keeps ACTIVE names the generation that the cascade is measured
against, which was captured before the snapshot. -/
theorem Outdated.older_of_kept (h : Outdated entryId snapshot claimId st)
    {excludeIds : List String} (hexclude : claimId ∉ excludeIds) {current : CurrentGeneration}
    {absent : Bool} {row : ParticleRow} (hrow : st.get? claimId = some row)
    (hactive : row.model.status = .ACTIVE)
    (hkept : claimId ∉ supersededIds st entryId current excludeIds absent) :
    ∃ record ∈ st.snapshots.rows, record.snapshotId = current.snapshotId ∧
      record.capturedAt < snapshot.capturedAt := by
  have hnamed : ∀ named, NamesOlder st entryId snapshot named → named = some current.snapshotId →
      ∃ record ∈ st.snapshots.rows, record.snapshotId = current.snapshotId ∧
        record.capturedAt < snapshot.capturedAt := by
    rintro named ⟨record, hrecord, -, hcites, hlt⟩ hnames
    exact ⟨record, hrecord, Option.some.inj (hcites.symm.trans hnames), hlt⟩
  obtain ⟨edge, hedge, hclaim, hentry, holder⟩ := h.anchored
  by_cases hnames : edge.snapshotId = some current.snapshotId
  · exact hnamed _ holder hnames
  · -- the claim is anchored to another snapshot, so the cascade must have found it stated
    obtain ⟨record, -, -, hcites, -⟩ := holder
    have hother : edge.otherSnapshot entryId current.snapshotId (absent || current.absent) = true := by
      have hne : record.snapshotId ≠ current.snapshotId := fun heq => hnames (heq ▸ hcites)
      rw [ProvenanceEdgeRow.otherSnapshot, hcites]
      simp [hentry, hne]
    have hid : row.id = claimId := ParticleTable.id_of_get? hrow
    have hstated : CurrentlyStated st entryId current.snapshotId row.model := by
      by_contra hnot
      exact hkept (mem_supersededIds.2 ⟨row, hrow,
        ⟨hactive, edge, hedge, hclaim.trans hid.symm, hother⟩, hexclude, hnot⟩)
    have hattested := attested_iff.2 hstated
    simp only [attested, List.any_eq_true, Bool.and_eq_true, decide_eq_true_eq] at hattested
    obtain ⟨cited, hcited, hcitedSource, hattests⟩ := hattested
    split_ifs at hattests with hcitedOwn
    · exact hnamed _ (h.older row hrow cited hcited hcitedSource hcitedOwn)
        (of_decide_eq_true hattests)
    · obtain ⟨hstored, hattests⟩ := Bool.and_eq_true_iff.1 hattests
      have hsome : (getEntryCurrency st cited.corpusEntryId).isSome = true := by
        rw [getEntryCurrency, Option.isSome_map]
        exact hstored
      rw [h.alone row hrow cited hcited hcitedSource hcitedOwn hsome] at hattests
      cases hattests

/-- **A record of the entry that was not captured after the snapshot is processed, and the claim stays
outdated.** -/
theorem Outdated.mark (h : Outdated entryId snapshot claimId st) {record : SnapshotRow}
    (hrecord : record ∈ st.snapshots.rows) (hentry : record.entryId = entryId)
    (hle : record.capturedAt ≤ snapshot.capturedAt) :
    Outdated entryId snapshot claimId
      (updateExtractionStatus st record.snapshotId .COMPLETE) := by
  have hmem : ∀ row', row' ∈ (updateExtractionStatus st record.snapshotId .COMPLETE).snapshots.rows ↔
      ∃ row ∈ st.snapshots.rows, (if row.snapshotId = record.snapshotId then
        { row with extractionStatus := .COMPLETE } else row) = row' := by
    intro row'
    rw [updateExtractionStatus, Table.mem_rows_modify]
  have hcaptured : ∀ row ∈ st.snapshots.rows,
      ∃ row' ∈ (updateExtractionStatus st record.snapshotId .COMPLETE).snapshots.rows,
        row'.snapshotId = row.snapshotId ∧ row'.entryId = row.entryId ∧
          row'.capturedAt = row.capturedAt := by
    intro row hrow
    refine ⟨_, (hmem _).2 ⟨row, hrow, rfl⟩, ?_⟩
    split_ifs <;> exact ⟨rfl, rfl, rfl⟩
  have holder : ∀ named, NamesOlder st entryId snapshot named →
      NamesOlder (updateExtractionStatus st record.snapshotId .COMPLETE) entryId snapshot named := by
    rintro named ⟨held, hheld, hheldEntry, hnames, hlt⟩
    obtain ⟨held', hheld', hid, hentry', hat⟩ := hcaptured held hheld
    exact ⟨held', hheld', hentry'.trans hheldEntry, hid ▸ hnames, hat ▸ hlt⟩
  have hcurrency : ∀ otherId, otherId ≠ entryId →
      getEntryCurrency (updateExtractionStatus st record.snapshotId .COMPLETE) otherId =
        getEntryCurrency st otherId := by
    intro otherId hne
    have hlatest := latestRecord_congr (recordsOf_updateExtractionStatus hrecord
      (fun heq => hne (heq.symm.trans hentry)) .COMPLETE)
    rw [getEntryCurrency, getEntryCurrency, hlatest]
    rfl
  constructor
  case mutable => exact h.mutable
  case extracted =>
    obtain ⟨extracted, hextracted, hextractedEntry, hid, hat⟩ := h.extracted
    obtain ⟨extracted', hextracted', hid', hentry', hat'⟩ := hcaptured extracted hextracted
    exact ⟨extracted', hextracted', hentry'.trans hextractedEntry, hid'.trans hid, hat'.trans hat⟩
  case newest =>
    intro row' hrow' hgeneration
    obtain ⟨row, hrow, rfl⟩ := (hmem row').1 hrow'
    split_ifs at hgeneration ⊢ with hsame
    · rw [Table.eq_of_key_eq hrow hrecord hsame]
      exact hle
    · exact h.newest row hrow hgeneration
  case alone =>
    intro row hrow ref href hsource hother hsome
    rw [hcurrency _ hother] at hsome ⊢
    exact h.alone row hrow ref href hsource hother hsome
  case older =>
    intro row hrow ref href hsource hown
    exact holder _ (h.older row hrow ref href hsource hown)
  case anchored =>
    obtain ⟨edge, hedge, hclaim, hcites, hnames⟩ := h.anchored
    exact ⟨edge, hedge, hclaim, hcites, holder _ hnames⟩

/-- **Another pass of the entry that keeps the claim ACTIVE leaves it outdated.** -/
theorem Outdated.processed (h : Outdated entryId snapshot claimId st) {now : Instant}
    {record : SnapshotRow} {excludeIds : List String} {absent : Bool} {actor : String}
    {result : CascadeResult} (hrecord : record ∈ st.snapshots.rows)
    (hentry : record.entryId = entryId) (hexclude : claimId ∉ excludeIds)
    (hcascade : cascadeSupersededGeneration table now st entryId record.snapshotId excludeIds absent
      actor = .ok result) (hactive : IsActive result.store claimId) :
    Outdated entryId snapshot claimId
      (updateExtractionStatus result.store record.snapshotId .COMPLETE) := by
  obtain ⟨entry, hstored, hmutable⟩ := h.mutable
  obtain ⟨result', hresult, hdemoted, hretired⟩ :=
    cascade_retired table now record.snapshotId excludeIds absent actor hstored hmutable
  obtain rfl := Except.ok.inj (hresult.symm.trans hcascade)
  have hle : record.capturedAt ≤ snapshot.capturedAt := by
    rcases currentGeneration_cases st entryId hrecord with hown | ⟨held, hheld, hgeneration, hlt⟩
    · obtain ⟨row, hrow, hstatus⟩ := hactive
      rw [hretired.rows] at hrow
      split_ifs at hrow with hid
      · obtain ⟨before, -, rfl⟩ := Option.map_eq_some_iff.1 hrow
        exact nomatch hstatus
      · obtain ⟨named, hnamed, hsame, hlt⟩ :=
          h.older_of_kept hexclude hrow hstatus (hdemoted ▸ hid)
        rw [← Table.eq_of_key_eq hnamed hrecord (hsame.trans hown)]
        exact hlt.le
    · exact hlt.le.trans (h.newest held hheld hgeneration)
  exact (h.quiet (quiet_of_retired hretired)).mark (hretired.snapshots ▸ hrecord) hentry hle

/-- **The claim stays outdated**, whatever goes on beside the pass. -/
theorem Outdated.beside (h : Outdated entryId snapshot claimId st)
    (hbeside : Beside table entryId claimId st st') : Outdated entryId snapshot claimId st' := by
  cases hbeside with
  | quiet hquiet => exact h.quiet hquiet
  | processed hrecord hentry hexclude hcascade hactive =>
      exact h.processed hrecord hentry hexclude hcascade hactive

theorem Outdated.run (h : Outdated entryId snapshot claimId st)
    (hrun : ReflTransGen (Beside table entryId claimId) st st') :
    Outdated entryId snapshot claimId st' := by
  induction hrun with
  | refl => exact h
  | tail _ hstep ih => exact ih.beside hstep

/-- **The cascade of the snapshot retires an outdated claim, and keeps what the snapshot states.** -/
theorem Outdated.cascade (h : Outdated entryId snapshot claimId st) (now : Instant)
    {excludeIds : List String} (hexclude : claimId ∉ excludeIds) (absent : Bool) (actor : String)
    {keptId : String} (hstated : ∀ row, st.get? keptId = some row →
      ∃ ref ∈ row.model.provenance, ref.type = .SOURCE ∧ ref.corpusEntryId = entryId ∧
        ref.snapshotId = some snapshot.snapshotId) :
    ∃ result, cascadeSupersededGeneration table now st entryId snapshot.snapshotId excludeIds absent
        actor = .ok result ∧
      (∀ row, st.get? claimId = some row → row.model.status = .ACTIVE →
        result.store.get? claimId =
          some (row.withStatus now .PROVENANCE_STALE (some .RETRACTED_DEPENDENCY))) ∧
      ¬ IsActive result.store claimId ∧ result.store.get? keptId = st.get? keptId := by
  obtain ⟨entry, hstored, hmutable⟩ := h.mutable
  obtain ⟨result, hresult, hdemoted, hretired⟩ :=
    cascade_retired table now snapshot.snapshotId excludeIds absent actor hstored hmutable
  obtain ⟨extracted, hextracted, -, hid, hat⟩ := h.extracted
  have hcurrent : (currentGeneration st entryId snapshot.snapshotId).snapshotId =
      snapshot.snapshotId := by
    rcases currentGeneration_cases st entryId hextracted with hown | ⟨held, hheld, hgeneration, hlt⟩
    · rwa [hid] at hown
    · exact absurd (h.newest held hheld hgeneration) (not_le.2 (hat ▸ hlt))
  have hclaim : ∀ row, st.get? claimId = some row → row.model.status = .ACTIVE →
      claimId ∈ result.demoted := by
    intro row hrow hactive
    by_contra hkept
    obtain ⟨named, hnamed, hsame, hlt⟩ :=
      h.older_of_kept hexclude hrow hactive (hdemoted ▸ hkept)
    have hequal : named = extracted :=
      Table.eq_of_key_eq hnamed hextracted (hsame.trans (hcurrent.trans hid.symm))
    exact absurd hlt (by rw [hequal, hat]; exact lt_irrefl _)
  have hkept : keptId ∉ result.demoted := by
    intro hin
    obtain ⟨row, hrow, -, -, hnot⟩ := mem_supersededIds.1 (hdemoted ▸ hin)
    obtain ⟨ref, href, hsource, hown, hnames⟩ := hstated row hrow
    rw [hcurrent] at hnot
    exact hnot ⟨ref, href, hsource, .inl ⟨hown, hnames⟩⟩
  refine ⟨result, hresult, fun row hrow hactive => ?_, ?_, by rw [hretired.rows, if_neg hkept]⟩
  · rw [hretired.rows, if_pos (hclaim row hrow hactive), hrow, Option.map_some]
  · rintro ⟨row, hrow, hactive⟩
    rw [hretired.rows] at hrow
    split_ifs at hrow with hin
    · obtain ⟨before, -, rfl⟩ := Option.map_eq_some_iff.1 hrow
      exact nomatch hactive
    · exact hin (hclaim row hrow hactive)

end Beside

/-! ### The writes -/

section Writes

variable {entryId claimId : String} {store store' : Store}

/-- **An insert is quiet**: the particle is a new one. -/
theorem quiet_insertParticle {contentHash : String → String} {modelId : String} {p : Particle}
    {embedding : Option EmbeddingJson}
    (hok : insertParticle contentHash modelId store p embedding = .ok store')
    (hclaim : (store.get? claimId).isSome = true) : QuietFor entryId claimId store store' := by
  obtain ⟨row, hrow⟩ := Option.isSome_iff_exists.1 hclaim
  obtain ⟨hedges, hsnapshots⟩ := edges_insertParticle hok
  obtain ⟨-, hkept⟩ := get?_insertParticle_of_some hok hrow
  refine quiet_of_corpus_eq (entries_insertParticle hok) hsnapshots (fun row' hrow' => ?_)
    fun edge hedge _ _ => ?_
  · obtain rfl := Option.some.inj (hkept.symm.trans hrow')
    exact ⟨row, hrow, fun _ href _ => href⟩
  · rw [hedges]
    exact List.mem_append_left _ hedge

/-- **A status write is quiet.** -/
theorem quiet_updateParticleStatus {table : TransitionTable} {now : Instant} {particleId : String}
    {status : Status} {reason : Option StatusReason}
    (hok : updateParticleStatus table now store particleId status reason = .ok store') :
    QuietFor entryId claimId store store' := by
  have hentries := entries_updateParticleStatus hok
  have hsnapshots := snapshots_updateParticleStatus hok
  obtain ⟨row, hrow, -, -, rfl⟩ := updateParticleStatus_eq_ok.1 hok
  have hget := get?_setStatus store now particleId status reason
  refine quiet_of_corpus_eq hentries hsnapshots (fun row' hrow' => ?_) fun edge hedge _ _ => ?_
  · rw [hget] at hrow'
    split_ifs at hrow'
    · obtain ⟨before, hbefore, rfl⟩ := Option.map_eq_some_iff.1 hrow'
      exact ⟨before, hbefore, fun _ href _ => href⟩
    · exact ⟨row', hrow', fun _ href _ => href⟩
  · rw [edges_setStatus]
    exact hedge

/-- **An insert keeps the edges read**, when only SOURCE references name entries. -/
theorem EdgesRead.insertParticle {contentHash : String → String} {modelId : String} {p : Particle}
    {embedding : Option EmbeddingJson} (h : EdgesRead store)
    (hok : insertParticle contentHash modelId store p embedding = .ok store')
    (hsources : ∀ ref ∈ p.provenance, (store.entries.get? ref.corpusEntryId).isSome = true →
      ref.type = .SOURCE) (hfresh : ∀ edge ∈ store.edges.rows, edge.particleId ≠ p.id) :
    EdgesRead store' := by
  obtain ⟨-, -, row, hmodel, -, -, -, hget⟩ := get?_insertParticle hok
  obtain ⟨hedges, -⟩ := edges_insertParticle hok
  intro edge hedge row' hrow' hentry
  rw [entries_insertParticle hok] at hentry
  rw [hedges] at hedge
  rw [hget] at hrow'
  rcases List.mem_append.1 hedge with hold | hnew
  · rw [if_neg (Ne.symm (hfresh edge hold))] at hrow'
    exact h edge hold row' hrow' hentry
  · rw [provenanceEdges_eq, List.mem_map] at hnew
    obtain ⟨ref, href, rfl⟩ := hnew
    rw [if_pos rfl] at hrow'
    obtain rfl := Option.some.inj hrow'
    have hmem := mem_of_mem_firstByKey href
    exact ⟨ref, hmodel ▸ hmem, hsources ref hmem hentry, rfl, rfl⟩

/-- **One more observation keeps the edges read.** -/
theorem EdgesRead.appendProvenanceRef (h : EdgesRead store) (particleId : String)
    {ref : ProvenanceRef}
    (hsource : (store.entries.get? ref.corpusEntryId).isSome = true → ref.type = .SOURCE) :
    EdgesRead (appendProvenanceRef store particleId ref).1 := by
  obtain ⟨hentries, -, hback, -, -⟩ := edgeAdded_appendProvenanceRef store particleId ref
  have hget := get?_appendProvenanceRef store particleId ref
  intro edge hedge row' hrow' hentry
  rw [hentries] at hentry
  rw [hget] at hrow'
  -- the references of a row are those before it, and the appended one
  have hrefs : ∃ row, store.get? edge.particleId = some row ∧
      (∀ r ∈ row.model.provenance, r ∈ row'.model.provenance) ∧
      (particleId = edge.particleId → ref ∈ row'.model.provenance) := by
    split_ifs at hrow' with hid
    · obtain ⟨row, hrow, rfl⟩ := Option.map_eq_some_iff.1 hrow'
      refine ⟨row, hrow, fun r hr => ?_, fun _ => ?_⟩
      · rw [ParticleRow.noteRef]
        split_ifs
        · exact hr
        · exact List.mem_append_left _ hr
      · rw [ParticleRow.noteRef]
        split_ifs with hmem
        · exact hmem
        · exact List.mem_append_right _ (List.mem_singleton_self ref)
    · exact ⟨row', hrow', fun _ hr => hr, fun heq => absurd heq hid⟩
  obtain ⟨row, hrow, hkept, hnoted⟩ := hrefs
  rcases hback edge hedge with hold | rfl
  · obtain ⟨r, hr, hsourced, hcites, hnames⟩ := h edge hold row hrow hentry
    exact ⟨r, hkept r hr, hsourced, hcites, hnames⟩
  · exact ⟨ref, hnoted rfl, hsource hentry, rfl, rfl⟩

/-- **An observation of another claim is quiet.** -/
theorem quiet_appendProvenanceRef (store : Store) {particleId : String} (ref : ProvenanceRef)
    (hne : particleId ≠ claimId) :
    QuietFor entryId claimId store (appendProvenanceRef store particleId ref).1 := by
  obtain ⟨hentries, hsnapshots, -, hforth, -⟩ := edgeAdded_appendProvenanceRef store particleId ref
  refine quiet_of_corpus_eq hentries hsnapshots (fun row' hrow' => ?_)
    fun edge hedge _ _ => hforth edge hedge
  rw [get?_appendProvenanceRef, if_neg hne] at hrow'
  exact ⟨row', hrow', fun _ href _ => href⟩

/-- **Another entry's pass is quiet**, unless the claim cites that entry. -/
theorem quiet_updateExtractionStatus {record : SnapshotRow} (status : ExtractionStatus)
    (hrecord : record ∈ store.snapshots.rows) (hne : record.entryId ≠ entryId)
    (hcites : ∀ row, store.get? claimId = some row → ∀ ref ∈ row.model.provenance,
      ref.type = .SOURCE → ref.corpusEntryId ≠ record.entryId) :
    QuietFor entryId claimId store (updateExtractionStatus store record.snapshotId status) := by
  have hrecords := recordsOf_updateExtractionStatus hrecord hne status
  have hown : ∀ row, row.entryId = entryId →
      (row ∈ (updateExtractionStatus store record.snapshotId status).snapshots.rows ↔
        row ∈ store.snapshots.rows) := by
    intro row hentry
    have hmem := congrArg (row ∈ ·) hrecords
    simpa [mem_recordsOf, hentry] using hmem
  constructor
  case own => exact fun entry hentry => ⟨entry, hentry, rfl⟩
  case captured => exact fun row hrow hentry => ⟨row, (hown row hentry).2 hrow, rfl, rfl, rfl⟩
  case unprocessed =>
    intro row hrow hgeneration
    have hentry : row.entryId = entryId := by
      simp only [SnapshotRow.isGeneration, Bool.and_eq_true, decide_eq_true_eq] at hgeneration
      exact hgeneration.1.1.1
    exact ⟨row, (hown row hentry).1 hrow, hgeneration, rfl⟩
  case others =>
    intro row hrow ref href hsource _
    refine attesting_congr rfl (latestRecord_congr ?_)
    exact recordsOf_updateExtractionStatus hrecord (hcites row hrow ref href hsource).symm status
  case refs => exact fun row hrow => ⟨row, hrow, fun _ href _ => href⟩
  case edges => exact fun _ hedge _ _ => hedge

/-- The store holds a corpus: the rows of its entries and of its records are those of the corpus. -/
structure Store.Holds (store : Store) (corpus : Deposits.CorpusStore) : Prop where
  entries : store.entries.rows = corpus.entries.rows.map (·.toCorpusEntryRow)
  snapshots : store.snapshots.rows = corpus.snapshots.rows.map (·.toSnapshotRow)

section Deposits

variable {corpus corpus' : Deposits.CorpusStore}

/-- A deposit keeps the mutability of every entry. -/
theorem mutability_of_keeps (h : Deposits.Keeps corpus corpus') (hholds : store.Holds corpus)
    (hholds' : store'.Holds corpus') {id : String} {entry : CorpusEntryRow}
    (hentry : store.entries.get? id = some entry) :
    ∃ entry', store'.entries.get? id = some entry' ∧ entry'.mutability = entry.mutability := by
  obtain ⟨hmem, rfl⟩ := Table.get?_eq_some.1 hentry
  rw [hholds.entries] at hmem
  obtain ⟨row, hrow, rfl⟩ := List.mem_map.1 hmem
  obtain ⟨row', hrow', hbecomes⟩ := h.entries row hrow
  refine ⟨row'.toCorpusEntryRow, Table.get?_eq_some.2 ⟨?_, hbecomes.entryId⟩, hbecomes.mutability⟩
  rw [hholds'.entries]
  exact List.mem_map_of_mem hrow'

/-- A deposit adds records that are PENDING. -/
theorem exists_pending_of_keeps (h : Deposits.Keeps corpus corpus') (hholds : store.Holds corpus)
    (hholds' : store'.Holds corpus') :
    ∃ added, store'.snapshots.rows = store.snapshots.rows ++ added ∧
      ∀ row ∈ added, row.extractionStatus = .PENDING := by
  obtain ⟨added, hadded⟩ := h.records
  refine ⟨added.map (·.toSnapshotRow), ?_, fun row hrow => ?_⟩
  · rw [hholds'.snapshots, hholds.snapshots, ← hadded, List.map_append]
  · obtain ⟨record, hrecord, rfl⟩ := List.mem_map.1 hrow
    refine (h.pending record ?_).resolve_left fun hold => ?_
    · rw [← hadded]
      exact List.mem_append_right _ hrecord
    · -- a record that was there is not added once more
      have hnodup := corpus'.snapshots.nodup
      rw [← hadded, List.map_append] at hnodup
      exact List.disjoint_of_nodup_append hnodup (List.mem_map_of_mem hold)
        (List.mem_map_of_mem hrecord)

/-- **Deposits are quiet**, whoever makes them, onto which entries, and whether they raise, when every
entry that the claim cites is there already. -/
theorem quiet_runDeposits (env : Deposits.DepositEnv) (actions : List Deposits.DepositAction)
    (hholds : store.Holds corpus) (hholds' : store'.Holds (Deposits.runDeposits env corpus actions))
    (hparticles : store'.particles = store.particles) (hedges : store'.edges = store.edges)
    (hcites : ∀ row, store.get? claimId = some row → ∀ ref ∈ row.model.provenance,
      ref.type = .SOURCE → (store.entries.get? ref.corpusEntryId).isSome = true) :
    QuietFor entryId claimId store store' := by
  have hkeeps : Deposits.Keeps corpus (Deposits.runDeposits env corpus actions) :=
    Deposits.keeps_runDeposits corpus actions
  obtain ⟨added, hrows, hpending⟩ := exists_pending_of_keeps hkeeps hholds hholds'
  have hgenerations : ∀ id, store'.snapshots.rows.filter (·.isGeneration id) =
      store.snapshots.rows.filter (·.isGeneration id) := by
    intro id
    have hnone : added.filter (·.isGeneration id) = [] := by
      rw [List.filter_eq_nil_iff]
      intro row hrow
      simp [SnapshotRow.isGeneration, hpending row hrow]
    rw [hrows, List.filter_append, hnone, List.append_nil]
  have hget : ∀ id, store'.get? id = store.get? id := by
    intro id
    rw [Store.get?, Store.get?, hparticles]
  constructor
  case own => exact fun entry hentry => mutability_of_keeps hkeeps hholds hholds' hentry
  case captured =>
    intro record hrecord _
    exact ⟨record, hrows ▸ List.mem_append_left _ hrecord, rfl, rfl, rfl⟩
  case unprocessed =>
    intro record hrecord hgeneration
    have hmem : record ∈ store'.snapshots.rows.filter (·.isGeneration entryId) :=
      List.mem_filter.2 ⟨hrecord, hgeneration⟩
    rw [hgenerations] at hmem
    exact ⟨record, (List.mem_filter.1 hmem).1, hgeneration, rfl⟩
  case others =>
    intro row hrow ref href hsource _
    obtain ⟨entry, hentry⟩ := Option.isSome_iff_exists.1 (hcites row hrow ref href hsource)
    obtain ⟨entry', hentry', hsame⟩ := mutability_of_keeps hkeeps hholds hholds' hentry
    have hlatest : latestRecord store' ref.corpusEntryId = latestRecord store ref.corpusEntryId := by
      rw [latestRecord, latestRecord, hgenerations]
    rw [attesting, attesting, getEntryCurrency, getEntryCurrency, hentry, hentry', hlatest]
    simp only [Option.map_some, hsame]
  case refs =>
    intro row hrow
    rw [hget] at hrow
    exact ⟨row, hrow, fun _ href _ => href⟩
  case edges => exact fun edge hedge _ _ => hedges ▸ hedge

end Deposits

end Writes

/-! ### A settled pair -/

/-- A settled pair is written as an insert of the new claim. -/
theorem insert_of_settled {contentHash : String → String} {modelId : String} {table : TransitionTable}
    {records : RecordBuilder} {recordId : String} {now : Instant} {store store' : Store}
    {outcome settled : LadderOutcome} {new existing : Particle} {trigger : TriggerRef}
    {embedding : Option EmbeddingJson} (hsettled : settleByGeneration outcome = some settled)
    (hwrite : applyConflictPlan contentHash modelId table now store
      (planConflictWrites records recordId settled new existing trigger) existing embedding =
        .ok store') : insertParticle contentHash modelId store new embedding = .ok store' := by
  have hverdict : settled = { verdict := some .CORROBORATES, recordDivergence := false } := by
    unfold settleByGeneration at hsettled
    split at hsettled
    · exact (Option.some.inj hsettled).symm
    · exact nomatch hsettled
  rw [hverdict] at hwrite
  simp only [applyConflictPlan, planConflictWrites, insertPlanned, demotePlanned, insertValidated,
    bind_eq_ok] at hwrite
  obtain ⟨s₁, ⟨-, -, hinsert⟩, s₂, hsame, s₃, hsame', hstore⟩ := hwrite
  obtain rfl := Except.ok.inj hsame
  obtain rfl := Except.ok.inj hsame'
  obtain rfl := Except.ok.inj hstore
  exact hinsert

/-- **A settled revision pair leaves one version standing.**  The claim forms a revision pair with the
pass over a snapshot, and is ACTIVE when the pass writes; until the cascade, no reference is added to the
claim, no pass carries it forward, and no entry that it cites changes its generation.  A contradiction
confirmed against it is settled by the generation, so the new claim is inserted; then the cascade of the
snapshot retires the earlier claim, if nothing did before, and keeps the new one. -/
theorem settled_pair_leaves_one (contentHash : String → String) (modelId : String)
    (table : TransitionTable) (records : RecordBuilder) {store locked written final : Store}
    {entry : CorpusEntry} {snapshot : SnapshotRow} {existing : List Particle}
    {carryForwardIds candidateContents excludeIds : List String} {claimId recordId : String}
    {outcome settled : LadderOutcome} {new earlier : Particle} {trigger : TriggerRef}
    {embedding : Option EmbeddingJson} {now : Instant} (hsound : CitationsSound store)
    (hread : EdgesRead store) (hloaded : entry.LoadedFrom store)
    (hsnapshot : snapshot ∈ entry.snapshots)
    (hexisting : ∀ p ∈ existing, ∃ row, store.get? p.id = some row ∧ row.model = p)
    (hclaim : claimId ∈ loadRevisionClaims contentHash store existing entry snapshot carryForwardIds
      candidateContents)
    (hbetween : ReflTransGen (Beside table entry.entryId claimId) store locked)
    (hactive : IsActive locked claimId) (hsettled : settleByGeneration outcome = some settled)
    (hwrite : applyConflictPlan contentHash modelId table now locked
      (planConflictWrites records recordId settled new earlier trigger) earlier embedding =
        .ok written)
    (hstates : ∃ ref ∈ new.provenance, ref.type = .SOURCE ∧ ref.corpusEntryId = entry.entryId ∧
      ref.snapshotId = some snapshot.snapshotId)
    (hrest : ReflTransGen (Beside table entry.entryId claimId) written final)
    (hkept : ∀ row, final.get? new.id = some row → ∀ ref ∈ new.provenance,
      ref ∈ row.model.provenance)
    (hexclude : claimId ∉ excludeIds) (absent : Bool) (actor : String) :
    ∃ result, cascadeSupersededGeneration table now final entry.entryId snapshot.snapshotId excludeIds
        absent actor = .ok result ∧
      (∀ row, final.get? claimId = some row → row.model.status = .ACTIVE →
        result.store.get? claimId =
          some (row.withStatus now .PROVENANCE_STALE (some .RETRACTED_DEPENDENCY))) ∧
      ¬ IsActive result.store claimId ∧
      (IsActive final new.id → IsActive result.store new.id) := by
  have houtdated := outdated_of_revision hsound hread hloaded hsnapshot hexisting hclaim
  have hlocked := houtdated.run hbetween
  have hstored : (locked.get? claimId).isSome = true := by
    obtain ⟨row, hrow, -⟩ := hactive
    exact Option.isSome_iff_exists.2 ⟨row, hrow⟩
  have hwritten := hlocked.quiet (quiet_insertParticle (insert_of_settled hsettled hwrite) hstored)
  obtain ⟨ref, href, hsource, hown, hnames⟩ := hstates
  obtain ⟨result, hresult, hretires, hgone, hsame⟩ := (hwritten.run hrest).cascade now hexclude
    absent actor fun row hrow => ⟨ref, hkept row hrow ref href, hsource, hown, hnames⟩
  refine ⟨result, hresult, hretires, hgone, ?_⟩
  rintro ⟨row, hrow, hnew⟩
  exact ⟨row, hsame.trans hrow, hnew⟩

/-- `E2` is extracted, and an older snapshot was never processed; `p` is the output of `E1`. -/
def revisedStore : Store :=
  (generationStore []
    [responseRow "E0" "E" 0 .PENDING, responseRow "E1" "E" 1 .COMPLETE,
      responseRow "E2" "E" 2 .IN_PROGRESS]
    [⟨.SOURCE, "E", "E1", none, none⟩]).getD {}

/-- The new version of `p`. -/
def revisedClaim : Particle :=
  { id := "c", content := "c", provenance := [⟨.SOURCE, "E", "E2", none, none⟩] }

/-- The store once another pass has processed the older snapshot. -/
def revisedLocked : Store :=
  updateExtractionStatus (((cascadeSupersededGeneration .documented 4 revisedStore "E" "E0" [] false
    "extract").map CascadeResult.store).toOption.getD {}) "E0" .COMPLETE

/-- The store once the pair has been written. -/
def revisedWritten : Store :=
  ((applyConflictPlan id "m" .documented 5 revisedLocked
    (planConflictWrites .documented "r" { verdict := some .CORROBORATES } revisedClaim
      { id := "p", content := "p" } (triggerRefFor revisedClaim)) { id := "p", content := "p" }
    none).toOption).getD {}

theorem settled_pair_leaves_one_revised :
    ∃ result, cascadeSupersededGeneration .documented 5 revisedWritten "E" "E2" [] false "extract" =
        .ok result ∧ ¬ IsActive result.store "p" ∧ IsActive result.store "c" := by
  let entry : CorpusEntry := ⟨"E", .MUTABLE, revisedStore.snapshots.rows⟩
  let existing : List Particle := revisedStore.particles.rows.map ParticleRow.model
  have hsound : CitationsSound revisedStore :=
    .of_rows (by decide +kernel) (by decide +kernel) (by decide +kernel)
  have hedges : ∀ edge ∈ revisedStore.edges.rows, ∀ row ∈ revisedStore.particles.rows,
      row.id = edge.particleId → ∃ ref ∈ row.model.provenance, ref.type = .SOURCE ∧
        ref.corpusEntryId = edge.corpusEntryId ∧ ref.snapshotId = edge.snapshotId := by
    decide +kernel
  have hread : EdgesRead revisedStore := fun edge hedge row hrow _ =>
    hedges edge hedge row (ParticleTable.get?_eq_some.1 hrow).1 (ParticleTable.id_of_get? hrow)
  have hloaded : entry.LoadedFrom revisedStore :=
    ⟨⟨{ entryId := "E" }, by decide +kernel, rfl⟩, by decide +kernel⟩
  have hexisting : ∀ p ∈ existing, ∃ row, revisedStore.get? p.id = some row ∧ row.model = p := by
    decide +kernel
  -- the pass over the older snapshot is late, and keeps what the current generation states
  have hbetween : ReflTransGen (Beside .documented "E" "p") revisedStore revisedLocked := by
    obtain ⟨result, hresult, -, -⟩ := cascade_retired .documented 4 "E0" [] false "extract"
      (by decide +kernel : revisedStore.entries.get? "E" = some { entryId := "E" }) rfl
    have hlocked : revisedLocked = updateExtractionStatus result.store "E0" .COMPLETE := by
      rw [revisedLocked, hresult]
      rfl
    have hrecord : responseRow "E0" "E" 0 .PENDING ∈ revisedStore.snapshots.rows := by decide +kernel
    have hactive : IsActive result.store "p" := by
      have hcomplete : IsActive revisedLocked "p" := by decide +kernel
      rwa [hlocked] at hcomplete
    have hlate : Beside .documented "E" "p" revisedStore
        (updateExtractionStatus result.store "E0" .COMPLETE) :=
      .processed hrecord rfl List.not_mem_nil hresult hactive
    exact .single (hlocked ▸ hlate)
  have hclaim : "p" ∈ loadRevisionClaims id revisedStore existing entry
      (responseRow "E2" "E" 2 .IN_PROGRESS) [] ["c"] := by decide +kernel
  have hsettled : settleByGeneration { verdict := some .INCONSISTENT } =
      some { verdict := some .CORROBORATES } := rfl
  have hwrite : applyConflictPlan id "m" .documented 5 revisedLocked
      (planConflictWrites .documented "r" { verdict := some .CORROBORATES } revisedClaim
        { id := "p", content := "p" } (triggerRefFor revisedClaim)) { id := "p", content := "p" }
      none = .ok revisedWritten := by decide +kernel
  have hkept : ∀ row, revisedWritten.get? revisedClaim.id = some row →
      ∀ ref ∈ revisedClaim.provenance, ref ∈ row.model.provenance := by decide +kernel
  obtain ⟨result, hresult, -, hgone, hstays⟩ := settled_pair_leaves_one id "m" .documented .documented
    hsound hread hloaded (by decide +kernel) hexisting hclaim hbetween (by decide +kernel) hsettled
    hwrite (by decide +kernel) .refl hkept List.not_mem_nil false "extract"
  exact ⟨result, hresult, hgone, hstays (by decide +kernel)⟩

end ParticlesEngine
