/-
**The re-anchor pass.**

A claim cut from the same passage as a retired one may have relied on it.  `operations/reanchor.py`
walks the update retirements after its cursor, asks the model which ACTIVE claims depended on each,
and replaces a dependent claim by a dated restatement, or retires it in favour of a claim that states
the restatement already.  Candidates, duplicates and conflicts are read before the model calls, which
hold no lock; only claims committed since the conflict pool was loaded are searched for again under
the lock.

Main definitions:

* `reanchorCandidates`, `duplicateOf`, `conflicting`, `uncheckedUnderLock` — what a restatement is
  gathered from and checked against;
* `settleVerdict`, `examineTrigger`, `runReanchor` — **the pass**.

Main results:

* `spec_reanchorCandidates`, `spec_duplicateOf` — what they yield was ACTIVE when it was read;
* `goodWrite_matchExisting`, `goodWrite_restateUnderLock` — the two writes that retire an original;
* `spec_runReanchor` — **every write of the pass is good**: each original is retired once, with at
  most one restatement, and it and a claim that it matches are ACTIVE unless another writer has
  retired them meanwhile.
-/

import ParticlesEngine.Paraphrases
import ParticlesEngine.Reindex

set_option relaxedAutoImplicit false
set_option autoImplicit false

open FirstByKey Interleave SortBy

namespace ParticlesEngine

/-! ### The pass -/

/-- What the re-anchor pass calls of the core package. -/
structure ReanchorPackage where
  isBeforeOrAt : Option Instant → Option Instant → Bool
  decideAfterReading : Option Reading → Option Outcome
  decideWrite : Option String → Bool → Outcome
  /-- a restatement dated before the winner does not contradict it -/
  exemptsWinner : Option String → Option Instant → Bool
  /-- the restatement of an original and of what retired, with its text, id and instant -/
  buildRestatement : Particle → Particle → String → String → Instant → Particle

/-- What the re-anchor pass reads of its process, and of what no status change touches. -/
structure ReanchorEnv where
  ingest : IngestEnv
  table : TransitionTable
  core : ReanchorPackage
  /-- the pass is enabled, and an embedding model is loaded -/
  enabled : Bool := true
  dryRun : Bool := false
  maxRetirements : ℕ
  maxRestatements : ℕ
  maxCandidatesPerRetirement : ℕ
  /-- `links_suggest.candidate_threshold` -/
  candidateThreshold : ℚ
  /-- `reconciliation.update_supersession.max_candidates` -/
  maxCandidates : ℕ
  /-- `_DEDUP_JUDGED` -/
  dedupJudged : ℕ := 3
  isExtractorAsserted : Particle → Bool
  writtenByNewerMinor : String → Bool
  encode : String → Embedding
  /-- `_passage_for`: the passage a retired claim and its candidates were cut from, and its date -/
  passageFor : Store → Particle → List Particle → Option (String × Option String)
  /-- the observer gate reconciles the retired claim with the particle -/
  observerReconciles : Store → Particle → Particle → Bool := fun _ _ _ => true
  /-- the ids that the change journal names as changed between two states, when it can say -/
  changedSince : PassStore → PassStore → Option (List String)

/-- `_Pool`: ACTIVE reconcilable claims by every subject they name. -/
structure ReanchorPool where
  bySubject : List (String × EmbeddingPair)
  /-- retired earlier in this run, and never offered again -/
  retired : List String := []
  /-- the state at the change marker, read before the claims were loaded -/
  watermark : PassStore
  /-- every claim loaded, and every restatement this run wrote -/
  known : List String

/-- What a run carries along. -/
structure ReanchorState where
  /-- second readings asked for -/
  readings : ℕ := 0
  index : Option ReanchorPool := none

/-- `_source_snapshots`. -/
def sourceSnapshots (p : Particle) : List String :=
  p.provenance.filterMap fun ref =>
    if ref.type = .SOURCE then ref.snapshotId.filter (· ≠ "") else none

/-- `_source_entries`. -/
def sourceEntries (p : Particle) : List String :=
  firstByKey id [] ((p.provenance.filter fun ref => ref.type = .SOURCE).map
    ProvenanceRef.corpusEntryId)

/-- Two lists share an element. -/
def overlap (a b : List String) : Bool := a.any fun x => x ∈ b

/-- `_already_examined`: an event records the claim against the retirement. -/
def alreadyExamined (events : List PassEvent) (particleId retiredId : String) : Bool :=
  let found := events.filter fun event =>
    match event with
    | .DEPENDENT_CLAIM_EXAMINED _ p r other => particleId ∈ [p, r] ++ other.toList
    | _ => false
  (found.take 50).any fun event =>
    match event with
    | .DEPENDENT_CLAIM_EXAMINED _ _ r _ => r = retiredId
    | _ => false

/-- Indexed pairs by every subject of theirs, those that are reconcilable. -/
def poolBySubject (core : CorePackage) (pairs : List EmbeddingPair) :
    List (String × EmbeddingPair) :=
  pairs.flatMap fun pair =>
    if core.isReconcilable pair.1 then pair.1.subjectIds.map fun subject => (subject, pair) else []

/-- `nearest`: the most similar claims that share a subject, best first. -/
def nearestInPool (core : CorePackage) (bySubject : List (String × EmbeddingPair))
    (skip subjectIds : List String) (embedding : Embedding) (floor : ℚ) (limit : ℕ) :
    List Particle :=
  let offered := subjectIds.flatMap fun subject =>
    (bySubject.filter fun entry => entry.1 = subject).map Prod.snd
  let near := offered.filter fun pair =>
    pair.1.id ∉ skip ∧ floor ≤ core.cosineSimilarity embedding pair.2
  let scored := (firstByKey (fun pair : EmbeddingPair => pair.1.id) [] near).map fun pair =>
    (core.cosineSimilarity embedding pair.2, pair.1)
  ((sortBy (fun c : ℚ × Particle => -c.1) scored).take limit).map Prod.snd

section Pass

variable (env : ReanchorEnv)

/-- `load_active_candidates`, uncached. -/
def ReanchorEnv.loadActiveCandidates (store : Store) : List EmbeddingPair :=
  getActiveParticlesWithEmbeddings env.ingest.float32 env.ingest.currentId store 0 none

/-! #### The candidates of a trigger -/

/-- One entry in the first loop of `_candidates`: its ACTIVE claims, each held once. -/
def gatherEntry (pool : List Particle) (entryId : String) : PassProg (Round (List Particle)) := do
  let found ← Prog.observe fun s => getActiveParticlesForEntry s.store entryId
  return .next (pool ++ firstByKey Particle.id (pool.map Particle.id) found)

/-- One claim in the second loop of `_candidates`. -/
def qualifyDependent (retired : Particle) (retiredDate : Option Instant) (out : List Particle)
    (p : Particle) : PassProg (Round (List Particle)) := do
  if p.id = retired.id ∨ p.status ≠ .ACTIVE ∨
      ¬ overlap (sourceSnapshots p) (sourceSnapshots retired) ∨
      ¬ overlap p.subjectIds retired.subjectIds ∨
      ¬ (env.isExtractorAsserted p ∧ env.ingest.core.isReconcilable p) then return .next out
  else do
    let date ← Prog.observe fun s => latestSourceDate s.store p
    let restatement ← Prog.observe fun s => reanchored s.store p
    let examined ← Prog.observe fun s => alreadyExamined s.events p.id retired.id
    let reconciles ← Prog.observe fun s => env.observerReconciles s.store retired p
    if env.core.isBeforeOrAt date retiredDate ∧ ¬ restatement ∧ ¬ examined ∧ reconciles ∧
        ¬ env.writtenByNewerMinor p.schemaVersion then return .next (out ++ [p])
    else return .next out

/-- **`_candidates`**, before ranking. -/
def reanchorCandidates (retired : Particle) : PassProg (List Particle) := do
  if (sourceSnapshots retired).isEmpty ∨ retired.subjectIds.isEmpty then return []
  else do
    let pool ← Prog.loop gatherEntry (sourceEntries retired) []
    let retiredDate ← Prog.observe fun s => latestSourceDate s.store retired
    Prog.loop (qualifyDependent env retired retiredDate) pool []

/-! #### The checks of a restatement -/

/-- One of the nearest claims: the judge reads it as a paraphrase of the restatement, or not. -/
def judgeDuplicate (_ : Option String) (p : Particle) : PassProg (Round (Option String)) := do
  let paraphrase ← Prog.reply PassReply.paraphrase
  if paraphrase then return .stop (some p.id) else return .next none

/-- The claims of the original's snapshots that come near the restatement, nearest first. -/
def nearSiblings (restatement : String) (original retired : Particle) (siblings : List Particle) :
    List Particle :=
  let held := siblings.filter fun p =>
    p.id ∉ [original.id, retired.id] ∧ overlap (sourceSnapshots p) (sourceSnapshots original)
  let scored := (held.map fun p =>
    (env.ingest.core.cosineSimilarity (env.encode restatement) (env.encode p.content), p)).filter
      fun c => env.candidateThreshold ≤ c.1
  ((sortBy (fun c : ℚ × Particle => -c.1) scored).take env.dedupJudged).map Prod.snd

/-- **`_duplicate_of`**: a claim that already states the restatement. -/
def duplicateOf (restatement : String) (original retired : Particle) :
    PassProg (Option String) := do
  let matched ← Prog.observe fun s =>
    (getActiveParticlesByContentHashes s.store [env.ingest.core.contentHash restatement]).find?
      fun p => p.id ∉ [original.id, retired.id]
  match matched with
  | some p => return some p.id
  | none => do
      let siblings ← Prog.loop gatherEntry (sourceEntries original) []
      Prog.loop judgeDuplicate (nearSiblings env restatement original retired siblings) none

/-- `_exempt_winner`: the claim that retired R, when the restatement precedes it. -/
def exemptWinner (retired : Particle) (date : Option String) : PassProg (Option String) := do
  let winner ← winnerOf retired
  match winner with
  | none => return none
  | some winner => do
      let winnerDate ← Prog.observe fun s => latestSourceDate s.store winner
      if env.core.exemptsWinner date winnerDate then return some winner.id else return none

/-- The claims that the contradiction check never asks about. -/
def conflictSkip (original retired : Particle) (exempt : Option String) : List String :=
  [original.id, retired.id] ++ exempt.toList

/-- The subjects of a restatement. -/
def restatedSubjects (original retired : Particle) : List String :=
  firstByKey id [] (original.subjectIds ++ retired.subjectIds)

/-- One claim of the pool: the probe signals a contradiction, fails, or finds none. -/
def probeConflict (_ : Bool × Option String) (p : Particle) :
    PassProg (Round (Bool × Option String)) := do
  let signal ← Prog.reply PassReply.contradiction
  match signal with
  | none => return .stop (true, none)
  | some true => return .stop (true, some p.id)
  | some false => return .next (false, none)

/-- **`_conflicting`**: whether the restatement contradicts a standing claim, and which. -/
def conflicting (restatement : String) (original retired : Particle) (index : ReanchorPool)
    (exempt : Option String) : PassProg (Bool × Option String) :=
  let pool := nearestInPool env.ingest.core index.bySubject
    (conflictSkip original retired exempt ++ index.retired) (restatedSubjects original retired)
    (env.encode restatement) env.ingest.cfg.subjectFloor env.maxCandidates
  let generic := env.ingest.core.isGenericClaim restatement
  Prog.loop probeConflict
    (pool.filter fun p => env.ingest.core.isGenericClaim p.content = generic) (false, none)

/-- **`_unchecked_under_lock`**: claims committed since the pool loaded that the check would ask. -/
def uncheckedUnderLock (restatement : String) (original retired : Particle) (index : ReanchorPool)
    (exempt : Option String) (s : PassStore) : List String :=
  let pairs : List EmbeddingPair :=
    match env.changedSince index.watermark s with
    | some changed =>
        (getActiveParticlesWithEmbeddingsByIds env.ingest.float32 env.ingest.currentId s.store
          changed).filter fun pair => !env.ingest.core.skipsConflictResolution pair.1.properties
    | none => env.loadActiveCandidates s.store
  let fresh := poolBySubject env.ingest.core (pairs.filter fun pair => pair.1.id ∉ index.known)
  let generic := env.ingest.core.isGenericClaim restatement
  ((nearestInPool env.ingest.core fresh (conflictSkip original retired exempt)
    (restatedSubjects original retired) (env.encode restatement) env.ingest.cfg.subjectFloor
    env.maxCandidates).filter fun p =>
      env.ingest.core.isGenericClaim p.content = generic).map Particle.id

/-! #### The writes -/

/-- `_record`, of an outcome that retires nothing. -/
def recordUnrestated (original retired : Particle) (otherId : Option String) (s : PassStore) :
    Except StoreError (PassWrite × PassStore) :=
  .ok (.unrestated original.id,
    { s with events := .DEPENDENT_CLAIM_EXAMINED .UNRESTATED original.id retired.id otherId ::
        s.events })

/-- The write of a match: the original retired in favour of the claim that states it already. -/
def matchExisting (original retired : Particle) (existingId : String) (s : PassStore) :
    Except StoreError (PassWrite × PassStore) := do
  let store ← updateParticleStatus env.table s.clock s.store original.id .SUPERSEDED
    (some .SUPERSEDED_BY_REANCHOR)
  return (.matchedExisting original.id existingId,
    { s with
      store := store
      events := .DEPENDENT_CLAIM_EXAMINED .MATCHED_EXISTING original.id retired.id
        (some existingId) :: s.events })

/-- **`_write_restatement`**: insert the restatement and retire the original. -/
def writeRestatement (written original retired : Particle) (embedding : Embedding)
    (s : PassStore) : Except StoreError (PassWrite × PassStore) := do
  let store ← insertParticle env.ingest.core.contentHash env.ingest.currentId s.store written
    (some embedding)
  -- `copy_modality_stamp` needs both rows
  let _ ← orRaise (store.get? original.id) (.notFound original.id)
  let _ ← orRaise (store.get? written.id) (.notFound written.id)
  let store ← updateParticleStatus env.table s.clock store original.id .SUPERSEDED
    (some .SUPERSEDED_BY_REANCHOR)
  return (.restated original.id written.id,
    { s with
      store := store
      events := .DEPENDENT_CLAIM_EXAMINED .RESTATED original.id retired.id (some written.id) ::
        s.events })

/-- The write of a restatement, under the lock: the original stays when a claim committed meanwhile
was not checked against it. -/
def restateUnderLock (restatement : String) (written original retired : Particle)
    (index : ReanchorPool) (exempt : Option String) (s : PassStore) :
    Except StoreError (PassWrite × PassStore) :=
  match uncheckedUnderLock env restatement original retired index exempt s with
  | unchecked :: _ => recordUnrestated original retired (some unchecked) s
  | [] => writeRestatement env written original retired (env.encode restatement) s

/-! #### One verdict -/

/-- The pool with an original retired, and a restatement known. -/
def ReanchorPool.retire (index : ReanchorPool) (id : String) (written : List String) :
    ReanchorPool :=
  { index with retired := index.retired ++ [id], known := index.known ++ written }

/-- The writes of a verdict whose checks ran clean: the restatement is built and written. -/
def restate (now : Instant) (restatement : String) (original retired : Particle)
    (index : ReanchorPool) (exempt : Option String) : PassProg ReanchorPool := do
  let uuid ← Prog.reply PassReply.uuid
  let written := env.core.buildRestatement original retired restatement uuid now
  let write ← Prog.transact
    (restateUnderLock env restatement written original retired index exempt)
  match write with
  | .restated _ _ => return index.retire original.id [written.id]
  | _ => return index

/-- The contradiction check, unless a claim states the restatement already: the winner that is exempt
from it, and its answer. -/
def checkConflict (restatement : String) (original retired : Particle) (date : Option String)
    (index : ReanchorPool) (duplicate : Option String) :
    PassProg (Option String × Bool × Option String) :=
  if duplicate.isSome then return (none, false, none)
  else do
    let exempt ← exemptWinner env retired date
    let conflict ← conflicting env restatement original retired index exempt
    return (exempt, conflict)

/-- The write that `decide_write` asks for. -/
def writeOutcome (now : Instant) (restatement : String) (original retired : Particle)
    (index : ReanchorPool) (duplicate : Option String)
    (checked : Option String × Bool × Option String) : PassProg ReanchorPool :=
  match env.core.decideWrite duplicate checked.2.1 with
  | .MATCHED_EXISTING =>
      match duplicate with
      | none => Prog.raise .assertion
      | some existingId => do
          let _ ← Prog.transact (matchExisting env original retired existingId)
          return index.retire original.id []
  | .UNRESTATED => do
      let _ ← Prog.transact (recordUnrestated original retired checked.2.2)
      return index
  | _ => restate env now restatement original retired index checked.1

/-- The checks and the write of a restatement that the second reading upheld. -/
def checkAndWrite (now : Instant) (restatement : String) (original retired : Particle)
    (date : Option String) (index : ReanchorPool) : PassProg ReanchorPool := do
  let duplicate ← duplicateOf env restatement original retired
  let checked ← checkConflict env restatement original retired date index duplicate
  writeOutcome env now restatement original retired index duplicate checked

/-- **`_settle`** of one DEPENDS verdict. -/
def settleVerdict (now : Instant) (verdict : ProbeVerdict) (original retired : Particle)
    (date : Option String) (state : ℕ × ReanchorPool) : PassProg (ℕ × ReanchorPool) :=
  match verdict.restatement with
  | none => do
      let _ ← Prog.transact (recordUnrestated original retired none)
      return state
  | some restatement => do
      let reading ← Prog.reply PassReply.reading
      match env.core.decideAfterReading reading with
      | some .DEPENDENCY_REJECTED => return (state.1 + 1, state.2)
      | some .UNRESTATED => do
          let _ ← Prog.transact (recordUnrestated original retired none)
          return (state.1 + 1, state.2)
      | _ => do
          let index ← checkAndWrite env now restatement original retired date state.2
          return (state.1 + 1, index)

/-- One verdict in the loop of `run_reanchor`; a verdict on no candidate is a `KeyError`. -/
def takeVerdict (now : Instant) (retired : Particle) (date : Option String)
    (chosen : List Particle) (state : ℕ × ReanchorPool) (verdict : ProbeVerdict) :
    PassProg (Round (ℕ × ReanchorPool)) :=
  if verdict.depends then
    match chosen.find? fun p => p.id = verdict.candidateId with
    | none => Prog.raise (.notFound verdict.candidateId)
    | some original => do
        let state ← settleVerdict env now verdict original retired date state
        return .next state
  else return .next state

/-! #### The walk -/

/-- The candidates that go forward, the most similar to the retired claim first. -/
def rankDependents (retired : Particle) (candidates : List Particle) : List Particle :=
  let scored := candidates.map fun p =>
    (env.ingest.core.cosineSimilarity (env.encode retired.content) (env.encode p.content), p)
  ((sortBy (fun c : ℚ × Particle => -c.1) scored).take env.maxCandidatesPerRetirement).map Prod.snd

/-- The probe's verdicts, with a second ask about the candidates it left out; `none` when the first
gave no usable reply. -/
def probeDependents (chosen : List Particle) : PassProg (Option (List ProbeVerdict)) := do
  let first ← Prog.reply PassReply.probe
  match first with
  | none => return none
  | some verdicts =>
      if chosen.all fun p => p.id ∈ verdicts.map ProbeVerdict.candidateId then return some verdicts
      else do
        let again ← Prog.reply PassReply.probe
        return some (verdicts ++ again.getD [])

/-- The conflict pool, loaded before the first verdict; the marker is read first. -/
def loadPool (index : Option ReanchorPool) : PassProg ReanchorPool :=
  match index with
  | some index => return index
  | none => do
      let watermark ← Prog.observe id
      let loaded ← Prog.observe fun s => env.loadActiveCandidates s.store
      return {
        bySubject := poolBySubject env.ingest.core loaded
        watermark := watermark
        known := loaded.map fun pair => pair.1.id }

/-- **One trigger in the loop of `run_reanchor`.** -/
def examineTrigger (now : Instant) (state : ReanchorState) (item : Particle × Instant) :
    PassProg (Round ReanchorState) := do
  let retired := item.1
  if ¬ env.dryRun ∧ env.maxRestatements ≤ state.readings then return .stop state
  else do
    let candidates ← reanchorCandidates env retired
    let chosen := rankDependents env retired candidates
    if candidates.isEmpty ∨ env.dryRun then return .next state
    else do
      let located ← Prog.observe fun s => env.passageFor s.store retired chosen
      match located with
      | none => return .next state
      | some (_, date) => do
          let verdicts ← probeDependents chosen
          match verdicts with
          | none => return .stop state
          | some verdicts => do
              let index ← loadPool env state.index
              let settled ← Prog.loop (takeVerdict env now retired date chosen) verdicts
                (state.readings, index)
              return .next { readings := settled.1, index := some settled.2 }

/-- **`run_reanchor`** from a cursor. -/
def runReanchor (cursor : Option (Instant × String)) : PassProg Unit :=
  if env.enabled then do
    let triggers ← Prog.observe fun s =>
      getUpdateRetirementsAfter s.store cursor env.maxRetirements
    let now ← Prog.observe PassStore.clock
    let _ ← Prog.loop (examineTrigger env now) triggers {}
    return ()
  else return ()

end Pass

/-! ### What the pass holds -/

/-- A claim that was ACTIVE when the pass read it, as the original of a restatement. -/
structure HeldOriginal (g : PassWorld) (id : String) : Prop where
  held : HeldAs (fun status _ => status ≠ .PROVENANCE_STALE) g id
  /-- it is no record, and never becomes one -/
  claim : IsAs (fun status _ => status ≠ .INCONSISTENCY) g.shared.store id

section Held

variable {ingest : IngestEnv} {table : TransitionTable} {inv : PassWorld → Prop}
  {good : PassWorld → PassWrite → PassStore → Prop} {g g' : PassWorld} {id : String}

/-- No other writer turns a claim into a record. -/
theorem isAs_claim_other (h : IsAs (fun status _ => status ≠ .INCONSISTENCY) g.shared.store id)
    (hstep : OtherStep (applyOther ingest table) g g') :
    IsAs (fun status _ => status ≠ .INCONSISTENCY) g'.shared.store id := by
  obtain ⟨row, hrow, hclaim⟩ := h
  obtain ⟨change, s, happly, rfl⟩ := hstep
  cases change with
  | status particleId status reason =>
      obtain ⟨store, hstore, rfl⟩ := Option.map_eq_some_iff.1 happly
      obtain ⟨found, hfound, hallows, hget⟩ := get?_updateParticleStatus (toOption_eq_some.1 hstore)
      by_cases hid : particleId = id
      · subst hid
        obtain rfl := Option.some.inj (hfound.symm.trans hrow)
        refine ⟨_, (hget _).trans (if_pos rfl), fun hstatus => hclaim ?_⟩
        have hset : status = .INCONSISTENCY := hstatus
        rw [hset] at hallows
        exact table.to_inconsistency hallows
      · exact ⟨row, ((hget id).trans (if_neg hid)).trans hrow, hclaim⟩
  | reason particleId reason =>
      obtain ⟨store, hstore, rfl⟩ := Option.map_eq_some_iff.1 happly
      obtain ⟨found, hfound, -, hget⟩ := get?_updateStatusReason (toOption_eq_some.1 hstore)
      by_cases hid : particleId = id
      · subst hid
        obtain rfl := Option.some.inj (hfound.symm.trans hrow)
        exact ⟨_, (hget _).trans (if_pos rfl), hclaim⟩
      · exact ⟨row, ((hget id).trans (if_neg hid)).trans hrow, hclaim⟩
  | insert p embedding =>
      obtain ⟨store, hstore, rfl⟩ := Option.map_eq_some_iff.1 happly
      exact ⟨row, (get?_insertParticle_of_some (toOption_eq_some.1 hstore) hrow).2, hclaim⟩
  | event event =>
      obtain rfl := Option.some.inj happly
      exact ⟨row, hrow, hclaim⟩
  | clock now =>
      obtain rfl := Option.some.inj happly
      exact ⟨row, hrow, hclaim⟩

/-- **An original that was read stays held**, whatever others and the pass itself commit. -/
theorem HeldOriginal.moves (h : HeldOriginal g id)
    (hmove : Moves (applyOther ingest table) (GoodWrite true) g g') : HeldOriginal g' id := by
  rcases hmove with hstep | ⟨w, s, hgood, rfl⟩
  · exact ⟨h.held.other hstep, isAs_claim_other h.claim hstep⟩
  · by_cases hid : id ∈ w.retires
    · obtain ⟨-, row, -, -, hrow, hleaves⟩ := hgood.retired id hid
      have hstatus : row.model.status = .SUPERSEDED := by
        rw [leaves_of_byReanchor hgood.kind, Prod.mk.injEq] at hleaves
        exact hleaves.1
      exact ⟨HeldAs.of_get? (g := g.wrote w s) hrow (by simp [hstatus]), row, hrow, by simp [hstatus]⟩
    · obtain ⟨row, hrow, hclaim⟩ := h.claim
      exact ⟨h.held.kept rfl fun row hrow => hgood.others id row hrow hid,
        row, hgood.others id row hrow hid, hclaim⟩

theorem HeldOriginal.later (h : HeldOriginal g id) (hlater : Later (applyOther ingest table) g g') :
    HeldOriginal g' id :=
  hlater.preserves (P := fun g => HeldOriginal g id) (fun _ _ hg hstep => hg.moves (.inl hstep)) h

/-- A claim that is read ACTIVE is held, as an original and as a duplicate. -/
theorem heldOriginal_of_active {row : ParticleRow} (hrow : g.get? id = some row)
    (hactive : row.model.status = .ACTIVE) : HeldOriginal g id :=
  ⟨HeldAs.of_get? hrow (by simp [hactive]), row, hrow, by simp [hactive]⟩

end Held

/-! ### What the pass reads -/

section Reads

variable {env : ReanchorEnv} {g g' : PassWorld}

/-- The specification of a program of the pass. -/
abbrev ReanchorSpec (env : ReanchorEnv) {α : Type} (p : PassProg α) (Q : α → PassWorld → Prop)
    (g : PassWorld) : Prop :=
  Spec (applyOther env.ingest env.table) (PassInv true) (GoodWrite true) p Q g

/-- What holds of every claim that is read ACTIVE, and is stable while others move. -/
structure Readable (env : ReanchorEnv) (P : PassWorld → String → Prop) : Prop where
  active : ∀ g id row, g.get? id = some row → row.model.status = .ACTIVE → P g id
  later : ∀ g g' id, P g id → Later (applyOther env.ingest env.table) g g' → P g' id

theorem readable_original (env : ReanchorEnv) : Readable env HeldOriginal :=
  ⟨fun _ _ _ => heldOriginal_of_active, fun _ _ _ h hlater => h.later hlater⟩

theorem readable_duplicate (env : ReanchorEnv) : Readable env (HeldAs fun status _ => status = .ACTIVE) :=
  ⟨fun _ _ _ hrow hactive => HeldAs.of_get? hrow hactive, fun _ _ _ h hlater => h.later hlater⟩

theorem Readable.of_mem {P : PassWorld → String → Prop} (hP : Readable env P) {row : ParticleRow}
    (hrow : row ∈ g.shared.store.particles.rows) (hactive : row.model.status = .ACTIVE) :
    P g row.model.id :=
  hP.active g row.id row (ParticleTable.get?_id hrow) hactive

/-- **The claims of some entries are read ACTIVE.** -/
theorem spec_gather {P : PassWorld → String → Prop} (hP : Readable env P) {entries : List String}
    {Q : List Particle → PassWorld → Prop}
    (h : ∀ pool g', Later (applyOther env.ingest env.table) g g' →
      (∀ p ∈ pool, P g' p.id) → Q pool g') :
    ReanchorSpec env (Prog.loop gatherEntry entries []) Q g := by
  refine Spec.mono (Spec.loop_inv (fun (pool : List Particle) g' =>
    Later (applyOther env.ingest env.table) g g' ∧ ∀ p ∈ pool, P g' p.id) ?_
      ⟨Later.refl _ g, by simp⟩) fun pool g' hpool => h pool g' hpool.1 hpool.2
  rintro entryId - pool g₁ ⟨hlater₁, hpool⟩
  refine Spec.bind (Spec.observe fun g₂ hlater₂ _ => ?_)
  refine ⟨hlater₁.trans hlater₂, fun p hp => ?_⟩
  rcases List.mem_append.1 hp with hp | hp
  · exact hP.later g₁ g₂ p.id (hpool p hp) hlater₂
  · obtain ⟨row, hrow, rfl⟩ := List.mem_map.1 (mem_of_mem_firstByKey hp)
    obtain ⟨hmem, hactive⟩ := List.mem_filter.1 hrow
    simp only [Bool.and_eq_true, decide_eq_true_eq] at hactive
    exact hP.of_mem hmem hactive.1

/-- **The candidates of a trigger are held.** -/
theorem spec_reanchorCandidates {retired : Particle} {Q : List Particle → PassWorld → Prop}
    (h : ∀ cs g', Later (applyOther env.ingest env.table) g g' →
      (∀ p ∈ cs, HeldOriginal g' p.id) → Q cs g') :
    ReanchorSpec env (reanchorCandidates env retired) Q g := by
  unfold reanchorCandidates
  split_ifs
  · exact h [] g (Later.refl _ g) (by simp)
  · refine Spec.bind (spec_gather (readable_original env) fun pool g₁ hlater₁ hpool => ?_)
    refine Spec.bind (Spec.observe fun g₂ hlater₂ _ => ?_)
    refine Spec.mono (Spec.loop_inv (fun (out : List Particle) g' =>
      Later (applyOther env.ingest env.table) g₂ g' ∧ ∀ p ∈ out, HeldOriginal g' p.id) ?_
        ⟨Later.refl _ g₂, by simp⟩) fun out g' hout =>
          h out g' ((hlater₁.trans hlater₂).trans hout.1) hout.2
    rintro p hp out g₃ ⟨hlater₃, hout⟩
    have hheld := (hpool p hp).later (hlater₂.trans hlater₃)
    unfold qualifyDependent
    split_ifs
    · exact ⟨hlater₃, hout⟩
    · refine Spec.bind (Spec.observe fun g₄ hlater₄ _ => ?_)
      refine Spec.bind (Spec.observe fun g₅ hlater₅ _ => ?_)
      refine Spec.bind (Spec.observe fun g₆ hlater₆ _ => ?_)
      refine Spec.bind (Spec.observe fun g₇ hlater₇ _ => ?_)
      have hlater : Later (applyOther env.ingest env.table) g₃ g₇ :=
        ((hlater₄.trans hlater₅).trans hlater₆).trans hlater₇
      have hout' : ∀ q ∈ out, HeldOriginal g₇ q.id := fun q hq => (hout q hq).later hlater
      split_ifs
      · refine ⟨hlater₃.trans hlater, fun q hq => ?_⟩
        rcases List.mem_append.1 hq with hq | hq
        · exact hout' q hq
        · obtain rfl := List.mem_singleton.1 hq
          exact hheld.later hlater
      · exact ⟨hlater₃.trans hlater, hout'⟩

/-- **A duplicate is held ACTIVE.** -/
theorem spec_duplicateOf {restatement : String} {original retired : Particle}
    {Q : Option String → PassWorld → Prop}
    (h : ∀ found g', Later (applyOther env.ingest env.table) g g' →
      (∀ d ∈ found, HeldAs (fun status _ => status = .ACTIVE) g' d) → Q found g') :
    ReanchorSpec env (duplicateOf env restatement original retired) Q g := by
  refine Spec.bind (Spec.observe fun g₁ hlater₁ _ => ?_)
  split
  · next p hp =>
      refine h _ g₁ hlater₁ fun d hd => ?_
      obtain rfl := Option.some.inj hd
      obtain ⟨row, hrow, rfl⟩ := List.mem_map.1 (List.mem_of_find?_eq_some hp)
      obtain ⟨hmem, hactive⟩ := List.mem_filter.1 hrow
      exact (readable_duplicate env).of_mem hmem (of_decide_eq_true hactive).1
  · refine Spec.bind (spec_gather (readable_duplicate env) fun siblings g₂ hlater₂ hsiblings => ?_)
    refine Spec.mono (Spec.loop_inv (fun (found : Option String) g' => g' = g₂ ∧
      ∀ d ∈ found, HeldAs (fun status _ => status = .ACTIVE) g₂ d) ?_ ⟨rfl, by simp⟩) ?_
    · rintro p hp found g' ⟨rfl, hfound⟩
      refine Spec.bind (Spec.reply fun r => ?_)
      split_ifs
      · refine ⟨rfl, fun d hd => ?_⟩
        obtain rfl := Option.some.inj hd
        obtain ⟨c, hc, rfl⟩ := List.mem_map.1 hp
        have hmem := mem_sortBy.1 (List.mem_of_mem_take hc)
        obtain ⟨q, hq, rfl⟩ := List.mem_map.1 (List.mem_filter.1 hmem).1
        exact hsiblings q (List.mem_filter.1 hq).1
      · exact ⟨rfl, fun d hd => (by cases hd)⟩
    · rintro found g' ⟨rfl, hfound⟩
      exact h found g' (hlater₁.trans hlater₂) hfound

/-- The winner that is exempt is found by reads alone. -/
theorem spec_exemptWinner {retired : Particle} {date : Option String}
    {Q : Option String → PassWorld → Prop}
    (h : ∀ exempt g', Later (applyOther env.ingest env.table) g g' → Q exempt g') :
    ReanchorSpec env (exemptWinner env retired date) Q g := by
  refine Spec.bind (spec_winnerOf fun winner g₁ hlater₁ _ => ?_)
  split
  · exact h none g₁ hlater₁
  · refine Spec.bind (Spec.observe fun g₂ hlater₂ _ => ?_)
    split_ifs
    · exact h _ g₂ (hlater₁.trans hlater₂)
    · exact h _ g₂ (hlater₁.trans hlater₂)

/-- The contradiction check asks, and reads nothing. -/
theorem spec_conflicting {restatement : String} {original retired : Particle} {index : ReanchorPool}
    {exempt : Option String} {Q : Bool × Option String → PassWorld → Prop}
    (h : ∀ conflict, Q conflict g) :
    ReanchorSpec env (conflicting env restatement original retired index exempt) Q g := by
  refine Spec.mono (Spec.loop_inv (fun (_ : Bool × Option String) g' => g' = g) ?_ rfl) ?_
  · rintro p - conflict g' rfl
    refine Spec.bind (Spec.reply fun r => ?_)
    split
    · rfl
    · rfl
    · rfl
  · rintro conflict g' rfl
    exact h conflict

end Reads

/-! ### The writes of the pass -/

section Writes

variable {env : ReanchorEnv} {g g' : PassWorld}

theorem goodWrite_recordUnrestated {original retired : Particle} {otherId : Option String}
    {w : PassWrite} {s : PassStore}
    (hwrite : recordUnrestated original retired otherId g.shared = .ok (w, s)) :
    GoodWrite true g w s := by
  obtain ⟨rfl, rfl⟩ := Prod.mk.inj (Except.ok.inj hwrite)
  exact goodWrite_of_store_eq rfl rfl rfl

/-- **What a supersession of a held original finds**: the claim is ACTIVE or PROVENANCE_STALE, and
the pass has not retired it before. -/
theorem HeldOriginal.superseded {id : String} {row : ParticleRow} (h : HeldOriginal g id)
    (hinv : PassInv true g) (hrow : g.get? id = some row)
    (hallows : env.table.allows (some row.model.status) .SUPERSEDED = true) :
    id ∉ retirements g.history ∧ row.model.status ≠ .SUPERSEDED ∧
      (LeftAs (fun status _ => status ≠ .PROVENANCE_STALE) g id → row.model.status = .ACTIVE) := by
  have hnot : row.model.status ≠ .SUPERSEDED := by
    intro hstatus
    rw [hstatus] at hallows
    exact absurd ((env.table.from_superseded _).1 hallows) (by decide)
  refine ⟨fun hid => ?_, hnot, fun hleft => ?_⟩
  · obtain ⟨found, hfound, hstatus⟩ := hinv.superseded hid
    obtain rfl := Option.some.inj (hfound.symm.trans hrow)
    exact hnot hstatus
  · obtain ⟨found, hfound, hstale⟩ := h.held.isAs hleft
    obtain rfl := Option.some.inj (hfound.symm.trans hrow)
    obtain ⟨found, hfound, hclaim⟩ := h.claim
    obtain rfl := Option.some.inj (hfound.symm.trans hrow)
    cases hstatus : found.model.status with
    | ACTIVE => rfl
    | INCONSISTENCY => exact absurd hstatus hclaim
    | PROVENANCE_STALE => exact absurd hstatus hstale
    | SUPERSEDED => exact absurd hstatus hnot
    | RETRACTED => simp [hstatus, env.table.from_retracted] at hallows

/-- **A match is good.** -/
theorem goodWrite_matchExisting {original retired : Particle} {existingId : String} {w : PassWrite}
    {s : PassStore} (hinv : PassInv true g) (horiginal : HeldOriginal g original.id)
    (hexisting : HeldAs (fun status _ => status = .ACTIVE) g existingId)
    (hwrite : matchExisting env original retired existingId g.shared = .ok (w, s)) :
    GoodWrite true g w s := by
  obtain ⟨store, hstore, hresult⟩ := bind_eq_ok.1 hwrite
  obtain ⟨rfl, rfl⟩ := Prod.mk.inj (Except.ok.inj hresult)
  obtain ⟨row, hrow, hallows, hget⟩ := get?_updateParticleStatus hstore
  obtain ⟨honce, hnot, hactive⟩ := horiginal.superseded hinv hrow hallows
  refine goodWrite_of_retires rfl rfl honce hrow hnot ((hget _).trans (if_pos rfl)) rfl ?_
    (fun hspare => hactive hspare.1) ?_ (fun _ q u hw => (by cases hw))
  · intro id found hfound hid
    exact ((hget id).trans (if_neg (Ne.symm hid))).trans hfound
  · intro hspare o d hw
    obtain ⟨-, rfl⟩ := PassWrite.matchedExisting.inj hw
    exact hexisting.isAs hspare.2

/-- **A restatement is good.** -/
theorem goodWrite_writeRestatement {written original retired : Particle} {embedding : Embedding}
    {w : PassWrite} {s : PassStore} (hinv : PassInv true g) (horiginal : HeldOriginal g original.id)
    (hwrite : writeRestatement env written original retired embedding g.shared = .ok (w, s)) :
    GoodWrite true g w s := by
  unfold writeRestatement at hwrite
  obtain ⟨inserted, hinsert, hwrite⟩ := bind_eq_ok.1 hwrite
  obtain ⟨-, -, hwrite⟩ := bind_eq_ok.1 hwrite
  obtain ⟨-, -, hwrite⟩ := bind_eq_ok.1 hwrite
  obtain ⟨store, hstore, hresult⟩ := bind_eq_ok.1 hwrite
  obtain ⟨rfl, rfl⟩ := Prod.mk.inj (Except.ok.inj hresult)
  have hkept : ∀ id row, g.get? id = some row → inserted.get? id = some row := by
    intro id row hrow
    exact (get?_insertParticle_of_some hinsert hrow).2
  obtain ⟨found, hfound, hallows, hget⟩ := get?_updateParticleStatus hstore
  obtain ⟨row, hrow, -⟩ := horiginal.claim
  obtain rfl := Option.some.inj (hfound.symm.trans (hkept _ _ hrow))
  obtain ⟨honce, hnot, hactive⟩ := horiginal.superseded hinv hrow hallows
  refine goodWrite_of_retires rfl rfl honce hrow hnot ((hget _).trans (if_pos rfl)) rfl ?_
    hactive (fun _ o d hw => (by cases hw)) (fun _ q u hw => (by cases hw))
  intro id row hrow hid
  exact ((hget id).trans (if_neg (Ne.symm hid))).trans (hkept id row hrow)

theorem goodWrite_restateUnderLock {restatement : String} {written original retired : Particle}
    {index : ReanchorPool} {exempt : Option String} {w : PassWrite} {s : PassStore}
    (hinv : PassInv true g) (horiginal : HeldOriginal g original.id)
    (hwrite : restateUnderLock env restatement written original retired index exempt g.shared =
      .ok (w, s)) : GoodWrite true g w s := by
  unfold restateUnderLock at hwrite
  split at hwrite
  · exact goodWrite_recordUnrestated hwrite
  · exact goodWrite_writeRestatement hinv horiginal hwrite

end Writes

/-! ### The run -/

section Run

variable {env : ReanchorEnv} {g g' : PassWorld}

theorem spec_restate {now : Instant} {restatement : String} {original retired : Particle}
    {index : ReanchorPool} {exempt : Option String} (horiginal : HeldOriginal g original.id) :
    ReanchorSpec env (restate env now restatement original retired index exempt)
      (fun _ _ => True) g := by
  refine Spec.bind (Spec.reply fun r => ?_)
  refine Spec.bind (Spec.transact fun g₁ hlater₁ hinv w s hwrite => ?_)
  refine ⟨goodWrite_restateUnderLock hinv (horiginal.later hlater₁) hwrite, ?_⟩
  split
  · trivial
  · trivial

/-- A write that retires nothing, and then a result. -/
theorem spec_recordUnrestated {α : Type} {original retired : Particle} {otherId : Option String}
    (a : α) : ReanchorSpec env
      (do let _ ← Prog.transact (recordUnrestated original retired otherId); return a)
      (fun _ _ => True) g := by
  refine Spec.bind (Spec.transact fun g₁ _ _ w s hwrite => ?_)
  exact ⟨goodWrite_recordUnrestated hwrite, trivial⟩

theorem spec_checkConflict {restatement : String} {original retired : Particle}
    {date : Option String} {index : ReanchorPool} {duplicate : Option String}
    {Q : Option String × Bool × Option String → PassWorld → Prop}
    (h : ∀ checked g', Later (applyOther env.ingest env.table) g g' → Q checked g') :
    ReanchorSpec env (checkConflict env restatement original retired date index duplicate) Q g := by
  unfold checkConflict
  split_ifs
  · exact h _ g (Later.refl _ g)
  · refine Spec.bind (spec_exemptWinner fun exempt g₁ hlater₁ => ?_)
    exact Spec.bind (spec_conflicting fun conflict => h _ g₁ hlater₁)

/-- **The write of an outcome.** -/
theorem spec_writeOutcome {now : Instant} {restatement : String} {original retired : Particle}
    {index : ReanchorPool} {duplicate : Option String}
    {checked : Option String × Bool × Option String} (horiginal : HeldOriginal g original.id)
    (hduplicate : ∀ d ∈ duplicate, HeldAs (fun status _ => status = .ACTIVE) g d) :
    ReanchorSpec env (writeOutcome env now restatement original retired index duplicate checked)
      (fun _ _ => True) g := by
  unfold writeOutcome
  split
  · cases duplicate with
    | none => trivial
    | some existingId =>
        refine Spec.bind (Spec.transact fun g₁ hlater₁ hinv w s hwrite => ?_)
        exact ⟨goodWrite_matchExisting hinv (horiginal.later hlater₁)
          ((hduplicate existingId rfl).later hlater₁) hwrite, trivial⟩
  · exact spec_recordUnrestated index
  · exact spec_restate horiginal

/-- **The checks and the write of a restatement.** -/
theorem spec_checkAndWrite {now : Instant} {restatement : String} {original retired : Particle}
    {date : Option String} {index : ReanchorPool} (horiginal : HeldOriginal g original.id) :
    ReanchorSpec env (checkAndWrite env now restatement original retired date index)
      (fun _ _ => True) g := by
  refine Spec.bind (spec_duplicateOf fun duplicate g₁ hlater₁ hduplicate => ?_)
  refine Spec.bind (spec_checkConflict fun checked g₂ hlater₂ => ?_)
  exact spec_writeOutcome ((horiginal.later hlater₁).later hlater₂)
    fun d hd => (hduplicate d hd).later hlater₂

theorem spec_settleVerdict {now : Instant} {verdict : ProbeVerdict} {original retired : Particle}
    {date : Option String} {state : ℕ × ReanchorPool} (horiginal : HeldOriginal g original.id) :
    ReanchorSpec env (settleVerdict env now verdict original retired date state)
      (fun _ _ => True) g := by
  unfold settleVerdict
  split
  · exact spec_recordUnrestated state
  · refine Spec.bind (Spec.reply fun r => ?_)
    split
    · trivial
    · exact spec_recordUnrestated _
    · exact Spec.bind (Spec.mono (spec_checkAndWrite horiginal) fun _ _ _ => trivial)

/-- **The verdicts of a trigger**, of candidates that are held throughout. -/
theorem spec_takeVerdicts {now : Instant} {retired : Particle} {date : Option String}
    {chosen : List Particle} {verdicts : List ProbeVerdict} {state : ℕ × ReanchorPool}
    (hchosen : ∀ p ∈ chosen, HeldOriginal g p.id) :
    ReanchorSpec env (Prog.loop (takeVerdict env now retired date chosen) verdicts state)
      (fun _ _ => True) g := by
  refine Spec.mono (Spec.loop_inv (fun _ g => ∀ p ∈ chosen, HeldOriginal g p.id) ?_ hchosen)
    fun _ _ _ => trivial
  intro verdict _ state g hheld
  unfold takeVerdict
  split_ifs
  · split
    · trivial
    · next original horiginal =>
        have hmem := List.mem_of_find?_eq_some horiginal
        have hmoves : ∀ g g' : PassWorld, (∀ p ∈ chosen, HeldOriginal g p.id) →
            Moves (applyOther env.ingest env.table) (GoodWrite true) g g' →
            ∀ p ∈ chosen, HeldOriginal g' p.id :=
          fun _ _ h hmove p hp => (h p hp).moves hmove
        refine Spec.bind (Spec.mono
          (Spec.frame hmoves hheld (spec_settleVerdict (hheld original hmem))) ?_)
        exact fun _ _ h => h.2
  · exact hheld

theorem spec_loadPool {index : Option ReanchorPool} {Q : ReanchorPool → PassWorld → Prop}
    (h : ∀ index g', Later (applyOther env.ingest env.table) g g' → Q index g') :
    ReanchorSpec env (loadPool env index) Q g := by
  unfold loadPool
  split
  · exact h _ g (Later.refl _ g)
  · refine Spec.bind (Spec.observe fun g₁ hlater₁ _ => ?_)
    refine Spec.bind (Spec.observe fun g₂ hlater₂ _ => ?_)
    exact h _ g₂ (hlater₁.trans hlater₂)

theorem spec_probeDependents {chosen : List Particle}
    {Q : Option (List ProbeVerdict) → PassWorld → Prop} (h : ∀ verdicts, Q verdicts g) :
    ReanchorSpec env (probeDependents chosen) Q g := by
  refine Spec.bind (Spec.reply fun r => ?_)
  split
  · exact h none
  · split_ifs
    · exact h _
    · exact Spec.bind (Spec.reply fun r => h _)

theorem mem_of_mem_rankDependents {retired p : Particle} {candidates : List Particle}
    (h : p ∈ rankDependents env retired candidates) : p ∈ candidates := by
  obtain ⟨c, hc, rfl⟩ := List.mem_map.1 h
  obtain ⟨q, hq, rfl⟩ := List.mem_map.1 (mem_sortBy.1 (List.mem_of_mem_take hc))
  exact hq

/-- **One trigger of the walk.** -/
theorem spec_examineTrigger {now : Instant} {state : ReanchorState} {item : Particle × Instant} :
    ReanchorSpec env (examineTrigger env now state item) (fun _ _ => True) g := by
  unfold examineTrigger
  dsimp only
  split_ifs
  · trivial
  · refine Spec.bind (spec_reanchorCandidates fun candidates g₁ _ hcandidates => ?_)
    split_ifs
    · trivial
    · refine Spec.bind (Spec.observe fun g₂ hlater₂ _ => ?_)
      split
      · trivial
      · refine Spec.bind (spec_probeDependents fun verdicts => ?_)
        split
        · trivial
        · refine Spec.bind (spec_loadPool fun index g₃ hlater₃ => ?_)
          refine Spec.bind (Spec.mono (spec_takeVerdicts fun p hp => ?_) fun _ _ _ => trivial)
          exact (hcandidates p (mem_of_mem_rankDependents hp)).later (hlater₂.trans hlater₃)

/-- **Every write of the pass is good.** -/
theorem spec_runReanchor (env : ReanchorEnv) (cursor : Option (Instant × String)) (s : PassStore) :
    ReanchorSpec env (runReanchor env cursor) (fun _ _ => True) ⟨s, []⟩ := by
  unfold runReanchor
  split_ifs
  · refine Spec.bind (Spec.observe fun g₁ _ _ => ?_)
    refine Spec.bind (Spec.observe fun g₂ _ _ => ?_)
    exact Spec.bind (Spec.mono (Spec.loop_inv (fun _ _ => True)
      (fun _ _ _ _ _ => spec_examineTrigger) trivial) fun _ _ _ => trivial)
  · trivial

end Run

end ParticlesEngine
