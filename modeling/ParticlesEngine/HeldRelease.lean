/-
**Releasing a held claim.**

A claim held behind a claim that has since been retired is asked about again: the pass selects the
ACTIVE claims it may contradict, checks it against each of them, and returns it to the store when
no check stands in the way.  The checks are calls to a language model and run outside the writer
lock, so the release selects once more under the lock, and keeps the claim held when the selection
chooses a claim that was committed since the pass loaded its candidates.

Main definitions:

* `selectPairs` — the ACTIVE claims a held claim is checked against;
* `PairCheck`, `checkPairs` — what the checks answer;
* `ReleasePackage` — the decision on the checks, of the core package;
* `restoreHeldClaim` — a held claim returns, folded into its twin or minted anew;
* `release`, `releaseItem` — the release of one record, and its turn in the pass.

Main result:

* `releaseItem_checked` — **what a release has checked, whatever other writers commit meanwhile**.
-/

import ParticlesEngine.ConflictPlan
import ParticlesEngine.SearchUnderLock

set_option relaxedAutoImplicit false
set_option autoImplicit false

open ChangeLog Runs SortBy

namespace ParticlesEngine

/-! ### The selection -/

/-- **`select_pairs`**: the nearest claim, then the pool of those about the same subjects. -/
def selectPairs (env : IngestEnv) (maxCandidates : ℕ) (held : Particle) (embedding : Embedding)
    (candidates : List EmbeddingPair) (exclude : List String) (speaker : Option SpeakerKey) :
    List Particle :=
  let pool := candidates.filter fun pair => pair.1.id ∉ exclude
  let generic := env.core.isGenericClaim held.content
  let nearest := findConflict env embedding pool (env.core.stanceHolder held) (some generic)
  let subjectIds := particleSubjectIds env.text speaker held
  nearest.toList ++
    if env.cfg.updateSupersession ∧ subjectIds ≠ [] ∧ env.core.stanceHolder held = none then
      -- the pool skips the nearest claim
      { SubjectIndex.build env pool speaker with
          retired := (nearest.map Particle.id).toList }.candidates env subjectIds embedding
        env.cfg.subjectFloor maxCandidates (some generic)
    else []

/-! ### The checks -/

/-- What the observer scopes of two claims say about reconciling them. -/
inductive PairPrecondition where
  | RECONCILE
  | DECLINE
  | REVIEW
  deriving DecidableEq, Repr

/-- What the checks of a held claim against one existing claim answered; a reading that did not
complete, or was not due, answered nothing. -/
structure PairCheck where
  existingId : String
  probe : Option Bool
  reading : Option Bool
  precondition : PairPrecondition
  deriving DecidableEq, Repr

/-- One of the two readings found no contradiction. -/
def PairCheck.compatible (check : PairCheck) : Bool :=
  check.probe = some false || (check.probe = some true && check.reading = some false)

/-- Both readings found one, and the observer precondition declines the pair. -/
def PairCheck.declined (check : PairCheck) : Bool :=
  check.probe = some true && check.reading = some true && check.precondition = .DECLINE

/-- The answers of the model, and the circuit breaker before each question. -/
structure Answers where
  probeOpen : Particle → Bool := fun _ => false
  probe : Particle → Option Bool
  readingOpen : Particle → Bool := fun _ => false
  reading : Particle → Option Bool

/-- **`_check`**: nothing when the breaker opened before a probe. -/
def checkPairs (answers : Answers) (gate : Option (Particle → PairPrecondition))
    (pairs : List Particle) : Option (List PairCheck) :=
  if pairs.any answers.probeOpen then none
  else
    some (pairs.map fun other =>
      { existingId := other.id
        probe := answers.probe other
        reading :=
          if answers.probe other = some true ∧ ¬ answers.readingOpen other then
            answers.reading other
          else none
        precondition := (gate.map fun verdict => verdict other).getD .RECONCILE })

/-- What a release does with its checks. -/
inductive ReleaseAction where
  | RELEASE
  | BLOCKED
  | INCOMPLETE
  deriving DecidableEq, Repr

/-- The decision on the checks of one record. -/
structure ReleaseDecision where
  action : ReleaseAction
  blocking : List String := []
  declined : List String := []
  deriving DecidableEq, Repr

/-- What the release calls of the core package. -/
structure ReleasePackage where
  decideRelease : List PairCheck → ReleaseDecision
  /-- a check that does not complete counts against a release, and so does a confirmed pair, unless
  the observer precondition declines it -/
  of_release : ∀ checks, (decideRelease checks).action = .RELEASE →
    ∀ check ∈ checks, check.compatible = true ∨ check.declined = true
  /-- `CLOSED_RECORD` -/
  closedRecord : Status × StatusReason
  isQuarantined : Particle → Bool

/-- What a release reads of its process. -/
structure ReleaseEnv where
  ingest : IngestEnv
  core : ReleasePackage
  table : TransitionTable
  /-- `reconciliation.update_supersession.max_candidates` -/
  maxCandidates : ℕ
  encode : String → Embedding

/-! ### The return of a held claim -/

/-- `copy_particle_embedding`. -/
def copyParticleEmbedding (store : Store) (sourceId targetId : String) :
    Except StoreError Store := do
  let source ← orRaise (store.get? sourceId) (.notFound sourceId)
  let _ ← orRaise (store.get? targetId) (.notFound targetId)
  if source.embeddingJson = none then return store
  else
    return store.modifyParticle targetId (fun row =>
      { row with
        embeddingJson := source.embeddingJson
        embeddingModelId := source.embeddingModelId }) (fun _ => rfl) fun _ => rfl

/-- How a held claim returned to the store. -/
inductive Landed where
  | foldedInto (twinId : String)
  | successor (mintedId : String)
  deriving DecidableEq, Repr

/-- The particle that holds the claim now. -/
def Landed.id : Landed → String
  | .foldedInto twinId => twinId
  | .successor mintedId => mintedId

section Return

variable (renv : ReleaseEnv) (now : Instant) (mintedId : String)

/-- **`promote_quarantined`**: a new ACTIVE particle from the held one. -/
def promoteQuarantined (store : Store) (quarantined : Particle) :
    Except StoreError (Store × Particle) := do
  require (renv.core.isQuarantined quarantined) (.notQuarantined quarantined.id)
  let minted : Particle :=
    { quarantined with
      id := mintedId
      status := .ACTIVE
      statusReason := none
      supersedes := some quarantined.id
      assertedAt := now }
  require (renv.table.allows none .ACTIVE) (.invalidBirth .ACTIVE)
  let store ← insertParticle renv.ingest.core.contentHash renv.ingest.currentId store minted none
  let store ← copyParticleEmbedding store quarantined.id minted.id
  let store ← updateParticleStatus renv.table now store quarantined.id .SUPERSEDED
    (some .CONFLICT_RESOLVED)
  return (store, minted)

/-- **`restore_held_claim`**: folded into the ACTIVE particle that states it verbatim, else
promoted. -/
def restoreHeldClaim (store : Store) (held : Particle) : Except StoreError (Store × Landed) :=
  match (buildDuplicateIndex renv.ingest.core store [held.content] []).find renv.ingest.core held with
  | some twin => do
      let store := appendProvenanceRefs store twin.id held.provenance
      let store ← updateParticleStatus renv.table now store held.id .SUPERSEDED
        (some .CONFLICT_RESOLVED)
      return (store, .foldedInto twin.id)
  | none => do
      let (store, minted) ← promoteQuarantined renv now mintedId store held
      return (store, .successor minted.id)

end Return

/-! ### The release -/

/-- One qualifying record and its two sides. -/
structure HeldItem where
  record : Particle
  partner : Particle
  held : Particle

/-- What the checks of a record were asked about. -/
structure Selection where
  embedding : Embedding
  exclude : List String
  speaker : Option SpeakerKey
  watermark : ConflictWatermark
  /-- every claim the pass loaded or minted before the checks -/
  known : List String
  /-- the claims the checks asked about -/
  checked : List String

/-- What became of a record. -/
inductive ReleaseOutcome where
  /-- the breaker opened before the checks -/
  | waiting
  /-- a check did not complete -/
  | incomplete
  /-- a check stands in the way -/
  | blocked
  /-- something else closed the record -/
  | closedMeanwhile
  /-- the selection under the lock chooses claims that no check asked about -/
  | unchecked (ids : List String)
  | released (landed : Landed) (divergences : ℕ)
  deriving DecidableEq, Repr

/-- What a turn of the pass leaves and records. -/
structure Released where
  store : Store
  outcome : ReleaseOutcome
  event : Option OperatorEvent := none

section Release

variable (renv : ReleaseEnv)

/-- `_still_open`: the record and the held claim re-read, unless something closed them. -/
def stillOpen (store : Store) (item : HeldItem) : Option (Particle × Particle) :=
  match store.get? item.record.id, store.get? item.held.id with
  | some record, some held =>
      if record.model.status = .INCONSISTENCY ∧ renv.core.isQuarantined held.model then
        some (record.toModel, held.toModel)
      else none
  | _, _ => none

/-- **`_unchecked_since_load`**: what the selection chooses under the lock, of the claims that the
pass neither checked nor loaded. -/
def uncheckedSinceLoad (db : Database) (held : Particle) (selection : Selection) : List String :=
  let chosen := selectPairs renv.ingest renv.maxCandidates held selection.embedding
    (pairsUnderLock renv.ingest db selection.watermark selection.checked) selection.exclude
    selection.speaker
  (chosen.map Particle.id).filter fun id => id ∉ selection.checked ∧ id ∉ selection.known

/-- **`_release`**, under the lock. -/
def release (now : Instant) (mintedId : String) (db : Database) (item : HeldItem)
    (decision : ReleaseDecision) (selection : Selection) : Except StoreError Released :=
  match stillOpen renv db.store item with
  | none => return { store := db.store, outcome := .closedMeanwhile }
  | some (record, held) =>
      let unchecked := uncheckedSinceLoad renv db held selection
      if unchecked ≠ [] then return { store := db.store, outcome := .unchecked unchecked }
      else do
        let store ← updateParticleStatus renv.table now db.store record.id
          renv.core.closedRecord.1 (some renv.core.closedRecord.2)
        let (store, landed) ← restoreHeldClaim renv now mintedId store held
        let standing := (decision.declined.filterMap store.get?).filter fun row =>
          row.model.status = .ACTIVE ∧ row.id ≠ landed.id
        let store ← standing.foldlM (fun store other =>
          recordObserverDivergence store landed.id other.id) store
        return {
          store := store
          outcome := .released landed standing.length
          event := some ⟨.INCONSISTENCY_CLOSED,
            [record.id, item.partner.id, held.id, landed.id]⟩ }

/-- `_record_blocked`: nothing is written to any claim. -/
def recordBlocked (db : Database) (item : HeldItem) (decision : ReleaseDecision) : Released :=
  match stillOpen renv db.store item with
  | none => { store := db.store, outcome := .closedMeanwhile }
  | some _ =>
      { store := db.store
        outcome := .blocked
        event := some ⟨.HELD_CLAIM_EXAMINED,
          [item.record.id, item.partner.id, item.held.id] ++ decision.blocking⟩ }

/-- The claims the pass knows: those it loaded, and those it minted in earlier turns. -/
def releaseCandidates (reads : GatherReads) (minted : List EmbeddingPair) : List EmbeddingPair :=
  loadActiveConflictCandidates renv.ingest reads.loaded.store ++ minted

/-- The claims a record never asks about: its own three, and a verbatim twin. -/
def releaseExclude (reads : GatherReads) (item : HeldItem) : List String :=
  heldExclude renv.ingest reads.routed item.held [item.partner.id, item.record.id]

/-- The claims that the checks of a record ask about. -/
def releasePairs (reads : GatherReads) (minted : List EmbeddingPair) (item : HeldItem) :
    List Particle :=
  selectPairs renv.ingest renv.maxCandidates item.held (renv.encode item.held.content)
    (releaseCandidates renv reads minted) (releaseExclude renv reads item) reads.speaker

/-- What is carried from the checks of a record to its release. -/
def releaseSelection (reads : GatherReads) (minted : List EmbeddingPair) (item : HeldItem) :
    Selection where
  embedding := renv.encode item.held.content
  exclude := releaseExclude renv reads item
  speaker := reads.speaker
  watermark := readConflictWatermark reads.journalInstalled reads.marked
  known := (releaseCandidates renv reads minted).map fun pair => pair.1.id
  checked := (releasePairs renv reads minted item).map Particle.id

/-- **The turn of one record in `run_release`**: its pairs are selected from the candidates of the
load, checked, and what the checks decide is written to the store as it is by then. -/
def releaseItem (reads : GatherReads) (minted : List EmbeddingPair) (answers : Answers)
    (gate : Option (Particle → PairPrecondition)) (now : Instant) (mintedId : String)
    (db : Database) (item : HeldItem) : Except StoreError Released :=
  match checkPairs answers gate (releasePairs renv reads minted item) with
  | none => return { store := db.store, outcome := .waiting }
  | some checks =>
      let decision := renv.core.decideRelease checks
      match decision.action with
      | .RELEASE =>
          release renv now mintedId db item decision (releaseSelection renv reads minted item)
      | .BLOCKED => return recordBlocked renv db item decision
      | .INCOMPLETE => return { store := db.store, outcome := .incomplete }

end Release

/-! ### The selection under the lock -/

section Selection

variable {env : IngestEnv} {maxCandidates : ℕ} {held : Particle} {embedding : Embedding}
  {candidates : List EmbeddingPair} {exclude : List String} {speaker : Option SpeakerKey}

theorem mem_of_mem_selectPairs {c : Particle}
    (h : c ∈ selectPairs env maxCandidates held embedding candidates exclude speaker) :
    ∃ pair ∈ candidates, pair.1 = c := by
  have hpool : ∃ pair ∈ candidates.filter fun pair => pair.1.id ∉ exclude, pair.1 = c := by
    simp only [selectPairs] at h
    rcases List.mem_append.1 h with h | h
    · exact mem_of_findConflict (Option.mem_toList.1 h)
    · split_ifs at h
      · exact mem_of_mem_candidates h
      · cases h
  obtain ⟨pair, hpair, rfl⟩ := hpool
  exact ⟨pair, List.mem_of_mem_filter hpair, rfl⟩

/-- **A claim that the selection chooses it chooses among fewer claims too.** -/
theorem mem_selectPairs_passing {q : String → Bool}
    (hinj : ∀ pair ∈ candidates, ∀ pair' ∈ candidates, pair.1.id = pair'.1.id → pair.1 = pair'.1)
    {c : Particle} (hq : q c.id = true)
    (h : c ∈ selectPairs env maxCandidates held embedding candidates exclude speaker) :
    c ∈ selectPairs env maxCandidates held embedding (passing q candidates) exclude speaker := by
  have hpool : (passing q candidates).filter (fun pair => pair.1.id ∉ exclude) =
      passing q (candidates.filter fun pair => pair.1.id ∉ exclude) := List.filter_comm _ _ _
  obtain ⟨source, hsource, hc⟩ := mem_of_mem_selectPairs h
  simp only [selectPairs, hpool] at h ⊢
  rw [List.mem_append, Option.mem_toList] at h ⊢
  rcases h with h | h
  · exact Or.inl (findConflict_filter h hq)
  · split_ifs at h with hsearch
    · rw [if_pos hsearch]
      by_cases hskipped : c.id ∈ ((findConflict env embedding
          (passing q (candidates.filter fun pair => pair.1.id ∉ exclude))
          (env.core.stanceHolder held) (some (env.core.isGenericClaim held.content))).map
            Particle.id).toList
      · -- the claim is the nearest of the fewer
        refine Or.inl ?_
        rw [Option.mem_toList, Option.map_eq_some_iff] at hskipped
        obtain ⟨nearest, hnearest, hid⟩ := hskipped
        obtain ⟨pair, hpair, hpair'⟩ := mem_of_findConflict hnearest
        have hmem : pair ∈ candidates := List.mem_of_mem_filter (List.mem_of_mem_filter hpair)
        have heq : nearest = c := by
          rw [← hpair', ← hc]
          exact hinj pair hmem source hsource (by rw [hpair', hc, hid])
        rwa [heq] at hnearest
      · refine Or.inr (mem_candidates_filter ?_ hq hskipped h)
        intro id hid hqid
        rw [Option.mem_toList, Option.map_eq_some_iff] at hid ⊢
        obtain ⟨nearest, hnearest, rfl⟩ := hid
        exact ⟨nearest, findConflict_filter hnearest hqid, rfl⟩
    · cases h

/-- The ids tell the candidates of a store apart. -/
theorem loadActive_inj (store : Store) : ∀ pair ∈ loadActiveConflictCandidates env store,
    ∀ pair' ∈ loadActiveConflictCandidates env store, pair.1.id = pair'.1.id → pair.1 = pair'.1 := by
  intro pair hpair pair' hpair' hid
  obtain ⟨row, hrow, hmodel, -⟩ :=
    mem_getActiveParticlesWithEmbeddings (List.mem_of_mem_filter hpair)
  obtain ⟨row', hrow', hmodel', -⟩ :=
    mem_getActiveParticlesWithEmbeddings (List.mem_of_mem_filter hpair')
  rw [hid, hrow'] at hrow
  obtain rfl := Option.some.inj hrow
  rw [← hmodel, ← hmodel']

theorem mem_loadActive {store : Store} {pair : EmbeddingPair} :
    pair ∈ loadActiveConflictCandidates env store ↔ ∃ row ∈ store.particles.rows,
      row.isCandidate = true ∧ candidateOf env.float32 env.currentId row = some pair ∧
        env.core.skipsConflictResolution pair.1.properties = false := by
  simp only [loadActiveConflictCandidates, getActiveParticlesWithEmbeddings, List.mem_filter,
    List.mem_filterMap, mem_sortBy, wantedRow_zero, Bool.not_eq_true']
  constructor
  · rintro ⟨⟨row, ⟨hrow, hcandidate⟩, hpair⟩, hskips⟩
    exact ⟨row, hrow, hcandidate, hpair, hskips⟩
  · rintro ⟨row, hrow, hcandidate, hpair, hskips⟩
    exact ⟨⟨row, ⟨hrow, hcandidate⟩, hpair⟩, hskips⟩

/-- The bounded read has the candidates of the store that were asked for or have changed. -/
theorem fst_searchStoreUnderLock {db : Database} {watermark : ConflictWatermark}
    {ids : List String} {found : List EmbeddingPair × List String}
    (h : searchStoreUnderLock env db watermark ids = some found) :
    found.1 = passing (fun id => id ∈ found.2 ++ ids) (loadActiveConflictCandidates env db.store) := by
  obtain ⟨_, _, -, -, -, hpairs⟩ := searchStoreUnderLock_eq_some h
  rw [hpairs]
  simp only [passing, loadActiveConflictCandidates, getActiveParticlesWithEmbeddings,
    getActiveParticlesWithEmbeddingsByIds]
  rw [List.filter_comm]
  refine congrArg (List.filter _) ?_
  have hrows : (sortBy candidateOrder (db.store.particles.rows.filter fun row =>
      decide (row.id ∈ found.2 ++ ids) && row.isCandidate)) =
      (sortBy candidateOrder (db.store.particles.rows.filter
        (wantedRow db.store 0 none))).filter fun row => row.id ∈ found.2 ++ ids := by
    rw [filter_candidateRows]
    refine congrArg (sortBy candidateOrder) (List.filter_congr fun row _ => ?_)
    rw [wantedRow_zero, Bool.and_comm]
  rw [hrows, List.filter_filterMap, List.filterMap_filter]
  refine List.filterMap_congr fun row _ => ?_
  cases hpair : candidateOf env.float32 env.currentId row with
  | none => simp
  | some pair =>
      rw [← id_of_candidateOf hpair]
      by_cases hid : pair.1.id ∈ found.2 ++ ids <;> simp [hid, Option.filter]

variable {marked loaded db : Database} {installed : Bool} {ids : List String}

/-- **A candidate that the load did not have was named by the journal since.** -/
theorem changed_of_fresh {found : List EmbeddingPair × List String}
    (hsince : ∀ head, readHead marked.journal = some head →
      Since head.1 loaded.rows db.rows db.journal)
    (hfound : searchStoreUnderLock env db (readConflictWatermark installed marked) ids = some found)
    {pair : EmbeddingPair} (hpair : pair ∈ loadActiveConflictCandidates env db.store)
    (hfresh : pair ∉ loadActiveConflictCandidates env loaded.store) : pair.1.id ∈ found.2 := by
  obtain ⟨row, hrow, hcandidate, hof, hskips⟩ := mem_loadActive.1 hpair
  have hid : pair.1.id = row.id := id_of_candidateOf hof
  by_contra hnot
  have hloaded := mem_loaded_of_not_changed hsince hfound hrow (hid ▸ hnot)
  exact hfresh (mem_loadActive.2 ⟨row, hloaded, hcandidate, hof, hskips⟩)

/-- **What the selection chooses under the lock, of the claims that the load did not have, is the
same among what the bounded read has.** -/
theorem mem_selectPairs_pairsUnderLock
    (hsince : ∀ head, readHead marked.journal = some head →
      Since head.1 loaded.rows db.rows db.journal) {c : Particle}
    (hc : c ∈ selectPairs env maxCandidates held embedding
      (loadActiveConflictCandidates env db.store) exclude speaker)
    (hfresh : c.id ∉ (loadActiveConflictCandidates env loaded.store).map fun pair => pair.1.id) :
    c ∈ selectPairs env maxCandidates held embedding
      (pairsUnderLock env db (readConflictWatermark installed marked) ids) exclude speaker := by
  unfold pairsUnderLock
  cases hfound : searchStoreUnderLock env db (readConflictWatermark installed marked) ids with
  | none => exact hc
  | some found =>
      change c ∈ selectPairs env maxCandidates held embedding found.1 exclude speaker
      rw [fst_searchStoreUnderLock hfound]
      refine mem_selectPairs_passing (loadActive_inj db.store) ?_ hc
      obtain ⟨pair, hpair, rfl⟩ := mem_of_mem_selectPairs hc
      have hchanged := changed_of_fresh hsince hfound hpair fun hmem =>
        hfresh (List.mem_map_of_mem hmem)
      exact decide_eq_true (List.mem_append_left _ hchanged)

end Selection

/-! ### What a release has checked -/

section Checked

variable (renv : ReleaseEnv)

/-- What the selection would choose for a held claim over the ACTIVE set of a store. -/
def wouldChoose (reads : GatherReads) (item : HeldItem) (store : Store) (held : Particle) :
    List Particle :=
  selectPairs renv.ingest renv.maxCandidates held (renv.encode item.held.content)
    (loadActiveConflictCandidates renv.ingest store) (releaseExclude renv reads item) reads.speaker

/-- The checks of a turn that asked about the claim and meet `P`. -/
def Checked (reads : GatherReads) (minted : List EmbeddingPair) (answers : Answers)
    (gate : Option (Particle → PairPrecondition)) (item : HeldItem) (P : PairCheck → Prop)
    (c : Particle) : Prop :=
  ∃ checks, checkPairs answers gate (releasePairs renv reads minted item) = some checks ∧
    ∃ check ∈ checks, check.existingId = c.id ∧ P check

variable {renv}

theorem checked_of_release {reads : GatherReads} {minted : List EmbeddingPair} {answers : Answers}
    {gate : Option (Particle → PairPrecondition)} {item : HeldItem} {checks : List PairCheck}
    (hchecks : checkPairs answers gate (releasePairs renv reads minted item) = some checks)
    (hrelease : (renv.core.decideRelease checks).action = .RELEASE) {c : Particle}
    (hc : c ∈ releasePairs renv reads minted item) :
    Checked renv reads minted answers gate item
      (fun check => check.compatible = true ∨ check.declined = true) c := by
  refine ⟨checks, hchecks, ?_⟩
  have hclear := renv.core.of_release checks hrelease
  unfold checkPairs at hchecks
  split_ifs at hchecks
  obtain rfl := Option.some.inj hchecks
  exact ⟨_, List.mem_map_of_mem hc, rfl, hclear _ (List.mem_map_of_mem hc)⟩

/-- **A release keeps the store as it is, or has found the record open and nothing unchecked.** -/
theorem release_cases {now : Instant} {mintedId : String} {db : Database} {item : HeldItem}
    {decision : ReleaseDecision} {selection : Selection} {result : Released}
    (h : release renv now mintedId db item decision selection = .ok result) :
    (result.store = db.store ∧ ∀ landed n, result.outcome ≠ .released landed n) ∨
      ∃ record held, stillOpen renv db.store item = some (record, held) ∧
        uncheckedSinceLoad renv db held selection = [] ∧
        ∃ landed n, result.outcome = .released landed n := by
  unfold release at h
  cases hopen : stillOpen renv db.store item with
  | none =>
      rw [hopen] at h
      obtain rfl := Except.ok.inj h
      exact Or.inl ⟨rfl, fun landed n hout => by cases hout⟩
  | some pair =>
      obtain ⟨record, held⟩ := pair
      rw [hopen] at h
      simp only at h
      split_ifs at h with hunchecked
      · obtain rfl := Except.ok.inj h
        exact Or.inl ⟨rfl, fun landed n hout => by cases hout⟩
      · simp only [bind_eq_ok] at h
        obtain ⟨closed, -, ⟨restored, landed⟩, -, standing, -, hresult⟩ := h
        obtain rfl := Except.ok.inj hresult
        exact Or.inr ⟨record, held, rfl, not_not.1 hunchecked, landed, _, rfl⟩

/-- **Nothing is left unchecked only when the pass knew every claim that is chosen by then.** -/
theorem known_of_nothing_unchecked {reads : GatherReads} {db : Database}
    {cs cs' : List Database.Commit} (hload : run Database.commit reads.marked cs = some reads.loaded)
    (hlock : run Database.commit reads.loaded cs' = some db) {minted : List EmbeddingPair}
    {item : HeldItem} {held : Particle}
    (hnone : uncheckedSinceLoad renv db held (releaseSelection renv reads minted item) = [])
    {c : Particle} (hc : c ∈ wouldChoose renv reads item db.store held) :
    ∃ pair ∈ releaseCandidates renv reads minted, pair.1.id = c.id := by
  by_contra hunknown
  have hknown : c.id ∉ (releaseSelection renv reads minted item).known := by
    intro hmem
    obtain ⟨pair, hpair, hid⟩ := List.mem_map.1 hmem
    exact hunknown ⟨pair, hpair, hid⟩
  have hchecked : c.id ∉ (releaseSelection renv reads minted item).checked := by
    intro hmem
    obtain ⟨other, hother, hid⟩ := List.mem_map.1 hmem
    obtain ⟨pair, hpair, rfl⟩ := mem_of_mem_selectPairs hother
    exact hunknown ⟨pair, hpair, hid⟩
  have hfresh : c.id ∉ (loadActiveConflictCandidates renv.ingest reads.loaded.store).map
      fun pair => pair.1.id := by
    intro hmem
    obtain ⟨pair, hpair, hid⟩ := List.mem_map.1 hmem
    exact hunknown ⟨pair, List.mem_append_left _ hpair, hid⟩
  have hchosen : c ∈ selectPairs renv.ingest renv.maxCandidates held (renv.encode item.held.content)
      (pairsUnderLock renv.ingest db (readConflictWatermark reads.journalInstalled reads.marked)
        (releaseSelection renv reads minted item).checked) (releaseExclude renv reads item)
      reads.speaker :=
    mem_selectPairs_pairsUnderLock (since_watermark hload hlock) hc hfresh
  have hmem : c.id ∈ uncheckedSinceLoad renv db held (releaseSelection renv reads minted item) :=
    List.mem_filter.2 ⟨List.mem_map_of_mem hchosen, by simp [hknown, hchecked]⟩
  rw [hnone] at hmem
  cases hmem

end Checked

/-- **What a release has checked.**  Whatever other writers commit before and after the load, a held
claim returns to the store only when every claim that the selection chooses by then was among those
the pass knew, and every claim the pass selected was checked and either found compatible or
declined by the observer precondition; else nothing is written. -/
theorem releaseItem_checked (renv : ReleaseEnv) (reads : GatherReads) (db : Database)
    (cs cs' : List Database.Commit) (hload : run Database.commit reads.marked cs = some reads.loaded)
    (hlock : run Database.commit reads.loaded cs' = some db) (minted : List EmbeddingPair)
    (answers : Answers) (gate : Option (Particle → PairPrecondition)) (now : Instant)
    (mintedId : String) (item : HeldItem) (result : Released)
    (h : releaseItem renv reads minted answers gate now mintedId db item = .ok result) :
    ((∃ landed n, result.outcome = .released landed n) →
      (∃ record held, stillOpen renv db.store item = some (record, held) ∧
        ∀ c ∈ wouldChoose renv reads item db.store held,
          ∃ pair ∈ releaseCandidates renv reads minted, pair.1.id = c.id) ∧
      ∀ c ∈ releasePairs renv reads minted item, Checked renv reads minted answers gate item
        (fun check => check.compatible = true ∨ check.declined = true) c) ∧
    ((∀ landed n, result.outcome ≠ .released landed n) → result.store = db.store) := by
  unfold releaseItem at h
  cases hchecks : checkPairs answers gate (releasePairs renv reads minted item) with
  | none =>
      rw [hchecks] at h
      obtain rfl := Except.ok.inj h
      exact ⟨fun ⟨_, _, hout⟩ => (nomatch hout), fun _ => rfl⟩
  | some checks =>
      rw [hchecks] at h
      simp only at h
      cases haction : (renv.core.decideRelease checks).action with
      | BLOCKED =>
          rw [haction] at h
          obtain rfl := Except.ok.inj h
          unfold recordBlocked
          cases stillOpen renv db.store item <;>
            exact ⟨fun ⟨_, _, hout⟩ => (nomatch hout), fun _ => rfl⟩
      | INCOMPLETE =>
          rw [haction] at h
          obtain rfl := Except.ok.inj h
          exact ⟨fun ⟨_, _, hout⟩ => (nomatch hout), fun _ => rfl⟩
      | RELEASE =>
          rw [haction] at h
          rcases release_cases h with ⟨hstore, hout⟩ | ⟨record, held, hopen, hunchecked, landed, n, hout⟩
          · exact ⟨fun ⟨landed, n, hreleased⟩ => absurd hreleased (hout landed n), fun _ => hstore⟩
          exact ⟨fun _ => ⟨⟨record, held, hopen, fun c hc =>
            known_of_nothing_unchecked hload hlock hunchecked hc⟩, fun c hc =>
              checked_of_release hchecks haction hc⟩, fun hnot => absurd hout (hnot landed n)⟩

/-- The decision as the pass describes it. -/
def ReleasePackage.documented : ReleasePackage where
  decideRelease checks :=
    let confirmed := checks.filter fun check => check.probe = some true ∧ check.reading = some true
    let declined := confirmed.filter PairCheck.declined
    if checks.all fun check => check.compatible || check.declined then
      { action := .RELEASE, declined := declined.map PairCheck.existingId }
    else
      let blocking := confirmed.filter fun check => !check.declined
      { action := if blocking = [] then .INCOMPLETE else .BLOCKED
        blocking := blocking.map PairCheck.existingId }
  of_release := by
    intro checks h check hcheck
    simp only at h
    split_ifs at h with hall hblocking
    · simpa using List.all_eq_true.1 hall check hcheck
  closedRecord := (.RETRACTED, .CONFLICT_RESOLVED)
  isQuarantined := Particle.isPendingHold

/-- The process of the examples; the held claim is encoded as `[1, 0]`. -/
def releaseExample : ReleaseEnv where
  ingest := .verbatim
  core := .documented
  table := .documented
  maxCandidates := 5
  encode _ := [1, 0]

/-- A held claim, the record that names it, and its retired partner. -/
def heldItem : HeldItem where
  record := { id := "r", content := "conflict", status := .INCONSISTENCY }
  partner := { id := "p", content := "old", status := .SUPERSEDED }
  held :=
    { id := "h", content := "new", status := .PROVENANCE_STALE, statusReason := some .CONFLICT_PENDING }

/-- The three claims of the search, the held claim and its record. -/
def heldClaims : Database :=
  (run Database.commit threeClaims
    [.row (.insert { model := heldItem.held, rowid := 4 } 14),
      .row (.insert { model := heldItem.record, rowid := 5 } 15)]).getD {}

/-- Every read of the gather sees the same store. -/
def heldReads : GatherReads := ⟨heldClaims.store, true, heldClaims, heldClaims, none⟩

/-- Another writer adds the claim `d`, as near as `a`, while the checks run. -/
def claimAdded : List Database.Commit := [.row (.insert (embeddedRow "d" 6 0 [1, 0]) 16)]

/-- The store under the lock. -/
def afterClaimAdded : Database := (run Database.commit heldClaims claimAdded).getD {}

/-- The probe finds no contradiction. -/
def noConflict : Answers := { probe := fun _ => some false, reading := fun _ => none }

/-- Both readings find one. -/
def conflict : Answers := { probe := fun _ => some true, reading := fun _ => some true }

theorem releaseItem_checked_claimAdded :
    ∃ result, releaseItem releaseExample heldReads [] noConflict none 9 "m" afterClaimAdded heldItem =
        .ok result ∧
      result.outcome = .unchecked ["d"] ∧ result.store = afterClaimAdded.store := by
  have hout : ((releaseItem releaseExample heldReads [] noConflict none 9 "m" afterClaimAdded
      heldItem).toOption.map Released.outcome) = some (.unchecked ["d"]) := by decide +kernel
  obtain ⟨result, hok, hresult⟩ := Option.map_eq_some_iff.1 hout
  refine ⟨result, toOption_eq_some.1 hok, hresult, ?_⟩
  refine (releaseItem_checked releaseExample heldReads afterClaimAdded [] claimAdded rfl
    (by decide +kernel) [] noConflict none 9 "m" heldItem result (toOption_eq_some.1 hok)).2
      fun landed n hreleased => ?_
  rw [hresult] at hreleased
  cases hreleased

/-- The store under the lock, when another writer retires `a` and lowers the confidence of `c`. -/
def heldNearestRetired : Database := (run Database.commit heldClaims nearestRetired).getD {}

/-- A release beside a claim that was loaded and never probed, once the one that was probed is
retired; and a release beside a claim that both readings confirmed and the precondition declines. -/
theorem released_beside_unanswered :
    (∃ result landed n,
      releaseItem releaseExample heldReads [] noConflict none 9 "m" heldNearestRetired heldItem =
        .ok result ∧ result.outcome = .released landed n ∧
      (wouldChoose releaseExample heldReads heldItem heldNearestRetired.store heldItem.held).map
        Particle.id = ["c"] ∧
      ¬ ∃ c ∈ wouldChoose releaseExample heldReads heldItem heldNearestRetired.store heldItem.held,
        Checked releaseExample heldReads [] noConflict none heldItem
          (fun check => check.compatible = true) c) ∧
    (∃ result landed n,
      releaseItem releaseExample heldReads [] conflict (some fun _ => .DECLINE) 9 "m" heldClaims
        heldItem = .ok result ∧ result.outcome = .released landed n ∧
      (wouldChoose releaseExample heldReads heldItem heldClaims.store heldItem.held).map
        Particle.id = ["a"] ∧
      ¬ ∃ c ∈ wouldChoose releaseExample heldReads heldItem heldClaims.store heldItem.held,
        Checked releaseExample heldReads [] conflict (some fun _ => .DECLINE) heldItem
          (fun check => check.compatible = true) c) := by
  have hreleased : ((releaseItem releaseExample heldReads [] noConflict none 9 "m" heldNearestRetired
      heldItem).toOption.map Released.outcome) = some (.released (.successor "m") 0) := by
    decide +kernel
  have hdeclined : ((releaseItem releaseExample heldReads [] conflict (some fun _ => .DECLINE) 9 "m"
      heldClaims heldItem).toOption.map Released.outcome) = some (.released (.successor "m") 1) := by
    decide +kernel
  obtain ⟨result, hok, hout⟩ := Option.map_eq_some_iff.1 hreleased
  obtain ⟨result', hok', hout'⟩ := Option.map_eq_some_iff.1 hdeclined
  have hchosen : (wouldChoose releaseExample heldReads heldItem heldNearestRetired.store
      heldItem.held).map Particle.id = ["c"] := by decide +kernel
  have hprobed : checkPairs noConflict none (releasePairs releaseExample heldReads [] heldItem) =
      some [⟨"a", some false, none, .RECONCILE⟩] := by decide +kernel
  have hconfirmed : checkPairs conflict (some fun _ => .DECLINE)
      (releasePairs releaseExample heldReads [] heldItem) =
      some [⟨"a", some true, some true, .DECLINE⟩] := by decide +kernel
  refine ⟨⟨result, _, _, toOption_eq_some.1 hok, hout, hchosen, ?_⟩,
    ⟨result', _, _, toOption_eq_some.1 hok', hout', by decide +kernel, ?_⟩⟩
  · rintro ⟨c, hc, checks, hchecks, check, hcheck, hid, -⟩
    obtain rfl := Option.some.inj (hprobed.symm.trans hchecks)
    obtain rfl := List.mem_singleton.1 hcheck
    have hc' : c.id ∈ ["c"] := hchosen ▸ List.mem_map_of_mem hc
    rw [← hid] at hc'
    exact absurd hc' (by decide)
  · rintro ⟨c, hc, checks, hchecks, check, hcheck, -, hcompatible⟩
    obtain rfl := Option.some.inj (hconfirmed.symm.trans hchecks)
    obtain rfl := List.mem_singleton.1 hcheck
    exact absurd hcompatible (by decide)

end ParticlesEngine
