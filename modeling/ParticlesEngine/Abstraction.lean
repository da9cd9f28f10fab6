/-
**The abstraction pass.**

`operations/abstraction.py` distils clusters of settled claims into derived beliefs, each with a
PARTICLE ref for each of its premises.  A run first walks the ACTIVE derived beliefs whose premises
have changed (a ladder of refresh, replacement and retirement), and then forms clusters of eligible
claims and promotes each.  The model calls hold no lock, so other writers commit between any two of
the pass's reads and writes.

Main definitions:

* `AbstractionStore`, `OtherClaim` — what the pass shares with other writers, and their commits;
* `derivedDepth` — the depth of a belief among the ACTIVE derived beliefs that were read;
* `clustersOf`, `findClusters` — the clusters of eligible claims;
* `updatedPremises`, `revalidate` — the revalidation ladder;
* `promoteCluster`, `runAbstractionPass` — **the pass**.
-/

import Mathlib.Data.String.Basic
import ParticlesEngine.Ancestry
import ParticlesEngine.BeliefWrites
import ParticlesEngine.HeldRelease
import ParticlesEngine.Interleave
import ParticlesEngine.Paraphrases

set_option relaxedAutoImplicit false
set_option autoImplicit false

open FirstByKey Interleave SortBy

namespace ParticlesEngine.Abstraction

/-! ### What the pass shares with other writers -/

/-- What the pass reads and writes. -/
structure AbstractionStore where
  store : Store
  /-- the ids of the rows whose calibration source is DERIVED -/
  derived : List String := []
  clock : Instant := 0
  deriving DecidableEq

/-- What another writer commits: claims are retired, asserted and superseded. -/
inductive OtherClaim where
  | retire (id : String) (status : Status) (reason : Option StatusReason)
  | assert (p : Particle) (embedding : Option EmbeddingJson)
  /-- a successor; a copy carries the claim's provenance and calibration over -/
  | supersede (id : String) (reason : Option StatusReason) (p : Particle)
      (embedding : Option EmbeddingJson) (copies : Bool)
  | clock (now : Instant)
  deriving DecidableEq

/-- What the pass commits. -/
inductive AbstractionWrite where
  | retired (id : String)
  /-- a same-text successor on the updated premises -/
  | refreshed (id : String) (p : Particle)
  /-- a successor with a new text, through the reconciliation -/
  | replaced (id : String) (p : Particle)
  /-- a new belief, and the derived beliefs that its cluster was formed over -/
  | promoted (p : Particle) (population : List String)
  /-- an event of the curation queue -/
  | proposed (claim : String) (premiseIds : List String)
  /-- the belief was found retired under the lock -/
  | unchanged
  deriving DecidableEq

/-- `JudgeVerdictKind`, of the paraphrase judge. -/
inductive JudgeVerdictKind where
  | PARAPHRASE
  | DISTINCT
  | UNSURE
  deriving DecidableEq, Repr

/-- What a call to the outside returns: each question reads the part that answers it. -/
structure AbstractionReply where
  synthesized : Option String := none
  entailed : Option Bool := none
  paraphrase : JudgeVerdictKind := .UNSURE
  /-- the claim's vector, when there is an embedding model -/
  encoded : Option Embedding := none
  /-- a fresh id -/
  uuid : String := ""
  /-- the gather of the reconciliation, the answers of its ladder, and the journal at its apply -/
  gathered : ReconcileGather
  answers : ReconcileAnswers
  journal : ChangeJournal := .empty

/-- A program of the pass. -/
abbrev AbstractionProg (α : Type) :=
  Prog AbstractionStore AbstractionWrite AbstractionReply StoreError α

/-- `consolidation.abstraction.mode`. -/
inductive Mode where
  | auto
  | propose
  deriving DecidableEq, Repr

/-- `consolidation.abstraction`, except for the depth. -/
structure AbstractionConfig where
  enabled : Bool := true
  mode : Mode := .auto
  maxPromotionsPerRun : ℕ
  minClusterSize : ℕ
  clusterSimilarityThreshold : ℚ
  /-- `min_source_age_days` -/
  minAge : Instant := 0
  excludeTimeAnchored : Bool := true
  requireEntailment : Bool := true
  /-- `links_suggest.candidate_threshold` -/
  candidateThreshold : ℚ

/-- One call of the pass. -/
structure AbstractionCall where
  cfg : AbstractionConfig
  scopeIds : Option (List String) := none

/-- What the pass reads of its process. -/
structure AbstractionEnv where
  reconcile : ReconcileEnv
  /-- `consolidation.abstraction.max_depth` -/
  maxDepth : ℕ
  /-- `_TIME_ANCHOR_PATTERN` is found in a text -/
  timeAnchorPattern : String → Bool
  populationQuantifier : String → Option String
  deriveAbstractionConfidence : List NNRat → NNRat

/-- `ABSTRACTION_ACTOR`. -/
def ABSTRACTION_ACTOR : String := "consolidation:abstraction"

/-- `_MAX_SUPERSESSION_HOPS`. -/
def MAX_SUPERSESSION_HOPS : ℕ := 10

/-! ### Derived beliefs -/

/-- `premise_ids_of`. -/
def premiseIdsOf (p : Particle) : List String :=
  p.provenance.filterMap fun ref => if ref.type = .PARTICLE then some ref.corpusEntryId else none

/-- `_premise_refs`. -/
def premiseRefs (premiseIds : List String) : List ProvenanceRef :=
  premiseIds.map fun pid => { type := .PARTICLE, corpusEntryId := pid, snapshotId := some pid }

@[simp] theorem premiseIdsOf_premiseRefs {p : Particle} {ids : List String}
    (h : p.provenance = premiseRefs ids) : premiseIdsOf p = ids := by
  simp [premiseIdsOf, h, premiseRefs, List.filterMap_map]

/-- `get_active_derived_particles`. -/
def getActiveDerivedParticles (s : AbstractionStore) : List Particle :=
  (s.store.particles.rows.filter fun row =>
    row.model.status = .ACTIVE ∧ row.model.id ∈ s.derived).map ParticleRow.toModel

/-- The premises of the derived beliefs of a population. -/
def ancestryAmong (population : List Particle) : Ancestry String := fun id =>
  (population.find? fun p => p.id = id).map premiseIdsOf

/-- **`_derived_depth`**, of a belief read when the given ids were those of derived rows. -/
def derivedDepth (population : List Particle) (derived : List String) (p : Particle) : ℕ :=
  if p.id ∈ derived then
    ((ancestryAmong population).walk (population.length + 2) p.id (premiseIdsOf p) []).1
  else 0

/-- `_shared_subject_ids`. -/
def sharedSubjectIds (premises : List Particle) (fallback : String) : List String :=
  match premises with
  | [] => [fallback]
  | p :: rest =>
      let shared := p.subjectIds.filter fun subject => rest.all fun q => subject ∈ q.subjectIds
      if shared.isEmpty then [fallback] else sortBy id (firstByKey id [] shared)

/-- `d.subject_ids or _shared_subject_ids(premises, "")`. -/
def successorSubjectIds (d : Particle) (premises : List Particle) : List String :=
  if d.subjectIds.isEmpty then sharedSubjectIds premises "" else d.subjectIds

section Pass

variable (env : AbstractionEnv)

/-- `_build_derived_particle`; the id is drawn, and the belief is asserted now. -/
def buildDerivedParticle (uuid : String) (now : Instant) (claim : String)
    (premises : List Particle) (subjectIds : List String) (supersedes : Option String)
    (tags : List String) : Particle where
  id := uuid
  content := claim
  confidence := env.deriveAbstractionConfidence (premises.map Particle.confidence)
  assertedBy := ABSTRACTION_ACTOR
  assertedAt := now
  supersedes := supersedes
  provenance := premiseRefs (premises.map Particle.id)
  subjectIds := subjectIds
  tags := tags

/-- `load_active_candidates`, uncached. -/
def loadActiveCandidates (store : Store) (subjectId : Option String) : List EmbeddingPair :=
  getActiveParticlesWithEmbeddings env.reconcile.ingest.float32 env.reconcile.ingest.currentId
    store 0 subjectId

/-! ### Clusters -/

/-- `_Cluster`. -/
structure Cluster where
  subjectId : String
  members : List Particle
  deriving DecidableEq

/-- `member_ids`. -/
def Cluster.memberIds (c : Cluster) : List String := c.members.map Particle.id

/-- The nodes that some edge joins to a set of nodes, with those. -/
def expand (pairs : List (String × String)) (reached : List String) : List String :=
  firstByKey id [] (reached ++ pairs.flatMap fun pair =>
    (if pair.1 ∈ reached then [pair.2] else []) ++ if pair.2 ∈ reached then [pair.1] else [])

/-- `_components`: the transitive components of the similarity edges, by their least nodes. -/
def components (pairs : List (String × String)) : List (List String) :=
  (sortBy id (pairs.flatMap fun pair => [pair.1, pair.2])).foldl (fun found node =>
    if found.any fun component => node ∈ component then found
    else found ++ [(expand pairs)^[pairs.length] [node]]) []

/-- The pairs of candidates that are similar enough, each once. -/
def similarPairs (threshold : ℚ) : List EmbeddingPair → List (String × String)
  | [] => []
  | a :: rest =>
      (rest.filter fun b =>
        threshold ≤ env.reconcile.ingest.core.cosineSimilarity a.2 b.2).map
          (fun b => (a.1.id, b.1.id)) ++ similarPairs threshold rest

/-- `_is_time_anchored`. -/
def isTimeAnchored (p : Particle) : Bool :=
  p.validUntil.isSome || env.timeAnchorPattern p.content

/-- What the clusters are formed from, as the pass read it. -/
structure ClusterReads where
  contested : List String
  population : List Particle
  now : Instant
  subjectIds : List String
  links : List (String × String)
  loaded : List EmbeddingPair
  /-- the derived rows when the candidates were loaded -/
  derived : List String

/-- `already_premise`: the premises of the derived beliefs that were ACTIVE. -/
def ClusterReads.alreadyPremise (reads : ClusterReads) : List String :=
  reads.population.flatMap premiseIdsOf

/-- `eligible`. -/
def eligible (cfg : AbstractionConfig) (reads : ClusterReads) (p : Particle) : Bool :=
  if p.id ∈ reads.contested ∨ p.id ∈ reads.alreadyPremise then false
  -- a premise must sit strictly below the cap
  else if env.maxDepth ≤ derivedDepth reads.population reads.derived p then false
  else if reads.now - p.assertedAt < cfg.minAge then false
  else if cfg.excludeTimeAnchored ∧ isTimeAnchored env p then false
  else if ¬ env.reconcile.ingest.core.isTruthApt p.assertionModality ∨
      env.reconcile.ingest.core.isNonAsserted p.properties then false
  else (env.reconcile.ingest.core.stanceHolder p).isNone

/-- The clusters of one subject. -/
def subjectClusters (cfg : AbstractionConfig) (reads : ClusterReads) (subjectId : String) :
    List Cluster :=
  let candidates := reads.loaded.filter fun pair =>
    (pair.1.id, subjectId) ∈ reads.links ∧ eligible env cfg reads pair.1
  if candidates.length < cfg.minClusterSize then []
  else
    (components (similarPairs env cfg.clusterSimilarityThreshold candidates)).filterMap
      fun component =>
        if component.length < cfg.minClusterSize then none
        else some ⟨subjectId, sortBy Particle.id (component.filterMap fun pid =>
          (candidates.map Prod.fst).find? fun p => p.id = pid)⟩

/-- **`_find_clusters`**, on what was read: the largest first, and a cluster that two subjects share
once. -/
def clustersOf (call : AbstractionCall) (reads : ClusterReads) : List Cluster :=
  let found := firstByKey Cluster.memberIds []
    (reads.subjectIds.flatMap (subjectClusters env call.cfg reads))
  let inScope := found.filter fun c =>
    call.scopeIds.all fun scope => c.memberIds.any fun pid => pid ∈ scope
  sortBy (fun c : Cluster =>
    (toLex (-(c.members.length : ℤ), c.memberIds.headD "") : ℤ ×ₗ String)) inScope

/-- `get_inconsistency_backrefs`: the claims that an open record names. -/
def inconsistencyBackrefs (store : Store) : List String :=
  (store.particles.rows.filter fun row => row.model.status = .INCONSISTENCY).flatMap fun row =>
    premiseIdsOf row.model

/-- **`_find_clusters`**, with the derived beliefs that the clusters were formed over. -/
def findClusters (call : AbstractionCall) : AbstractionProg (List String × List Cluster) := do
  let contested ← Prog.observe fun s => inconsistencyBackrefs s.store
  let population ← Prog.observe getActiveDerivedParticles
  let now ← Prog.observe AbstractionStore.clock
  let subjectIds ← Prog.observe fun s => sortBy id (s.store.subjects.rows.map Subject.id)
  let links ← Prog.observe fun s =>
    s.store.subjectLinks.rows.map fun link => (link.particleId, link.subjectId)
  let loaded ← Prog.observe fun s => (loadActiveCandidates env s.store none, s.derived)
  return (population.map Particle.id, clustersOf env call
    { contested := contested, population := population, now := now, subjectIds := subjectIds
      links := links, loaded := loaded.1, derived := loaded.2 })

/-! ### Writes -/

/-- The state after a derived belief may have been stored under an id. -/
def AbstractionStore.withDerived (s : AbstractionStore) (store : Store) (id : String) :
    AbstractionStore :=
  { s with
    store := store
    derived := if s.store.get? id = none ∧ store.get? id ≠ none then id :: s.derived
      else s.derived }

/-- `reconcile_and_insert` of a derived belief, as it applies. -/
def reconcileAndInsert (p : Particle) (draw : AbstractionReply) (before : AbstractionStore)
    (store : Store) : Except StoreError AbstractionStore := do
  let written ← applyReconcile env.reconcile { store := store, journal := draw.journal } p
    draw.gathered draw.answers { observer := true }
  return before.withDerived written.store p.id

/-- Rung 4: the belief's support fell below the floor.  Its status is read again under the lock. -/
def retireBelief (d : Particle) (s : AbstractionStore) :
    Except StoreError (AbstractionWrite × AbstractionStore) :=
  if (s.store.get? d.id).map (fun row => row.model.status) = some .ACTIVE then do
    let store ← updateParticleStatus env.reconcile.table s.clock s.store d.id .PROVENANCE_STALE
      (some .RETRACTED_DEPENDENCY)
    return (.retired d.id, { s with store := store })
  else .ok (.unchanged, s)

/-- **`_refresh_by_supersession`**, under the lock: nothing is written unless the belief is ACTIVE
still. -/
def refreshBelief (d successor : Particle) (s : AbstractionStore) :
    Except StoreError (AbstractionWrite × AbstractionStore) :=
  if (s.store.get? d.id).map (fun row => row.model.status) = some .ACTIVE then do
    let store ← updateParticleStatus env.reconcile.table s.clock s.store d.id .SUPERSEDED
      (some .EXPLICIT_SUPERSESSION)
    let store ← insertParticle env.reconcile.ingest.core.contentHash env.reconcile.ingest.currentId
      store successor none
    let store ← copyParticleEmbedding store d.id successor.id
    return (.refreshed d.id successor, s.withDerived store successor.id)
  else .ok (.unchanged, s)

/-- The replacement of rung 3: the belief is superseded, and its successor reconciled. -/
def replaceBelief (d successor : Particle) (draw : AbstractionReply) (s : AbstractionStore) :
    Except StoreError (AbstractionWrite × AbstractionStore) := do
  let store ← updateParticleStatus env.reconcile.table s.clock s.store d.id .SUPERSEDED
    (some .EXPLICIT_SUPERSESSION)
  let after ← reconcileAndInsert env successor draw s store
  return (.replaced d.id successor, after)

/-- The promotion of a cluster's belief. -/
def promoteBelief (p : Particle) (population : List String) (draw : AbstractionReply)
    (s : AbstractionStore) : Except StoreError (AbstractionWrite × AbstractionStore) := do
  let after ← reconcileAndInsert env p draw s s.store
  return (.promoted p population, after)

/-! ### Revalidation -/

/-- The successor of a superseded premise that is ACTIVE, within a number of hops. -/
def activeSuccessor : ℕ → Particle → AbstractionProg (Option Particle)
  | 0, _ => return none
  | hops + 1, p => do
      let successor ← Prog.observe fun s => getSupersedingParticle s.store p.id
      match successor with
      | none => return none
      | some successor =>
          if successor.status = .ACTIVE then return some successor
          else if successor.status ≠ .SUPERSEDED then return none
          else activeSuccessor hops successor

/-- The premises found, whether any had changed, and whether the texts are as they were. -/
structure Updated where
  premises : List Particle := []
  changed : Bool := false
  contentPreserving : Bool := true

/-- One premise in the loop of `_updated_premises`, as it was read. -/
def updatePremise (byId : String → Option Particle) (found : Updated) (pid : String) :
    AbstractionProg (Round Updated) := do
  match byId pid with
  | none => return .next { found with changed := true, contentPreserving := false }
  | some p =>
      if p.status = .ACTIVE then return .next { found with premises := found.premises ++ [p] }
      else if p.status ≠ .SUPERSEDED then
        return .next { found with changed := true, contentPreserving := false }
      else do
        let successor ← activeSuccessor MAX_SUPERSESSION_HOPS p
        match successor with
        | none => return .next { found with changed := true, contentPreserving := false }
        | some successor =>
            return .next
              { premises := found.premises ++ [successor]
                changed := true
                contentPreserving :=
                  found.contentPreserving && decide (successor.content = p.content) }

/-- Each id once, where it stands first, with what was read of it last. -/
def lastById (premises : List Particle) : List Particle :=
  (firstByKey Particle.id [] premises).map fun p =>
    (premises.reverse.find? fun q => q.id = p.id).getD p

/-- **`_updated_premises`.** -/
def updatedPremises (premiseIds : List String) : AbstractionProg Updated := do
  let byId ← Prog.observe fun s id => (s.store.get? id).map ParticleRow.toModel
  let found ← Prog.loop (updatePremise byId) premiseIds {}
  return { found with premises := lastById found.premises }

/-- `_refresh_by_supersession`: the successor is built, and the write is made under the lock. -/
def refreshBySupersession (d : Particle) (premises : List Particle) : AbstractionProg Unit := do
  let uuid ← Prog.reply AbstractionReply.uuid
  let now ← Prog.observe AbstractionStore.clock
  let successor := buildDerivedParticle env uuid now d.content premises
    (successorSubjectIds d premises) (some d.id) d.tags
  let _ ← Prog.transact (refreshBelief env d successor)
  return ()

/-- The end of rung 3, for a text that is DISTINCT. -/
def replaceByText (d : Particle) (premises : List Particle) (claim : String) :
    AbstractionProg Unit := do
  let status ← Prog.observe fun s => (s.store.get? d.id).map fun row => row.model.status
  if status ≠ some .ACTIVE then return ()
  else do
    let draw ← Prog.reply id
    let now ← Prog.observe AbstractionStore.clock
    let successor := buildDerivedParticle env draw.uuid now claim premises
      (successorSubjectIds d premises) (some d.id) []
    let _ ← Prog.transact (replaceBelief env d successor draw)
    return ()

/-- Rung 3: the premises are synthesized again, and the texts compared. -/
def resynthesize (d : Particle) (premises : List Particle) : AbstractionProg Unit := do
  let synthesized ← Prog.reply AbstractionReply.synthesized
  match synthesized with
  | none => return ()
  | some claim =>
      if (env.populationQuantifier claim).isSome then return ()
      else do
        let verdict ← Prog.reply AbstractionReply.paraphrase
        match verdict with
        | .PARAPHRASE => refreshBySupersession env d premises
        | .UNSURE => return ()
        | .DISTINCT => replaceByText env d premises claim

/-- Rungs 2 and 3. -/
def rejudge (d : Particle) (premises : List Particle) : AbstractionProg Unit := do
  let entailed ← Prog.reply AbstractionReply.entailed
  match entailed with
  | none => return ()
  | some true => refreshBySupersession env d premises
  | some false => resynthesize env d premises

/-- What the ladder carries along. -/
structure LadderState where
  /-- of the budget of the run -/
  spent : ℕ := 0
  /-- the claims under review, once they are needed -/
  inReview : Option (List String) := none

/-- The claims under review, loaded on first need. -/
def loadInReview (state : LadderState) : AbstractionProg (List String) :=
  match state.inReview with
  | some inReview => return inReview
  | none => Prog.observe fun s => inconsistencyBackrefs s.store

/-- One derived belief in the loop of `_revalidate`. -/
def revalidateBelief (cfg : AbstractionConfig) (state : LadderState) (d : Particle) :
    AbstractionProg (Round LadderState) := do
  let found ← updatedPremises (premiseIdsOf d)
  if ¬ found.changed then return .next state
  else if found.premises.length < cfg.minClusterSize then do
    let _ ← Prog.transact (retireBelief env d)
    return .next state
  else do
    let inReview ← loadInReview state
    if d.id ∈ inReview then return .next { state with inReview := some inReview }
    else if found.contentPreserving then do
      refreshBySupersession env d found.premises
      return .next { state with inReview := some inReview }
    else if cfg.maxPromotionsPerRun ≤ state.spent then
      return .next { state with inReview := some inReview }
    else do
      rejudge env d found.premises
      return .next ⟨state.spent + 1, some inReview⟩

/-- **`_revalidate`.** -/
def revalidate (cfg : AbstractionConfig) : AbstractionProg LadderState := do
  let derived ← Prog.observe getActiveDerivedParticles
  Prog.loop (revalidateBelief env cfg) (sortBy Particle.id derived) {}

/-! ### Promotion -/

/-- One near belief in the loop of `_duplicate_of`. -/
def judgeNear (_ : Option String) (p : Particle) : AbstractionProg (Round (Option String)) := do
  let verdict ← Prog.reply AbstractionReply.paraphrase
  if verdict = .PARAPHRASE then return .stop (some p.id) else return .next none

/-- **`_duplicate_of`**: an ACTIVE belief of the subject that the claim paraphrases. -/
def duplicateOf (cfg : AbstractionConfig) (encoded : Embedding) (cluster : Cluster) :
    AbstractionProg (Option String) := do
  let loaded ← Prog.observe fun s => loadActiveCandidates env s.store (some cluster.subjectId)
  let near := (loaded.filter fun pair => pair.1.id ∉ cluster.memberIds).filterMap fun pair =>
    let similarity := env.reconcile.ingest.core.cosineSimilarity encoded pair.2
    if cfg.candidateThreshold ≤ similarity then some (similarity, pair.1) else none
  let judged := ((sortBy (fun c : ℚ × Particle => -c.1) near).take 3).map Prod.snd
  Prog.loop judgeNear judged none

/-- `_gate_candidate`: the pure pre-check, and the judge when entailment is required. -/
def gateCandidate (cfg : AbstractionConfig) (claim : String) : AbstractionProg Bool :=
  if (env.populationQuantifier claim).isSome then return false
  else if cfg.requireEntailment then
    Prog.reply fun r => r.entailed == some true
  else return true

/-- The write of `_promote_cluster`, by the mode. -/
def assertClaim (cfg : AbstractionConfig) (population : List String) (cluster : Cluster)
    (claim : String) : AbstractionProg Unit := do
  match cfg.mode with
  | .auto => do
      let draw ← Prog.reply id
      let now ← Prog.observe AbstractionStore.clock
      let p := buildDerivedParticle env draw.uuid now claim cluster.members
        (sharedSubjectIds cluster.members cluster.subjectId) none []
      let _ ← Prog.transact (promoteBelief env p population draw)
      return ()
  | .propose => do
      let _ ← Prog.transact fun s => .ok (.proposed claim cluster.memberIds, s)
      return ()

/-- **`_promote_cluster`.** -/
def promoteCluster (cfg : AbstractionConfig) (population : List String) (cluster : Cluster) :
    AbstractionProg Unit := do
  let synthesized ← Prog.reply AbstractionReply.synthesized
  match synthesized with
  | none => return ()
  | some claim => do
      let passed ← gateCandidate env cfg claim
      let encoded ← Prog.reply AbstractionReply.encoded
      match passed, encoded with
      | true, some encoded => do
          let duplicate ← duplicateOf env cfg encoded cluster
          if duplicate.isSome then return ()
          else assertClaim env cfg population cluster claim
      | _, _ => return ()

/-- One cluster in the loop of the pass, while the budget lasts. -/
def takeCluster (cfg : AbstractionConfig) (population : List String) (spent : ℕ)
    (cluster : Cluster) : AbstractionProg (Round ℕ) := do
  if cfg.maxPromotionsPerRun ≤ spent then return .next spent
  else do
    promoteCluster env cfg population cluster
    return .next (spent + 1)

/-- **`run_abstraction_pass`.** -/
def runAbstractionPass (call : AbstractionCall) : AbstractionProg Unit := do
  if ¬ call.cfg.enabled then return ()
  else do
    let state ← revalidate env call.cfg
    let found ← findClusters env call
    let _ ← Prog.loop (takeCluster env call.cfg found.1) found.2 state.spent
    return ()

/-- Calls of the pass, one after another. -/
def runCalls (calls : List AbstractionCall) : AbstractionProg Unit :=
  Prog.loop (fun _ call => do
    runAbstractionPass env call
    return .next ()) calls ()

end Pass

/-! ### Other writers -/

section Others

variable (env : AbstractionEnv)

/-- The successor that another writer stores. -/
def successorOf (row : ParticleRow) (p : Particle) (copies : Bool) : Particle :=
  { p with
    supersedes := some row.model.id
    provenance := if copies then row.model.provenance else p.provenance }

/-- What another writer's commit leaves.  A retirement leaves no claim ACTIVE. -/
def applyOther (s : AbstractionStore) : OtherClaim → Option AbstractionStore
  | .retire id status reason =>
      if status = .ACTIVE then none
      else (updateParticleStatus env.reconcile.table s.clock s.store id status reason).toOption.map
        fun store => { s with store := store }
  | .assert p embedding =>
      (insertParticle env.reconcile.ingest.core.contentHash env.reconcile.ingest.currentId s.store p
        embedding).toOption.map fun store => { s with store := store }
  | .supersede id reason p embedding copies =>
      (s.store.get? id).bind fun row =>
        ((updateParticleStatus env.reconcile.table s.clock s.store id .SUPERSEDED reason).bind
          fun store => insertParticle env.reconcile.ingest.core.contentHash
            env.reconcile.ingest.currentId store (successorOf row p copies)
            embedding).toOption.map fun store =>
              if copies ∧ id ∈ s.derived then s.withDerived store p.id else { s with store := store }
  | .clock now => some { s with clock := now }

end Others

end ParticlesEngine.Abstraction
