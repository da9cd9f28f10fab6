/-
**Ranking and federating a semantic query.**

A question is answered from the top of a ranked list: each candidate's similarity and effective
confidence combine into one score, the list is cut, and the members of a co-evidential group that
made the cut collapse into the first of them, whose confidence becomes the noisy-or of theirs.  The
query of one store stops there.  The federated query collapses store by store and sorts again, by
the confidences the collapse has raised.

Main definitions:

* `gatherScored` — one store's filtered and scored candidates;
* `rankScore`, `collapseCoEvidentialTopK` — the ranking score and the collapse;
* `query`, `queryFederated` — the two entry points, over every mode of a request;
* `rankedTop` — the ranked, cut and collapsed list of one store.

Main results:

* `collapseCoEvidentialTopK_sublist` — the collapse keeps its list's order and repeats no claim;
* `queryFederated_semantic` — **the federated query over one store is its query, sorted again**;
* `queryFederated_singleton` — **the same claims with the same confidences, and the same order
  exactly when the collapse leaves the list sorted**.
-/

import Mathlib.Data.Multiset.Defs
import ParticlesEngine.WindowListing

set_option relaxedAutoImplicit false
set_option autoImplicit false

open Dict FirstByKey MergedDict SortBy

namespace ParticlesEngine

/-! ### Scores -/

/-- A candidate, its cosine similarity, and its effective confidence. -/
abbrev Scored := Particle × ℚ × ℚ

/-- The encoder, the configured weights, and the confidence functions of the core package. -/
structure RankingLibrary where
  /-- the question's embedding, when an encoder is loaded -/
  embed : String → Option Embedding
  cosineSimilarity : Embedding → Embedding → ℚ
  similarityWeight : ℚ
  confidenceWeight : ℚ
  narrativeRankWeight : ℚ
  equivalenceThreshold : ℚ
  effectiveEquivalence : Option ℚ → ℚ
  /-- the noisy-or of confidences, each with the key of its source -/
  mergeCoEvidentialConfidence : List (ℚ × String) → ℚ

/-- `_combined`. -/
def combined (rank : RankingLibrary) (sim eff : ℚ) : ℚ :=
  rank.similarityWeight * sim + rank.confidenceWeight * eff

/-- **`_rank_score`**, as a query ranks: a narrative's label is demoted. -/
def rankScore (rank : RankingLibrary) (item : Scored) : ℚ :=
  let score := combined rank item.2.1 item.2.2
  if item.1.particleType = .NARRATIVE then score * rank.narrativeRankWeight else score

/-- `sort(key=_rank_score, reverse=True)`: descending, equal scores in their given order. -/
def sortRanked (rank : RankingLibrary) (items : List Scored) : List Scored :=
  sortBy (fun item => OrderDual.toDual (rankScore rank item)) items

/-- A list is ranked when no item's score is above that of an item before it. -/
def Ranked (rank : RankingLibrary) (items : List Scored) : Prop :=
  items.Pairwise fun a b => rankScore rank b ≤ rankScore rank a

theorem sortRanked_eq_self_iff {rank : RankingLibrary} {items : List Scored} :
    sortRanked rank items = items ↔ Ranked rank items := sortBy_eq_self_iff

/-! ### The collapse -/

section Collapse

variable (rank : RankingLibrary) (s : QuerySession)

/-- The CO_EVIDENTIAL rows whose equivalence reaches the threshold. -/
def equivalenceEdges : List ParticleRelationRow :=
  s.store.relations.rows.filter fun rel =>
    rel.relationType = .CO_EVIDENTIAL &&
      decide (rank.equivalenceThreshold ≤ rank.effectiveEquivalence (s.relationConfidence rel.key))

/-- `get_co_evidential_group`, at the configured threshold. -/
def getCoEvidentialGroup (particleId : String) : Finset String :=
  let edges := equivalenceEdges rank s
  Closure.closure (neighbours edges) (endpoints edges) {particleId}

/-- `_first_source_key`. -/
def firstSourceKey (p : Particle) : String :=
  match p.provenance.find? fun ref => ref.type = .SOURCE && decide (ref.corpusEntryId ≠ "") with
  | some ref => ref.corpusEntryId
  | none => p.id

/-- The state of the collapse: the ids represented so far, the clusters merged, and the result. -/
structure CollapseState where
  represented : Finset String := ∅
  clustersSeen : List (Finset String) := []
  collapsed : List Scored := []

/-- One item of the collapse. -/
def CollapseState.add (top : List Scored) (state : CollapseState) (item : Scored) :
    CollapseState :=
  if item.1.id ∈ state.represented then state
  else
    let inTopK := getCoEvidentialGroup rank s item.1.id ∩ (top.map fun other => other.1.id).toFinset
    let represented := state.represented ∪ inTopK
    if inTopK.card ≤ 1 then
      { state with represented := represented, collapsed := state.collapsed ++ [item] }
    else if inTopK ∈ state.clustersSeen then { state with represented := represented }
    else
      -- the members of the cluster, in rank order
      let members := top.filter fun other => other.1.id ∈ inTopK
      let merged := rank.mergeCoEvidentialConfidence
        (members.map fun other => (other.2.2, firstSourceKey other.1))
      { represented := represented
        clustersSeen := inTopK :: state.clustersSeen
        collapsed := state.collapsed ++ [(item.1, item.2.1, merged)] }

/-- **`_collapse_co_evidential_top_k`**. -/
def collapseCoEvidentialTopK (top : List Scored) : List Scored :=
  (top.foldl (CollapseState.add rank s top) {}).collapsed

@[simp] theorem collapseCoEvidentialTopK_nil : collapseCoEvidentialTopK rank s [] = [] := rfl

/-- The ids of a list of candidates. -/
def idsOf (items : List Scored) : List String := items.map fun item => item.1.id

theorem idsOf_add (top : List Scored) (state : CollapseState) (item : Scored) :
    (idsOf (state.add rank s top item).collapsed).Sublist
      (idsOf state.collapsed ++ [item.1.id]) := by
  unfold CollapseState.add
  dsimp only
  split_ifs
  · exact List.sublist_append_left _ _
  · simp [idsOf]
  · exact List.sublist_append_left _ _
  · simp [idsOf]

/-- **The collapse keeps its list's order and repeats no claim of it.** -/
theorem collapseCoEvidentialTopK_sublist (top : List Scored) :
    (idsOf (collapseCoEvidentialTopK rank s top)).Sublist (idsOf top) := by
  have hloop : ∀ (items : List Scored) (state : CollapseState),
      (idsOf (items.foldl (CollapseState.add rank s top) state).collapsed).Sublist
        (idsOf state.collapsed ++ idsOf items) := by
    intro items
    induction items with
    | nil => simp [idsOf]
    | cons item items ih =>
        intro state
        have hrest := (ih (state.add rank s top item)).trans
          ((idsOf_add rank s top state item).append_right (idsOf items))
        simpa [idsOf] using hrest
  exact hloop top {}

end Collapse

/-! ### One store's candidates -/

section Gather

variable {σ Trust Decay : Type*} [SemilatticeInf σ] [OrderBot σ]
variable (lib : QueryLibrary σ) (kernel : QueryScoring Trust Decay) (rank : RankingLibrary)

/-- `get_particles_with_embeddings_as_of`. -/
def getParticlesWithEmbeddingsAsOf (s : QuerySession) (asOf : Instant) (request : QueryRequest) :
    List ((Particle × Embedding) × Option Instant) :=
  (s.store.particles.rows.filter fun row =>
    s.prefiltered request row && decide (row.model.assertedAt ≤ asOf)).filterMap fun row =>
      (candidateOf lib.float32 lib.embeddingModelId row).map fun candidate =>
        (candidate, row.retiredAt)

/-- The embedded candidates that the lenses of a request admit. -/
def embeddedCandidates (s : QuerySession) (request : QueryRequest) :
    AsOfGather (Particle × Embedding) × Option WindowGather :=
  match request.window, request.asOf with
  | some window, _ =>
      let loop := gatherWindowCandidates lib s request window
        (getParticlesInWindowScope lib s request true false)
      ({ admitted := loop.admitted.filterMap fun row => row.2.1.map fun emb => (row.1, emb)
         notes := loop.notes
         excludedUndatable := loop.asOfExcluded }, some loop.gather)
  | none, none =>
      ({ admitted := getActiveParticlesWithEmbeddings lib.float32 lib.embeddingModelId s.store
          request.minConfidence request.subjectId }, none)
  | none, some asOf =>
      (asOfGather Prod.fst (s.asOfView asOf) (getParticlesWithEmbeddingsAsOf lib s asOf request),
        none)

/-- The claim filters as a prefilter, with the matched and the not comparable counted. -/
def claimPrefilter (s : QuerySession) (request : QueryRequest)
    (candidates : List (Particle × Embedding)) :
    List (Particle × Embedding) × Option (ℕ × ℕ) :=
  if lib.hasClaimFilters request.claimFilters then
    let outcome (candidate : Particle × Embedding) : Option ClaimMatch :=
      (s.structuredClaim candidate.1).map fun claim => lib.matchClaim claim request.claimFilters
    let kept := candidates.filter fun candidate => outcome candidate = some .MATCHED
    let notComparable := candidates.filter fun candidate => outcome candidate = some .NOT_COMPARABLE
    (kept, some (kept.length, notComparable.length))
  else (candidates, none)

/-- What a query discloses beside its ranked list. -/
structure Disclosures where
  asOfNotes : String → Option AsOfNote := fun _ => none
  excludedUndatable : ℕ := 0
  claimCoverage : Option ClaimCoverage := none
  scopeNotes : List ObserverScopeNote := []
  windowHits : List (String × WindowHit) := []
  windowCoverage : Option WindowCoverage := none

/-- `_claim_coverage_for_stats`. -/
def claimCoverageForStats (s : QuerySession) (stats : ℕ × ℕ) : ClaimCoverage where
  activeTotal := s.countStructuredClaimCoverage.1
  withClaims := s.countStructuredClaimCoverage.2
  matched := stats.1
  notNormalizableExcluded := stats.2

/-- A candidate's similarity and effective confidence; without an encoder the confidence ranks. -/
def scoreCandidate (s : QuerySession) (request : QueryRequest) (queryEmb : Option Embedding)
    (trustPolicy : Trust) (decayPolicy : Decay) (weights : String → Option ℚ) (now : Instant)
    (candidate : Particle × Embedding) : Scored :=
  let eff := kernel.effectiveConfidence s trustPolicy decayPolicy weights
    (request.asOf.getD now) candidate.1
  (candidate.1, (queryEmb.map fun emb => rank.cosineSimilarity emb candidate.2).getD eff, eff)

/-- **`_gather_scored`**: one store's candidates, filtered and scored by the viewer's policies. -/
def gatherScored (s : QuerySession) (request : QueryRequest) (queryEmb : Option Embedding)
    (trustPolicy : Trust) (decayPolicy : Decay) (weights : String → Option ℚ) (now : Instant) :
    List Scored × Disclosures :=
  let (loaded, windowGather) := embeddedCandidates lib s request
  let (kept, claimStats) := claimPrefilter lib s request
    (loaded.admitted.filter fun candidate => defaultFilters lib s request candidate.1)
  let (kept, scopeNotes) := observerFilter lib Prod.fst s request
    (kept.filter fun candidate => recencyFilter request now candidate.1)
  let scored := kept.map
    (scoreCandidate kernel rank s request queryEmb trustPolicy decayPolicy weights now)
  (scored.filter fun item => request.minConfidence ≤ item.2.2,
    { asOfNotes := loaded.notes
      excludedUndatable := loaded.excludedUndatable
      claimCoverage := claimStats.map (claimCoverageForStats s)
      scopeNotes := scopeNotes
      windowHits := (windowGather.map WindowGather.hits).getD []
      windowCoverage := windowGather.map fun gather => gather.coverage s })

/-- What a query retrieves.  The answer composed from it and the readings attached to it are left
out. -/
structure Retrieval where
  particles : List Particle
  effectiveConfidences : List ℚ
  claimCoverage : Option ClaimCoverage := none
  asOf : Option Instant := none
  asOfNotes : List (Option AsOfNote) := []
  asOfExcludedUndatable : ℕ := 0
  window : Option TimeWindow := none
  windowHits : List (Option WindowHit) := []
  windowCoverage : Option WindowCoverage := none
  observerScope : Option ObserverScopeNote := none

/-- The retrieval of a structural or a window response. -/
def QueryResponse.retrieval {ρ : Type} (response : QueryResponse ρ) : Retrieval where
  particles := response.particles
  effectiveConfidences := response.effectiveConfidences
  claimCoverage := response.claimCoverage
  asOf := response.asOf
  asOfNotes := response.asOfNotes
  asOfExcludedUndatable := response.asOfExcludedUndatable
  window := response.window
  windowHits := response.windowHits
  windowCoverage := response.windowCoverage
  observerScope := response.observerScope

/-- The retrieval of a ranked list, as `_build_response` lays it out. -/
def retrievalOf (request : QueryRequest) (disclosed : Disclosures) (top : List Scored) :
    Retrieval where
  particles := top.map Prod.fst
  effectiveConfidences := top.map fun item => item.2.2
  claimCoverage := disclosed.claimCoverage
  asOf := request.asOf
  asOfNotes :=
    if request.asOf.isSome then top.map fun item => disclosed.asOfNotes item.1.id else []
  asOfExcludedUndatable := disclosed.excludedUndatable
  window := request.window
  windowHits :=
    if request.window.isSome then top.map fun item => get disclosed.windowHits item.1.id else []
  windowCoverage := disclosed.windowCoverage
  observerScope := mergedScopeNote disclosed.scopeNotes

end Gather

/-! ### The entry points -/

section Queries

variable {σ Trust Decay : Type*} {ρ : Type} [SemilatticeInf σ] [OrderBot σ]
variable (lib : QueryLibrary σ) (kernel : QueryScoring Trust Decay) (terms : VocabularyLibrary ρ)
variable (rank : RankingLibrary)

/-- The question of a semantic query. -/
def requestQuestion (request : QueryRequest) : Except QueryError String :=
  match request.question with
  | some question => .ok question
  | none => .error .ValueError

/-- One store's candidates under its own policies. -/
def gatherOwn (s : QuerySession) (request : QueryRequest) (question : String) (now : Instant) :
    List Scored × Disclosures :=
  gatherScored lib kernel rank s request (rank.embed question) (kernel.loadTrustPolicy s)
    (kernel.loadDecayPolicy s) (kernel.getTrustWeightMap s) now

/-- **One store's ranked list**: sorted, cut at `top_k`, and collapsed. -/
def rankedTop (s : QuerySession) (request : QueryRequest) (question : String) (now : Instant) :
    List Scored :=
  collapseCoEvidentialTopK rank s
    ((sortRanked rank (gatherOwn lib kernel rank s request question now).1).take request.topK)

/-- **`query`**, over one store. -/
def query (s : QuerySession) (request : QueryRequest) (cache : String → Option ℚ) (now : Instant) :
    Except QueryError Retrieval :=
  if request.isWindowListing then
    (windowListing (ρ := ρ) lib kernel s request cache now).map QueryResponse.retrieval
  else if request.isStructuralMode then
    (structuralQuery lib kernel terms s request cache now).map QueryResponse.retrieval
  else do
    assertStoreSchemaCurrent lib s
    let question ← requestQuestion request
    return retrievalOf request (gatherOwn lib kernel rank s request question now).2
      (rankedTop lib kernel rank s request question now)

/-- The sum of two claim coverages, when there are two. -/
def addCoverage : Option ClaimCoverage → Option ClaimCoverage → Option ClaimCoverage
  | none, mine => mine
  | other, none => other
  | some other, some mine => some
      { activeTotal := other.activeTotal + mine.activeTotal
        withClaims := other.withClaims + mine.withClaims
        matched := other.matched + mine.matched
        notNormalizableExcluded := other.notNormalizableExcluded + mine.notNormalizableExcluded }

/-- One store's share of what a federated query discloses. -/
def Disclosures.extend (merged disclosed : Disclosures) : Disclosures where
  asOfNotes := fun id => (disclosed.asOfNotes id).or (merged.asOfNotes id)
  excludedUndatable := merged.excludedUndatable + disclosed.excludedUndatable
  claimCoverage := addCoverage merged.claimCoverage disclosed.claimCoverage
  scopeNotes := merged.scopeNotes ++ disclosed.scopeNotes
  windowHits := updateDict merged.windowHits disclosed.windowHits
  windowCoverage :=
    (disclosed.windowCoverage.map (WindowCoverage.merge merged.windowCoverage)).or
      merged.windowCoverage

/-- What a federated query merges: the candidates, the store each came from, the disclosures. -/
structure MergedScored where
  scored : List Scored := []
  storeById : List (String × String) := []
  disclosed : Disclosures := {}

/-- One store's share of a federated query. -/
def MergedScored.extend (merged : MergedScored) (store : String)
    (gathered : List Scored × Disclosures) : MergedScored where
  scored := merged.scored ++ gathered.1
  storeById := merged.storeById ++ gathered.1.map fun item => (item.1.id, store)
  disclosed := merged.disclosed.extend gathered.2

/-- **`_collapse_federated`**: the collapse of each store's items; every item has its store. -/
def collapseFederated (openStore : String → QuerySession) (storeById : List (String × String))
    (top : List Scored) : List Scored :=
  let byStore := combine (· ++ ·) (top.filterMap fun item =>
    (dictOf storeById item.1.id).map fun store => (store, [item]))
  byStore.flatMap fun group => collapseCoEvidentialTopK rank (openStore group.1) group.2

/-- **`query_federated`**, over the stores that handles open. -/
def queryFederated (openStore : String → QuerySession) (defaultStore : String)
    (stores : List String) (request : QueryRequest) (viewerStore : Option String) (now : Instant) :
    Except QueryError Retrieval :=
  if request.isWindowListing then
    (windowListingFederated (ρ := ρ) lib kernel (openStore defaultStore) (stores.map openStore)
      request (viewerStore.map openStore) now).map QueryResponse.retrieval
  else if request.isStructuralMode then
    (structuralQueryFederated lib kernel terms (openStore defaultStore) (stores.map openStore)
      request (viewerStore.map openStore) now).map QueryResponse.retrieval
  else do
    let stores := if stores.isEmpty then [defaultStore] else stores
    let viewer := openStore (viewerStore.getD (stores.headD defaultStore))
    assertStoreSchemaCurrent lib viewer
    let question ← requestQuestion request
    let merged ← stores.foldlM (fun (merged : MergedScored) store => do
      assertStoreSchemaCurrent lib (openStore store)
      return merged.extend store (gatherScored lib kernel rank (openStore store) request
        (rank.embed question) (kernel.loadTrustPolicy viewer) (kernel.loadDecayPolicy viewer)
        (kernel.getTrustWeightMap viewer) now)) {}
    let top := (sortRanked rank merged.scored).take request.topK
    let collapsed := collapseFederated rank openStore merged.storeById top
    return retrievalOf request merged.disclosed (sortRanked rank collapsed)

/-- Every item of one store collapses with that store's links. -/
theorem collapseFederated_singleton (openStore : String → QuerySession) (store : String)
    {storeById : List (String × String)} {top : List Scored}
    (hstore : ∀ item ∈ top, dictOf storeById item.1.id = some store) :
    collapseFederated rank openStore storeById top =
      collapseCoEvidentialTopK rank (openStore store) top := by
  have hpairs : (top.filterMap fun item =>
      (dictOf storeById item.1.id).map fun store => (store, [item])) =
      top.map fun item => (store, [item]) := by
    rw [← List.filterMap_eq_map]
    refine List.filterMap_congr fun item hitem => ?_
    simp [hstore item hitem]
  have hgroups : combine (· ++ ·) (top.map fun item => (store, [item])) =
      if top = [] then [] else [(store, top)] := by
    clear hstore hpairs
    induction top using List.reverseRecOn with
    | nil => rfl
    | append_singleton top item ih =>
        rw [List.map_append, List.map_singleton, combine, combineInto_concat, ← combine, ih]
        by_cases htop : top = []
        · simp [htop, upsert]
        · simp [htop, upsert]
  unfold collapseFederated
  simp only [hpairs, hgroups]
  split_ifs with htop
  · simp [htop]
  · simp

end Queries

/-! ### No claim twice -/

section Distinct

variable {σ Trust Decay : Type*} (lib : QueryLibrary σ) (kernel : QueryScoring Trust Decay)
variable (rank : RankingLibrary)

/-- The ids of the rows a loader selects. -/
theorem nodup_ids_filter (s : QuerySession) (test : ParticleRow → Bool) :
    ((s.store.particles.rows.filter test).map ParticleRow.id).Nodup :=
  s.store.particles.table.nodup.sublist (List.filter_sublist.map _)

theorem claimPrefilter_sublist (s : QuerySession) (request : QueryRequest)
    (candidates : List (Particle × Embedding)) :
    (claimPrefilter lib s request candidates).1.Sublist candidates := by
  unfold claimPrefilter
  split_ifs
  · exact List.filter_sublist
  · exact List.Sublist.refl _

/-- **A read loads no particle twice.** -/
theorem nodup_embeddedCandidates (s : QuerySession) (request : QueryRequest) :
    ((embeddedCandidates lib s request).1.admitted.map fun candidate => candidate.1.id).Nodup := by
  unfold embeddedCandidates
  cases request.window with
  | some window =>
      -- a row of the window's scope keeps its particle
      have hscope : ((getParticlesInWindowScope lib s request true false).map
          fun row => row.1.id).Nodup := by
        refine (nodup_ids_filter s _).sublist (sublist_map_filterMap ?_ _)
        intro row loaded hrow
        simp only [if_true, Option.map_eq_some_iff] at hrow
        obtain ⟨candidate, hcandidate, rfl⟩ := hrow
        exact id_of_candidateOf hcandidate
      refine hscope.sublist (List.Sublist.trans ?_
        ((gatherWindowCandidates_admitted lib s request window _).map fun row => row.1.id))
      refine sublist_map_filterMap ?_ _
      intro row candidate hrow
      obtain ⟨emb, -, rfl⟩ := Option.map_eq_some_iff.1 hrow
      rfl
  | none =>
      cases request.asOf with
      | none =>
          have hrows := ((sortBy_perm candidateOrder (s.store.particles.rows.filter
            (wantedRow s.store request.minConfidence request.subjectId))).map
              ParticleRow.id).nodup_iff.2 (nodup_ids_filter s _)
          exact hrows.sublist (sublist_map_filterMap (fun _ _ h => id_of_candidateOf h) _)
      | some asOf =>
          have hrows : ((getParticlesWithEmbeddingsAsOf lib s asOf request).map
              fun row => row.1.1.id).Nodup := by
            refine (nodup_ids_filter s _).sublist (sublist_map_filterMap ?_ _)
            intro row loaded hrow
            obtain ⟨candidate, hcandidate, rfl⟩ := Option.map_eq_some_iff.1 hrow
            exact id_of_candidateOf hcandidate
          have hadmitted := (asOfGather_admitted Prod.fst (s.asOfView asOf)
            (getParticlesWithEmbeddingsAsOf lib s asOf request)).map fun candidate => candidate.1.id
          rw [List.map_map] at hadmitted
          exact hrows.sublist hadmitted

/-- Scoring keeps the claims. -/
theorem idsOf_map_scoreCandidate (s : QuerySession) (request : QueryRequest)
    (queryEmb : Option Embedding) (trustPolicy : Trust) (decayPolicy : Decay)
    (weights : String → Option ℚ) (now : Instant) (candidates : List (Particle × Embedding)) :
    idsOf (candidates.map
      (scoreCandidate kernel rank s request queryEmb trustPolicy decayPolicy weights now)) =
      candidates.map fun candidate => candidate.1.id := by
  simp [idsOf, scoreCandidate, Function.comp_def]

variable [SemilatticeInf σ] [OrderBot σ]

/-- **A query scores no claim twice.** -/
theorem nodup_idsOf_gatherScored (s : QuerySession) (request : QueryRequest)
    (queryEmb : Option Embedding) (trustPolicy : Trust) (decayPolicy : Decay)
    (weights : String → Option ℚ) (now : Instant) :
    (idsOf (gatherScored lib kernel rank s request queryEmb trustPolicy decayPolicy weights
      now).1).Nodup := by
  have hfilters := (claimPrefilter_sublist lib s request _).trans
    (List.filter_sublist (p := fun candidate => defaultFilters lib s request candidate.1)
      (l := (embeddedCandidates lib s request).1.admitted))
  have hkept := ((observerFilter_sublist lib Prod.fst s request _).trans
    (List.filter_sublist (p := fun candidate => recencyFilter request now candidate.1))).trans
      hfilters
  have hids := (nodup_embeddedCandidates lib s request).sublist
    (hkept.map fun candidate => candidate.1.id)
  rw [← idsOf_map_scoreCandidate kernel rank s request queryEmb trustPolicy decayPolicy weights
    now] at hids
  exact hids.sublist (List.filter_sublist.map _)

theorem nodup_idsOf_rankedTop (s : QuerySession) (request : QueryRequest) (question : String)
    (now : Instant) : (idsOf (rankedTop lib kernel rank s request question now)).Nodup := by
  refine List.Nodup.sublist (collapseCoEvidentialTopK_sublist rank s _) ?_
  refine List.Nodup.sublist ((List.take_sublist _ _).map _) ?_
  exact ((sortBy_perm _ _).map _).nodup_iff.2 (nodup_idsOf_gatherScored lib kernel rank s request _ _
    _ _ now)

end Distinct

/-! ### Federating over one store -/

section OneStore

variable {σ Trust Decay : Type*} {ρ : Type} [SemilatticeInf σ] [OrderBot σ]
variable (lib : QueryLibrary σ) (kernel : QueryScoring Trust Decay) (terms : VocabularyLibrary ρ)
variable (rank : RankingLibrary)

/-- A query is semantic when it asks a question of the candidates. -/
def QueryRequest.isSemantic (request : QueryRequest) : Bool :=
  !request.isWindowListing && !request.isStructuralMode

/-- The claims a query returns, in order, with their effective confidences. -/
def Retrieval.ranking (retrieval : Retrieval) : List (Particle × ℚ) :=
  retrieval.particles.zip retrieval.effectiveConfidences

/-- The claims of a ranked list, with their effective confidences. -/
def rankingOf (top : List Scored) : List (Particle × ℚ) :=
  top.map fun item => (item.1, item.2.2)

@[simp] theorem ranking_retrievalOf (request : QueryRequest) (disclosed : Disclosures)
    (top : List Scored) : (retrievalOf request disclosed top).ranking = rankingOf top := by
  simp [Retrieval.ranking, retrievalOf, rankingOf, List.zip_map']

/-- The hits of a gather are those of its window read, or none. -/
theorem nodup_windowHits_gatherScored (s : QuerySession) (request : QueryRequest)
    (queryEmb : Option Embedding) (trustPolicy : Trust) (decayPolicy : Decay)
    (weights : String → Option ℚ) (now : Instant) :
    ((gatherScored lib kernel rank s request queryEmb trustPolicy decayPolicy weights
      now).2.windowHits.map Prod.fst).Nodup := by
  have hgather : ((((embeddedCandidates lib s request).2.map WindowGather.hits).getD []).map
      Prod.fst).Nodup := by
    unfold embeddedCandidates
    split
    · exact nodup_hits_gatherWindowCandidates lib s request _ _
    · exact List.nodup_nil
    · exact List.nodup_nil
  exact hgather

/-- The disclosures of one store are their own merge. -/
theorem extend_disclosures {disclosed : Disclosures}
    (hhits : (disclosed.windowHits.map Prod.fst).Nodup) :
    Disclosures.extend {} disclosed = disclosed := by
  have hmerge : WindowCoverage.merge none = id := rfl
  cases disclosed with
  | mk notes excluded coverage scopeNotes hits windowCoverage =>
      simp [Disclosures.extend, updateDict_nil hhits, hmerge, addCoverage]

/-- The merge of one store's candidates: each comes from that store. -/
theorem extend_mergedScored (store : String) {gathered : List Scored × Disclosures}
    (hhits : (gathered.2.windowHits.map Prod.fst).Nodup) :
    MergedScored.extend {} store gathered =
      { scored := gathered.1
        storeById := gathered.1.map fun item => (item.1.id, store)
        disclosed := gathered.2 } := by
  simp [MergedScored.extend, extend_disclosures hhits]

theorem dictOf_storeById (store : String) {items : List Scored} {item : Scored}
    (hitem : item ∈ items) :
    dictOf (items.map fun item => (item.1.id, store)) item.1.id = some store := by
  refine dictOf_eq_some (List.mem_map.2 ⟨item, hitem, rfl⟩) fun value hvalue => ?_
  obtain ⟨other, -, heq⟩ := List.mem_map.1 hvalue
  exact (congrArg Prod.snd heq).symm

/-- What made the cut comes from the one store there is. -/
theorem collapseFederated_take (openStore : String → QuerySession) (store : String)
    (items : List Scored) (k : ℕ) :
    collapseFederated rank openStore (items.map fun item => (item.1.id, store))
        ((sortRanked rank items).take k) =
      collapseCoEvidentialTopK rank (openStore store) ((sortRanked rank items).take k) := by
  refine collapseFederated_singleton rank openStore store fun item hitem => ?_
  exact dictOf_storeById store (mem_sortBy.1 (List.mem_of_mem_take hitem))

/-- **A semantic query federated over one store is that store's ranked list, sorted again.** -/
theorem queryFederated_semantic (openStore : String → QuerySession) (defaultStore store : String)
    {request : QueryRequest} (hmode : request.isSemantic = true) (now : Instant) :
    queryFederated lib kernel terms rank openStore defaultStore [store] request none now = do
      assertStoreSchemaCurrent lib (openStore store)
      let question ← requestQuestion request
      return retrievalOf request (gatherOwn lib kernel rank (openStore store) request question now).2
        (sortRanked rank (rankedTop lib kernel rank (openStore store) request question now)) := by
  obtain ⟨hwindow, hstructural⟩ : request.isWindowListing = false ∧
      request.isStructuralMode = false := by simpa [QueryRequest.isSemantic] using hmode
  simp only [queryFederated, hwindow, hstructural, Bool.false_eq_true, if_false, List.isEmpty_cons,
    List.headD_cons, Option.getD_none, List.foldlM_cons, List.foldlM_nil, bind, Except.bind, pure,
    Except.pure]
  cases assertStoreSchemaCurrent lib (openStore store) with
  | error e => rfl
  | ok _ =>
      cases requestQuestion request with
      | error e => rfl
      | ok question =>
          have hmerged := extend_mergedScored store (nodup_windowHits_gatherScored lib kernel rank
            (openStore store) request (rank.embed question)
            (kernel.loadTrustPolicy (openStore store)) (kernel.loadDecayPolicy (openStore store))
            (kernel.getTrustWeightMap (openStore store)) now)
          simp only [hmerged]
          rw [collapseFederated_take]
          rfl

/-- A semantic query of one store. -/
theorem query_semantic (s : QuerySession) {request : QueryRequest}
    (hmode : request.isSemantic = true) (cache : String → Option ℚ) (now : Instant) :
    query lib kernel terms rank s request cache now = do
      assertStoreSchemaCurrent lib s
      let question ← requestQuestion request
      return retrievalOf request (gatherOwn lib kernel rank s request question now).2
        (rankedTop lib kernel rank s request question now) := by
  obtain ⟨hwindow, hstructural⟩ : request.isWindowListing = false ∧
      request.isStructuralMode = false := by simpa [QueryRequest.isSemantic] using hmode
  simp [query, hwindow, hstructural]

/-! #### The other modes -/

@[simp] theorem ranking_withScopeNote (response : QueryResponse ρ)
    (notes : List ObserverScopeNote) :
    (withScopeNote response notes).retrieval.ranking = response.retrieval.ranking := by
  unfold withScopeNote
  cases mergedScopeNote notes <;> rfl

/-- The claims of a listing are those of its rows, whatever else its gather carries. -/
theorem ranking_assemble (request : QueryRequest) {gathered gathered' : Gathered}
    (hrows : gathered.rows = gathered'.rows) (session session' : Option QuerySession) :
    (assemble (ρ := ρ) request gathered session).retrieval.ranking =
      (assemble (ρ := ρ) request gathered' session').retrieval.ranking := by
  unfold assemble
  split
  · rfl
  · simp only [Retrieval.ranking, QueryResponse.retrieval, assembleListing, hrows]

/-- **A structural request over one store returns the same claims in the same order**, with or
without a window. -/
theorem ranking_structuralQueryFederated (defaultStore s : QuerySession) (request : QueryRequest)
    (cache : String → Option ℚ) (now : Instant) :
    ((structuralQueryFederated lib kernel terms defaultStore [s] request none now).map
        QueryResponse.retrieval).map Retrieval.ranking =
      ((structuralQuery lib kernel terms s request cache now).map QueryResponse.retrieval).map
        Retrieval.ranking := by
  simp only [structuralQueryFederated, structuralQuery, List.isEmpty_cons, Bool.false_eq_true,
    if_false, List.headD_cons, Option.getD_none, mergeStores, List.foldlM_cons, List.foldlM_nil,
    bind, Except.bind, pure, Except.pure]
  cases hschema : assertStoreSchemaCurrent lib s with
  | error e => rfl
  | ok _ =>
      cases hpredicates : request.listPredicates with
      | true =>
          simp only [MergedClaims.add, hschema, bind, Except.bind, pure, Except.pure, Except.map,
            if_true, ranking_withScopeNote]
          rfl
      | false =>
          cases hvocabulary : request.listVocabulary with
          | true =>
              simp only [MergedClaims.add, hschema, bind, Except.bind, pure, Except.pure,
                Except.map, if_true, Bool.false_eq_true, if_false, ranking_withScopeNote]
              rfl
          | false =>
              simp only [Bool.false_eq_true, if_false, Except.map, ranking_withScopeNote,
                List.nil_append, Except.ok.injEq, gatherStore_viewer lib kernel s request cache]
              exact ranking_assemble request (by rw [extend_empty]) none (some s)

/-- The claims of a request that asks no question are the same over one store. -/
theorem ranking_queryFederated_of_not_semantic (openStore : String → QuerySession)
    (defaultStore store : String) {request : QueryRequest} (hmode : request.isSemantic = false)
    (cache : String → Option ℚ) (now : Instant) :
    (queryFederated lib kernel terms rank openStore defaultStore [store] request none now).map
        Retrieval.ranking =
      (query lib kernel terms rank (openStore store) request cache now).map Retrieval.ranking := by
  unfold queryFederated query
  cases hwindow : request.isWindowListing with
  | true =>
      simp only [if_true, List.map_cons, List.map_nil, Option.map_none,
        windowListingFederated_singleton lib kernel _ (openStore store) request cache now]
  | false =>
      have hstructural : request.isStructuralMode = true := by
        simpa [QueryRequest.isSemantic, hwindow] using hmode
      simp only [hstructural, Bool.false_eq_true, if_false, if_true, List.map_cons, List.map_nil,
        Option.map_none]
      exact ranking_structuralQueryFederated lib kernel terms _ _ request cache now

/-- The list that a semantic query of a store returns has no score above one before it: the collapse
raised no representative over an item ranked before it. -/
def CollapseKeepsRank (s : QuerySession) (request : QueryRequest) (now : Instant) : Prop :=
  request.isSemantic = true → assertStoreSchemaCurrent lib s = .ok () →
    ∀ question, request.question = some question →
      Ranked rank (rankedTop lib kernel rank s request question now)

/-- Sorting a list of claims again keeps its claims and their order exactly when it is ranked. -/
theorem rankingOf_sortRanked_eq_iff {top : List Scored} (hnodup : (idsOf top).Nodup) :
    rankingOf (sortRanked rank top) = rankingOf top ↔ Ranked rank top := by
  rw [← sortRanked_eq_self_iff]
  constructor
  · intro h
    have hranking : (rankingOf top).Nodup := by
      refine List.Nodup.of_map (fun pair : Particle × ℚ => pair.1.id) ?_
      rwa [rankingOf, List.map_map]
    exact eq_of_perm_of_map_eq hranking (sortBy_perm _ _) h
  · intro h
    rw [h]

/-- **Federating over one store returns that store's claims with its confidences.**  A semantic
query's list is sorted again after the collapse, so its order is that of the store's own query
exactly when the collapse left the list ranked. -/
theorem queryFederated_singleton (openStore : String → QuerySession) (defaultStore store : String)
    (request : QueryRequest) (cache : String → Option ℚ) (now : Instant) :
    ((queryFederated lib kernel terms rank openStore defaultStore [store] request none now).map
        fun retrieval => (retrieval.ranking : Multiset (Particle × ℚ))) =
      ((query lib kernel terms rank (openStore store) request cache now).map
        fun retrieval => (retrieval.ranking : Multiset (Particle × ℚ))) ∧
    (request.isSemantic = true →
      (queryFederated lib kernel terms rank openStore defaultStore [store] request none now).map
        Retrieval.ranking = do
          assertStoreSchemaCurrent lib (openStore store)
          let question ← requestQuestion request
          return rankingOf (sortRanked rank
            (rankedTop lib kernel rank (openStore store) request question now))) ∧
    ((queryFederated lib kernel terms rank openStore defaultStore [store] request none now).map
        Retrieval.ranking =
      (query lib kernel terms rank (openStore store) request cache now).map Retrieval.ranking ↔
      CollapseKeepsRank lib kernel rank (openStore store) request now) := by
  cases hmode : request.isSemantic with
  | false =>
      have hsame := ranking_queryFederated_of_not_semantic lib kernel terms rank openStore
        defaultStore store hmode cache now
      refine ⟨?_, nofun, iff_of_true hsame fun h => ?_⟩
      · have hcoe := congrArg (Except.map fun ranking : List (Particle × ℚ) =>
          (ranking : Multiset (Particle × ℚ))) hsame
        have hmap : ∀ result : Except QueryError Retrieval,
            (result.map Retrieval.ranking).map (fun ranking : List (Particle × ℚ) =>
              (ranking : Multiset (Particle × ℚ))) =
              result.map fun retrieval => (retrieval.ranking : Multiset (Particle × ℚ)) := by
          rintro (_ | _) <;> rfl
        rwa [hmap, hmap] at hcoe
      · rw [hmode] at h
        exact nomatch h
  | true =>
      rw [queryFederated_semantic lib kernel terms rank openStore defaultStore store hmode now,
        query_semantic lib kernel terms rank (openStore store) hmode cache now, CollapseKeepsRank]
      cases assertStoreSchemaCurrent lib (openStore store) with
      | error e => exact ⟨rfl, fun _ => rfl, iff_of_true rfl fun _ h => nomatch h⟩
      | ok _ =>
          cases hquestion : request.question with
          | none =>
              have herror : requestQuestion request = .error .ValueError := by
                rw [requestQuestion, hquestion]
              rw [herror]
              exact ⟨rfl, fun _ => rfl, iff_of_true rfl fun _ _ _ h => nomatch h⟩
          | some question =>
              have hok : requestQuestion request = .ok question := by
                rw [requestQuestion, hquestion]
              have hnodup := nodup_idsOf_rankedTop lib kernel rank (openStore store) request
                question now
              simp only [hok, bind, Except.bind, pure, Except.pure, Except.map,
                ranking_retrievalOf, Except.ok.injEq, rankingOf_sortRanked_eq_iff rank hnodup,
                Multiset.coe_eq_coe]
              refine ⟨(sortBy_perm _ _).map _, fun _ => trivial, ?_⟩
              simp [hmode]

end OneStore

/-! ### A representative that overtakes -/

/-- The default weights, an encoder that finds every claim similar, and the noisy-or of claims from
different sources. -/
def plainRanking : RankingLibrary where
  embed := fun _ => some [1]
  cosineSimilarity := fun _ _ => 1
  similarityWeight := 3 / 5
  confidenceWeight := 2 / 5
  narrativeRankWeight := 3 / 5
  equivalenceThreshold := 0
  effectiveEquivalence := fun confidence => confidence.getD 1
  mergeCoEvidentialConfidence := fun entries =>
    1 - (entries.map fun entry => 1 - entry.1).foldl (· * ·) 1

/-- An embedded claim of a source. -/
def sourcedRow (rowid : ℕ) (id source : String) (confidence : NNRat) : ParticleRow where
  model :=
    { id := id
      content := id
      confidence := confidence
      provenance := [{ type := .SOURCE, corpusEntryId := source }] }
  rowid := rowid
  embeddingJson := some [1]

/-- The confidences of the store below. -/
def strongConfidence : NNRat := ⟨4 / 5, by decide +kernel⟩

def weakConfidence : NNRat := ⟨7 / 10, by decide +kernel⟩

/-- A claim `a`, and two weaker claims `b` and `c` that support each other from two sources. -/
def linkedStore : QuerySession where
  store :=
    { particles := ([sourcedRow 0 "a" "E1" strongConfidence, sourcedRow 1 "b" "E2" weakConfidence,
        sourcedRow 2 "c" "E3" weakConfidence].foldlM ParticleTable.insert? .empty).getD .empty
      relations := ⟨[⟨"b", "c", .CO_EVIDENTIAL, .AUTO_CLUSTER_V1⟩], by decide⟩ }

/-- The store answers `a`, then `b`; federated over that store alone, `b` has the confidence that `c`
lends it and comes first. -/
theorem linkedStore_overtaken :
    (query plainLibrary plainScoring plainTerms plainRanking linkedStore
        { question := some "q" } (fun _ => none) 0).map
          (fun retrieval => (retrieval.particles.map Particle.id, retrieval.effectiveConfidences)) =
      .ok (["a", "b"], [4 / 5, 91 / 100]) ∧
    (queryFederated plainLibrary plainScoring plainTerms plainRanking (fun _ => linkedStore) "s"
        ["s"] { question := some "q" } none 0).map
          (fun retrieval => (retrieval.particles.map Particle.id, retrieval.effectiveConfidences)) =
      .ok (["b", "a"], [91 / 100, 4 / 5]) := by
  constructor <;> decide +kernel

end ParticlesEngine
