/-
**The structural modes of a query.**

`operations/query/structural.py` answers a request without a question from the structured claims
alone: a listing, an aggregate, the predicate terms or the vocabulary report, over one store or over
several under one viewer's policies.

Main definitions:

* `candidateClaims`, `gatherStore` — one store's filtered and scored claims;
* `assemble`, `predicatesListing`, `vocabularyListing` — the responses;
* `structuralQuery`, `structuralQueryFederated` — the two entry points;
* `QueryResponse.eraseLabels`, `SameButLabels` — equality of two responses up to the labels of
  subject buckets, which are store-local.

Main results:

* `mergeStores_windowCoverage` — **the federated merge drops what a window collects**, whatever the
  stores;
* `structuralQueryFederated_singleton_iff` — **when federating over one store answers what that
  store answers**.
-/

import Mathlib.Data.String.Basic
import ParticlesEngine.QueryCandidates

set_option relaxedAutoImplicit false
set_option autoImplicit false

open Dict MergedDict SortBy

namespace ParticlesEngine

/-! ### Responses -/

/-- The coverage footer of a structural filter. -/
structure ClaimCoverage where
  activeTotal : ℕ
  withClaims : ℕ
  matched : ℕ
  notNormalizableExcluded : ℕ := 0
  belowMinEffectiveConfidence : ℕ := 0
  deriving DecidableEq, Repr

/-- One bucket of a grouped aggregate. -/
structure AggregateBucket where
  key : String
  label : Option String
  claimCount : ℕ
  minEffectiveConfidence : Option ℚ
  medianEffectiveConfidence : Option ℚ
  maxEffectiveConfidence : Option ℚ
  deriving DecidableEq

/-- An aggregate over the matched claims. -/
structure StructuralAggregate where
  claimCount : ℕ
  minEffectiveConfidence : Option ℚ
  medianEffectiveConfidence : Option ℚ
  maxEffectiveConfidence : Option ℚ
  groupBy : Option StructuralGroupBy
  buckets : List AggregateBucket
  deriving DecidableEq

/-- One distinct predicate term. -/
structure PredicateInfo where
  value : String
  kind : String
  claimCount : ℕ
  deriving DecidableEq, Repr

/-- The vocabulary report: the counts its answer quotes, and the tables the core package folds. -/
structure VocabularyReport (ρ : Type) where
  predicatesCanonical : ℕ
  predicatesDistinct : ℕ
  claimsInView : ℕ
  tables : ρ
  observerScope : Option ObserverScopeNote := none

/-- The fields of a response that the structural modes set. -/
structure QueryResponse (ρ : Type) where
  answer : String
  particles : List Particle := []
  effectiveConfidences : List ℚ := []
  structuralAggregate : Option StructuralAggregate := none
  predicateVocabulary : List PredicateInfo := []
  vocabularyReport : Option (VocabularyReport ρ) := none
  claimCoverage : Option ClaimCoverage := none
  asOf : Option Instant := none
  asOfNotes : List (Option AsOfNote) := []
  asOfExcludedUndatable : ℕ := 0
  window : Option TimeWindow := none
  windowHits : List (Option WindowHit) := []
  windowCoverage : Option WindowCoverage := none
  observerScope : Option ObserverScopeNote := none

/-- One store's rows for the vocabulary report. -/
structure VocabularyInputs where
  claims : List (StructuredClaim × String) := []
  subjects : List (Option String × List ExternalRef) := []
  eventCounts : List (String × ℕ) := []
  structuredClaimsTotal : ℕ := 0
  deriving DecidableEq

/-- `VocabularyInputs.extend`; a counter adds. -/
def VocabularyInputs.extend (inputs other : VocabularyInputs) : VocabularyInputs where
  claims := inputs.claims ++ other.claims
  subjects := inputs.subjects ++ other.subjects
  eventCounts := combineInto (· + ·) inputs.eventCounts other.eventCounts
  structuredClaimsTotal := inputs.structuredClaimsTotal + other.structuredClaimsTotal

/-- The vocabulary functions of the core package. -/
structure VocabularyLibrary (ρ : Type) where
  /-- the distinct predicate terms, with kind and count -/
  predicateVocabulary : List StructuredClaim → List PredicateInfo
  NO_SUBJECT : String
  UNCLASSED : String
  /-- `vocabulary_report`: the fold, with the alignments the viewer's store adopts -/
  vocabularyReport : QuerySession → VocabularyInputs → Option Instant → VocabularyReport ρ

section Structural

variable {σ Trust Decay : Type*} {ρ : Type} [SemilatticeInf σ] [OrderBot σ]
variable (lib : QueryLibrary σ) (kernel : QueryScoring Trust Decay) (terms : VocabularyLibrary ρ)

/-! ### One store's claims -/

/-- The claim-carrying candidates of one store, with what the lenses disclose beside them. -/
structure CandidateClaims where
  pairs : List (Particle × StructuredClaim)
  asOfNotes : String → Option AsOfNote
  excludedUndatable : ℕ
  scopeNotes : List ObserverScopeNote
  /-- what the window collected, when the request sets one -/
  windowGather : Option WindowGather

/-- The particles of the store that the lenses of a request admit. -/
def loadCandidates (s : QuerySession) (request : QueryRequest) :
    AsOfGather Particle × Option WindowGather :=
  match request.window, request.asOf with
  | some window, _ =>
      let loop := gatherWindowCandidates lib s request window
        (getParticlesInWindowScope lib s request false true)
      ({ admitted := loop.admitted.map Prod.fst
         notes := loop.notes
         excludedUndatable := loop.asOfExcluded }, some loop.gather)
  | none, none => ({ admitted := s.getActiveParticlesWithClaims request }, none)
  | none, some asOf =>
      (asOfGather id (s.asOfView asOf) (s.getParticlesWithClaimsAsOf asOf request), none)

/-- **`_candidate_claims`.** -/
def candidateClaims (s : QuerySession) (request : QueryRequest) (now : Instant) :
    CandidateClaims :=
  let (loaded, windowGather) := loadCandidates lib s request
  let particles := loaded.admitted.filter fun p =>
    defaultFilters lib s request p && recencyFilter request now p
  let (particles, scopeNotes) := observerFilter lib id s request particles
  { pairs := particles.filterMap fun p => (s.structuredClaim p).map fun claim => (p, claim)
    asOfNotes := loaded.notes
    excludedUndatable := loaded.excludedUndatable
    scopeNotes := scopeNotes
    windowGather := windowGather }

/-- One matched row: the particle, its claim, and its effective confidence. -/
abbrev ClaimRow := Particle × StructuredClaim × ℚ

/-- `_Gathered`: one store's filtered, scored candidate set. -/
structure Gathered where
  rows : List ClaimRow := []
  notComparable : ℕ := 0
  asOfNotes : String → Option AsOfNote := fun _ => none
  excludedUndatable : ℕ := 0
  activeTotal : ℕ := 0
  withClaims : ℕ := 0
  windowHits : List (String × WindowHit) := []
  windowCoverage : Option WindowCoverage := none

/-- **`_gather_store`**: filter and score one store's claims. -/
def gatherStore (s : QuerySession) (request : QueryRequest) (trustPolicy : Option Trust)
    (decayPolicy : Option Decay) (cache : String → Option ℚ) (populateCache : Bool)
    (now : Instant) : Gathered × List ObserverScopeNote :=
  let candidates := candidateClaims lib s request now
  let filtered := lib.hasClaimFilters request.claimFilters
  let outcome (pair : Particle × StructuredClaim) : ClaimMatch :=
    lib.matchClaim pair.2 request.claimFilters
  let matched := candidates.pairs.filter fun pair => !filtered || outcome pair = .MATCHED
  let notComparable := candidates.pairs.filter fun pair => filtered && outcome pair = .NOT_COMPARABLE
  let eff (p : Particle) : ℚ :=
    scoreEffectiveConfidence kernel s trustPolicy decayPolicy cache populateCache
      (request.asOf.getD now) p
  let counts := s.countStructuredClaimCoverage
  ({ rows := (matched.map fun pair => (pair.1, pair.2, eff pair.1)).filter fun row =>
        request.minConfidence ≤ row.2.2
     notComparable := notComparable.length
     asOfNotes := candidates.asOfNotes
     excludedUndatable := candidates.excludedUndatable
     activeTotal := counts.1
     withClaims := counts.2
     windowHits := (candidates.windowGather.map WindowGather.hits).getD []
     windowCoverage := candidates.windowGather.map fun gather => gather.coverage s },
    candidates.scopeNotes)

/-! ### The listing and the aggregate -/

/-- `_coverage`. -/
def claimCoverageOf (gathered : Gathered) (belowMin : ℕ) : ClaimCoverage where
  activeTotal := gathered.activeTotal
  withClaims := gathered.withClaims
  matched := gathered.rows.length
  notNormalizableExcluded := gathered.notComparable
  belowMinEffectiveConfidence := belowMin

/-- The median: the middle one, or the mean of the two in the middle. -/
def median (values : List ℚ) : Option ℚ :=
  let ordered := sortBy id values
  let middle := ordered.length / 2
  if ordered.length % 2 = 1 then ordered[middle]?
  else do
    let below ← ordered[middle - 1]?
    let above ← ordered[middle]?
    some ((below + above) / 2)

/-- The bucket key of a claim whose subject resolves to no Subject. -/
def NO_SUBJECT_KEY : String := "(no subject)"

/-- `_subject_bucket_keys`. -/
def subjectBucketKeys (particle : Particle) (claim : StructuredClaim) : List String :=
  match claim.subjectId with
  | some subjectId => [subjectId]
  | none => if particle.subjectIds.isEmpty then [NO_SUBJECT_KEY] else particle.subjectIds

/-- The keys a row counts under. -/
def bucketKeys (groupBy : StructuralGroupBy) (row : ClaimRow) : List String :=
  match groupBy with
  | .SUBJECT => subjectBucketKeys row.1 row.2.1
  | .PREDICATE => [row.2.1.predicate.value]
  | .OBJECT => [row.2.1.object.value]

/-- The label of a bucket: the canonical name of its subject, when a session resolves it. -/
def bucketLabel (groupBy : StructuralGroupBy) (session : Option QuerySession) (key : String) :
    Option String :=
  if groupBy = .SUBJECT ∧ key ≠ NO_SUBJECT_KEY then do
    let s ← session
    let subject ← s.store.subjects.get? key
    some subject.canonicalName
  else none

/-- `_build_buckets`. -/
def buildBuckets (rows : List ClaimRow) (groupBy : StructuralGroupBy)
    (session : Option QuerySession) : List AggregateBucket :=
  let grouped := combine (· ++ ·) (rows.flatMap fun row =>
    (bucketKeys groupBy row).map fun key => (key, [row.2.2]))
  let buckets := grouped.map fun item =>
    { key := item.1
      label := bucketLabel groupBy session item.1
      claimCount := item.2.length
      minEffectiveConfidence := item.2.min?
      medianEffectiveConfidence := median item.2
      maxEffectiveConfidence := item.2.max? : AggregateBucket }
  sortBy (fun bucket => toLex (-(bucket.claimCount : ℤ), bucket.key)) buckets

/-- The value of an axis, as an answer spells it. -/
def StructuralGroupBy.value : StructuralGroupBy → String
  | .SUBJECT => "subject"
  | .PREDICATE => "predicate"
  | .OBJECT => "object"

/-- The aggregate of `_assemble`. -/
def assembleAggregate (request : QueryRequest) (gathered : Gathered)
    (session : Option QuerySession) : QueryResponse ρ :=
  let rows := match request.minEffectiveConfidence with
    | none => gathered.rows
    | some floor => gathered.rows.filter fun row => floor ≤ row.2.2
  let effs := rows.map fun row => row.2.2
  let buckets := match request.groupBy with
    | none => []
    | some groupBy => buildBuckets rows groupBy session
  { answer := match request.groupBy with
      | none => toString rows.length ++ " claims match."
      | some groupBy => toString rows.length ++ " claims match, in " ++ toString buckets.length ++
          " " ++ groupBy.value ++ " bucket(s)."
    structuralAggregate := some
      { claimCount := rows.length
        minEffectiveConfidence := effs.min?
        medianEffectiveConfidence := median effs
        maxEffectiveConfidence := effs.max?
        groupBy := request.groupBy
        buckets := buckets }
    claimCoverage := some (claimCoverageOf gathered (gathered.rows.length - rows.length))
    asOf := request.asOf
    asOfExcludedUndatable := gathered.excludedUndatable
    window := request.window
    windowCoverage := gathered.windowCoverage }

/-- The listing of `_assemble`: effective confidence descending, then the assertion instant. -/
def assembleListing (request : QueryRequest) (gathered : Gathered) : QueryResponse ρ :=
  let ordered := sortBy (fun row : ClaimRow =>
    OrderDual.toDual (toLex (row.2.2, row.1.assertedAt))) gathered.rows
  let top := ordered.take request.topK
  { answer := toString ordered.length ++ " claims matched the structural filter." ++
      if top.length < ordered.length then
        " Showing the top " ++ toString top.length ++ " by effective confidence."
      else ""
    particles := top.map Prod.fst
    effectiveConfidences := top.map fun row => row.2.2
    claimCoverage := some (claimCoverageOf gathered 0)
    asOf := request.asOf
    asOfNotes := if request.asOf.isSome then top.map fun row => gathered.asOfNotes row.1.id else []
    asOfExcludedUndatable := gathered.excludedUndatable
    window := request.window
    windowHits :=
      if request.window.isSome then top.map fun row => get gathered.windowHits row.1.id else []
    windowCoverage := gathered.windowCoverage }

/-- **`_assemble`.** -/
def assemble (request : QueryRequest) (gathered : Gathered) (session : Option QuerySession) :
    QueryResponse ρ :=
  if request.isAggregate then assembleAggregate request gathered session
  else assembleListing request gathered

/-! ### The predicates and the vocabulary -/

/-- The `--predicates` response from the claims in view. -/
def predicatesResponse (request : QueryRequest) (claims : List StructuredClaim)
    (activeTotal withClaims excludedUndatable : ℕ) : QueryResponse ρ :=
  let vocabulary := terms.predicateVocabulary claims
  { answer := toString vocabulary.length ++ " distinct predicate term(s) across " ++
      toString claims.length ++ " structured claims."
    predicateVocabulary := vocabulary
    claimCoverage := some
      { activeTotal := activeTotal, withClaims := withClaims, matched := claims.length }
    asOf := request.asOf
    asOfExcludedUndatable := excludedUndatable }

/-- `_predicates_listing`. -/
def predicatesListing (s : QuerySession) (request : QueryRequest) (now : Instant) :
    QueryResponse ρ × List ObserverScopeNote :=
  let candidates := candidateClaims lib s request now
  let counts := s.countStructuredClaimCoverage
  (predicatesResponse terms request (candidates.pairs.map Prod.snd) counts.1 counts.2
    candidates.excludedUndatable, candidates.scopeNotes)

/-- `_vocabulary_response`. -/
def vocabularyResponse (report : VocabularyReport ρ) (request : QueryRequest)
    (activeTotal withClaims excludedUndatable : ℕ) : QueryResponse ρ where
  answer := toString report.predicatesCanonical ++ " canonical predicate(s) from " ++
    toString report.predicatesDistinct ++ " distinct term(s) across " ++
    toString report.claimsInView ++ " structured claims."
  vocabularyReport := some report
  claimCoverage := some
    { activeTotal := activeTotal, withClaims := withClaims, matched := report.claimsInView }
  asOf := request.asOf
  asOfExcludedUndatable := excludedUndatable

/-- `classed_claims`: each claim with the class label of the subject it is about. -/
def classedClaims (s : QuerySession) (claims : List StructuredClaim) :
    List (StructuredClaim × String) :=
  claims.map fun claim =>
    let subject := (claim.subjectId.filter (· ≠ "")).bind s.store.subjects.get?
    (claim, match subject with
      | none => terms.NO_SUBJECT
      | some subject => orDefault subject.subjectClass terms.UNCLASSED)

/-- `list_subject_classes_and_links`: the subjects created by an instant, as they stand now. -/
def listSubjectClassesAndLinks (s : QuerySession) (createdBy : Option Instant) :
    List (Option String × List ExternalRef) :=
  (s.store.subjects.rows.filter fun subject =>
    createdBy.all fun bound => subject.createdAt ≤ bound).map fun subject =>
      (subject.subjectClass, subject.externalIds)

/-- `count_events_by_type`, up to an instant. -/
def countEventsByType (s : QuerySession) (until' : Option Instant) : List (String × ℕ) :=
  combine (· + ·) ((s.operatorEvents.filter fun event =>
    until'.all fun bound => event.occurredAt ≤ bound).map fun event => (event.eventType, 1))

/-- `gather_vocabulary_inputs`. -/
def gatherVocabularyInputs (s : QuerySession) (claims : List StructuredClaim)
    (asOf : Option Instant) : VocabularyInputs where
  claims := classedClaims terms s claims
  subjects := listSubjectClassesAndLinks s asOf
  eventCounts := countEventsByType s asOf
  structuredClaimsTotal := s.countStructuredClaimCoverage.2

/-- `_vocabulary_listing`. -/
def vocabularyListing (s : QuerySession) (request : QueryRequest) (now : Instant) :
    QueryResponse ρ × List ObserverScopeNote :=
  let candidates := candidateClaims lib s request now
  let inputs := gatherVocabularyInputs terms s (candidates.pairs.map Prod.snd) request.asOf
  let report := terms.vocabularyReport s inputs request.asOf
  let counts := s.countStructuredClaimCoverage
  (vocabularyResponse report request counts.1 counts.2 candidates.excludedUndatable,
    candidates.scopeNotes)

/-! ### The entry points -/

/-- `_with_scope_note`. -/
def withScopeNote (response : QueryResponse ρ) (notes : List ObserverScopeNote) :
    QueryResponse ρ :=
  match mergedScopeNote notes with
  | none => response
  | some note =>
      { response with
        observerScope := some note
        vocabularyReport := response.vocabularyReport.map fun report =>
          { report with observerScope := some note } }

/-- **`structural_query`**: one store's structural modes. -/
def structuralQuery (s : QuerySession) (request : QueryRequest) (cache : String → Option ℚ)
    (now : Instant) : Except QueryError (QueryResponse ρ) := do
  assertStoreSchemaCurrent lib s
  let (response, notes) :=
    if request.listPredicates then predicatesListing lib terms s request now
    else if request.listVocabulary then vocabularyListing lib terms s request now
    else
      let (gathered, notes) := gatherStore lib kernel s request none none cache true now
      (assemble request gathered (some s), notes)
  return withScopeNote response notes

/-- What the federated predicates mode sums over the stores: pairs, counts and scope notes. -/
structure MergedClaims (α : Type) where
  items : α
  activeTotal : ℕ := 0
  withClaims : ℕ := 0
  scopeNotes : List ObserverScopeNote := []

/-- One store's share of a federated predicates or vocabulary request. -/
def MergedClaims.add {α : Type} (request : QueryRequest) (now : Instant)
    (extend : α → QuerySession → List StructuredClaim → α) (merged : MergedClaims α)
    (s : QuerySession) : Except QueryError (MergedClaims α) := do
  assertStoreSchemaCurrent lib s
  let candidates := candidateClaims lib s request now
  let counts := s.countStructuredClaimCoverage
  return {
    items := extend merged.items s (candidates.pairs.map Prod.snd)
    activeTotal := merged.activeTotal + counts.1
    withClaims := merged.withClaims + counts.2
    scopeNotes := merged.scopeNotes ++ candidates.scopeNotes }

/-- One store's share of a federated listing or aggregate: the fields the merge carries over. -/
def Gathered.extend (merged gathered : Gathered) : Gathered :=
  { merged with
    rows := merged.rows ++ gathered.rows
    notComparable := merged.notComparable + gathered.notComparable
    asOfNotes := fun id => (gathered.asOfNotes id).or (merged.asOfNotes id)
    excludedUndatable := merged.excludedUndatable + gathered.excludedUndatable
    activeTotal := merged.activeTotal + gathered.activeTotal
    withClaims := merged.withClaims + gathered.withClaims }

/-- The gathers of several stores, each scored by the viewer's policies and weights. -/
def mergeStores (viewer : QuerySession) (stores : List QuerySession) (request : QueryRequest)
    (now : Instant) : Except QueryError (Gathered × List ObserverScopeNote) :=
  stores.foldlM (fun merged s => do
    assertStoreSchemaCurrent lib s
    let (gathered, notes) := gatherStore lib kernel s request
      (some (kernel.loadTrustPolicy viewer)) (some (kernel.loadDecayPolicy viewer))
      (kernel.getTrustWeightMap viewer) false now
    return (merged.1.extend gathered, merged.2 ++ notes)) ({}, [])

/-- **`structural_query_federated`**: the structural modes across several stores. -/
def structuralQueryFederated (defaultStore : QuerySession) (stores : List QuerySession)
    (request : QueryRequest) (viewerStore : Option QuerySession) (now : Instant) :
    Except QueryError (QueryResponse ρ) := do
  let stores := if stores.isEmpty then [defaultStore] else stores
  let viewer := viewerStore.getD (stores.headD defaultStore)
  assertStoreSchemaCurrent lib viewer
  if request.listPredicates then
    let merged ← stores.foldlM (MergedClaims.add lib request now fun items _ claims =>
      items ++ claims) { items := [] }
    return withScopeNote
      (predicatesResponse terms request merged.items merged.activeTotal merged.withClaims 0)
      merged.scopeNotes
  else if request.listVocabulary then
    let merged ← stores.foldlM (MergedClaims.add lib request now fun inputs s claims =>
      VocabularyInputs.extend inputs (gatherVocabularyInputs terms s claims request.asOf))
      { items := {} }
    let report := terms.vocabularyReport viewer merged.items request.asOf
    return withScopeNote
      (vocabularyResponse report request merged.activeTotal merged.withClaims 0) merged.scopeNotes
  else
    let (merged, notes) ← mergeStores lib kernel viewer stores request now
    return withScopeNote (assemble request merged none) notes

end Structural

/-! ### Up to labels -/

/-- A bucket without its label. -/
def AggregateBucket.eraseLabel (bucket : AggregateBucket) : AggregateBucket :=
  { bucket with label := none }

/-- An aggregate without the labels of its buckets. -/
def StructuralAggregate.eraseLabels (aggregate : StructuralAggregate) : StructuralAggregate :=
  { aggregate with buckets := aggregate.buckets.map AggregateBucket.eraseLabel }

/-- A response without the labels of its buckets. -/
def QueryResponse.eraseLabels {ρ : Type} (response : QueryResponse ρ) : QueryResponse ρ :=
  { response with
    structuralAggregate := response.structuralAggregate.map StructuralAggregate.eraseLabels }

/-- **The same error, or the same response in every field but the labels of the buckets.** -/
def SameButLabels {ρ : Type} (a b : Except QueryError (QueryResponse ρ)) : Prop :=
  a.map QueryResponse.eraseLabels = b.map QueryResponse.eraseLabels

section Labels

variable {ρ : Type}

theorem eraseLabels_withScopeNote (response : QueryResponse ρ) (notes : List ObserverScopeNote) :
    (withScopeNote response notes).eraseLabels = withScopeNote response.eraseLabels notes := by
  unfold withScopeNote
  cases mergedScopeNote notes <;> rfl

@[simp] theorem windowCoverage_withScopeNote (response : QueryResponse ρ)
    (notes : List ObserverScopeNote) :
    (withScopeNote response notes).windowCoverage = response.windowCoverage := by
  unfold withScopeNote
  cases mergedScopeNote notes <;> rfl

@[simp] theorem asOfExcludedUndatable_withScopeNote (response : QueryResponse ρ)
    (notes : List ObserverScopeNote) :
    (withScopeNote response notes).asOfExcludedUndatable = response.asOfExcludedUndatable := by
  unfold withScopeNote
  cases mergedScopeNote notes <;> rfl

@[simp] theorem windowCoverage_assemble (request : QueryRequest) (gathered : Gathered)
    (session : Option QuerySession) :
    (assemble (ρ := ρ) request gathered session).windowCoverage = gathered.windowCoverage := by
  unfold assemble
  split <;> rfl

/-- The buckets are the same whatever session resolves their labels. -/
theorem eraseLabel_buildBuckets (rows : List ClaimRow) (groupBy : StructuralGroupBy)
    (session : Option QuerySession) :
    (buildBuckets rows groupBy session).map AggregateBucket.eraseLabel =
      (buildBuckets rows groupBy none).map AggregateBucket.eraseLabel := by
  have hkeys : ∀ (buckets : List AggregateBucket),
      (sortBy (fun bucket => toLex (-(bucket.claimCount : ℤ), bucket.key)) buckets).map
        AggregateBucket.eraseLabel =
      sortBy (fun bucket => toLex (-(bucket.claimCount : ℤ), bucket.key))
        (buckets.map AggregateBucket.eraseLabel) :=
    fun buckets => map_sortBy AggregateBucket.eraseLabel fun _ _ => rfl
  simp only [buildBuckets, hkeys, List.map_map]
  rfl

theorem length_buildBuckets (rows : List ClaimRow) (groupBy : StructuralGroupBy)
    (session : Option QuerySession) :
    (buildBuckets rows groupBy session).length = (buildBuckets rows groupBy none).length := by
  simpa using congrArg List.length (eraseLabel_buildBuckets rows groupBy session)

/-- **A session only gives an answer its labels.** -/
theorem eraseLabels_assemble (request : QueryRequest) (gathered : Gathered)
    (session : Option QuerySession) :
    (assemble (ρ := ρ) request gathered session).eraseLabels =
      (assemble request gathered none).eraseLabels := by
  unfold assemble
  split
  · cases hgroup : request.groupBy with
    | none => simp [assembleAggregate, hgroup]
    | some groupBy =>
        simp only [assembleAggregate, hgroup, QueryResponse.eraseLabels, Option.map_some,
          StructuralAggregate.eraseLabels, eraseLabel_buildBuckets _ _ session,
          length_buildBuckets _ _ session]
  · rfl

end Labels

/-! ### The merge -/

section Merge

variable {σ Trust Decay : Type*} {ρ : Type} [SemilatticeInf σ] [OrderBot σ]
variable (lib : QueryLibrary σ) (kernel : QueryScoring Trust Decay) (terms : VocabularyLibrary ρ)

/-- **The merge drops what a window collects**, whatever the stores: the merged gather has no hit
and no coverage. -/
theorem mergeStores_windowCoverage (viewer : QuerySession) (stores : List QuerySession)
    (request : QueryRequest) (now : Instant) {merged : Gathered} {notes : List ObserverScopeNote}
    (h : mergeStores lib kernel viewer stores request now = .ok (merged, notes)) :
    merged.windowHits = [] ∧ merged.windowCoverage = none := by
  -- the merge only ever extends the gather it starts from
  have hloop : ∀ (stores : List QuerySession) (start : Gathered × List ObserverScopeNote),
      stores.foldlM (fun merged s => do
        assertStoreSchemaCurrent lib s
        let (gathered, notes) := gatherStore lib kernel s request
          (some (kernel.loadTrustPolicy viewer)) (some (kernel.loadDecayPolicy viewer))
          (kernel.getTrustWeightMap viewer) false now
        return (merged.1.extend gathered, merged.2 ++ notes)) start = .ok (merged, notes) →
      merged.windowHits = start.1.windowHits ∧ merged.windowCoverage = start.1.windowCoverage := by
    intro stores
    induction stores with
    | nil =>
        intro start h
        obtain rfl : start = (merged, notes) := by simpa [pure, Except.pure] using h
        exact ⟨rfl, rfl⟩
    | cons s stores ih =>
        intro start h
        rw [List.foldlM_cons] at h
        cases hschema : assertStoreSchemaCurrent lib s with
        | error e =>
            rw [hschema] at h
            exact nomatch h
        | ok _ =>
            rw [hschema] at h
            obtain ⟨hhits, hcoverage⟩ := ih _ h
            exact ⟨hhits, hcoverage⟩
  exact hloop stores ({}, []) h

/-- The viewer's policies and weights score the viewer's own store as it scores itself. -/
theorem gatherStore_viewer (s : QuerySession) (request : QueryRequest) (cache : String → Option ℚ)
    (now : Instant) :
    gatherStore lib kernel s request (some (kernel.loadTrustPolicy s))
        (some (kernel.loadDecayPolicy s)) (kernel.getTrustWeightMap s) false now =
      gatherStore lib kernel s request none none cache true now := rfl

/-- Merging one gather into the empty one loses what its window collected, and nothing else. -/
theorem extend_empty (gathered : Gathered) :
    ({} : Gathered).extend gathered = { gathered with windowHits := [], windowCoverage := none } := by
  simp [Gathered.extend]

theorem extend_gatherVocabularyInputs (s : QuerySession) (claims : List StructuredClaim)
    (asOf : Option Instant) :
    VocabularyInputs.extend {} (gatherVocabularyInputs terms s claims asOf) =
      gatherVocabularyInputs terms s claims asOf := by
  have hcounts : combineInto (· + ·) [] (countEventsByType s asOf) = countEventsByType s asOf :=
    combine_of_nodup _ (nodup_keys_combine _ _)
  simp [VocabularyInputs.extend, gatherVocabularyInputs, hcounts]

/-- The rows a request loads before the lenses, with the retirement column alongside; a read of
now loads ACTIVE rows only and evaluates none. -/
def loadedRows (s : QuerySession) (request : QueryRequest) : List (Particle × Option Instant) :=
  match request.window, request.asOf with
  | some _, _ => (getParticlesInWindowScope lib s request false true).map fun row =>
      (row.1, row.2.2)
  | none, some asOf => s.getParticlesWithClaimsAsOf asOf request
  | none, none => []

/-- No row a request loads is undatable at its instant. -/
def AllDatable (s : QuerySession) (request : QueryRequest) : Prop :=
  ∀ row ∈ loadedRows lib s request, ∀ asOf, request.asOf = some asOf →
    ((s.asOfView asOf).evaluate row.1 row.2).excludedUndatable = false

theorem candidateClaims_undatable_eq_zero (s : QuerySession) (request : QueryRequest)
    (now : Instant) :
    (candidateClaims lib s request now).excludedUndatable = 0 ↔ AllDatable lib s request := by
  have hloaded : (candidateClaims lib s request now).excludedUndatable =
      (loadCandidates lib s request).1.excludedUndatable := rfl
  rw [hloaded, AllDatable, loadedRows, loadCandidates]
  cases request.window with
  | some window =>
      simp only [gatherWindowCandidates_undatable_eq_zero, List.forall_mem_map]
  | none =>
      cases request.asOf with
      | none => simp
      | some asOf => simp [asOfGather_undatable_eq_zero]

/-- A gather has window coverage exactly when its request has a window. -/
theorem isSome_windowCoverage_gatherStore (s : QuerySession) (request : QueryRequest)
    (trustPolicy : Option Trust) (decayPolicy : Option Decay) (cache : String → Option ℚ)
    (populateCache : Bool) (now : Instant) :
    (gatherStore lib kernel s request trustPolicy decayPolicy cache populateCache
      now).1.windowCoverage.isSome = request.window.isSome := by
  have hgather : (loadCandidates lib s request).2.isSome = request.window.isSome := by
    unfold loadCandidates
    split <;> simp [*]
  simpa [gatherStore, candidateClaims] using hgather

theorem gatherStore_of_window_eq_none {s : QuerySession} {request : QueryRequest}
    (hwindow : request.window = none) (trustPolicy : Option Trust) (decayPolicy : Option Decay)
    (cache : String → Option ℚ) (populateCache : Bool) (now : Instant) :
    { (gatherStore lib kernel s request trustPolicy decayPolicy cache populateCache now).1 with
      windowHits := [], windowCoverage := none } =
      (gatherStore lib kernel s request trustPolicy decayPolicy cache populateCache now).1 := by
  have hgather : (candidateClaims lib s request now).windowGather = none := by
    unfold candidateClaims loadCandidates
    rw [hwindow]
    cases request.asOf <;> rfl
  simp only [gatherStore, hgather]
  rfl

end Merge

/-! ### Federating over one store -/

section OneStore

variable {σ Trust Decay : Type*} {ρ : Type} [SemilatticeInf σ] [OrderBot σ]
variable (lib : QueryLibrary σ) (kernel : QueryScoring Trust Decay) (terms : VocabularyLibrary ρ)

/-- What the merge of one store keeps: a listing or an aggregate without a window, a predicates or
vocabulary request none of whose rows is undatable. -/
def MergeKeeps (s : QuerySession) (request : QueryRequest) : Prop :=
  if request.listPredicates ∨ request.listVocabulary then AllDatable lib s request
  else request.window = none

variable {lib} in
/-- A predicates request: the two responses differ in the count of undatable claims alone. -/
theorem sameButLabels_predicates_iff {defaultStore s : QuerySession} {request : QueryRequest}
    (hmode : request.listPredicates = true) (cache : String → Option ℚ) (now : Instant)
    (hschema : assertStoreSchemaCurrent lib s = .ok ()) :
    SameButLabels
        (structuralQueryFederated lib kernel terms defaultStore [s] request none now)
        (structuralQuery lib kernel terms s request cache now) ↔
      AllDatable lib s request := by
  rw [← candidateClaims_undatable_eq_zero lib s request now]
  simp only [SameButLabels, structuralQueryFederated, structuralQuery, hmode, hschema,
    MergedClaims.add, predicatesListing, bind, Except.bind, pure, Except.pure, Except.map,
    List.isEmpty_cons, Bool.false_eq_true, if_true, if_false, List.headD_cons, Option.getD_none,
    List.foldlM_cons, List.foldlM_nil, List.nil_append, Nat.zero_add, Except.ok.injEq]
  constructor
  · intro h
    have hcount := congrArg QueryResponse.asOfExcludedUndatable h
    simpa [QueryResponse.eraseLabels, predicatesResponse, eq_comm] using hcount
  · intro h
    rw [h]

variable {lib} in
/-- A vocabulary request: likewise. -/
theorem sameButLabels_vocabulary_iff {defaultStore s : QuerySession} {request : QueryRequest}
    (hpredicates : request.listPredicates = false) (hmode : request.listVocabulary = true)
    (cache : String → Option ℚ) (now : Instant)
    (hschema : assertStoreSchemaCurrent lib s = .ok ()) :
    SameButLabels
        (structuralQueryFederated lib kernel terms defaultStore [s] request none now)
        (structuralQuery lib kernel terms s request cache now) ↔
      AllDatable lib s request := by
  rw [← candidateClaims_undatable_eq_zero lib s request now]
  simp only [SameButLabels, structuralQueryFederated, structuralQuery, hpredicates, hmode, hschema,
    MergedClaims.add, vocabularyListing, bind, Except.bind, pure, Except.pure, Except.map,
    List.isEmpty_cons, Bool.false_eq_true, if_true, if_false, List.headD_cons, Option.getD_none,
    List.foldlM_cons, List.foldlM_nil, List.nil_append, Nat.zero_add, Except.ok.injEq,
    extend_gatherVocabularyInputs]
  constructor
  · intro h
    have hcount := congrArg QueryResponse.asOfExcludedUndatable h
    simpa [QueryResponse.eraseLabels, vocabularyResponse, eq_comm] using hcount
  · intro h
    rw [h]

variable {lib} in
/-- A listing or an aggregate: the two responses agree exactly without a window. -/
theorem sameButLabels_gathered_iff {defaultStore s : QuerySession} {request : QueryRequest}
    (hpredicates : request.listPredicates = false) (hvocabulary : request.listVocabulary = false)
    (cache : String → Option ℚ) (now : Instant)
    (hschema : assertStoreSchemaCurrent lib s = .ok ()) :
    SameButLabels
        (structuralQueryFederated lib kernel terms defaultStore [s] request none now)
        (structuralQuery lib kernel terms s request cache now) ↔
      request.window = none := by
  simp only [SameButLabels, structuralQueryFederated, structuralQuery, hpredicates, hvocabulary,
    hschema, mergeStores, bind, Except.bind, pure, Except.pure, Except.map, List.isEmpty_cons,
    Bool.false_eq_true, if_false, List.headD_cons, Option.getD_none, List.foldlM_cons,
    List.foldlM_nil, List.nil_append, Except.ok.injEq, gatherStore_viewer lib kernel s request cache,
    extend_empty, eraseLabels_withScopeNote, eraseLabels_assemble _ _ (some s)]
  constructor
  · intro h
    -- the single store always discloses its coverage of a window
    have hcoverage := congrArg QueryResponse.windowCoverage h
    have hsome := isSome_windowCoverage_gatherStore lib kernel s request none none cache true now
    simp only [windowCoverage_withScopeNote, QueryResponse.eraseLabels,
      windowCoverage_assemble] at hcoverage
    rw [← hcoverage, Option.isSome_none] at hsome
    simpa using hsome.symm
  · intro hwindow
    rw [gatherStore_of_window_eq_none lib kernel hwindow]

/-- **Federating over one store answers what that store answers, up to bucket labels, exactly when
the merge keeps what the store's gather found**; a store that cannot be read gives one error. -/
theorem structuralQueryFederated_singleton_iff (defaultStore s : QuerySession)
    (request : QueryRequest) (cache : String → Option ℚ) (now : Instant) :
    SameButLabels
        (structuralQueryFederated lib kernel terms defaultStore [s] request none now)
        (structuralQuery lib kernel terms s request cache now) ↔
      (assertStoreSchemaCurrent lib s = .ok () → MergeKeeps lib s request) := by
  cases hschema : assertStoreSchemaCurrent lib s with
  | error e =>
      have herror : SameButLabels
          (structuralQueryFederated lib kernel terms defaultStore [s] request none now)
          (structuralQuery lib kernel terms s request cache now) := by
        simp [SameButLabels, structuralQueryFederated, structuralQuery, hschema, bind, Except.bind,
          Except.map]
      simp [herror]
  | ok _ =>
      simp only [true_implies]
      unfold MergeKeeps
      cases hpredicates : request.listPredicates with
      | true =>
          simpa using sameButLabels_predicates_iff kernel terms hpredicates cache now hschema
      | false =>
          cases hvocabulary : request.listVocabulary with
          | true =>
              simpa using sameButLabels_vocabulary_iff kernel terms hpredicates hvocabulary cache
                now hschema
          | false =>
              simpa using sameButLabels_gathered_iff kernel terms hpredicates hvocabulary cache now
                hschema

end OneStore

/-! ### A windowed listing over one store -/

/-- A library that matches a predicate by its text and reads an event that began in the window. -/
def plainLibrary : QueryLibrary Unit where
  compatible := fun _ => true
  sameMajor := fun _ => true
  isExcludedDocumentMeta := fun _ => false
  isNonAsserted := fun _ => false
  hasStanceMarker := fun _ => false
  hasClaimFilters := fun filters => filters != {}
  matchClaim := fun claim filters =>
    if filters.predicate.all (· = claim.predicate.value) then .MATCHED else .UNMATCHED
  readWindow := fun facts window =>
    if window.start ≤ facts.validFrom ∧ facts.validFrom ≤ window.stop then some .BEGAN else none
  resolveClose := fun _ _ retiredAt => some (retiredAt, "retired")
  validFromBasis := fun _ => none
  validFromGranularity := fun _ => none
  closingBasis := fun _ => false
  isoformat := fun _ => ""
  scopeAlgebra := ⟨(), (), fun _ _ => (), ()⟩
  harnessTags := []
  visible := fun _ _ => true
  unattributed := fun _ => false
  lapsed := fun _ => false
  float32 := id
  embeddingModelId := LEGACY_EMBEDDING_MODEL_ID

/-- A store without trust, decay or extractor weights. -/
def plainScoring : QueryScoring Unit Unit where
  loadTrustPolicy := fun _ => ()
  loadDecayPolicy := fun _ => ()
  getTrustWeightMap := fun _ _ => none
  effectiveConfidence := fun _ _ _ _ _ p => p.confidence

/-- A vocabulary without alignments. -/
def plainTerms : VocabularyLibrary Unit where
  predicateVocabulary := fun claims => claims.map fun claim =>
    ⟨claim.predicate.value, claim.predicate.kind, 1⟩
  NO_SUBJECT := "(no subject)"
  UNCLASSED := "(unclassed)"
  vocabularyReport := fun _ inputs _ => ⟨inputs.claims.length, inputs.claims.length,
    inputs.claims.length, (), none⟩

/-- A store whose one claim is an event of instant 5. -/
def datedStore : QuerySession where
  store :=
    { particles := (ParticleTable.empty.insert?
        { model := { id := "p", content := "the coin weighed 4 g" }, rowid := 0 }).getD .empty }
  columns := fun _ =>
    { claimTerms := some (⟨"weighed", "TOKEN"⟩, ⟨"4 g", "LITERAL"⟩)
      validFrom := some 5
      validKind := some .EVENT }

/-- The claims about a weight, from instant 0 to instant 10. -/
def weighedInWindow : QueryRequest where
  claimFilters := { predicate := some "weighed" }
  window := some ⟨0, 10⟩
  isStructuralMode := true

/-- The store reads its claim in the window; federated over that store alone, the same listing has
lost the reading and the coverage. -/
theorem datedStore_window_lost :
    (structuralQuery plainLibrary plainScoring plainTerms datedStore weighedInWindow
        (fun _ => none) 20).map QueryResponse.windowHits =
      .ok [some { reading := .BEGAN, validFrom := 5, validKind := some .EVENT }] ∧
    (structuralQueryFederated plainLibrary plainScoring plainTerms datedStore [datedStore]
        weighedInWindow none 20).map QueryResponse.windowHits = .ok [none] ∧
    ¬ SameButLabels
        (structuralQueryFederated plainLibrary plainScoring plainTerms datedStore [datedStore]
          weighedInWindow none 20)
        (structuralQuery plainLibrary plainScoring plainTerms datedStore weighedInWindow
          (fun _ => none) 20) := by
  have hsingle : (structuralQuery plainLibrary plainScoring plainTerms datedStore weighedInWindow
      (fun _ => none) 20).map QueryResponse.windowHits =
      .ok [some { reading := .BEGAN, validFrom := 5, validKind := some .EVENT }] := by
    decide +kernel
  have hfederated : (structuralQueryFederated plainLibrary plainScoring plainTerms datedStore
      [datedStore] weighedInWindow none 20).map QueryResponse.windowHits = .ok [none] := by
    decide +kernel
  refine ⟨hsingle, hfederated, fun h => ?_⟩
  -- erasing labels keeps the readings
  have hhits := congrArg (Except.map QueryResponse.windowHits) h
  have herase : ∀ response : Except QueryError (QueryResponse Unit),
      (response.map QueryResponse.eraseLabels).map QueryResponse.windowHits =
        response.map QueryResponse.windowHits := by
    rintro (_ | _) <;> rfl
  rw [herase, herase, hsingle, hfederated] at hhits
  simp at hhits

end ParticlesEngine
