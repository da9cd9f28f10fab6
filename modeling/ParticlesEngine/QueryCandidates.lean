/-
**The candidates of a read.**

What every query mode does before it scores anything: load the claims that were ACTIVE, believed at
an instant or true in a window of world time, drop what a read excludes by default, and keep what
the request's filters and its project observer leave.

Main definitions:

* `QueryRequest`, `QuerySession`, `QueryLibrary` — the request, one store as a session reads it, and
  the functions of the core and extraction packages;
* `asOfGather` — the rows of an as-of read, with their notes and what cannot be dated;
* `WindowView.evaluate`, `gatherWindowCandidates` — the window lens and its gather;
* `filterVisible` — the project observer, with the disclosure of what it leaves out;
* `defaultFilters`, `observerFilter`, `recencyFilter` — the filters of a request.

Main results:

* `asOfGather_undatable_eq_zero`, `gatherWindowCandidates_undatable_eq_zero` — **a read counts no
  undatable claim exactly when no row it loads is undatable**.
-/

import ParticlesEngine.AsOf
import ParticlesEngine.EmbeddingLoader
import ParticlesEngine.MergedDict
import ParticlesEngine.ObserverScopeJoin

set_option relaxedAutoImplicit false
set_option autoImplicit false

open Dict MergedDict

namespace ParticlesEngine

/-! ### Requests -/

/-- A span of world time. -/
structure TimeWindow where
  start : Instant
  stop : Instant
  deriving DecidableEq, Repr

/-- The structural filters of a request. -/
structure ClaimFilters where
  predicate : Option String := none
  objectEq : Option String := none
  objectGt : Option String := none
  objectLt : Option String := none
  objectContains : Option String := none
  deriving DecidableEq, Repr

/-- The axis an aggregate is grouped by. -/
inductive StructuralGroupBy where
  | SUBJECT
  | PREDICATE
  | OBJECT
  deriving DecidableEq, Repr

/-- One query request; the properties the core package computes from it are fields. -/
structure QueryRequest where
  question : Option String := none
  topK : ℕ := 10
  minConfidence : ℚ := 0
  subjectId : Option String := none
  claimFilters : ClaimFilters := {}
  tags : List String := []
  includeAncestors : Bool := false
  includeDocumentMeta : Bool := false
  includeNonAsserted : Bool := false
  uncertaintyNature : Option String := none
  assertionModality : Option AssertionModality := none
  recencyWindowDays : Option ℕ := none
  observerProject : Option String := none
  asOf : Option Instant := none
  window : Option TimeWindow := none
  listPredicates : Bool := false
  listVocabulary : Bool := false
  groupBy : Option StructuralGroupBy := none
  minEffectiveConfidence : Option ℚ := none
  /-- `is_aggregate`: a count or a grouping -/
  isAggregate : Bool := false
  /-- `is_window_listing`: a window, and no question, claim filter or aggregate -/
  isWindowListing : Bool := false
  /-- `is_structural_mode`: no question -/
  isStructuralMode : Bool := false
  deriving DecidableEq

/-! ### One store, as a session reads it -/

/-- One term of a structured claim. -/
structure ClaimTerm where
  value : String
  kind : String := "TOKEN"
  deriving DecidableEq, Repr

/-- A structured claim: the subject it is bound to, and its terms. -/
structure StructuredClaim where
  subjectId : Option String
  predicate : ClaimTerm
  object : ClaimTerm
  deriving DecidableEq, Repr

/-- What a dated claim's interval is of. -/
inductive ValidKind where
  | STATE
  | EVENT
  deriving DecidableEq, Repr

/-- The columns of a particle's row that only queries read. -/
structure ClaimColumns where
  /-- the predicate and the object of its structured claim -/
  claimTerms : Option (ClaimTerm × ClaimTerm) := none
  uncertaintyNature : Option String := none
  validFrom : Option Instant := none
  validKind : Option ValidKind := none
  deriving DecidableEq

/-- A row of the operator log, with the ids of the particles it refers to. -/
structure OperatorEventRow where
  eventType : String
  occurredAt : Instant
  refIds : List String := []
  deriving DecidableEq, Repr

/-- One store, as the session of a query reads it. -/
structure QuerySession where
  store : Store
  columns : String → ClaimColumns := fun _ => {}
  operatorEvents : List OperatorEventRow := []
  /-- the link confidence of a relation -/
  relationConfidence : String × String × RelationType → Option ℚ := fun _ => none
  /-- `expand_tags`, over the store's taxonomies -/
  expandTags : List String → Bool → List String := fun tags _ => tags

/-- The event types whose refs date a retirement. -/
def RETIREMENT_EVENT_TYPES : List String :=
  ["PARTICLE_SUPERSEDED", "PARTICLE_RETRACTED", "SOURCE_RETRACTED", "REVIEW_RESOLVED"]

namespace QuerySession

variable (s : QuerySession)

/-- The `structured_claim` of a particle of the session's store. -/
def structuredClaim (p : Particle) : Option StructuredClaim :=
  (s.columns p.id).claimTerms.map fun terms => ⟨p.structuredSubjectId, terms.1, terms.2⟩

/-- The operator events of the log that date a retirement. -/
def retirementEvents : List RetirementEvent :=
  s.operatorEvents.flatMap fun event =>
    if event.eventType ∈ RETIREMENT_EVENT_TYPES then
      event.refIds.map fun refId => ⟨refId, event.occurredAt⟩
    else []

/-- `load_as_of_view`, over the session's tables. -/
def asOfView (asOf : Instant) : AsOfView := loadAsOfView s.store s.retirementEvents asOf

/-- The join of a loader with the subject links, when the request names a subject. -/
def linkedTo (subjectId : Option String) (row : ParticleRow) : Bool :=
  match subjectId with
  | none => true
  | some sid => s.store.subjectLinks.rows.any fun link =>
      link.subjectId = sid && link.particleId = row.id

/-- The prefilter of every loader: the raw confidence, and the subject. -/
def prefiltered (request : QueryRequest) (row : ParticleRow) : Bool :=
  decide (request.minConfidence ≤ row.model.confidence) && s.linkedTo request.subjectId row

/-- Whether a row carries a structured claim. -/
def carriesClaim (row : ParticleRow) : Bool := (s.columns row.id).claimTerms.isSome

/-- `get_active_particles_with_claims`. -/
def getActiveParticlesWithClaims (request : QueryRequest) : List Particle :=
  (s.store.particles.rows.filter fun row =>
    row.model.status = .ACTIVE && s.carriesClaim row && s.prefiltered request row).map
    ParticleRow.toModel

/-- `get_particles_with_claims_as_of`: across statuses, with the retirement column alongside. -/
def getParticlesWithClaimsAsOf (asOf : Instant) (request : QueryRequest) :
    List (Particle × Option Instant) :=
  (s.store.particles.rows.filter fun row =>
    s.carriesClaim row && s.prefiltered request row && decide (row.model.assertedAt ≤ asOf)).map
    fun row => (row.toModel, row.retiredAt)

/-- `count_structured_claim_coverage`: the ACTIVE rows, and those that carry a claim. -/
def countStructuredClaimCoverage : ℕ × ℕ :=
  let active := s.store.particles.rows.filter fun row => row.model.status = .ACTIVE
  (active.length, (active.filter s.carriesClaim).length)

/-- `count_active_undated`. -/
def countActiveUndated : ℕ :=
  (s.store.particles.rows.filter fun row =>
    row.model.status = .ACTIVE && (s.columns row.id).validFrom.isNone).length

/-- `get_particle_ids_for_tags`. -/
def getParticleIdsForTags (tags : List String) : List String :=
  (s.store.tagEdges.rows.filter fun edge => edge.tag ∈ tags).map ParticleTagEdgeRow.particleId

end QuerySession

/-! ### The functions of other packages -/

/-- How a dated claim sits in a window. -/
inductive WindowReading where
  | BEGAN
  | IN_FORCE
  | HELD_AT
  | WITHIN
  deriving DecidableEq, Repr

/-- What the window predicate reads of a claim. -/
structure ValidityFacts where
  validFrom : Instant
  validKind : Option ValidKind
  validUntil : Option Instant
  basis : Option String
  granularity : Option String
  closedAt : Option Instant
  deriving DecidableEq, Repr

/-- The outcome of matching a claim against the filters. -/
inductive ClaimMatch where
  | MATCHED
  | UNMATCHED
  | NOT_COMPARABLE
  deriving DecidableEq, Repr

/-- The functions of the core and extraction packages, and of the configuration. -/
structure QueryLibrary (σ : Type*) where
  /-- does a schema stamp parse and share the major of the SDK? -/
  compatible : String → Bool
  /-- does a schema stamp begin with the major of the SDK? -/
  sameMajor : String → Bool
  isExcludedDocumentMeta : List (String × String) → Bool
  isNonAsserted : List (String × String) → Bool
  hasStanceMarker : Particle → Bool
  /-- is any filter set? -/
  hasClaimFilters : ClaimFilters → Bool
  matchClaim : StructuredClaim → ClaimFilters → ClaimMatch
  readWindow : ValidityFacts → TimeWindow → Option WindowReading
  /-- of the expiry, the successor's start and the retirement -/
  resolveClose : Option Instant → Option Instant → Instant → Option (Instant × String)
  /-- the text of a property by the key the core gives it -/
  validFromBasis : List (String × String) → Option String
  validFromGranularity : List (String × String) → Option String
  /-- the bases whose start may close a predecessor -/
  closingBasis : String → Bool
  isoformat : Instant → String
  scopeAlgebra : ScopeAlgebra σ
  harnessTags : List String
  visible : BeliefScope σ → String → Bool
  unattributed : σ → Bool
  lapsed : σ → Bool
  /-- the rounding of a stored float to an embedding's precision -/
  float32 : ℚ → ℚ
  embeddingModelId : String

/-- The scoring kernel of the reads: the policies and extractor weights of a store, and the
effective confidence of a particle under a viewer's. -/
structure QueryScoring (Trust Decay : Type*) where
  loadTrustPolicy : QuerySession → Trust
  loadDecayPolicy : QuerySession → Decay
  getTrustWeightMap : QuerySession → String → Option ℚ
  effectiveConfidence : QuerySession → Trust → Decay → (String → Option ℚ) → Instant → Particle → ℚ

/-- What a read raises: an ACTIVE particle of an incompatible schema, a window gather without a
window, a semantic query without a question. -/
inductive QueryError where
  | SchemaVersionMismatch
  | AssertionError
  | ValueError
  deriving DecidableEq, Repr

section Candidates

variable {σ : Type*} (lib : QueryLibrary σ)

/-- The schema stamps of the ACTIVE rows. -/
def activeStamps (s : QuerySession) : List String :=
  (s.store.particles.rows.filter fun row => row.model.status = .ACTIVE).map fun row =>
    row.model.schemaVersion

/-- `assert_store_schema_current`: the indexed probe, and the count only when it finds a stamp. -/
def assertStoreSchemaCurrent (s : QuerySession) : Except QueryError Unit :=
  if (activeStamps s).all lib.sameMajor then .ok ()
  else if (activeStamps s).any fun stamp => !lib.compatible stamp then
    .error .SchemaVersionMismatch
  else .ok ()

/-- `score_effective_confidence`, of one particle: the policies passed in, or the store's own, and
the weights of the in-process cache unless the call fills it. -/
def scoreEffectiveConfidence {Trust Decay : Type*} (kernel : QueryScoring Trust Decay)
    (s : QuerySession) (trustPolicy : Option Trust) (decayPolicy : Option Decay)
    (cache : String → Option ℚ) (populateCache : Bool) (now : Instant) (p : Particle) : ℚ :=
  kernel.effectiveConfidence s (trustPolicy.getD (kernel.loadTrustPolicy s))
    (decayPolicy.getD (kernel.loadDecayPolicy s))
    (if populateCache then kernel.getTrustWeightMap s else cache) now p

/-! ### Believed at an instant -/

/-- What an as-of read collects: the candidates in view, the notes of those retired since, and how
many claims it could not date. -/
structure AsOfGather (α : Type) where
  admitted : List α := []
  notes : String → Option AsOfNote := fun _ => none
  excludedUndatable : ℕ := 0

section AsOfRows

variable {α : Type} (particle : α → Particle) (view : AsOfView)

/-- One row of an as-of read. -/
def AsOfGather.add (gather : AsOfGather α) (row : α × Option Instant) : AsOfGather α :=
  let evaluation := view.evaluate (particle row.1) row.2
  if evaluation.excludedUndatable then
    { gather with excludedUndatable := gather.excludedUndatable + 1 }
  else if !evaluation.visible then gather
  else
    { gather with
      admitted := gather.admitted ++ [row.1]
      notes := match evaluation.note with
        | some note => Function.update gather.notes (particle row.1).id (some note)
        | none => gather.notes }

/-- The rows of an as-of read. -/
def asOfGather (rows : List (α × Option Instant)) : AsOfGather α :=
  rows.foldl (AsOfGather.add particle view) {}

theorem asOfGather_concat (rows : List (α × Option Instant)) (row : α × Option Instant) :
    asOfGather particle view (rows ++ [row]) = (asOfGather particle view rows).add particle view row := by
  simp [asOfGather]

theorem AsOfGather.excludedUndatable_add (gather : AsOfGather α) (row : α × Option Instant) :
    (gather.add particle view row).excludedUndatable = gather.excludedUndatable +
      if (view.evaluate (particle row.1) row.2).excludedUndatable then 1 else 0 := by
  simp only [AsOfGather.add]
  split_ifs <;> rfl

theorem AsOfGather.admitted_add (gather : AsOfGather α) (row : α × Option Instant) :
    (gather.add particle view row).admitted.Sublist (gather.admitted ++ [row.1]) := by
  simp only [AsOfGather.add]
  split_ifs
  · exact List.sublist_append_left _ _
  · exact List.sublist_append_left _ _
  · exact List.Sublist.refl _

variable {view} in
/-- **An as-of read counts no undatable claim exactly when no row of it is undatable.** -/
theorem asOfGather_undatable_eq_zero {rows : List (α × Option Instant)} :
    (asOfGather particle view rows).excludedUndatable = 0 ↔
      ∀ row ∈ rows, (view.evaluate (particle row.1) row.2).excludedUndatable = false := by
  induction rows using List.reverseRecOn with
  | nil => simp [asOfGather]
  | append_singleton rows row ih =>
      rw [asOfGather_concat, AsOfGather.excludedUndatable_add, List.forall_mem_append,
        List.forall_mem_singleton, ← ih]
      cases (view.evaluate (particle row.1) row.2).excludedUndatable <;> simp

/-- An as-of read keeps its rows in order. -/
theorem asOfGather_admitted (rows : List (α × Option Instant)) :
    (asOfGather particle view rows).admitted.Sublist (rows.map Prod.fst) := by
  induction rows using List.reverseRecOn with
  | nil => exact List.Sublist.refl _
  | append_singleton rows row ih =>
      rw [asOfGather_concat, List.map_append]
      exact (AsOfGather.admitted_add particle view _ row).trans (ih.append_right _)

end AsOfRows

/-! ### True in a window -/

/-- The reading of one hit in the window, and how its interval closed. -/
structure WindowHit where
  reading : WindowReading
  validFrom : Instant
  validKind : Option ValidKind := none
  closedAt : Option Instant := none
  closeBasis : Option String := none
  retired : Option AsOfNote := none
  /-- the retired original the claim stands in for -/
  restates : Option String := none
  deriving DecidableEq

/-- The verdict for one candidate against the window. -/
structure WindowEvaluation where
  hit : Option WindowHit
  undated : Bool := false
  unkinded : Bool := false
  excludedUndatable : Bool := false

/-- One store's window lens. -/
structure WindowView where
  window : TimeWindow
  index : RetirementIndex
  successorValidFrom : String → Option Instant

/-- `load_window_view`: the retirement index, and the successors' starts under a closing basis. -/
def loadWindowView (s : QuerySession) (window : TimeWindow) : WindowView where
  window := window
  index := loadRetirementIndex s.store s.retirementEvents
  successorValidFrom := fun pid => do
    let row ← s.store.get? pid
    let start ← (s.columns pid).validFrom
    let basis ← lib.validFromBasis row.model.properties
    if lib.closingBasis basis then some start else none

/-- How a retired claim's interval closed: the note of its retirement, and its end when it is a
state; `none` where the instant cannot be resolved. -/
def WindowView.closeOf (view : WindowView) (p : Particle) (validKind : Option ValidKind)
    (storedRetiredAt : Option Instant) : Option (AsOfNote × Option (Instant × String)) := do
  let resolution ← view.index.resolve p.id p.statusReason p.validUntil storedRetiredAt
  let successor := view.index.successorByPredecessor p.id
  let retired : AsOfNote :=
    ⟨p.status, p.statusReason, resolution.retiredAt, resolution.basis, successor⟩
  if validKind = some .STATE then
    let close ← lib.resolveClose p.validUntil
      (successor.bind fun next => view.successorValidFrom next.id) resolution.retiredAt
    some (retired, some close)
  else some (retired, none)

/-- **`WindowView.evaluate`.** -/
def WindowView.evaluate (view : WindowView) (columns : ClaimColumns) (p : Particle)
    (storedRetiredAt : Option Instant) : WindowEvaluation :=
  match columns.validFrom with
  | none => { hit := none, undated := true }
  | some start =>
      if isNeverBelieved p.status p.statusReason (p.id ∈ view.index.neverBelieved) then
        { hit := none }
      else
        let unkinded := columns.validKind.isNone
        let verdict (retired : Option AsOfNote) (close : Option (Instant × String)) :
            WindowEvaluation :=
          let facts : ValidityFacts :=
            { validFrom := start
              validKind := columns.validKind
              validUntil := p.validUntil
              basis := lib.validFromBasis p.properties
              granularity := lib.validFromGranularity p.properties
              closedAt := close.map Prod.fst }
          { hit := (lib.readWindow facts view.window).map fun reading =>
              { reading := reading
                validFrom := start
                validKind := columns.validKind
                closedAt := close.map Prod.fst
                closeBasis := close.map Prod.snd
                retired := retired }
            unkinded := unkinded }
        if p.status = .ACTIVE then verdict none none
        else
          match view.closeOf lib p columns.validKind storedRetiredAt with
          | none => { hit := none, excludedUndatable := true }
          | some (retired, close) => verdict (some retired) close

/-- What a window read collects beside its candidates. -/
structure WindowGather where
  hits : List (String × WindowHit) := []
  candidates : ℕ := 0
  admitted : ℕ := 0
  unkinded : ℕ := 0
  excludedUndatable : ℕ := 0
  retiredAdmitted : ℤ := 0
  restated : ℕ := 0

/-- The counts a window read discloses. -/
structure WindowCoverage where
  candidates : ℕ
  admitted : ℕ
  undated : ℕ
  unkinded : ℕ
  retiredAdmitted : ℤ
  restated : ℕ
  deriving DecidableEq, Repr

/-- `WindowGather.coverage`. -/
def WindowGather.coverage (gather : WindowGather) (s : QuerySession) : WindowCoverage where
  candidates := gather.candidates
  admitted := gather.admitted
  undated := s.countActiveUndated
  unkinded := gather.unkinded
  retiredAdmitted := gather.retiredAdmitted
  restated := gather.restated

/-- One hit of the stand-in pass: the successor of a retired original that is itself a hit carries
the restatement, and the original is dropped. -/
def standIn (gather : WindowGather) (index : RetirementIndex)
    (state : List (String × WindowHit) × List String) (item : String × WindowHit) :
    List (String × WindowHit) × List String :=
  match item.2.retired, index.successorByPredecessor item.1 with
  | some _, some successor =>
      if successor.id ∈ gather.hits.map Prod.fst then
        (state.1.map fun held =>
          if held.1 = successor.id then (held.1, { held.2 with restates := some item.1 })
          else held, state.2 ++ [item.1])
      else state
  | _, _ => state

/-- `apply_stand_in`: a restatement in the window stands in for the retired original it supersedes.
Returns the gather and the dropped ids. -/
def applyStandIn (gather : WindowGather) (index : RetirementIndex) :
    WindowGather × List String :=
  let (hits, dropped) := gather.hits.foldl (standIn gather index) (gather.hits, [])
  ({ gather with
      hits := hits.filter fun item => item.1 ∉ dropped
      restated := gather.restated + dropped.length
      retiredAdmitted := gather.retiredAdmitted - dropped.length }, dropped)

/-- Standing in drops hits and renames none. -/
theorem nodup_hits_applyStandIn (gather : WindowGather) (index : RetirementIndex)
    (h : (gather.hits.map Prod.fst).Nodup) :
    ((applyStandIn gather index).1.hits.map Prod.fst).Nodup := by
  have hkeys : ∀ (items : List (String × WindowHit)) (hits : List (String × WindowHit))
      (dropped : List String),
      (items.foldl (standIn gather index) (hits, dropped)).1.map Prod.fst = hits.map Prod.fst := by
    intro items
    induction items with
    | nil => exact fun _ _ => rfl
    | cons item items ih =>
        intro hits dropped
        rw [List.foldl_cons]
        refine (ih _ _).trans ?_
        split
        · split_ifs
          · rw [List.map_map]
            refine List.map_congr_left fun held _ => ?_
            simp only [Function.comp_apply]
            split_ifs <;> rfl
          · rfl
        · rfl
  have hsub : ((applyStandIn gather index).1.hits.map Prod.fst).Sublist
      ((gather.hits.foldl (standIn gather index) (gather.hits, [])).1.map Prod.fst) :=
    List.filter_sublist.map _
  rw [hkeys] at hsub
  exact h.sublist hsub

/-- A row of the window's scope: the particle, its embedding when one is asked for, and the
retirement column. -/
abbrev WindowRow := Particle × Option Embedding × Option Instant

/-- `get_particles_in_window_scope`: every dated row across statuses. -/
def getParticlesInWindowScope (s : QuerySession) (request : QueryRequest)
    (requireEmbedding requireClaim : Bool) : List WindowRow :=
  (s.store.particles.rows.filter fun row =>
    (s.columns row.id).validFrom.isSome && (!requireClaim || s.carriesClaim row) &&
      s.prefiltered request row).filterMap fun row =>
    if requireEmbedding then
      (candidateOf lib.float32 lib.embeddingModelId row).map fun candidate =>
        (candidate.1, some candidate.2, row.retiredAt)
    else some (row.toModel, none, row.retiredAt)

/-- The state of the gather's loop. -/
structure WindowLoop where
  gather : WindowGather := {}
  admitted : List WindowRow := []
  notes : String → Option AsOfNote := fun _ => none
  asOfExcluded : ℕ := 0

/-- The window's verdict for a row that the as-of lens lets through. -/
def WindowLoop.addVerdict (s : QuerySession) (view : WindowView) (loop : WindowLoop)
    (row : WindowRow) : WindowLoop :=
  let verdict := view.evaluate lib (s.columns row.1.id) row.1 row.2.2
  let gather := { loop.gather with
    excludedUndatable := loop.gather.excludedUndatable + verdict.excludedUndatable.toNat
    unkinded := loop.gather.unkinded + verdict.unkinded.toNat }
  match verdict.hit with
  | none => { loop with gather := gather }
  | some hit =>
      { loop with
        gather := { gather with
          hits := upsert (fun _ => hit) row.1.id gather.hits
          admitted := gather.admitted + 1
          retiredAdmitted := gather.retiredAdmitted + hit.retired.isSome.toNat }
        admitted := loop.admitted ++ [row] }

/-- One row of the gather: the as-of lens first, then the window. -/
def WindowLoop.add (s : QuerySession) (view : WindowView) (asOfView : Option AsOfView)
    (loop : WindowLoop) (row : WindowRow) : WindowLoop :=
  match asOfView with
  | none => loop.addVerdict lib s view row
  | some lens =>
      let evaluation := lens.evaluate row.1 row.2.2
      if evaluation.excludedUndatable then { loop with asOfExcluded := loop.asOfExcluded + 1 }
      else if !evaluation.visible then loop
      else
        WindowLoop.addVerdict lib s view
          { loop with
            notes := match evaluation.note with
              | some note => Function.update loop.notes row.1.id (some note)
              | none => loop.notes } row

/-- **`gather_window_candidates`**, from an empty gather. -/
def gatherWindowCandidates (s : QuerySession) (request : QueryRequest) (window : TimeWindow)
    (loaded : List WindowRow) : WindowLoop :=
  let view := loadWindowView lib s window
  let loop := loaded.foldl (WindowLoop.add lib s view (request.asOf.map s.asOfView))
    { gather := { candidates := loaded.length } }
  let (gather, dropped) := applyStandIn loop.gather view.index
  { loop with
    gather := gather
    admitted := loop.admitted.filter fun row => row.1.id ∉ dropped }

@[simp] theorem WindowLoop.asOfExcluded_addVerdict (s : QuerySession) (view : WindowView)
    (loop : WindowLoop) (row : WindowRow) :
    (loop.addVerdict lib s view row).asOfExcluded = loop.asOfExcluded := by
  unfold WindowLoop.addVerdict
  dsimp only
  split <;> rfl

theorem WindowLoop.asOfExcluded_add (s : QuerySession) (view : WindowView)
    (asOfView : Option AsOfView) (loop : WindowLoop) (row : WindowRow) :
    (loop.add lib s view asOfView row).asOfExcluded = loop.asOfExcluded +
      if asOfView.any fun lens => (lens.evaluate row.1 row.2.2).excludedUndatable then 1 else 0 := by
  cases asOfView with
  | none => simp [WindowLoop.add]
  | some lens =>
      simp only [WindowLoop.add, Option.any_some]
      split_ifs <;> simp

/-- **A window read counts no undatable claim exactly when the as-of lens dates every row it
loads.** -/
theorem gatherWindowCandidates_undatable_eq_zero (s : QuerySession) (request : QueryRequest)
    (window : TimeWindow) (loaded : List WindowRow) :
    (gatherWindowCandidates lib s request window loaded).asOfExcluded = 0 ↔
      ∀ row ∈ loaded, ∀ asOf, request.asOf = some asOf →
        ((s.asOfView asOf).evaluate row.1 row.2.2).excludedUndatable = false := by
  -- the loop from any state: the count starts where it was
  have hloop : ∀ (rows : List WindowRow) (loop : WindowLoop),
      (rows.foldl (WindowLoop.add lib s (loadWindowView lib s window)
        (request.asOf.map s.asOfView)) loop).asOfExcluded = 0 ↔
      loop.asOfExcluded = 0 ∧ ∀ row ∈ rows, ∀ asOf, request.asOf = some asOf →
        ((s.asOfView asOf).evaluate row.1 row.2.2).excludedUndatable = false := by
    intro rows
    induction rows with
    | nil => simp
    | cons row rows ih =>
        intro loop
        rw [List.foldl_cons, ih, WindowLoop.asOfExcluded_add, List.forall_mem_cons]
        cases request.asOf with
        | none => simp
        | some asOf =>
            cases hrow : ((s.asOfView asOf).evaluate row.1 row.2.2).excludedUndatable <;>
              simp [hrow]
  have := hloop loaded { gather := { candidates := loaded.length } }
  simpa [gatherWindowCandidates] using this

/-- One row of the gather adds a hit and is admitted, or neither. -/
theorem WindowLoop.add_cases (s : QuerySession) (view : WindowView) (asOfView : Option AsOfView)
    (loop : WindowLoop) (row : WindowRow) :
    ((loop.add lib s view asOfView row).gather.hits = loop.gather.hits ∧
      (loop.add lib s view asOfView row).admitted = loop.admitted) ∨
    ∃ hit, (loop.add lib s view asOfView row).gather.hits =
        upsert (fun _ => hit) row.1.id loop.gather.hits ∧
      (loop.add lib s view asOfView row).admitted = loop.admitted ++ [row] := by
  have hverdict : ∀ loop : WindowLoop,
      ((loop.addVerdict lib s view row).gather.hits = loop.gather.hits ∧
        (loop.addVerdict lib s view row).admitted = loop.admitted) ∨
      ∃ hit, (loop.addVerdict lib s view row).gather.hits =
          upsert (fun _ => hit) row.1.id loop.gather.hits ∧
        (loop.addVerdict lib s view row).admitted = loop.admitted ++ [row] := by
    intro loop
    unfold WindowLoop.addVerdict
    dsimp only
    split
    · exact Or.inl ⟨rfl, rfl⟩
    · next hit _ => exact Or.inr ⟨hit, rfl, rfl⟩
  cases asOfView with
  | none => exact hverdict loop
  | some lens =>
      simp only [WindowLoop.add]
      split_ifs
      · exact Or.inl ⟨rfl, rfl⟩
      · exact Or.inl ⟨rfl, rfl⟩
      · exact hverdict _

/-- A window read keeps its rows in order. -/
theorem gatherWindowCandidates_admitted (s : QuerySession) (request : QueryRequest)
    (window : TimeWindow) (loaded : List WindowRow) :
    (gatherWindowCandidates lib s request window loaded).admitted.Sublist loaded := by
  have hstep : ∀ (view : WindowView) (lens : Option AsOfView) (loop : WindowLoop) (row : WindowRow),
      (loop.add lib s view lens row).admitted.Sublist (loop.admitted ++ [row]) := by
    intro view lens loop row
    rcases loop.add_cases lib s view lens row with ⟨-, hadmitted⟩ | ⟨hit, -, hadmitted⟩
    · rw [hadmitted]
      exact List.sublist_append_left _ _
    · rw [hadmitted]
  have hloop : ∀ (rows : List WindowRow) (loop : WindowLoop),
      (rows.foldl (WindowLoop.add lib s (loadWindowView lib s window)
        (request.asOf.map s.asOfView)) loop).admitted.Sublist (loop.admitted ++ rows) := by
    intro rows
    induction rows with
    | nil => simp
    | cons row rows ih =>
        intro loop
        have hrest := (ih (loop.add lib s (loadWindowView lib s window)
          (request.asOf.map s.asOfView) row)).trans ((hstep _ _ loop row).append_right rows)
        simpa using hrest
  exact List.filter_sublist.trans (hloop loaded _)

/-- **A window read holds one hit for a particle.** -/
theorem nodup_hits_gatherWindowCandidates (s : QuerySession) (request : QueryRequest)
    (window : TimeWindow) (loaded : List WindowRow) :
    ((gatherWindowCandidates lib s request window loaded).gather.hits.map Prod.fst).Nodup := by
  have hstep : ∀ (view : WindowView) (lens : Option AsOfView) (loop : WindowLoop) (row : WindowRow),
      (loop.gather.hits.map Prod.fst).Nodup →
        ((loop.add lib s view lens row).gather.hits.map Prod.fst).Nodup := by
    intro view lens loop row hloop
    rcases loop.add_cases lib s view lens row with ⟨hhits, -⟩ | ⟨hit, hhits, -⟩
    · rw [hhits]
      exact hloop
    · rw [hhits]
      exact nodup_keys_upsert _ _ hloop
  have hloop : ∀ (rows : List WindowRow) (loop : WindowLoop),
      (loop.gather.hits.map Prod.fst).Nodup →
        ((rows.foldl (WindowLoop.add lib s (loadWindowView lib s window)
          (request.asOf.map s.asOfView)) loop).gather.hits.map Prod.fst).Nodup := by
    intro rows
    induction rows with
    | nil => exact fun _ h => h
    | cons row rows ih => exact fun loop h => ih _ (hstep _ _ loop row h)
  exact nodup_hits_applyStandIn _ _ (hloop loaded _ List.nodup_nil)

/-! ### The filters of a request -/

/-- The outcome of reading a set of beliefs through the project observer. -/
structure ScopeFilter where
  visibleIds : List String
  engaged : Bool
  total : ℕ
  unattributed : ℕ
  lapsed : ℕ := 0
  asOf : Option Instant := none

/-- The disclosure an observer's read carries. -/
structure ObserverScopeNote where
  project : String
  engaged : Bool
  total : ℕ
  inScope : ℕ
  unattributed : ℕ
  lapsed : ℕ := 0
  attribution : Option String := none
  deriving DecidableEq, Repr

/-- `as_of_attribution`. -/
def asOfAttribution (asOf : Option Instant) : Option String :=
  asOf.map fun instant =>
    "Projects are today's attribution, applied to what the store believed at " ++
      lib.isoformat instant ++ "; they are not what a session in that project saw then."

/-- `ScopeFilter.note`. -/
def ScopeFilter.note (scope : ScopeFilter) (observerProject : String) : ObserverScopeNote where
  project := observerProject
  engaged := scope.engaged
  total := scope.total
  inScope := scope.visibleIds.length
  unattributed := scope.unattributed
  lapsed := scope.lapsed
  attribution := if scope.engaged then asOfAttribution lib scope.asOf else none

/-- `merged_scope_note`: one disclosure for a read that spanned several stores. -/
def mergedScopeNote : List ObserverScopeNote → Option ObserverScopeNote
  | [] => none
  | note :: notes => some
      { project := note.project
        engaged := (note :: notes).all ObserverScopeNote.engaged
        total := ((note :: notes).map ObserverScopeNote.total).sum
        inScope := ((note :: notes).map ObserverScopeNote.inScope).sum
        unattributed := ((note :: notes).map ObserverScopeNote.unattributed).sum
        lapsed := ((note :: notes).map ObserverScopeNote.lapsed).sum
        attribution := (note :: notes).findSome? fun other =>
          other.attribution.filter (· ≠ "") }

/-- `lens_may_engage`: the store has been rescoped. -/
def lensMayEngage (s : QuerySession) : Bool :=
  s.operatorEvents.any fun event => event.eventType = "OBSERVER_SCOPE_RESCOPED"

variable [SemilatticeInf σ] [OrderBot σ]

/-- **`filter_visible`**, for an observer project. -/
def filterVisible (s : QuerySession) (particles : List Particle) (observerProject : String)
    (asOf : Option Instant) : ScopeFilter :=
  let ids := (particles.map Particle.id).dedup
  if !lensMayEngage s then
    { visibleIds := ids, engaged := false, total := ids.length, unattributed := 0 }
  else
    let scopes := loadScopes lib.scopeAlgebra lib.harnessTags s.store asOf true particles
    let counted (test : BeliefScope σ → Bool) : List String :=
      ids.filter fun id => (scopes id).any test
    { visibleIds := counted fun scope => lib.visible scope observerProject
      engaged := true
      total := ids.length
      unattributed := (counted fun scope => lib.unattributed scope.scope).length
      lapsed := (counted fun scope => lib.lapsed scope.scope && !scope.widened).length
      asOf := asOf }

/-- The default exclusions, and the nature, modality and tag filters. -/
def defaultFilters (s : QuerySession) (request : QueryRequest) (p : Particle) : Bool :=
  (request.includeDocumentMeta || !lib.isExcludedDocumentMeta p.properties) &&
  (request.includeNonAsserted || !lib.isNonAsserted p.properties) &&
  !lib.hasStanceMarker p &&
  (match request.uncertaintyNature with
    | none => true
    | some nature => (s.columns p.id).uncertaintyNature = some nature) &&
  (match request.assertionModality with
    | none => true
    | some modality => p.assertionModality = modality) &&
  (request.tags.isEmpty ||
    p.id ∈ s.getParticleIdsForTags (s.expandTags request.tags request.includeAncestors))

/-- A day, in microseconds. -/
def DAY : Instant := 86400000000

/-- The recency window, which cuts relative to the reference instant; zero days cut nothing. -/
def recencyFilter (request : QueryRequest) (now : Instant) (p : Particle) : Bool :=
  match request.recencyWindowDays with
  | none => true
  | some days => days = 0 || decide (request.asOf.getD now - days * DAY ≤ p.assertedAt)

/-- The project observer over the candidates every other filter leaves, and its disclosure. -/
def observerFilter {α : Type} (particle : α → Particle) (s : QuerySession) (request : QueryRequest)
    (candidates : List α) : List α × List ObserverScopeNote :=
  match request.observerProject with
  | none => (candidates, [])
  | some project =>
      let scope := filterVisible lib s (candidates.map particle) project request.asOf
      (candidates.filter fun candidate => (particle candidate).id ∈ scope.visibleIds,
        [scope.note lib project])

theorem observerFilter_sublist {α : Type} (particle : α → Particle) (s : QuerySession)
    (request : QueryRequest) (candidates : List α) :
    (observerFilter lib particle s request candidates).1.Sublist candidates := by
  unfold observerFilter
  split
  · exact List.Sublist.refl _
  · exact List.filter_sublist

end Candidates

end ParticlesEngine
