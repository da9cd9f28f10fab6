/-
**The window listing.**

A request with a window and nothing else to ask is answered by the claims that sit in the window, in
the order they began.  Over several stores the listings are merged under one viewer's policies.

Main definitions:

* `listingStore`, `listingResponse` — one store's rows, and the response from merged rows;
* `windowListing`, `windowListingFederated` — the two entry points.

Main results:

* `windowListingFederated_singleton` — **federating over one store answers what that store
  answers**.
-/

import ParticlesEngine.StructuralQuery

set_option relaxedAutoImplicit false
set_option autoImplicit false

open MergedDict SortBy

namespace ParticlesEngine

section Listing

variable {σ Trust Decay : Type*} {ρ : Type} [SemilatticeInf σ] [OrderBot σ]
variable (lib : QueryLibrary σ) (kernel : QueryScoring Trust Decay)

/-- One store's rows of a listing, and what its gather found beside them. -/
structure ListingGather where
  rows : List (Particle × ℚ) := []
  hits : List (String × WindowHit) := []
  coverage : Option WindowCoverage := none
  notes : String → Option AsOfNote := fun _ => none
  asOfExcluded : ℕ := 0
  scopeNotes : List ObserverScopeNote := []

/-- `_listing_store`; the recency window is not a filter of a listing. -/
def listingStore (s : QuerySession) (request : QueryRequest) (window : TimeWindow)
    (trustPolicy : Option Trust) (decayPolicy : Option Decay) (cache : String → Option ℚ)
    (populateCache : Bool) (now : Instant) : ListingGather :=
  let loop := gatherWindowCandidates lib s request window
    (getParticlesInWindowScope lib s request false false)
  let (particles, scopeNotes) := observerFilter lib id s request
    ((loop.admitted.map Prod.fst).filter (defaultFilters lib s request))
  let rows := particles.map fun p =>
    (p, scoreEffectiveConfidence kernel s trustPolicy decayPolicy cache populateCache
      (request.asOf.getD now) p)
  { rows := rows.filter fun row => request.minConfidence ≤ row.2
    hits := loop.gather.hits
    coverage := some (loop.gather.coverage s)
    notes := loop.notes
    asOfExcluded := loop.asOfExcluded
    scopeNotes := scopeNotes }

/-- The rank of a reading among those of one instant: a day's events before its standing context. -/
def WindowReading.order : WindowReading → ℕ
  | .BEGAN => 0
  | .IN_FORCE => 1
  | .HELD_AT => 2
  | .WITHIN => 3

/-- `_hit_sort_key`; every listed row has a hit. -/
def hitSortKey (hit : Option WindowHit) : Instant ×ₗ ℕ :=
  match hit with
  | some hit => toLex (hit.validFrom, hit.reading.order)
  | none => toLex (0, 9)

/-- `_listing_response`. -/
def listingResponse (request : QueryRequest) (listing : ListingGather) : QueryResponse ρ :=
  let hitOf (row : Particle × ℚ) : Option WindowHit := get listing.hits row.1.id
  let ordered := sortBy (fun row => hitSortKey (hitOf row)) listing.rows
  let top := ordered.take request.topK
  let began := ordered.countP fun row => (hitOf row).map WindowHit.reading = some .BEGAN
  { answer := toString ordered.length ++ " claims sit in the window: " ++ toString began ++
      " began in it, " ++ toString (ordered.length - began) ++ " were in force." ++
      if top.length < ordered.length then
        " Showing the first " ++ toString top.length ++ " by valid_from."
      else ""
    particles := top.map Prod.fst
    effectiveConfidences := top.map Prod.snd
    window := request.window
    windowHits := top.map hitOf
    windowCoverage := listing.coverage
    asOf := request.asOf
    asOfNotes := if request.asOf.isSome then top.map fun row => listing.notes row.1.id else []
    asOfExcludedUndatable := listing.asOfExcluded
    observerScope := mergedScopeNote listing.scopeNotes }

/-- The window of a listing request; the gather asserts that there is one. -/
def requestWindow (request : QueryRequest) : Except QueryError TimeWindow :=
  match request.window with
  | some window => .ok window
  | none => .error .AssertionError

/-- **`window_listing`**: the listing of one store. -/
def windowListing (s : QuerySession) (request : QueryRequest) (cache : String → Option ℚ)
    (now : Instant) : Except QueryError (QueryResponse ρ) := do
  assertStoreSchemaCurrent lib s
  let window ← requestWindow request
  return listingResponse request (listingStore lib kernel s request window none none cache true now)

/-- `WindowGather.merge`: the coverage of two stores is summed. -/
def WindowCoverage.merge (other : Option WindowCoverage) (mine : WindowCoverage) :
    WindowCoverage :=
  match other with
  | none => mine
  | some other =>
      { candidates := other.candidates + mine.candidates
        admitted := other.admitted + mine.admitted
        undated := other.undated + mine.undated
        unkinded := other.unkinded + mine.unkinded
        retiredAdmitted := other.retiredAdmitted + mine.retiredAdmitted
        restated := other.restated + mine.restated }

/-- A dict updated with another. -/
def updateDict {α : Type} (items other : List (String × α)) : List (String × α) :=
  combineInto (fun _ new => new) items other

/-- One store's share of a federated listing. -/
def ListingGather.extend (merged listing : ListingGather) : ListingGather where
  rows := merged.rows ++ listing.rows
  hits := updateDict merged.hits listing.hits
  coverage := (listing.coverage.map (WindowCoverage.merge merged.coverage)).or merged.coverage
  notes := fun id => (listing.notes id).or (merged.notes id)
  asOfExcluded := merged.asOfExcluded + listing.asOfExcluded
  scopeNotes := merged.scopeNotes ++ listing.scopeNotes

/-- **`window_listing_federated`**: the listing across several stores. -/
def windowListingFederated (defaultStore : QuerySession) (stores : List QuerySession)
    (request : QueryRequest) (viewerStore : Option QuerySession) (now : Instant) :
    Except QueryError (QueryResponse ρ) := do
  let stores := if stores.isEmpty then [defaultStore] else stores
  let viewer := viewerStore.getD (stores.headD defaultStore)
  assertStoreSchemaCurrent lib viewer
  let merged ← stores.foldlM (fun merged s => do
    assertStoreSchemaCurrent lib s
    let window ← requestWindow request
    return ListingGather.extend merged (listingStore lib kernel s request window
      (some (kernel.loadTrustPolicy viewer)) (some (kernel.loadDecayPolicy viewer))
      (kernel.getTrustWeightMap viewer) false now)) {}
  return listingResponse request merged

/-! ### One store -/

/-- A dict with keys of its own is what updating the empty dict with it gives. -/
theorem updateDict_nil {α : Type} {items : List (String × α)}
    (hkeys : (items.map Prod.fst).Nodup) : updateDict [] items = items :=
  combine_of_nodup _ hkeys

theorem nodup_hits_listingStore (s : QuerySession) (request : QueryRequest) (window : TimeWindow)
    (trustPolicy : Option Trust) (decayPolicy : Option Decay) (cache : String → Option ℚ)
    (populateCache : Bool) (now : Instant) :
    ((listingStore lib kernel s request window trustPolicy decayPolicy cache populateCache
      now).hits.map Prod.fst).Nodup :=
  nodup_hits_gatherWindowCandidates lib s request window _

/-- The merge of one listing is that listing. -/
theorem extend_listing {listing : ListingGather} (hhits : (listing.hits.map Prod.fst).Nodup)
    (hcoverage : listing.coverage.isSome) : ListingGather.extend {} listing = listing := by
  obtain ⟨coverage, hcoverage⟩ := Option.isSome_iff_exists.1 hcoverage
  have hmerge : WindowCoverage.merge none coverage = coverage := rfl
  cases listing with
  | mk rows hits coverage' notes asOfExcluded scopeNotes =>
      obtain rfl : coverage' = some coverage := hcoverage
      simp [ListingGather.extend, updateDict_nil hhits, hmerge]

/-- **A listing federated over one store is that store's listing.** -/
theorem windowListingFederated_singleton (defaultStore s : QuerySession) (request : QueryRequest)
    (cache : String → Option ℚ) (now : Instant) :
    windowListingFederated (ρ := ρ) lib kernel defaultStore [s] request none now =
      windowListing lib kernel s request cache now := by
  simp only [windowListingFederated, windowListing, List.isEmpty_cons, Bool.false_eq_true, if_false,
    List.headD_cons, Option.getD_none, List.foldlM_cons, List.foldlM_nil, bind, Except.bind, pure,
    Except.pure]
  cases assertStoreSchemaCurrent lib s with
  | error e => rfl
  | ok _ =>
      cases requestWindow request with
      | error e => rfl
      | ok window =>
          have hone := extend_listing (nodup_hits_listingStore lib kernel s request window none none
            cache true now) rfl
          exact congrArg (fun listing => Except.ok (listingResponse request listing)) hone

end Listing

end ParticlesEngine
