/-
**Whether a restatement is shown for what it stands in for.**

A window read admits retired claims.  When the successor of one is admitted too, the retired claim is
dropped and the successor's hit names it.  The pass runs over the admitted claims, before the default
filters, the observer and the confidence floor; a listing that filters the successor out then shows
neither.  Successors may themselves be dropped, so what stands in for a claim is the end of a chain;
where the chain runs in a cycle, nothing does.

Main definitions:

* `windowHit`, `admittedHits` — what the lenses of a request admit;
* `successorInWindow`, `StandsIn` — the admitted successor of a retired hit;
* `droppedByStandIn` — the claims that `apply_stand_in` drops;
* `RestatementsShown` — every dropped claim's chain ends in a listed claim that names a restatement;
* `RestatementsPass` — no cycle, and the filters keep every end of a chain.

Main results:

* `windowLoop_spec` — the loop of the gather collects the admitted hits;
* `mem_dropped_iff`, `exists_restates` — **what the pass drops, and what it leaves on a successor**;
* `restatementsShown_iff` — **the listing shows a restatement for every claim dropped exactly when the
  filters keep every end**;
* `moved_flight_hidden` — a modality filter that hides a statement with its restatement.
-/

import ParticlesEngine.ChainEnds
import ParticlesEngine.QueryRanking

set_option relaxedAutoImplicit false
set_option autoImplicit false

open ChainEnds MergedDict Relation

namespace ParticlesEngine

/-! ### The loop of the gather -/

section Gathering

variable {σ : Type*} (lib : QueryLibrary σ) (s : QuerySession) (request : QueryRequest)
variable (window : TimeWindow)

/-- The loop of `gather_window_candidates`, before the stand-in pass. -/
def windowLoop (loaded : List WindowRow) : WindowLoop :=
  loaded.foldl (WindowLoop.add lib s (loadWindowView lib s window) (request.asOf.map s.asOfView))
    { gather := { candidates := loaded.length } }

theorem gatherWindowCandidates_eq (loaded : List WindowRow) :
    gatherWindowCandidates lib s request window loaded =
      let loop := windowLoop lib s request window loaded
      let (gather, dropped) := applyStandIn loop.gather (loadWindowView lib s window).index
      { loop with
        gather := gather
        admitted := loop.admitted.filter fun row => row.1.id ∉ dropped } := rfl

/-- Whether the as-of lens shows a row. -/
def asOfShows (row : WindowRow) : Bool :=
  (request.asOf.map s.asOfView).all fun lens =>
    !(lens.evaluate row.1 row.2.2).excludedUndatable && (lens.evaluate row.1 row.2.2).visible

/-- The hit of a row, when both lenses admit it. -/
def windowHit (row : WindowRow) : Option WindowHit :=
  if asOfShows s request row then
    ((loadWindowView lib s window).evaluate lib (s.columns row.1.id) row.1 row.2.2).hit
  else none

/-- The hits of the rows that the lenses admit. -/
def admittedHits (loaded : List WindowRow) : List (String × WindowHit) :=
  loaded.filterMap fun row => (windowHit lib s request window row).map fun hit => (row.1.id, hit)

variable {lib s request window}

/-- A verdict adds the row's hit, when there is one, and admits the row. -/
theorem WindowLoop.addVerdict_eq (loop : WindowLoop) (row : WindowRow) {hit : Option WindowHit}
    (hhit : ((loadWindowView lib s window).evaluate lib (s.columns row.1.id) row.1 row.2.2).hit =
      hit) :
    (loop.addVerdict lib s (loadWindowView lib s window) row).gather.hits =
        hit.elim loop.gather.hits (fun hit => upsert (fun _ => hit) row.1.id loop.gather.hits) ∧
      (loop.addVerdict lib s (loadWindowView lib s window) row).admitted =
        loop.admitted ++ hit.elim [] (fun _ => [row]) := by
  unfold WindowLoop.addVerdict
  subst hhit
  dsimp only
  split <;> simp_all

theorem asOfShows_of_asOf {asOf : Instant} (hasOf : request.asOf = some asOf) (row : WindowRow) :
    asOfShows s request row =
      (!((s.asOfView asOf).evaluate row.1 row.2.2).excludedUndatable &&
        ((s.asOfView asOf).evaluate row.1 row.2.2).visible) := by
  rw [asOfShows, hasOf, Option.map_some, Option.all_some]

/-- One row of the gather adds its hit, when both lenses admit it. -/
theorem WindowLoop.add_eq (loop : WindowLoop) (row : WindowRow) :
    (loop.add lib s (loadWindowView lib s window) (request.asOf.map s.asOfView) row).gather.hits =
        (windowHit lib s request window row).elim loop.gather.hits
          (fun hit => upsert (fun _ => hit) row.1.id loop.gather.hits) ∧
      (loop.add lib s (loadWindowView lib s window) (request.asOf.map s.asOfView) row).admitted =
        loop.admitted ++ (windowHit lib s request window row).elim [] (fun _ => [row]) := by
  cases hasOf : request.asOf with
  | none =>
      have hshows : asOfShows s request row = true := by simp [asOfShows, hasOf]
      exact WindowLoop.addVerdict_eq loop row (by rw [windowHit, if_pos hshows])
  | some asOf =>
      rw [Option.map_some]
      have hasOfShows := asOfShows_of_asOf (s := s) hasOf row
      by_cases hundatable : ((s.asOfView asOf).evaluate row.1 row.2.2).excludedUndatable = true
      · have hshows : asOfShows s request row = false := by simp [hasOfShows, hundatable]
        simp [WindowLoop.add, windowHit, hshows, hundatable]
      · by_cases hvisible : ((s.asOfView asOf).evaluate row.1 row.2.2).visible = true
        · have hshows : asOfShows s request row = true := by
            simp [hasOfShows, hundatable, hvisible]
          have hadd : ∃ notes, loop.add lib s (loadWindowView lib s window)
              (some (s.asOfView asOf)) row = WindowLoop.addVerdict lib s
                (loadWindowView lib s window) { loop with notes := notes } row := by
            cases hnote : ((s.asOfView asOf).evaluate row.1 row.2.2).note with
            | none =>
                exact ⟨loop.notes, by simp [WindowLoop.add, hundatable, hvisible, hnote]⟩
            | some note =>
                exact ⟨Function.update loop.notes row.1.id (some note), by
                  simp [WindowLoop.add, hundatable, hvisible, hnote]⟩
          obtain ⟨notes, hadd⟩ := hadd
          rw [hadd]
          exact WindowLoop.addVerdict_eq _ row (by rw [windowHit, if_pos hshows])
        · have hshows : asOfShows s request row = false := by
            simp [hasOfShows, hvisible]
          simp [WindowLoop.add, windowHit, hshows, hundatable, hvisible]

theorem admittedHits_keys_subset (loaded : List WindowRow) :
    ((admittedHits lib s request window loaded).map Prod.fst).Sublist
      (loaded.map fun row => row.1.id) := by
  refine FirstByKey.sublist_map_filterMap (fun row item hitem => ?_) loaded
  obtain ⟨hit, -, rfl⟩ := Option.map_eq_some_iff.1 hitem
  rfl

/-- **The loop of the gather collects the admitted hits, and the rows they are of.** -/
theorem windowLoop_spec {loaded : List WindowRow}
    (hdistinct : (loaded.map fun row => row.1.id).Nodup) :
    (windowLoop lib s request window loaded).gather.hits =
        admittedHits lib s request window loaded ∧
      (windowLoop lib s request window loaded).admitted =
        loaded.filter fun row => (windowHit lib s request window row).isSome := by
  have hloop : ∀ (rows : List WindowRow) (loop : WindowLoop),
      (loop.gather.hits.map Prod.fst ++ rows.map fun row => row.1.id).Nodup →
        (rows.foldl (WindowLoop.add lib s (loadWindowView lib s window)
            (request.asOf.map s.asOfView)) loop).gather.hits =
          loop.gather.hits ++ admittedHits lib s request window rows ∧
        (rows.foldl (WindowLoop.add lib s (loadWindowView lib s window)
            (request.asOf.map s.asOfView)) loop).admitted =
          loop.admitted ++ rows.filter fun row => (windowHit lib s request window row).isSome := by
    intro rows
    induction rows with
    | nil => simp [admittedHits]
    | cons row rows ih =>
        intro loop hnodup
        rw [List.foldl_cons]
        set after := loop.add lib s (loadWindowView lib s window) (request.asOf.map s.asOfView) row
        have hadd : after.gather.hits = (windowHit lib s request window row).elim loop.gather.hits
              (fun hit => upsert (fun _ => hit) row.1.id loop.gather.hits) ∧
            after.admitted =
              loop.admitted ++ (windowHit lib s request window row).elim [] (fun _ => [row]) :=
          loop.add_eq row
        rw [List.map_cons] at hnodup
        have hnew : row.1.id ∉ loop.gather.hits.map Prod.fst := fun hin =>
          List.disjoint_of_nodup_append hnodup hin List.mem_cons_self
        cases hhit : windowHit lib s request window row with
        | none =>
            rw [hhit, Option.elim_none, Option.elim_none, List.append_nil] at hadd
            obtain ⟨hhits, hadmitted⟩ := ih after (by
              rw [hadd.1]
              exact hnodup.sublist ((List.sublist_cons_self _ _).append_left _))
            rw [hhits, hadmitted, hadd.1, hadd.2]
            simp [admittedHits, hhit]
        | some hit =>
            rw [hhit, Option.elim_some, Option.elim_some, upsert_of_not_mem _ hnew] at hadd
            obtain ⟨hhits, hadmitted⟩ := ih after (by
              rw [hadd.1]
              simpa using hnodup)
            rw [hhits, hadmitted, hadd.1, hadd.2]
            simp [admittedHits, hhit]
  have hempty := hloop loaded { gather := { candidates := loaded.length } } (by simpa using hdistinct)
  simpa [windowLoop] using hempty

end Gathering

/-! ### The stand-in pass -/

section StandIn

variable (hits : List (String × WindowHit)) (index : RetirementIndex)

/-- The successor of a retired hit, when it is a hit too. -/
def successorInWindow (item : String × WindowHit) : Option String :=
  match item.2.retired, index.successorByPredecessor item.1 with
  | some _, some successor =>
      if successor.id ∈ hits.map Prod.fst then some successor.id else none
  | _, _ => none

/-- `b` stands in for `a`: a retired hit and its successor, both in the window. -/
def StandsIn (a b : String) : Prop :=
  ∃ hit, (a, hit) ∈ hits ∧ successorInWindow hits index (a, hit) = some b

/-- Whether some successor stands in for a particle. -/
def stoodIn (id : String) : Bool :=
  hits.any fun item => item.1 = id && (successorInWindow hits index item).isSome

variable {hits index}

theorem stoodIn_iff {a : String} : stoodIn hits index a = true ↔ ∃ b, StandsIn hits index a b := by
  simp only [stoodIn, List.any_eq_true, Bool.and_eq_true, decide_eq_true_eq, StandsIn,
    Option.isSome_iff_exists]
  constructor
  · rintro ⟨⟨a', hit⟩, hitem, rfl, b, hb⟩
    exact ⟨b, hit, hitem, hb⟩
  · rintro ⟨b, hit, hitem, hb⟩
    exact ⟨(a, hit), hitem, rfl, b, hb⟩

/-- What stands in for a particle is its successor, and a hit. -/
theorem successorInWindow_eq_some {item : String × WindowHit} {b : String}
    (h : successorInWindow hits index item = some b) :
    (∃ next, index.successorByPredecessor item.1 = some next ∧ next.id = b) ∧
      b ∈ hits.map Prod.fst := by
  unfold successorInWindow at h
  split at h
  · rename_i successor _ hsuccessor
    split_ifs at h with hmem
    obtain rfl := Option.some.inj h
    exact ⟨⟨successor, hsuccessor, rfl⟩, hmem⟩
  · cases h

/-- A hit with a successor that the last one does not have comes before the last one. -/
theorem mem_of_successor_ne {items : List (String × WindowHit)} {item other : String × WindowHit}
    {b : String} (hmem : other ∈ items ++ [item])
    (hother : successorInWindow hits index other = some b)
    (hitem : successorInWindow hits index item ≠ some b) : other ∈ items := by
  rcases List.mem_append.1 hmem with h | h
  · exact h
  · obtain rfl := List.mem_singleton.1 h
    exact absurd hother hitem

theorem functional_standsIn (hkeys : (hits.map Prod.fst).Nodup) :
    Functional (StandsIn hits index) := by
  rintro a b c ⟨hit, hmem, hb⟩ ⟨hit', hmem', hc⟩
  obtain rfl : hit = hit' := by
    have heq := List.inj_on_of_nodup_map hkeys hmem hmem' rfl
    exact (Prod.mk.inj heq).2
  exact Option.some.inj (hb.symm.trans hc)

/-- **One hit of the pass**: with a successor in the window it is dropped, and its successor names
it. -/
theorem standIn_eq (gather : WindowGather) (state : List (String × WindowHit) × List String)
    (item : String × WindowHit) :
    standIn gather index state item = (successorInWindow gather.hits index item).elim state
      fun b => (state.1.map fun held =>
        if held.1 = b then (held.1, { held.2 with restates := some item.1 }) else held,
          state.2 ++ [item.1]) := by
  cases hretired : item.2.retired with
  | none => simp [standIn, successorInWindow, hretired]
  | some note =>
      cases hnext : index.successorByPredecessor item.1 with
      | none => simp [standIn, successorInWindow, hretired, hnext]
      | some successor =>
          simp only [standIn, successorInWindow, hretired, hnext]
          split_ifs <;> rfl

variable (index) in
/-- What the pass holds after some of the hits: the ids are those of the gather, the hits with a
successor are dropped, and a successor names one that it stands in for. -/
theorem foldl_standIn (gather : WindowGather) (items : List (String × WindowHit)) :
    (items.foldl (standIn gather index) (gather.hits, [])).1.map Prod.fst =
        gather.hits.map Prod.fst ∧
      (items.foldl (standIn gather index) (gather.hits, [])).2 =
        (items.filter fun item => (successorInWindow gather.hits index item).isSome).map Prod.fst ∧
      ∀ held ∈ (items.foldl (standIn gather index) (gather.hits, [])).1,
        (∃ item ∈ items, successorInWindow gather.hits index item = some held.1) →
          ∃ item ∈ items, successorInWindow gather.hits index item = some held.1 ∧
            held.2.restates = some item.1 := by
  induction items using List.reverseRecOn with
  | nil => simp
  | append_singleton items item ih =>
      obtain ⟨hkeys, hdropped, hrestates⟩ := ih
      rw [List.foldl_append, List.foldl_cons, List.foldl_nil, standIn_eq]
      cases hitem : successorInWindow gather.hits index item with
      | none =>
          refine ⟨hkeys, ?_, fun held hheld => ?_⟩
          · rw [Option.elim_none, hdropped]
            simp [hitem]
          · rintro ⟨other, hother, hsuccessor⟩
            have hbefore := mem_of_successor_ne hother hsuccessor (by simp [hitem])
            obtain ⟨first, hfirst, hnamed⟩ := hrestates held hheld ⟨other, hbefore, hsuccessor⟩
            exact ⟨first, List.mem_append_left _ hfirst, hnamed⟩
      | some b =>
          refine ⟨?_, ?_, fun held hheld => ?_⟩
          · rw [Option.elim_some, List.map_map, ← hkeys]
            refine List.map_congr_left fun held _ => ?_
            simp only [Function.comp_apply]
            split_ifs <;> rfl
          · rw [Option.elim_some, hdropped]
            simp [hitem]
          · rintro ⟨other, hother, hsuccessor⟩
            obtain ⟨old, hold, rfl⟩ := List.mem_map.1 hheld
            by_cases hb : old.1 = b
            · refine ⟨item, by simp, ?_, ?_⟩
              · simp [hb, hitem]
              · simp [hb]
            · simp only [hb, if_false] at hsuccessor ⊢
              have hbefore := mem_of_successor_ne hother hsuccessor (by simp [hitem, Ne.symm hb])
              obtain ⟨first, hfirst, hnamed⟩ := hrestates old hold ⟨other, hbefore, hsuccessor⟩
              exact ⟨first, List.mem_append_left _ hfirst, hnamed⟩

/-- **The pass drops the hits that a successor stands in for.** -/
theorem mem_dropped_iff (gather : WindowGather) {a : String} :
    a ∈ (applyStandIn gather index).2 ↔ ∃ b, StandsIn gather.hits index a b := by
  obtain ⟨-, hdropped, -⟩ := foldl_standIn index gather gather.hits
  have hpass : (applyStandIn gather index).2 =
      (gather.hits.foldl (standIn gather index) (gather.hits, [])).2 := rfl
  rw [hpass, hdropped, ← stoodIn_iff, stoodIn]
  simp only [List.mem_map, List.mem_filter, List.any_eq_true, Bool.and_eq_true, decide_eq_true_eq]
  exact exists_congr fun item => and_assoc.trans (and_congr_right fun _ => and_comm)

/-- **A successor that is not dropped itself names a claim that it stands in for.** -/
theorem exists_restates (gather : WindowGather) {a b : String} (h : StandsIn gather.hits index a b)
    (hb : b ∉ (applyStandIn gather index).2) :
    ∃ hit original, (b, hit) ∈ (applyStandIn gather index).1.hits ∧
      hit.restates = some original ∧ StandsIn gather.hits index original b := by
  obtain ⟨hkeys, -, hrestates⟩ := foldl_standIn index gather gather.hits
  obtain ⟨hit, hitem, hsuccessor⟩ := h
  have hmem : b ∈ (gather.hits.foldl (standIn gather index) (gather.hits, [])).1.map Prod.fst :=
    hkeys ▸ (successorInWindow_eq_some hsuccessor).2
  obtain ⟨⟨b', hit'⟩, hheld, rfl⟩ := List.mem_map.1 hmem
  obtain ⟨⟨original, first⟩, hfirst, hstands, hnamed⟩ :=
    hrestates _ hheld ⟨(a, hit), hitem, hsuccessor⟩
  refine ⟨hit', original, List.mem_filter.2 ⟨hheld, ?_⟩, hnamed, first, hfirst, hstands⟩
  exact decide_eq_true hb

end StandIn

/-! ### What the listing shows -/

section Listing

variable {σ Trust Decay : Type*} [SemilatticeInf σ] [OrderBot σ]
variable (lib : QueryLibrary σ) (kernel : QueryScoring Trust Decay) (s : QuerySession)
variable (request : QueryRequest) (window : TimeWindow)

/-- The rows of a listing's scope. -/
def scopeRows : List WindowRow := getParticlesInWindowScope lib s request false false

/-- The hits of a listing, before the stand-in pass. -/
def listedHits : List (String × WindowHit) :=
  admittedHits lib s request window (scopeRows lib s request)

/-- The retirement index of the store. -/
def retirementIndex : RetirementIndex := loadRetirementIndex s.store s.retirementEvents

/-- The ids that `apply_stand_in` drops from a listing. -/
def droppedByStandIn : List String :=
  (applyStandIn (windowLoop lib s request window (scopeRows lib s request)).gather
    (retirementIndex s)).2

/-- A dropped claim and its successor. -/
def DroppedStep (index : RetirementIndex) (dropped : List String) (a b : String) : Prop :=
  a ∈ dropped ∧ ∃ next, index.successorByPredecessor a = some next ∧ next.id = b

/-- **A restatement is shown for every claim dropped**: following successors from it through dropped
claims ends in a row of the listing whose hit names a dropped claim. -/
def RestatementsShown (listing : ListingGather) (index : RetirementIndex) (dropped : List String) :
    Prop :=
  ∀ a ∈ dropped, ∃ b, EndsIn (DroppedStep index dropped) a b ∧
    ∃ row ∈ listing.rows, row.1.id = b ∧
      ∃ hit original, (b, hit) ∈ listing.hits ∧ hit.restates = some original ∧ original ∈ dropped

/-- The admitted particles that no successor stands in for, after the default filters. -/
def standingCandidates : List Particle :=
  (((scopeRows lib s request).filter fun row =>
      (windowHit lib s request window row).isSome &&
        !stoodIn (listedHits lib s request window) (retirementIndex s) row.1.id).map
    Prod.fst).filter (defaultFilters lib s request)

/-- **No chain of retired claims and their successors in the window runs in a cycle, and the default
filters, the observer and the confidence floor keep the end of every chain.** -/
structure RestatementsPass (score : Particle → ℚ) : Prop where
  acyclic : ∀ a,
    ¬ TransGen (StandsIn (listedHits lib s request window) (retirementIndex s)) a a
  passes : ∀ row ∈ scopeRows lib s request,
    (∃ a, StandsIn (listedHits lib s request window) (retirementIndex s) a row.1.id) →
    (∀ c, ¬ StandsIn (listedHits lib s request window) (retirementIndex s) row.1.id c) →
      defaultFilters lib s request row.1 = true ∧
        row.1 ∈ (observerFilter lib id s request
          (standingCandidates lib s request window)).1 ∧
        request.minConfidence ≤ score row.1

variable {lib s request window}

omit [SemilatticeInf σ] [OrderBot σ] in
theorem nodup_scopeRows : ((scopeRows lib s request).map fun row => row.1.id).Nodup := by
  refine (nodup_ids_filter s _).sublist (FirstByKey.sublist_map_filterMap (fun row loaded h => ?_) _)
  obtain rfl := Option.some.inj h
  rfl

omit [SemilatticeInf σ] [OrderBot σ] in
theorem nodup_listedHits : ((listedHits lib s request window).map Prod.fst).Nodup :=
  nodup_scopeRows.sublist (admittedHits_keys_subset _)

omit [SemilatticeInf σ] [OrderBot σ] in
theorem hits_windowLoop_scopeRows :
    (windowLoop lib s request window (scopeRows lib s request)).gather.hits =
      listedHits lib s request window := (windowLoop_spec nodup_scopeRows).1

omit [SemilatticeInf σ] [OrderBot σ] in
theorem mem_droppedByStandIn {a : String} : a ∈ droppedByStandIn lib s request window ↔
    ∃ b, StandsIn (listedHits lib s request window) (retirementIndex s) a b := by
  rw [droppedByStandIn, mem_dropped_iff, hits_windowLoop_scopeRows]

omit [SemilatticeInf σ] [OrderBot σ] in
/-- A dropped claim and its successor are a claim and what stands in for it. -/
theorem droppedStep_eq :
    DroppedStep (retirementIndex s) (droppedByStandIn lib s request window) =
      StandsIn (listedHits lib s request window) (retirementIndex s) := by
  funext a b
  refine propext ⟨fun ⟨hdropped, next, hnext, hb⟩ => ?_, fun hstands => ?_⟩
  · obtain ⟨c, hit, hmem, hsuccessor⟩ := mem_droppedByStandIn.1 hdropped
    obtain ⟨⟨next', hnext', hc⟩, -⟩ := successorInWindow_eq_some hsuccessor
    obtain rfl : next = next' := Option.some.inj (hnext.symm.trans hnext')
    obtain rfl : c = b := hc.symm.trans hb
    exact ⟨hit, hmem, hsuccessor⟩
  · refine ⟨mem_droppedByStandIn.2 ⟨b, hstands⟩, ?_⟩
    obtain ⟨hit, -, hsuccessor⟩ := hstands
    exact (successorInWindow_eq_some hsuccessor).1

/-- **The rows and hits of a listing**: the standing candidates that the observer and the floor keep,
with the hits that the stand-in pass leaves. -/
theorem listingStore_eq (trustPolicy : Option Trust) (decayPolicy : Option Decay)
    (cache : String → Option ℚ) (populateCache : Bool) (now : Instant) :
    let score := scoreEffectiveConfidence kernel s trustPolicy decayPolicy cache populateCache
      (request.asOf.getD now)
    let listing := listingStore lib kernel s request window trustPolicy decayPolicy cache
      populateCache now
    (∀ row, row ∈ listing.rows ↔ (row.1 ∈ (observerFilter lib id s request
        (standingCandidates lib s request window)).1 ∧ row.2 = score row.1) ∧
          request.minConfidence ≤ row.2) ∧
      listing.hits = (applyStandIn (windowLoop lib s request window
        (scopeRows lib s request)).gather (retirementIndex s)).1.hits := by
  intro score listing
  have hcandidates : (((gatherWindowCandidates lib s request window
      (scopeRows lib s request)).admitted.map Prod.fst).filter (defaultFilters lib s request)) =
        standingCandidates lib s request window := by
    rw [gatherWindowCandidates_eq, standingCandidates]
    dsimp only
    rw [(windowLoop_spec nodup_scopeRows).2, List.filter_filter]
    congr 2
    refine List.filter_congr fun row _ => ?_
    have hdropped : decide (row.1.id ∉ droppedByStandIn lib s request window) =
        !stoodIn (listedHits lib s request window) (retirementIndex s) row.1.id := by
      rw [Bool.eq_iff_iff, decide_eq_true_eq, mem_droppedByStandIn, Bool.not_eq_true',
        ← Bool.not_eq_true, stoodIn_iff]
    rw [Bool.and_comm, ← hdropped]
    rfl
  refine ⟨fun row => ?_, rfl⟩
  have hrows : listing.rows = ((observerFilter lib id s request
      (standingCandidates lib s request window)).1.map fun p => (p, score p)).filter
        fun row => request.minConfidence ≤ row.2 := by
    rw [← hcandidates]
    rfl
  rw [hrows, List.mem_filter, List.mem_map, decide_eq_true_eq]
  refine and_congr_left fun _ => ⟨?_, fun ⟨hmem, hscore⟩ => ⟨row.1, hmem, Prod.ext rfl hscore.symm⟩⟩
  rintro ⟨p, hp, rfl⟩
  exact ⟨hp, rfl⟩

omit [SemilatticeInf σ] [OrderBot σ] in
/-- A standing candidate is the particle of a row of the scope, and passes the default filters. -/
theorem mem_standingCandidates {p : Particle} (h : p ∈ standingCandidates lib s request window) :
    (∃ row ∈ scopeRows lib s request, row.1 = p) ∧ defaultFilters lib s request p = true := by
  obtain ⟨hp, hfilters⟩ := List.mem_filter.1 h
  obtain ⟨row, hrow, rfl⟩ := List.mem_map.1 hp
  exact ⟨⟨row, (List.mem_filter.1 hrow).1, rfl⟩, hfilters⟩

/-- **The listing shows a restatement for every claim that the stand-in pass drops exactly when no
chain of successors is a cycle and the filters keep the end of every chain.** -/
theorem restatementsShown_iff {σ Trust Decay : Type*} [SemilatticeInf σ] [OrderBot σ]
    (lib : QueryLibrary σ) (kernel : QueryScoring Trust Decay) (s : QuerySession)
    (request : QueryRequest) (window : TimeWindow) (trustPolicy : Option Trust)
    (decayPolicy : Option Decay) (cache : String → Option ℚ) (populateCache : Bool) (now : Instant) :
    RestatementsShown
        (listingStore lib kernel s request window trustPolicy decayPolicy cache populateCache now)
        (retirementIndex s) (droppedByStandIn lib s request window) ↔
      RestatementsPass lib s request window
        (scoreEffectiveConfidence kernel s trustPolicy decayPolicy cache populateCache
          (request.asOf.getD now)) := by
  set score := scoreEffectiveConfidence kernel s trustPolicy decayPolicy cache populateCache
    (request.asOf.getD now)
  set listing := listingStore lib kernel s request window trustPolicy decayPolicy cache
    populateCache now
  set stands := StandsIn (listedHits lib s request window) (retirementIndex s) with hstands
  obtain ⟨hrows, hhits⟩ : (∀ row, row ∈ listing.rows ↔ (row.1 ∈ (observerFilter lib id s request
      (standingCandidates lib s request window)).1 ∧ row.2 = score row.1) ∧
        request.minConfidence ≤ row.2) ∧
      listing.hits = (applyStandIn (windowLoop lib s request window
        (scopeRows lib s request)).gather (retirementIndex s)).1.hits :=
    listingStore_eq kernel trustPolicy decayPolicy cache populateCache now
  have hnodes : ∀ a b, stands a b →
      a ∈ ((listedHits lib s request window).map Prod.fst).toFinset := by
    rintro a b ⟨hit, hmem, -⟩
    exact List.mem_toFinset.2 (List.mem_map_of_mem hmem)
  -- a claim that is listed at the end of a chain names one of the claims it stands in for
  have hshown : RestatementsShown listing (retirementIndex s)
      (droppedByStandIn lib s request window) ↔
        ∀ a b, stands a b → ∃ c, EndsIn stands a c ∧ ∃ row ∈ listing.rows, row.1.id = c := by
    rw [RestatementsShown, droppedStep_eq]
    constructor
    · intro h a b hab
      obtain ⟨c, hends, row, hrow, hid, -⟩ := h a (mem_droppedByStandIn.2 ⟨b, hab⟩)
      exact ⟨c, hends, row, hrow, hid⟩
    · intro h a ha
      obtain ⟨b, hab⟩ := mem_droppedByStandIn.1 ha
      obtain ⟨c, hends, row, hrow, hid⟩ := h a b hab
      obtain ⟨d, -, hdc⟩ := TransGen.tail'_iff.1 hends.1
      have hkept : c ∉ droppedByStandIn lib s request window := fun hc =>
        (mem_droppedByStandIn.1 hc).elim hends.2
      rw [hstands, ← hits_windowLoop_scopeRows] at hdc
      obtain ⟨hit, original, hhit, hnamed, horiginal⟩ := exists_restates _ hdc hkept
      rw [hits_windowLoop_scopeRows] at horiginal
      exact ⟨c, hends, row, hrow, hid, hit, original, hhits ▸ hhit, hnamed,
        mem_droppedByStandIn.2 ⟨c, horiginal⟩⟩
  rw [hshown, forall_endsIn_iff (functional_standsIn nodup_listedHits) hnodes]
  refine ⟨fun ⟨hacyclic, hends⟩ => ⟨hacyclic, fun row hrow ⟨a, hab⟩ hend => ?_⟩,
    fun h => ⟨h.acyclic, fun a b hab hend => ?_⟩⟩
  · obtain ⟨listed, hlisted, hid⟩ := hends a row.1.id hab hend
    obtain ⟨⟨hvisible, hscore⟩, hfloor⟩ := (hrows listed).1 hlisted
    obtain ⟨⟨row', hrow', heq⟩, hfilters⟩ := mem_standingCandidates
      ((observerFilter_sublist lib id s request _).subset hvisible)
    obtain rfl : row' = row := by
      refine List.inj_on_of_nodup_map nodup_scopeRows hrow' hrow ?_
      rw [heq, hid]
    rw [heq]
    exact ⟨hfilters, hvisible, hscore ▸ hfloor⟩
  · obtain ⟨hit, -, hsuccessor⟩ := id hab
    obtain ⟨row, hrow, rfl⟩ := List.mem_map.1
      ((admittedHits_keys_subset _).subset (successorInWindow_eq_some hsuccessor).2)
    obtain ⟨-, hvisible, hfloor⟩ := h.passes row hrow ⟨a, hab⟩ hend
    exact ⟨(row.1, score row.1), (hrows _).2 ⟨⟨hvisible, rfl⟩, hfloor⟩, rfl⟩

end Listing

/-! ### A statement hidden with its restatement -/

/-- A flight, and its restatement after a move, which states it as an evaluation; both begin in the
window. -/
def flightStore : QuerySession where
  store :=
    { particles := ([
        { model := { id := "flight", content := "The user flies back to Delhi."
                     status := .SUPERSEDED, assertionModality := .FALSIFIABLE }
          rowid := 0 },
        { model := { id := "moved", content := "The user planned to fly back."
                     supersedes := some "flight", assertionModality := .EVALUATIVE }
          rowid := 1 }].foldlM ParticleTable.insert? .empty).getD .empty }
  columns := fun _ => { validFrom := some 5, validKind := some .EVENT }

/-- The falsifiable claims of instants 0 to 10. -/
def falsifiableInWindow : QueryRequest where
  assertionModality := some .FALSIFIABLE
  window := some ⟨0, 10⟩
  isWindowListing := true
  isStructuralMode := true

/-- **The flight passes the filter and is dropped for its restatement, which does not**; the listing is
empty. -/
theorem moved_flight_hidden :
    (flightStore.store.get? "flight").map
        (fun row => defaultFilters plainLibrary flightStore falsifiableInWindow row.toModel) =
      some true ∧
    droppedByStandIn plainLibrary flightStore falsifiableInWindow ⟨0, 10⟩ = ["flight"] ∧
    (listingStore plainLibrary plainScoring flightStore falsifiableInWindow ⟨0, 10⟩ none none
      (fun _ => none) true 20).rows = [] ∧
    ¬ RestatementsShown
      (listingStore plainLibrary plainScoring flightStore falsifiableInWindow ⟨0, 10⟩ none none
        (fun _ => none) true 20)
      (retirementIndex flightStore)
      (droppedByStandIn plainLibrary flightStore falsifiableInWindow ⟨0, 10⟩) := by
  have hdropped : droppedByStandIn plainLibrary flightStore falsifiableInWindow ⟨0, 10⟩ =
      ["flight"] := by decide +kernel
  have hrows : (listingStore plainLibrary plainScoring flightStore falsifiableInWindow ⟨0, 10⟩ none
      none (fun _ => none) true 20).rows = [] := by decide +kernel
  refine ⟨by decide +kernel, hdropped, hrows, fun hshown => ?_⟩
  obtain ⟨b, -, row, hrow, -⟩ := hshown "flight" (by simp [hdropped])
  rw [hrows] at hrow
  cases hrow

end ParticlesEngine
