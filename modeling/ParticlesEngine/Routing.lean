/-
**The router.**

`ingest/routing.py` picks the rung that handles one particle from its identity alone, before any
conflict search; both write paths use it.

Main definitions:

* `Route` — what a write path does with one particle;
* `routeParticle` — the router;
* `routeCheapRungs` — the rungs above the conflict search, on the store as it stands.

Main results:

* `routeParticle_eq_suppress` — **the router suppresses exactly what the duplicate index finds**.
-/

import ParticlesEngine.DuplicateSuppression

set_option relaxedAutoImplicit false
set_option autoImplicit false

namespace ParticlesEngine

/-- What a write path does with one particle. -/
inductive Route where
  /-- off the conflict surface: insert ACTIVE -/
  | UNCHECKED
  /-- append provenance to the ACTIVE twin -/
  | SUPPRESS
  /-- hold or absorb against the retired twin or open hold -/
  | RETIRED_TWIN
  /-- no live conflict: insert ACTIVE -/
  | INSERT
  /-- run the conflict ladder -/
  | LADDER
  deriving DecidableEq, Repr

/-- The settings that the write paths read. -/
structure IngestConfig where
  /-- `extraction.duplicate_suppression.enabled` -/
  duplicateSuppression : Bool := true
  /-- `extraction.retired_value_quarantine.enabled` -/
  retiredValueQuarantine : Bool := true
  /-- `extraction.similarity_threshold` -/
  similarityThreshold : ℚ
  /-- `reconciliation.update_supersession.enabled` -/
  updateSupersession : Bool := true
  /-- `reconciliation.update_supersession.subject_floor` -/
  subjectFloor : ℚ
  deriving DecidableEq

section Router

variable (core : CorePackage)

/-- `skips_conflict_resolution`: about the document itself, or not asserted. -/
def CorePackage.skipsConflictResolution (properties : Properties) : Bool :=
  core.isExcludedDocumentMeta properties || core.isNonAsserted properties

/-- **`route_particle`**: the rung, and the particle it acts on. -/
def routeParticle (particle : Particle) (duplicates retiredValues : DuplicateIndex)
    (conflict : Option Particle) (retiredIds : List String) : Route × Option Particle :=
  if core.skipsConflictResolution particle.properties then (.UNCHECKED, none)
  else
    match duplicates.find core particle with
    | some duplicateOf => (.SUPPRESS, some duplicateOf)
    | none =>
        match retiredValues.find core particle with
        | some retiredTwin => (.RETIRED_TWIN, some retiredTwin)
        | none =>
            match conflict with
            | none => (.INSERT, none)
            | some conflict =>
                if conflict.id ∈ retiredIds then (.INSERT, none) else (.LADDER, some conflict)

/-- **`_route_cheap_rungs`.** -/
def routeCheapRungs (cfg : IngestConfig) (store : Store) (particle : Particle)
    (excludeIds : List String) : Route × Option Particle :=
  let duplicates :=
    if cfg.duplicateSuppression then
      buildDuplicateIndex core store [particle.content] excludeIds
    else {}
  let retiredValues :=
    if cfg.retiredValueQuarantine then buildRetiredValueIndex core store [particle.content] []
    else {}
  routeParticle core particle duplicates retiredValues none []

end Router

/-- **The four outcomes of the router**, each with its target and what put it there. -/
theorem routeParticle_cases (core : CorePackage) (particle : Particle)
    (duplicates retiredValues : DuplicateIndex) (conflict : Option Particle)
    (retiredIds : List String) :
    let result := routeParticle core particle duplicates retiredValues conflict retiredIds
    (core.skipsConflictResolution particle.properties = true ∧ result = (.UNCHECKED, none)) ∨
    (∃ twin, duplicates.find core particle = some twin ∧ result = (.SUPPRESS, some twin)) ∨
    (duplicates.find core particle = none ∧ ∃ twin, retiredValues.find core particle = some twin ∧
      result = (.RETIRED_TWIN, some twin)) ∨
    (duplicates.find core particle = none ∧ retiredValues.find core particle = none ∧
      (result = (.INSERT, none) ∨ ∃ c, conflict = some c ∧ result = (.LADDER, some c))) := by
  intro result
  by_cases hskip : core.skipsConflictResolution particle.properties = true
  · exact Or.inl ⟨hskip, if_pos hskip⟩
  have hresult : result = _ := if_neg hskip
  refine Or.inr ?_
  cases hdup : duplicates.find core particle with
  | some twin => exact Or.inl ⟨twin, rfl, by rw [hresult, hdup]⟩
  | none =>
      refine Or.inr ?_
      cases hretired : retiredValues.find core particle with
      | some twin => exact Or.inl ⟨rfl, twin, rfl, by rw [hresult, hdup, hretired]⟩
      | none =>
          refine Or.inr ⟨rfl, rfl, ?_⟩
          rw [hdup, hretired] at hresult
          cases conflict with
          | none => exact Or.inl hresult
          | some c =>
              by_cases hc : c.id ∈ retiredIds
              · exact Or.inl (hresult.trans (if_pos hc))
              · exact Or.inr ⟨c, rfl, hresult.trans (if_neg hc)⟩

variable {core : CorePackage} {particle : Particle} {duplicates retiredValues : DuplicateIndex}
  {conflict : Option Particle} {retiredIds : List String}

/-- Nothing off the conflict surface is in an index. -/
theorem find_eq_none_of_skips {index : DuplicateIndex}
    (hskip : core.skipsConflictResolution particle.properties = true) :
    index.find core particle = none := by
  refine DuplicateIndex.find_eq_none_of_not_eligible ?_
  rw [CorePackage.skipsConflictResolution] at hskip
  simp [CorePackage.isSuppressionEligible, hskip]

/-- **The router suppresses exactly what the duplicate index finds**, and into it. -/
theorem routeParticle_eq_suppress {target : Option Particle} :
    routeParticle core particle duplicates retiredValues conflict retiredIds =
        (.SUPPRESS, target) ↔
      ∃ twin, target = some twin ∧ duplicates.find core particle = some twin := by
  rcases routeParticle_cases core particle duplicates retiredValues conflict retiredIds with
    ⟨hskip, hresult⟩ | ⟨twin, htwin, hresult⟩ | ⟨hdup, twin, -, hresult⟩ | ⟨hdup, -, hresult⟩
  · rw [hresult, find_eq_none_of_skips hskip]
    simp
  · rw [hresult, htwin]
    constructor
    · intro h
      exact ⟨twin, (congrArg Prod.snd h).symm, rfl⟩
    · rintro ⟨twin', rfl, htwin'⟩
      rw [Option.some.inj htwin']
  · rw [hresult, hdup]
    simp
  · rw [hdup]
    rcases hresult with hresult | ⟨c, -, hresult⟩ <;> rw [hresult] <;> simp

end ParticlesEngine
