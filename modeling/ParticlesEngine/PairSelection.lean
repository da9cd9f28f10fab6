/-
**The pairs of a candidate.**

`ingest/pair_selection.py` decides, around two expensive gathers of answers, which existing claims a
candidate is reconciled against: which pairs to ask the update question first, which to probe for a
contradiction, which one the ladder runs on, and which of the rest the update rung then retires.

Main definitions:

* `CandidatePairs`, `PairSelection` — the pairs gathered and the pairs chosen;
* `planUpdateFirst`, `planProbes`, `planUpdateProbes`, `selectPairs` — the decisions;
* `planUpdateExtras` — the retirements among the extras;
* `Retires` — why one of them is made.

Main results:

* `mem_planProbes_pool` — a pool member is probed unless the update answer settles it or it is not
  offered at all;
* `planUpdateProbes_congr`, `skipped_probes_do_not_matter` — **an answer to a probe that was not
  planned changes nothing but the signal of a pair the update answer settled**;
* `planUpdateExtras_retires_once` — **each claim is retired at most once, the winner last**.
-/

import ParticlesEngine.HeldRelease
import ParticlesEngine.ReconcileSweeps
import ParticlesEngine.UpdateOrder

set_option relaxedAutoImplicit false
set_option autoImplicit false

namespace ParticlesEngine

/-! ### The pairs -/

/-- Why a pair is probed. -/
inductive PairRole where
  | NEAREST
  | SUBJECT
  | DECLINED
  deriving DecidableEq, Repr

/-- Every existing claim one candidate could be paired with, and the gathered facts. -/
structure CandidatePairs where
  nearest : Option SourcedParticle := none
  /-- best first, the nearest one excluded -/
  subjectPool : List SourcedParticle := []
  precondition : String → Option PairPrecondition := fun _ => none
  /-- whether the update rung could act on a pair; nothing outside the `multi` regime -/
  canUpdate : Option (String → Option Bool) := none

namespace CandidatePairs

/-- The precondition of a claim; a missing id reads RECONCILE. -/
def preconditionOf (pairs : CandidatePairs) (particle : SourcedParticle) : PairPrecondition :=
  (pairs.precondition particle.id).getD .RECONCILE

/-- Every existing claim this candidate could pair with. -/
def pairable (pairs : CandidatePairs) : List SourcedParticle :=
  pairs.nearest.toList ++ pairs.subjectPool

/-- `_offered`. -/
def offered (pairs : CandidatePairs) (other : SourcedParticle) : Bool :=
  pairs.canUpdate.all fun canUpdate => (canUpdate other.id).getD false

end CandidatePairs

/-- The pairs one candidate is reconciled against. -/
structure PairSelection where
  primary : Option SourcedParticle := none
  signal : Bool := false
  extras : List SourcedParticle := []
  declined : List SourcedParticle := []
  slots : String → Option SlotVerdict := fun _ => none
  reading : Option String := none
  sameSlot : List String := []

/-! ### The decisions -/

namespace PairSelection

section Decisions

variable (rules : SlotRules) (pairs : CandidatePairs) (slots : String → Option SlotVerdict)
  (admitted : List String)

/-- `plan_update_first`: the pairs asked the update question before the contradiction probe. -/
def planUpdateFirst : List SourcedParticle :=
  (pairs.nearest.filter fun nearest => pairs.preconditionOf nearest = .RECONCILE).toList ++
    pairs.subjectPool.filter fun other =>
      pairs.preconditionOf other = .RECONCILE && pairs.offered other

/-- The local `settled` of `plan_probes`: the update answer has decided the pair. -/
def settled (other : SourcedParticle) (pool : Bool) : Bool :=
  other.id ∈ admitted &&
    (rules.admitsUpdate (slots other.id) || (pool && slots other.id = some .DIFFERENT))

/-- The probe of a pool member, if it is probed. -/
def poolProbe (other : SourcedParticle) : Option (SourcedParticle × PairRole) :=
  if pairs.preconditionOf other = .DECLINE then some (other, .DECLINED)
  else if pairs.offered other && !settled rules slots admitted other true then some (other, .SUBJECT)
  else none

/-- **`plan_probes`**: the contradiction probes to run, in order. -/
def planProbes : List (SourcedParticle × PairRole) :=
  (pairs.nearest.filter fun nearest => !settled rules slots admitted nearest false).toList.map
      (fun nearest => (nearest, .NEAREST)) ++
    pairs.subjectPool.filterMap (poolProbe rules pairs slots admitted)

variable (probes : String → Option Bool)

/-- A probe confirmed the pair. -/
def confirmedBy (other : SourcedParticle) : Bool := (probes other.id).getD false

/-- `plan_update_probes`: the confirmed pairs the update rung might settle, except those asked. -/
def planUpdateProbes (asked : List String) : List SourcedParticle :=
  (pairs.nearest.filter fun nearest =>
      decide (nearest.id ∉ asked) && confirmedBy probes nearest &&
        decide (pairs.preconditionOf nearest ≠ .DECLINE)).toList ++
    pairs.subjectPool.filter fun other =>
      decide (other.id ∉ asked) && decide (pairs.preconditionOf other ≠ .DECLINE) &&
        pairs.offered other && confirmedBy probes other

/-- The ids asked the update question first whose answer settled CHANGES. -/
def sameSlotIds : List String :=
  (pairs.pairable.filter fun other => other.id ∈ admitted && rules.admitsUpdate (slots other.id)).map
    fun other => other.id

/-- The nearest claim is confirmed and the precondition declines it. -/
def nearestDeclined (nearest : SourcedParticle) : Bool :=
  confirmedBy probes nearest && pairs.preconditionOf nearest = .DECLINE

/-- A pool member is offered to the ladder. -/
def poolConfirmed (other : SourcedParticle) : Bool :=
  decide (pairs.preconditionOf other ≠ .DECLINE) && pairs.offered other &&
    (decide (other.id ∈ sameSlotIds rules pairs slots admitted) ||
      (confirmedBy probes other && rules.offersSubjectPair (slots other.id)))

/-- The nearest claim, unless it is confirmed and declined. -/
def keptNearest : Option SourcedParticle :=
  pairs.nearest.filter fun nearest => !nearestDeclined pairs probes nearest

/-- The confirmed pairs the precondition declines, the nearest one first. -/
def declinedPairs : List SourcedParticle :=
  (pairs.nearest.filter (nearestDeclined pairs probes)).toList ++
    pairs.subjectPool.filter fun other =>
      decide (pairs.preconditionOf other = .DECLINE) && confirmedBy probes other

/-- The nearest claim stays primary whatever the pool holds. -/
def nearestActs : Bool :=
  (keptNearest pairs probes).any fun nearest =>
    confirmedBy probes nearest || decide (nearest.id ∈ sameSlotIds rules pairs slots admitted)

/-- The best confirmed pool member takes the place of a nearest claim that is absent or does not
act. -/
def choosePrimary (acts : Bool) (nearest : Option SourcedParticle) :
    List SourcedParticle → Option SourcedParticle × List SourcedParticle
  | [] => (nearest, [])
  | first :: rest => if acts then (nearest, first :: rest) else (some first, rest)

/-- **`select_pairs`**: the primary pair, the extras and the declined pairs.  The signal is always the
primary pair's own probe. -/
def selectPairs : PairSelection :=
  let confirmed := pairs.subjectPool.filter (poolConfirmed rules pairs slots admitted probes)
  let chosen := choosePrimary (nearestActs rules pairs slots admitted probes) (keptNearest pairs probes)
    confirmed
  { primary := chosen.1
    signal := chosen.1.any (confirmedBy probes)
    extras := chosen.2
    declined := declinedPairs pairs probes
    slots := slots
    sameSlot := sameSlotIds rules pairs slots admitted }

/-! ### The answers that are read -/

variable {rules pairs slots admitted} {probes probes' : String → Option Bool}

/-- A pool member is probed unless the update answer settles it or it is not offered at all. -/
theorem mem_planProbes_pool {other : SourcedParticle} (hmem : other ∈ pairs.subjectPool)
    (h : pairs.preconditionOf other = .DECLINE ∨
      (pairs.offered other = true ∧ settled rules slots admitted other true = false)) :
    other ∈ (planProbes rules pairs slots admitted).map Prod.fst := by
  have hprobe : ∃ role, poolProbe rules pairs slots admitted other = some (other, role) := by
    rw [poolProbe]
    split_ifs with hdecline hoffer
    · exact ⟨.DECLINED, rfl⟩
    · exact ⟨.SUBJECT, rfl⟩
    · simp [hdecline] at h
      simp [h] at hoffer
  obtain ⟨role, hrole⟩ := hprobe
  exact List.mem_map.2 ⟨(other, role), List.mem_append_right _ (List.mem_filterMap.2
    ⟨other, hmem, hrole⟩), rfl⟩

/-- The nearest claim is probed unless the update answer settles it. -/
theorem mem_planProbes_nearest {nearest : SourcedParticle} (hmem : pairs.nearest = some nearest)
    (h : settled rules slots admitted nearest false = false) :
    nearest ∈ (planProbes rules pairs slots admitted).map Prod.fst := by
  refine List.mem_map.2 ⟨(nearest, .NEAREST), List.mem_append_left _ ?_, rfl⟩
  simp [hmem, h]

/-- A pair the update answer settles as a changing slot is one the precondition reconciles. -/
theorem preconditionOf_eq_of_mem_admitted {other : SourcedParticle}
    (hadmitted : ∀ id ∈ admitted, id ∈ (planUpdateFirst pairs).map fun p => p.id)
    (hmem : other.id ∈ admitted) : pairs.preconditionOf other = .RECONCILE := by
  obtain ⟨asked, hasked, hid⟩ := List.mem_map.1 (hadmitted other.id hmem)
  have hreconciled : pairs.preconditionOf asked = .RECONCILE := by
    rcases List.mem_append.1 hasked with hnearest | hpool
    · obtain ⟨-, hreconciled⟩ := Option.filter_eq_some_iff.1 (Option.mem_toList.1 hnearest)
      simpa using hreconciled
    · have hreconciled := (List.mem_filter.1 hpool).2
      simp only [Bool.and_eq_true, decide_eq_true_eq] at hreconciled
      exact hreconciled.1
  rw [← hreconciled, CandidatePairs.preconditionOf, CandidatePairs.preconditionOf, hid]

section Unread

variable {slots' : String → Option SlotVerdict}
  (hrules : rules.offersSubjectPair (some .DIFFERENT) = false)
  (hadmitted : ∀ id ∈ admitted, id ∈ (planUpdateFirst pairs).map fun p => p.id)
  (hslots : ∀ id ∈ admitted, slots' id = slots id)
  (hagree : ∀ p ∈ (planProbes rules pairs slots admitted).map Prod.fst, probes p.id = probes' p.id)

include hslots in
/-- A pair settled as a changing slot is in the same-slot set. -/
theorem mem_sameSlotIds {other : SourcedParticle} (hmem : other ∈ pairs.pairable)
    (hin : other.id ∈ admitted) (hchanges : rules.admitsUpdate (slots other.id) = true) :
    other.id ∈ sameSlotIds rules pairs slots' admitted := by
  refine List.mem_map.2 ⟨other, List.mem_filter.2 ⟨hmem, ?_⟩, rfl⟩
  simp [hin, hslots other.id hin, hchanges]

/-- An offered pool member that is not probed is settled by the update answer. -/
theorem settled_of_pool_not_mem {other : SourcedParticle} (hmem : other ∈ pairs.subjectPool)
    (hoffered : pairs.offered other = true)
    (hnot : other ∉ (planProbes rules pairs slots admitted).map Prod.fst) :
    settled rules slots admitted other true = true := by
  by_contra hnone
  exact hnot (mem_planProbes_pool hmem (Or.inr ⟨hoffered, Bool.not_eq_true _ ▸ hnone⟩))

include hrules hslots in
/-- What a pool member's probe says matters only when it is planned. -/
theorem poolConfirmed_of_not_mem {other : SourcedParticle} (hmem : other ∈ pairs.subjectPool)
    (hnot : other ∉ (planProbes rules pairs slots admitted).map Prod.fst)
    (probes : String → Option Bool) :
    pairs.preconditionOf other ≠ .DECLINE ∧
      poolConfirmed rules pairs slots' admitted probes other =
        (pairs.offered other && decide (other.id ∈ sameSlotIds rules pairs slots' admitted)) := by
  have hdecline : pairs.preconditionOf other ≠ .DECLINE :=
    fun h => hnot (mem_planProbes_pool hmem (Or.inl h))
  refine ⟨hdecline, ?_⟩
  by_cases hoffered : pairs.offered other = true
  · have hsettled := settled_of_pool_not_mem hmem hoffered hnot
    simp only [settled, Bool.true_and, Bool.and_eq_true, Bool.or_eq_true,
      decide_eq_true_eq] at hsettled
    obtain ⟨hin, hchanges | hdifferent⟩ := hsettled
    · have hsame := mem_sameSlotIds hslots (List.mem_append_right _ hmem) hin hchanges
      simp [poolConfirmed, hdecline, hoffered, hsame]
    · simp [poolConfirmed, hdecline, hoffered, hslots other.id hin, hdifferent, hrules]
  · simp [poolConfirmed, hoffered]

include hagree in
theorem confirmedBy_congr {other : SourcedParticle}
    (hmem : other ∈ (planProbes rules pairs slots admitted).map Prod.fst) :
    confirmedBy probes other = confirmedBy probes' other := by
  rw [confirmedBy, confirmedBy, hagree other hmem]

include hrules hslots hagree in
theorem poolConfirmed_congr :
    pairs.subjectPool.filter (poolConfirmed rules pairs slots' admitted probes) =
      pairs.subjectPool.filter (poolConfirmed rules pairs slots' admitted probes') := by
  refine List.filter_congr fun other hother => ?_
  by_cases hmem : other ∈ (planProbes rules pairs slots admitted).map Prod.fst
  · rw [poolConfirmed, poolConfirmed, confirmedBy_congr hagree hmem]
  · rw [(poolConfirmed_of_not_mem hrules hslots hother hmem probes).2,
      (poolConfirmed_of_not_mem hrules hslots hother hmem probes').2]

/-- A nearest claim that is not probed is settled as a changing slot. -/
theorem settled_of_nearest_not_mem {nearest : SourcedParticle} (hnearest : pairs.nearest = some nearest)
    (hnot : nearest ∉ (planProbes rules pairs slots admitted).map Prod.fst) :
    nearest.id ∈ admitted ∧ rules.admitsUpdate (slots nearest.id) = true := by
  have hsettled : settled rules slots admitted nearest false = true := by
    by_contra hnone
    exact hnot (mem_planProbes_nearest hnearest (Bool.not_eq_true _ ▸ hnone))
  simpa [settled] using hsettled

include hadmitted hagree in
/-- Whether the nearest claim is declined does not depend on a probe that was not planned. -/
theorem nearestDeclined_congr {nearest : SourcedParticle} (hnearest : pairs.nearest = some nearest) :
    nearestDeclined pairs probes nearest = nearestDeclined pairs probes' nearest := by
  by_cases hmem : nearest ∈ (planProbes rules pairs slots admitted).map Prod.fst
  · rw [nearestDeclined, nearestDeclined, confirmedBy_congr hagree hmem]
  · have hreconciled := preconditionOf_eq_of_mem_admitted hadmitted
      (settled_of_nearest_not_mem hnearest hmem).1
    simp [nearestDeclined, hreconciled]

include hadmitted hagree in
theorem keptNearest_congr : keptNearest pairs probes = keptNearest pairs probes' := by
  cases hnearest : pairs.nearest with
  | none => simp [keptNearest, hnearest]
  | some nearest =>
      have hsame := nearestDeclined_congr hadmitted hagree hnearest
      simp [keptNearest, hnearest, Option.filter_some, hsame]

include hadmitted hagree in
theorem declinedPairs_congr : declinedPairs pairs probes = declinedPairs pairs probes' := by
  have hpool : pairs.subjectPool.filter (fun other =>
        decide (pairs.preconditionOf other = .DECLINE) && confirmedBy probes other) =
      pairs.subjectPool.filter fun other =>
        decide (pairs.preconditionOf other = .DECLINE) && confirmedBy probes' other := by
    refine List.filter_congr fun other hother => ?_
    by_cases hdecline : pairs.preconditionOf other = .DECLINE
    · rw [confirmedBy_congr hagree (mem_planProbes_pool hother (Or.inl hdecline))]
    · simp [hdecline]
  rw [declinedPairs, declinedPairs, hpool]
  cases hnearest : pairs.nearest with
  | none => rfl
  | some nearest => simp [Option.filter_some, nearestDeclined_congr hadmitted hagree hnearest]

include hadmitted hslots hagree in
theorem nearestActs_congr :
    nearestActs rules pairs slots' admitted probes = nearestActs rules pairs slots' admitted probes' := by
  rw [nearestActs, nearestActs, keptNearest_congr hadmitted hagree]
  cases hkept : keptNearest pairs probes' with
  | none => rfl
  | some nearest =>
      obtain ⟨hnearest, -⟩ := Option.filter_eq_some_iff.1 hkept
      by_cases hmem : nearest ∈ (planProbes rules pairs slots admitted).map Prod.fst
      · simp [confirmedBy_congr hagree hmem]
      · obtain ⟨hin, hchanges⟩ := settled_of_nearest_not_mem hnearest hmem
        have hpairable : nearest ∈ pairs.pairable := List.mem_append_left _ (by simp [hnearest])
        simp [mem_sameSlotIds hslots hpairable hin hchanges]

include hagree in
/-- The update question after the probes goes to the same pairs too. -/
theorem planUpdateProbes_congr :
    planUpdateProbes pairs probes admitted = planUpdateProbes pairs probes' admitted := by
  have hpool : pairs.subjectPool.filter (fun other =>
        decide (other.id ∉ admitted) && decide (pairs.preconditionOf other ≠ .DECLINE) &&
          pairs.offered other && confirmedBy probes other) =
      pairs.subjectPool.filter fun other =>
        decide (other.id ∉ admitted) && decide (pairs.preconditionOf other ≠ .DECLINE) &&
          pairs.offered other && confirmedBy probes' other := by
    refine List.filter_congr fun other hother => ?_
    by_cases hmem : other ∈ (planProbes rules pairs slots admitted).map Prod.fst
    · rw [confirmedBy_congr hagree hmem]
    · -- a member that is not probed has been asked, or is not offered
      by_cases hoffered : pairs.offered other = true
      · have hsettled := settled_of_pool_not_mem hother hoffered hmem
        simp only [settled, Bool.and_eq_true, decide_eq_true_eq] at hsettled
        simp [hsettled.1]
      · simp [hoffered]
  rw [planUpdateProbes, planUpdateProbes, hpool]
  cases hnearest : pairs.nearest with
  | none => rfl
  | some nearest =>
      by_cases hmem : nearest ∈ (planProbes rules pairs slots admitted).map Prod.fst
      · simp [Option.filter_some, confirmedBy_congr hagree hmem]
      · simp [Option.filter_some, (settled_of_nearest_not_mem hnearest hmem).1]

end Unread

/-- The ids of the pairs whose contradiction probes are planned. -/
def plannedIds (rules : SlotRules) (pairs : CandidatePairs) (slots : String → Option SlotVerdict)
    (admitted : List String) : List String :=
  (planProbes rules pairs slots admitted).map fun probe => probe.1.id

theorem id_mem_plannedIds {other : SourcedParticle}
    (h : other ∈ (planProbes rules pairs slots admitted).map Prod.fst) :
    other.id ∈ plannedIds rules pairs slots admitted := by
  obtain ⟨probe, hprobe, rfl⟩ := List.mem_map.1 h
  exact List.mem_map.2 ⟨probe, hprobe, rfl⟩

/-- The pairs chosen are the nearest claim kept and the pool members offered. -/
theorem choosePrimary_mem {acts : Bool} {nearest : Option SourcedParticle}
    {confirmed : List SourcedParticle} {other : SourcedParticle}
    (h : (choosePrimary acts nearest confirmed).1 = some other ∨
      other ∈ (choosePrimary acts nearest confirmed).2) :
    nearest = some other ∨ other ∈ confirmed := by
  cases confirmed with
  | nil => simpa [choosePrimary] using h
  | cons first rest =>
      rw [choosePrimary] at h
      split_ifs at h with hacts
      · exact h
      · rcases h with h | h
        · exact Or.inr (Option.some.inj h ▸ List.mem_cons_self)
        · exact Or.inr (List.mem_cons_of_mem _ h)

/-- A pair that the ladder or the update rung may act on has its probe planned, or is settled by the
update answer. -/
theorem chosen_planned {slots' : String → Option SlotVerdict}
    (hrules : rules.offersSubjectPair (some .DIFFERENT) = false)
    (hslots : ∀ id ∈ admitted, slots' id = slots id) {other : SourcedParticle}
    (h : (selectPairs rules pairs slots' admitted probes).primary = some other ∨
      other ∈ (selectPairs rules pairs slots' admitted probes).extras) :
    other.id ∈ plannedIds rules pairs slots admitted ∨
      other.id ∈ (selectPairs rules pairs slots' admitted probes).sameSlot := by
  by_cases hmem : other ∈ (planProbes rules pairs slots admitted).map Prod.fst
  · exact Or.inl (id_mem_plannedIds hmem)
  · refine Or.inr ?_
    rcases choosePrimary_mem h with hnearest | hpool
    · obtain ⟨hnearest, -⟩ := Option.filter_eq_some_iff.1 hnearest
      obtain ⟨hin, hchanges⟩ := settled_of_nearest_not_mem hnearest hmem
      exact mem_sameSlotIds hslots (List.mem_append_left _ (by simp [hnearest])) hin hchanges
    · obtain ⟨hpool, hconfirmed⟩ := List.mem_filter.1 hpool
      rw [(poolConfirmed_of_not_mem hrules hslots hpool hmem probes).2] at hconfirmed
      simp only [Bool.and_eq_true, decide_eq_true_eq] at hconfirmed
      exact hconfirmed.2

/-- A declined pair is one whose probe is planned. -/
theorem declined_planned
    (hadmitted : ∀ id ∈ admitted, id ∈ (planUpdateFirst pairs).map fun p => p.id)
    {other : SourcedParticle} (h : other ∈ declinedPairs pairs probes) :
    other.id ∈ plannedIds rules pairs slots admitted := by
  rcases List.mem_append.1 h with hnearest | hpool
  · obtain ⟨hnearest, hdeclined⟩ := Option.filter_eq_some_iff.1 (Option.mem_toList.1 hnearest)
    by_contra hnot
    have hin := (settled_of_nearest_not_mem hnearest (mt id_mem_plannedIds hnot)).1
    rw [nearestDeclined, preconditionOf_eq_of_mem_admitted hadmitted hin] at hdeclined
    simp at hdeclined
  · obtain ⟨hpool, hdeclined⟩ := List.mem_filter.1 hpool
    simp only [Bool.and_eq_true, decide_eq_true_eq] at hdeclined
    exact id_mem_plannedIds (mem_planProbes_pool hpool (Or.inl hdeclined.1))

/-- **Skipped probes could not have mattered**, under any rules that offer no pair of different slots.
`slots'` are the update answers at the selection: those asked first, and any later ones. -/
theorem skipped_probes_do_not_matter (rules : SlotRules) (pairs : CandidatePairs)
    (slots slots' : String → Option SlotVerdict) (admitted : List String)
    (probes probes' : String → Option Bool)
    (hrules : rules.offersSubjectPair (some .DIFFERENT) = false)
    (hadmitted : ∀ id ∈ admitted, id ∈ (planUpdateFirst pairs).map fun p => p.id)
    (hslots : ∀ id ∈ admitted, slots' id = slots id)
    (hagree : ∀ id ∈ plannedIds rules pairs slots admitted, probes id = probes' id) :
    let chosen := selectPairs rules pairs slots' admitted probes
    let chosen' := selectPairs rules pairs slots' admitted probes'
    chosen'.primary = chosen.primary ∧ chosen'.extras = chosen.extras ∧
      chosen'.declined = chosen.declined ∧ chosen'.sameSlot = chosen.sameSlot ∧
      (chosen'.signal = chosen.signal ∨
        ∃ p, chosen.primary = some p ∧ p.id ∉ plannedIds rules pairs slots admitted) ∧
      (∀ p ∈ chosen.declined, p.id ∈ plannedIds rules pairs slots admitted) ∧
      (∀ p, chosen.primary = some p ∨ p ∈ chosen.extras →
        p.id ∈ plannedIds rules pairs slots admitted ∨ p.id ∈ chosen.sameSlot) ∧
      ((∀ id, probes id = some true → id ∈ plannedIds rules pairs slots admitted) →
        ∀ p, chosen.primary = some p ∧ chosen.signal = true ∨
            p ∈ chosen.extras ∧ probes p.id = some true →
          p.id ∈ plannedIds rules pairs slots admitted) := by
  have hagree' : ∀ p ∈ (planProbes rules pairs slots admitted).map Prod.fst, probes p.id = probes' p.id :=
    fun p hp => hagree p.id (id_mem_plannedIds hp)
  have hchosen : choosePrimary (nearestActs rules pairs slots' admitted probes') (keptNearest pairs probes')
        (pairs.subjectPool.filter (poolConfirmed rules pairs slots' admitted probes')) =
      choosePrimary (nearestActs rules pairs slots' admitted probes) (keptNearest pairs probes)
        (pairs.subjectPool.filter (poolConfirmed rules pairs slots' admitted probes)) := by
    rw [nearestActs_congr hadmitted hslots hagree', keptNearest_congr hadmitted hagree',
      poolConfirmed_congr hrules hslots hagree']
  refine ⟨congrArg Prod.fst hchosen, congrArg Prod.snd hchosen,
    (declinedPairs_congr hadmitted hagree').symm, rfl, ?_, fun p hp => declined_planned hadmitted hp,
    fun p hp => chosen_planned hrules hslots hp, ?_⟩
  · simp only [selectPairs, hchosen]
    cases hprimary : (choosePrimary (nearestActs rules pairs slots' admitted probes)
        (keptNearest pairs probes)
        (pairs.subjectPool.filter (poolConfirmed rules pairs slots' admitted probes))).1 with
    | none => exact Or.inl rfl
    | some p =>
        by_cases hp : p.id ∈ plannedIds rules pairs slots admitted
        · refine Or.inl ?_
          simp [confirmedBy, hagree p.id hp]
        · exact Or.inr ⟨p, rfl, hp⟩
  · rintro honly p (⟨hprimary, hsignal⟩ | ⟨-, hprobe⟩)
    · have hconfirmed : confirmedBy probes p = true := by
        have hany : (selectPairs rules pairs slots' admitted probes).signal =
          (selectPairs rules pairs slots' admitted probes).primary.any (confirmedBy probes) := rfl
        rw [hany, hprimary] at hsignal
        exact hsignal
      refine honly p.id ?_
      cases hp : probes p.id <;> simp_all [confirmedBy]
    · exact honly p.id hprobe

end Decisions

/-! ### A nearest claim that is not probed -/

/-- A claim of its own entry. -/
def sampleClaim (id : String) : SourcedParticle where
  id := id
  content := id

/-- The nearest claim and one pool member, both of which rung 2.5 could act on. -/
def samplePairs : CandidatePairs where
  nearest := some (sampleClaim "near")
  subjectPool := [sampleClaim "pool"]

/-- The nearest claim is an update, and the pool member fills another slot. -/
def sampleSlots (id : String) : Option SlotVerdict :=
  if id = "near" then some .CHANGES else if id = "pool" then some .DIFFERENT else none

theorem skipped_probes_do_not_matter_sample :
    plannedIds .documented samplePairs sampleSlots ["near", "pool"] = [] ∧
      (selectPairs .documented samplePairs sampleSlots ["near", "pool"] fun _ => some true).extras =
        (selectPairs .documented samplePairs sampleSlots ["near", "pool"] fun _ => none).extras :=
  ⟨by decide +kernel,
    (skipped_probes_do_not_matter .documented samplePairs sampleSlots sampleSlots ["near", "pool"]
      (fun _ => none) (fun _ => some true) rfl (by decide +kernel) (fun _ _ => rfl)
      (by decide +kernel)).2.1⟩

/-- A result for a probe that was not planned gives the primary pair a signal. -/
theorem primary_signal_not_planned :
    (samplePairs.pairable.map fun p => p.id).Nodup ∧
      (∀ id ∈ ["near", "pool"], id ∈ (planUpdateFirst samplePairs).map fun p => p.id) ∧
      ¬∀ p, (selectPairs .documented samplePairs sampleSlots ["near", "pool"]
            fun id => if id = "near" then some true else none).primary = some p →
          (selectPairs .documented samplePairs sampleSlots ["near", "pool"]
            fun id => if id = "near" then some true else none).signal = true →
          p.id ∈ plannedIds .documented samplePairs sampleSlots ["near", "pool"] := by
  refine ⟨by decide +kernel, by decide +kernel, fun h => ?_⟩
  exact absurd (h (sampleClaim "near") (by decide +kernel) (by decide +kernel)) (by decide +kernel)

/-! ### The extras -/

section Extras

variable (core : UpdateCore) (winner : SourcedParticle) (winnerEntry : Option SourceEntry)
  (winnerSnapshotId : String) (entries : String → Option SourceEntry)
  (precondition : String → Option PairPrecondition) (updatable revision : List String)

/-- `update_order` of the winner and an extra, dated by the extra's first SOURCE reference. -/
def extraOrder (other : SourcedParticle) : Except UriError (Option ℤ) :=
  match other.sourceRef with
  | none => .ok none
  | some ref =>
      updateOrder core winner winnerEntry (some winnerSnapshotId) other (entries ref.corpusEntryId)
        ref.snapshotId

/-- The order by which an extra is settled: the generation fixes the direction of a revision pair. -/
def settledBy (other : SourcedParticle) (read : Option ℤ) : Option ℤ := do
  let order ← read
  let order := if other.id ∈ revision then 1 else order
  guard (core.newerIsSettled other winner order)
  some order

/-- One round of the loop of `plan_update_extras`, up to the order by which an extra is settled. -/
def settledOrder (other : SourcedParticle) : Except UriError (Option ℤ) :=
  if other.id ∉ updatable ∨ (precondition other.id).getD .RECONCILE ≠ .RECONCILE then .ok none
  else do
    let read ← extraOrder core winner winnerEntry winnerSnapshotId entries other
    return settledBy core winner revision other read

/-- **`plan_update_extras`**: the pairs of a retired claim and the claim that retired it. -/
def planUpdateExtras : List SourcedParticle → Except UriError (List (String × String))
  | [] => .ok []
  | other :: others => do
      let settled ← settledOrder core winner winnerEntry winnerSnapshotId entries precondition
        updatable revision other
      match settled with
      | none => planUpdateExtras others
      | some order =>
          if order > 0 then do
            let demoted ← planUpdateExtras others
            return (other.id, winner.id) :: demoted
          else return [(winner.id, other.id)]

/-- Why a pair is retired: `update_order` or the revision rule makes the claim that retires it the
newer one, and that claim is settled. -/
inductive Retires (other : SourcedParticle) : String × String → Prop
  | extra (hordered :
        extraOrder core winner winnerEntry winnerSnapshotId entries other = .ok (some 1) ∨
        (∃ order, extraOrder core winner winnerEntry winnerSnapshotId entries other =
          .ok (some order)) ∧ other.id ∈ revision)
      (hsettled : core.newerIsSettled other winner 1) : Retires other (other.id, winner.id)
  | winner (hordered :
        extraOrder core winner winnerEntry winnerSnapshotId entries other = .ok (some (-1)))
      (hrevision : other.id ∉ revision) (hsettled : core.newerIsSettled other winner (-1)) :
      Retires other (winner.id, other.id)

variable {core winner winnerEntry winnerSnapshotId entries precondition updatable revision}

/-- The order of an extra is `1` or `-1`. -/
theorem extraOrder_eq {other : SourcedParticle} {order : ℤ}
    (h : extraOrder core winner winnerEntry winnerSnapshotId entries other = .ok (some order)) :
    order = 1 ∨ order = -1 := by
  unfold extraOrder at h
  split at h
  · cases h
  · obtain ⟨_, _, _, _, _, _, _, _, _, _, _, _, _, hsign⟩ := updateOrder_eq_some.1 h
    exact hsign.imp And.right And.right

/-- **An extra is settled in favour of the winner, or the winner in favour of the extra.** -/
theorem retires_of_settledOrder {other : SourcedParticle} {order : ℤ}
    (h : settledOrder core winner winnerEntry winnerSnapshotId entries precondition updatable revision
      other = .ok (some order)) :
    order = 1 ∧ Retires core winner winnerEntry winnerSnapshotId entries revision other
        (other.id, winner.id) ∨
      order = -1 ∧ Retires core winner winnerEntry winnerSnapshotId entries revision other
        (winner.id, other.id) := by
  unfold settledOrder at h
  split_ifs at h
  · cases h
  · obtain ⟨read?, hread, h⟩ := bind_eq_ok.1 h
    have hsettled : settledBy core winner revision other read? = some order := Except.ok.inj h
    simp only [settledBy, Option.bind_eq_bind, Option.bind_eq_some_iff, Option.guard_eq_some',
      exists_const, Option.some.injEq] at hsettled
    obtain ⟨read, rfl, hsettled, rfl⟩ := hsettled
    split_ifs at hsettled ⊢ with hrevision
    · exact Or.inl ⟨rfl, .extra (Or.inr ⟨⟨read, hread⟩, hrevision⟩) hsettled⟩
    · rcases extraOrder_eq hread with rfl | rfl
      · exact Or.inl ⟨rfl, .extra (Or.inl hread) hsettled⟩
      · exact Or.inr ⟨rfl, .winner hread hrevision hsettled⟩

/-- How a run that returns goes on: the first extra is left, is retired, or ends the run. -/
theorem planUpdateExtras_cons {other : SourcedParticle} {others : List SourcedParticle}
    {demoted : List (String × String)}
    (h : planUpdateExtras core winner winnerEntry winnerSnapshotId entries precondition updatable
      revision (other :: others) = .ok demoted) :
    planUpdateExtras core winner winnerEntry winnerSnapshotId entries precondition updatable revision
        others = .ok demoted ∨
      (∃ rest, planUpdateExtras core winner winnerEntry winnerSnapshotId entries precondition
          updatable revision others = .ok rest ∧ demoted = (other.id, winner.id) :: rest ∧
        Retires core winner winnerEntry winnerSnapshotId entries revision other
          (other.id, winner.id)) ∨
      demoted = [(winner.id, other.id)] ∧
        Retires core winner winnerEntry winnerSnapshotId entries revision other
          (winner.id, other.id) := by
  obtain ⟨settled, hsettled, h⟩ := bind_eq_ok.1 h
  cases settled with
  | none => exact Or.inl h
  | some order =>
      rcases retires_of_settledOrder hsettled with ⟨rfl, hretires⟩ | ⟨rfl, hretires⟩
      · obtain ⟨rest, hrest, h⟩ := bind_eq_ok.1 h
        exact Or.inr (Or.inl ⟨rest, hrest, (Except.ok.inj h).symm, hretires⟩)
      · exact Or.inr (Or.inr ⟨(Except.ok.inj h).symm, hretires⟩)

/-- **The run returns** when the order of each extra can be read. -/
theorem exists_planUpdateExtras {others : List SourcedParticle}
    (hread : ∀ other ∈ others, ∃ order,
      extraOrder core winner winnerEntry winnerSnapshotId entries other = .ok order) :
    ∃ demoted, planUpdateExtras core winner winnerEntry winnerSnapshotId entries precondition updatable
      revision others = .ok demoted := by
  induction others with
  | nil => exact ⟨[], rfl⟩
  | cons other others ih =>
      obtain ⟨rest, hrest⟩ := ih fun o ho => hread o (List.mem_cons_of_mem _ ho)
      obtain ⟨order, horder⟩ := hread other List.mem_cons_self
      obtain ⟨settled, hsettled⟩ : ∃ settled, settledOrder core winner winnerEntry winnerSnapshotId
          entries precondition updatable revision other = .ok settled := by
        unfold settledOrder
        split_ifs
        · exact ⟨none, rfl⟩
        · exact ⟨_, bind_eq_ok.2 ⟨order, horder, rfl⟩⟩
      rw [planUpdateExtras, hsettled]
      cases settled with
      | none => exact ⟨rest, hrest⟩
      | some order =>
          by_cases hpositive : order > 0
          · refine ⟨(other.id, winner.id) :: rest, (if_pos hpositive).trans ?_⟩
            rw [hrest]
            rfl
          · exact ⟨[(winner.id, other.id)], if_neg hpositive⟩

/-- **The run retires some extras in favour of the winner, in order, and then perhaps the winner in
favour of one more.** -/
theorem planUpdateExtras_shape {others : List SourcedParticle} {demoted : List (String × String)}
    (h : planUpdateExtras core winner winnerEntry winnerSnapshotId entries precondition updatable
      revision others = .ok demoted) :
    ∃ (retired : List SourcedParticle) (final : Option SourcedParticle),
      (retired ++ final.toList).Sublist others ∧
      demoted = retired.map (fun other => (other.id, winner.id)) ++
          final.toList.map fun other => (winner.id, other.id) := by
  induction others generalizing demoted with
  | nil => exact ⟨[], none, List.Sublist.refl _, (Except.ok.inj h).symm⟩
  | cons other others ih =>
      rcases planUpdateExtras_cons h with hskip | ⟨rest, hrest, rfl, -⟩ | ⟨rfl, -⟩
      · obtain ⟨retired, final, hsub, hrun⟩ := ih hskip
        exact ⟨retired, final, hsub.cons other, hrun⟩
      · obtain ⟨retired, final, hsub, hrun⟩ := ih hrest
        exact ⟨other :: retired, final, hsub.cons_cons other, by rw [hrun]; rfl⟩
      · exact ⟨[], some other, by simp, rfl⟩

/-- Every pair of the run is a retirement of one of the extras. -/
theorem exists_retires {others : List SourcedParticle} {demoted : List (String × String)}
    (h : planUpdateExtras core winner winnerEntry winnerSnapshotId entries precondition updatable
      revision others = .ok demoted) {pair : String × String} (hpair : pair ∈ demoted) :
    ∃ other ∈ others,
      Retires core winner winnerEntry winnerSnapshotId entries revision other pair := by
  induction others generalizing demoted with
  | nil =>
      obtain rfl := Except.ok.inj h
      cases hpair
  | cons other others ih =>
      have hlater : ∀ {rest}, planUpdateExtras core winner winnerEntry winnerSnapshotId entries
          precondition updatable revision others = .ok rest → pair ∈ rest →
            ∃ o ∈ other :: others,
              Retires core winner winnerEntry winnerSnapshotId entries revision o pair := by
        intro rest hrest hmem
        obtain ⟨o, ho, hretires⟩ := ih hrest hmem
        exact ⟨o, List.mem_cons_of_mem _ ho, hretires⟩
      rcases planUpdateExtras_cons h with hskip | ⟨rest, hrest, rfl, hretires⟩ | ⟨rfl, hretires⟩
      · exact hlater hskip hpair
      · rcases List.mem_cons.1 hpair with rfl | hmem
        · exact ⟨other, List.mem_cons_self, hretires⟩
        · exact hlater hrest hmem
      · obtain rfl := List.mem_singleton.1 hpair
        exact ⟨other, List.mem_cons_self, hretires⟩

/-- **Update extras retire each claim at most once**, the winner last, and the run returns when the order
of each of them can be read. -/
theorem planUpdateExtras_retires_once (core : UpdateCore) (winner : SourcedParticle)
    (winnerEntry : Option SourceEntry) (winnerSnapshotId : String) (others : List SourcedParticle)
    (entries : String → Option SourceEntry) (precondition : String → Option PairPrecondition)
    (updatable revision : List String) (hids : (others.map fun other => other.id).Nodup)
    (hwinner : winner.id ∉ others.map fun other => other.id) :
    ((∀ other ∈ others, ∃ order,
        extraOrder core winner winnerEntry winnerSnapshotId entries other = .ok order) →
      ∃ demoted, planUpdateExtras core winner winnerEntry winnerSnapshotId entries precondition
        updatable revision others = .ok demoted) ∧
    ∀ demoted, planUpdateExtras core winner winnerEntry winnerSnapshotId entries precondition
        updatable revision others = .ok demoted →
      (demoted.map Prod.fst).Nodup ∧ (∀ pair ∈ demoted.dropLast, pair.1 ≠ winner.id) ∧
      (demoted.Pairwise fun earlier later => later.2 ≠ earlier.1) ∧
      (∀ pair ∈ demoted, pair.1 ≠ winner.id → pair.2 = winner.id) ∧
      (∀ pair ∈ demoted, ∃ other ∈ others,
        Retires core winner winnerEntry winnerSnapshotId entries revision other pair) ∧
      ∀ pair ∈ demoted, pair.1 = winner.id → pair.2 ∉ revision := by
  refine ⟨exists_planUpdateExtras, fun demoted hplan => ?_⟩
  obtain ⟨retired, final, hsub, hrun⟩ := planUpdateExtras_shape hplan
  have hdistinct : ((retired ++ final.toList).map fun other => other.id).Nodup :=
    hids.sublist (hsub.map _)
  have hne : ∀ other ∈ retired ++ final.toList, other.id ≠ winner.id := fun other hother hsame =>
    hwinner (List.mem_map.2 ⟨other, hsub.subset hother, hsame⟩)
  have hfirst : (retired.map fun other => other.id).Nodup := by
    rw [List.map_append] at hdistinct
    exact hdistinct.of_append_left
  refine ⟨?_, ?_, ?_, fun pair hpair hother => ?_, fun pair => exists_retires hplan,
    fun pair hpair hsame => ?_⟩
  · -- the ids retired are those of distinct extras, and the winner's
    rw [hrun, List.map_append, List.map_map, List.map_map, List.nodup_append]
    refine ⟨hfirst, ?_, ?_⟩
    · cases final <;> simp
    · intro id hid id' hid' hsame
      obtain ⟨other, hother, rfl⟩ := List.mem_map.1 hid
      obtain ⟨_, -, rfl⟩ := List.mem_map.1 hid'
      exact hne other (List.mem_append_left _ hother) hsame
  · intro pair hpair
    have hretired : pair ∈ retired.map fun other => (other.id, winner.id) := by
      rw [hrun] at hpair
      cases final with
      | none => simpa using List.dropLast_subset _ hpair
      | some last => simpa [List.dropLast_append] using hpair
    obtain ⟨other, hother, rfl⟩ := List.mem_map.1 hretired
    exact hne other (List.mem_append_left _ hother)
  · rw [hrun, List.pairwise_append, List.pairwise_map]
    refine ⟨?_, ?_, ?_⟩
    · exact hfirst.of_map.imp_of_mem fun hother _ _ =>
        (hne _ (List.mem_append_left _ hother)).symm
    · cases final <;> simp
    · intro pair hpair pair' hpair' hsame
      obtain ⟨other, hother, rfl⟩ := List.mem_map.1 hpair
      obtain ⟨last, hlast, rfl⟩ := List.mem_map.1 hpair'
      rw [List.map_append, List.nodup_append] at hdistinct
      exact hdistinct.2.2 other.id (List.mem_map_of_mem hother) last.id (List.mem_map_of_mem hlast)
        hsame.symm
  · obtain ⟨other, -, hretires⟩ := exists_retires hplan hpair
    cases hretires with
    | extra => rfl
    | winner => exact absurd rfl hother
  · obtain ⟨other, hother, hretires⟩ := exists_retires hplan hpair
    cases hretires with
    | extra => exact absurd (List.mem_map.2 ⟨other, hother, hsame⟩) hwinner
    | winner hordered hrevision => exact hrevision

end Extras

/-- The newer of two claims of one entry retires the older one. -/
theorem planUpdateExtras_retires_once_notes :
    planUpdateExtras plainCore (extractedFrom "new" "s2") (some notesEntry) "s2"
        (fun id => if id = "notes" then some notesEntry else none) (fun _ => none) ["old"] []
        [extractedFrom "old" "s1"] = .ok [("old", "new")] ∧
      ([("old", "new")].map Prod.fst).Nodup := by
  have hplan : planUpdateExtras plainCore (extractedFrom "new" "s2") (some notesEntry) "s2"
      (fun id => if id = "notes" then some notesEntry else none) (fun _ => none) ["old"] []
      [extractedFrom "old" "s1"] = .ok [("old", "new")] := by decide +kernel
  exact ⟨hplan, ((planUpdateExtras_retires_once plainCore (extractedFrom "new" "s2")
    (some notesEntry) "s2" [extractedFrom "old" "s1"]
    (fun id => if id = "notes" then some notesEntry else none) (fun _ => none) ["old"] []
    (by decide +kernel) (by decide +kernel)).2 _ hplan).1⟩

end PairSelection

end ParticlesEngine
