/-
**Suppression lands on live claims.**

The index that a pass suppresses by is built before the lock and kept up by the pass's own inserts
only.  It answers for the store as long as nothing else changes the twins of the candidates to come:
this module says which commits and which turns spare them, and proves that in a run of such steps
every candidate is suppressed exactly when it has a live twin, and folded only into live claims.

Main definitions:

* `IsTwin` — an ACTIVE row that states a candidate's claim;
* `TurnOk` — the property, at one turn;
* `Ready` — the index answers for the store, as far as one candidate is concerned;
* `Spares`, `Spared` — a step that leaves the twins of a later candidate to the index, and a run of
  such steps;
* `Prepared` — a pass whose index answers for its candidates when it is built.

Main results:

* `ready_step` — **a step that spares a candidate keeps the index ready for it**;
* `suppression_live_of_spared` — **every turn of a spared run is right**;
* `not_turnOk_retiredTwin` — a twin retired between the build and the lock is suppressed into.
-/

import ParticlesEngine.WriteLoop

set_option relaxedAutoImplicit false
set_option autoImplicit false

open Runs

namespace ParticlesEngine

/-! ### The property -/

/-- The row is an ACTIVE claim outside the supersede set that passes the index's tests and has the
candidate's key; the tests are on both sides. -/
def IsTwin (core : CorePackage) (supersedeIds : List String) (p : Particle)
    (row : ParticleRow) : Prop :=
  row.model.status = .ACTIVE ∧ row.id ∉ supersedeIds ∧
    core.isSuppressionEligible row.model = true ∧ core.isSuppressionEligible p = true ∧
    core.particleKey row.model = core.particleKey p

instance (core : CorePackage) (supersedeIds : List String) (p : Particle) (row : ParticleRow) :
    Decidable (IsTwin core supersedeIds p row) := by
  unfold IsTwin
  infer_instance

/-- The particle that a turn folds its candidate's provenance into, by suppression or by a carry. -/
def foldTarget (pass : WritePass) (st : WriteState) (t : Turn) : Option String :=
  match pass.routeTurn st t with
  | (.SUPPRESS, some target) => some target.id
  | _ => (pass.carriedInto st t).map Particle.id

/-- **The property at one turn**: suppressed if and only if there is a live twin, and folded only into
what is ACTIVE. -/
def TurnOk (pass : WritePass) (st : WriteState) (t : Turn) : Prop :=
  ((pass.routeTurn st t).1 = .SUPPRESS ↔ ∃ row ∈ st.db.store.particles.rows,
    IsTwin pass.env.core pass.supersedeIds t.particle row) ∧
  ∀ id ∈ foldTarget pass st t, ∃ row ∈ st.db.store.particles.rows,
    row.id = id ∧ row.model.status = .ACTIVE

instance (pass : WritePass) (st : WriteState) (t : Turn) : Decidable (TurnOk pass st t) := by
  unfold TurnOk
  infer_instance

/-! ### The index, as far as one candidate is concerned -/

/-- What the index holds for a candidate is a live twin; where it holds nothing there is none; and
the claim that the candidate restates is ACTIVE. -/
structure Ready (pass : WritePass) (st : WriteState) (t : Turn) : Prop where
  excludes : st.dupIndex.excludeIds = pass.supersedeIds
  held : ∀ q ∈ st.dupIndex.find pass.env.core t.particle,
    ∃ row, st.db.rows q.id = some row ∧ IsTwin pass.env.core pass.supersedeIds t.particle row
  none_held : st.dupIndex.find pass.env.core t.particle = none →
    ∀ id row, st.db.rows id = some row →
      ¬ IsTwin pass.env.core pass.supersedeIds t.particle row
  carried : ∀ earlier ∈ t.carried,
    ∃ row, st.db.rows earlier.id = some row ∧ row.model.status = .ACTIVE

section Property

variable {pass : WritePass} {st : WriteState} {t : Turn}

theorem fst_routeTurn_eq_suppress :
    (pass.routeTurn st t).1 = .SUPPRESS ↔
      (st.dupIndex.find pass.env.core t.particle).isSome = true := by
  rw [Option.isSome_iff_exists]
  constructor
  · intro h
    have hroute : pass.routeTurn st t = (.SUPPRESS, (pass.routeTurn st t).2) := Prod.ext h rfl
    obtain ⟨q, -, hq⟩ := routeParticle_eq_suppress.1 hroute
    exact ⟨q, hq⟩
  · rintro ⟨q, hq⟩
    have hroute : pass.routeTurn st t = (.SUPPRESS, some q) :=
      routeParticle_eq_suppress.2 ⟨q, rfl, hq⟩
    rw [hroute]

/-- **Where the index is ready for a candidate, its turn is right.** -/
theorem Ready.turnOk (h : Ready pass st t) : TurnOk pass st t := by
  refine ⟨?_, fun id hid => ?_⟩
  · rw [fst_routeTurn_eq_suppress]
    constructor
    · intro hsome
      obtain ⟨q, hq⟩ := Option.isSome_iff_exists.1 hsome
      obtain ⟨row, hrow, htwin⟩ := h.held q hq
      exact ⟨row, (ParticleTable.get?_eq_some.1 hrow).1, htwin⟩
    · rintro ⟨row, hrow, htwin⟩
      by_contra hnone
      exact h.none_held (by simpa using hnone) row.id row (ParticleTable.get?_id hrow) htwin
  · have hmem : ∀ {id : String}, (∃ row, st.db.rows id = some row ∧ row.model.status = .ACTIVE) →
        ∃ row ∈ st.db.store.particles.rows, row.id = id ∧ row.model.status = .ACTIVE := by
      rintro id ⟨row, hrow, hactive⟩
      obtain ⟨hmem, hid⟩ := ParticleTable.get?_eq_some.1 hrow
      exact ⟨row, hmem, hid, hactive⟩
    refine hmem ?_
    unfold foldTarget at hid
    split at hid
    · next target hroute =>
        -- suppressed: into what the index holds
        obtain rfl := Option.some.inj hid
        obtain ⟨q, hq, hfind⟩ := routeParticle_eq_suppress.1 hroute
        obtain rfl := Option.some.inj hq
        obtain ⟨row, hrow, htwin⟩ := h.held target hfind
        exact ⟨row, hrow, htwin.1⟩
    · obtain ⟨earlier, hearlier, rfl⟩ := Option.map_eq_some_iff.1 hid
      unfold WritePass.carriedInto at hearlier
      split_ifs at hearlier
      exact h.carried earlier hearlier

end Property

/-! ### Steps that spare a candidate -/

/-- The ids that a turn retires: what the ladder demotes, and the extras that lose. -/
def turnRetires (pass : WritePass) (st : WriteState) (u : Turn) : List String :=
  match pass.carriedInto st u, pass.routeUnderLock st u with
  | none, (.LADDER, some target) =>
      let plan := pass.ladderPlan st u target
      let retired := if plan.cacheDropExisting then st.retired ++ [target.id] else st.retired
      (plan.demote.map Prod.fst).toList ++ (pass.ladderExtras st u plan retired).map Prod.fst
  | _, _ => []

/-- The particle that a turn registers in the index. -/
def turnRegisters (pass : WritePass) (st : WriteState) (u : Turn) : Option Particle :=
  match pass.carriedInto st u, pass.routeUnderLock st u with
  | none, (.LADDER, some target) => (pass.ladderPlan st u target).result
  | none, (.INSERT, _) => some u.particle
  | _, _ => none

/-- **A step that spares a later candidate.**  Another writer's change leaves the twin that the index
holds a twin, the restated claim ACTIVE, and makes no twin where the index holds none.  A turn retires
neither of the two, and registers under the candidate's key only what it leaves ACTIVE. -/
def Spares (pass : WritePass) (st : WriteState) (t : Turn) : WritePass.WriteAction → Prop
  | .lock => True
  | .other c =>
      (∀ q ∈ st.dupIndex.find pass.env.core t.particle, q.id ∈ st.db.writtenIds c →
        ∃ row ∈ st.db.writtenRows c, row.id = q.id ∧
          IsTwin pass.env.core pass.supersedeIds t.particle row) ∧
      (st.dupIndex.find pass.env.core t.particle = none → ∀ row ∈ st.db.writtenRows c,
        ¬ IsTwin pass.env.core pass.supersedeIds t.particle row) ∧
      ∀ earlier ∈ t.carried, earlier.id ∈ st.db.writtenIds c →
        ∃ row ∈ st.db.writtenRows c, row.id = earlier.id ∧ row.model.status = .ACTIVE
  | .turn u =>
      (∀ q ∈ st.dupIndex.find pass.env.core t.particle, q.id ∉ turnRetires pass st u) ∧
      (st.dupIndex.find pass.env.core t.particle = none → ∀ r ∈ turnRegisters pass st u,
        (r.status = .ACTIVE ∧ r.id ∉ turnRetires pass st u) ∨
          ¬ pass.env.core.isSuppressionEligible r = true ∨
          pass.env.core.particleKey r ≠ pass.env.core.particleKey t.particle) ∧
      ∀ earlier ∈ t.carried, earlier.id ∉ turnRetires pass st u

/-- **Every step of a run spares every candidate that is still to come.** -/
def Spared (pass : WritePass) : WriteState → List WritePass.WriteAction → Prop
  | _, [] => True
  | st, action :: actions =>
      (∀ t ∈ WritePass.turnsOf actions, Spares pass st t action) ∧
        match pass.step st action with
        | none => True
        | some st' => Spared pass st' actions

/-! ### What a turn does -/

/-- The two rows state one claim, in one status. -/
structure SameClaim (core : CorePackage) (row row' : ParticleRow) : Prop where
  id : row'.id = row.id
  status : row'.model.status = row.model.status
  eligible : core.isSuppressionEligible row'.model = core.isSuppressionEligible row.model
  key : core.particleKey row'.model = core.particleKey row.model

section SameClaim

variable {core : CorePackage} {row row' row'' : ParticleRow}

theorem SameClaim.refl (row : ParticleRow) : SameClaim core row row := ⟨rfl, rfl, rfl, rfl⟩

theorem SameClaim.trans (h : SameClaim core row row') (h' : SameClaim core row' row'') :
    SameClaim core row row'' :=
  ⟨h'.id.trans h.id, h'.status.trans h.status, h'.eligible.trans h.eligible, h'.key.trans h.key⟩

theorem SameClaim.isTwin_iff (h : SameClaim core row row') {supersedeIds : List String}
    {p : Particle} : IsTwin core supersedeIds p row' ↔ IsTwin core supersedeIds p row := by
  rw [IsTwin, IsTwin, h.id, h.status, h.eligible, h.key]

/-- More references leave the claim. -/
theorem sameClaim_foldl_noteRef (refs : List ProvenanceRef) :
    ∀ row : ParticleRow, SameClaim core row (refs.foldl ParticleRow.noteRef row) := by
  induction refs with
  | nil => exact SameClaim.refl
  | cons ref refs ih =>
      intro row
      refine SameClaim.trans ?_ (ih (row.noteRef ref))
      unfold ParticleRow.noteRef
      split_ifs <;> exact ⟨rfl, rfl, rfl, rfl⟩

/-- So does the annotation of a folded restatement. -/
theorem sameClaim_withProperty (row : ParticleRow) (value : String) :
    SameClaim core row (row.withProperty RESTATED_AS_KEY value) where
  id := rfl
  status := rfl
  eligible := by
    simp [CorePackage.isSuppressionEligible, ParticleRow.withProperty, core.meta_restated,
      core.asserted_restated]
  key := by
    simp [CorePackage.particleKey, ParticleRow.withProperty, core.holder_restated]

end SameClaim

/-- **What a turn does to the rows and to the index.** -/
structure TurnEffect (pass : WritePass) (st : WriteState) (u : Turn) (st' : WriteState) : Prop where
  index : st'.dupIndex = st.dupIndex.addAll pass.env.core (turnRegisters pass st u)
  kept : ∀ id row, st.db.rows id = some row → id ∉ turnRetires pass st u →
    ∃ row', st'.db.rows id = some row' ∧ SameClaim pass.env.core row row'
  retired : ∀ id ∈ turnRetires pass st u, ∀ row', st'.db.rows id = some row' →
    row'.model.status ≠ .ACTIVE
  born : ∀ id row', st.db.rows id = none → st'.db.rows id = some row' →
    id ∉ turnRetires pass st u → row'.model.status = .ACTIVE →
    pass.env.core.isSuppressionEligible row'.model = true →
    turnRegisters pass st u = some row'.model
  registered : ∀ r ∈ turnRegisters pass st u, r.status = .ACTIVE →
    r.id ∉ turnRetires pass st u → ∃ row', st'.db.rows r.id = some row' ∧ row'.model = r

section Effects

variable {pass : WritePass} {st st' : WriteState} {u : Turn}

/-- A turn that only notes something on a row. -/
theorem turnEffect_of_noted {store : Store} {target : String} {f : ParticleRow → ParticleRow}
    (hretires : turnRetires pass st u = []) (hregisters : turnRegisters pass st u = none)
    (hf : ∀ row, SameClaim pass.env.core row (f row))
    (hget : ∀ id, store.get? id =
      if target = id then (st.db.store.get? id).map f else st.db.store.get? id) :
    TurnEffect pass st u (st.setStore store) := by
  refine ⟨by rw [hregisters]; rfl, fun id row hrow _ => ?_, by simp [hretires],
    fun id row' hnone hrow' => ?_, by simp [hregisters]⟩
  · change ∃ row', store.get? id = some row' ∧ _
    change st.db.store.get? id = some row at hrow
    rw [hget, hrow]
    by_cases hid : target = id
    · rw [if_pos hid, Option.map_some]
      exact ⟨f row, rfl, hf row⟩
    · rw [if_neg hid]
      exact ⟨row, rfl, SameClaim.refl row⟩
  · change store.get? id = some row' at hrow'
    change st.db.store.get? id = none at hnone
    rw [hget, hnone] at hrow'
    simp at hrow'

/-- A turn that inserts one particle. -/
theorem turnEffect_of_insert {store : Store} {p : Particle} {embedding : Option Embedding}
    (hretires : turnRetires pass st u = []) (hinsert : pass.insert st p embedding = .ok store)
    (hindex : st'.dupIndex = st.dupIndex.addAll pass.env.core (turnRegisters pass st u))
    (hstore : st'.db.store = store)
    (hregisters : turnRegisters pass st u = some p ∨ (turnRegisters pass st u = none ∧
      ¬ pass.env.core.isSuppressionEligible p = true)) :
    TurnEffect pass st u st' := by
  simp only [WritePass.insert, insertValidated, bind_eq_ok] at hinsert
  obtain ⟨-, -, hinsert⟩ := hinsert
  obtain ⟨-, -, row, hmodel, -, -, -, hget⟩ := get?_insertParticle hinsert
  have hrows : ∀ id, st'.db.rows id = if p.id = id then some row else st.db.rows id := by
    intro id
    rw [Database.rows, hstore, hget]
    rfl
  refine ⟨hindex, fun id row₀ hrow₀ _ => ?_, by simp [hretires], fun id row' hid hrow' _ _ he => ?_,
    fun r hr _ _ => ?_⟩
  · have hne : p.id ≠ id := (get?_insertParticle_of_some hinsert hrow₀).1
    exact ⟨row₀, by rw [hrows, if_neg hne, hrow₀], SameClaim.refl row₀⟩
  · rw [hrows] at hrow'
    split_ifs at hrow' with heq
    · obtain rfl := Option.some.inj hrow'
      rcases hregisters with hregisters | ⟨-, hnot⟩
      · rw [hregisters, hmodel]
      · rw [hmodel] at he
        exact absurd he hnot
    · rw [hid] at hrow'
      cases hrow'
  · rcases hregisters with hregisters | ⟨hregisters, -⟩
    · rw [hregisters] at hr
      obtain rfl := Option.some.inj hr
      exact ⟨row, by rw [hrows, if_pos rfl], hmodel⟩
    · rw [hregisters] at hr
      cases hr

/-- A turn that applies a plan, and then retires some more. -/
theorem turnEffect_of_plan (plan : ConflictWritePlan) (extras : List String) {store : Store}
    {now : Instant}
    (hretires : turnRetires pass st u = (plan.demote.map Prod.fst).toList ++ extras)
    (happlied : PlanApplied now plan st.db.store store)
    (hextras : (∀ id, id ∉ extras → st'.db.rows id = store.get? id) ∧
      ∀ id ∈ extras, ∀ row, st'.db.rows id = some row → row.model.status ≠ .ACTIVE)
    (hindex : st'.dupIndex = st.dupIndex.addAll pass.env.core (turnRegisters pass st u))
    (hwrapper : ∀ w ∈ plan.wrapper, w.status ≠ .ACTIVE)
    (hborn : ∀ p ∈ plan.insert, p.status = .ACTIVE → (∀ d ∈ plan.demote, d.1 ≠ p.id) →
      turnRegisters pass st u = some p)
    (hregistered : ∀ r ∈ turnRegisters pass st u, r.status = .ACTIVE → plan.insert = some r) :
    TurnEffect pass st u st' := by
  -- outside what the turn retires, the plan's own writes are what is left
  have hstands : ∀ id, id ∉ turnRetires pass st u →
      (∀ d ∈ plan.demote, d.1 ≠ id) ∧ st'.db.rows id = store.get? id := by
    intro id hid
    rw [hretires, List.mem_append, not_or] at hid
    refine ⟨?_, hextras.1 id hid.2⟩
    rintro d hd rfl
    exact hid.1 (by simp [Option.mem_def.1 hd])
  refine ⟨hindex, fun id row hrow hid => ?_, fun id hid row' hrow' => ?_,
    fun id row' hnone hrow' hid hactive _ => ?_, fun r hr hactive hid => ?_⟩
  · obtain ⟨hdemote, hstore⟩ := hstands id hid
    have hfound : ∀ {k : String}, st.db.store.get? k = none → k ≠ id := by
      rintro k hk rfl
      exact absurd (hk.symm.trans hrow) (by simp)
    refine ⟨row, ?_, SameClaim.refl row⟩
    rw [hstore, happlied.other id (fun p hp => hfound (happlied.fresh p hp)) hdemote
      (fun w hw => hfound (happlied.recorded w hw).1)]
    exact hrow
  · by_cases hlater : id ∈ extras
    · exact hextras.2 id hlater row' hrow'
    · -- demoted by the plan
      rw [hretires, List.mem_append, or_iff_left hlater, Option.mem_toList,
        Option.map_eq_some_iff] at hid
      obtain ⟨d, hd, rfl⟩ := hid
      rw [hextras.1 d.1 hlater] at hrow'
      by_cases hinsert : ∃ p ∈ plan.insert, p.id = d.1
      · obtain ⟨p, hp, hpd⟩ := hinsert
        obtain ⟨row, -, -, -, hrow⟩ := happlied.inserted p hp
        rw [← hpd, hrow d hd hpd.symm] at hrow'
        obtain rfl := Option.some.inj hrow'
        simp [ParticleRow.withStatus]
      · obtain ⟨row, -, -, hrow⟩ := happlied.demoted d hd
          (fun p hp hpd => hinsert ⟨p, hp, hpd⟩)
        rw [hrow] at hrow'
        obtain rfl := Option.some.inj hrow'
        simp [ParticleRow.withStatus]
  · obtain ⟨hdemote, hstore⟩ := hstands id hid
    rw [hstore] at hrow'
    have hnew : (∃ p ∈ plan.insert, p.id = id) ∨ ∃ w ∈ plan.wrapper, w.id = id := by
      by_contra hnot
      push Not at hnot
      rw [happlied.other id hnot.1 hdemote hnot.2] at hrow'
      exact absurd (hnone.symm.trans hrow') (by simp)
    rcases hnew with ⟨p, hp, rfl⟩ | ⟨w, hw, rfl⟩
    · obtain ⟨row, hmodel, -, hrow, -⟩ := happlied.inserted p hp
      rw [hrow hdemote] at hrow'
      obtain rfl := Option.some.inj hrow'
      rw [hmodel] at hactive ⊢
      exact hborn p hp hactive hdemote
    · obtain ⟨-, row, hmodel, -, hrow⟩ := happlied.recorded w hw
      rw [hrow] at hrow'
      obtain rfl := Option.some.inj hrow'
      rw [hmodel] at hactive
      exact absurd hactive (hwrapper w hw)
  · obtain ⟨hdemote, hstore⟩ := hstands r.id hid
    obtain ⟨row, hmodel, -, hrow, -⟩ := happlied.inserted r (hregistered r hr hactive)
    exact ⟨row, hstore.trans (hrow hdemote), hmodel⟩

/-- Nothing off the conflict surface is eligible. -/
theorem not_eligible_of_unchecked {target : Option Particle}
    (hroute : pass.routeUnderLock st u = (.UNCHECKED, target)) :
    ¬ pass.env.core.isSuppressionEligible u.particle = true := by
  unfold WritePass.routeUnderLock at hroute
  cases hlate : pass.foundLate st u with
  | some late =>
      rw [hlate] at hroute
      cases hroute
  | none =>
      rw [hlate] at hroute
      change routeParticle .. = _ at hroute
      rcases routeParticle_cases pass.env.core u.particle st.dupIndex st.retiredIndex u.primary
        (st.retired ++ st.lapsedIds) with
        ⟨hskip, -⟩ | ⟨twin, -, hresult⟩ | ⟨-, twin, -, hresult⟩ | ⟨-, -, hresult | ⟨c, -, hresult⟩⟩
      · rw [CorePackage.skipsConflictResolution] at hskip
        simp [CorePackage.isSuppressionEligible, hskip]
      all_goals
        rw [hresult] at hroute
        cases hroute

/-- A turn of the ladder. -/
theorem turnEffect_ladder {target : Particle} (hcarried : pass.carriedInto st u = none)
    (hroute : pass.routeUnderLock st u = (.LADDER, some target))
    (hturn : pass.turnLadder st u target = .ok st') : TurnEffect pass st u st' := by
  have hregisters : turnRegisters pass st u = (pass.ladderPlan st u target).result := by
    simp only [turnRegisters, hcarried, hroute]
  simp only [WritePass.turnLadder, bind_eq_ok] at hturn
  obtain ⟨s, happly, store, hextras, hst⟩ := hturn
  obtain rfl := Except.ok.inj hst
  refine turnEffect_of_plan (pass.ladderPlan st u target) _ ?_
    (get?_applyConflictPlan happly) (get?_applyUpdateExtras hextras) ?_ ?_ ?_ ?_
  · simp only [turnRetires, hcarried, hroute]
  · rw [hregisters]
  · exact fun w hw => by simp [status_wrapper_planConflictWrites hw]
  · intro p hp hactive hdemote
    rw [hregisters]
    exact result_planConflictWrites_of_insert hp hactive hdemote
  · rw [hregisters]
    exact fun r hr => insert_planConflictWrites_of_result hr

/-- **What a turn does.** -/
theorem turnEffect (hturn : pass.turn st u = .ok st') : TurnEffect pass st u st' := by
  unfold WritePass.turn at hturn
  cases hcarried : pass.carriedInto st u with
  | some earlier =>
      rw [hcarried] at hturn
      obtain rfl := Except.ok.inj hturn
      refine turnEffect_of_noted (by simp only [turnRetires, hcarried])
        (by simp only [turnRegisters, hcarried]) (fun row => ?_)
        (get?_foldRestatement st.db.store u earlier)
      dsimp only
      split_ifs
      · exact (sameClaim_foldl_noteRef _ row).trans (sameClaim_withProperty _ _)
      · exact sameClaim_foldl_noteRef _ row
  | none =>
      rw [hcarried] at hturn
      replace hturn : pass.turnRouted st u = .ok st' := hturn
      unfold WritePass.turnRouted at hturn
      split at hturn
      · next target hroute =>
          obtain rfl := Except.ok.inj hturn
          exact turnEffect_of_noted (by simp only [turnRetires, hcarried, hroute])
            (by simp only [turnRegisters, hcarried, hroute]) (sameClaim_foldl_noteRef _)
            (get?_appendProvenanceRefs target.id _ st.db.store)
      · next twin hroute =>
          have hretires : turnRetires pass st u = [] := by
            simp only [turnRetires, hcarried, hroute]
          have hregisters : turnRegisters pass st u = none := by
            simp only [turnRegisters, hcarried, hroute]
          rw [bind_eq_ok] at hturn
          obtain ⟨held, hheld, hst⟩ := hturn
          obtain rfl := Except.ok.inj hst
          rcases holdRetiredReassertion_eq_ok hheld with ⟨-, rfl⟩ | ⟨-, store, happly, rfl⟩
          · -- an open hold takes the observation
            exact turnEffect_of_noted hretires hregisters (sameClaim_foldl_noteRef _)
              (get?_appendProvenanceRefs twin.id _ st.db.store)
          · refine turnEffect_of_plan
              (planRetiredHold pass.records u.recordId twin u.particle pass.trigger) []
              hretires (get?_applyConflictPlan happly)
              ⟨fun _ _ => rfl, by simp⟩ (by rw [hregisters]; rfl) ?_ ?_ (by simp [hregisters])
            · intro w hw
              obtain rfl := Option.some.inj hw
              simp [pass.records.status_build]
            · intro p hp hactive _
              obtain rfl := Option.some.inj hp
              cases hactive
      · next target hroute => exact turnEffect_ladder hcarried hroute hturn
      · next target hroute =>
          rw [bind_eq_ok] at hturn
          obtain ⟨store, hinsert, hst⟩ := hturn
          obtain rfl := Except.ok.inj hst
          have hregisters : turnRegisters pass st u = some u.particle := by
            simp only [turnRegisters, hcarried, hroute]
          exact turnEffect_of_insert (by simp only [turnRetires, hcarried, hroute]) hinsert
            (by rw [hregisters]; rfl) rfl (Or.inl hregisters)
      · next target hroute =>
          rw [bind_eq_ok] at hturn
          obtain ⟨store, hinsert, hst⟩ := hturn
          obtain rfl := Except.ok.inj hst
          have hregisters : turnRegisters pass st u = none := by
            simp only [turnRegisters, hcarried, hroute]
          refine turnEffect_of_insert (by simp only [turnRetires, hcarried, hroute]) hinsert
            (by rw [hregisters]; rfl) rfl (Or.inr ⟨hregisters, ?_⟩)
          exact not_eligible_of_unchecked hroute
      · cases hturn

end Effects

/-! ### Steps keep the index ready -/

section Steps

variable {pass : WritePass} {st st' : WriteState} {t u : Turn}

theorem isTwin_congr {core : CorePackage} {supersedeIds : List String} {p : Particle}
    {row row' : ParticleRow} (h : row.model = row'.model) :
    IsTwin core supersedeIds p row ↔ IsTwin core supersedeIds p row' := by
  unfold IsTwin ParticleRow.id
  rw [h]

/-- A turn that spares a candidate keeps the index ready for it. -/
theorem ready_turn (h : Ready pass st t) (hspares : Spares pass st t (.turn u))
    (heffect : TurnEffect pass st u st') : Ready pass st' t := by
  obtain ⟨hheld, hregister, hcarry⟩ := hspares
  have hfinds : ∀ q, st'.dupIndex.find pass.env.core t.particle = some q ↔ _ := fun q => by
    rw [heffect.index, DuplicateIndex.find_addAll_eq_some]
  refine ⟨?_, fun q hq => ?_, fun hnone id row' hrow' htwin => ?_, fun earlier hearlier => ?_⟩
  · rw [heffect.index, DuplicateIndex.excludeIds_addAll, h.excludes]
  · rcases (hfinds q).1 hq with hfind | ⟨hfind, hr, hexcluded, heligible, heligible', hkey⟩
    · -- held before, and spared
      obtain ⟨row, hrow, htwin⟩ := h.held q hfind
      obtain ⟨row', hrow', hsame⟩ := heffect.kept q.id row hrow (hheld q hfind)
      exact ⟨row', hrow', hsame.isTwin_iff.2 htwin⟩
    · -- registered by this turn
      rcases hregister hfind q hr with ⟨hactive, hstays⟩ | hnot | hnot
      · obtain ⟨row', hrow', hmodel⟩ := heffect.registered q hr hactive hstays
        rw [h.excludes] at hexcluded
        refine ⟨row', hrow', ?_⟩
        rw [IsTwin, ParticleRow.id, hmodel]
        exact ⟨hactive, hexcluded, heligible, heligible', hkey⟩
      · exact absurd heligible hnot
      · exact absurd hkey hnot
  · -- a twin is neither kept nor born where the index holds nothing
    have hnothing : ∀ q, ¬ _ := fun q hq => by
      rw [(hfinds q).2 hq] at hnone
      cases hnone
    have hfind : st.dupIndex.find pass.env.core t.particle = none :=
      Option.eq_none_iff_forall_ne_some.2 fun q hq => hnothing q (Or.inl hq)
    by_cases hretired : id ∈ turnRetires pass st u
    · exact heffect.retired id hretired row' hrow' htwin.1
    · cases hrow : st.db.rows id with
      | some row =>
          obtain ⟨row'', hrow'', hsame⟩ := heffect.kept id row hrow hretired
          obtain rfl := Option.some.inj (hrow''.symm.trans hrow')
          exact h.none_held hfind id row hrow (hsame.isTwin_iff.1 htwin)
      | none =>
          obtain ⟨hactive, hexcluded, heligible, heligible', hkey⟩ := htwin
          have hr := heffect.born id row' hrow hrow' hretired hactive heligible
          rw [← h.excludes] at hexcluded
          exact hnothing row'.model
            (Or.inr ⟨hfind, hr, hexcluded, heligible, heligible', hkey⟩)
  · obtain ⟨row, hrow, hactive⟩ := h.carried earlier hearlier
    obtain ⟨row', hrow', hsame⟩ := heffect.kept earlier.id row hrow (hcarry earlier hearlier)
    exact ⟨row', hrow', hsame.status.trans hactive⟩

/-- So does another writer's change that spares it. -/
theorem ready_other {c : Database.Commit} {db : Database} (h : Ready pass st t)
    (hspares : Spares pass st t (.other c)) (hcommit : st.db.commit c = some db) :
    Ready pass { st with db := db } t := by
  obtain ⟨hheld, hborn, hcarry⟩ := hspares
  obtain ⟨hother, hwritten, hfrom⟩ := Database.rows_commit hcommit
  refine ⟨h.excludes, fun q hq => ?_, fun hnone id row' hrow' htwin => ?_, fun earlier hearlier => ?_⟩
  · by_cases hid : q.id ∈ st.db.writtenIds c
    · obtain ⟨row, hrow, hrowid, htwin⟩ := hheld q hq hid
      obtain ⟨row', hrow', hmodel⟩ := hwritten row hrow
      exact ⟨row', hrowid ▸ hrow', (isTwin_congr hmodel).2 htwin⟩
    · obtain ⟨row, hrow, htwin⟩ := h.held q hq
      exact ⟨row, (hother q.id hid).trans hrow, htwin⟩
  · by_cases hid : id ∈ st.db.writtenIds c
    · obtain ⟨row, hrow, hmodel⟩ := hfrom id hid row' hrow'
      exact hborn hnone row hrow ((isTwin_congr hmodel).2 htwin)
    · exact h.none_held hnone id row' ((hother id hid).symm.trans hrow') htwin
  · by_cases hid : earlier.id ∈ st.db.writtenIds c
    · obtain ⟨row, hrow, hrowid, hactive⟩ := hcarry earlier hearlier hid
      obtain ⟨row', hrow', hmodel⟩ := hwritten row hrow
      exact ⟨row', hrowid ▸ hrow', hmodel ▸ hactive⟩
    · obtain ⟨row, hrow, hactive⟩ := h.carried earlier hearlier
      exact ⟨row, (hother earlier.id hid).trans hrow, hactive⟩

/-- **A step that spares a candidate keeps the index ready for it.** -/
theorem ready_step {action : WritePass.WriteAction} (h : Ready pass st t)
    (hspares : Spares pass st t action) (hstep : pass.step st action = some st') :
    Ready pass st' t := by
  cases action with
  | other c =>
      obtain ⟨db, hcommit, rfl⟩ := Option.map_eq_some_iff.1 hstep
      exact ready_other h hspares hcommit
  | lock =>
      simp only [WritePass.step] at hstep
      split_ifs at hstep
      obtain rfl := Option.some.inj hstep
      exact ⟨h.excludes, h.held, h.none_held, h.carried⟩
  | turn u =>
      simp only [WritePass.step] at hstep
      split_ifs at hstep
      cases hturn : pass.turn st u with
      | error e =>
          rw [hturn] at hstep
          cases hstep
      | ok st₁ =>
          rw [hturn] at hstep
          obtain rfl := Option.some.inj hstep
          exact ready_turn h hspares (turnEffect hturn)

end Steps

/-! ### Runs -/

/-- **A pass whose index answers for its candidates when it is built**: suppression is on, every
live twin has its content hash, and every restated claim is ACTIVE. -/
structure Prepared (pass : WritePass) (db : Database) (turns : List Turn) : Prop where
  enabled : pass.env.cfg.duplicateSuppression = true
  hashed : ∀ t ∈ turns, ∀ row ∈ db.store.particles.rows,
    IsTwin pass.env.core pass.supersedeIds t.particle row →
      row.contentNormHash = some (pass.env.core.contentHash row.model.content)
  carried : ∀ t ∈ turns, ∀ earlier ∈ t.carried, ∃ row ∈ db.store.particles.rows,
    row.id = earlier.id ∧ row.model.status = .ACTIVE

section Run

variable {pass : WritePass} {db : Database} {turns : List Turn} {t : Turn}

/-- The index of a prepared pass is ready for each of its candidates. -/
theorem ready_begin (h : Prepared pass db turns) (ht : t ∈ turns) :
    Ready pass (pass.begin db turns) t := by
  have hindex : (pass.begin db turns).dupIndex = buildDuplicateIndex pass.env.core db.store
      (turns.map fun t => t.particle.content) pass.supersedeIds := if_pos h.enabled
  refine ⟨?_, fun q hq => ?_, fun hnone id row hrow htwin => ?_, fun earlier hearlier => ?_⟩
  · rw [hindex, buildDuplicateIndex, DuplicateIndex.excludeIds_of]
  · rw [hindex] at hq
    obtain ⟨heligible, heligible', hexcluded, hkey, row, hrow, hmodel, hactive⟩ :=
      find_buildDuplicateIndex hq
    refine ⟨row, hrow, ?_⟩
    rw [IsTwin, ParticleRow.id, hmodel]
    exact ⟨hactive, hexcluded, heligible', heligible, hkey⟩
  · obtain ⟨hmem, -⟩ := ParticleTable.get?_eq_some.1 hrow
    have hhash := h.hashed t ht row hmem htwin
    obtain ⟨hactive, hexcluded, heligible, heligible', hkey⟩ := htwin
    rw [hindex, buildDuplicateIndex, DuplicateIndex.find_of, if_pos heligible',
      List.find?_eq_none] at hnone
    refine hnone row.model ?_ (decide_eq_true ⟨hexcluded, heligible, hkey⟩)
    -- the probe by content hash returns the twin
    refine mem_getActiveParticlesByContentHashes.2 ⟨row, hmem, rfl, hactive,
      pass.env.core.contentHash row.model.content, ?_, pass.env.core.digest_ne _, hhash⟩
    rw [pass.env.core.contentHash_eq_of_particleKey_eq hkey]
    exact List.mem_map.2 ⟨t.particle.content, List.mem_map.2 ⟨t, ht, rfl⟩, rfl⟩
  · obtain ⟨row, hrow, hid, hactive⟩ := h.carried t ht earlier hearlier
    exact ⟨row, hid ▸ ParticleTable.get?_id hrow, hactive⟩

/-- In a spared run the index stays ready for the candidate of every turn. -/
theorem ready_of_spared {pre post : List WritePass.WriteAction} :
    ∀ {st₀ st : WriteState}, Ready pass st₀ t → Spared pass st₀ (pre ++ .turn t :: post) →
      run pass.step st₀ pre = some st → Ready pass st t := by
  induction pre with
  | nil =>
      intro st₀ st h _ hrun
      obtain rfl := Option.some.inj hrun
      exact h
  | cons action pre ih =>
      intro st₀ st h hspared hrun
      obtain ⟨st₁, hstep, hrest⟩ := run_cons_eq_some.1 hrun
      obtain ⟨hspares, hlater⟩ := hspared
      simp only [hstep] at hlater
      have ht : t ∈ WritePass.turnsOf (pre ++ .turn t :: post) :=
        List.mem_filterMap.2 ⟨.turn t, by simp, rfl⟩
      exact ih (ready_step h (hspares t ht) hstep) hlater hrest

/-- **Suppression lands on live claims and catches every exact duplicate**, at every turn of a
prepared pass whose steps spare the candidates still to come. -/
theorem suppression_live_of_spared (pass : WritePass) (db : Database)
    (actions : List WritePass.WriteAction)
    (hprepared : Prepared pass db (WritePass.turnsOf actions))
    (hspared : Spared pass (pass.begin db (WritePass.turnsOf actions)) actions)
    (pre post : List WritePass.WriteAction) (t : Turn) (st : WriteState)
    (hactions : actions = pre ++ .turn t :: post)
    (hrun : run pass.step (pass.begin db (WritePass.turnsOf actions)) pre = some st) :
    TurnOk pass st t := by
  have ht : t ∈ WritePass.turnsOf actions := by
    rw [hactions]
    exact List.mem_filterMap.2 ⟨.turn t, by simp, rfl⟩
  have hready := ready_begin hprepared ht
  generalize pass.begin db (WritePass.turnsOf actions) = st₀ at hspared hrun hready
  subst hactions
  exact (ready_of_spared hready hspared hrun).turnOk

end Run

/-! ### Two runs -/

instance (pass : WritePass) (st : WriteState) (t : Turn) (action : WritePass.WriteAction) :
    Decidable (Spares pass st t action) := by
  cases action <;> unfold Spares <;> infer_instance

instance decidableSpared (pass : WritePass) :
    ∀ (st : WriteState) (actions : List WritePass.WriteAction), Decidable (Spared pass st actions)
  | _, [] => inferInstanceAs (Decidable True)
  | st, action :: actions =>
      let _ : Decidable (match pass.step st action with
          | none => True
          | some st' => Spared pass st' actions) :=
        match pass.step st action with
        | none => inferInstanceAs (Decidable True)
        | some st' => decidableSpared pass st' actions
      inferInstanceAs (Decidable (_ ∧ _))

/-- The pass of the two runs. -/
def examplePass : WritePass where
  env := .verbatim
  trigger := ⟨"report", "s1", .SOURCE⟩

/-- A candidate with a content and a source. -/
def candidate (id content : String) : Turn where
  particle := { id := id, content := content,
                provenance := [{ type := .SOURCE, corpusEntryId := "report" }] }
  active := rfl

/-- Another writer adds an unrelated claim before the lock; then the pass suppresses one candidate,
stores a second, and suppresses a third into the second. -/
def sparedActions : List WritePass.WriteAction :=
  [.other (.row (.insert (embeddedRow "e" 4 1 [1, 0]) 21)), .lock, .turn (candidate "n1" "a"),
    .turn (candidate "n2" "d"), .turn (candidate "n3" "d")]

/-- The state at the third candidate's turn. -/
def atThirdCandidate : WriteState :=
  (run examplePass.step (examplePass.begin threeClaims (WritePass.turnsOf sparedActions))
    (sparedActions.take 4)).getD { db := {} }

theorem suppression_live_of_spared_thirdCandidate :
    (examplePass.routeTurn atThirdCandidate (candidate "n3" "d")).2.map Particle.id = some "n2" ∧
      TurnOk examplePass atThirdCandidate (candidate "n3" "d") := by
  refine ⟨by decide +kernel, ?_⟩
  refine suppression_live_of_spared examplePass threeClaims sparedActions
    ⟨rfl, by decide +kernel, by decide +kernel⟩ (by decide +kernel) (sparedActions.take 4) []
    (candidate "n3" "d") atThirdCandidate rfl rfl

/-- Another writer retires a claim after the pass built its index and before it takes the lock. -/
def retiredTwin : List WritePass.WriteAction :=
  [.other (.row (.update "a"
    ((embeddedRow "a" 1 1 [1, 0]).withStatus 5 .SUPERSEDED (some .EXPLICIT_SUPERSESSION)) 14 15)),
    .lock]

/-- The state when the pass holds the lock. -/
def afterRetiredTwin : WriteState :=
  (run examplePass.step (examplePass.begin threeClaims [candidate "n1" "a"])
    retiredTwin).getD { db := {} }

/-- **A claim retired under an index that was built before the lock is suppressed into**: the candidate
is folded into a SUPERSEDED claim, and no live claim states its text. -/
theorem not_turnOk_retiredTwin :
    run examplePass.step (examplePass.begin threeClaims [candidate "n1" "a"]) retiredTwin =
        some afterRetiredTwin ∧
      foldTarget examplePass afterRetiredTwin (candidate "n1" "a") = some "a" ∧
      ¬ TurnOk examplePass afterRetiredTwin (candidate "n1" "a") := by
  refine ⟨rfl, by decide +kernel, by decide +kernel⟩

end ParticlesEngine
