/-
**The as-of read lens.**

`operations/query/as_of.py` answers what was believed at an instant `T` from the store as it is
now: from the instant a particle was asserted, the write-once instant it left ACTIVE, the marker of
the rows that were never believed, and, for rows that are older than those columns, from successors,
operator events and expiry dates.

Main definitions:

* `RetirementIndex`, `RetirementIndex.resolve` — the maps loaded once per query, and the ladder;
* `AsOfView.evaluate` — the visibility verdict for one row;
* `StoreOp`, `runOps` — a run of the repository's status writes from the empty store;
* `DocumentedRun` — the runs whose births and reasons are those of the transition table.

Main results:

* `Dated` — **the invariant: what a row's columns say about its status at `T`**;
* `dated_runOps` — every documented run keeps it;
* `asOf_faithful` — **the lens shows exactly the particles that were ACTIVE and valid at `T`**.
-/

import Mathlib.Algebra.Order.Group.Int
import Mathlib.Data.List.Induction
import ParticlesEngine.Runs
import ParticlesEngine.ParticleStore

set_option relaxedAutoImplicit false
set_option autoImplicit false

open Runs

namespace ParticlesEngine

/-! ### The lens -/

/-- An INCONSISTENCY record or a quarantine loser, resolved or not. -/
def isNeverBelieved (status : Status) (reason : Option StatusReason) (bornRetired : Bool) : Bool :=
  bornRetired || status = .INCONSISTENCY || reason = some .CONFLICT_PENDING

/-- A successor that names a particle in its `supersedes` pointer. -/
structure SuccessorRef where
  id : String
  content : String
  assertedAt : Instant
  deriving DecidableEq, Repr

/-- The rung of the ladder that dated a retirement. -/
inductive RetirementBasis where
  | stored
  | successor
  | event
  | valid_until
  deriving DecidableEq, Repr

/-- A resolved retirement instant and the rung that answered. -/
structure RetirementResolution where
  retiredAt : Instant
  basis : RetirementBasis
  deriving DecidableEq, Repr

/-- An operator event of a type that dates a retirement, at one of the particles it names. -/
structure RetirementEvent where
  refId : String
  occurredAt : Instant
  deriving DecidableEq, Repr

/-- The lookup maps of one store, loaded once per query. -/
structure RetirementIndex where
  successorByPredecessor : String → Option SuccessorRef
  eventRetiredAt : String → Option Instant
  neverBelieved : List String

/-- The earliest successor of a particle: the one row kept while the rows are read. -/
def earliestSuccessor (rows : List ParticleRow) (predecessor : String) : Option SuccessorRef :=
  rows.foldl (fun current row =>
    if row.model.supersedes = some predecessor then
      match current with
      | none => some ⟨row.id, row.model.content, row.model.assertedAt⟩
      | some held =>
          if row.model.assertedAt < held.assertedAt then
            some ⟨row.id, row.model.content, row.model.assertedAt⟩
          else some held
    else current) none

/-- The latest retirement-dating event of a particle. -/
def latestEvent (events : List RetirementEvent) (particleId : String) : Option Instant :=
  events.foldl (fun current event =>
    if event.refId = particleId then
      match current with
      | none => some event.occurredAt
      | some held => if held < event.occurredAt then some event.occurredAt else some held
    else current) none

/-- `load_retirement_index`. -/
def loadRetirementIndex (store : Store) (events : List RetirementEvent) : RetirementIndex where
  successorByPredecessor := earliestSuccessor store.particles.rows
  eventRetiredAt := latestEvent events
  neverBelieved := (store.particles.rows.filter ParticleRow.bornRetired).map ParticleRow.id

/-- `RetirementIndex.resolve`: the ladder; `none` is its last rung, unknown. -/
def RetirementIndex.resolve (index : RetirementIndex) (particleId : String)
    (reason : Option StatusReason) (validUntil storedRetiredAt : Option Instant) :
    Option RetirementResolution :=
  match storedRetiredAt with
  | some at' => some ⟨at', .stored⟩
  | none =>
      match index.successorByPredecessor particleId with
      | some successor => some ⟨successor.assertedAt, .successor⟩
      | none =>
          match index.eventRetiredAt particleId with
          | some at' => some ⟨at', .event⟩
          | none =>
              match reason, validUntil with
              | some .VALIDITY_EXPIRED, some at' => some ⟨at', .valid_until⟩
              | _, _ => none

/-- The supersession crossing shown with a hit that was retired after the reference instant. -/
structure AsOfNote where
  status : Status
  statusReason : Option StatusReason
  retiredAt : Instant
  basis : RetirementBasis
  successor : Option SuccessorRef
  deriving DecidableEq, Repr

/-- The verdict for one candidate. -/
structure AsOfEvaluation where
  visible : Bool
  note : Option AsOfNote := none
  /-- excluded because the retirement instant cannot be reconstructed -/
  excludedUndatable : Bool := false
  deriving DecidableEq, Repr

/-- One store's lens for a reference instant. -/
structure AsOfView where
  asOf : Instant
  index : RetirementIndex

/-- `load_as_of_view`. -/
def loadAsOfView (store : Store) (events : List RetirementEvent) (asOf : Instant) : AsOfView :=
  ⟨asOf, loadRetirementIndex store events⟩

/-- `_after_assertion`: every test but the assertion instant. -/
def AsOfView.afterAssertion (view : AsOfView) (p : Particle) (storedRetiredAt : Option Instant) :
    AsOfEvaluation :=
  if isNeverBelieved p.status p.statusReason (p.id ∈ view.index.neverBelieved) then
    { visible := false }
  else if p.validUntil.any (· < view.asOf) then { visible := false }
  else if p.status = .ACTIVE then { visible := true }
  else
    match view.index.resolve p.id p.statusReason p.validUntil storedRetiredAt with
    | none => { visible := false, excludedUndatable := true }
    | some resolution =>
        if resolution.retiredAt ≤ view.asOf then { visible := false }
        else
          { visible := true
            note := some ⟨p.status, p.statusReason, resolution.retiredAt, resolution.basis,
              view.index.successorByPredecessor p.id⟩ }

/-- **`AsOfView.evaluate`.** -/
def AsOfView.evaluate (view : AsOfView) (p : Particle) (storedRetiredAt : Option Instant) :
    AsOfEvaluation :=
  if view.asOf < p.assertedAt then { visible := false }
  else view.afterAssertion p storedRetiredAt

/-! ### Runs of status writes -/

/-- One write of a run. -/
inductive StoreOp where
  | insert (p : Particle) (embedding : Option EmbeddingJson)
  | updateStatus (particleId : String) (status : Status) (reason : Option StatusReason)
  | updateReason (particleId : String) (reason : StatusReason)
  deriving DecidableEq

/-- A write and the instant it is made at. -/
abbrev TimedOp := Instant × StoreOp

section RunOps

variable (contentHash : String → String) (modelId : String) (table : TransitionTable)

/-- One write; `none` when it raises. -/
def stepOp (store : Store) : TimedOp → Option Store
  | (_, .insert p embedding) => (insertParticle contentHash modelId store p embedding).toOption
  | (now, .updateStatus particleId status reason) =>
      (updateParticleStatus table now store particleId status reason).toOption
  | (_, .updateReason particleId reason) =>
      (updateStatusReason store particleId reason).toOption

/-- The store after a run from the empty store. -/
def runOps (ops : List TimedOp) : Option Store :=
  run (stepOp contentHash modelId table) .empty ops

/-- The writes made by instant `T`. -/
def opsBy (T : Instant) (ops : List TimedOp) : List TimedOp := ops.filter (·.1 ≤ T)

/-- The row of a particle at instant `T`. -/
def rowAt (ops : List TimedOp) (T : Instant) (id : String) : Option ParticleRow :=
  (runOps contentHash modelId table (opsBy T ops)).bind fun store => store.get? id

end RunOps

/-- A run of status writes at non-decreasing instants, in which a particle is asserted when it is
inserted and, once born ACTIVE, never returns to ACTIVE. -/
structure StatusRun (ops : List TimedOp) : Prop where
  nondecreasing : ops.Pairwise fun a b => a.1 ≤ b.1
  asserted : ∀ now p embedding, (now, StoreOp.insert p embedding) ∈ ops → p.assertedAt = now
  noReturn : ∀ now id reason, (now, StoreOp.updateStatus id .ACTIVE reason) ∈ ops →
    ∀ t p embedding, (t, StoreOp.insert p embedding) ∈ ops → p.id = id → p.status ≠ .ACTIVE

/-- The write records the reason CONFLICT_PENDING on the particle `id`. -/
def RecordsPending (ops : List TimedOp) (id : String) : Prop :=
  (∃ now status, (now, StoreOp.updateStatus id status (some .CONFLICT_PENDING)) ∈ ops) ∨
    ∃ now, (now, StoreOp.updateReason id .CONFLICT_PENDING) ∈ ops

/-- What one write that succeeds leaves, and at which id. -/
inductive Touches (table : TransitionTable) (now : Instant) (store : Store) :
    StoreOp → String → ParticleRow → Prop
  | insert {p : Particle} {embedding : Option EmbeddingJson} {row : ParticleRow}
      (absent : store.get? p.id = none) (model : row.model = p) (unretired : row.retiredAt = none)
      (stamp : row.bornRetired = true ↔ p.status = .INCONSISTENCY ∨ p.status = .PROVENANCE_STALE) :
      Touches table now store (.insert p embedding) p.id row
  | updateStatus {id : String} {status : Status} {reason : Option StatusReason} {row : ParticleRow}
      (found : store.get? id = some row) (edge : table.allows (some row.model.status) status = true) :
      Touches table now store (.updateStatus id status reason) id (row.withStatus now status reason)
  | updateReason {id : String} {reason : StatusReason} {row : ParticleRow}
      (found : store.get? id = some row) (stale : row.model.status = .PROVENANCE_STALE) :
      Touches table now store (.updateReason id reason) id (row.withReason reason)

/-- Every write that succeeds touches one row. -/
theorem touches_of_stepOp {contentHash : String → String} {modelId : String}
    {table : TransitionTable} {store store' : Store} {now : Instant} {op : StoreOp}
    (h : stepOp contentHash modelId table store (now, op) = some store') :
    ∃ id row, Touches table now store op id row ∧
      ∀ k, store'.get? k = if id = k then some row else store.get? k := by
  have hok : ∀ {x : Except StoreError Store}, x.toOption = some store' → x = .ok store' := by
    intro x hx
    cases x with
    | error e => simp [Except.toOption] at hx
    | ok s => rw [Option.some.inj hx]
  cases op with
  | insert p embedding =>
      obtain ⟨habsent, -, row, hmodel, hretired, hstamp, -, hget⟩ := get?_insertParticle (hok h)
      exact ⟨p.id, row, .insert habsent hmodel hretired hstamp, hget⟩
  | updateStatus id status reason =>
      obtain ⟨row, hrow, hedge, hget⟩ := get?_updateParticleStatus (hok h)
      exact ⟨id, _, .updateStatus hrow hedge, hget⟩
  | updateReason id reason =>
      obtain ⟨row, hrow, hstale, hget⟩ := get?_updateStatusReason (hok h)
      exact ⟨id, _, .updateReason hrow hstale, hget⟩

/-- A status run whose births are those of the transition table, in which no particle enters ACTIVE
by a transition, and which records the reason of a quarantine only on particles born retired. -/
structure DocumentedRun (ops : List TimedOp) : Prop extends StatusRun ops where
  noEntry : ∀ now id status reason, (now, StoreOp.updateStatus id status reason) ∈ ops →
    status ≠ .ACTIVE
  births : ∀ now p embedding, (now, StoreOp.insert p embedding) ∈ ops →
    (p.status = .ACTIVE ∧ p.statusReason ≠ some .CONFLICT_PENDING) ∨
      p.status = .INCONSISTENCY ∨ p.status = .PROVENANCE_STALE
  pending : ∀ id, RecordsPending ops id → ∀ now p embedding,
    (now, StoreOp.insert p embedding) ∈ ops → p.id = id → p.status ≠ .ACTIVE

/-- A prefix of a documented run is one. -/
theorem DocumentedRun.of_append {ops more : List TimedOp} (h : DocumentedRun (ops ++ more)) :
    DocumentedRun ops where
  nondecreasing := (List.pairwise_append.1 h.nondecreasing).1
  asserted := fun now p e hmem => h.asserted now p e (List.mem_append_left _ hmem)
  noReturn := fun now id r hmem t p e hins =>
    h.noReturn now id r (List.mem_append_left _ hmem) t p e (List.mem_append_left _ hins)
  noEntry := fun now id s r hmem => h.noEntry now id s r (List.mem_append_left _ hmem)
  births := fun now p e hmem => h.births now p e (List.mem_append_left _ hmem)
  pending := by
    intro id hid now p e hmem
    refine h.pending id ?_ now p e (List.mem_append_left _ hmem)
    rcases hid with ⟨t, s, hmem⟩ | ⟨t, hmem⟩
    · exact Or.inl ⟨t, s, List.mem_append_left _ hmem⟩
    · exact Or.inr ⟨t, List.mem_append_left _ hmem⟩

/-! ### The invariant -/

/-- **What a row's columns say after a run**: the instants are past, a row born retired is not
ACTIVE, and any other row was born ACTIVE and carries a retirement instant once it has left it. -/
structure Dated (ops : List TimedOp) (now : Instant) (row : ParticleRow) : Prop where
  asserted : row.model.assertedAt ≤ now
  retired : ∀ r, row.retiredAt = some r → r ≤ now
  unbelieved : row.bornRetired = true → row.model.status ≠ .ACTIVE
  born : row.bornRetired = false → ∃ now p embedding, (now, StoreOp.insert p embedding) ∈ ops ∧
    p.id = row.id ∧ p.status = .ACTIVE
  unwrapped : row.bornRetired = false → row.model.status ≠ .INCONSISTENCY ∧
    row.model.statusReason ≠ some .CONFLICT_PENDING
  stamped : row.bornRetired = false → (row.model.status = .ACTIVE ↔ row.retiredAt = none)

/-- What the columns of a row say about its status at `T`. -/
def BelievedAt (T : Instant) (row : ParticleRow) : Prop :=
  row.bornRetired = false ∧ row.model.assertedAt ≤ T ∧ ∀ r, row.retiredAt = some r → T < r

section Runs

variable {contentHash : String → String} {modelId : String} {table : TransitionTable}
  {ops : List TimedOp} {store : Store}

/-- The bounds of a run grow with it. -/
theorem Dated.mono {now later : Instant} {row : ParticleRow} (h : Dated ops now row)
    (more : List TimedOp) (hle : now ≤ later) : Dated (ops ++ more) later row where
  asserted := h.asserted.trans hle
  retired := fun r hr => (h.retired r hr).trans hle
  unbelieved := h.unbelieved
  born := by
    intro hborn
    obtain ⟨t, p, e, hmem, hrest⟩ := h.born hborn
    exact ⟨t, p, e, List.mem_append_left _ hmem, hrest⟩
  unwrapped := h.unwrapped
  stamped := h.stamped

/-- A documented write at `now` leaves a dated row. -/
theorem dated_touches {now : Instant} {op : StoreOp} {id : String} {row : ParticleRow}
    (hrun : DocumentedRun (ops ++ [(now, op)]))
    (hold : ∀ k r, store.get? k = some r → ∃ before ≤ now, Dated ops before r)
    (htouch : Touches table now store op id row) : Dated (ops ++ [(now, op)]) now row := by
  have hop : (now, op) ∈ ops ++ [(now, op)] := by simp
  cases htouch with
  | insert habsent hmodel hretired hstamp =>
      subst hmodel
      have hasserted : row.model.assertedAt = now := hrun.asserted _ _ _ hop
      have hbirth := hrun.births _ _ _ hop
      have hactive : row.bornRetired = false → row.model.status = .ACTIVE ∧
          row.model.statusReason ≠ some .CONFLICT_PENDING := by
        intro hborn
        have hnot : ¬ (row.model.status = .INCONSISTENCY ∨
            row.model.status = .PROVENANCE_STALE) := fun h => by simp [hstamp.2 h] at hborn
        exact hbirth.resolve_right hnot
      refine ⟨hasserted.le, by simp [hretired], ?_, ?_, ?_, ?_⟩
      · intro hborn
        rcases hstamp.1 hborn with h | h <;> simp [h]
      · intro hborn
        exact ⟨now, _, _, hop, rfl, (hactive hborn).1⟩
      · intro hborn
        exact ⟨by simp [(hactive hborn).1], (hactive hborn).2⟩
      · intro hborn
        simp [(hactive hborn).1, hretired]
  | @updateStatus _ status reason row found edge =>
      obtain ⟨before, hbefore, hrow⟩ := hold _ _ found
      have hlater := hrow.mono [(now, .updateStatus id status reason)] hbefore
      have hactive : status ≠ .ACTIVE := hrun.noEntry _ _ _ _ hop
      refine ⟨hlater.asserted, ?_, fun _ => hactive, hlater.born, ?_, ?_⟩
      · -- the stamp is the instant of this write, or an earlier one
        intro r hr
        simp only [ParticleRow.withStatus, hactive, if_false] at hr
        split_ifs at hr
        · exact (Option.some.inj hr).ge
        · exact hlater.retired r hr
      · intro hborn
        refine ⟨?_, ?_⟩
        · rintro rfl
          exact (hrow.unwrapped hborn).1 (table.to_inconsistency edge)
        · rintro rfl
          obtain ⟨t, p, e, hmem, hid, hstatus⟩ := hlater.born hborn
          have hid' : p.id = id := hid.trans (ParticleTable.id_of_get? found)
          exact hrun.pending id (Or.inl ⟨now, status, hop⟩) t p e hmem hid' hstatus
      · intro hborn
        simp only [ParticleRow.withStatus, hactive, if_false, false_iff]
        have hstamped := hrow.stamped hborn
        by_cases hwas : row.model.status = .ACTIVE
        · simp [hwas, hstamped.1 hwas, hactive]
        · simpa [hwas] using fun hnone => hwas (hstamped.2 hnone)
  | @updateReason _ reason row found stale =>
      obtain ⟨before, hbefore, hrow⟩ := hold _ _ found
      have hlater := hrow.mono [(now, .updateReason id reason)] hbefore
      refine ⟨hlater.asserted, hlater.retired, hlater.unbelieved, hlater.born, ?_, hlater.stamped⟩
      intro hborn
      refine ⟨(hrow.unwrapped hborn).1, ?_⟩
      intro hreason
      obtain rfl : reason = .CONFLICT_PENDING := Option.some.inj hreason
      obtain ⟨t, p, e, hmem, hid, hstatus⟩ := hlater.born hborn
      have hid' : p.id = id := hid.trans (ParticleTable.id_of_get? found)
      exact hrun.pending id (Or.inr ⟨now, hop⟩) t p e hmem hid' hstatus

/-- The last write of a run comes after the others. -/
theorem le_last {op : TimedOp} (h : (ops ++ [op]).Pairwise fun a b => a.1 ≤ b.1) :
    ∀ a ∈ ops, a.1 ≤ op.1 := fun a ha =>
  (List.pairwise_append.1 h).2.2 a ha op List.mem_cons_self

/-- **Every documented run leaves dated rows.** -/
theorem dated_runOps (hrun : DocumentedRun ops) {now : Instant} (hnow : ∀ op ∈ ops, op.1 ≤ now)
    (h : runOps contentHash modelId table ops = some store) {id : String} {row : ParticleRow}
    (hrow : store.get? id = some row) : Dated ops now row := by
  induction ops using List.reverseRecOn generalizing store now id row with
  | nil =>
      obtain rfl := Option.some.inj h
      simp at hrow
  | append_singleton ops op ih =>
      obtain ⟨s, hs, hstep⟩ := run_concat_eq_some.1 h
      obtain ⟨t, op⟩ := op
      have hlast := le_last hrun.nondecreasing
      have ht : t ≤ now := hnow (t, op) (by simp)
      have hold : ∀ k r, s.get? k = some r → Dated ops t r := fun k r hr =>
        ih hrun.of_append hlast hs hr
      obtain ⟨k, new, htouch, hget⟩ := touches_of_stepOp hstep
      rw [hget] at hrow
      split_ifs at hrow with hk
      · obtain rfl := Option.some.inj hrow
        have := (dated_touches hrun (fun k r hr => ⟨t, le_refl t, hold k r hr⟩) htouch).mono [] ht
        simpa using this
      · exact (hold _ _ hrow).mono _ ht

/-! ### The past of a row -/

/-- The writes made by an instant are all of them, or those before the last. -/
theorem opsBy_concat {op : TimedOp} {T : Instant}
    (h : (ops ++ [op]).Pairwise fun a b => a.1 ≤ b.1) :
    opsBy T (ops ++ [op]) = if op.1 ≤ T then ops ++ [op] else opsBy T ops := by
  by_cases hop : op.1 ≤ T
  · rw [if_pos hop, opsBy, List.filter_eq_self]
    intro a ha
    rcases List.mem_append.1 ha with ha | ha
    · simpa using (le_last h a ha).trans hop
    · simpa [List.mem_singleton.1 ha] using hop
  · simp [opsBy, List.filter_append, hop]

theorem rowAt_concat {op : TimedOp} {T : Instant} {id : String}
    (h : (ops ++ [op]).Pairwise fun a b => a.1 ≤ b.1) :
    rowAt contentHash modelId table (ops ++ [op]) T id =
      if op.1 ≤ T then
        (runOps contentHash modelId table (ops ++ [op])).bind fun store => store.get? id
      else rowAt contentHash modelId table ops T id := by
  simp only [rowAt, opsBy_concat h]
  split_ifs <;> rfl

/-- A row is never deleted: what is absent now was absent at `T`. -/
theorem rowAt_eq_none (hordered : ops.Pairwise fun a b => a.1 ≤ b.1) {T : Instant} {id : String}
    (h : runOps contentHash modelId table ops = some store) (habsent : store.get? id = none) :
    rowAt contentHash modelId table ops T id = none := by
  induction ops using List.reverseRecOn generalizing store with
  | nil => rfl
  | append_singleton ops op ih =>
      rw [rowAt_concat hordered]
      split_ifs with hop
      · rw [h]
        exact habsent
      · obtain ⟨s, hs, hstep⟩ := run_concat_eq_some.1 h
        obtain ⟨k, new, -, hget⟩ := touches_of_stepOp hstep
        refine ih (List.pairwise_append.1 hordered).1 hs ?_
        rw [hget] at habsent
        split_ifs at habsent
        exact habsent

/-- **The columns of a row tell whether it was ACTIVE at `T`.** -/
theorem active_rowAt_iff (hrun : DocumentedRun ops)
    (h : runOps contentHash modelId table ops = some store) {id : String} {row : ParticleRow}
    (hrow : store.get? id = some row) (T : Instant) :
    (∃ r, rowAt contentHash modelId table ops T id = some r ∧ r.model.status = .ACTIVE) ↔
      BelievedAt T row := by
  induction ops using List.reverseRecOn generalizing store row with
  | nil =>
      obtain rfl := Option.some.inj h
      simp at hrow
  | append_singleton ops op ih =>
      rw [rowAt_concat hrun.nondecreasing]
      have hlast := le_last hrun.nondecreasing
      obtain ⟨t, op⟩ := op
      split_ifs with hT
      · -- every write was made by `T`: the row at `T` is the row now
        have hdated : Dated (ops ++ [(t, op)]) t row := by
          refine dated_runOps hrun (fun a ha => ?_) h hrow
          rcases List.mem_append.1 ha with ha | ha
          · exact hlast a ha
          · simp [List.mem_singleton.1 ha]
        simp only [h, Option.bind_some, hrow, Option.some.injEq, exists_eq_left']
        constructor
        · intro hactive
          have hborn : row.bornRetired = false := by
            cases hb : row.bornRetired with
            | false => rfl
            | true => exact absurd hactive (hdated.unbelieved hb)
          refine ⟨hborn, hdated.asserted.trans hT, fun r hr => ?_⟩
          simp [(hdated.stamped hborn).1 hactive] at hr
        · rintro ⟨hborn, -, hafter⟩
          refine (hdated.stamped hborn).2 ?_
          cases hr : row.retiredAt with
          | none => rfl
          | some r => exact absurd (hafter r hr) (not_lt.2 ((hdated.retired r hr).trans hT))
      · -- the last write was made after `T`: it says nothing about `T`
        obtain ⟨s, hs, hstep⟩ := run_concat_eq_some.1 h
        obtain ⟨k, new, htouch, hget⟩ := touches_of_stepOp hstep
        rw [hget] at hrow
        by_cases hk : k = id
        · rw [if_pos hk] at hrow
          obtain rfl := Option.some.inj hrow
          subst hk
          have hop : (t, op) ∈ ops ++ [(t, op)] := by simp
          cases htouch with
          | insert habsent hmodel _ _ =>
              rw [rowAt_eq_none (List.pairwise_append.1 hrun.nondecreasing).1 hs habsent]
              have hasserted := hrun.asserted t _ _ hop
              constructor
              · rintro ⟨r, hr, -⟩
                simp at hr
              · rintro ⟨-, hle, -⟩
                rw [hmodel, hasserted] at hle
                exact absurd hle hT
          | @updateStatus _ status reason old found _ =>
              rw [ih hrun.of_append hs found]
              have hactive : status ≠ .ACTIVE := hrun.noEntry t _ _ _ hop
              simp only [BelievedAt, ParticleRow.withStatus, hactive, if_false]
              split_ifs with hstamp
              · simp only [hstamp.2.2, reduceCtorEq, false_implies, implies_true, and_true,
                  Option.some.injEq, forall_eq']
                simp [not_le.1 hT]
              · rfl
          | updateReason found _ =>
              have hbefore := ih hrun.of_append hs found
              exact hbefore
        · rw [if_neg hk] at hrow
          exact ih hrun.of_append hs hrow

/-! ### The verdict -/

/-- The never-believed ids are those of the rows born retired. -/
theorem mem_neverBelieved {events : List RetirementEvent} {id : String} {row : ParticleRow}
    (hrow : store.get? id = some row) :
    row.toModel.id ∈ (loadRetirementIndex store events).neverBelieved ↔ row.bornRetired = true := by
  obtain ⟨hmem, -⟩ := ParticleTable.get?_eq_some.1 hrow
  simp only [loadRetirementIndex, List.mem_map, List.mem_filter]
  constructor
  · rintro ⟨r, ⟨hr, hborn⟩, hid⟩
    rwa [Table.eq_of_key_eq hr hmem hid] at hborn
  · intro hborn
    exact ⟨row, ⟨hmem, hborn⟩, rfl⟩

/-- **The verdict on a dated row**: believed at `T`, by its columns, and still valid then. -/
theorem visible_iff {now : Instant} {events : List RetirementEvent} {T : Instant} {id : String}
    {row : ParticleRow} (hdated : Dated ops now row) (hrow : store.get? id = some row) :
    ((loadAsOfView store events T).evaluate row.toModel row.retiredAt).visible = true ↔
      BelievedAt T row ∧ ∀ v, row.model.validUntil = some v → T ≤ v := by
  generalize hview : loadAsOfView store events T = view
  have hasOf : view.asOf = T := by rw [← hview]; rfl
  have hvalid : (row.toModel.validUntil.any (· < T)) = false ↔
      ∀ v, row.model.validUntil = some v → T ≤ v := by
    unfold ParticleRow.toModel
    cases row.model.validUntil <;> simp
  have hnever : isNeverBelieved row.toModel.status row.toModel.statusReason
      (row.toModel.id ∈ view.index.neverBelieved) = row.bornRetired := by
    have hmem : row.toModel.id ∈ view.index.neverBelieved ↔ row.bornRetired = true := by
      rw [← hview]
      exact mem_neverBelieved hrow
    cases hborn : row.bornRetired with
    | true => simp [isNeverBelieved, hmem, hborn]
    | false =>
        obtain ⟨hstatus, hreason⟩ : row.toModel.status ≠ .INCONSISTENCY ∧
            row.toModel.statusReason ≠ some .CONFLICT_PENDING := hdated.unwrapped hborn
        simp [isNeverBelieved, hmem, hborn, hstatus, hreason]
  rw [← hvalid, AsOfView.evaluate, AsOfView.afterAssertion, hasOf, hnever]
  by_cases hasserted : T < row.toModel.assertedAt
  · have hnot : ¬ row.model.assertedAt ≤ T := not_le.2 hasserted
    simp [hasserted, BelievedAt, hnot]
  rw [if_neg hasserted]
  have hle : row.model.assertedAt ≤ T := not_lt.1 hasserted
  cases hborn : row.bornRetired with
  | true => simp [BelievedAt, hborn]
  | false =>
      have hstamped := hdated.stamped hborn
      cases hexpired : row.toModel.validUntil.any (· < T) with
      | true => simp
      | false =>
          by_cases hactive : row.model.status = .ACTIVE
          · simp [ParticleRow.toModel, hactive, BelievedAt, hborn, hle, hstamped.1 hactive]
          · -- a row that left ACTIVE carries its instant: the first rung answers
            cases hret : row.retiredAt with
            | none => exact absurd (hstamped.2 hret) hactive
            | some r =>
                by_cases hr : r ≤ T
                · simp [ParticleRow.toModel, hactive, BelievedAt, hborn, hle, hret,
                    RetirementIndex.resolve, hr, not_lt.2 hr]
                · simp [ParticleRow.toModel, hactive, BelievedAt, hborn, hle, hret,
                    RetirementIndex.resolve, hr, not_le.1 hr]

/-- An inserted particle stays in the store, and its row says whether it was born ACTIVE. -/
theorem born_of_inserted (hrun : DocumentedRun ops)
    (h : runOps contentHash modelId table ops = some store) {now : Instant} {p : Particle}
    {embedding : Option EmbeddingJson} (hins : (now, StoreOp.insert p embedding) ∈ ops) :
    ∃ row, store.get? p.id = some row ∧
      (row.bornRetired = true ↔ p.status = .INCONSISTENCY ∨ p.status = .PROVENANCE_STALE) := by
  induction ops using List.reverseRecOn generalizing store with
  | nil => simp at hins
  | append_singleton ops op ih =>
      obtain ⟨s, hs, hstep⟩ := run_concat_eq_some.1 h
      obtain ⟨t, op⟩ := op
      obtain ⟨k, new, htouch, hget⟩ := touches_of_stepOp hstep
      rcases List.mem_append.1 hins with hins | hlast
      · obtain ⟨row, hrow, hborn⟩ := ih hrun.of_append hs hins
        by_cases hk : k = p.id
        · refine ⟨new, by rw [hget, if_pos hk], ?_⟩
          rw [← hk] at hrow
          cases htouch with
          | insert habsent _ _ _ => simp [habsent] at hrow
          | updateStatus found _ =>
              obtain rfl := Option.some.inj (found.symm.trans hrow)
              exact hborn
          | updateReason found _ =>
              obtain rfl := Option.some.inj (found.symm.trans hrow)
              exact hborn
        · exact ⟨row, by rw [hget, if_neg hk, hrow], hborn⟩
      · obtain ⟨rfl, rfl⟩ := Prod.mk.inj (List.mem_singleton.1 hlast)
        cases htouch with
        | insert _ _ _ hstamp => exact ⟨new, by rw [hget, if_pos rfl], hstamp⟩

/-- The columns that the lens reads of a retired row. -/
def SameRetirement (row row' : ParticleRow) : Prop :=
  row'.model.status ≠ .ACTIVE ∧ row'.bornRetired = row.bornRetired ∧
    row'.retiredAt = row.retiredAt ∧ row'.model.assertedAt = row.model.assertedAt ∧
    row'.model.validUntil = row.model.validUntil

/-- **Once a row has left ACTIVE no later write moves what the lens reads of it.** -/
theorem sameRetirement_run {more : List TimedOp} {store' : Store}
    (hentry : ∀ op ∈ more, ∀ now id status reason,
      op = (now, StoreOp.updateStatus id status reason) → status ≠ .ACTIVE)
    (h : run (stepOp contentHash modelId table) store more = some store') {id : String}
    {row : ParticleRow} (hrow : store.get? id = some row) (hretired : row.model.status ≠ .ACTIVE) :
    ∃ row', store'.get? id = some row' ∧ SameRetirement row row' := by
  refine run_invariant_of_forall (fun s => ∃ row', s.get? id = some row' ∧ SameRetirement row row')
    _ ?_ hentry ⟨row, hrow, hretired, rfl, rfl, rfl, rfl⟩ h
  rintro s ⟨t, op⟩ s' ⟨r, hr, hstatus, hborn, hret, hasserted, hvalid⟩ hop hstep
  obtain ⟨k, new, htouch, hget⟩ := touches_of_stepOp hstep
  by_cases hk : k = id
  · subst hk
    refine ⟨new, by rw [hget, if_pos rfl], ?_⟩
    cases htouch with
    | insert habsent _ _ _ => simp [habsent] at hr
    | @updateStatus _ status reason old found _ =>
        obtain rfl := Option.some.inj (found.symm.trans hr)
        have hactive : status ≠ .ACTIVE := hop t _ _ _ rfl
        refine ⟨hactive, hborn, ?_, hasserted, hvalid⟩
        simp [ParticleRow.withStatus, hactive, hstatus, hret]
    | updateReason found _ =>
        obtain rfl := Option.some.inj (found.symm.trans hr)
        exact ⟨hstatus, hborn, hret, hasserted, hvalid⟩
  · exact ⟨r, by rw [hget, if_neg hk, hr], hstatus, hborn, hret, hasserted, hvalid⟩

end Runs

/-! ### The lens is faithful -/

/-- The lens keeps a particle of the store exactly when it was ACTIVE and valid at `T`. -/
def LensFaithful (contentHash : String → String) (modelId : String) (table : TransitionTable)
    (ops : List TimedOp) (store : Store) : Prop :=
  ∀ (events : List RetirementEvent) (T : Instant) (id : String) (row : ParticleRow),
    store.get? id = some row →
    (((loadAsOfView store events T).evaluate row.toModel row.retiredAt).visible = true ↔
      (∃ r, rowAt contentHash modelId table ops T id = some r ∧ r.model.status = .ACTIVE) ∧
        ∀ v, row.model.validUntil = some v → T ≤ v)

/-- **As-of replay is faithful.**  After every documented run, and at every instant: the lens keeps
exactly the particles that were ACTIVE and valid then; a particle born in another status is never
visible; and once a particle has left ACTIVE, no later write moves its visibility at any instant. -/
theorem asOf_faithful (contentHash : String → String) (modelId : String) (table : TransitionTable)
    (ops more : List TimedOp) (store store' : Store) (hrun : DocumentedRun (ops ++ more))
    (h : runOps contentHash modelId table ops = some store)
    (hmore : runOps contentHash modelId table (ops ++ more) = some store') :
    LensFaithful contentHash modelId table ops store ∧
    (∀ now p embedding, (now, StoreOp.insert p embedding) ∈ ops → p.status ≠ .ACTIVE →
      ∃ row, store.get? p.id = some row ∧ ∀ events T,
        ((loadAsOfView store events T).evaluate row.toModel row.retiredAt).visible = false) ∧
    (∀ id row, store.get? id = some row → row.model.status ≠ .ACTIVE →
      ∃ row', store'.get? id = some row' ∧ ∀ events T,
        ((loadAsOfView store' events T).evaluate row'.toModel row'.retiredAt).visible =
          ((loadAsOfView store events T).evaluate row.toModel row.retiredAt).visible) := by
  have hbound : ∀ l : List TimedOp, ∃ now, ∀ op ∈ l, op.1 ≤ now := by
    intro l
    induction l with
    | nil => exact ⟨0, by simp⟩
    | cons op l ih =>
        obtain ⟨now, hnow⟩ := ih
        refine ⟨max op.1 now, fun a ha => ?_⟩
        rcases List.mem_cons.1 ha with rfl | ha
        · exact le_max_left _ _
        · exact (hnow a ha).trans (le_max_right _ _)
  obtain ⟨now, hnow⟩ := hbound ops
  obtain ⟨later, hlater⟩ := hbound (ops ++ more)
  refine ⟨?_, ?_, ?_⟩
  · intro events T id row hrow
    rw [visible_iff (dated_runOps hrun.of_append hnow h hrow) hrow,
      active_rowAt_iff hrun.of_append h hrow T]
  · intro t p embedding hins hstatus
    obtain ⟨row, hrow, hborn⟩ := born_of_inserted hrun.of_append h hins
    refine ⟨row, hrow, fun events T => ?_⟩
    have hretired : row.bornRetired = true :=
      hborn.2 ((hrun.of_append.births t p embedding hins).resolve_left fun h => hstatus h.1)
    rw [Bool.eq_false_iff, ne_eq, visible_iff (dated_runOps hrun.of_append hnow h hrow) hrow]
    simp [BelievedAt, hretired]
  · intro id row hrow hstatus
    obtain ⟨s, hs, hrest⟩ := run_append_eq_some.1 hmore
    obtain rfl := Option.some.inj (h.symm.trans hs)
    have hentry : ∀ op ∈ more, ∀ now id status reason,
        op = (now, StoreOp.updateStatus id status reason) → status ≠ .ACTIVE := by
      rintro op hop t k status reason rfl
      exact hrun.noEntry t k status reason (List.mem_append_right _ hop)
    obtain ⟨row', hrow', -, hborn, hret, hasserted, hvalid⟩ :=
      sameRetirement_run hentry hrest hrow hstatus
    refine ⟨row', hrow', fun events T => ?_⟩
    rw [Bool.eq_iff_iff, visible_iff (dated_runOps hrun hlater hmore hrow') hrow',
      visible_iff (dated_runOps hrun.of_append hnow h hrow) hrow]
    simp [BelievedAt, hborn, hret, hasserted, hvalid]

/-- A particle is asserted, demoted and superseded, and its reason rewritten in between. -/
def retiredTwice : List TimedOp :=
  [(1, .insert { id := "p", content := "p", assertedAt := 1 } none),
    (2, .updateStatus "p" .PROVENANCE_STALE (some .RETRACTED_DEPENDENCY)),
    (3, .updateReason "p" .CONFLICT_RESOLVED),
    (4, .updateStatus "p" .SUPERSEDED (some .EXPLICIT_SUPERSESSION))]

theorem documentedRun_retiredTwice : DocumentedRun retiredTwice where
  nondecreasing := by decide
  asserted := by grind [retiredTwice]
  noReturn := by grind [retiredTwice]
  noEntry := by grind [retiredTwice]
  births := by grind [retiredTwice]
  pending := by grind [retiredTwice, RecordsPending]

theorem asOf_faithful_retiredTwice :
    ∃ store store', runOps id "m" .documented (retiredTwice.take 2) = some store ∧
      runOps id "m" .documented retiredTwice = some store' ∧
      LensFaithful id "m" .documented (retiredTwice.take 2) store ∧
      (store'.get? "p").map (·.retiredAt) = some (some 2) := by
  refine ⟨_, _, rfl, rfl, ?_, by decide⟩
  exact (asOf_faithful id "m" .documented (retiredTwice.take 2) (retiredTwice.drop 2) _ _
    documentedRun_retiredTwice rfl rfl).1

/-- A particle born SUPERSEDED, with an expiry date that the ladder takes for its retirement. -/
def bornSuperseded : List TimedOp :=
  let p : Particle :=
    { id := "p", content := "p", assertedAt := 1, validUntil := some 9
      status := .SUPERSEDED, statusReason := some .VALIDITY_EXPIRED }
  [(1, .insert p none)]

/-- A particle born ACTIVE and demoted under the reason of a quarantine. -/
def demotedPending : List TimedOp :=
  [(1, .insert { id := "p", content := "p", assertedAt := 1 } none),
    (3, .updateStatus "p" .PROVENANCE_STALE (some .CONFLICT_PENDING))]

/-- A quarantine loser that is merged away and reactivated. -/
def reactivatedLoser : List TimedOp :=
  let p : Particle :=
    { id := "p", content := "p", assertedAt := 1
      status := .PROVENANCE_STALE, statusReason := some .CONFLICT_PENDING }
  [(1, .insert p none),
    (2, .updateStatus "p" .SUPERSEDED (some .DUPLICATE_MERGED)),
    (3, .updateStatus "p" .ACTIVE none)]

/-- A run is not replayed faithfully when the lens errs about `p` at one instant. -/
theorem not_lensFaithful {ops : List TimedOp} {store : Store} (row : ParticleRow) (T : Instant)
    (hrow : store.get? "p" = some row)
    (herr : ((loadAsOfView store [] T).evaluate row.toModel row.retiredAt).visible ≠
      (((rowAt id "m" .documented ops T "p").any fun r => r.model.status = .ACTIVE) &&
        !row.model.validUntil.any (· < T))) :
    ¬ LensFaithful id "m" .documented ops store := by
  intro hfaithful
  refine herr ?_
  rw [Bool.eq_iff_iff, hfaithful [] T "p" row hrow, Bool.and_eq_true, Option.any_eq_true]
  refine and_congr (by simp) ?_
  cases row.model.validUntil <;> simp

/-- A run of the repository's writes after which the lens is not faithful. -/
def LensErrs (ops : List TimedOp) : Prop :=
  StatusRun ops ∧
    ∃ store, runOps id "m" .documented ops = some store ∧ ¬ LensFaithful id "m" .documented ops store

/-- **The repository's writes alone do not make the lens faithful**: it shows a particle born
SUPERSEDED, hides the past of one demoted under CONFLICT_PENDING, and hides a reactivated loser. -/
theorem asOf_unfaithful :
    LensErrs bornSuperseded ∧ LensErrs demotedPending ∧ LensErrs reactivatedLoser := by
  refine ⟨?_, ?_, ?_⟩
  · refine ⟨⟨by decide, by grind [bornSuperseded], by grind [bornSuperseded]⟩, _, rfl, ?_⟩
    exact not_lensFaithful _ 5 rfl (by decide)
  · refine ⟨⟨by decide, by grind [demotedPending], by grind [demotedPending]⟩, _, rfl, ?_⟩
    exact not_lensFaithful _ 2 rfl (by decide)
  · refine ⟨⟨by decide, by grind [reactivatedLoser], by grind [reactivatedLoser]⟩, _, rfl, ?_⟩
    exact not_lensFaithful _ 4 rfl (by decide)

end ParticlesEngine
