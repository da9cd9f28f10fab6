/-
**Statuses and the transition table.**

The status of a particle and the reason recorded with it, and the normative transition table that
every status write is checked against.  The table itself lives in the core package, keyed on the
status alone, with `None` as the status of a particle that does not exist yet.  It enters here as
a structure whose fields are the edges that `tests/test_transitions.py` and the comments of the
store document; `TransitionTable.documented` is the table they describe.

Main definitions:

* `Status`, `StatusReason` — the two enumerations of the particle schema;
* `TransitionTable` — a table with the documented edges.

Main results:

* `TransitionTable.to_active`, `to_stale` — only a SUPERSEDED particle can become ACTIVE, and only an
  ACTIVE one can be demoted;
* `TransitionTable.to_inconsistency` — no other status leads to INCONSISTENCY.
-/

import Mathlib.Order.Basic

set_option relaxedAutoImplicit false
set_option autoImplicit false

namespace ParticlesEngine

/-- `particles.core.status.Status`. -/
inductive Status where
  | ACTIVE
  | INCONSISTENCY
  | PROVENANCE_STALE
  | SUPERSEDED
  | RETRACTED
  deriving DecidableEq, Repr

/-- `particles.core.status.StatusReason`: the cause of the current non-ACTIVE status. -/
inductive StatusReason where
  | RETRACTED_DEPENDENCY
  | CORPUS_ENTRY_MISSING
  | TRUST_DEMOTED
  | LOWER_TRUST_SOURCE
  | SUPERSEDED_BY_REINDEX
  | VALIDITY_EXPIRED
  | CONFLICT_RESOLVED
  | CONFLICT_PENDING
  | EXPLICIT_RETRACTION
  | SOURCE_RETRACTED
  | EXPLICIT_SUPERSESSION
  | DOCUMENT_SUPERSEDED
  | SUPERSEDED_BY_UPDATE
  | SUPERSEDED_BY_REANCHOR
  | DUPLICATE_MERGED
  deriving DecidableEq, Repr

/-- The one reason under which a supersession may be withdrawn: an automatic merge. -/
def REVERSIBLE_SUPERSESSION_REASON : StatusReason := .DUPLICATE_MERGED

/-- The normative transition table of the core package, with its documented edges. -/
structure TransitionTable where
  /-- `validate_transition` accepts the edge -/
  allows : Option Status → Status → Bool
  /-- the three births -/
  birth : ∀ s, allows none s = true ↔
    s = .ACTIVE ∨ s = .INCONSISTENCY ∨ s = .PROVENANCE_STALE
  /-- an ACTIVE particle can be superseded, retracted or demoted -/
  from_active : ∀ s, allows (some .ACTIVE) s = true ↔
    s = .SUPERSEDED ∨ s = .RETRACTED ∨ s = .PROVENANCE_STALE
  /-- a demoted particle can only be retracted or superseded -/
  from_stale : ∀ s, allows (some .PROVENANCE_STALE) s = true ↔
    s = .RETRACTED ∨ s = .SUPERSEDED
  /-- a record is never believed, and only a re-set keeps it a record -/
  from_inconsistency : ∀ s, allows (some .INCONSISTENCY) s = true →
    s = .INCONSISTENCY ∨ s = .RETRACTED ∨ s = .SUPERSEDED
  /-- the only exit from a terminal status -/
  from_superseded : ∀ s, allows (some .SUPERSEDED) s = true ↔ s = .ACTIVE
  /-- a retraction is final -/
  from_retracted : ∀ s, allows (some .RETRACTED) s = false

namespace TransitionTable

variable (table : TransitionTable)

/-- Only a SUPERSEDED particle can become ACTIVE. -/
theorem to_active {s : Status} (h : table.allows (some s) .ACTIVE = true) : s = .SUPERSEDED := by
  cases s with
  | ACTIVE => simp [table.from_active] at h
  | INCONSISTENCY => simpa using table.from_inconsistency _ h
  | PROVENANCE_STALE => simp [table.from_stale] at h
  | SUPERSEDED => rfl
  | RETRACTED => simp [table.from_retracted] at h

/-- Only an ACTIVE particle can be demoted. -/
theorem to_stale {s : Status} (h : table.allows (some s) .PROVENANCE_STALE = true) :
    s = .ACTIVE := by
  cases s with
  | ACTIVE => rfl
  | INCONSISTENCY => simpa using table.from_inconsistency _ h
  | PROVENANCE_STALE => simp [table.from_stale] at h
  | SUPERSEDED => simp [table.from_superseded] at h
  | RETRACTED => simp [table.from_retracted] at h

/-- No other status leads to INCONSISTENCY. -/
theorem to_inconsistency {s : Status} (h : table.allows (some s) .INCONSISTENCY = true) :
    s = .INCONSISTENCY := by
  cases s with
  | ACTIVE => simp [table.from_active] at h
  | INCONSISTENCY => rfl
  | PROVENANCE_STALE => simp [table.from_stale] at h
  | SUPERSEDED => simp [table.from_superseded] at h
  | RETRACTED => simp [table.from_retracted] at h

/-- The table that the tests and comments describe. -/
def documented : TransitionTable where
  allows
    | none, s => s = .ACTIVE ∨ s = .INCONSISTENCY ∨ s = .PROVENANCE_STALE
    | some .ACTIVE, s => s = .SUPERSEDED ∨ s = .RETRACTED ∨ s = .PROVENANCE_STALE
    | some .PROVENANCE_STALE, s => s = .RETRACTED ∨ s = .SUPERSEDED
    | some .INCONSISTENCY, s => s = .INCONSISTENCY ∨ s = .RETRACTED
    | some .SUPERSEDED, s => s = .ACTIVE
    | some .RETRACTED, _ => false
  birth := by intro s; cases s <;> decide
  from_active := by intro s; cases s <;> decide
  from_stale := by intro s; cases s <;> decide
  from_inconsistency := by intro s; cases s <;> decide
  from_superseded := by intro s; cases s <;> decide
  from_retracted := by intro s; rfl

end TransitionTable

end ParticlesEngine
