/-
**Runs of a partial step function.**

A component is given by a state type, an action type and a partial step function: `none` means
that the action is refused in that state.  A run is a list of actions, none of them refused.  This
module names nothing of a particular component; it packages the induction over a run once.

Main definitions:

* `run` — the state after a list of actions;
* `StepsMeet` — a condition on a state and an action holds at every step of a run.

Main results:

* `run_append` — a run splits at any point;
* `run_invariant` — **a property that every step preserves holds after every run**;
* `run_bounded`, `exists_run_down` — a measure that every step lowers bounds the run, and one that can
  always be lowered comes to its end;
* `StepsMeet.invariant` — the same when every step of the run meets a condition;
* `stepsMeet_cons` — the condition along a run, checked step after step.
-/

import Mathlib.Data.List.Induction

set_option relaxedAutoImplicit false
set_option autoImplicit false

namespace Runs

variable {σ α : Type*} {step : σ → α → Option σ}

/-- The state after a list of actions; `none` once an action is refused. -/
def run (step : σ → α → Option σ) : σ → List α → Option σ
  | s, [] => some s
  | s, a :: as => (step s a).bind fun s' => run step s' as

@[simp] theorem run_nil (s : σ) : run step s [] = some s := rfl

theorem run_cons (s : σ) (a : α) (as : List α) :
    run step s (a :: as) = (step s a).bind fun s' => run step s' as := rfl

theorem run_cons_eq_some {s t : σ} {a : α} {as : List α} :
    run step s (a :: as) = some t ↔ ∃ s', step s a = some s' ∧ run step s' as = some t := by
  rw [run_cons, Option.bind_eq_some_iff]

theorem run_append (s : σ) (as bs : List α) :
    run step s (as ++ bs) = (run step s as).bind fun s' => run step s' bs := by
  induction as generalizing s with
  | nil => rfl
  | cons a as ih =>
      rw [List.cons_append, run_cons, run_cons, Option.bind_assoc]
      cases step s a with
      | none => rfl
      | some s' => exact ih s'

theorem run_append_eq_some {s t : σ} {as bs : List α} :
    run step s (as ++ bs) = some t ↔
      ∃ s', run step s as = some s' ∧ run step s' bs = some t := by
  rw [run_append, Option.bind_eq_some_iff]

theorem run_concat_eq_some {s t : σ} {as : List α} {a : α} :
    run step s (as ++ [a]) = some t ↔ ∃ s', run step s as = some s' ∧ step s' a = some t := by
  rw [run_append_eq_some]
  simp [run_cons]

/-- **A property that every step preserves holds after every run.** -/
theorem run_invariant (Inv : σ → Prop)
    (hstep : ∀ s a s', Inv s → step s a = some s' → Inv s') :
    ∀ {as : List α} {s t : σ}, Inv s → run step s as = some t → Inv t := by
  intro as
  induction as with
  | nil =>
      intro s t hs hrun
      obtain rfl := Option.some.inj hrun
      exact hs
  | cons a as ih =>
      intro s t hs hrun
      obtain ⟨s', hs', hrest⟩ := run_cons_eq_some.1 hrun
      exact ih (hstep s a s' hs hs') hrest

/-- The same rule when a step preserves the property only for the actions that satisfy `P`. -/
theorem run_invariant_of_forall (Inv : σ → Prop) (P : α → Prop)
    (hstep : ∀ s a s', Inv s → P a → step s a = some s' → Inv s') :
    ∀ {as : List α} {s t : σ}, (∀ a ∈ as, P a) → Inv s → run step s as = some t → Inv t := by
  intro as
  induction as with
  | nil =>
      intro s t _ hs hrun
      obtain rfl := Option.some.inj hrun
      exact hs
  | cons a as ih =>
      intro s t hP hs hrun
      obtain ⟨s', hs', hrest⟩ := run_cons_eq_some.1 hrun
      exact ih (fun b hb => hP b (List.mem_cons_of_mem _ hb))
        (hstep s a s' hs (hP a List.mem_cons_self) hs') hrest

/-! ### Runs that come to an end -/

/-- When every step of a kind lowers a measure, a run of them is no longer than what it went down. -/
theorem run_bounded (Inv : σ → Prop) (P : α → Prop) (measure : σ → ℕ)
    (hstep : ∀ s a s', Inv s → P a → step s a = some s' → Inv s' ∧ measure s' < measure s) :
    ∀ {as : List α} {s t : σ}, (∀ a ∈ as, P a) → Inv s → run step s as = some t →
      Inv t ∧ as.length + measure t ≤ measure s := by
  intro as
  induction as with
  | nil =>
      intro s t _ hs hrun
      obtain rfl := Option.some.inj hrun
      exact ⟨hs, Nat.le_of_eq (Nat.zero_add _)⟩
  | cons a as ih =>
      intro s t hP hs hrun
      obtain ⟨s', hs', hrest⟩ := run_cons_eq_some.1 hrun
      obtain ⟨hInv, hlt⟩ := hstep s a s' hs (hP a List.mem_cons_self) hs'
      obtain ⟨ht, hle⟩ := ih (fun b hb => hP b (List.mem_cons_of_mem _ hb)) hInv hrest
      refine ⟨ht, ?_⟩
      rw [List.length_cons]
      omega

/-- **And when there is one to take as long as the measure is not down, a run takes it down.** -/
theorem exists_run_down (Inv : σ → Prop) (P : α → Prop) (measure : σ → ℕ)
    (hstep : ∀ s a s', Inv s → P a → step s a = some s' → Inv s' ∧ measure s' < measure s)
    (hnext : ∀ s, Inv s → measure s ≠ 0 → ∃ a s', P a ∧ step s a = some s') {s : σ} (hs : Inv s) :
    ∃ as t, (∀ a ∈ as, P a) ∧ run step s as = some t ∧ Inv t ∧ measure t = 0 := by
  induction hm : measure s using Nat.strongRecOn generalizing s with
  | ind m ih =>
      by_cases hzero : measure s = 0
      · exact ⟨[], s, fun _ h => absurd h List.not_mem_nil, rfl, hs, hzero⟩
      · obtain ⟨a, s', ha, hs'⟩ := hnext s hs hzero
        obtain ⟨hInv, hlt⟩ := hstep s a s' hs ha hs'
        obtain ⟨as, t, has, hrun, hend⟩ := ih (measure s') (hm ▸ hlt) hInv rfl
        refine ⟨a :: as, t, fun b hb => ?_, run_cons_eq_some.2 ⟨s', hs', hrun⟩, hend⟩
        rcases List.mem_cons.1 hb with rfl | hrest
        · exact ha
        · exact has b hrest

/-! ### Runs whose steps meet a condition -/

/-- Every step that the run takes meets the condition, in the state before it. -/
def StepsMeet (step : σ → α → Option σ) (Meets : σ → α → Prop) (start : σ) (as : List α) : Prop :=
  ∀ before a after s, as = before ++ a :: after → run step start before = some s → Meets s a

@[simp] theorem stepsMeet_nil {Meets : σ → α → Prop} {start : σ} : StepsMeet step Meets start [] := by
  intro before a after s has
  simp at has

/-- The steps of a run meet the condition when the first one does, and then the others do. -/
theorem stepsMeet_cons {Meets : σ → α → Prop} {start : σ} {a : α} {as : List α} :
    StepsMeet step Meets start (a :: as) ↔
      Meets start a ∧ ∀ s, step start a = some s → StepsMeet step Meets s as := by
  constructor
  · intro h
    refine ⟨h [] a as start rfl rfl, fun s hs before b after t has hrun => ?_⟩
    exact h (a :: before) b after t (by rw [has, List.cons_append])
      (run_cons_eq_some.2 ⟨s, hs, hrun⟩)
  · rintro ⟨hfirst, hrest⟩ before b after t has hrun
    cases before with
    | nil =>
        obtain ⟨rfl, rfl⟩ := List.cons_eq_cons.1 has
        obtain rfl := Option.some.inj hrun
        exact hfirst
    | cons c before =>
        obtain ⟨rfl, hrest'⟩ := List.cons_eq_cons.1 has
        obtain ⟨s, hs, hrun⟩ := run_cons_eq_some.1 hrun
        exact hrest s hs before b after t hrest' hrun

/-- The first steps of a run whose steps meet the condition meet it. -/
theorem StepsMeet.left {Meets : σ → α → Prop} {start : σ} {as bs : List α}
    (h : StepsMeet step Meets start (as ++ bs)) : StepsMeet step Meets start as := by
  intro before a after s has hrun
  exact h before a (after ++ bs) s (by rw [has, List.append_assoc, List.cons_append]) hrun

/-- And so do the others, from the state that the first ones reach. -/
theorem StepsMeet.right {Meets : σ → α → Prop} {start s : σ} {as bs : List α}
    (h : StepsMeet step Meets start (as ++ bs)) (hs : run step start as = some s) :
    StepsMeet step Meets s bs := by
  intro before a after t has hrun
  exact h (as ++ before) a after t (by rw [has, List.append_assoc])
    (run_append_eq_some.2 ⟨s, hs, hrun⟩)

/-- A decidable condition is decided along a run. -/
instance StepsMeet.decidable {Meets : σ → α → Prop} [∀ s, DecidablePred (Meets s)] :
    ∀ (start : σ) (as : List α), Decidable (StepsMeet step Meets start as)
  | _, [] => isTrue stepsMeet_nil
  | start, a :: as =>
      have (s : σ) : Decidable (StepsMeet step Meets s as) := StepsMeet.decidable s as
      decidable_of_iff (Meets start a ∧ ∀ s ∈ step start a, StepsMeet step Meets s as)
        stepsMeet_cons.symm

/-- **A property that a step preserves under a condition holds throughout a run whose steps meet the
condition.** -/
theorem StepsMeet.invariant {Meets : σ → α → Prop} {start : σ} {as : List α} (Inv : σ → Prop)
    (hstep : ∀ s a s', Inv s → Meets s a → step s a = some s' → Inv s')
    (hmeets : StepsMeet step Meets start as) (hstart : Inv start) :
    ∀ {before after : List α} {s : σ}, as = before ++ after →
      run step start before = some s → Inv s := by
  intro before
  induction before using List.reverseRecOn with
  | nil =>
      intro after s _ hrun
      obtain rfl := Option.some.inj hrun
      exact hstart
  | append_singleton before a ih =>
      intro after s has hrun
      obtain ⟨s', hrun', hs⟩ := run_concat_eq_some.1 hrun
      have has' : as = before ++ a :: after := by simpa using has
      exact hstep s' a s (ih has' hrun') (hmeets before a after s' has' hrun') hs

end Runs
