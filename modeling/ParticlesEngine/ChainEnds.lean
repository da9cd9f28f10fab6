/-
**Following a function to its end.**

A relation that gives each element at most one next element, over a finite set of elements that have
one.  Following it either ends in an element with no next one or runs in a cycle.  This module names
nothing of a particular program.

Main definitions:

* `Functional` — an element has at most one next element;
* `EndsIn` — following the relation from an element ends in another.

Main results:

* `wellFounded_of_acyclic`, `exists_endsIn` — **without a cycle every element's chain ends**;
* `not_cycle_of_endsIn` — an element whose chain ends is on no cycle;
* `forall_endsIn_iff` — **every chain ends in an element with a property exactly when there is no
  cycle and every end has it**.
-/

import Mathlib.Data.Finset.Card
import Mathlib.Logic.Relation
import Mathlib.Order.WellFounded

set_option relaxedAutoImplicit false
set_option autoImplicit false

open Relation

namespace ChainEnds

variable {α : Type*} {R : α → α → Prop}

/-- An element has at most one next element. -/
def Functional (R : α → α → Prop) : Prop := ∀ a b c, R a b → R a c → b = c

/-- Following the relation from `a`, in at least one step, ends in `b`. -/
def EndsIn (R : α → α → Prop) (a b : α) : Prop := TransGen R a b ∧ ∀ c, ¬ R b c

/-- **Without a cycle the relation is well-founded**: each step leaves an element behind. -/
theorem wellFounded_of_acyclic {nodes : Finset α} (hnodes : ∀ a b, R a b → a ∈ nodes)
    (hacyclic : ∀ a, ¬ TransGen R a a) : WellFounded fun b a => R a b := by
  classical
  refine Subrelation.wf ?_ (measure fun a => (nodes.filter (ReflTransGen R a)).card).wf
  intro b a hab
  refine Finset.card_lt_card ⟨fun c hc => ?_, fun hsub => ?_⟩
  · obtain ⟨hc, hbc⟩ := Finset.mem_filter.1 hc
    exact Finset.mem_filter.2 ⟨hc, hbc.head hab⟩
  · have ha : a ∈ nodes.filter (ReflTransGen R a) :=
      Finset.mem_filter.2 ⟨hnodes a b hab, ReflTransGen.refl⟩
    obtain ⟨-, hba⟩ := Finset.mem_filter.1 (hsub ha)
    exact hacyclic a (TransGen.head' hab hba)

/-- **Without a cycle every chain ends.** -/
theorem exists_endsIn {nodes : Finset α} (hnodes : ∀ a b, R a b → a ∈ nodes)
    (hacyclic : ∀ a, ¬ TransGen R a a) {a b : α} (hab : R a b) : ∃ c, EndsIn R a c := by
  induction a using (wellFounded_of_acyclic hnodes hacyclic).induction generalizing b with
  | _ a ih =>
      by_cases hend : ∃ c, R b c
      · obtain ⟨c, hbc⟩ := hend
        obtain ⟨d, hbd, hd⟩ := ih b hab hbc
        exact ⟨d, hbd.head hab, hd⟩
      · exact ⟨b, TransGen.single hab, not_exists.1 hend⟩

/-- **An element whose chain ends is on no cycle.**  Taking a step keeps an element on its cycle, and
the end takes none. -/
theorem not_cycle_of_endsIn (hfun : Functional R) {a b : α} (h : EndsIn R a b) :
    ¬ TransGen R a a := by
  obtain ⟨hchain, hend⟩ := h
  have hpath := hchain.to_reflTransGen
  clear hchain
  induction hpath using ReflTransGen.head_induction_on with
  | refl =>
      intro hcycle
      obtain ⟨c, hbc, -⟩ := TransGen.head'_iff.1 hcycle
      exact hend c hbc
  | @head a c hac _ ih =>
      intro hcycle
      obtain ⟨d, had, hda⟩ := TransGen.head'_iff.1 hcycle
      obtain rfl := hfun a c d hac had
      exact ih (TransGen.tail' hda hac)

/-- A chain that begins with a step to an end ends there. -/
theorem EndsIn.eq_of_step (hfun : Functional R) {a b c : α} (h : EndsIn R a c) (hab : R a b)
    (hb : ∀ d, ¬ R b d) : c = b := by
  obtain ⟨d, had, hdc⟩ := TransGen.head'_iff.1 h.1
  obtain rfl := hfun a b d hab had
  rcases ReflTransGen.cases_head hdc with heq | ⟨e, hbe, -⟩
  · exact heq.symm
  · exact absurd hbe (hb e)

/-- **Every chain ends in an element with a property exactly when there is no cycle and every end has
the property.** -/
theorem forall_endsIn_iff (hfun : Functional R) {nodes : Finset α}
    (hnodes : ∀ a b, R a b → a ∈ nodes) {p : α → Prop} :
    (∀ a b, R a b → ∃ c, EndsIn R a c ∧ p c) ↔
      (∀ a, ¬ TransGen R a a) ∧ ∀ a b, R a b → (∀ c, ¬ R b c) → p b := by
  constructor
  · intro h
    constructor
    · intro a hcycle
      obtain ⟨b, hab, -⟩ := TransGen.head'_iff.1 hcycle
      obtain ⟨c, hends, -⟩ := h a b hab
      exact not_cycle_of_endsIn hfun hends hcycle
    · intro a b hab hb
      obtain ⟨c, hends, hc⟩ := h a b hab
      rwa [← hends.eq_of_step hfun hab hb]
  · rintro ⟨hacyclic, hp⟩ a b hab
    obtain ⟨c, hends⟩ := exists_endsIn hnodes hacyclic hab
    obtain ⟨d, -, hdc⟩ := TransGen.tail'_iff.1 hends.1
    exact ⟨c, hends, hp d c hdc hends.2⟩

end ChainEnds
