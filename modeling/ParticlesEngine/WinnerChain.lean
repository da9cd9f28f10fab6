/-
**Chains of winners.**

A sequence of demotions, each a loser and the winner it was demoted in favour of, oldest first.
When no winner was a loser of an earlier demotion, following winners from any loser leads to an
element that was never demoted, whatever the pairs were.  This module names nothing of a particular
program.

Main definitions:

* `losers`, `Leads` — the elements demoted, and the step from a loser to its winner;
* `Fresh` — no winner was demoted before it won.

Main results:

* `fresh_concat` — what one more demotion needs;
* `Fresh.exists_top` — **following winners from a loser reaches one that is no loser**.
-/

import Mathlib.Data.List.Pairwise
import Mathlib.Logic.Relation

set_option relaxedAutoImplicit false
set_option autoImplicit false

open Relation

namespace WinnerChain

variable {α : Type*}

/-- The elements demoted. -/
def losers (demotions : List (α × α)) : List α := demotions.map Prod.fst

/-- `a` was demoted in favour of `b`. -/
def Leads (demotions : List (α × α)) (a b : α) : Prop := (a, b) ∈ demotions

/-- No winner is its own loser or the loser of an earlier demotion. -/
def Fresh (demotions : List (α × α)) : Prop :=
  demotions.Pairwise (fun earlier later => later.2 ≠ earlier.1) ∧ ∀ d ∈ demotions, d.2 ≠ d.1

variable {demotions : List (α × α)} {d : α × α}

theorem mem_losers {a : α} : a ∈ losers demotions ↔ ∃ b, (a, b) ∈ demotions := by
  simp [losers]

theorem losers_concat (demotions : List (α × α)) (d : α × α) :
    losers (demotions ++ [d]) = losers demotions ++ [d.1] := by
  simp [losers]

theorem fresh_nil : Fresh ([] : List (α × α)) := ⟨List.Pairwise.nil, by simp⟩

/-- One more demotion keeps the sequence fresh when its winner was not demoted yet. -/
theorem fresh_concat (h : Fresh demotions) (hself : d.2 ≠ d.1) (hnew : d.2 ∉ losers demotions) :
    Fresh (demotions ++ [d]) := by
  constructor
  · rw [List.pairwise_append]
    refine ⟨h.1, List.pairwise_singleton _ d, ?_⟩
    intro earlier hearlier later hlater hsame
    obtain rfl := List.mem_singleton.1 hlater
    exact hnew (mem_losers.2 ⟨earlier.2, by rw [hsame]; exact hearlier⟩)
  · intro e he
    rcases List.mem_append.1 he with he | he
    · exact h.2 e he
    · obtain rfl := List.mem_singleton.1 he
      exact hself

theorem Leads.mono {demotions' : List (α × α)} (hsub : demotions ⊆ demotions') {a b : α}
    (h : TransGen (Leads demotions) a b) : TransGen (Leads demotions') a b := by
  have hleads : Leads demotions ≤ Leads demotions' := fun _ _ hab => hsub hab
  exact TransGen.mono hleads a b h

/-- **Following winners from a loser reaches a winner that was not demoted.**  The induction takes
the oldest demotion off: the others never win for its loser. -/
theorem Fresh.exists_top (h : Fresh demotions) :
    ∀ d ∈ demotions, ∃ top, TransGen (Leads demotions) d.1 top ∧
      (∃ loser, (loser, top) ∈ demotions) ∧ top ∉ losers demotions := by
  induction demotions with
  | nil => simp
  | cons first rest ih =>
      obtain ⟨hpairs, hself⟩ := h
      obtain ⟨hfirst, hrest⟩ := List.pairwise_cons.1 hpairs
      have ih' := ih ⟨hrest, fun e he => hself e (List.mem_cons_of_mem _ he)⟩
      have hlift : ∀ e ∈ rest, ∃ top, TransGen (Leads (first :: rest)) e.1 top ∧
          (∃ loser, (loser, top) ∈ first :: rest) ∧ top ∉ losers (first :: rest) := by
        intro e he
        obtain ⟨top, hchain, ⟨loser, hloser⟩, htop⟩ := ih' e he
        refine ⟨top, Leads.mono (List.subset_cons_self _ _) hchain,
          ⟨loser, List.mem_cons_of_mem _ hloser⟩, ?_⟩
        intro hmem
        rcases List.mem_cons.1 hmem with hsame | hmem
        · exact hfirst _ hloser hsame
        · exact htop hmem
      intro d hd
      rcases List.mem_cons.1 hd with rfl | hd
      · by_cases hwinner : d.2 ∈ losers rest
        · obtain ⟨next, hnext⟩ := mem_losers.1 hwinner
          obtain ⟨top, hchain, hwon, htop⟩ := hlift _ hnext
          exact ⟨top, TransGen.head List.mem_cons_self hchain, hwon, htop⟩
        · refine ⟨d.2, TransGen.single List.mem_cons_self, ⟨d.1, List.mem_cons_self⟩, ?_⟩
          intro hmem
          rcases List.mem_cons.1 hmem with hsame | hmem
          · exact hself d List.mem_cons_self hsame
          · exact hwinner hmem
      · exact hlift d hd

end WinnerChain
