/-
**Greedy matching.**

A greedy matching goes through a list of edges, best first, and keeps each edge whose two ends are both
free.  Whatever the graph, an edge it leaves out has an end that an edge kept before it has taken, and
that one is no worse.  This module names nothing of a particular program.

Main definitions:

* `greedy` — the edges kept, given the ends that are taken from the start.

Main results:

* `nodup_left`, `nodup_right` — no end is taken twice;
* `exists_better_of_not_mem` — **an edge left out meets an edge kept that comes before it**.
-/

import Mathlib.Data.List.Nodup

set_option relaxedAutoImplicit false
set_option autoImplicit false

namespace GreedyMatching

variable {ε κ ρ : Type*} [DecidableEq κ] [DecidableEq ρ] {left : ε → κ} {right : ε → ρ}

/-- Keep each edge whose two ends are free. -/
def greedy (left : ε → κ) (right : ε → ρ) : List κ → List ρ → List ε → List ε
  | _, _, [] => []
  | usedLeft, usedRight, e :: edges =>
      if left e ∈ usedLeft ∨ right e ∈ usedRight then greedy left right usedLeft usedRight edges
      else e :: greedy left right (left e :: usedLeft) (right e :: usedRight) edges

theorem greedy_cons (usedLeft : List κ) (usedRight : List ρ) (e : ε) (edges : List ε) :
    greedy left right usedLeft usedRight (e :: edges) =
      if left e ∈ usedLeft ∨ right e ∈ usedRight then greedy left right usedLeft usedRight edges
      else e :: greedy left right (left e :: usedLeft) (right e :: usedRight) edges := rfl

theorem greedy_sublist (edges : List ε) : ∀ (usedLeft : List κ) (usedRight : List ρ),
    (greedy left right usedLeft usedRight edges).Sublist edges := by
  induction edges with
  | nil =>
      intro usedLeft usedRight
      exact List.Sublist.refl _
  | cons e edges ih =>
      intro usedLeft usedRight
      rw [greedy_cons]
      split_ifs
      · exact (ih _ _).cons e
      · exact (ih _ _).cons_cons e

/-- An edge that is kept has free ends. -/
theorem free_of_mem_greedy {edges : List ε} : ∀ {usedLeft : List κ} {usedRight : List ρ} {e : ε},
    e ∈ greedy left right usedLeft usedRight edges → left e ∉ usedLeft ∧ right e ∉ usedRight := by
  induction edges with
  | nil =>
      intro usedLeft usedRight e h
      cases h
  | cons f edges ih =>
      intro usedLeft usedRight e h
      rw [greedy_cons] at h
      split_ifs at h with htaken
      · exact ih h
      · rcases List.mem_cons.1 h with rfl | h
        · exact not_or.1 htaken
        · obtain ⟨hleft, hright⟩ := ih h
          exact ⟨fun hmem => hleft (List.mem_cons_of_mem _ hmem),
            fun hmem => hright (List.mem_cons_of_mem _ hmem)⟩

/-- Edges that are kept share no end. -/
theorem pairwise_greedy (edges : List ε) : ∀ (usedLeft : List κ) (usedRight : List ρ),
    (greedy left right usedLeft usedRight edges).Pairwise
      fun e f => left e ≠ left f ∧ right e ≠ right f := by
  induction edges with
  | nil =>
      intro usedLeft usedRight
      exact List.Pairwise.nil
  | cons e edges ih =>
      intro usedLeft usedRight
      rw [greedy_cons]
      split_ifs
      · exact ih _ _
      · refine List.pairwise_cons.2 ⟨fun f hf => ?_, ih _ _⟩
        obtain ⟨hleft, hright⟩ := free_of_mem_greedy hf
        exact ⟨fun heq => hleft (heq ▸ List.mem_cons_self),
          fun heq => hright (heq ▸ List.mem_cons_self)⟩

/-- No left end is taken twice. -/
theorem nodup_left (edges : List ε) (usedLeft : List κ) (usedRight : List ρ) :
    ((greedy left right usedLeft usedRight edges).map left).Nodup :=
  List.pairwise_map.2 ((pairwise_greedy edges usedLeft usedRight).imp And.left)

/-- No right end is taken twice. -/
theorem nodup_right (edges : List ε) (usedLeft : List κ) (usedRight : List ρ) :
    ((greedy left right usedLeft usedRight edges).map right).Nodup :=
  List.pairwise_map.2 ((pairwise_greedy edges usedLeft usedRight).imp And.right)

/-- **An edge left out meets an edge kept that comes before it**, unless one of its ends was taken from
the start. -/
theorem exists_better_of_not_mem {better : ε → ε → Prop} {edges : List ε} :
    ∀ {usedLeft : List κ} {usedRight : List ρ}, edges.Pairwise better → ∀ {e : ε}, e ∈ edges →
      e ∉ greedy left right usedLeft usedRight edges →
        left e ∈ usedLeft ∨ right e ∈ usedRight ∨
          ∃ f ∈ greedy left right usedLeft usedRight edges,
            better f e ∧ (left f = left e ∨ right f = right e) := by
  induction edges with
  | nil =>
      intro usedLeft usedRight _ e he
      cases he
  | cons f edges ih =>
      intro usedLeft usedRight hsorted e he hout
      obtain ⟨hf, hedges⟩ := List.pairwise_cons.1 hsorted
      rw [greedy_cons] at hout ⊢
      split_ifs at hout ⊢ with htaken
      · rcases List.mem_cons.1 he with rfl | he
        · exact htaken.elim Or.inl fun h => Or.inr (Or.inl h)
        · exact ih hedges he hout
      · rw [List.mem_cons, not_or] at hout
        have he' : e ∈ edges := (List.mem_cons.1 he).resolve_left hout.1
        -- an end that is taken in what follows was taken before, or by this edge
        rcases ih hedges he' hout.2 with hleft | hright | ⟨g, hg, hbetter, hends⟩
        · rcases List.mem_cons.1 hleft with heq | hleft
          · exact Or.inr (Or.inr ⟨f, List.mem_cons_self, hf e he', Or.inl heq.symm⟩)
          · exact Or.inl hleft
        · rcases List.mem_cons.1 hright with heq | hright
          · exact Or.inr (Or.inr ⟨f, List.mem_cons_self, hf e he', Or.inr heq.symm⟩)
          · exact Or.inr (Or.inl hright)
        · exact Or.inr (Or.inr ⟨g, List.mem_cons_of_mem _ hg, hbetter, hends⟩)

end GreedyMatching
