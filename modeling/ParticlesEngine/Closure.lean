/-
**Reachability by levels.**

A walk that expands a frontier level by level, keeping the set of the nodes already seen, until a
level finds nothing new.  When every node reached by an edge lies in a finite set of nodes, the walk ends
and has seen exactly the nodes reachable from its seeds.  This module names nothing of a
particular graph.

Main definitions:

* `expand` — the walk, with a bound on the number of levels;
* `closure` — the walk from a set of seeds, with a bound that is large enough;
* `components` — the sets of nodes walked to, one start after the other;
* `levels` — the walk that also passes by what was seen before it began.

Main results:

* `mem_closure` — **the walk sees exactly the nodes reachable from a seed**;
* `closure_singleton_eq` — over a symmetric relation, any node of a component walks to all of it;
* `mem_levels`, `exists_levels` — **such a walk ends, and adds exactly what is reachable around what
  was seen**;
* `mem_components` — **over a symmetric relation the components are those of the starts**.
-/

import Mathlib.Data.Finset.Union
import Mathlib.Data.Finset.Card
import Mathlib.Logic.Relation

set_option relaxedAutoImplicit false
set_option autoImplicit false

open Relation

namespace Closure

variable {α : Type*} [DecidableEq α] {next : α → Finset α} {nodes seeds : Finset α}

/-- Expand a frontier level by level, for at most `fuel` levels. -/
def expand (next : α → Finset α) : ℕ → Finset α → Finset α → Finset α
  | 0, seen, _ => seen
  | fuel + 1, seen, frontier =>
      if frontier = ∅ then seen
      else
        let seen := seen ∪ frontier
        expand next fuel seen (frontier.biUnion next \ seen)

/-- The nodes seen from `seeds`, where every edge leads into `nodes`. -/
def closure (next : α → Finset α) (nodes seeds : Finset α) : Finset α :=
  expand next ((nodes ∪ seeds).card + 1) ∅ seeds

/-- Every node seen is reachable from one that was seen or waiting. -/
theorem reachable_of_mem_expand (fuel : ℕ) {seen frontier : Finset α} {a : α}
    (ha : a ∈ expand next fuel seen frontier) :
    ∃ s ∈ seen ∪ frontier, ReflTransGen (fun a b => b ∈ next a) s a := by
  induction fuel generalizing seen frontier with
  | zero => exact ⟨a, Finset.mem_union_left _ ha, ReflTransGen.refl⟩
  | succ fuel ih =>
      by_cases hfrontier : frontier = ∅
      · rw [expand, if_pos hfrontier] at ha
        exact ⟨a, Finset.mem_union_left _ ha, ReflTransGen.refl⟩
      · rw [expand, if_neg hfrontier] at ha
        obtain ⟨s, hs, hsa⟩ := ih ha
        rcases Finset.mem_union.1 hs with hs | hs
        · exact ⟨s, hs, hsa⟩
        · obtain ⟨r, hr, hrs⟩ := Finset.mem_biUnion.1 (Finset.mem_sdiff.1 hs).1
          exact ⟨r, Finset.mem_union_right _ hr, ReflTransGen.head hrs hsa⟩

/-- With enough fuel the walk keeps what it holds and ends closed under the edges.  Each level that
finds a node shrinks what is left of the nodes. -/
theorem expand_closed (hnodes : ∀ a, next a ⊆ nodes) (fuel : ℕ) {seen frontier : Finset α}
    (hfrontier : frontier ⊆ nodes) (hnew : Disjoint frontier seen)
    (hseen : ∀ a ∈ seen, next a ⊆ seen ∪ frontier) (hfuel : (nodes \ seen).card < fuel) :
    seen ∪ frontier ⊆ expand next fuel seen frontier ∧
      ∀ a ∈ expand next fuel seen frontier, next a ⊆ expand next fuel seen frontier := by
  induction fuel generalizing seen frontier with
  | zero => omega
  | succ fuel ih =>
      by_cases hempty : frontier = ∅
      · subst hempty
        simp only [Finset.union_empty] at hseen ⊢
        rw [expand, if_pos rfl]
        exact ⟨Finset.Subset.refl _, hseen⟩
      · rw [expand, if_neg hempty]
        obtain ⟨b, hb⟩ := Finset.nonempty_iff_ne_empty.2 hempty
        have hless : (nodes \ (seen ∪ frontier)).card < (nodes \ seen).card := by
          refine Finset.card_lt_card ⟨?_, fun hsub => ?_⟩
          · exact Finset.sdiff_subset_sdiff (Finset.Subset.refl _) Finset.subset_union_left
          · have hmem := hsub (Finset.mem_sdiff.2 ⟨hfrontier hb, Finset.disjoint_left.1 hnew hb⟩)
            exact (Finset.mem_sdiff.1 hmem).2 (Finset.mem_union_right _ hb)
        have hrest : frontier.biUnion next \ (seen ∪ frontier) ⊆ nodes :=
          Finset.sdiff_subset.trans (Finset.biUnion_subset.2 fun a _ => hnodes a)
        have hclosed : ∀ a ∈ seen ∪ frontier,
            next a ⊆ seen ∪ frontier ∪ frontier.biUnion next \ (seen ∪ frontier) := by
          intro a ha
          rw [Finset.union_sdiff_self_eq_union]
          rcases Finset.mem_union.1 ha with ha | ha
          · exact (hseen a ha).trans Finset.subset_union_left
          · exact (Finset.subset_biUnion_of_mem next ha).trans Finset.subset_union_right
        obtain ⟨hkeep, hnext⟩ := ih hrest Finset.sdiff_disjoint hclosed (by omega)
        exact ⟨Finset.subset_union_left.trans hkeep, hnext⟩

/-- **The walk sees exactly the nodes reachable from a seed.** -/
theorem mem_closure (hnodes : ∀ a, next a ⊆ nodes) {a : α} :
    a ∈ closure next nodes seeds ↔
      ∃ s ∈ seeds, ReflTransGen (fun a b => b ∈ next a) s a := by
  constructor
  · intro ha
    obtain ⟨s, hs, hsa⟩ := reachable_of_mem_expand _ ha
    exact ⟨s, by simpa using hs, hsa⟩
  · rintro ⟨s, hs, hsa⟩
    have hwide : ∀ a, next a ⊆ nodes ∪ seeds := fun a =>
      (hnodes a).trans Finset.subset_union_left
    obtain ⟨hkeep, hnext⟩ := expand_closed hwide ((nodes ∪ seeds).card + 1)
      Finset.subset_union_right (Finset.disjoint_empty_right seeds) (by simp) (by simp)
    induction hsa with
    | refl => exact hkeep (by simpa using hs)
    | tail _ hbc ih => exact hnext _ ih hbc

/-- **A component is the same from each of its nodes.** -/
theorem closure_singleton_eq (hnodes : ∀ a, next a ⊆ nodes)
    (hsymm : ∀ a b, b ∈ next a → a ∈ next b) {a b : α} (hb : b ∈ closure next nodes {a}) :
    closure next nodes {b} = closure next nodes {a} := by
  have : Std.Symm fun a b => b ∈ next a := ⟨hsymm⟩
  have hback : ∀ c d, ReflTransGen (fun a b => b ∈ next a) c d →
      ReflTransGen (fun a b => b ∈ next a) d c := ReflTransGen.stdSymm.symm
  obtain ⟨s, hs, hab⟩ := (mem_closure hnodes).1 hb
  obtain rfl := Finset.mem_singleton.1 hs
  ext c
  rw [mem_closure hnodes, mem_closure hnodes]
  constructor
  · rintro ⟨r, hr, hrc⟩
    obtain rfl := Finset.mem_singleton.1 hr
    exact ⟨s, Finset.mem_singleton_self s, hab.trans hrc⟩
  · rintro ⟨r, hr, hrc⟩
    obtain rfl := Finset.mem_singleton.1 hr
    exact ⟨b, Finset.mem_singleton_self b, (hback _ _ hab).trans hrc⟩

/-! ### Components -/

/-- The component of each start that no earlier one has reached. -/
def components (next : α → Finset α) (nodes : Finset α) (starts : List α) : List (Finset α) :=
  starts.foldl (fun found start =>
    if found.any fun c => start ∈ c then found else found ++ [closure next nodes {start}]) []

theorem components_concat (starts : List α) (start : α) :
    components next nodes (starts ++ [start]) =
      if (components next nodes starts).any fun c => start ∈ c then components next nodes starts
      else components next nodes starts ++ [closure next nodes {start}] := by
  simp only [components, List.foldl_append, List.foldl_cons, List.foldl_nil]
  rfl

/-- **The components are those of the starts.** -/
theorem mem_components (hnodes : ∀ a, next a ⊆ nodes) (hsymm : ∀ a b, b ∈ next a → a ∈ next b)
    {starts : List α} {c : Finset α} :
    c ∈ components next nodes starts ↔ ∃ start ∈ starts, closure next nodes {start} = c := by
  induction starts using List.reverseRecOn generalizing c with
  | nil => simp [components]
  | append_singleton starts start ih =>
      have hlast : (∃ s ∈ starts ++ [start], closure next nodes {s} = c) ↔
          (∃ s ∈ starts, closure next nodes {s} = c) ∨ closure next nodes {start} = c := by
        simp [or_and_right, exists_or]
      rw [components_concat, hlast, ← ih]
      split_ifs with hfound
      · -- an earlier start has reached this one, so their components are the same
        obtain ⟨d, hd, hmem⟩ := List.any_eq_true.1 hfound
        constructor
        · exact Or.inl
        · rintro (h | rfl)
          · exact h
          · obtain ⟨s, -, rfl⟩ := ih.1 hd
            rw [closure_singleton_eq hnodes hsymm (of_decide_eq_true hmem)]
            exact hd
      · simp [eq_comm]

/-- No node is in two components. -/
theorem pairwise_disjoint_components (hnodes : ∀ a, next a ⊆ nodes)
    (hsymm : ∀ a b, b ∈ next a → a ∈ next b) (starts : List α) :
    (components next nodes starts).Pairwise Disjoint := by
  induction starts using List.reverseRecOn with
  | nil => exact List.Pairwise.nil
  | append_singleton starts start ih =>
      rw [components_concat]
      split_ifs with hfound
      · exact ih
      · refine List.pairwise_append.2 ⟨ih, List.pairwise_singleton _ _, fun c hc d hd => ?_⟩
        obtain rfl := List.mem_singleton.1 hd
        refine Finset.disjoint_left.2 fun a hac had => hfound (List.any_eq_true.2 ⟨c, hc, ?_⟩)
        obtain ⟨s, -, rfl⟩ := (mem_components hnodes hsymm).1 hc
        have hsame : closure next nodes {start} = closure next nodes {s} :=
          (closure_singleton_eq hnodes hsymm had).symm.trans (closure_singleton_eq hnodes hsymm hac)
        refine decide_eq_true ?_
        rw [← hsame, mem_closure hnodes]
        exact ⟨start, Finset.mem_singleton_self start, ReflTransGen.refl⟩

/-! ### A walk beside what was seen -/

section Levels

variable {step : Finset α → Finset α} {edge : α → α → Prop} {expanded frontier result : Finset α}

/-- Expand a frontier level by level, adding to what has been expanded and passing by it, until a
level finds nothing new; nothing when the levels do not suffice. -/
def levels (step : Finset α → Finset α) : ℕ → Finset α → Finset α → Option (Finset α)
  | 0, _, _ => none
  | fuel + 1, expanded, frontier =>
      let found := step frontier \ expanded
      if found = ∅ then some expanded else levels step fuel (expanded ∪ found) found

/-- The nodes reachable from a frontier without entering what was expanded before. -/
def ReachableAround (edge : α → α → Prop) (expanded frontier : Finset α) (a : α) : Prop :=
  ∃ s ∈ frontier, ReflTransGen (fun a b => edge a b ∧ b ∉ expanded) s a

/-- The walk keeps what was expanded. -/
theorem subset_levels {fuel : ℕ} (h : levels step fuel expanded frontier = some result) :
    expanded ⊆ result := by
  induction fuel generalizing expanded frontier with
  | zero => cases h
  | succ fuel ih =>
      rw [levels] at h
      split_ifs at h with hempty
      · rw [Option.some.inj h]
      · exact Finset.subset_union_left.trans (ih h)

/-- The walk ends closed under the steps from the frontier and from what it has added. -/
theorem levels_closed {fuel : ℕ} (hstep : ∀ set b, b ∈ step set ↔ ∃ a ∈ set, edge a b)
    (h : levels step fuel expanded frontier = some result) :
    ∀ a, a ∈ frontier ∨ (a ∈ result ∧ a ∉ expanded) → ∀ b, edge a b → b ∈ result := by
  induction fuel generalizing expanded frontier with
  | zero => cases h
  | succ fuel ih =>
      rw [levels] at h
      split_ifs at h with hempty
      · obtain rfl := Option.some.inj h
        rintro a (ha | ⟨ha, hnot⟩) b hab
        · exact Finset.sdiff_eq_empty_iff_subset.1 hempty ((hstep _ b).2 ⟨a, ha, hab⟩)
        · exact absurd ha hnot
      · rintro a (ha | ⟨ha, hnot⟩) b hab
        · refine subset_levels h ?_
          have hb : b ∈ step frontier := (hstep _ b).2 ⟨a, ha, hab⟩
          rw [Finset.union_sdiff_self_eq_union]
          exact Finset.mem_union_right _ hb
        · by_cases hfound : a ∈ step frontier \ expanded
          · exact ih h a (Or.inl hfound) b hab
          · exact ih h a (Or.inr ⟨ha, fun hin => (Finset.mem_union.1 hin).elim hnot hfound⟩) b hab

/-- What the walk adds is reachable around what was expanded. -/
theorem reachable_of_mem_levels {fuel : ℕ} (hstep : ∀ set b, b ∈ step set ↔ ∃ a ∈ set, edge a b)
    (h : levels step fuel expanded frontier = some result) {a : α} (ha : a ∈ result) :
    a ∈ expanded ∨ ReachableAround edge expanded frontier a := by
  induction fuel generalizing expanded frontier with
  | zero => cases h
  | succ fuel ih =>
      rw [levels] at h
      split_ifs at h with hempty
      · rw [Option.some.inj h]
        exact Or.inl ha
      · have hfound : ∀ b ∈ step frontier \ expanded,
            ReachableAround edge expanded frontier b := by
          intro b hb
          obtain ⟨hb, hnot⟩ := Finset.mem_sdiff.1 hb
          obtain ⟨s, hs, hsb⟩ := (hstep _ b).1 hb
          exact ⟨s, hs, ReflTransGen.single ⟨hsb, hnot⟩⟩
        rcases ih h with hmem | ⟨b, hb, hba⟩
        · rcases Finset.mem_union.1 hmem with hmem | hmem
          · exact Or.inl hmem
          · exact Or.inr (hfound a hmem)
        · obtain ⟨s, hs, hsb⟩ := hfound b hb
          refine Or.inr ⟨s, hs, hsb.trans (ReflTransGen.mono (fun c d hcd => ?_) _ _ hba)⟩
          exact ⟨hcd.1, fun hd => hcd.2 (Finset.mem_union_left _ hd)⟩

/-- **The walk adds exactly what is reachable around what was seen.** -/
theorem mem_levels {fuel : ℕ} (hstep : ∀ set b, b ∈ step set ↔ ∃ a ∈ set, edge a b)
    (hfrontier : frontier ⊆ expanded) (h : levels step fuel expanded frontier = some result) {a : α} :
    a ∈ result ↔ a ∈ expanded ∨ ReachableAround edge expanded frontier a := by
  refine ⟨reachable_of_mem_levels hstep h, ?_⟩
  rintro (ha | ⟨s, hs, hsa⟩)
  · exact subset_levels h ha
  · have hwalk : a ∈ result ∧ (a ∈ frontier ∨ a ∉ expanded) := by
      induction hsa with
      | refl => exact ⟨subset_levels h (hfrontier hs), Or.inl hs⟩
      | tail _ hbc ih =>
          refine ⟨levels_closed hstep h _ ?_ _ hbc.1, Or.inr hbc.2⟩
          exact ih.2.imp_right fun hnot => ⟨ih.1, hnot⟩
    exact hwalk.1

/-- **The walk ends**: each level but the last uses up a node. -/
theorem exists_levels {nodes : Finset α} (hnodes : ∀ set, step set ⊆ nodes) {fuel : ℕ}
    (hfuel : (nodes \ expanded).card < fuel) :
    ∃ result, levels step fuel expanded frontier = some result := by
  induction fuel generalizing expanded frontier with
  | zero => omega
  | succ fuel ih =>
      rw [levels]
      split_ifs with hempty
      · exact ⟨expanded, rfl⟩
      · refine ih ?_
        obtain ⟨b, hb⟩ := Finset.nonempty_iff_ne_empty.2 hempty
        have hless : (nodes \ (expanded ∪ step frontier \ expanded)).card < (nodes \ expanded).card := by
          refine Finset.card_lt_card ⟨?_, fun hsub => ?_⟩
          · exact Finset.sdiff_subset_sdiff (Finset.Subset.refl _) Finset.subset_union_left
          · obtain ⟨hstep, hnot⟩ := Finset.mem_sdiff.1 hb
            have hmem := hsub (Finset.mem_sdiff.2 ⟨hnodes _ hstep, hnot⟩)
            exact (Finset.mem_sdiff.1 hmem).2 (Finset.mem_union_right _ hb)
        omega

/-- Around the seeds themselves everything reachable from them is reachable. -/
theorem reachableAround_self {seeds : Finset α} {a : α} :
    a ∈ seeds ∨ ReachableAround edge seeds seeds a ↔ ∃ s ∈ seeds, ReflTransGen edge s a := by
  constructor
  · rintro (ha | ⟨s, hs, hsa⟩)
    · exact ⟨a, ha, ReflTransGen.refl⟩
    · exact ⟨s, hs, ReflTransGen.mono (fun _ _ h => h.1) _ _ hsa⟩
  · rintro ⟨s, hs, hsa⟩
    induction hsa with
    | refl => exact Or.inl hs
    | @tail b c _ hbc ih =>
        by_cases hc : c ∈ seeds
        · exact Or.inl hc
        · rcases ih with hb | ⟨r, hr, hrb⟩
          · exact Or.inr ⟨b, hb, ReflTransGen.single ⟨hbc, hc⟩⟩
          · exact Or.inr ⟨r, hr, hrb.tail ⟨hbc, hc⟩⟩

end Levels

end Closure
