/-
**The expansion of requested tags.**

`expand_tags` of `store/taxonomy_store.py` adds to the requested tags everything below them in any
taxonomy and, on request, the chains of their parents.  The second walk passes by whatever the first
one has found, so that a chain of parents ends where it meets a tag that is also below a requested
one.

Main definitions:

* `TagNodeRow` — a tag in a taxonomy;
* `expandTags` — `expand_tags`;
* `Below`, `Above` — the tags below and above a requested one;
* `ChainsOpen` — the chains of parents that the second walk does not cut off.

Main results:

* `exists_expandTags` — **the walks end** over every finite set of nodes, and what they find;
* `expandTags_exact_iff` — **they find exactly the tags below and above exactly when no chain is cut
  off**.
-/

import ParticlesEngine.Closure

set_option relaxedAutoImplicit false
set_option autoImplicit false

open Closure Relation

namespace ParticlesEngine

/-- One tag in a taxonomy. -/
structure TagNodeRow where
  taxonomyId : String
  tag : String
  parent : Option String := none
  deriving DecidableEq, Repr

section Expansion

variable (nodes : List TagNodeRow)

/-- The tags of the nodes whose parent is in the frontier. -/
def childrenOf (frontier : Finset String) : Finset String :=
  ((nodes.filter fun node => node.parent.any (· ∈ frontier)).map TagNodeRow.tag).toFinset

/-- The parents of the nodes whose tag is in the frontier; an empty parent is dropped. -/
def parentsOf (frontier : Finset String) : Finset String :=
  (((nodes.filter fun node => node.tag ∈ frontier).filterMap TagNodeRow.parent).filter
    (· ≠ "")).toFinset

/-- **`expand_tags`**, with at most `fuel` levels for each walk. -/
def expandTags (fuel : ℕ) (requested : List String) (includeAncestors : Bool) :
    Option (Finset String) := do
  let expanded ← levels (childrenOf nodes) fuel requested.toFinset requested.toFinset
  if includeAncestors then
    -- from the requested tags, and past everything found so far
    levels (parentsOf nodes) fuel expanded requested.toFinset
  else some expanded

/-! ### What is below and above -/

/-- Some taxonomy has `tag` directly below `parent`. -/
def IsChild (parent tag : String) : Prop := ∃ node ∈ nodes, node.parent = some parent ∧ node.tag = tag

/-- A requested tag, or a tag below one. -/
def Below (requested : List String) (tag : String) : Prop :=
  ∃ r ∈ requested, ReflTransGen (IsChild nodes) r tag

/-- A requested tag, or a tag above one. -/
def Above (requested : List String) (tag : String) : Prop :=
  ∃ r ∈ requested, ReflTransGen (fun tag parent => IsChild nodes parent tag) r tag

/-- A requested tag, or a tag above one along parents none of which is empty or below a requested
tag. -/
def AboveAside (requested : List String) (tag : String) : Prop :=
  ∃ r ∈ requested, ReflTransGen
    (fun tag parent => IsChild nodes parent tag ∧ parent ≠ "" ∧ ¬Below nodes requested parent) r tag

/-- **No chain of parents is cut off**: the parents of a tag that lies both above and below
requested ones are found on another way, and no parent is empty. -/
structure ChainsOpen (requested : List String) : Prop where
  meeting : ∀ tag, Above nodes requested tag → Below nodes requested tag → tag ∉ requested →
    ∀ parent, IsChild nodes parent tag →
      Below nodes requested parent ∨ AboveAside nodes requested parent
  empty : ∀ tag, Above nodes requested tag → IsChild nodes "" tag → Below nodes requested ""

variable {nodes} {requested : List String}

theorem mem_childrenOf {frontier : Finset String} {tag : String} :
    tag ∈ childrenOf nodes frontier ↔ ∃ parent ∈ frontier, IsChild nodes parent tag := by
  simp only [childrenOf, List.mem_toFinset, List.mem_map, List.mem_filter, Option.any_eq_true,
    decide_eq_true_eq, IsChild]
  constructor
  · rintro ⟨node, ⟨hnode, parent, hparent, hin⟩, rfl⟩
    exact ⟨parent, hin, node, hnode, hparent, rfl⟩
  · rintro ⟨parent, hin, node, hnode, hparent, rfl⟩
    exact ⟨node, ⟨hnode, parent, hparent, hin⟩, rfl⟩

theorem mem_parentsOf {frontier : Finset String} {parent : String} :
    parent ∈ parentsOf nodes frontier ↔ ∃ tag ∈ frontier, IsChild nodes parent tag ∧ parent ≠ "" := by
  simp only [parentsOf, List.mem_toFinset, List.mem_filter, List.mem_filterMap, decide_eq_true_eq,
    IsChild]
  constructor
  · rintro ⟨⟨node, ⟨hnode, hin⟩, hparent⟩, hne⟩
    exact ⟨node.tag, hin, ⟨node, hnode, hparent, rfl⟩, hne⟩
  · rintro ⟨tag, hin, ⟨node, hnode, hparent, rfl⟩, hne⟩
    exact ⟨⟨node, ⟨hnode, hin⟩, hparent⟩, hne⟩

/-- Every child is the tag of a node. -/
theorem childrenOf_subset (frontier : Finset String) :
    childrenOf nodes frontier ⊆ (nodes.map TagNodeRow.tag).toFinset := by
  intro tag htag
  obtain ⟨-, -, node, hnode, -, rfl⟩ := mem_childrenOf.1 htag
  exact List.mem_toFinset.2 (List.mem_map_of_mem hnode)

/-- Every parent is that of a node. -/
theorem parentsOf_subset (frontier : Finset String) :
    parentsOf nodes frontier ⊆ (nodes.filterMap TagNodeRow.parent).toFinset := by
  intro parent hparent
  obtain ⟨-, -, ⟨node, hnode, hparent, -⟩, -⟩ := mem_parentsOf.1 hparent
  exact List.mem_toFinset.2 (List.mem_filterMap.2 ⟨node, hnode, hparent⟩)

/-- More levels than nodes suffice for a walk whose finds come from the nodes. -/
theorem card_sdiff_lt {fuel : ℕ} {tags : List String} {expanded : Finset String}
    (hlength : tags.length ≤ nodes.length) (hfuel : nodes.length < fuel) :
    (tags.toFinset \ expanded).card < fuel := by
  have hle := (Finset.card_le_card (Finset.sdiff_subset (s := tags.toFinset) (t := expanded))).trans
    tags.toFinset_card_le
  omega

/-- **The walks end** over every finite set of nodes, and find what is below a requested tag and what
is above one on the side. -/
theorem exists_expandTags (includeAncestors : Bool) {fuel : ℕ} (hfuel : nodes.length < fuel) :
    ∃ expanded, expandTags nodes fuel requested includeAncestors = some expanded ∧
      ∀ tag, tag ∈ expanded ↔ Below nodes requested tag ∨
        (includeAncestors = true ∧ AboveAside nodes requested tag) := by
  obtain ⟨below, hbelow⟩ : ∃ below,
      levels (childrenOf nodes) fuel requested.toFinset requested.toFinset = some below :=
    exists_levels childrenOf_subset (card_sdiff_lt (by simp) hfuel)
  have hmem : ∀ tag, tag ∈ below ↔ Below nodes requested tag := by
    intro tag
    rw [mem_levels (fun _ _ => mem_childrenOf) (Finset.Subset.refl _) hbelow, reachableAround_self]
    simp [Below]
  cases includeAncestors with
  | false => exact ⟨below, by simp [expandTags, hbelow], fun tag => by simp [hmem]⟩
  | true =>
      obtain ⟨expanded, hexpanded⟩ : ∃ expanded,
          levels (parentsOf nodes) fuel below requested.toFinset = some expanded :=
        exists_levels parentsOf_subset (card_sdiff_lt (List.length_filterMap_le _ _) hfuel)
      refine ⟨expanded, by simp [expandTags, hbelow, hexpanded], fun tag => ?_⟩
      have hstart : requested.toFinset ⊆ below := subset_levels hbelow
      rw [mem_levels (fun _ _ => mem_parentsOf) hstart hexpanded, hmem]
      simp only [ReachableAround, AboveAside, hmem, List.mem_toFinset, and_assoc, true_and]

/-- A tag above a requested one is found on the side, or is below one, unless a chain is cut off. -/
theorem below_or_aboveAside (hopen : ChainsOpen nodes requested) {tag : String}
    (h : Above nodes requested tag) : Below nodes requested tag ∨ AboveAside nodes requested tag := by
  obtain ⟨r, hr, hchain⟩ := h
  induction hchain with
  | refl => exact Or.inl ⟨r, hr, ReflTransGen.refl⟩
  | @tail tag parent hchain hparent ih =>
      by_cases hbelow : Below nodes requested parent
      · exact Or.inl hbelow
      have habove : Above nodes requested tag := ⟨r, hr, hchain⟩
      have hne : parent ≠ "" := by
        rintro rfl
        exact hbelow (hopen.empty tag habove hparent)
      -- a requested tag is where the second walk begins, though it is below one
      have haside : AboveAside nodes requested tag → AboveAside nodes requested parent :=
        fun ⟨r, hr, hside⟩ => ⟨r, hr, hside.tail ⟨hparent, hne, hbelow⟩⟩
      rcases ih with htag | htag
      · by_cases hrequested : tag ∈ requested
        · exact Or.inr (haside ⟨tag, hrequested, ReflTransGen.refl⟩)
        · exact hopen.meeting tag habove htag hrequested parent hparent
      · exact Or.inr (haside htag)

/-- What is found on the side is above a requested tag. -/
theorem AboveAside.above {tag : String} (h : AboveAside nodes requested tag) :
    Above nodes requested tag := by
  obtain ⟨r, hr, hside⟩ := h
  exact ⟨r, hr, ReflTransGen.mono (fun _ _ hstep => hstep.1) _ _ hside⟩

/-- The empty tag is found on the side only when it is requested. -/
theorem AboveAside.below_of_empty (h : AboveAside nodes requested "") : Below nodes requested "" := by
  obtain ⟨r, hr, hside⟩ := h
  rcases ReflTransGen.cases_tail hside with rfl | ⟨-, -, -, hne, -⟩
  · exact ⟨"", hr, ReflTransGen.refl⟩
  · exact absurd rfl hne

/-- The chains are open when everything above is found. -/
theorem chainsOpen_of_forall
    (h : ∀ tag, Above nodes requested tag → Below nodes requested tag ∨ AboveAside nodes requested tag) :
    ChainsOpen nodes requested where
  meeting := fun _ ⟨r, hr, hchain⟩ _ _ parent hparent => h parent ⟨r, hr, hchain.tail hparent⟩
  empty := fun _ ⟨r, hr, hchain⟩ hparent =>
    (h "" ⟨r, hr, hchain.tail hparent⟩).elim id AboveAside.below_of_empty

/-- **Tag expansion is exact exactly when no chain of parents is cut off.** -/
theorem expandTags_exact_iff (nodes : List TagNodeRow) (requested : List String)
    (includeAncestors : Bool) :
    ∃ expanded,
      (∀ fuel, nodes.length < fuel →
        expandTags nodes fuel requested includeAncestors = some expanded) ∧
      ((∀ tag, tag ∈ expanded ↔
          Below nodes requested tag ∨ (includeAncestors = true ∧ Above nodes requested tag)) ↔
        (includeAncestors = true → ChainsOpen nodes requested)) := by
  obtain ⟨expanded, -, hmem⟩ : ∃ expanded,
      expandTags nodes (nodes.length + 1) requested includeAncestors = some expanded ∧
        ∀ tag, tag ∈ expanded ↔ Below nodes requested tag ∨
          (includeAncestors = true ∧ AboveAside nodes requested tag) :=
    exists_expandTags includeAncestors (Nat.lt_succ_self nodes.length)
  refine ⟨expanded, fun fuel hfuel => ?_, ?_⟩
  · obtain ⟨expanded', hrun, hmem'⟩ : ∃ expanded',
        expandTags nodes fuel requested includeAncestors = some expanded' ∧
          ∀ tag, tag ∈ expanded' ↔ Below nodes requested tag ∨
            (includeAncestors = true ∧ AboveAside nodes requested tag) :=
      exists_expandTags includeAncestors hfuel
    rw [hrun, Finset.ext fun tag => (hmem' tag).trans (hmem tag).symm]
  · simp only [hmem]
    constructor
    · rintro h rfl
      exact chainsOpen_of_forall fun tag htag => by simpa using (h tag).2 (Or.inr ⟨rfl, htag⟩)
    · intro hopen tag
      refine ⟨fun h => h.imp_right fun hside => ⟨hside.1, hside.2.above⟩, ?_⟩
      rintro (hbelow | ⟨hancestors, habove⟩)
      · exact Or.inl hbelow
      · exact (below_or_aboveAside (hopen hancestors) habove).imp_right fun hside =>
          ⟨hancestors, hside⟩

end Expansion

/-! ### A chain that is cut off -/

/-- One taxonomy has `b` below `a`; another has `c` below `b`, and `b` below `x`. -/
def meetingNodes : List TagNodeRow :=
  [⟨"t1", "a", none⟩, ⟨"t1", "b", some "a"⟩, ⟨"t2", "x", none⟩, ⟨"t2", "b", some "x"⟩,
    ⟨"t2", "c", some "b"⟩]

/-- Requested with `a`, the parents of `c` end at `b`, which is below `a`: `x` is not found. -/
theorem meeting_cuts_chain :
    ¬∃ expanded, expandTags meetingNodes 6 ["a", "c"] true = some expanded ∧
      ∀ tag, tag ∈ expanded ↔ Below meetingNodes ["a", "c"] tag ∨ Above meetingNodes ["a", "c"] tag := by
  rintro ⟨expanded, hrun, hmem⟩
  have hfound : expandTags meetingNodes 6 ["a", "c"] true = some {"a", "b", "c"} := by decide +kernel
  have hx : Above meetingNodes ["a", "c"] "x" :=
    ⟨"c", by simp, (ReflTransGen.single (by simp [IsChild, meetingNodes])).tail
      (b := "b") (by simp [IsChild, meetingNodes])⟩
  obtain rfl := Option.some.inj (hrun.symm.trans hfound)
  exact absurd ((hmem "x").2 (Or.inr hx)) (by decide +kernel)

end ParticlesEngine
