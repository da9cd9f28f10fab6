/-
**A breadth-first walk with a queue.**

A walk that takes nodes from the front of a queue, skips those it has seen, and appends the
neighbours of the others.  The neighbours of a node are a set, which yields its elements in any order,
each once.  The walk ends on every graph, cycles included: each node taken from the queue uses up an
edge or a waiting place.  This module names nothing of a particular graph.

Main definitions:

* `Adjacency`, `Adjacency.ofEdges` — the neighbour sets of a list of edges, in the order they yield;
* `Adjacency.collect` — the nodes the walk sees for the first time, in the order it sees them;
* `Adjacency.reaches` — the walk that stops at a node it looks for;
* `search` — the walk that marks a node when it appends it.

Main results:

* `mem_collect_iff` — **from a source the walk collects exactly the other nodes that a path leads
  to**, each once (`nodup_collect`);
* `reaches_eq_true_iff` — the search stops exactly at the nodes that the walk collects;
* `exists_search`, `mem_search` — **the walk that marks what it appends ends, and has seen exactly the
  nodes reachable from its source**.
-/

import Mathlib.Data.Finset.Card
import Mathlib.Data.List.Dedup
import Mathlib.Data.List.Perm.Subperm
import Mathlib.Logic.Relation

set_option relaxedAutoImplicit false
set_option autoImplicit false

open Relation

namespace QueueWalk

variable {α : Type*}

/-- The neighbour sets of a graph: each neighbour of a node is yielded once. -/
structure Adjacency (edges : List (α × α)) where
  next : α → List α
  nodup : ∀ a, (next a).Nodup
  mem_next : ∀ {a b}, b ∈ next a ↔ (a, b) ∈ edges

variable [DecidableEq α] {edges : List (α × α)}

theorem mem_successors {a b : α} :
    b ∈ (edges.filter fun edge => edge.1 = a).map Prod.snd ↔ (a, b) ∈ edges := by
  simp only [List.mem_map, List.mem_filter, decide_eq_true_eq]
  constructor
  · rintro ⟨⟨a', b'⟩, ⟨hedge, rfl⟩, rfl⟩
    exact hedge
  · intro hedge
    exact ⟨(a, b), ⟨hedge, rfl⟩, rfl⟩

/-- The neighbour sets that yield the edges in their order. -/
def Adjacency.ofEdges (edges : List (α × α)) : Adjacency edges where
  next a := ((edges.filter fun edge => edge.1 = a).map Prod.snd).dedup
  nodup _ := List.nodup_dedup _
  mem_next := List.mem_dedup.trans mem_successors

/-- How many edges leave a node that has not been seen. -/
def unseen (edges : List (α × α)) (seen : Finset α) : ℕ := edges.countP fun edge => edge.1 ∉ seen

/-- Seeing a node uses up the edges that leave it. -/
theorem unseen_insert {seen : Finset α} {a : α} (ha : a ∉ seen) (edges : List (α × α)) :
    unseen edges (insert a seen) + edges.countP (fun edge => edge.1 = a) = unseen edges seen := by
  induction edges with
  | nil => rfl
  | cons edge edges ih =>
      simp only [unseen, List.countP_cons] at ih ⊢
      by_cases hedge : edge.1 = a
      · simp only [hedge, ha, Finset.mem_insert_self, not_true_eq_false, not_false_eq_true,
          decide_true, decide_false, if_true] at ih ⊢
        simp only [Bool.false_eq_true, if_false]
        omega
      · simp only [hedge, Finset.mem_insert, false_or, decide_false, Bool.false_eq_true,
          if_false] at ih ⊢
        omega

namespace Adjacency

variable (graph : Adjacency edges)

theorem length_next_le (a : α) :
    (graph.next a).length ≤ edges.countP fun edge => edge.1 = a := by
  have hpairs : ((graph.next a).map (a, ·)).Nodup :=
    (graph.nodup a).map (Prod.mk_right_injective a)
  have hsub : (graph.next a).map (a, ·) ⊆ edges.filter fun edge => edge.1 = a := by
    intro edge hedge
    obtain ⟨b, hb, rfl⟩ := List.mem_map.1 hedge
    exact List.mem_filter.2 ⟨graph.mem_next.1 hb, by simp⟩
  have hle := (List.subperm_of_subset hpairs hsub).length_le
  rwa [List.length_map, ← List.countP_eq_length_filter] at hle

/-- The nodes seen for the first time, in the order they are taken from the queue. -/
def collect (seen : Finset α) (queue : List α) : List α :=
  match queue with
  | [] => []
  | node :: queue =>
      if node ∈ seen then collect seen queue
      else node :: collect (insert node seen) (queue ++ graph.next node)
termination_by unseen edges seen + queue.length
decreasing_by
  · simp
  · rename_i hnode
    have hedges := unseen_insert hnode edges
    have hnext := graph.length_next_le node
    simp only [List.length_append, List.length_cons]
    omega

/-- The walk that stops when the node taken from the queue is the one looked for. -/
def reaches (target : α) (seen : Finset α) (queue : List α) : Bool :=
  match queue with
  | [] => false
  | node :: queue =>
      if node = target then true
      else if node ∈ seen then reaches target seen queue
      else reaches target (insert node seen) (queue ++ graph.next node)
termination_by unseen edges seen + queue.length
decreasing_by
  · simp
  · rename_i hnode
    have hedges := unseen_insert hnode edges
    have hnext := graph.length_next_le node
    simp only [List.length_append, List.length_cons]
    omega

variable {graph} {seen : Finset α} {queue : List α} {a b source : α}

theorem not_mem_seen_of_mem_collect (ha : a ∈ graph.collect seen queue) : a ∉ seen := by
  fun_induction collect with
  | case1 => simp at ha
  | case2 seen node queue hnode ih => exact ih ha
  | case3 seen node queue hnode ih =>
      rcases List.mem_cons.1 ha with rfl | ha
      · exact hnode
      · exact fun hseen => ih ha (Finset.mem_insert_of_mem hseen)

/-- **Every node is collected once.** -/
theorem nodup_collect (seen : Finset α) (queue : List α) : (graph.collect seen queue).Nodup := by
  fun_induction collect with
  | case1 => exact List.nodup_nil
  | case2 seen node queue hnode ih => exact ih
  | case3 seen node queue hnode ih =>
      refine List.nodup_cons.2 ⟨fun hmem => ?_, ih⟩
      exact not_mem_seen_of_mem_collect hmem (Finset.mem_insert_self node seen)

/-- A node collected is reached from one that was waiting. -/
theorem reachable_of_mem_collect (ha : a ∈ graph.collect seen queue) :
    ∃ s ∈ queue, ReflTransGen (fun a b => (a, b) ∈ edges) s a := by
  fun_induction collect with
  | case1 => simp at ha
  | case2 seen node queue hnode ih =>
      obtain ⟨s, hs, hsa⟩ := ih ha
      exact ⟨s, List.mem_cons_of_mem _ hs, hsa⟩
  | case3 seen node queue hnode ih =>
      rcases List.mem_cons.1 ha with rfl | ha
      · exact ⟨a, List.mem_cons_self, ReflTransGen.refl⟩
      · obtain ⟨s, hs, hsa⟩ := ih ha
        rcases List.mem_append.1 hs with hs | hs
        · exact ⟨s, List.mem_cons_of_mem _ hs, hsa⟩
        · exact ⟨node, List.mem_cons_self, ReflTransGen.head (graph.mem_next.1 hs) hsa⟩

/-- What was waiting is seen in the end. -/
theorem mem_collect_of_mem_queue (ha : a ∈ queue) : a ∈ seen ∨ a ∈ graph.collect seen queue := by
  fun_induction collect with
  | case1 => simp at ha
  | case2 seen node queue hnode ih =>
      rcases List.mem_cons.1 ha with rfl | ha
      · exact Or.inl hnode
      · exact ih ha
  | case3 seen node queue hnode ih =>
      rcases List.mem_cons.1 ha with rfl | ha
      · exact Or.inr List.mem_cons_self
      · rcases ih (List.mem_append_left _ ha) with hseen | hmem
        · rcases Finset.mem_insert.1 hseen with rfl | hseen
          · exact Or.inr List.mem_cons_self
          · exact Or.inl hseen
        · exact Or.inr (List.mem_cons_of_mem _ hmem)

/-- **The walk ends closed under the edges**, when the neighbours of what it had seen were seen or
waiting. -/
theorem collect_closed (hclosed : ∀ a ∈ seen, ∀ b ∈ graph.next a, b ∈ seen ∨ b ∈ queue)
    (ha : a ∈ seen ∨ a ∈ graph.collect seen queue) (hb : b ∈ graph.next a) :
    b ∈ seen ∨ b ∈ graph.collect seen queue := by
  fun_induction collect with
  | case1 seen =>
      rcases ha with ha | ha
      · simpa using hclosed a ha b hb
      · simp at ha
  | case2 seen node queue hnode ih =>
      refine ih (fun c hc d hd => ?_) ha
      rcases hclosed c hc d hd with hd | hd
      · exact Or.inl hd
      · rcases List.mem_cons.1 hd with rfl | hd
        · exact Or.inl hnode
        · exact Or.inr hd
  | case3 seen node queue hnode ih =>
      have hstep : ∀ {c}, (c ∈ seen ∨ c ∈ node :: graph.collect (insert node seen)
          (queue ++ graph.next node)) ↔
          (c ∈ insert node seen ∨ c ∈ graph.collect (insert node seen)
            (queue ++ graph.next node)) := by
        intro c
        rw [Finset.mem_insert, List.mem_cons]
        tauto
      refine hstep.2 (ih (fun c hc d hd => ?_) (hstep.1 ha))
      rcases Finset.mem_insert.1 hc with rfl | hc
      · exact Or.inr (List.mem_append_right _ hd)
      · rcases hclosed c hc d hd with hd | hd
        · exact Or.inl (Finset.mem_insert_of_mem hd)
        · rcases List.mem_cons.1 hd with rfl | hd
          · exact Or.inl (Finset.mem_insert_self _ _)
          · exact Or.inr (List.mem_append_left _ hd)

/-- **From a source the walk collects exactly the other nodes that a path leads to.** -/
theorem mem_collect_iff : a ∈ graph.collect {source} (graph.next source) ↔
    a ≠ source ∧ TransGen (fun a b => (a, b) ∈ edges) source a := by
  constructor
  · intro ha
    refine ⟨by simpa using not_mem_seen_of_mem_collect ha, ?_⟩
    obtain ⟨s, hs, hsa⟩ := reachable_of_mem_collect ha
    exact TransGen.head' (graph.mem_next.1 hs) hsa
  · rintro ⟨hne, hpath⟩
    have hclosed : ∀ c ∈ ({source} : Finset α), ∀ d ∈ graph.next c,
        d ∈ ({source} : Finset α) ∨ d ∈ graph.next source := by
      intro c hc d hd
      obtain rfl := Finset.mem_singleton.1 hc
      exact Or.inr hd
    have hseen : a ∈ ({source} : Finset α) ∨ a ∈ graph.collect {source} (graph.next source) := by
      clear hne
      induction hpath with
      | single hedge => exact mem_collect_of_mem_queue (graph.mem_next.2 hedge)
      | tail _ hedge ih => exact collect_closed hclosed ih (graph.mem_next.2 hedge)
    exact hseen.resolve_left (by simpa using hne)

/-- **The search stops exactly at the nodes that the walk collects.** -/
theorem reaches_eq_true_iff {target : α} (htarget : target ∉ seen) :
    graph.reaches target seen queue = true ↔ target ∈ graph.collect seen queue := by
  fun_induction reaches with
  | case1 => simp [collect]
  | case2 seen queue =>
      rw [collect, if_neg htarget]
      simp
  | case3 seen node queue hne hnode ih =>
      rw [collect, if_pos hnode]
      exact ih htarget
  | case4 seen node queue hne hnode ih =>
      rw [collect, if_neg hnode, List.mem_cons, ih (by simp [Ne.symm hne, htarget])]
      exact (or_iff_right (Ne.symm hne)).symm

end Adjacency

/-! ### Marking what is appended -/

section Marking

variable {next : α → List α} {seen result nodes : Finset α} {queue : List α}

/-- Append a node to the queue, unless it has been seen. -/
def enqueue (state : Finset α × List α) (a : α) : Finset α × List α :=
  if a ∈ state.1 then state else (insert a state.1, state.2 ++ [a])

/-- The walk that marks a node as seen when it appends it; nothing when the steps do not suffice. -/
def search (next : α → List α) : ℕ → Finset α × List α → Option (Finset α)
  | _, (seen, []) => some seen
  | 0, (_, _ :: _) => none
  | fuel + 1, (seen, a :: queue) => search next fuel ((next a).foldl enqueue (seen, queue))

@[simp] theorem search_nil (fuel : ℕ) : search next fuel (seen, []) = some seen := by
  cases fuel <;> rfl

/-- What a walk holds after nodes were appended: they are seen, and those that are new wait. -/
theorem foldl_enqueue (l : List α) (seen : Finset α) (queue : List α) :
    (l.foldl enqueue (seen, queue)).1 = seen ∪ l.toFinset ∧
      (∀ a, a ∈ (l.foldl enqueue (seen, queue)).2 ↔ a ∈ queue ∨ (a ∈ l ∧ a ∉ seen)) ∧
      (l.foldl enqueue (seen, queue)).2.length + seen.card =
        queue.length + (l.foldl enqueue (seen, queue)).1.card := by
  induction l generalizing seen queue with
  | nil => simp
  | cons b l ih =>
      have hstep : enqueue (seen, queue) b =
          if b ∈ seen then (seen, queue) else (insert b seen, queue ++ [b]) := rfl
      rw [List.foldl_cons, hstep]
      split_ifs with hb
      · obtain ⟨hseen, hmem, hlength⟩ := ih seen queue
        refine ⟨?_, fun a => ?_, hlength⟩
        · rw [hseen, List.toFinset_cons, Finset.union_insert, Finset.insert_eq_of_mem]
          exact Finset.mem_union_left _ hb
        · rw [hmem, List.mem_cons]
          constructor
          · exact Or.imp_right fun h => ⟨Or.inr h.1, h.2⟩
          · rintro (h | ⟨rfl | h, hnew⟩)
            · exact Or.inl h
            · exact absurd hb hnew
            · exact Or.inr ⟨h, hnew⟩
      · obtain ⟨hseen, hmem, hlength⟩ := ih (insert b seen) (queue ++ [b])
        refine ⟨?_, fun a => ?_, ?_⟩
        · rw [hseen, List.toFinset_cons, Finset.union_insert, Finset.insert_union]
        · rw [hmem, List.mem_append, List.mem_singleton, List.mem_cons, Finset.mem_insert]
          constructor
          · rintro ((h | rfl) | ⟨h, hnew⟩)
            · exact Or.inl h
            · exact Or.inr ⟨Or.inl rfl, hb⟩
            · exact Or.inr ⟨Or.inr h, fun hin => hnew (Or.inr hin)⟩
          · rintro (h | ⟨rfl | h, hnew⟩)
            · exact Or.inl (Or.inl h)
            · exact Or.inl (Or.inr rfl)
            · by_cases hab : a = b
              · exact Or.inl (Or.inr hab)
              · exact Or.inr ⟨h, fun hin => hin.elim hab hnew⟩
        · rw [Finset.card_insert_of_notMem hb, List.length_append, List.length_singleton] at hlength
          omega

/-- **The walk ends** over a finite set of nodes: a step takes a node from the queue, and a node is
appended only once. -/
theorem exists_search (hnodes : ∀ a, (next a).toFinset ⊆ nodes) (hseen : seen ⊆ nodes) {fuel : ℕ}
    (hfuel : (nodes \ seen).card + queue.length ≤ fuel) :
    ∃ result, search next fuel (seen, queue) = some result := by
  induction fuel generalizing seen queue with
  | zero =>
      obtain rfl : queue = [] := List.eq_nil_of_length_eq_zero (by omega)
      exact ⟨seen, search_nil 0⟩
  | succ fuel ih =>
      cases queue with
      | nil => exact ⟨seen, search_nil _⟩
      | cons a queue =>
          obtain ⟨hunion, -, hlength⟩ := foldl_enqueue (next a) seen queue
          have hsub : seen ∪ (next a).toFinset ⊆ nodes := Finset.union_subset hseen (hnodes a)
          refine ih (hunion ▸ hsub) ?_
          have hless : seen.card ≤ (seen ∪ (next a).toFinset).card :=
            Finset.card_le_card Finset.subset_union_left
          have hbefore := Finset.card_sdiff_add_card_eq_card hseen
          have hafter := Finset.card_sdiff_add_card_eq_card hsub
          rw [hunion] at hlength ⊢
          rw [List.length_cons] at hfuel
          omega

/-- What the walk has seen is reachable from what it had seen. -/
theorem reachable_of_mem_search {fuel : ℕ} (hqueue : ∀ a ∈ queue, a ∈ seen)
    (h : search next fuel (seen, queue) = some result) {a : α} (ha : a ∈ result) :
    ∃ s ∈ seen, ReflTransGen (fun a b => b ∈ next a) s a := by
  induction fuel generalizing seen queue with
  | zero =>
      cases queue with
      | nil => exact ⟨a, Option.some.inj h ▸ ha, ReflTransGen.refl⟩
      | cons b queue => cases h
  | succ fuel ih =>
      cases queue with
      | nil => exact ⟨a, Option.some.inj h ▸ ha, ReflTransGen.refl⟩
      | cons b queue =>
          obtain ⟨hunion, hmem, -⟩ := foldl_enqueue (next b) seen queue
          have hwaiting : ∀ c ∈ ((next b).foldl enqueue (seen, queue)).2,
              c ∈ ((next b).foldl enqueue (seen, queue)).1 := by
            intro c hc
            rw [hunion, Finset.mem_union, List.mem_toFinset]
            exact ((hmem c).1 hc).imp (fun h => hqueue c (List.mem_cons_of_mem _ h)) And.left
          obtain ⟨s, hs, hsa⟩ := ih hwaiting h
          rw [hunion, Finset.mem_union, List.mem_toFinset] at hs
          rcases hs with hs | hs
          · exact ⟨s, hs, hsa⟩
          · exact ⟨b, hqueue b List.mem_cons_self, ReflTransGen.head hs hsa⟩

/-- The walk keeps what it had seen and ends closed under the edges, when the neighbours of what it
had seen and does not hold back were seen. -/
theorem search_closed {fuel : ℕ} (hclosed : ∀ a ∈ seen, a ∈ queue ∨ (next a).toFinset ⊆ seen)
    (h : search next fuel (seen, queue) = some result) :
    seen ⊆ result ∧ ∀ a ∈ result, (next a).toFinset ⊆ result := by
  induction fuel generalizing seen queue with
  | zero =>
      cases queue with
      | nil =>
          obtain rfl := Option.some.inj h
          exact ⟨Finset.Subset.refl _, fun a ha => (hclosed a ha).resolve_left List.not_mem_nil⟩
      | cons b queue => cases h
  | succ fuel ih =>
      cases queue with
      | nil =>
          obtain rfl := Option.some.inj h
          exact ⟨Finset.Subset.refl _, fun a ha => (hclosed a ha).resolve_left List.not_mem_nil⟩
      | cons b queue =>
          obtain ⟨hunion, hmem, -⟩ := foldl_enqueue (next b) seen queue
          have hstep : ∀ a ∈ ((next b).foldl enqueue (seen, queue)).1,
              a ∈ ((next b).foldl enqueue (seen, queue)).2 ∨
                (next a).toFinset ⊆ ((next b).foldl enqueue (seen, queue)).1 := by
            intro a ha
            rw [hunion] at ha ⊢
            by_cases hseen : a ∈ seen
            · rcases hclosed a hseen with hwait | hsub
              · rcases List.mem_cons.1 hwait with rfl | hwait
                · exact Or.inr Finset.subset_union_right
                · exact Or.inl ((hmem a).2 (Or.inl hwait))
              · exact Or.inr (hsub.trans Finset.subset_union_left)
            · have hnew : a ∈ next b := by simpa [hseen] using ha
              exact Or.inl ((hmem a).2 (Or.inr ⟨hnew, hseen⟩))
          obtain ⟨hkeep, hnext⟩ := ih hstep h
          rw [hunion] at hkeep
          exact ⟨Finset.subset_union_left.trans hkeep, hnext⟩

/-- **The walk has seen exactly the nodes reachable from its source.** -/
theorem mem_search {fuel : ℕ} {source : α} (h : search next fuel ({source}, [source]) = some result)
    {a : α} : a ∈ result ↔ ReflTransGen (fun a b => b ∈ next a) source a := by
  constructor
  · intro ha
    obtain ⟨s, hs, hsa⟩ := reachable_of_mem_search (by simp) h ha
    rwa [Finset.mem_singleton.1 hs] at hsa
  · intro hpath
    obtain ⟨hkeep, hnext⟩ := search_closed (fun a ha => Or.inl (by simpa using ha)) h
    induction hpath with
    | refl => exact hkeep (Finset.mem_singleton_self source)
    | tail _ hbc ih => exact hnext _ ih (List.mem_toFinset.2 hbc)

end Marking

end QueueWalk
