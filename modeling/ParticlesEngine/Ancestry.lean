/-
**Ancestries.**

Some nodes are derived from others, their premises; every other node is a leaf.  An ancestry gives the
premises of each derived node.  Nodes are only ever added, each on premises that are there before it,
and a node's depth is one more than that of its deepest premise.  This module names nothing of a
particular system.

Main definitions:

* `Ancestry`, `Ancestry.Rests` — the premises of a node, and the relation that they give;
* `Ancestry.Acyclic`, `Ancestry.LiesBelow` — no node rests on itself; a node's depth is below a bound;
* `Ancestry.InForce` — every derived node under a given one is live;
* `Ancestry.walk` — the depth of a node, computed with a memo.

Main results:

* `Ancestry.Acyclic.extend`, `Ancestry.liesBelow_congr` — **new nodes on old premises close no cycle
  and leave every depth as it was**;
* `Ancestry.LiesBelow.of_inForce` — the depth among the live nodes is the depth where all are live;
* `Ancestry.liesBelow_walk` — **the computed depth is no less than the depth**.
-/

import Mathlib.Data.List.Basic
import Mathlib.Logic.Relation

set_option relaxedAutoImplicit false
set_option autoImplicit false

open Relation

/-- The premises of each derived node. -/
abbrev Ancestry (α : Type) := α → Option (List α)

namespace Ancestry

variable {α : Type} {G G' : Ancestry α}

/-- A derived node rests on its premises. -/
def Rests (G : Ancestry α) (a b : α) : Prop := ∃ ps, G a = some ps ∧ b ∈ ps

/-- **No node rests on itself**, through any number of premises. -/
def Acyclic (G : Ancestry α) : Prop := ∀ a, ¬ TransGen G.Rests a a

/-- **The depth of a node is below a bound**: a leaf has depth zero. -/
def LiesBelow (G : Ancestry α) : ℕ → α → Prop
  | 0, _ => False
  | n + 1, a => ∀ ps ∈ G a, ∀ p ∈ ps, LiesBelow G n p

/-- The derived nodes within a number of levels under a node, itself among them, are live. -/
def InForce (G : Ancestry α) (live : α → Prop) : ℕ → α → Prop
  | 0, _ => True
  | n + 1, a => ∀ ps ∈ G a, live a ∧ ∀ p ∈ ps, InForce G live n p

instance LiesBelow.decidable (G : Ancestry α) : ∀ n, DecidablePred (G.LiesBelow n)
  | 0, _ => isFalse id
  | n + 1, a =>
      have (p : α) : Decidable (G.LiesBelow n p) := LiesBelow.decidable G n p
      inferInstanceAs (Decidable (∀ ps ∈ G a, ∀ p ∈ ps, G.LiesBelow n p))

instance InForce.decidable (G : Ancestry α) (live : α → Prop) [DecidablePred live] :
    ∀ n, DecidablePred (G.InForce live n)
  | 0, _ => isTrue trivial
  | n + 1, a =>
      have (p : α) : Decidable (G.InForce live n p) := InForce.decidable G live n p
      inferInstanceAs (Decidable (∀ ps ∈ G a, live a ∧ ∀ p ∈ ps, G.InForce live n p))

theorem liesBelow_of_leaf {n : ℕ} {a : α} (hleaf : G a = none) : G.LiesBelow (n + 1) a := by
  intro ps hps
  rw [hleaf] at hps
  cases hps

theorem liesBelow_succ {n : ℕ} {a : α} {ps : List α} (hps : G a = some ps) :
    G.LiesBelow (n + 1) a ↔ ∀ p ∈ ps, G.LiesBelow n p := by
  simp [LiesBelow, hps]

theorem LiesBelow.mono {m n : ℕ} (hmn : m ≤ n) {a : α} (h : G.LiesBelow m a) :
    G.LiesBelow n a := by
  induction m generalizing n a with
  | zero => exact h.elim
  | succ m ih =>
      obtain ⟨n, rfl⟩ : ∃ k, n = k + 1 := ⟨n - 1, by omega⟩
      exact fun ps hps p hp => ih (by omega) (h ps hps p hp)

/-- **Where the nodes under a node are live, its depth among the live ones is its depth.** -/
theorem LiesBelow.of_inForce {live : α → Prop} (hlive : ∀ a ps, live a → G' a = some ps →
    G a = some ps) {n : ℕ} {a : α} (h : G.LiesBelow n a) (hforce : G'.InForce live n a) :
    G'.LiesBelow n a := by
  induction n generalizing a with
  | zero => exact h.elim
  | succ n ih =>
      intro ps hps p hp
      obtain ⟨ha, hunder⟩ := hforce ps hps
      exact ih (h ps (hlive a ps ha hps) p hp) (hunder p hp)

/-! ### New nodes on old premises -/

section Extend

variable {V : α → Prop} (hclosed : ∀ a, V a → ∀ ps ∈ G a, ∀ p ∈ ps, V p)
  (hagree : ∀ a, V a → G' a = G a)

include hclosed hagree

/-- The depths of the old nodes are as they were. -/
theorem liesBelow_congr {n : ℕ} {a : α} (ha : V a) : G'.LiesBelow n a ↔ G.LiesBelow n a := by
  induction n generalizing a with
  | zero => exact Iff.rfl
  | succ n ih =>
      simp only [LiesBelow, hagree a ha]
      exact forall₂_congr fun ps hps => forall₂_congr fun p hp => ih (hclosed a ha ps hps p hp)

/-- A chain that starts at an old node is an old one. -/
theorem transGen_of_old {a b : α} (ha : V a) (h : TransGen G'.Rests a b) :
    V b ∧ TransGen G.Rests a b := by
  have hstep : ∀ {a b : α}, V a → G'.Rests a b → V b ∧ G.Rests a b := by
    rintro a b ha ⟨ps, hps, hb⟩
    rw [hagree a ha] at hps
    exact ⟨hclosed a ha ps hps b hb, ps, hps, hb⟩
  induction h with
  | single hab => exact ⟨(hstep ha hab).1, .single (hstep ha hab).2⟩
  | tail _ hbc ih => exact ⟨(hstep ih.1 hbc).1, ih.2.tail (hstep ih.1 hbc).2⟩

/-- **New nodes on old premises close no cycle.** -/
theorem Acyclic.extend (hnew : ∀ a, ¬ V a → ∀ ps ∈ G' a, ∀ p ∈ ps, V p) (h : G.Acyclic) :
    G'.Acyclic := by
  intro a hcycle
  -- the first premise of a cycle is old, whatever its first node is
  obtain ⟨b, ⟨ps, hps, hb⟩, hba⟩ := TransGen.head'_iff.1 hcycle
  have hold : V b := by
    by_cases ha : V a
    · rw [hagree a ha] at hps
      exact hclosed a ha ps hps b hb
    · exact hnew a ha ps hps b hb
  have haV : V a := by
    rcases reflTransGen_iff_eq_or_transGen.1 hba with rfl | hba
    · exact hold
    · exact (transGen_of_old hclosed hagree hold hba).1
  exact h a (transGen_of_old hclosed hagree haV hcycle).2

end Extend

/-- Part of an acyclic ancestry is acyclic. -/
theorem Acyclic.of_le (hle : ∀ a ps, G' a = some ps → G a = some ps) (h : G.Acyclic) :
    G'.Acyclic :=
  fun a hcycle => h a (TransGen.mono (fun _ _ ⟨ps, hps, hb⟩ => ⟨ps, hle _ ps hps, hb⟩) a a hcycle)

/-! ### The computed depth -/

section Walk

variable [DecidableEq α] (G : Ancestry α)

/-- One premise of a node that is walked: the deepest so far, and the memo. -/
def walkPremise (visit : α → List α → List (α × ℕ) → ℕ × List (α × ℕ))
    (acc : ℕ × List (α × ℕ)) (p : α) : ℕ × List (α × ℕ) :=
  match G p with
  | none => acc
  | some qs =>
      let deeper := visit p qs acc.2
      (max acc.1 deeper.1, deeper.2)

/-- The depth of a derived node with given premises, by a walk of the ancestry that remembers the
depths it has found.  A node counts as one while its premises are walked, which would end a cycle;
the fuel bounds the length of a chain. -/
def walk : ℕ → α → List α → List (α × ℕ) → ℕ × List (α × ℕ)
  | 0, _, _, memo => (1, memo)
  | fuel + 1, a, ps, memo =>
      match memo.lookup a with
      | some depth => (depth, memo)
      | none =>
          let walked := ps.foldl (walkPremise G (walk fuel)) (0, (a, 1) :: memo)
          (walked.1 + 1, (a, walked.1 + 1) :: walked.2)

/-- The nodes of a list that a memo has no depth for. -/
def unseen (dom : List α) (memo : List (α × ℕ)) : ℕ :=
  dom.countP fun a => (memo.lookup a).isNone

/-- What a memo says, when a walk is at a node, is right or is said of a node above it. -/
def MemoAt (memo : List (α × ℕ)) (a : α) : Prop :=
  ∀ k n, memo.lookup k = some n → G.LiesBelow (n + 1) k ∨ TransGen G.Rests k a

/-- A memo after a walk: what it had, and depths that are right. -/
structure MemoAfter (memo memo' : List (α × ℕ)) : Prop where
  keeps : ∀ k, (memo.lookup k).isSome = true → (memo'.lookup k).isSome = true
  right : ∀ k n, memo'.lookup k = some n → memo.lookup k = some n ∨ G.LiesBelow (n + 1) k

variable {G}

theorem lookup_cons_memo {memo : List (α × ℕ)} {a k : α} {n : ℕ} :
    ((a, n) :: memo).lookup k = if k = a then some n else memo.lookup k := by
  by_cases h : k = a
  · subst h
    simp
  · have hbeq : (k == a) = false := beq_false_of_ne h
    rw [List.lookup_cons, hbeq, if_neg h]

theorem MemoAfter.refl (memo : List (α × ℕ)) : MemoAfter G memo memo := ⟨fun _ => id, fun _ _ => .inl⟩

theorem MemoAfter.trans {m₁ m₂ m₃ : List (α × ℕ)} (h : MemoAfter G m₁ m₂) (h' : MemoAfter G m₂ m₃) :
    MemoAfter G m₁ m₃ where
  keeps k hk := h'.keeps k (h.keeps k hk)
  right k n hk := by
    rcases h'.right k n hk with hk | hk
    · exact h.right k n hk
    · exact .inr hk

/-- A later memo misses no more. -/
theorem MemoAfter.unseen_le {dom : List α} {memo memo' : List (α × ℕ)}
    (h : MemoAfter G memo memo') : unseen dom memo' ≤ unseen dom memo := by
  refine List.countP_mono_left fun k _ hk => ?_
  cases hm : memo.lookup k with
  | none => rfl
  | some n =>
      have := h.keeps k (by rw [hm]; rfl)
      rw [Option.isNone_iff_eq_none] at hk
      rw [hk] at this
      cases this

/-- A memo with one more node of the list misses one less. -/
theorem unseen_cons_lt {dom : List α} {memo : List (α × ℕ)} {a : α} {n : ℕ} (ha : a ∈ dom)
    (hnone : memo.lookup a = none) : unseen dom ((a, n) :: memo) < unseen dom memo := by
  induction dom with
  | nil => cases ha
  | cons b dom ih =>
      have hle : unseen dom ((a, n) :: memo) ≤ unseen dom memo := by
        refine List.countP_mono_left fun k _ hk => ?_
        rw [lookup_cons_memo] at hk
        split_ifs at hk with h
        · simp at hk
        · exact hk
      simp only [unseen, List.countP_cons] at ih hle ⊢
      by_cases hb : b = a
      · subst hb
        simp only [lookup_cons_memo, if_true, hnone, Option.isNone_none, Option.isNone_some]
        simp only [lookup_cons_memo] at hle
        simpa using Nat.lt_succ_of_le hle
      · have hmem : a ∈ dom := by
          rcases List.mem_cons.1 ha with rfl | h
          · exact absurd rfl hb
          · exact h
        have hlt := ih hmem
        have hsame : ((a, n) :: memo).lookup b = memo.lookup b := by
          rw [lookup_cons_memo, if_neg hb]
        rw [hsame]
        omega

/-- The premises of a node that is walked, where each visit finds depths that are right. -/
theorem walkPremises_spec {visit : α → List α → List (α × ℕ) → ℕ × List (α × ℕ)} {a : α}
    {memo : List (α × ℕ)}
    (hvisit : ∀ p qs m, G.Rests a p → G p = some qs → MemoAfter G memo m →
      G.LiesBelow ((visit p qs m).1 + 1) p ∧ MemoAfter G m (visit p qs m).2) :
    ∀ (ps : List α) (acc : ℕ × List (α × ℕ)), (∀ p ∈ ps, G.Rests a p) → MemoAfter G memo acc.2 →
      acc.1 ≤ (ps.foldl (walkPremise G visit) acc).1 ∧
        (∀ p ∈ ps, G.LiesBelow ((ps.foldl (walkPremise G visit) acc).1 + 1) p) ∧
        MemoAfter G memo (ps.foldl (walkPremise G visit) acc).2 := by
  intro ps
  induction ps with
  | nil => exact fun acc _ hacc => ⟨Nat.le_refl _, by simp, hacc⟩
  | cons p ps ih =>
      intro acc hrests hacc
      have hrests' : ∀ q ∈ ps, G.Rests a q := fun q hq => hrests q (List.mem_cons_of_mem _ hq)
      simp only [List.foldl_cons]
      cases hp : G p with
      | none =>
          rw [show walkPremise G visit acc p = acc by simp [walkPremise, hp]]
          obtain ⟨hle, hdepths, hafter⟩ := ih acc hrests' hacc
          refine ⟨hle, fun q hq => ?_, hafter⟩
          rcases List.mem_cons.1 hq with rfl | hq
          · exact liesBelow_of_leaf hp
          · exact hdepths q hq
      | some qs =>
          obtain ⟨hdepth, hafter⟩ := hvisit p qs acc.2 (hrests p List.mem_cons_self) hp hacc
          rw [show walkPremise G visit acc p =
            (max acc.1 (visit p qs acc.2).1, (visit p qs acc.2).2) by simp [walkPremise, hp]]
          obtain ⟨hle, hdepths, hafter'⟩ :=
            ih (max acc.1 (visit p qs acc.2).1, (visit p qs acc.2).2) hrests' (hacc.trans hafter)
          refine ⟨Nat.le_trans (Nat.le_max_left _ _) hle, fun q hq => ?_, hafter'⟩
          rcases List.mem_cons.1 hq with rfl | hq
          · exact hdepth.mono (Nat.succ_le_succ (Nat.le_trans (Nat.le_max_right _ _) hle))
          · exact hdepths q hq

/-- **The walk of an acyclic ancestry**: the depth it finds is no less than the depth of the node, and
so is every depth that it adds to the memo. -/
theorem walk_spec (hG : G.Acyclic) {dom : List α} (hdom : ∀ a ps, G a = some ps → a ∈ dom) :
    ∀ (fuel : ℕ) (a : α) (ps : List α) (memo : List (α × ℕ)), G a = some ps →
      unseen dom memo < fuel → MemoAt G memo a →
        G.LiesBelow ((walk G fuel a ps memo).1 + 1) a ∧
          MemoAfter G memo (walk G fuel a ps memo).2 := by
  intro fuel
  induction fuel with
  | zero => exact fun _ _ _ _ hfuel => absurd hfuel (Nat.not_lt_zero _)
  | succ fuel ih =>
      intro a ps memo hps hfuel hmemo
      unfold walk
      cases hseen : memo.lookup a with
      | some depth =>
          refine ⟨?_, MemoAfter.refl memo⟩
          rcases hmemo a depth hseen with hright | hcycle
          · exact hright
          · exact absurd hcycle (hG a)
      | none =>
          have hone : unseen dom ((a, 1) :: memo) < fuel := by
            have hless := unseen_cons_lt (n := 1) (hdom a ps hps) hseen
            omega
          -- the memo at a premise: the node itself is above it
          have hvisit : ∀ p qs m, G.Rests a p → G p = some qs → MemoAfter G ((a, 1) :: memo) m →
              G.LiesBelow ((walk G fuel p qs m).1 + 1) p ∧
                MemoAfter G m (walk G fuel p qs m).2 := by
            intro p qs m hedge hp hm
            refine ih p qs m hp (Nat.lt_of_le_of_lt hm.unseen_le hone) fun k n hk => ?_
            rcases hm.right k n hk with hk | hk
            · rw [lookup_cons_memo] at hk
              split_ifs at hk with hka
              · exact .inr (hka ▸ TransGen.single hedge)
              · exact (hmemo k n hk).imp id fun h => h.tail hedge
            · exact .inl hk
          obtain ⟨-, hdepths, hafter⟩ := walkPremises_spec hvisit ps (0, (a, 1) :: memo)
            (fun p hp => ⟨ps, hps, hp⟩) (MemoAfter.refl _)
          have hdeep := (liesBelow_succ hps).2 hdepths
          refine ⟨hdeep, fun k hk => ?_, fun k n hk => ?_⟩
          · rw [lookup_cons_memo]
            split_ifs with hka
            · rfl
            · refine hafter.keeps k ?_
              rw [lookup_cons_memo, if_neg hka]
              exact hk
          · rw [lookup_cons_memo] at hk
            split_ifs at hk with hka
            · subst hka
              obtain rfl := Option.some.inj hk
              exact .inr hdeep
            · rcases hafter.right k n hk with hk | hk
              · rw [lookup_cons_memo, if_neg hka] at hk
                exact .inl hk
              · exact .inr hk

/-- **The computed depth is no less than the depth.** -/
theorem liesBelow_walk (hG : G.Acyclic) {dom : List α} (hdom : ∀ a ps, G a = some ps → a ∈ dom)
    {fuel : ℕ} (hfuel : dom.length < fuel) {a : α} {ps : List α} (hps : G a = some ps) :
    G.LiesBelow ((walk G fuel a ps []).1 + 1) a := by
  have hunseen : unseen dom ([] : List (α × ℕ)) < fuel :=
    Nat.lt_of_le_of_lt List.countP_le_length hfuel
  have hmemo : MemoAt G ([] : List (α × ℕ)) a := by
    intro k n hk
    cases hk
  exact (walk_spec hG hdom fuel a ps [] hps hunseen hmemo).1

end Walk

end Ancestry
