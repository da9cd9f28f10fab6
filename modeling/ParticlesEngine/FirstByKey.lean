/-
**Keeping the first element of each key.**

A loop that appends an element unless its key is held already keeps, of the elements with one key,
the first.  This module describes the list it keeps by recursion, and says what is in it.  It names
nothing of a particular program.

Main definitions:

* `firstByKey` — the elements kept, given the keys that are held from the start.

Main results:

* `foldl_eq_firstByKey` — **the loop computes this list**;
* `mem_firstByKey` — an element is kept when it is the first one with its key;
* `mem_map_firstByKey`, `nodup_map_firstByKey` — its keys are those of the elements that are not
  held, each once;
* `firstByKey_take_of_not_mem` — of a sorted list, a key is cut off only for keys that stand before it.
-/

import Mathlib.Data.List.Nodup
import Mathlib.Order.Lattice

set_option relaxedAutoImplicit false
set_option autoImplicit false

namespace FirstByKey

variable {α β κ : Type*} [DecidableEq κ]

/-- The elements whose key is neither held nor that of an earlier element. -/
def firstByKey (key : α → κ) : List κ → List α → List α
  | _, [] => []
  | held, a :: l =>
      if key a ∈ held then firstByKey key held l else a :: firstByKey key (held ++ [key a]) l

variable {key : α → κ}

@[simp] theorem firstByKey_nil (held : List κ) : firstByKey key held [] = [] := rfl

theorem firstByKey_cons (held : List κ) (a : α) (l : List α) :
    firstByKey key held (a :: l) =
      if key a ∈ held then firstByKey key held l
      else a :: firstByKey key (held ++ [key a]) l := rfl

/-- **The loop computes the list**, the elements translated by `f` as they are appended. -/
theorem foldl_eq_firstByKey {f : α → β} {key' : β → κ} (hf : ∀ a, key' (f a) = key a)
    (held : List κ) (l : List α) :
    ∀ acc : List β,
      l.foldl (fun acc a =>
        if key a ∈ held ++ acc.map key' then acc else acc ++ [f a]) acc =
        acc ++ (firstByKey key (held ++ acc.map key') l).map f := by
  induction l with
  | nil =>
      intro acc
      simp
  | cons a l ih =>
      intro acc
      rw [List.foldl_cons, firstByKey_cons]
      split_ifs with ha
      · exact ih acc
      · rw [ih]
        simp [hf]

/-- Nothing is kept that was not there. -/
theorem mem_of_mem_firstByKey {l : List α} :
    ∀ {held : List κ} {a : α}, a ∈ firstByKey key held l → a ∈ l := by
  induction l with
  | nil =>
      intro held a h
      exact h
  | cons b l ih =>
      intro held a h
      rw [firstByKey_cons] at h
      split_ifs at h
      · exact List.mem_cons_of_mem _ (ih h)
      · rcases List.mem_cons.1 h with rfl | h
        · exact List.mem_cons_self
        · exact List.mem_cons_of_mem _ (ih h)

theorem firstByKey_sublist {held : List κ} {l : List α} : (firstByKey key held l).Sublist l := by
  induction l generalizing held with
  | nil => exact List.Sublist.refl _
  | cons a l ih =>
      rw [firstByKey_cons]
      split_ifs
      · exact ih.cons a
      · exact ih.cons_cons a

/-- **The keys kept are those that are not held.** -/
theorem mem_map_firstByKey {l : List α} :
    ∀ {held : List κ} {k : κ}, k ∈ (firstByKey key held l).map key ↔ k ∈ l.map key ∧ k ∉ held := by
  induction l with
  | nil =>
      intro held k
      simp
  | cons a l ih =>
      intro held k
      rw [firstByKey_cons, List.map_cons, List.mem_cons]
      split_ifs with ha
      · rw [ih]
        constructor
        · rintro ⟨hk, hheld⟩
          exact ⟨Or.inr hk, hheld⟩
        · rintro ⟨rfl | hk, hheld⟩
          · exact absurd ha hheld
          · exact ⟨hk, hheld⟩
      · rw [List.map_cons, List.mem_cons, ih, List.mem_append, List.mem_singleton]
        constructor
        · rintro (rfl | ⟨hk, hheld⟩)
          · exact ⟨Or.inl rfl, ha⟩
          · exact ⟨Or.inr hk, fun h => hheld (Or.inl h)⟩
        · rintro ⟨rfl | hk, hheld⟩
          · exact Or.inl rfl
          · by_cases hka : k = key a
            · exact Or.inl hka
            · exact Or.inr ⟨hk, fun h => h.elim hheld hka⟩

/-- Without repetitions a list has the elements that it had. -/
theorem mem_firstByKey_id {l : List κ} {k : κ} : k ∈ firstByKey id [] l ↔ k ∈ l := by
  have hkeys : k ∈ (firstByKey id [] l).map id ↔ k ∈ l.map id ∧ k ∉ ([] : List κ) :=
    mem_map_firstByKey
  simpa using hkeys

/-- **An element is kept when it is the first one with its key**, and the key is not held. -/
theorem mem_firstByKey {l : List α} :
    ∀ {held : List κ} {a : α},
      a ∈ firstByKey key held l ↔ key a ∉ held ∧ l.find? (key · = key a) = some a := by
  induction l with
  | nil =>
      intro held a
      simp
  | cons b l ih =>
      intro held a
      rw [firstByKey_cons, List.find?_cons]
      by_cases hba : key b = key a
      · simp only [hba, decide_true, Option.some.injEq]
        split_ifs with hheld
        · rw [ih]
          simp [hheld]
        · rw [List.mem_cons, ih]
          simp [hheld, eq_comm]
      · simp only [hba, decide_false]
        split_ifs
        · exact ih
        · rw [List.mem_cons, ih, List.mem_append, List.mem_singleton]
          constructor
          · rintro (rfl | ⟨hheld, hfind⟩)
            · exact absurd rfl hba
            · exact ⟨fun h => hheld (Or.inl h), hfind⟩
          · rintro ⟨hheld, hfind⟩
            exact Or.inr ⟨fun h => h.elim hheld fun h => hba h.symm, hfind⟩

/-- **An element is kept when no element before it has its key**, and the key is not held. -/
theorem mem_firstByKey_append_cons {held : List κ} {before after : List α} {a : α}
    (ha : a ∉ before) :
    a ∈ firstByKey key held (before ++ a :: after) ↔
      key a ∉ held ∧ ∀ b ∈ before, key b ≠ key a := by
  rw [mem_firstByKey, List.find?_append, List.find?_cons_of_pos (by simp)]
  refine and_congr_right fun _ => ?_
  cases hfind : before.find? (key · = key a) with
  | none =>
      refine iff_of_true rfl fun b hb => ?_
      simpa using List.find?_eq_none.1 hfind b hb
  | some b =>
      have hb : b ∈ before := List.mem_of_find?_eq_some hfind
      have hkey : key b = key a := by simpa using List.find?_some hfind
      refine iff_of_false (fun h => ha ?_) fun h => h b hb hkey
      rwa [← Option.some.inj h]

theorem nodup_map_firstByKey {l : List α} :
    ∀ {held : List κ}, ((firstByKey key held l).map key).Nodup := by
  induction l with
  | nil =>
      intro held
      exact List.nodup_nil
  | cons a l ih =>
      intro held
      rw [firstByKey_cons]
      split_ifs
      · exact ih
      · rw [List.map_cons, List.nodup_cons]
        refine ⟨fun hmem => ?_, ih⟩
        exact (mem_map_firstByKey.1 hmem).2 (by simp)

section FirstOfEach

variable [LinearOrder β] {order : α → β} {l : List α}

/-- What is kept of a sorted list is the least of its key. -/
theorem order_le_of_mem_firstByKey (hsorted : l.Pairwise fun a b => order a ≤ order b) {a b : α}
    (ha : a ∈ firstByKey key [] l) (hb : b ∈ l) (hkey : key b = key a) : order a ≤ order b := by
  obtain ⟨-, hfind⟩ := mem_firstByKey.1 ha
  obtain ⟨-, before, after, rfl, hnone⟩ := List.find?_eq_some_iff_append.1 hfind
  rcases List.mem_append.1 hb with hb | hb
  · have hno := hnone b hb
    simp [hkey] at hno
  · rcases List.mem_cons.1 hb with rfl | hb
    · exact le_rfl
    · exact (List.pairwise_cons.1 (List.pairwise_append.1 hsorted).2.1).1 b hb

/-- **A key is passed over only for keys that stand before it.** -/
theorem firstByKey_take_of_not_mem (hsorted : l.Pairwise fun a b => order a ≤ order b) {a : α}
    (ha : a ∈ l) {k : ℕ} (hnot : key a ∉ ((firstByKey key [] l).take k).map key) :
    ((firstByKey key [] l).take k).length = k ∧
      ∀ b ∈ (firstByKey key [] l).take k, order b ≤ order a := by
  obtain ⟨first, hfirst, hkey⟩ : ∃ first ∈ firstByKey key [] l, key first = key a :=
    List.mem_map.1 (mem_map_firstByKey.2 ⟨List.mem_map_of_mem ha, List.not_mem_nil⟩)
  have hle := order_le_of_mem_firstByKey hsorted hfirst ha hkey.symm
  have hkept : (firstByKey key [] l).Pairwise fun a b => order a ≤ order b :=
    hsorted.sublist firstByKey_sublist
  rw [← List.take_append_drop k (firstByKey key [] l)] at hfirst hkept
  rcases List.mem_append.1 hfirst with hin | hlater
  · exact absurd (List.mem_map.2 ⟨first, hin, hkey⟩) hnot
  · refine ⟨?_, fun b hb => ((List.pairwise_append.1 hkept).2.2 b hb first hlater).trans hle⟩
    have hlength := List.length_pos_of_mem hlater
    rw [List.length_drop] at hlength
    rw [List.length_take]
    omega

end FirstOfEach

/-- The keys of what a filtering map keeps of a list are among the keys of the list, in order. -/
theorem sublist_map_filterMap {α β γ : Type*} {f : α → Option β} {g : β → γ} {key : α → γ}
    (hkey : ∀ a b, f a = some b → g b = key a) (l : List α) :
    ((l.filterMap f).map g).Sublist (l.map key) := by
  induction l with
  | nil => exact List.Sublist.refl _
  | cons a l ih =>
      cases hfa : f a with
      | none => simpa [hfa] using ih.cons (key a)
      | some b => simpa [hfa, hkey a b hfa] using ih

end FirstByKey
