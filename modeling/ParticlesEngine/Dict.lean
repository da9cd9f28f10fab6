/-
**Dicts built from pairs.**

A dict built from a sequence of pairs keeps the last value given for a key.  This module names
nothing of a particular program.

Main definitions:

* `dictOf` — the lookup in such a dict.

Main results:

* `dictOf_eq_none`, `mem_of_dictOf` — a key is absent exactly when no pair has it, and its value is
  that of one of its pairs;
* `dictOf_sortBy` — **over pairs given in ascending order a key has the value of a greatest pair**.
-/

import ParticlesEngine.SortBy

set_option relaxedAutoImplicit false
set_option autoImplicit false

open SortBy

namespace Dict

variable {κ α : Type*} [DecidableEq κ]

/-- A dict built from pairs; the last of two pairs with one key is kept. -/
def dictOf (pairs : List (κ × α)) (key : κ) : Option α :=
  (pairs.reverse.find? fun pair => pair.1 = key).map Prod.snd

/-- A key is absent exactly when no pair has it. -/
theorem dictOf_eq_none {pairs : List (κ × α)} {key : κ} :
    dictOf pairs key = none ↔ ∀ pair ∈ pairs, pair.1 ≠ key := by
  simp [dictOf]

/-- A value is that of one of the pairs. -/
theorem mem_of_dictOf {pairs : List (κ × α)} {key : κ} {value : α}
    (h : dictOf pairs key = some value) : (key, value) ∈ pairs := by
  obtain ⟨⟨k, v⟩, hfind, rfl⟩ := Option.map_eq_some_iff.1 h
  obtain rfl : k = key := by simpa using List.find?_some hfind
  exact List.mem_reverse.1 (List.mem_of_find?_eq_some hfind)

/-- When the pairs give a key one value, the dict has it. -/
theorem dictOf_eq_some {pairs : List (κ × α)} {key : κ} {value : α} (hmem : (key, value) ∈ pairs)
    (hone : ∀ v, (key, v) ∈ pairs → v = value) : dictOf pairs key = some value := by
  cases h : dictOf pairs key with
  | none => exact absurd rfl (dictOf_eq_none.1 h _ hmem)
  | some v => rw [hone v (mem_of_dictOf h)]

/-- **Over pairs given in ascending order a key has the value of a greatest pair.** -/
theorem dictOf_sortBy {ρ β : Type*} [LinearOrder β] {order : ρ → β} {key : ρ → κ} {value : ρ → α}
    {rows : List ρ} {k : κ} {v : α}
    (h : dictOf ((sortBy order rows).map fun row => (key row, value row)) k = some v) :
    ∃ row ∈ rows, key row = k ∧ value row = v ∧
      ∀ other ∈ rows, key other = k → order other ≤ order row := by
  obtain ⟨pair, hfind, rfl⟩ := Option.map_eq_some_iff.1 h
  rw [← List.map_reverse, List.find?_map] at hfind
  obtain ⟨row, hrow, rfl⟩ := Option.map_eq_some_iff.1 hfind
  obtain ⟨hkey, before, after, hsplit, hbefore⟩ := List.find?_eq_some_iff_append.1 hrow
  have hmem : row ∈ sortBy order rows := by
    rw [← List.mem_reverse, hsplit]
    simp
  refine ⟨row, mem_sortBy.1 hmem, by simpa using hkey, rfl, fun other hother hok => ?_⟩
  -- what follows the row in the reversed list is not greater, and what precedes it has other keys
  have hsorted : (sortBy order rows).reverse.Pairwise fun a b => order b ≤ order a :=
    List.pairwise_reverse.2 (pairwise_sortBy order rows)
  rw [hsplit, List.pairwise_append, List.pairwise_cons] at hsorted
  have hin : other ∈ before ++ row :: after := by
    rw [← hsplit, List.mem_reverse]
    exact mem_sortBy.2 hother
  rcases List.mem_append.1 hin with hin | hin
  · have := hbefore other hin
    simp [hok] at this
  · rcases List.mem_cons.1 hin with rfl | hin
    · exact le_refl _
    · exact hsorted.2.1.1 other hin

end Dict
