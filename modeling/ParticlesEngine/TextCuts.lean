/-
**Cutting and trimming a text.**

A text is cut at the matches of a pattern, from left to right and without overlaps, as a search for
all matches cuts it; what lies between two matches is a gap.  A text is trimmed of the characters at
its ends that have a property.  A text whose characters are marked can lose the marked ones, and
trimming it before changes nothing but its ends.  This module names nothing of a particular program.

Main definitions:

* `Cut`, `cut` — a match with the gap behind it, and the cuts of a text;
* `gapsOf` — a text without its matches;
* `trim` — a text without the characters at its ends that have a property;
* `unmarked` — the characters of a marked text that are not marked.

Main results:

* `cut_join` — **the matches and the gaps are the text**;
* `trim_append` — what is trimmed off may stand at the ends;
* `trim_unmarked_trim` — **trimming a marked text first changes nothing inside**.
-/

import Mathlib.Data.List.DropRight

set_option relaxedAutoImplicit false
set_option autoImplicit false

namespace TextCuts

variable {α β : Type*}

/-! ### Cuts -/

/-- A match: its value, its characters, and the gap up to the next match. -/
structure Cut (α β : Type*) where
  value : β
  raw : List α
  gap : List α

/-- The gap before the first match of a text, and its matches; the first `skip` characters belong to
a match before. -/
def cut (matchAt : List α → Option (β × ℕ)) : ℕ → List α → List α × List (Cut α β)
  | _, [] => ([], [])
  | skip + 1, _ :: rest => cut matchAt skip rest
  | 0, c :: rest =>
      match matchAt (c :: rest) with
      | some (value, n + 1) =>
          let (gap, cuts) := cut matchAt n rest
          ([], ⟨value, (c :: rest).take (n + 1), gap⟩ :: cuts)
      | _ =>
          let (gap, cuts) := cut matchAt 0 rest
          (c :: gap, cuts)

/-- A text without its matches. -/
def gapsOf (cuts : List α × List (Cut α β)) : List α := cuts.1 ++ (cuts.2.map Cut.gap).flatten

/-- **The matches and the gaps are the text.** -/
theorem cut_join (matchAt : List α → Option (β × ℕ)) (skip : ℕ) (text : List α) :
    (cut matchAt skip text).1 ++
        ((cut matchAt skip text).2.map fun found => found.raw ++ found.gap).flatten =
      text.drop skip := by
  fun_induction cut with
  | case1 => simp
  | case2 skip c rest ih => simpa using ih
  | case3 c rest value n hmatch gap cuts hrest ih =>
      rw [hrest] at ih
      simp only [List.nil_append, List.map_cons, List.flatten_cons, List.append_assoc, List.drop_zero]
      rw [ih]
      exact List.take_append_drop (n + 1) (c :: rest)
  | case4 c rest gap cuts hrest hmatch ih =>
      rw [hrest] at ih
      simpa using ih

/-! ### Trimming -/

/-- A text without the characters at its ends that have a property. -/
def trim (p : α → Bool) (text : List α) : List α := (text.dropWhile p).rdropWhile p

variable {p : α → Bool}

theorem trim_eq_nil_iff {text : List α} : trim p text = [] ↔ ∀ c ∈ text, p c = true := by
  rw [trim, List.rdropWhile_eq_nil_iff]
  constructor
  · intro h c hc
    rw [← List.takeWhile_append_dropWhile (p := p) (l := text), List.mem_append] at hc
    exact hc.elim List.mem_takeWhile_imp (h c)
  · exact fun h c hc => h c ((List.dropWhile_sublist p).subset hc)

theorem dropWhile_append_of_all {front text : List α} (h : ∀ c ∈ front, p c = true) :
    (front ++ text).dropWhile p = text.dropWhile p := by
  induction front with
  | nil => rfl
  | cons c front ih =>
      rw [List.cons_append, List.dropWhile_cons_of_pos (h c List.mem_cons_self)]
      exact ih fun d hd => h d (List.mem_cons_of_mem c hd)

theorem rdropWhile_append_of_all {text back : List α} (h : ∀ c ∈ back, p c = true) :
    (text ++ back).rdropWhile p = text.rdropWhile p := by
  rw [List.rdropWhile, List.rdropWhile, List.reverse_append, dropWhile_append_of_all]
  exact fun c hc => h c (List.mem_reverse.1 hc)

/-- Trimming at the other end first makes no difference. -/
theorem trim_comm (text : List α) : trim p text = (text.rdropWhile p).dropWhile p := by
  induction text using List.reverseRecOn with
  | nil => rfl
  | append_singleton text c ih =>
      rw [trim, List.dropWhile_append]
      by_cases hc : p c = true
      · rw [List.rdropWhile_concat_pos _ _ _ hc, ← ih]
        split_ifs with hempty
        · rw [List.dropWhile_cons_of_pos hc, trim, List.isEmpty_iff.1 hempty, List.dropWhile_nil]
        · rw [List.rdropWhile_concat_pos _ _ _ hc, trim]
      · rw [List.rdropWhile_concat_neg _ _ _ hc, List.dropWhile_append]
        split_ifs with hempty
        · rw [List.dropWhile_cons_of_neg hc, List.rdropWhile_singleton, if_neg hc]
        · rw [List.rdropWhile_concat_neg _ _ _ hc]

/-- **What is trimmed off may stand at the ends.** -/
theorem trim_append {front text back : List α} (hfront : ∀ c ∈ front, p c = true)
    (hback : ∀ c ∈ back, p c = true) : trim p (front ++ text ++ back) = trim p text := by
  rw [trim_comm, rdropWhile_append_of_all hback, ← trim_comm, trim, dropWhile_append_of_all hfront]
  rfl

/-- A text is its trimmed form between characters with the property. -/
theorem exists_trim (p : α → Bool) (text : List α) :
    ∃ front back, text = front ++ trim p text ++ back ∧ (∀ c ∈ front, p c = true) ∧
      ∀ c ∈ back, p c = true := by
  refine ⟨text.takeWhile p, (text.dropWhile p).rtakeWhile p, ?_, fun c hc => ?_, fun c hc => ?_⟩
  · rw [trim, List.append_assoc, List.rdropWhile_append_rtakeWhile,
      List.takeWhile_append_dropWhile]
  · exact List.mem_takeWhile_imp hc
  · exact List.mem_rtakeWhile_imp hc

/-! ### Marked characters -/

/-- The characters of a marked text that are not marked. -/
def unmarked (text : List (α × Bool)) : List α := (text.filter fun item => !item.2).map Prod.fst

@[simp] theorem unmarked_append (text text' : List (α × Bool)) :
    unmarked (text ++ text') = unmarked text ++ unmarked text' := by simp [unmarked]

@[simp] theorem unmarked_nil : unmarked ([] : List (α × Bool)) = [] := rfl

@[simp] theorem unmarked_map_false (text : List α) : unmarked (text.map (·, false)) = text := by
  simp [unmarked, List.filter_map, Function.comp_def]

@[simp] theorem unmarked_map_true (text : List α) : unmarked (text.map (·, true)) = [] := by
  simp [unmarked, List.filter_map, Function.comp_def]

/-- **Trimming a marked text first changes nothing inside.** -/
theorem trim_unmarked_trim (text : List (α × Bool)) :
    trim p (unmarked (trim (fun item => p item.1) text)) = trim p (unmarked text) := by
  obtain ⟨front, back, htext, hfront, hback⟩ := exists_trim (fun item : α × Bool => p item.1) text
  have hends : ∀ part : List (α × Bool), (∀ item ∈ part, p item.1 = true) →
      ∀ c ∈ unmarked part, p c = true := by
    intro part hpart c hc
    obtain ⟨item, hitem, rfl⟩ := List.mem_map.1 hc
    exact hpart item (List.mem_filter.1 hitem).1
  conv_rhs => rw [htext]
  rw [unmarked_append, unmarked_append, trim_append (hends front hfront) (hends back hback)]

/-- The characters of a trimmed marked text. -/
theorem map_fst_trim (text : List (α × Bool)) :
    (trim (fun item => p item.1) text).map Prod.fst = trim p (text.map Prod.fst) := by
  rw [trim, trim, List.rdropWhile, List.rdropWhile, List.dropWhile_map, ← List.map_reverse,
    List.dropWhile_map, ← List.map_reverse]
  rfl

end TextCuts
