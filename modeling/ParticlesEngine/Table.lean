/-
**Tables with a primary key.**

A table is the list of its rows, in the order they were inserted, together with the fact that no
two of them have the same primary key.  An insert that would break the key is refused, and every
other operation keeps it, so a table with a duplicated key cannot be built.  This module names
nothing of a particular schema.

Main definitions:

* `Table` — rows with a duplicate-free key;
* `Table.get?`, `Table.insert?`, `Table.modify`, `Table.filter` — lookup by key, insert, in-place
  update of the row with a key, and deletion of the rows that fail a test.

Main results:

* `Table.get?_eq_some` — a lookup returns the one row with the key;
* `Table.get?_insert?`, `Table.get?_modify` — what each write changes, and that it changes
  nothing else.
-/

import Mathlib.Data.List.Nodup

set_option relaxedAutoImplicit false
set_option autoImplicit false

/-- The rows of a table, no two of which share their primary key. -/
structure Table {κ ρ : Type*} (key : ρ → κ) where
  /-- the rows, oldest first -/
  rows : List ρ
  /-- the primary key is unique -/
  nodup : (rows.map key).Nodup

namespace Table

variable {κ ρ : Type*} {key : ρ → κ}

@[ext] theorem ext {t u : Table key} (h : t.rows = u.rows) : t = u := by
  cases t; cases u; simp_all

instance [DecidableEq ρ] : DecidableEq (Table key) := fun t u =>
  decidable_of_iff (t.rows = u.rows) ⟨ext, fun h => h ▸ rfl⟩

/-- The table with no row. -/
def empty : Table key := ⟨[], List.nodup_nil⟩

@[simp] theorem rows_empty : (empty : Table key).rows = [] := rfl

theorem eq_of_key_eq {t : Table key} {r r' : ρ} (hr : r ∈ t.rows) (hr' : r' ∈ t.rows)
    (h : key r = key r') : r = r' :=
  List.inj_on_of_nodup_map t.nodup hr hr' h

/-! ### Lookup -/

section Lookup

variable [DecidableEq κ]

/-- The row with key `k`. -/
def get? (t : Table key) (k : κ) : Option ρ := t.rows.find? fun r => key r = k

@[simp] theorem get?_empty (k : κ) : (empty : Table key).get? k = none := rfl

/-- **A lookup returns the one row with the key.** -/
theorem get?_eq_some {t : Table key} {k : κ} {r : ρ} :
    t.get? k = some r ↔ r ∈ t.rows ∧ key r = k := by
  constructor
  · intro h
    exact ⟨List.mem_of_find?_eq_some h, by simpa using List.find?_some h⟩
  · rintro ⟨hr, rfl⟩
    cases hget : t.get? (key r) with
    | none =>
        have := List.find?_eq_none.1 hget r hr
        simp at this
    | some r' =>
        have hkey : key r' = key r := by simpa using List.find?_some hget
        rw [eq_of_key_eq (List.mem_of_find?_eq_some hget) hr hkey]

theorem get?_eq_none {t : Table key} {k : κ} : t.get? k = none ↔ ∀ r ∈ t.rows, key r ≠ k := by
  simp [get?]

theorem get?_key {t : Table key} {r : ρ} (hr : r ∈ t.rows) : t.get? (key r) = some r :=
  get?_eq_some.2 ⟨hr, rfl⟩

/-- Scanning the rows for the one with a key, and reading a column of it, is a lookup. -/
theorem findSome?_key {α : Type*} (t : Table key) (k : κ) (f : ρ → Option α) :
    (t.rows.findSome? fun r => if key r = k then f r else none) = (t.get? k).bind f := by
  cases hget : t.get? k with
  | none =>
      rw [Option.bind_none, List.findSome?_eq_none_iff]
      intro r hr
      rw [if_neg (get?_eq_none.1 hget r hr)]
  | some r =>
      obtain ⟨hr, hk⟩ := get?_eq_some.1 hget
      rw [Option.bind_some]
      cases hf : f r with
      | none =>
          rw [List.findSome?_eq_none_iff]
          intro r' hr'
          by_cases hk' : key r' = k
          · rw [if_pos hk', eq_of_key_eq hr' hr (hk'.trans hk.symm), hf]
          · rw [if_neg hk']
      | some a =>
          cases hfind : t.rows.findSome? fun r => if key r = k then f r else none with
          | none =>
              have hnone := List.findSome?_eq_none_iff.1 hfind r hr
              rw [if_pos hk, hf] at hnone
              cases hnone
          | some b =>
              obtain ⟨r', hr', hb⟩ := List.exists_of_findSome?_eq_some hfind
              split_ifs at hb with hk'
              rw [eq_of_key_eq hr' hr (hk'.trans hk.symm), hf] at hb
              exact hb.symm

theorem mem_of_get? {t : Table key} {k : κ} {r : ρ} (h : t.get? k = some r) : r ∈ t.rows :=
  (get?_eq_some.1 h).1

theorem key_of_get? {t : Table key} {k : κ} {r : ρ} (h : t.get? k = some r) : key r = k :=
  (get?_eq_some.1 h).2

end Lookup

/-! ### Writes -/

section Writes

variable [DecidableEq κ]

/-- Insert a row; refused when its key is taken. -/
def insert? (t : Table key) (r : ρ) : Option (Table key) :=
  if h : key r ∈ t.rows.map key then none
  else some ⟨t.rows ++ [r], by
    rw [List.map_append, List.nodup_append']
    refine ⟨t.nodup, by simp, ?_⟩
    simpa [List.disjoint_singleton] using h⟩

theorem insert?_eq_some {t u : Table key} {r : ρ} :
    t.insert? r = some u ↔ t.get? (key r) = none ∧ u.rows = t.rows ++ [r] := by
  unfold insert?
  split_ifs with h
  · simp only [get?_eq_none, false_iff, not_and]
    intro hnone
    obtain ⟨r', hr', hkey⟩ := List.mem_map.1 h
    exact absurd hkey (hnone r' hr')
  · simp only [Option.some.injEq, get?_eq_none]
    constructor
    · rintro rfl
      exact ⟨fun r' hr' hkey => h (List.mem_map.2 ⟨r', hr', hkey⟩), rfl⟩
    · rintro ⟨-, hu⟩
      exact ext hu.symm

/-- **After an insert a lookup finds the new row under its key, and the old rows elsewhere.** -/
theorem get?_insert? {t u : Table key} {r : ρ} (h : t.insert? r = some u) (k : κ) :
    u.get? k = if key r = k then some r else t.get? k := by
  obtain ⟨hnone, hu⟩ := insert?_eq_some.1 h
  have hget : u.get? k = (t.get? k).or (if key r = k then some r else none) := by
    simp only [get?, hu, List.find?_append, List.find?_cons, List.find?_nil]
    by_cases hk : key r = k <;> simp [hk]
  by_cases hk : key r = k
  · subst hk
    simp [hget, hnone]
  · simp [hget, hk]

/-- Update in place the row with key `k`; the update keeps the key. -/
def modify (t : Table key) (k : κ) (f : ρ → ρ) (hf : ∀ r, key (f r) = key r) : Table key :=
  ⟨t.rows.map fun r => if key r = k then f r else r, by
    have hkeys : ((t.rows.map fun r => if key r = k then f r else r).map key)
        = t.rows.map key := by
      rw [List.map_map]
      refine List.map_congr_left fun r _ => ?_
      by_cases hk : key r = k <;> simp [hk, hf]
    rw [hkeys]
    exact t.nodup⟩

theorem mem_rows_modify {t : Table key} {k : κ} {f : ρ → ρ} {hf : ∀ r, key (f r) = key r} {r : ρ} :
    r ∈ (t.modify k f hf).rows ↔ ∃ r₀ ∈ t.rows, (if key r₀ = k then f r₀ else r₀) = r := by
  simp [modify]

/-- **An in-place update changes the row with its key and no other.** -/
theorem get?_modify (t : Table key) (k : κ) (f : ρ → ρ) (hf : ∀ r, key (f r) = key r) (k' : κ) :
    (t.modify k f hf).get? k' = if k = k' then (t.get? k').map f else t.get? k' := by
  cases hget : t.get? k' with
  | none =>
      rw [get?_eq_none] at hget
      have hnone : (t.modify k f hf).get? k' = none := by
        rw [get?_eq_none]
        intro r hr
        obtain ⟨r₀, hr₀, rfl⟩ := mem_rows_modify.1 hr
        by_cases hk : key r₀ = k <;> simp [hk, hf] <;> simpa [hk] using hget r₀ hr₀
      simp [hnone]
  | some r₀ =>
      obtain ⟨hmem, rfl⟩ := get?_eq_some.1 hget
      by_cases hk : k = key r₀
      · rw [if_pos hk, Option.map_some, get?_eq_some]
        exact ⟨mem_rows_modify.2 ⟨r₀, hmem, by simp [hk]⟩, hf r₀⟩
      · rw [if_neg hk, get?_eq_some]
        exact ⟨mem_rows_modify.2 ⟨r₀, hmem, by simp [Ne.symm hk]⟩, rfl⟩

/-- Insert a row unless its key is taken. -/
def insertIfAbsent (t : Table key) (r : ρ) : Table key := (t.insert? r).getD t

theorem rows_insertIfAbsent (t : Table key) (r : ρ) :
    (t.insertIfAbsent r).rows = if t.get? (key r) = none then t.rows ++ [r] else t.rows := by
  unfold insertIfAbsent
  cases hu : t.insert? r with
  | some u =>
      obtain ⟨hnone, hrows⟩ := insert?_eq_some.1 hu
      rw [if_pos hnone]
      exact hrows
  | none =>
      have htaken : t.get? (key r) ≠ none := by
        intro hnone
        have hnot : key r ∉ t.rows.map key := by
          intro hmem
          obtain ⟨r', hr', hkey⟩ := List.mem_map.1 hmem
          exact get?_eq_none.1 hnone r' hr' hkey
        simp [insert?, hnot] at hu
      rw [if_neg htaken]
      rfl

/-- When the key is the whole row, an insert-unless-there adds exactly that row. -/
theorem mem_rows_insertIfAbsent (hinj : Function.Injective key) {t : Table key} {r r' : ρ} :
    r' ∈ (t.insertIfAbsent r).rows ↔ r' ∈ t.rows ∨ r' = r := by
  rw [rows_insertIfAbsent]
  split_ifs with hnone
  · simp
  · obtain ⟨r₀, hr₀⟩ := Option.ne_none_iff_exists'.1 hnone
    obtain ⟨hmem, hkey⟩ := get?_eq_some.1 hr₀
    obtain rfl := hinj hkey
    constructor
    · exact Or.inl
    · rintro (h | rfl)
      · exact h
      · exact hmem

end Writes

/-- Update in place every row; the update keeps the key. -/
def mapRows (t : Table key) (f : ρ → ρ) (hf : ∀ r, key (f r) = key r) : Table key :=
  ⟨t.rows.map f, by
    have hkeys : (t.rows.map f).map key = t.rows.map key := by
      rw [List.map_map]
      exact List.map_congr_left fun r _ => hf r
    rw [hkeys]
    exact t.nodup⟩

@[simp] theorem rows_mapRows (t : Table key) (f : ρ → ρ) (hf : ∀ r, key (f r) = key r) :
    (t.mapRows f hf).rows = t.rows.map f := rfl

theorem get?_mapRows [DecidableEq κ] (t : Table key) (f : ρ → ρ) (hf : ∀ r, key (f r) = key r)
    (k : κ) : (t.mapRows f hf).get? k = (t.get? k).map f := by
  simp only [get?, rows_mapRows, List.find?_map, Function.comp_def, hf]

/-- The rows that pass the test `p`. -/
def filter (t : Table key) (p : ρ → Bool) : Table key :=
  ⟨t.rows.filter p, (List.filter_sublist.map key).nodup t.nodup⟩

@[simp] theorem rows_filter (t : Table key) (p : ρ → Bool) :
    (t.filter p).rows = t.rows.filter p := rfl

/-- A deletion by key leaves every other lookup as it was. -/
theorem get?_filter_key_ne [DecidableEq κ] (t : Table key) (k k' : κ) :
    (t.filter fun r => key r ≠ k).get? k' = if k = k' then none else t.get? k' := by
  by_cases hk : k = k'
  · subst hk
    rw [if_pos rfl, get?_eq_none]
    intro r hr
    simpa using (List.mem_filter.1 hr).2
  · rw [if_neg hk]
    cases hget : t.get? k' with
    | none =>
        rw [get?_eq_none] at hget ⊢
        intro r hr
        exact hget r (List.mem_filter.1 hr).1
    | some r =>
        obtain ⟨hmem, rfl⟩ := get?_eq_some.1 hget
        rw [get?_eq_some]
        exact ⟨List.mem_filter.2 ⟨hmem, by simpa using Ne.symm hk⟩, rfl⟩

/-- A deletion by a test of the key leaves every lookup of a key that passes. -/
theorem get?_filter_key [DecidableEq κ] (t : Table key) (p : κ → Bool) (k : κ) :
    (t.filter fun r => p (key r)).get? k = if p k then t.get? k else none := by
  simp only [get?, rows_filter, List.find?_filter]
  split_ifs with hk
  · refine congrArg (List.find? · t.rows) (funext fun r => ?_)
    rcases eq_or_ne (key r) k with rfl | hne
    · simp [hk]
    · simp [hne]
  · rw [List.find?_eq_none]
    intro r _ h
    simp only [decide_eq_true_eq] at h
    exact hk (h.2 ▸ h.1)

end Table
