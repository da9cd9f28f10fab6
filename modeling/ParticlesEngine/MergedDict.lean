/-
**Dicts that combine the values of a key.**

A loop over pairs that stores the first value of a key and combines every later one with the value
held, and the same loop over values without keys.  With a meet as the combination the result is the
greatest lower bound of the values, so the order of the pairs does not matter.  This module names
nothing of a particular program.

Main definitions:

* `reduce` — the combination of a list of values, if there is one;
* `get`, `upsert` — lookup and update in a dict given by its items;
* `combineInto`, `combine` — the dict that the loop over pairs leaves.

Main results:

* `reduce_eq_none`, `isGLB_of_reduce` — **the meet of some values is their greatest lower bound**, in
  a linear order the least of them (`isLeast_of_reduce`);
* `get_combine` — **a key has the combination of its values**;
* `mem_combine_iff` — the items of the dict are its keys with what they have.
-/

import Mathlib.Algebra.BigOperators.Group.List.Basic
import Mathlib.Data.List.Induction
import Mathlib.Data.List.Nodup
import Mathlib.Order.Bounds.Basic
import Mathlib.Order.Lattice
import Mathlib.Order.MinMax

set_option relaxedAutoImplicit false
set_option autoImplicit false

namespace MergedDict

/-! ### Values -/

section Reduce

variable {α : Type*}

/-- The combination of some values, the first one taken as it is. -/
def reduce (f : α → α → α) (values : List α) : Option α :=
  values.foldl (fun held value => some (held.elim value (f · value))) none

theorem reduce_concat (f : α → α → α) (values : List α) (value : α) :
    reduce f (values ++ [value]) = some ((reduce f values).elim value (f · value)) := by
  simp [reduce]

@[simp] theorem reduce_nil (f : α → α → α) : reduce f [] = none := rfl

theorem reduce_eq_none {f : α → α → α} {values : List α} : reduce f values = none ↔ values = [] := by
  rcases List.eq_nil_or_concat values with rfl | ⟨front, last, rfl⟩
  · simp
  · simp [reduce_concat]

/-- The values of two lists are combined list by list. -/
theorem reduce_append {f : α → α → α} (hassoc : ∀ a b c, f (f a b) c = f a (f b c))
    (values values' : List α) :
    reduce f (values ++ values') = Option.merge f (reduce f values) (reduce f values') := by
  induction values' using List.reverseRecOn with
  | nil => simp
  | append_singleton values' last ih =>
      rw [← List.append_assoc, reduce_concat, ih, reduce_concat]
      cases reduce f values with
      | none => cases reduce f values' <;> rfl
      | some held => cases reduce f values' <;> simp [hassoc]

/-- **The meet of some values is their greatest lower bound.** -/
theorem isGLB_of_reduce [SemilatticeInf α] {values : List α} {m : α}
    (h : reduce (· ⊓ ·) values = some m) : IsGLB {v | v ∈ values} m := by
  induction values using List.reverseRecOn generalizing m with
  | nil => simp at h
  | append_singleton values last ih =>
      rw [reduce_concat, Option.some.injEq] at h
      have hset : {v | v ∈ values ++ [last]} = {v | v ∈ values} ∪ {last} := by
        ext v
        simp [or_comm]
      rw [hset]
      cases hheld : reduce (· ⊓ ·) values with
      | none =>
          rw [hheld] at h
          obtain rfl : last = m := h
          have hempty : {v | v ∈ values} = (∅ : Set α) := by
            rw [reduce_eq_none.1 hheld]
            simp
          rw [hempty, Set.empty_union]
          exact isGLB_singleton
      | some held =>
          rw [hheld] at h
          obtain rfl : held ⊓ last = m := h
          exact (ih hheld).union isGLB_singleton

/-- The first value may be met with the others in the end. -/
theorem reduce_cons_inf [SemilatticeInf α] (first : α) (values : List α) :
    reduce (· ⊓ ·) (first :: values) =
      some ((reduce (· ⊓ ·) values).elim first (first ⊓ ·)) := by
  induction values using List.reverseRecOn with
  | nil => rfl
  | append_singleton values last ih =>
      rw [← List.cons_append, reduce_concat, ih, reduce_concat]
      cases reduce (· ⊓ ·) values with
      | none => rfl
      | some held => simp [inf_assoc]

/-- The sum of some values, if there are any. -/
theorem reduce_add [AddMonoid α] (values : List α) :
    reduce (· + ·) values = if values = [] then none else some values.sum := by
  induction values using List.reverseRecOn with
  | nil => rfl
  | append_singleton values last ih =>
      rw [reduce_concat, ih, List.sum_append]
      by_cases hnil : values = []
      · simp [hnil]
      · simp [hnil]

/-- A map that carries one combination over to the other carries the results over. -/
theorem reduce_map {β : Type*} {f : α → α → α} {f' : β → β → β} {g : α → β}
    (hg : ∀ a b, g (f a b) = f' (g a) (g b)) (values : List α) :
    reduce f' (values.map g) = (reduce f values).map g := by
  induction values using List.reverseRecOn with
  | nil => rfl
  | append_singleton values last ih =>
      rw [List.map_append, List.map_cons, List.map_nil, reduce_concat, reduce_concat, ih]
      cases reduce f values with
      | none => rfl
      | some held => simp [hg]

/-- In a linear order the meet is one of the values. -/
theorem isLeast_of_reduce [LinearOrder α] {values : List α} {m : α}
    (h : reduce (· ⊓ ·) values = some m) : IsLeast {v | v ∈ values} m := by
  refine ⟨?_, (isGLB_of_reduce h).1⟩
  induction values using List.reverseRecOn generalizing m with
  | nil => simp at h
  | append_singleton values last ih =>
      rw [reduce_concat, Option.some.injEq] at h
      show m ∈ values ++ [last]
      rw [List.mem_append, List.mem_singleton]
      cases hheld : reduce (· ⊓ ·) values with
      | none =>
          rw [hheld] at h
          exact Or.inr h.symm
      | some held =>
          rw [hheld] at h
          obtain rfl : min held last = m := h
          rcases min_choice held last with hmin | hmin
          · rw [hmin]
            exact Or.inl (ih hheld)
          · exact Or.inr hmin

/-- **In a linear order the meet is a value exactly when it is the least.** -/
theorem reduce_eq_some_iff [LinearOrder α] {values : List α} {m : α} :
    reduce (· ⊓ ·) values = some m ↔ IsLeast {v | v ∈ values} m := by
  constructor
  · exact isLeast_of_reduce
  · intro hleast
    cases h : reduce (· ⊓ ·) values with
    | none =>
        have hmem : m ∈ values := hleast.1
        rw [reduce_eq_none.1 h] at hmem
        simp at hmem
    | some m' => rw [(isLeast_of_reduce h).unique hleast]

end Reduce

/-! ### Dicts -/

section Dict

variable {κ α : Type*} [DecidableEq κ]

/-- The value of a key. -/
def get (items : List (κ × α)) (key : κ) : Option α :=
  (items.find? fun item => item.1 = key).map Prod.snd

@[simp] theorem get_nil (key : κ) : get ([] : List (κ × α)) key = none := rfl

theorem get_cons (k : κ) (v : α) (items : List (κ × α)) (key : κ) :
    get ((k, v) :: items) key = if k = key then some v else get items key := by
  by_cases h : k = key <;> simp [get, h]

theorem get_append (items items' : List (κ × α)) (key : κ) :
    get (items ++ items') key = (get items key).or (get items' key) := by
  induction items with
  | nil => rfl
  | cons item items ih =>
      obtain ⟨k, v⟩ := item
      rw [List.cons_append, get_cons, get_cons, ih]
      split_ifs <;> rfl

/-- A test on keys keeps a key with its value, or drops it. -/
theorem get_filter (test : κ → Bool) (items : List (κ × α)) (key : κ) :
    get (items.filter fun item => test item.1) key = if test key then get items key else none := by
  induction items with
  | nil => simp
  | cons item items ih =>
      obtain ⟨k, v⟩ := item
      rw [List.filter_cons, get_cons]
      by_cases hk : k = key
      · subst hk
        cases htest : test k <;> simp [get_cons, htest, ih]
      · cases htest : test k <;> simp [get_cons, hk, ih]

/-- Store what `f` makes of the value held; a new key comes last. -/
def upsert (f : Option α → α) (key : κ) : List (κ × α) → List (κ × α)
  | [] => [(key, f none)]
  | (k, v) :: items => if k = key then (k, f (some v)) :: items else (k, v) :: upsert f key items

theorem get_upsert (f : Option α → α) (key k : κ) (items : List (κ × α)) :
    get (upsert f key items) k = if key = k then some (f (get items key)) else get items k := by
  induction items with
  | nil => simp [upsert, get_cons]
  | cons item items ih =>
      obtain ⟨k', v⟩ := item
      by_cases hk : k' = key
      · subst hk
        rw [upsert, if_pos rfl, get_cons, get_cons, get_cons, if_pos rfl]
        split_ifs <;> rfl
      · rw [upsert, if_neg hk, get_cons, get_cons, get_cons, if_neg hk, ih]
        by_cases hk' : k' = k
        · rw [if_pos hk', if_pos hk', if_neg fun h => hk (hk'.trans h.symm)]
        · rw [if_neg hk', if_neg hk']

/-- An update keeps the keys, and adds its own when it is new. -/
theorem keys_upsert (f : Option α → α) (key : κ) (items : List (κ × α)) :
    (upsert f key items).map Prod.fst =
      if key ∈ items.map Prod.fst then items.map Prod.fst else items.map Prod.fst ++ [key] := by
  induction items with
  | nil => simp [upsert]
  | cons item items ih =>
      obtain ⟨k, v⟩ := item
      by_cases hk : k = key
      · simp [upsert, hk]
      · have hmem : key ∈ ((k, v) :: items).map Prod.fst ↔ key ∈ items.map Prod.fst := by
          simp [Ne.symm hk]
        rw [upsert, if_neg hk, List.map_cons, ih]
        split_ifs with hin hin' hin'
        · rfl
        · exact absurd (hmem.2 hin) hin'
        · exact absurd (hmem.1 hin') hin
        · rfl

theorem nodup_keys_upsert (f : Option α → α) (key : κ) {items : List (κ × α)}
    (hkeys : (items.map Prod.fst).Nodup) : ((upsert f key items).map Prod.fst).Nodup := by
  rw [keys_upsert]
  split_ifs with hin
  · exact hkeys
  · rw [List.nodup_append]
    refine ⟨hkeys, List.nodup_singleton _, ?_⟩
    rintro k hk _ hk' rfl
    exact hin (List.mem_singleton.1 hk' ▸ hk)

/-- The dict that a loop over pairs leaves of a dict, when it combines the values of a key. -/
def combineInto (f : α → α → α) (items pairs : List (κ × α)) : List (κ × α) :=
  pairs.foldl (fun items pair => upsert (fun held => held.elim pair.2 (f · pair.2)) pair.1 items)
    items

/-- The dict of a loop over pairs that starts with none. -/
def combine (f : α → α → α) (pairs : List (κ × α)) : List (κ × α) := combineInto f [] pairs

/-- The values that the pairs give for a key, in their order. -/
def valuesOf (pairs : List (κ × α)) (key : κ) : List α :=
  (pairs.filter fun pair => pair.1 = key).map Prod.snd

theorem mem_valuesOf {pairs : List (κ × α)} {key : κ} {v : α} :
    v ∈ valuesOf pairs key ↔ (key, v) ∈ pairs := by
  simp only [valuesOf, List.mem_map, List.mem_filter, decide_eq_true_eq]
  constructor
  · rintro ⟨⟨k, v'⟩, ⟨hpair, rfl⟩, rfl⟩
    exact hpair
  · intro hpair
    exact ⟨(key, v), ⟨hpair, rfl⟩, rfl⟩

theorem combineInto_concat (f : α → α → α) (items pairs : List (κ × α)) (pair : κ × α) :
    combineInto f items (pairs ++ [pair]) =
      upsert (fun held => held.elim pair.2 (f · pair.2)) pair.1 (combineInto f items pairs) := by
  simp [combineInto]

/-- **A key has the combination of what it had with its values.** -/
theorem get_combineInto (f : α → α → α) (items pairs : List (κ × α)) (key : κ) :
    get (combineInto f items pairs) key =
      reduce f ((get items key).toList ++ valuesOf pairs key) := by
  induction pairs using List.reverseRecOn with
  | nil => cases h : get items key <;> simp [combineInto, valuesOf, reduce, h]
  | append_singleton pairs pair ih =>
      rw [combineInto_concat, get_upsert, valuesOf, List.filter_append, List.map_append]
      by_cases hk : pair.1 = key
      · subst hk
        rw [if_pos rfl, ih, List.filter_singleton]
        simp only [decide_true, cond_true, List.map_cons, List.map_nil]
        rw [← List.append_assoc]
        exact (reduce_concat f _ pair.2).symm
      · rw [if_neg hk, ih, List.filter_singleton]
        simp [hk, valuesOf]

/-- **A key has the combination of its values.** -/
theorem get_combine (f : α → α → α) (pairs : List (κ × α)) (key : κ) :
    get (combine f pairs) key = reduce f (valuesOf pairs key) :=
  get_combineInto f [] pairs key

theorem get_combine_eq_none {f : α → α → α} {pairs : List (κ × α)} {key : κ} :
    get (combine f pairs) key = none ↔ ∀ v, (key, v) ∉ pairs := by
  rw [get_combine, reduce_eq_none, List.eq_nil_iff_forall_not_mem]
  simp only [mem_valuesOf]

theorem nodup_keys_combine (f : α → α → α) (pairs : List (κ × α)) :
    ((combine f pairs).map Prod.fst).Nodup := by
  induction pairs using List.reverseRecOn with
  | nil => exact List.nodup_nil
  | append_singleton pairs pair ih =>
      rw [combine, combineInto_concat, ← combine]
      exact nodup_keys_upsert _ _ ih

theorem mem_iff_get {items : List (κ × α)} (hkeys : (items.map Prod.fst).Nodup) {key : κ} {v : α} :
    (key, v) ∈ items ↔ get items key = some v := by
  induction items with
  | nil => simp
  | cons item items ih =>
      obtain ⟨k, w⟩ := item
      obtain ⟨hk, hrest⟩ := List.nodup_cons.1 hkeys
      rw [get_cons, List.mem_cons, ih hrest, Prod.mk.injEq]
      by_cases hkey : k = key
      · subst hkey
        have hnone : get items k ≠ some v := by
          intro hget
          exact hk (List.mem_map.2 ⟨(k, v), (ih hrest).2 hget, rfl⟩)
        simp [hnone, eq_comm]
      · simp [hkey, Ne.symm hkey]

/-- A test on items keeps a key with its value, or drops it, when the keys are apart. -/
theorem get_filter_of_nodup {items : List (κ × α)} (hkeys : (items.map Prod.fst).Nodup)
    (test : κ × α → Bool) (key : κ) :
    get (items.filter test) key = (get items key).filter fun v => test (key, v) := by
  ext v
  rw [← mem_iff_get (hkeys.sublist (List.filter_sublist.map _)), List.mem_filter,
    Option.filter_eq_some_iff, ← mem_iff_get hkeys]

theorem valuesOf_eq_toList {items : List (κ × α)} (hkeys : (items.map Prod.fst).Nodup) (key : κ) :
    valuesOf items key = (get items key).toList := by
  induction items with
  | nil => rfl
  | cons item items ih =>
      obtain ⟨k, v⟩ := item
      obtain ⟨hk, hrest⟩ := List.nodup_cons.1 hkeys
      rw [get_cons, valuesOf, List.filter_cons]
      by_cases hkey : k = key
      · subst hkey
        have hnone : items.filter (fun pair => pair.1 = k) = [] := by
          rw [List.filter_eq_nil_iff]
          intro pair hpair hsame
          exact hk (List.mem_map.2 ⟨pair, hpair, of_decide_eq_true hsame⟩)
        simp [hnone]
      · simpa [hkey, valuesOf] using ih hrest

/-- **Combining a combined dict into another is combining its pairs.** -/
theorem get_combineInto_combine {f : α → α → α} (hassoc : ∀ a b c, f (f a b) c = f a (f b c))
    (items pairs : List (κ × α)) (key : κ) :
    get (combineInto f items (combine f pairs)) key = get (combineInto f items pairs) key := by
  rw [get_combineInto, get_combineInto, valuesOf_eq_toList (nodup_keys_combine f pairs), get_combine,
    reduce_append hassoc, reduce_append hassoc]
  congr 1
  cases reduce f (valuesOf pairs key) <;> rfl

theorem upsert_of_not_mem (f : Option α → α) {key : κ} {items : List (κ × α)}
    (h : key ∉ items.map Prod.fst) : upsert f key items = items ++ [(key, f none)] := by
  induction items with
  | nil => rfl
  | cons item items ih =>
      obtain ⟨k, v⟩ := item
      rw [List.map_cons, List.mem_cons, not_or] at h
      rw [upsert, if_neg (Ne.symm h.1), ih h.2, List.cons_append]

/-- Pairs with keys of their own are kept as they are. -/
theorem combine_of_nodup (f : α → α → α) {pairs : List (κ × α)}
    (hkeys : (pairs.map Prod.fst).Nodup) : combine f pairs = pairs := by
  induction pairs using List.reverseRecOn with
  | nil => rfl
  | append_singleton pairs pair ih =>
      rw [List.map_append, List.nodup_append] at hkeys
      obtain ⟨hfront, -, hdisjoint⟩ := hkeys
      have hnew : pair.1 ∉ pairs.map Prod.fst := fun hin =>
        hdisjoint _ hin pair.1 (by simp) rfl
      rw [combine, combineInto_concat, ← combine, ih hfront, upsert_of_not_mem _ hnew]
      rfl

/-- Two dicts with the same values have the same items. -/
theorem perm_of_get_eq {items items' : List (κ × α)} (hkeys : (items.map Prod.fst).Nodup)
    (hkeys' : (items'.map Prod.fst).Nodup) (h : ∀ key, get items key = get items' key) :
    items.Perm items' := by
  rw [List.perm_ext_iff_of_nodup hkeys.of_map hkeys'.of_map]
  rintro ⟨key, v⟩
  rw [mem_iff_get hkeys, mem_iff_get hkeys', h]

/-- **The items of the dict are its keys with what they have.** -/
theorem mem_combine_iff {f : α → α → α} {pairs : List (κ × α)} {key : κ} {v : α} :
    (key, v) ∈ combine f pairs ↔ reduce f (valuesOf pairs key) = some v := by
  rw [mem_iff_get (nodup_keys_combine f pairs), get_combine]

/-- An item of the dict has a pair with its key. -/
theorem exists_of_mem_combine {f : α → α → α} {pairs : List (κ × α)} {key : κ} {v : α}
    (h : (key, v) ∈ combine f pairs) : ∃ w, (key, w) ∈ pairs := by
  by_contra hnone
  have hget := get_combine_eq_none (f := f).2 fun w hw => hnone ⟨w, hw⟩
  rw [(mem_iff_get (nodup_keys_combine f pairs)).1 h] at hget
  exact nomatch hget

/-- **The meet of the keys that pass a test is the meet of the pairs whose key passes it.** -/
theorem reduce_combine [SemilatticeInf α] (pairs : List (κ × α)) (test : κ → Bool) :
    reduce (· ⊓ ·) (((combine (· ⊓ ·) pairs).filter fun item => test item.1).map Prod.snd) =
      reduce (· ⊓ ·) ((pairs.filter fun pair => test pair.1).map Prod.snd) := by
  cases hflat : reduce (· ⊓ ·) ((pairs.filter fun pair => test pair.1).map Prod.snd) with
  | none =>
      have hnil := List.map_eq_nil_iff.1 (reduce_eq_none.1 hflat)
      rw [reduce_eq_none, List.map_eq_nil_iff, List.filter_eq_nil_iff]
      rintro ⟨key, v⟩ hitem htest
      obtain ⟨w, hw⟩ := exists_of_mem_combine hitem
      exact List.filter_eq_nil_iff.1 hnil _ hw htest
  | some m =>
      have hm := isGLB_of_reduce hflat
      -- what a key has is below its pairs
      have hitem : ∀ key v, (key, v) ∈ pairs → ∃ w, (key, w) ∈ combine (· ⊓ ·) pairs ∧ w ≤ v := by
        intro key v hpair
        cases hkey : reduce (· ⊓ ·) (valuesOf pairs key) with
        | none =>
            have hmem := mem_valuesOf.2 hpair
            rw [reduce_eq_none.1 hkey] at hmem
            simp at hmem
        | some w => exact ⟨w, mem_combine_iff.2 hkey, (isGLB_of_reduce hkey).1 (mem_valuesOf.2 hpair)⟩
      cases hdict : reduce (· ⊓ ·)
          (((combine (· ⊓ ·) pairs).filter fun item => test item.1).map Prod.snd) with
      | none =>
          have hnil := List.map_eq_nil_iff.1 (reduce_eq_none.1 hdict)
          have hnil' : (pairs.filter fun pair => test pair.1).map Prod.snd = [] := by
            rw [List.map_eq_nil_iff, List.filter_eq_nil_iff]
            rintro ⟨key, v⟩ hpair htest
            obtain ⟨w, hw, -⟩ := hitem key v hpair
            exact List.filter_eq_nil_iff.1 hnil _ hw htest
          rw [hnil'] at hflat
          exact nomatch hflat
      | some m' =>
          have hm' := isGLB_of_reduce hdict
          have hle : m ≤ m' := by
            refine hm'.2 fun w hw => ?_
            obtain ⟨⟨key, w'⟩, hitem', rfl⟩ := List.mem_map.1 hw
            obtain ⟨hmem, htest⟩ := List.mem_filter.1 hitem'
            refine (isGLB_of_reduce (mem_combine_iff.1 hmem)).2 fun v hv => hm.1 ?_
            exact List.mem_map.2 ⟨(key, v), List.mem_filter.2 ⟨mem_valuesOf.1 hv, htest⟩, rfl⟩
          have hge : m' ≤ m := by
            refine hm.2 fun v hv => ?_
            obtain ⟨⟨key, v'⟩, hpair, rfl⟩ := List.mem_map.1 hv
            obtain ⟨hmem, htest⟩ := List.mem_filter.1 hpair
            obtain ⟨w, hw, hwv⟩ := hitem key v' hmem
            exact (hm'.1 (List.mem_map.2 ⟨(key, w), List.mem_filter.2 ⟨hw, htest⟩, rfl⟩)).trans hwv
          rw [le_antisymm hge hle]

end Dict

end MergedDict
