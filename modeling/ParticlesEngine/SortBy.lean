/-
**Stable sorting by a key.**

`sortBy key l` sorts a list by a key and keeps the order of elements with equal keys, as Python's
`sorted` and a database's `ORDER BY` over a scan do.  Where the key tells the elements apart, the
sorted list depends on the elements alone; this module collects the facts that follow.  It names
nothing of a particular program.

Main definitions:

* `sortBy` — the stable sort.

Main results:

* `eq_of_sorted_of_mem_iff` — two sorted lists with the same elements are equal;
* `sortBy_filter`, `mem_take_sortBy_filter` — **sorting commutes with a filter**, so what is among
  the first `k` of a list is among the first `k` of what a filter leaves of it;
* `sortBy_erase_first` — **taking away the first of the least elements takes away the head** of the
  sorted list.
-/

import Mathlib.Data.List.MinMax
import Mathlib.Data.List.Sort

set_option relaxedAutoImplicit false
set_option autoImplicit false

namespace SortBy

variable {α β γ : Type*} [LinearOrder β]

/-- The list sorted by `key`, elements with equal keys in their given order. -/
def sortBy (key : α → β) (l : List α) : List α := l.insertionSort fun a b => key a ≤ key b

variable {key : α → β} {l l₁ l₂ : List α}

@[simp] theorem sortBy_nil : sortBy key [] = [] := rfl

theorem sortBy_perm (key : α → β) (l : List α) : (sortBy key l).Perm l :=
  List.perm_insertionSort _ l

@[simp] theorem mem_sortBy {a : α} : a ∈ sortBy key l ↔ a ∈ l := (sortBy_perm key l).mem_iff

instance total_le (key : α → β) : Std.Total (fun a b : α => key a ≤ key b) := ⟨fun _ _ => le_total _ _⟩

instance isTrans_le (key : α → β) : IsTrans α (fun a b => key a ≤ key b) := ⟨fun _ _ _ => le_trans⟩

theorem pairwise_sortBy (key : α → β) (l : List α) :
    (sortBy key l).Pairwise fun a b => key a ≤ key b :=
  List.pairwise_insertionSort _ l

theorem nodup_sortBy (h : l.Nodup) : (sortBy key l).Nodup :=
  (sortBy_perm key l).nodup_iff.2 h

/-- Sorting leaves alone exactly the lists that are sorted. -/
theorem sortBy_eq_self_iff : sortBy key l = l ↔ l.Pairwise fun a b => key a ≤ key b := by
  constructor
  · intro h
    rw [← h]
    exact pairwise_sortBy key l
  · exact fun h => h.insertionSort_eq

/-- Sorting commutes with a map that keeps the key. -/
theorem map_sortBy {key' : γ → β} (f : α → γ) (hkey : ∀ a ∈ l, key' (f a) = key a) :
    (sortBy key l).map f = sortBy key' (l.map f) :=
  List.map_insertionSort _ _ f l fun a ha b hb => by rw [hkey a ha, hkey b hb]

/-- Two permuted lists that are sorted by a key injective on them are equal. -/
theorem eq_of_sorted_of_perm (hinj : ∀ a ∈ l₁, ∀ b ∈ l₁, key a = key b → a = b)
    (h₁ : l₁.Pairwise fun a b => key a ≤ key b) (h₂ : l₂.Pairwise fun a b => key a ≤ key b)
    (hperm : l₁.Perm l₂) : l₁ = l₂ :=
  hperm.eq_of_pairwise
    (fun a b ha hb hab hba => hinj a ha b (hperm.mem_iff.2 hb) (le_antisymm hab hba)) h₁ h₂

/-- **Two sorted lists with the same elements, none of them twice, are equal.** -/
theorem eq_of_sorted_of_mem_iff (hinj : ∀ a ∈ l₁, ∀ b ∈ l₁, key a = key b → a = b)
    (h₁ : l₁.Pairwise fun a b => key a ≤ key b) (h₂ : l₂.Pairwise fun a b => key a ≤ key b)
    (hn₁ : l₁.Nodup) (hn₂ : l₂.Nodup) (hmem : ∀ a, a ∈ l₁ ↔ a ∈ l₂) : l₁ = l₂ :=
  eq_of_sorted_of_perm hinj h₁ h₂ ((List.perm_ext_iff_of_nodup hn₁ hn₂).2 hmem)

/-- Two permuted lists with the same images are equal, where no image is met twice. -/
theorem eq_of_perm_of_map_eq {f : α → γ} (hnodup : (l₂.map f).Nodup) (hperm : l₁.Perm l₂)
    (hmap : l₁.map f = l₂.map f) : l₁ = l₂ := by
  have hlen : l₁.length = l₂.length := hperm.length_eq
  refine List.ext_getElem hlen fun i h₁ h₂ => ?_
  refine List.inj_on_of_nodup_map hnodup (hperm.mem_iff.1 (List.getElem_mem h₁))
    (List.getElem_mem h₂) ?_
  have himage : (l₁.map f)[i]? = (l₂.map f)[i]? := by rw [hmap]
  simpa [h₁, h₂] using himage

/-! ### Filters -/

/-- A filter leaves an element that passes where it was, or earlier. -/
theorem mem_take_filter (p : α → Bool) {a : α} (hp : p a = true) :
    ∀ {l : List α} {k : ℕ}, a ∈ l.take k → a ∈ (l.filter p).take k := by
  intro l
  induction l with
  | nil => simp
  | cons b l ih =>
      intro k h
      cases k with
      | zero => simp at h
      | succ k =>
          rcases List.mem_cons.1 h with rfl | h
          · simp [hp]
          · by_cases hb : p b = true
            · simp [hb, ih h]
            · rw [List.filter_cons_of_neg hb]
              exact List.take_subset_take_left _ (by omega) (ih h)

theorem filter_orderedInsert (p : α → Bool) (a : α) :
    ∀ {l : List α}, (l.Pairwise fun a b => key a ≤ key b) →
      (l.orderedInsert (fun a b => key a ≤ key b) a).filter p =
        if p a then (l.filter p).orderedInsert (fun a b => key a ≤ key b) a else l.filter p := by
  intro l
  induction l with
  | nil => cases hp : p a <;> simp [hp]
  | cons b l ih =>
      intro hsorted
      obtain ⟨hb, hl⟩ := List.pairwise_cons.1 hsorted
      rw [List.orderedInsert_cons]
      by_cases hab : key a ≤ key b
      · rw [if_pos hab]
        -- everything that follows is at or above `a`
        have hfirst : (l.filter p).orderedInsert (fun a b => key a ≤ key b) a = a :: l.filter p := by
          cases hfilter : l.filter p with
          | nil => rfl
          | cons c cs =>
              have hc : c ∈ l := List.mem_of_mem_filter (hfilter ▸ List.mem_cons_self)
              rw [List.orderedInsert_cons, if_pos (hab.trans (hb c hc))]
        cases hpa : p a <;> cases hpb : p b <;> simp [hpa, hpb, hab, hfirst]
      · rw [if_neg hab, List.filter_cons, ih hl]
        cases p a <;> cases hpb : p b <;> simp [hpb, hab]

/-- **Sorting commutes with a filter.** -/
theorem sortBy_filter (p : α → Bool) (l : List α) :
    sortBy key (l.filter p) = (sortBy key l).filter p := by
  induction l with
  | nil => rfl
  | cons a l ih =>
      have hinsert : sortBy key (a :: l) =
          (sortBy key l).orderedInsert (fun a b => key a ≤ key b) a := rfl
      rw [hinsert, filter_orderedInsert p a (pairwise_sortBy key l), ← ih]
      cases hpa : p a
      · simp [hpa]
      · simp only [List.filter_cons, hpa, if_true]
        rfl

/-- What is among the first of a list is among the first of what a filter leaves. -/
theorem mem_take_sortBy_filter (p : α → Bool) {a : α} (hp : p a = true) {k : ℕ}
    (h : a ∈ (sortBy key l).take k) : a ∈ (sortBy key (l.filter p)).take k := by
  rw [sortBy_filter]
  exact mem_take_filter p hp h

/-- **The head of a sorted filter is the least element that passes**, when the key tells the elements
of the list apart. -/
theorem head?_sortBy_filter (p : α → Bool) {l : List α}
    (hinj : ∀ a ∈ l, ∀ b ∈ l, key a = key b → a = b) {a : α} :
    (sortBy key (l.filter p)).head? = some a ↔
      a ∈ l ∧ p a = true ∧ ∀ b ∈ l, p b = true → key a ≤ key b := by
  have hmem : ∀ b, b ∈ sortBy key (l.filter p) ↔ b ∈ l ∧ p b = true := fun b => by
    rw [mem_sortBy, List.mem_filter]
  have hsorted := pairwise_sortBy key (l.filter p)
  cases hlist : sortBy key (l.filter p) with
  | nil =>
      rw [hlist] at hmem
      simp only [List.head?_nil, reduceCtorEq, false_iff]
      rintro ⟨ha, hp, -⟩
      exact nomatch (hmem a).2 ⟨ha, hp⟩
  | cons first rest =>
      rw [hlist] at hmem hsorted
      have hfirst := (hmem first).1 List.mem_cons_self
      have hleast : ∀ b ∈ l, p b = true → key first ≤ key b := by
        intro b hb hpb
        rcases List.mem_cons.1 ((hmem b).2 ⟨hb, hpb⟩) with rfl | hin
        · exact le_rfl
        · exact (List.pairwise_cons.1 hsorted).1 b hin
      rw [List.head?_cons, Option.some.injEq]
      constructor
      · rintro rfl
        exact ⟨hfirst.1, hfirst.2, hleast⟩
      · rintro ⟨ha, hp, hle⟩
        exact hinj _ hfirst.1 _ ha (le_antisymm (hleast a ha hp) (hle first hfirst.1 hfirst.2))

/-! ### Taking away the first of the least -/

/-- A maximal element that comes first, and what stands before and after it. -/
theorem argmax_split {f : α → β} {m : α} : ∀ {l : List α}, m ∈ l.argmax f →
    ∃ before after, l = before ++ m :: after ∧ (∀ a ∈ before, f a < f m) ∧
      ∀ a ∈ after, f a ≤ f m := by
  intro l
  induction l using List.reverseRecOn with
  | nil =>
      intro h
      cases h
  | append_singleton l a ih =>
      intro h
      rw [List.argmax_concat] at h
      rcases hmax : l.argmax f with _ | c
      · rw [hmax] at h
        obtain rfl := Option.some.inj h
        rw [List.argmax_eq_none.1 hmax]
        exact ⟨[], [], rfl, by simp, by simp⟩
      · rw [hmax] at h
        simp only at h
        split_ifs at h with hlt
        · obtain rfl := Option.some.inj h
          refine ⟨l, [], rfl, ?_, by simp⟩
          intro b hb
          exact (List.le_of_mem_argmax hb hmax).trans_lt hlt
        · obtain rfl := Option.some.inj h
          obtain ⟨before, after, rfl, hbefore, hafter⟩ := ih hmax
          refine ⟨before, after ++ [a], by simp, hbefore, ?_⟩
          intro b hb
          rcases List.mem_append.1 hb with hb | hb
          · exact hafter b hb
          · rw [List.mem_singleton.1 hb]
            exact not_lt.1 hlt

/-- **Taking away the first of the least elements takes away the head of the sorted list.** -/
theorem sortBy_erase_first {m : α} {after : List α} : ∀ {before : List α},
    (∀ a ∈ before, key m < key a) → (∀ a ∈ after, key m ≤ key a) →
      sortBy key (before ++ m :: after) = m :: sortBy key (before ++ after) := by
  intro before
  induction before with
  | nil =>
      intro _ hafter
      change (sortBy key after).orderedInsert (fun a b => key a ≤ key b) m = m :: sortBy key after
      cases hsorted : sortBy key after with
      | nil => rfl
      | cons b rest =>
          have hb : b ∈ after := mem_sortBy.1 (hsorted ▸ List.mem_cons_self)
          rw [List.orderedInsert_cons, if_pos (hafter b hb)]
  | cons a before ih =>
      intro hbefore hafter
      obtain ⟨ha, hrest⟩ := List.forall_mem_cons.1 hbefore
      change (sortBy key (before ++ m :: after)).orderedInsert (fun a b => key a ≤ key b) a = _
      rw [ih hrest hafter, List.orderedInsert_cons, if_neg (not_le.2 ha)]
      rfl

end SortBy
