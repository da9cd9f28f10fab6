/-
**Token buckets.**

A bucket holds tokens up to a capacity and refills at a steady rate.  A request is admitted when there is
a whole token, and spends it.  However the requests are spread, those admitted in an interval are no more
than the capacity and what flows in over the interval.  This module names nothing of a particular
program; times and tokens are elements of an ordered commutative ring.

Main definitions:

* `Bucket`, `level` — a bucket, and what it holds at a time;
* `spend` — one request;
* `serve` — the requests of one client, one after the other.

Main results:

* `level_eq_capacity` — a bucket that was left alone long enough is full;
* `admitted_le` — **the requests admitted in an interval are bounded by the capacity and the inflow**.
-/

import Mathlib.Algebra.Order.Ring.Defs
import Mathlib.Tactic.Linarith
import Mathlib.Tactic.Ring

set_option relaxedAutoImplicit false
set_option autoImplicit false

namespace TokenBucket

variable {𝕜 : Type*} [CommRing 𝕜] [LinearOrder 𝕜]

/-- What a bucket held when it was last used. -/
structure Bucket (𝕜 : Type*) where
  tokens : 𝕜
  last : 𝕜
  deriving DecidableEq, Repr

/-- What a bucket holds at a time: refilled in proportion to the time elapsed, up to the capacity. -/
def level (capacity rate : 𝕜) (bucket : Bucket 𝕜) (now : 𝕜) : 𝕜 :=
  min capacity (bucket.tokens + (now - bucket.last) * rate)

/-- One request: a token is spent when there is one. -/
def spend (capacity rate : 𝕜) (bucket : Bucket 𝕜) (now : 𝕜) : Bucket 𝕜 × Bool :=
  let tokens := level capacity rate bucket now
  if tokens < 1 then (⟨tokens, now⟩, false) else (⟨tokens - 1, now⟩, true)

/-- A client that has no bucket starts with a full one. -/
def bucketAt (capacity : 𝕜) (held : Option (Bucket 𝕜)) (now : 𝕜) : Bucket 𝕜 :=
  held.getD ⟨capacity, now⟩

omit [CommRing 𝕜] [LinearOrder 𝕜] in
@[simp] theorem bucketAt_some (capacity : 𝕜) (bucket : Bucket 𝕜) (now : 𝕜) :
    bucketAt capacity (some bucket) now = bucket := rfl

/-- The requests of one client, with the decision on each. -/
def serve (capacity rate : 𝕜) : Option (Bucket 𝕜) → List 𝕜 → List (𝕜 × Bool)
  | _, [] => []
  | held, now :: times =>
      let result := spend capacity rate (bucketAt capacity held now) now
      (now, result.2) :: serve capacity rate (some result.1) times

/-- How many requests were admitted in an interval. -/
def admitted (a b : 𝕜) (decided : List (𝕜 × Bool)) : ℕ :=
  decided.countP fun d => decide (a ≤ d.1) && decide (d.1 ≤ b) && d.2

section Level

variable {capacity rate : 𝕜} {bucket : Bucket 𝕜} {now : 𝕜}

theorem level_le_capacity : level capacity rate bucket now ≤ capacity := min_le_left _ _

/-- **A bucket that was left alone long enough is full.** -/
theorem level_eq_capacity (h : capacity ≤ bucket.tokens + (now - bucket.last) * rate) :
    level capacity rate bucket now = capacity := min_eq_left h

theorem level_self (h : bucket.tokens ≤ capacity) :
    level capacity rate bucket bucket.last = bucket.tokens := by
  rw [level, sub_self, zero_mul, add_zero, min_eq_right h]

theorem level_self_mk {tokens : 𝕜} (h : tokens ≤ capacity) :
    level capacity rate ⟨tokens, now⟩ now = tokens := level_self h

theorem spend_of_lt (h : level capacity rate bucket now < 1) :
    spend capacity rate bucket now = (⟨level capacity rate bucket now, now⟩, false) := if_pos h

theorem spend_of_le (h : 1 ≤ level capacity rate bucket now) :
    spend capacity rate bucket now = (⟨level capacity rate bucket now - 1, now⟩, true) :=
  if_neg (not_lt.2 h)

theorem last_spend : (spend capacity rate bucket now).1.last = now := by
  rcases lt_or_ge (level capacity rate bucket now) 1 with h | h
  · rw [spend_of_lt h]
  · rw [spend_of_le h]

variable [IsStrictOrderedRing 𝕜]

theorem level_nonneg (hcapacity : 0 ≤ capacity) (hrate : 0 ≤ rate) (htokens : 0 ≤ bucket.tokens)
    (hlast : bucket.last ≤ now) : 0 ≤ level capacity rate bucket now :=
  le_min hcapacity (add_nonneg htokens (mul_nonneg (sub_nonneg.2 hlast) hrate))

/-- In some time no more than the inflow comes in. -/
theorem level_le_add {later : 𝕜} (hrate : 0 ≤ rate) (h : now ≤ later) :
    level capacity rate bucket later ≤ level capacity rate bucket now + (later - now) * rate := by
  have hinflow : 0 ≤ (later - now) * rate := mul_nonneg (sub_nonneg.2 h) hrate
  unfold level
  rcases min_cases capacity (bucket.tokens + (now - bucket.last) * rate) with ⟨heq, -⟩ | ⟨heq, -⟩
  · rw [heq]
    exact (min_le_left _ _).trans (le_add_of_nonneg_right hinflow)
  · rw [heq]
    refine (min_le_right _ _).trans (le_of_eq ?_)
    ring

/-- A request leaves no debt. -/
theorem tokens_spend_nonneg (hlevel : 0 ≤ level capacity rate bucket now) :
    0 ≤ (spend capacity rate bucket now).1.tokens := by
  rcases lt_or_ge (level capacity rate bucket now) 1 with h | h
  · rw [spend_of_lt h]
    exact hlevel
  · rw [spend_of_le h]
    exact sub_nonneg.2 h

/-- What a request leaves at its own time, and whether it was admitted, make up what there was. -/
theorem level_spend_add (capacity rate : 𝕜) (bucket : Bucket 𝕜) (now : 𝕜) :
    level capacity rate (spend capacity rate bucket now).1 now +
      (if (spend capacity rate bucket now).2 then 1 else 0) = level capacity rate bucket now := by
  rcases lt_or_ge (level capacity rate bucket now) 1 with h | h
  · rw [spend_of_lt h]
    simp only [Bool.false_eq_true, if_false, add_zero]
    exact level_self_mk level_le_capacity
  · rw [spend_of_le h]
    have hself : level capacity rate ⟨level capacity rate bucket now - 1, now⟩ now =
        level capacity rate bucket now - 1 :=
      level_self_mk ((sub_le_self _ zero_le_one).trans level_le_capacity)
    rw [hself]
    simp

end Level

/-! ### The requests of one client -/

section Count

variable {𝕜 : Type*} [LinearOrder 𝕜]

theorem admitted_cons (a b : 𝕜) (d : 𝕜 × Bool) (decided : List (𝕜 × Bool)) :
    admitted a b (d :: decided) =
      admitted a b decided + if a ≤ d.1 ∧ d.1 ≤ b ∧ d.2 = true then 1 else 0 := by
  rw [admitted, List.countP_cons]
  congr 1
  simp [and_assoc]

/-- What comes after an interval counts for nothing. -/
theorem admitted_eq_zero {a b : 𝕜} {decided : List (𝕜 × Bool)} (h : ∀ d ∈ decided, b < d.1) :
    admitted a b decided = 0 := by
  refine List.countP_eq_zero.2 fun d hd => ?_
  simp [not_le.2 (h d hd)]

/-- An interval may start where the requests start. -/
theorem admitted_congr_left {a b : 𝕜} (a' : 𝕜) {decided : List (𝕜 × Bool)} (h : ∀ d ∈ decided, a ≤ d.1)
    (h' : ∀ d ∈ decided, a' ≤ d.1) : admitted a b decided = admitted a' b decided := by
  refine List.countP_congr fun d hd => ?_
  simp [h d hd, h' d hd]

end Count

section Serve

variable {capacity rate : 𝕜}

theorem times_serve (capacity rate : 𝕜) (held : Option (Bucket 𝕜)) (times : List 𝕜) :
    (serve capacity rate held times).map Prod.fst = times := by
  induction times generalizing held with
  | nil => rfl
  | cons now times ih => rw [serve, List.map_cons, ih]

theorem time_mem_of_mem_serve {held : Option (Bucket 𝕜)} {times : List 𝕜} {d : 𝕜 × Bool}
    (hd : d ∈ serve capacity rate held times) : d.1 ∈ times := by
  rw [← times_serve capacity rate held times]
  exact List.mem_map_of_mem hd

/-- A bucket with no debt, last used before now. -/
def Sound (held : Option (Bucket 𝕜)) (now : 𝕜) : Prop :=
  ∀ bucket, held = some bucket → 0 ≤ bucket.tokens ∧ bucket.last ≤ now

theorem Sound.mono {held : Option (Bucket 𝕜)} {now later : 𝕜} (h : Sound held now)
    (hlater : now ≤ later) : Sound held later := by
  intro bucket heq
  obtain ⟨htokens, hlast⟩ := h bucket heq
  exact ⟨htokens, hlast.trans hlater⟩

variable [IsStrictOrderedRing 𝕜]

theorem Sound.level_nonneg {held : Option (Bucket 𝕜)} {now : 𝕜} (hcapacity : 0 ≤ capacity)
    (hrate : 0 ≤ rate) (h : Sound held now) :
    0 ≤ level capacity rate (bucketAt capacity held now) now := by
  cases held with
  | none => exact TokenBucket.level_nonneg hcapacity hrate hcapacity le_rfl
  | some bucket =>
      obtain ⟨htokens, hlast⟩ := h bucket rfl
      exact TokenBucket.level_nonneg hcapacity hrate htokens hlast

/-- What a request leaves is sound. -/
theorem Sound.spend {held : Option (Bucket 𝕜)} {now later : 𝕜} (hcapacity : 0 ≤ capacity)
    (hrate : 0 ≤ rate) (h : Sound held now) (hlater : now ≤ later) :
    Sound (some (TokenBucket.spend capacity rate (bucketAt capacity held now) now).1) later := by
  rintro bucket heq
  obtain rfl := Option.some.inj heq
  rw [last_spend]
  exact ⟨tokens_spend_nonneg (h.level_nonneg hcapacity hrate), hlater⟩

theorem level_bucketAt_le_add (capacity : 𝕜) (held : Option (Bucket 𝕜)) {now later : 𝕜} (hrate : 0 ≤ rate)
    (h : now ≤ later) :
    level capacity rate (bucketAt capacity held later) later ≤
      level capacity rate (bucketAt capacity held now) now + (later - now) * rate := by
  cases held with
  | none =>
      have hfull : ∀ t, level capacity rate (bucketAt capacity none t) t = capacity := by
        intro t
        exact level_self_mk le_rfl
      rw [hfull, hfull]
      exact le_add_of_nonneg_right (mul_nonneg (sub_nonneg.2 h) hrate)
  | some bucket => exact level_le_add hrate h

/-- **The requests admitted by some time are bounded by what there is now and the inflow.** -/
theorem admitted_le_level (hcapacity : 0 ≤ capacity) (hrate : 0 ≤ rate) {b : 𝕜} (times : List 𝕜) :
    ∀ {held : Option (Bucket 𝕜)} {now : 𝕜}, times.Pairwise (· ≤ ·) → (∀ t ∈ times, now ≤ t) →
      now ≤ b → Sound held now →
        (admitted now b (serve capacity rate held times) : 𝕜) ≤
          level capacity rate (bucketAt capacity held now) now + (b - now) * rate := by
  induction times with
  | nil =>
      intro held now _ _ hb hsound
      simpa [serve, admitted] using
        add_nonneg (hsound.level_nonneg hcapacity hrate) (mul_nonneg (sub_nonneg.2 hb) hrate)
  | cons t times ih =>
      intro held now hsorted hlater hb hsound
      obtain ⟨ht, hrest⟩ := List.pairwise_cons.1 hsorted
      have hnow : now ≤ t := hlater t List.mem_cons_self
      rcases lt_or_ge b t with hbt | hbt
      · rw [admitted_eq_zero, Nat.cast_zero]
        · exact add_nonneg (hsound.level_nonneg hcapacity hrate)
            (mul_nonneg (sub_nonneg.2 hb) hrate)
        · intro d hd
          rcases List.mem_cons.1 (time_mem_of_mem_serve hd) with heq | hmem
          · rwa [heq]
          · exact hbt.trans_le (ht _ hmem)
      · -- the head spends from what there is at its time, and the rest from what it leaves
        have hhead := hsound.mono hnow
        have hafter := hhead.spend hcapacity hrate (le_refl t)
        have htail := ih hrest ht hbt hafter
        rw [bucketAt_some] at htail
        have hsame : admitted now b (serve capacity rate (some (TokenBucket.spend capacity rate
            (bucketAt capacity held t) t).1) times) =
            admitted t b (serve capacity rate (some (TokenBucket.spend capacity rate
              (bucketAt capacity held t) t).1) times) :=
          admitted_congr_left t (fun d hd => hnow.trans (ht _ (time_mem_of_mem_serve hd)))
            fun d hd => ht _ (time_mem_of_mem_serve hd)
        have hspent := level_spend_add capacity rate (bucketAt capacity held t) t
        have hinflow := level_bucketAt_le_add capacity held hrate hnow
        rw [serve, admitted_cons, hsame]
        simp only [hnow, hbt, true_and]
        push_cast
        calc _ ≤ level capacity rate (TokenBucket.spend capacity rate
                (bucketAt capacity held t) t).1 t + (b - t) * rate +
              (if (TokenBucket.spend capacity rate (bucketAt capacity held t) t).2 = true
                then 1 else 0) := by gcongr
          _ = level capacity rate (bucketAt capacity held t) t + (b - t) * rate := by
              rw [← hspent]
              ring
          _ ≤ level capacity rate (bucketAt capacity held now) now + (t - now) * rate +
              (b - t) * rate := by gcongr
          _ = _ := by ring

/-- **The requests admitted in an interval are bounded by the capacity and the inflow.** -/
theorem admitted_le (hcapacity : 0 ≤ capacity) (hrate : 0 ≤ rate) {a b : 𝕜} (hab : a ≤ b)
    (times : List 𝕜) : ∀ (held : Option (Bucket 𝕜)), times.Pairwise (· ≤ ·) →
      (∀ t ∈ times, Sound held t) →
        (admitted a b (serve capacity rate held times) : 𝕜) ≤ capacity + (b - a) * rate := by
  induction times with
  | nil =>
      intro held _ _
      simpa [serve, admitted] using
        add_nonneg hcapacity (mul_nonneg (sub_nonneg.2 hab) hrate)
  | cons t times ih =>
      intro held hsorted hsound
      obtain ⟨ht, hrest⟩ := List.pairwise_cons.1 hsorted
      have hhead := hsound t List.mem_cons_self
      rcases lt_or_ge t a with hta | hta
      · -- a request before the interval counts for nothing
        rw [serve, admitted_cons, if_neg fun h => absurd h.1 (not_le.2 hta), add_zero]
        exact ih _ hrest fun t' ht' => hhead.spend hcapacity hrate (ht t' ht')
      · rcases lt_or_ge b t with hbt | hbt
        · rw [admitted_eq_zero, Nat.cast_zero]
          · exact add_nonneg hcapacity (mul_nonneg (sub_nonneg.2 hab) hrate)
          · intro d hd
            rcases List.mem_cons.1 (time_mem_of_mem_serve hd) with heq | hmem
            · rwa [heq]
            · exact hbt.trans_le (ht _ hmem)
        · have hfrom : ∀ t' ∈ t :: times, t ≤ t' := by
            intro t' ht'
            rcases List.mem_cons.1 ht' with rfl | hmem
            · exact le_rfl
            · exact ht t' hmem
          have hall := admitted_le_level hcapacity hrate (t :: times) hsorted hfrom hbt hhead
          rw [admitted_congr_left t
            (fun d hd => hta.trans (hfrom _ (time_mem_of_mem_serve hd)))
            fun d hd => hfrom _ (time_mem_of_mem_serve hd)]
          refine hall.trans (add_le_add level_le_capacity ?_)
          exact mul_le_mul_of_nonneg_right (sub_le_sub_left hta b) hrate

end Serve

end TokenBucket
