/-
**The bounded rate limiter.**

Every client of the endpoints that drive a model spends from a token bucket, kept in a table that must not
grow without limit.  When a new client finds the table full, the buckets that have been idle for a minute
go first: by then they have refilled, and a full bucket is the same as none.  Only then is the least
recently seen bucket forgotten, and that one may have held a debt.

Main definitions:

* `makeRoom`, `allow` — the table with its eviction;
* `allowUnbounded` — the limiter that never forgets a bucket;
* `decisions` — the decisions on a list of calls;
* `WindowsFit` — no minute sees more clients than the table holds;
* `Agrees` — the two tables hold the same, but for buckets that have refilled.

Main results:

* `length_allow_le` — **the table stays within its bound**;
* `agrees_step` — where the windows fit, one call keeps the two tables in agreement;
* `rateLimiter_agrees` — **the bounded limiter decides as the unbounded one, and admits no more than the
  rate allows**.
-/

import Mathlib.Algebra.Order.Ring.Rat
import Mathlib.Data.List.Dedup
import Mathlib.Tactic.NormNum
import ParticlesEngine.MergedDict
import ParticlesEngine.SortBy
import ParticlesEngine.TokenBucket

set_option relaxedAutoImplicit false
set_option autoImplicit false

open SortBy MergedDict TokenBucket

namespace ParticlesEngine

/-- The bucket of each client, in order of insertion. -/
abbrev Buckets := List (String × Bucket ℚ)

/-- One call: the client's bucket key, and the time. -/
structure RateCall where
  host : String
  now : ℚ
  deriving DecidableEq, Repr

/-- The most clients tracked at once. -/
def MAX_BUCKETS : ℕ := 10000

section Limiter

variable (maxBuckets ratePerMinute : ℕ)

/-- The buckets that have been used within the last minute. -/
def recentBuckets (now : ℚ) (buckets : Buckets) : Buckets :=
  buckets.filter fun item => ¬ 60 ≤ now - item.2.last

/-- `_make_room`: idle buckets go first, then the least recently seen. -/
def makeRoom (now : ℚ) (buckets : Buckets) : Buckets :=
  let kept := recentBuckets now buckets
  if kept.length < maxBuckets then kept
  else
    let dropped := (sortBy (fun item : String × Bucket ℚ => item.2.last) kept).take
      (kept.length - maxBuckets + 1)
    kept.filter fun item => item.1 ∉ dropped.map Prod.fst

/-- Refill the client's bucket, then spend one token. -/
def allowUnbounded (buckets : Buckets) (call : RateCall) : Buckets × Bool :=
  let result := spend (ratePerMinute : ℚ) (ratePerMinute / 60)
    (bucketAt (ratePerMinute : ℚ) (get buckets call.host) call.now) call.now
  (upsert (fun _ => result.1) call.host buckets, result.2)

/-- The table that a call finds. -/
def roomFor (buckets : Buckets) (call : RateCall) : Buckets :=
  if call.host ∉ buckets.map Prod.fst ∧ maxBuckets ≤ buckets.length then
    makeRoom maxBuckets call.now buckets
  else buckets

/-- **`_allow`.** -/
def allow (buckets : Buckets) (call : RateCall) : Buckets × Bool :=
  allowUnbounded ratePerMinute (roomFor maxBuckets buckets call) call

end Limiter

/-- The table after some calls. -/
def tableAfter (step : Buckets → RateCall → Buckets × Bool) (buckets : Buckets)
    (calls : List RateCall) : Buckets :=
  calls.foldl (fun buckets call => (step buckets call).1) buckets

/-- The decision on each of some calls. -/
def decisions (step : Buckets → RateCall → Buckets × Bool) : Buckets → List RateCall →
    List (RateCall × Bool)
  | _, [] => []
  | buckets, call :: calls =>
      (call, (step buckets call).2) :: decisions step (step buckets call).1 calls

/-! ### The bound -/

section Bound

variable {maxBuckets ratePerMinute : ℕ} {buckets : Buckets} {call : RateCall}

theorem makeRoom_sublist (now : ℚ) : (makeRoom maxBuckets now buckets).Sublist buckets := by
  unfold makeRoom
  dsimp only
  split_ifs
  · exact List.filter_sublist
  · exact List.filter_sublist.trans List.filter_sublist

theorem nodup_roomFor (h : (buckets.map Prod.fst).Nodup) :
    ((roomFor maxBuckets buckets call).map Prod.fst).Nodup := by
  unfold roomFor
  split_ifs
  · exact h.sublist ((makeRoom_sublist _).map _)
  · exact h

theorem nodup_allow (h : (buckets.map Prod.fst).Nodup) :
    ((allow maxBuckets ratePerMinute buckets call).1.map Prod.fst).Nodup :=
  nodup_keys_upsert _ _ (nodup_roomFor h)

/-- Room is made for one. -/
theorem length_makeRoom_lt (hmax : 0 < maxBuckets) (h : (buckets.map Prod.fst).Nodup) (now : ℚ) :
    (makeRoom maxBuckets now buckets).length < maxBuckets := by
  unfold makeRoom
  dsimp only
  split_ifs with hfits
  · exact hfits
  · set kept := recentBuckets now buckets with hkept
    have hnodup : (kept.map Prod.fst).Nodup := h.sublist (List.filter_sublist.map _)
    set dropped := (sortBy (fun item : String × Bucket ℚ => item.2.last) kept).take
      (kept.length - maxBuckets + 1) with hdropped
    have hlength : dropped.length = kept.length - maxBuckets + 1 := by
      rw [hdropped, List.length_take, (sortBy_perm _ kept).length_eq]
      omega
    have hdroppedNodup : dropped.Nodup := by
      rw [hdropped]
      exact (nodup_sortBy (List.Nodup.of_map _ hnodup)).sublist (List.take_sublist _ _)
    have hsub : dropped ⊆ kept := by
      intro item hitem
      exact mem_sortBy.1 (List.mem_of_mem_take hitem)
    -- what is left and what was dropped are apart, and both among what was kept
    have hleft : (kept.filter fun item => item.1 ∉ dropped.map Prod.fst) =
        kept.filter fun item => item ∉ dropped := by
      refine List.filter_congr fun item hitem => ?_
      rw [decide_eq_decide, not_iff_not, List.mem_map]
      constructor
      · rintro ⟨other, hother, heq⟩
        rwa [← List.inj_on_of_nodup_map hnodup (hsub hother) hitem heq]
      · exact fun hmem => ⟨item, hmem, rfl⟩
    rw [hleft]
    have hsplit := List.length_eq_length_filter_add (l := kept) (f := fun item => decide (item ∉ dropped))
    have hdroppedIn : dropped.length ≤ (kept.filter fun item => !decide (item ∉ dropped)).length := by
      refine (List.subperm_of_subset hdroppedNodup fun item hitem => ?_).length_le
      rw [List.mem_filter]
      exact ⟨hsub hitem, by simpa using hitem⟩
    omega

/-- **The table stays within its bound.** -/
theorem length_allow_le (hmax : 0 < maxBuckets) (h : (buckets.map Prod.fst).Nodup)
    (hlength : buckets.length ≤ maxBuckets) :
    (allow maxBuckets ratePerMinute buckets call).1.length ≤ maxBuckets := by
  have hkeys := keys_upsert (fun _ => (spend (ratePerMinute : ℚ) (ratePerMinute / 60)
    (bucketAt (ratePerMinute : ℚ) (get (roomFor maxBuckets buckets call) call.host) call.now)
    call.now).1) call.host (roomFor maxBuckets buckets call)
  have hlen := congrArg List.length hkeys
  rw [List.length_map] at hlen
  change (upsert _ _ _).length ≤ _
  rw [hlen]
  split_ifs with hin
  · rw [List.length_map]
    unfold roomFor
    split_ifs
    · exact (length_makeRoom_lt hmax h _).le
    · exact hlength
  · rw [List.length_append, List.length_map, List.length_singleton]
    unfold roomFor at hin ⊢
    split_ifs at hin ⊢ with hfull
    · exact length_makeRoom_lt hmax h _
    · have hroom := not_le.1 fun hle => hfull ⟨hin, hle⟩
      omega

/-- The bound holds after any calls, in whatever order their times are. -/
theorem length_tableAfter_le (hmax : 0 < maxBuckets) (calls : List RateCall) :
    ∀ {buckets : Buckets}, (buckets.map Prod.fst).Nodup → buckets.length ≤ maxBuckets →
      (tableAfter (allow maxBuckets ratePerMinute) buckets calls).length ≤ maxBuckets := by
  induction calls with
  | nil =>
      intro buckets _ hlength
      exact hlength
  | cons call calls ih =>
      intro buckets hnodup hlength
      exact ih (nodup_allow hnodup) (length_allow_le hmax hnodup hlength)

end Bound

/-! ### The limiter that forgets nothing -/

/-- No minute sees more clients than the table holds. -/
def WindowsFit (maxBuckets : ℕ) (calls : List RateCall) : Prop :=
  ∀ start : ℚ, ((calls.filter fun call => start < call.now ∧ call.now ≤ start + 60).map
    RateCall.host).dedup.length ≤ maxBuckets

/-- No minute sees more clients than there are calls. -/
theorem windowsFit_of_length {maxBuckets : ℕ} {calls : List RateCall}
    (h : calls.length ≤ maxBuckets) : WindowsFit maxBuckets calls := by
  intro start
  refine (List.dedup_sublist _).length_le.trans ?_
  rw [List.length_map]
  exact (List.length_filter_le _ _).trans h

/-- The two tables hold the same, but for buckets that have been idle for a minute. -/
def Agrees (now : ℚ) (bounded unbounded : Buckets) : Prop :=
  ∀ key, get bounded key = get unbounded key ∨
    get bounded key = none ∧ ∃ bucket, get unbounded key = some bucket ∧ 60 ≤ now - bucket.last

/-- **What ties the two tables together after some calls.** -/
structure Tracks (seen : List RateCall) (now : ℚ) (bounded unbounded : Buckets) : Prop where
  agrees : Agrees now bounded unbounded
  nodup : (bounded.map Prod.fst).Nodup
  sound : ∀ key, Sound (get unbounded key) now
  used : ∀ item ∈ bounded, ∃ call ∈ seen, call.host = item.1 ∧ call.now = item.2.last

theorem Agrees.mono {now later : ℚ} {bounded unbounded : Buckets} (h : Agrees now bounded unbounded)
    (hlater : now ≤ later) : Agrees later bounded unbounded := by
  intro key
  rcases h key with heq | ⟨hnone, bucket, hbucket, hidle⟩
  · exact Or.inl heq
  · exact Or.inr ⟨hnone, bucket, hbucket, by linarith⟩

theorem Tracks.mono {seen : List RateCall} {now later : ℚ} {bounded unbounded : Buckets}
    (h : Tracks seen now bounded unbounded) (hlater : now ≤ later) :
    Tracks seen later bounded unbounded :=
  ⟨h.agrees.mono hlater, h.nodup, fun key => (h.sound key).mono hlater, h.used⟩

section Step

variable {maxBuckets ratePerMinute : ℕ} {seen rest : List RateCall} {call : RateCall}
  {bounded unbounded : Buckets}

/-- The buckets of the last minute, and a client that has none, are clients of one window. -/
theorem length_recentBuckets_lt (hfits : WindowsFit maxBuckets (seen ++ call :: rest))
    (htracks : Tracks seen call.now bounded unbounded)
    (hseen : ∀ earlier ∈ seen, earlier.now ≤ call.now) (hnew : call.host ∉ bounded.map Prod.fst) :
    (recentBuckets call.now bounded).length < maxBuckets := by
  set kept := recentBuckets call.now bounded with hkept
  have hsub : kept.Sublist bounded := List.filter_sublist
  have hnodup : (call.host :: kept.map Prod.fst).Nodup := by
    refine List.nodup_cons.2 ⟨fun hmem => hnew ?_, htracks.nodup.sublist (hsub.map _)⟩
    exact (hsub.map Prod.fst).subset hmem
  set window := ((seen ++ call :: rest).filter fun other =>
    call.now - 60 < other.now ∧ other.now ≤ call.now - 60 + 60).map RateCall.host with hwindow
  have hin : ∀ other ∈ seen ++ call :: rest, call.now - 60 < other.now → other.now ≤ call.now →
      other.host ∈ window.dedup := by
    intro other hmem hafter hbefore
    refine List.mem_dedup.2 (List.mem_map.2 ⟨other, List.mem_filter.2 ⟨hmem, ?_⟩, rfl⟩)
    exact decide_eq_true ⟨hafter, by linarith⟩
  have hsubset : call.host :: kept.map Prod.fst ⊆ window.dedup := by
    intro host hhost
    rcases List.mem_cons.1 hhost with rfl | hhost
    · exact hin call (List.mem_append_right _ List.mem_cons_self) (by linarith) le_rfl
    · obtain ⟨item, hitem, rfl⟩ := List.mem_map.1 hhost
      obtain ⟨hmem, hrecent⟩ := List.mem_filter.1 hitem
      have hlast : ¬ 60 ≤ call.now - item.2.last := of_decide_eq_true hrecent
      obtain ⟨other, hother, hhost', hnow⟩ := htracks.used item hmem
      rw [← hhost']
      exact hin other (List.mem_append_left _ hother) (by rw [hnow]; linarith) (hseen other hother)
  have hlength := (List.subperm_of_subset hnodup hsubset).length_le.trans (hfits (call.now - 60))
  rw [List.length_cons, List.length_map] at hlength
  omega

theorem get_recentBuckets {buckets : Buckets} (h : (buckets.map Prod.fst).Nodup) (now : ℚ)
    (key : String) : get (recentBuckets now buckets) key =
      (get buckets key).filter fun bucket => ¬ 60 ≤ now - bucket.last :=
  get_filter_of_nodup h _ key

/-- Making room forgets only buckets that have been idle for a minute. -/
theorem Tracks.roomFor (hfits : WindowsFit maxBuckets (seen ++ call :: rest))
    (htracks : Tracks seen call.now bounded unbounded)
    (hseen : ∀ earlier ∈ seen, earlier.now ≤ call.now) :
    Tracks seen call.now (roomFor maxBuckets bounded call) unbounded := by
  unfold ParticlesEngine.roomFor
  split_ifs with hfull
  · have hroom : makeRoom maxBuckets call.now bounded = recentBuckets call.now bounded :=
      if_pos (length_recentBuckets_lt hfits htracks hseen hfull.1)
    rw [hroom]
    refine ⟨?_, htracks.nodup.sublist (List.filter_sublist.map _), htracks.sound, ?_⟩
    · intro key
      rw [get_recentBuckets htracks.nodup]
      rcases htracks.agrees key with heq | ⟨hnone, hidle⟩
      · rcases hget : get bounded key with _ | bucket
        · exact Or.inl (hget.symm.trans heq)
        · by_cases hidle : 60 ≤ call.now - bucket.last
          · exact Or.inr ⟨by simp [hidle], bucket, heq.symm.trans hget, hidle⟩
          · exact Or.inl (by simpa [← heq, hget] using hidle)
      · exact Or.inr ⟨by simp [hnone], hidle⟩
    · intro item hitem
      exact htracks.used item (List.mem_of_mem_filter hitem)
  · exact htracks

theorem refill_nonneg (ratePerMinute : ℕ) : (0 : ℚ) ≤ ratePerMinute / 60 :=
  div_nonneg (Nat.cast_nonneg _) (by norm_num)

/-- A bucket that has been idle for a minute has refilled, so the two tables decide alike. -/
theorem Tracks.level_eq (ratePerMinute : ℕ) (htracks : Tracks seen call.now bounded unbounded) :
    level (ratePerMinute : ℚ) (ratePerMinute / 60)
        (bucketAt (ratePerMinute : ℚ) (get bounded call.host) call.now) call.now =
      level (ratePerMinute : ℚ) (ratePerMinute / 60)
        (bucketAt (ratePerMinute : ℚ) (get unbounded call.host) call.now) call.now := by
  rcases htracks.agrees call.host with heq | ⟨hnone, bucket, hbucket, hidle⟩
  · rw [heq]
  · obtain ⟨htokens, -⟩ := htracks.sound call.host bucket hbucket
    have hrate := refill_nonneg ratePerMinute
    have hrefilled : (ratePerMinute : ℚ) ≤
        bucket.tokens + (call.now - bucket.last) * (ratePerMinute / 60) := by
      have hinflow := mul_le_mul_of_nonneg_right hidle hrate
      linarith
    rw [hnone, hbucket, bucketAt_some, level_eq_capacity hrefilled]
    exact level_self_mk le_rfl

theorem spend_congr_level {capacity rate now : ℚ} {bucket bucket' : Bucket ℚ}
    (h : level capacity rate bucket now = level capacity rate bucket' now) :
    spend capacity rate bucket now = spend capacity rate bucket' now := by
  unfold spend
  rw [h]

/-- **One call keeps the two tables in agreement, and is decided alike.** -/
theorem agrees_step (ratePerMinute : ℕ) (hfits : WindowsFit maxBuckets (seen ++ call :: rest))
    (htracks : Tracks seen call.now bounded unbounded)
    (hseen : ∀ earlier ∈ seen, earlier.now ≤ call.now) :
    (allow maxBuckets ratePerMinute bounded call).2 =
        (allowUnbounded ratePerMinute unbounded call).2 ∧
      Tracks (seen ++ [call]) call.now (allow maxBuckets ratePerMinute bounded call).1
        (allowUnbounded ratePerMinute unbounded call).1 := by
  have hroom := htracks.roomFor hfits hseen
  have hspend := spend_congr_level (hroom.level_eq ratePerMinute)
  have hsound := (htracks.sound call.host).spend (Nat.cast_nonneg ratePerMinute)
    (refill_nonneg ratePerMinute) (le_refl call.now)
  unfold allow allowUnbounded
  dsimp only
  rw [hspend]
  refine ⟨rfl, ?_, nodup_keys_upsert _ _ hroom.nodup, ?_, ?_⟩
  · intro key
    rw [get_upsert, get_upsert]
    split_ifs
    · exact Or.inl rfl
    · exact hroom.agrees key
  · intro key
    rw [get_upsert]
    split_ifs
    · exact hsound
    · exact htracks.sound key
  · intro item hitem
    have hget := (mem_iff_get (nodup_keys_upsert _ _ hroom.nodup)).1 hitem
    rw [get_upsert] at hget
    split_ifs at hget with hkey
    · refine ⟨call, List.mem_append_right _ (List.mem_singleton_self call), hkey, ?_⟩
      rw [← Option.some.inj hget, last_spend]
    · obtain ⟨other, hother, hsame⟩ := hroom.used item ((mem_iff_get hroom.nodup).2 hget)
      exact ⟨other, List.mem_append_left _ hother, hsame⟩

/-- The two limiters decide alike over a run. -/
theorem decisions_eq (calls : List RateCall) : ∀ (seen : List RateCall) (now : ℚ)
    {bounded unbounded : Buckets}, (calls.map RateCall.now).Pairwise (· ≤ ·) →
      (∀ call ∈ calls, now ≤ call.now) → (∀ earlier ∈ seen, earlier.now ≤ now) →
        WindowsFit maxBuckets (seen ++ calls) → Tracks seen now bounded unbounded →
          decisions (allow maxBuckets ratePerMinute) bounded calls =
            decisions (allowUnbounded ratePerMinute) unbounded calls := by
  induction calls with
  | nil =>
      intros
      rfl
  | cons call calls ih =>
      intro seen now bounded unbounded hsorted hlater hseen hfits htracks
      rw [List.map_cons, List.pairwise_cons] at hsorted
      have hnow : now ≤ call.now := hlater call List.mem_cons_self
      have hbefore : ∀ earlier ∈ seen, earlier.now ≤ call.now := by
        intro earlier hearlier
        exact (hseen earlier hearlier).trans hnow
      obtain ⟨hdecided, hafter⟩ := agrees_step ratePerMinute hfits
        (htracks.mono hnow) hbefore
      rw [decisions, decisions, hdecided]
      refine congrArg _ (ih _ _ hsorted.2 ?_ ?_ ?_ hafter)
      · intro later hlater'
        exact hsorted.1 later.now (List.mem_map_of_mem hlater')
      · intro earlier hearlier
        rcases List.mem_append.1 hearlier with hmem | hmem
        · exact hbefore earlier hmem
        · exact (congrArg RateCall.now (List.mem_singleton.1 hmem)).le
      · rwa [List.append_assoc, List.singleton_append]

end Step

/-! ### The rate -/

/-- How many calls of a client were admitted in an interval. -/
def admittedFor (key : String) (a b : ℚ) (decided : List (RateCall × Bool)) : ℕ :=
  decided.countP fun d => d.1.host = key ∧ a ≤ d.1.now ∧ d.1.now ≤ b ∧ d.2 = true

/-- The limiter that forgets nothing serves each client by itself. -/
theorem admittedFor_decisions (ratePerMinute : ℕ) (key : String) (a b : ℚ) (calls : List RateCall) :
    ∀ unbounded : Buckets,
      admittedFor key a b (decisions (allowUnbounded ratePerMinute) unbounded calls) =
        admitted a b (serve (ratePerMinute : ℚ) (ratePerMinute / 60) (get unbounded key)
          ((calls.filter fun call => call.host = key).map RateCall.now)) := by
  induction calls with
  | nil =>
      intro unbounded
      rfl
  | cons call calls ih =>
      intro unbounded
      rw [decisions, admittedFor, List.countP_cons, ← admittedFor, ih, allowUnbounded, get_upsert,
        List.filter_cons]
      by_cases hkey : call.host = key
      · subst hkey
        simp only [decide_true, if_true, List.map_cons, serve, admitted_cons, true_and,
          decide_eq_true_eq]
      · simp only [hkey, decide_false, Bool.false_eq_true, if_false, false_and, add_zero]

/-- **`_allow`: the table never holds more than `_MAX_BUCKETS` buckets, and while no minute sees more
clients than that, each call is decided as by a limiter that forgets nothing, and a client is admitted no
more often than its rate allows.** -/
theorem rateLimiter_agrees (ratePerMinute : ℕ) {calls : List RateCall}
    (hsorted : (calls.map RateCall.now).Pairwise (· ≤ ·)) :
    (∀ seen, seen <+: calls →
      (tableAfter (allow MAX_BUCKETS ratePerMinute) [] seen).length ≤ MAX_BUCKETS) ∧
    (WindowsFit MAX_BUCKETS calls →
      decisions (allow MAX_BUCKETS ratePerMinute) [] calls =
        decisions (allowUnbounded ratePerMinute) [] calls ∧
      ∀ key (a t : ℚ), 0 ≤ t →
        (admittedFor key a (a + t) (decisions (allow MAX_BUCKETS ratePerMinute) [] calls) : ℚ) ≤
          ratePerMinute + ratePerMinute * t / 60) := by
  refine ⟨fun seen _ => ?_, fun hfits => ?_⟩
  · exact length_tableAfter_le (by decide) seen List.nodup_nil (Nat.zero_le _)
  · have hequal : decisions (allow MAX_BUCKETS ratePerMinute) [] calls =
        decisions (allowUnbounded ratePerMinute) [] calls := by
      cases calls with
      | nil => rfl
      | cons call calls =>
          rw [List.map_cons] at hsorted
          refine decisions_eq _ [] call.now hsorted ?_ ?_ hfits ?_
          · intro later hlater
            rcases List.mem_cons.1 hlater with rfl | hmem
            · exact le_rfl
            · exact (List.pairwise_cons.1 hsorted).1 later.now (List.mem_map_of_mem hmem)
          · intro earlier hearlier
            cases hearlier
          · refine ⟨fun key => Or.inl rfl, List.nodup_nil, fun key bucket hget => ?_, ?_⟩
            · cases hget
            · intro item hitem
              cases hitem
    refine ⟨hequal, ?_⟩
    intro key a t ht
    rw [hequal, admittedFor_decisions, get_nil]
    have hbound := admitted_le (Nat.cast_nonneg ratePerMinute) (refill_nonneg ratePerMinute)
      (le_add_of_nonneg_right ht : a ≤ a + t)
      ((calls.filter fun call => call.host = key).map RateCall.now) none
      (hsorted.sublist (List.filter_sublist.map _)) (fun t _ bucket hget => nomatch hget)
    refine hbound.trans (le_of_eq ?_)
    ring

/-- A client that spends its one token waits for the next, whoever else calls. -/
theorem rateLimiter_agrees_three :
    decisions (allow MAX_BUCKETS 1) [] [⟨"a", 0⟩, ⟨"b", 30⟩, ⟨"a", 30⟩] =
      [(⟨"a", 0⟩, true), (⟨"b", 30⟩, true), (⟨"a", 30⟩, false)] ∧
    (admittedFor "a" 0 (0 + 60) (decisions (allow MAX_BUCKETS 1) []
      [⟨"a", 0⟩, ⟨"b", 30⟩, ⟨"a", 30⟩]) : ℚ) ≤ (1 : ℕ) + (1 : ℕ) * 60 / 60 := by
  have hsorted : ([⟨"a", 0⟩, ⟨"b", 30⟩, ⟨"a", 30⟩].map RateCall.now).Pairwise (· ≤ ·) := by decide
  obtain ⟨hequal, hrate⟩ := (rateLimiter_agrees 1 hsorted).2 (windowsFit_of_length (by decide))
  exact ⟨hequal.trans (by decide +kernel), hrate "a" 0 60 (by decide)⟩

end ParticlesEngine
