/-
**A key's own bucket.**

A request whose key resolves to a principal spends from that principal's bucket, and every other request
from the bucket of its address.  No address and no host can be spelled so that its bucket is a
principal's, and so what a principal's key is allowed depends on the requests made with it alone.

Main results:

* `addressBucket_head` — no bucket of an address begins as a principal's does;
* `clientBucket_eq_principal` — **only the requests of a principal spend from its bucket**;
* `decisions_of_key` — the limiter that forgets nothing serves each bucket by itself;
* `answers_filter_madeBy` — the answers to a principal are those to its own requests;
* `principal_unaffected` — **a principal's bucket is its own**.
-/

import ParticlesEngine.ClientHost

set_option relaxedAutoImplicit false
set_option autoImplicit false

namespace ParticlesEngine
namespace ClientHost

open IpAddress TokenBucket MergedDict

/-! ### The first character of a bucket -/

theorem not_mem_strV4 (value : BitVec 32) : 'p' ∉ strV4 value := by
  intro hmem
  have hkinds := mem_strV4 hmem
  revert hkinds
  decide

theorem not_mem_strV6 (value : BitVec 128) : 'p' ∉ strV6 value := by
  intro hmem
  have hkinds := mem_strV6 hmem
  revert hkinds
  decide

theorem head?_ne_of_not_mem {text : Text} (h : 'p' ∉ text) : text.head? ≠ some 'p' :=
  fun hhead => h (List.mem_of_mem_head? hhead)

/-- **No bucket of an address begins as a principal's does.** -/
theorem addressBucket_head (ip : Addr) : (addressBucket ip).head? ≠ some 'p' := by
  unfold addressBucket
  split_ifs
  · decide
  · cases ip.unmapped with
    | v4 value => exact head?_ne_of_not_mem (not_mem_strV4 value)
    | v6 value scope =>
        have hfront := head?_ne_of_not_mem (not_mem_strV6 (value &&& maskOf 128 64))
        change (block64 value scope).head? ≠ _
        unfold block64
        dsimp only
        cases hstr : strV6 (value &&& maskOf 128 64) with
        | nil =>
            split_ifs
            · cases scope <;> simp [strScope]
            · simp
        | cons c text =>
            rw [hstr] at hfront
            exact hfront

section Principals

variable {isDigit : Char → Bool} {trusted : List Text} {request : Request} {principal : Text}

/-- **Only the requests of a principal spend from its bucket.** -/
theorem clientBucket_eq_principal :
    clientBucket isDigit trusted request = "principal:".toList ++ principal ↔
      request.principal = some principal := by
  unfold clientBucket
  cases request.principal with
  | some other =>
      rw [Option.some.injEq]
      exact ⟨fun h => List.append_cancel_left h, fun h => by rw [h]⟩
  | none =>
      refine iff_of_false ?_ nofun
      cases realClientHost isDigit trusted request with
      | none =>
          intro h
          have hsecond : some 'e' = some 'r' := congrArg (fun text : Text => text[1]?) h
          exact absurd hsecond (by decide)
      | some host =>
          change bucketKey host ≠ _
          unfold bucketKey
          cases ipAddress host with
          | some ip =>
              intro h
              exact addressBucket_head ip (congrArg List.head? h)
          | none =>
              intro h
              have hfirst : some 'h' = some 'p' := congrArg List.head? h
              exact absurd hfirst (by decide)

end Principals

/-! ### One bucket among many -/

/-- **The limiter that forgets nothing serves each bucket by itself.** -/
theorem decisions_of_key (ratePerMinute : ℕ) (key : String) (calls : List RateCall) :
    ∀ buckets : Buckets,
      ((decisions (allowUnbounded ratePerMinute) buckets calls).filter fun d => d.1.host = key).map
          Prod.snd =
        (serve (ratePerMinute : ℚ) (ratePerMinute / 60) (get buckets key)
          ((calls.filter fun call => call.host = key).map RateCall.now)).map Prod.snd := by
  induction calls with
  | nil =>
      intro buckets
      rfl
  | cons call calls ih =>
      intro buckets
      rw [decisions, List.filter_cons, List.filter_cons]
      by_cases hkey : call.host = key
      · subst hkey
        simp only [decide_true, if_true, List.map_cons, serve]
        rw [ih, allowUnbounded, get_upsert, if_pos rfl]
      · simp only [hkey, decide_false, Bool.false_eq_true, if_false]
        rw [ih, allowUnbounded, get_upsert, if_neg hkey]

theorem windowsFit_sublist {maxBuckets : ℕ} {calls fewer : List RateCall}
    (h : WindowsFit maxBuckets calls) (hsub : fewer.Sublist calls) : WindowsFit maxBuckets fewer := by
  intro start
  refine le_trans ?_ (h start)
  have hkeys := ((hsub.filter fun call => start < call.now ∧ call.now ≤ start + 60).map
    RateCall.host).subset
  refine (List.subperm_of_subset (List.nodup_dedup _) fun host hhost => ?_).length_le
  exact List.mem_dedup.2 (hkeys (List.mem_dedup.1 hhost))

section Answers

variable {isDigit : Char → Bool} {trusted : List Text} {ratePerMinute : ℕ}

theorem map_fst_answers (spendings : List Spending) : ∀ buckets : Buckets,
    (answers isDigit trusted ratePerMinute buckets spendings).map Prod.fst = spendings := by
  induction spendings with
  | nil =>
      intro buckets
      rfl
  | cons spending spendings ih =>
      intro buckets
      rw [answers, List.map_cons, ih]

/-- The answers are the decisions of the limiter. -/
theorem map_answers (hrate : 0 < ratePerMinute) (spendings : List Spending) : ∀ buckets : Buckets,
    (answers isDigit trusted ratePerMinute buckets spendings).map
        (fun d => (d.1.call isDigit trusted, d.2)) =
      decisions (allow MAX_BUCKETS ratePerMinute) buckets
        (spendings.map (Spending.call isDigit trusted)) := by
  induction spendings with
  | nil =>
      intro buckets
      rfl
  | cons spending spendings ih =>
      intro buckets
      have hstep : enforceRateLimit isDigit trusted ratePerMinute buckets spending =
          allow MAX_BUCKETS ratePerMinute buckets (spending.call isDigit trusted) :=
        if_neg (Nat.pos_iff_ne_zero.1 hrate)
      rw [answers, List.map_cons, List.map_cons, decisions, hstep, ih]

/-- Without a rate everything is granted. -/
theorem answers_zero (spendings : List Spending) : ∀ buckets : Buckets,
    answers isDigit trusted 0 buckets spendings = spendings.map fun spending => (spending, true) := by
  induction spendings with
  | nil =>
      intro buckets
      rfl
  | cons spending spendings ih =>
      intro buckets
      rw [answers, List.map_cons, ih]
      rfl

/-- The request is made with a key of the principal. -/
def MadeBy (principal : Text) (spending : Spending) : Bool :=
  spending.request.principal = some principal

theorem madeBy_iff {principal : Text} {spending : Spending} :
    decide ((spending.call isDigit trusted).host = String.ofList ("principal:".toList ++ principal)) =
      MadeBy principal spending := by
  unfold MadeBy
  refine decide_eq_decide.2 ?_
  rw [Spending.call, String.ofList_inj]
  exact clientBucket_eq_principal

/-- What is answered to a principal, as its own bucket serves it. -/
theorem answers_madeBy (hrate : 0 < ratePerMinute) {spendings : List Spending}
    (hsorted : (spendings.map Spending.now).Pairwise (· ≤ ·))
    (hfits : WindowsFit MAX_BUCKETS (spendings.map (Spending.call isDigit trusted)))
    (principal : Text) :
    ((answers isDigit trusted ratePerMinute [] spendings).filter
        fun d => MadeBy principal d.1).map Prod.snd =
      (serve (ratePerMinute : ℚ) (ratePerMinute / 60) none
        ((spendings.filter (MadeBy principal)).map Spending.now)).map Prod.snd := by
  have hcalls : ((spendings.map (Spending.call isDigit trusted)).map RateCall.now).Pairwise (· ≤ ·) := by
    rw [List.map_map]
    exact hsorted
  have hserved := decisions_of_key ratePerMinute (String.ofList ("principal:".toList ++ principal))
    (spendings.map (Spending.call isDigit trusted)) []
  rw [← decisions_of_windowsFit ratePerMinute hcalls hfits, ← map_answers hrate, List.filter_map,
    List.filter_map, List.map_map, List.map_map] at hserved
  have hown : ((fun d : RateCall × Bool => decide
      (d.1.host = String.ofList ("principal:".toList ++ principal))) ∘
      fun d : Spending × Bool => (d.1.call isDigit trusted, d.2)) = fun d => MadeBy principal d.1 :=
    funext fun d => madeBy_iff
  have hown' : ((fun call : RateCall => decide
      (call.host = String.ofList ("principal:".toList ++ principal))) ∘
      Spending.call isDigit trusted) = MadeBy principal := funext fun spending => madeBy_iff
  rw [hown, hown'] at hserved
  exact hserved

/-- As long as no minute sees more clients than the limiter holds, what is granted to the requests made
with a principal's keys, and to the model calls of those, is what would be granted if nobody else had
asked for anything. -/
theorem answers_filter_madeBy {spendings : List Spending}
    (hsorted : (spendings.map Spending.now).Pairwise (· ≤ ·))
    (hfits : WindowsFit MAX_BUCKETS (spendings.map (Spending.call isDigit trusted)))
    (principal : Text) :
    (answers isDigit trusted ratePerMinute [] spendings).filter (fun d => MadeBy principal d.1) =
      answers isDigit trusted ratePerMinute [] (spendings.filter (MadeBy principal)) := by
  rcases Nat.eq_zero_or_pos ratePerMinute with rfl | hrate
  · rw [answers_zero, answers_zero, List.filter_map]
    rfl
  · have hsub : (spendings.filter (MadeBy principal)).Sublist spendings := List.filter_sublist
    have hall := answers_madeBy hrate hsorted hfits principal
    have halone := answers_madeBy hrate (hsorted.sublist (hsub.map _))
      (windowsFit_sublist hfits (hsub.map (Spending.call isDigit trusted))) principal
    have hfst : (answers isDigit trusted ratePerMinute [] (spendings.filter (MadeBy principal))).map
        Prod.fst = spendings.filter (MadeBy principal) := map_fst_answers _ []
    have hkept : (answers isDigit trusted ratePerMinute [] (spendings.filter (MadeBy principal))).filter
        (fun d => MadeBy principal d.1) =
        answers isDigit trusted ratePerMinute [] (spendings.filter (MadeBy principal)) := by
      refine List.filter_eq_self.2 fun d hd => ?_
      have hin := List.mem_map_of_mem (f := Prod.fst) hd
      rw [hfst] at hin
      exact (List.mem_filter.1 hin).2
    have hfst' : ((answers isDigit trusted ratePerMinute [] spendings).filter
        fun d => MadeBy principal d.1).map Prod.fst = spendings.filter (MadeBy principal) := by
      have hmap := congrArg (List.filter (MadeBy principal))
        (map_fst_answers spendings [] :
          (answers isDigit trusted ratePerMinute [] spendings).map Prod.fst = spendings)
      rw [List.filter_map] at hmap
      exact hmap
    simp only [hkept, List.filter_filter, Bool.and_self] at halone
    rw [List.zip_of_prod hfst' (hall.trans halone.symm), ← List.zip_of_prod hfst rfl]

/-- **A principal's bucket is its own**: no request but one with its key spends from it, however the
address, the host or the other principal is spelled, and the answers to its requests are those that they
would get alone. -/
theorem principal_unaffected {spendings : List Spending}
    (hsorted : (spendings.map Spending.now).Pairwise (· ≤ ·))
    (hfits : WindowsFit MAX_BUCKETS (spendings.map (Spending.call isDigit trusted)))
    (principal : Text) :
    (∀ request, clientBucket isDigit trusted request = "principal:".toList ++ principal ↔
      request.principal = some principal) ∧
      (answers isDigit trusted ratePerMinute [] spendings).filter (fun d => MadeBy principal d.1) =
        answers isDigit trusted ratePerMinute [] (spendings.filter (MadeBy principal)) :=
  ⟨fun _ => clientBucket_eq_principal, answers_filter_madeBy hsorted hfits principal⟩

/-- A request with a key of `p` between two without. -/
def besidesOthers : List Spending :=
  [⟨⟨some "203.0.113.7".toList, [], none⟩, 0⟩,
    ⟨⟨some "203.0.113.7".toList, [], some "p".toList⟩, 1⟩,
    ⟨⟨some "203.0.113.7".toList, [], none⟩, 2⟩]

theorem besidesOthers_unaffected :
    (answers Char.isDigit [] 1 [] besidesOthers).filter (fun d => MadeBy "p".toList d.1) =
      answers Char.isDigit [] 1 [] (besidesOthers.filter (MadeBy "p".toList)) :=
  (principal_unaffected (by decide +kernel) (windowsFit_of_length (by decide)) "p".toList).2

end Answers

end ClientHost
end ParticlesEngine
