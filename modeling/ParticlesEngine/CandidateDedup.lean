/-
**Folding the copies of a sentence within one pass.**

A document that says one sentence twice gives two candidates for one claim.  Before anything is written
the later ones are dropped, and since a stance names its target by position, the positions are rebased:
what named a dropped candidate follows to the first of its copies.  Only plain claims are dropped, so
whatever else a position names stays where it can be found.

Main definitions:

* `CandidateParticle` — a candidate, as far as the fold reads it;
* `dedupeExactCandidates` — the fold;
* `OneClaim` — two plain claims with one normal form and one set of subjects.

Main results:

* `dedupPass_inv` — what the pass over the candidates has seen and marked;
* `mem_keptIndices` — the candidates kept are those with no copy before them;
* `dedupeExactCandidates_keeps` — **every target follows its candidate or the kept copy of it, and a
  second fold changes nothing**.
-/

import Mathlib.Data.List.Induction
import ParticlesEngine.Dict
import ParticlesEngine.DuplicateSuppression

set_option relaxedAutoImplicit false
set_option autoImplicit false

open Dict

namespace ParticlesEngine

/-- A candidate of an extraction pass. -/
structure CandidateParticle where
  content : String
  subjects : List String := []
  particleType : ParticleType := .CLAIM
  stanceKind : Option String := none
  /-- the position of the candidate that a stance is about -/
  stanceTargetIndex : Option ℤ := none
  /-- the place of a constituent in its narrative -/
  narrativeIndex : Option ℤ := none
  deriving DecidableEq, Repr

/-- `_is_dedupable`: a plain claim with no structural role. -/
def isDedupable (candidate : CandidateParticle) : Bool :=
  candidate.particleType = .CLAIM && candidate.stanceKind.isNone && candidate.narrativeIndex.isNone

/-- Normalised content and subject set. -/
abbrev DedupKey := String × Finset String

/-- What the pass over the candidates has seen, and what it drops: the index of each dropped candidate
with that of its kept twin. -/
structure DedupPass where
  seen : List (DedupKey × ℕ) := []
  drop : List (ℕ × ℕ) := []

section Dedup

variable (core : CorePackage)

/-- The key under which a plain claim is folded. -/
def dedupKey (candidate : CandidateParticle) : Option DedupKey :=
  if isDedupable candidate then
    some (core.normalizeContent candidate.content, candidate.subjects.toFinset)
  else none

/-- One candidate of the pass. -/
def dedupStep (pass : DedupPass) (item : CandidateParticle × ℕ) : DedupPass :=
  match dedupKey core item.1 with
  | none => pass
  | some key =>
      match dictOf pass.seen key with
      | none => { pass with seen := pass.seen ++ [(key, item.2)] }
      | some twin => { pass with drop := pass.drop ++ [(item.2, twin)] }

/-- The pass over all candidates. -/
def dedupPass (candidates : List CandidateParticle) : DedupPass :=
  candidates.zipIdx.foldl (dedupStep core) {}

/-- The survivors, with their old indices. -/
def survivors (candidates : List CandidateParticle) : List (CandidateParticle × ℕ) :=
  candidates.zipIdx.filter fun item => item.2 ∉ (dedupPass core candidates).drop.map Prod.fst

/-- The old index of each survivor with its new position. -/
def survivorPositions (candidates : List CandidateParticle) : List (ℤ × ℤ) :=
  (survivors core candidates).zipIdx.map fun item => ((item.1.2 : ℤ), (item.2 : ℤ))

/-- The new position of each old index; a dropped one resolves to its twin's. -/
def newPositions (candidates : List CandidateParticle) : List (ℤ × ℤ) :=
  survivorPositions core candidates ++ (dedupPass core candidates).drop.filterMap fun item =>
    (dictOf (survivorPositions core candidates) (item.2 : ℤ)).map fun pos => ((item.1 : ℤ), pos)

/-- The candidate with its target moved to the new positions; a target out of range is left alone. -/
def rebase (positions : List (ℤ × ℤ)) (candidate : CandidateParticle) : CandidateParticle :=
  match candidate.stanceTargetIndex.bind (dictOf positions) with
  | some pos => { candidate with stanceTargetIndex := some pos }
  | none => candidate

/-- **`dedupe_exact_candidates`.** -/
def dedupeExactCandidates (candidates : List CandidateParticle) :
    List CandidateParticle × List String :=
  let drop := (dedupPass core candidates).drop
  if drop = [] then (candidates, [])
  else
    ((survivors core candidates).map fun item => rebase (newPositions core candidates) item.1,
      ["INTRA_PASS_DEDUP: collapsed " ++ toString drop.length ++
        " exact-content duplicate candidate(s) into their first occurrence"])

end Dedup

/-! ### What the pass has seen and marked -/

section Pass

variable {core : CorePackage}

/-- The key of the candidate at an index. -/
def keyAt (core : CorePackage) (candidates : List CandidateParticle) (i : ℕ) : Option DedupKey :=
  candidates[i]?.bind (dedupKey core)

/-- Two plain claims with one normal form and one set of subjects. -/
def OneClaim (core : CorePackage) (candidates : List CandidateParticle) (i j : ℕ) : Prop :=
  ∃ key, keyAt core candidates i = some key ∧ keyAt core candidates j = some key

/-- The first candidate with a key. -/
def IsFirstWith (core : CorePackage) (candidates : List CandidateParticle) (key : DedupKey) (i : ℕ) :
    Prop :=
  keyAt core candidates i = some key ∧ ∀ j < i, keyAt core candidates j ≠ some key

theorem lt_length_of_keyAt {candidates : List CandidateParticle} {i : ℕ} {key : DedupKey}
    (h : keyAt core candidates i = some key) : i < candidates.length := by
  obtain ⟨c, hc, -⟩ := Option.bind_eq_some_iff.1 h
  exact (List.getElem?_eq_some_iff.1 hc).1

theorem keyAt_concat (before : List CandidateParticle) (c : CandidateParticle) (i : ℕ) :
    keyAt core (before ++ [c]) i =
      if i = before.length then dedupKey core c else keyAt core before i := by
  unfold keyAt
  split_ifs with hi
  · simp [hi]
  · rcases Nat.lt_or_gt_of_ne hi with hlt | hgt
    · rw [List.getElem?_append_left hlt]
    · rw [List.getElem?_append_right (by omega), List.getElem?_eq_none (by simp; omega),
        List.getElem?_eq_none (by omega)]

theorem IsFirstWith.unique {candidates : List CandidateParticle} {key : DedupKey} {i j : ℕ}
    (hi : IsFirstWith core candidates key i) (hj : IsFirstWith core candidates key j) : i = j := by
  rcases Nat.lt_trichotomy i j with hlt | heq | hgt
  · exact absurd hi.1 (hj.2 i hlt)
  · exact heq
  · exact absurd hj.1 (hi.2 j hgt)

/-- Some candidate with a key is the first. -/
theorem exists_isFirstWith {candidates : List CandidateParticle} {key : DedupKey} {i : ℕ}
    (h : keyAt core candidates i = some key) : ∃ j ≤ i, IsFirstWith core candidates key j := by
  induction i using Nat.strong_induction_on with
  | _ i ih =>
      by_cases hearlier : ∃ j < i, keyAt core candidates j = some key
      · obtain ⟨j, hj, hkey⟩ := hearlier
        obtain ⟨k, hk, hfirst⟩ := ih j hj hkey
        exact ⟨k, by omega, hfirst⟩
      · refine ⟨i, le_refl _, h, fun j hj hkey => hearlier ⟨j, hj, hkey⟩⟩

/-- What the pass holds after some candidates: the first index of each key, and each later index with
a key beside the first. -/
structure DedupInv (core : CorePackage) (before : List CandidateParticle) (pass : DedupPass) :
    Prop where
  seen : ∀ key i, (key, i) ∈ pass.seen ↔ IsFirstWith core before key i
  drop : ∀ i twin, (i, twin) ∈ pass.drop ↔
    twin < i ∧ ∃ key, keyAt core before i = some key ∧ IsFirstWith core before key twin

/-- The first with a key stays the first. -/
theorem isFirstWith_concat {before : List CandidateParticle} {c : CandidateParticle} {key : DedupKey}
    {i : ℕ} : IsFirstWith core (before ++ [c]) key i ↔
      IsFirstWith core before key i ∨
        i = before.length ∧ dedupKey core c = some key ∧ ∀ j, keyAt core before j ≠ some key := by
  unfold IsFirstWith
  simp only [keyAt_concat]
  constructor
  · rintro ⟨hkey, hearlier⟩
    split_ifs at hkey with hi
    · subst hi
      refine Or.inr ⟨rfl, hkey, fun j hj => ?_⟩
      have hlt := lt_length_of_keyAt hj
      have := hearlier j hlt
      rw [if_neg (by omega)] at this
      exact this hj
    · have hlt := lt_length_of_keyAt hkey
      refine Or.inl ⟨hkey, fun j hj => ?_⟩
      have := hearlier j hj
      rwa [if_neg (by omega)] at this
  · rintro (⟨hkey, hearlier⟩ | ⟨rfl, hkey, hnone⟩)
    · have hlt := lt_length_of_keyAt hkey
      refine ⟨by rwa [if_neg (by omega)], fun j hj => ?_⟩
      rw [if_neg (by omega)]
      exact hearlier j hj
    · refine ⟨by rwa [if_pos rfl], fun j hj => ?_⟩
      rw [if_neg (by omega)]
      exact hnone j

/-- A later candidate with a key beside the first, after one more candidate. -/
theorem later_concat {before : List CandidateParticle} {c : CandidateParticle} {i twin : ℕ} :
    (twin < i ∧ ∃ key, keyAt core (before ++ [c]) i = some key ∧
        IsFirstWith core (before ++ [c]) key twin) ↔
      (twin < i ∧ ∃ key, keyAt core before i = some key ∧ IsFirstWith core before key twin) ∨
        i = before.length ∧ ∃ key, dedupKey core c = some key ∧ IsFirstWith core before key twin := by
  simp only [keyAt_concat, isFirstWith_concat]
  constructor
  · rintro ⟨hlt, key, hkey, hfirst⟩
    split_ifs at hkey with hi
    · refine Or.inr ⟨hi, key, hkey, hfirst.resolve_right fun h => ?_⟩
      omega
    · have hlen := lt_length_of_keyAt hkey
      refine Or.inl ⟨hlt, key, hkey, hfirst.resolve_right fun h => ?_⟩
      omega
  · rintro (⟨hlt, key, hkey, hfirst⟩ | ⟨rfl, key, hkey, hfirst⟩)
    · have hlen := lt_length_of_keyAt hkey
      exact ⟨hlt, key, by rwa [if_neg (by omega)], Or.inl hfirst⟩
    · exact ⟨lt_length_of_keyAt hfirst.1, key, by rwa [if_pos rfl], Or.inl hfirst⟩

/-- A candidate without a key adds nothing. -/
theorem DedupInv.keyless {before : List CandidateParticle} {pass : DedupPass}
    (hinv : DedupInv core before pass) {c : CandidateParticle} (hkey : dedupKey core c = none) :
    DedupInv core (before ++ [c]) pass := by
  refine ⟨fun key i => ?_, fun i twin => ?_⟩
  · rw [hinv.seen, isFirstWith_concat, hkey]
    simp
  · rw [hinv.drop, later_concat, hkey]
    simp

/-- The first candidate with its key is seen. -/
theorem DedupInv.first {before : List CandidateParticle} {pass : DedupPass}
    (hinv : DedupInv core before pass) {c : CandidateParticle} {key : DedupKey}
    (hkey : dedupKey core c = some key) (hseen : dictOf pass.seen key = none) :
    DedupInv core (before ++ [c]) { pass with seen := pass.seen ++ [(key, before.length)] } := by
  have hnone : ∀ j, keyAt core before j ≠ some key := by
    intro j hj
    obtain ⟨first, -, hfirst⟩ := exists_isFirstWith hj
    exact dictOf_eq_none.1 hseen _ ((hinv.seen key first).2 hfirst) rfl
  refine ⟨fun key' i => ?_, fun i twin => ?_⟩
  · rw [List.mem_append, List.mem_singleton, hinv.seen, isFirstWith_concat, hkey,
      Prod.mk.injEq, Option.some.injEq]
    constructor
    · rintro (h | ⟨rfl, rfl⟩)
      · exact Or.inl h
      · exact Or.inr ⟨rfl, rfl, hnone⟩
    · rintro (h | ⟨rfl, rfl, -⟩)
      · exact Or.inl h
      · exact Or.inr ⟨rfl, rfl⟩
  · rw [hinv.drop, later_concat, hkey]
    refine (or_iff_left ?_).symm
    rintro ⟨-, key', hkey', hfirst⟩
    obtain rfl := Option.some.inj hkey'
    exact hnone _ hfirst.1

/-- A copy of an earlier candidate is dropped for it. -/
theorem DedupInv.copy {before : List CandidateParticle} {pass : DedupPass}
    (hinv : DedupInv core before pass) {c : CandidateParticle} {key : DedupKey} {twin : ℕ}
    (hkey : dedupKey core c = some key) (hseen : dictOf pass.seen key = some twin) :
    DedupInv core (before ++ [c]) { pass with drop := pass.drop ++ [(before.length, twin)] } := by
  have hfirst := (hinv.seen key twin).1 (mem_of_dictOf hseen)
  refine ⟨fun key' i => ?_, fun i twin' => ?_⟩
  · rw [hinv.seen, isFirstWith_concat, hkey, Option.some.injEq]
    refine (or_iff_left ?_).symm
    rintro ⟨-, rfl, hnone⟩
    exact hnone _ hfirst.1
  · rw [List.mem_append, List.mem_singleton, hinv.drop, later_concat, hkey, Prod.mk.injEq]
    refine or_congr_right ?_
    constructor
    · rintro ⟨rfl, rfl⟩
      exact ⟨rfl, key, rfl, hfirst⟩
    · rintro ⟨rfl, key', hkey', hfirst'⟩
      obtain rfl := Option.some.inj hkey'
      exact ⟨rfl, hfirst'.unique hfirst⟩

/-- **What one candidate adds.** -/
theorem DedupInv.step {before : List CandidateParticle} {pass : DedupPass}
    (hinv : DedupInv core before pass) (c : CandidateParticle) :
    DedupInv core (before ++ [c]) (dedupStep core pass (c, before.length)) := by
  cases hkey : dedupKey core c with
  | none =>
      have hstep : dedupStep core pass (c, before.length) = pass := by simp [dedupStep, hkey]
      rw [hstep]
      exact hinv.keyless hkey
  | some key =>
      cases hseen : dictOf pass.seen key with
      | none =>
          have hstep : dedupStep core pass (c, before.length) =
              { pass with seen := pass.seen ++ [(key, before.length)] } := by
            simp [dedupStep, hkey, hseen]
          rw [hstep]
          exact hinv.first hkey hseen
      | some twin =>
          have hstep : dedupStep core pass (c, before.length) =
              { pass with drop := pass.drop ++ [(before.length, twin)] } := by
            simp [dedupStep, hkey, hseen]
          rw [hstep]
          exact hinv.copy hkey hseen

/-- **What the pass over the candidates has seen and marked.** -/
theorem dedupPass_inv (candidates : List CandidateParticle) :
    DedupInv core candidates (dedupPass core candidates) := by
  induction candidates using List.reverseRecOn with
  | nil =>
      refine ⟨fun key i => ?_, fun i twin => ?_⟩
      · simp [dedupPass, IsFirstWith, keyAt]
      · simp [dedupPass, keyAt]
  | append_singleton before c ih =>
      have hpass : dedupPass core (before ++ [c]) =
          dedupStep core (dedupPass core before) (c, before.length) := by
        simp [dedupPass, List.zipIdx_append]
      rw [hpass]
      exact ih.step c

end Pass

/-! ### The survivors -/

section Survivors

variable {core : CorePackage} {candidates : List CandidateParticle}

/-- The indices of the survivors. -/
def keptIndices (core : CorePackage) (candidates : List CandidateParticle) : List ℕ :=
  (survivors core candidates).map Prod.snd

theorem keptIndices_sublist (core : CorePackage) (candidates : List CandidateParticle) :
    (keptIndices core candidates).Sublist (List.range candidates.length) := by
  have hsub : (keptIndices core candidates).Sublist (candidates.zipIdx.map Prod.snd) :=
    List.filter_sublist.map _
  rwa [List.zipIdx_map_snd, ← List.range_eq_range'] at hsub

theorem nodup_keptIndices (core : CorePackage) (candidates : List CandidateParticle) :
    (keptIndices core candidates).Nodup :=
  List.nodup_range.sublist (keptIndices_sublist core candidates)

/-- A survivor is the candidate at its old index. -/
theorem getElem?_survivors {pos i : ℕ} (h : (keptIndices core candidates)[pos]? = some i) :
    ∃ c, candidates[i]? = some c ∧ (survivors core candidates)[pos]? = some (c, i) := by
  rw [keptIndices, List.getElem?_map, Option.map_eq_some_iff] at h
  obtain ⟨⟨c, i'⟩, hitem, rfl⟩ := h
  have hmem := List.mem_of_mem_filter (List.mem_of_getElem? hitem)
  exact ⟨c, List.mem_zipIdx_iff_getElem?.1 hmem, hitem⟩

/-- An index is kept unless it is marked. -/
theorem mem_keptIndices_iff_drop {i : ℕ} : i ∈ keptIndices core candidates ↔
    i < candidates.length ∧ i ∉ (dedupPass core candidates).drop.map Prod.fst := by
  simp only [keptIndices, survivors, List.mem_map, List.mem_filter, decide_eq_true_eq]
  constructor
  · rintro ⟨⟨c, i'⟩, ⟨hmem, hnot⟩, rfl⟩
    exact ⟨(List.getElem?_eq_some_iff.1 (List.mem_zipIdx_iff_getElem?.1 hmem)).1, by simpa using hnot⟩
  · rintro ⟨hlt, hnot⟩
    refine ⟨(candidates[i], i), ⟨List.mem_zipIdx_iff_getElem?.2 (by simp [hlt]), by simpa using hnot⟩,
      rfl⟩

/-- **The candidates kept are those with no copy before them.** -/
theorem mem_keptIndices {i : ℕ} :
    i ∈ keptIndices core candidates ↔
      i < candidates.length ∧ ∀ j < i, ¬ OneClaim core candidates j i := by
  have hinv : DedupInv core candidates _ := dedupPass_inv candidates
  rw [mem_keptIndices_iff_drop]
  refine and_congr_right fun _ => ⟨fun hkept j hj => ?_, fun hfirst hmem => ?_⟩
  · rintro ⟨key, hjkey, hikey⟩
    obtain ⟨twin, hle, htwin⟩ := exists_isFirstWith hjkey
    exact hkept (List.mem_map.2 ⟨(i, twin), (hinv.drop i twin).2
      ⟨by omega, key, hikey, htwin⟩, rfl⟩)
  · obtain ⟨⟨i', twin⟩, hdrop, rfl⟩ := List.mem_map.1 hmem
    obtain ⟨hlt, key, hkey, htwin⟩ := (hinv.drop i' twin).1 hdrop
    exact hfirst twin hlt ⟨key, htwin.1, hkey⟩

theorem OneClaim.symm {i j : ℕ} (h : OneClaim core candidates i j) : OneClaim core candidates j i := by
  obtain ⟨key, hi, hj⟩ := h
  exact ⟨key, hj, hi⟩

theorem OneClaim.trans {i j k : ℕ} (h : OneClaim core candidates i j)
    (h' : OneClaim core candidates j k) : OneClaim core candidates i k := by
  obtain ⟨key, hi, hj⟩ := h
  obtain ⟨key', hj', hk⟩ := h'
  obtain rfl := Option.some.inj (hj.symm.trans hj')
  exact ⟨key, hi, hk⟩

/-- No two survivors are one claim. -/
theorem eq_of_sameClaim {i j : ℕ} (hi : i ∈ keptIndices core candidates)
    (hj : j ∈ keptIndices core candidates) (h : OneClaim core candidates i j) : i = j := by
  rcases Nat.lt_trichotomy i j with hlt | heq | hgt
  · exact absurd h ((mem_keptIndices.1 hj).2 i hlt)
  · exact heq
  · exact absurd h.symm ((mem_keptIndices.1 hi).2 j hgt)

theorem mem_survivorPositions {a b : ℤ} :
    (a, b) ∈ survivorPositions core candidates ↔
      ∃ i pos : ℕ, (keptIndices core candidates)[pos]? = some i ∧ a = i ∧ b = pos := by
  simp only [survivorPositions, keptIndices, List.mem_map, List.mem_zipIdx_iff_getElem?,
    Prod.mk.injEq, List.getElem?_map, Option.map_eq_some_iff]
  constructor
  · rintro ⟨⟨item, pos⟩, hpos, rfl, rfl⟩
    exact ⟨item.2, pos, ⟨item, hpos, rfl⟩, rfl, rfl⟩
  · rintro ⟨i, pos, ⟨item, hpos, rfl⟩, rfl, rfl⟩
    exact ⟨(item, pos), hpos, rfl, rfl⟩

theorem eq_of_getElem?_kept {i pos pos' : ℕ} (h : (keptIndices core candidates)[pos]? = some i)
    (h' : (keptIndices core candidates)[pos']? = some i) : pos = pos' :=
  (List.getElem?_inj (List.getElem?_eq_some_iff.1 h).1 (nodup_keptIndices core candidates)).1
    (h.trans h'.symm)

/-- A survivor is found at its new position. -/
theorem dictOf_survivorPositions {i pos : ℕ} (h : (keptIndices core candidates)[pos]? = some i) :
    dictOf (survivorPositions core candidates) (i : ℤ) = some (pos : ℤ) := by
  refine dictOf_eq_some (mem_survivorPositions.2 ⟨i, pos, h, rfl, rfl⟩) fun v hv => ?_
  obtain ⟨i', pos', h', hi, rfl⟩ := mem_survivorPositions.1 hv
  obtain rfl : i = i' := by exact_mod_cast hi
  exact_mod_cast (eq_of_getElem?_kept h h').symm

/-- What the new positions hold: a survivor's own, and a dropped candidate's twin's. -/
theorem mem_newPositions {a b : ℤ} : (a, b) ∈ newPositions core candidates ↔
    ∃ i j pos : ℕ, a = i ∧ b = pos ∧ (keptIndices core candidates)[pos]? = some j ∧
      (i = j ∨ (i, j) ∈ (dedupPass core candidates).drop) := by
  rw [newPositions, List.mem_append, mem_survivorPositions, List.mem_filterMap]
  constructor
  · rintro (⟨i, pos, hpos, rfl, rfl⟩ | ⟨⟨i, twin⟩, hdrop, hmap⟩)
    · exact ⟨i, i, pos, rfl, rfl, hpos, Or.inl rfl⟩
    · obtain ⟨v, hv, hpair⟩ := Option.map_eq_some_iff.1 hmap
      obtain ⟨rfl, rfl⟩ := Prod.mk.inj hpair
      obtain ⟨j, pos, hpos, hj, rfl⟩ := mem_survivorPositions.1 (mem_of_dictOf hv)
      obtain rfl : twin = j := by exact_mod_cast hj
      exact ⟨i, twin, pos, rfl, rfl, hpos, Or.inr hdrop⟩
  · rintro ⟨i, j, pos, rfl, rfl, hpos, rfl | hdrop⟩
    · exact Or.inl ⟨i, pos, hpos, rfl, rfl⟩
    · exact Or.inr ⟨(i, j), hdrop, by simp [dictOf_survivorPositions hpos]⟩

/-- A twin is kept. -/
theorem twin_mem_keptIndices {i twin : ℕ} (h : (i, twin) ∈ (dedupPass core candidates).drop) :
    twin ∈ keptIndices core candidates ∧ OneClaim core candidates twin i := by
  obtain ⟨-, key, hkey, hfirst⟩ := ((dedupPass_inv candidates).drop i twin).1 h
  refine ⟨mem_keptIndices.2 ⟨lt_length_of_keyAt hfirst.1, ?_⟩, key, hfirst.1, hkey⟩
  rintro j hj ⟨key', hj', htwin⟩
  obtain rfl := Option.some.inj (hfirst.1.symm.trans htwin)
  exact hfirst.2 j hj hj'

/-- **Where an index in range leads**: to the candidate's own new position, or to that of its kept
copy. -/
theorem dictOf_newPositions (core : CorePackage) {i : ℕ} (hi : i < candidates.length) :
    ∃ j pos : ℕ, dictOf (newPositions core candidates) (i : ℤ) = some (pos : ℤ) ∧
      (keptIndices core candidates)[pos]? = some j ∧ (j = i ∨ OneClaim core candidates j i) := by
  have hfound : ∃ j pos : ℕ, (keptIndices core candidates)[pos]? = some j ∧
      (i = j ∨ (i, j) ∈ (dedupPass core candidates).drop) := by
    by_cases hkept : i ∈ keptIndices core candidates
    · obtain ⟨pos, hpos⟩ := List.mem_iff_getElem?.1 hkept
      exact ⟨i, pos, hpos, Or.inl rfl⟩
    · have hmem : i ∈ (dedupPass core candidates).drop.map Prod.fst := by
        by_contra hnot
        exact hkept (mem_keptIndices_iff_drop.2 ⟨hi, hnot⟩)
      obtain ⟨⟨i', twin⟩, hdrop, rfl⟩ := List.mem_map.1 hmem
      obtain ⟨pos, hpos⟩ := List.mem_iff_getElem?.1 (twin_mem_keptIndices hdrop).1
      exact ⟨twin, pos, hpos, Or.inr hdrop⟩
  obtain ⟨j, pos, hpos, hij⟩ := hfound
  have hsame : ∀ {k : ℕ}, i = k ∨ (i, k) ∈ (dedupPass core candidates).drop →
      k = i ∨ OneClaim core candidates k i := by
    rintro k (rfl | hdrop)
    · exact Or.inl rfl
    · exact Or.inr (twin_mem_keptIndices hdrop).2
  refine ⟨j, pos, ?_, hpos, hsame hij⟩
  refine dictOf_eq_some (mem_newPositions.2 ⟨i, j, pos, rfl, rfl, hpos, hij⟩) fun v hv => ?_
  obtain ⟨i', j', pos', hi', rfl, hpos', hij'⟩ := mem_newPositions.1 hv
  obtain rfl : i = i' := by exact_mod_cast hi'
  -- the two are kept, and one claim with the index, so they are the same
  have hj : j = j' := by
    have hjk := List.mem_of_getElem? hpos
    have hjk' := List.mem_of_getElem? hpos'
    rcases hsame hij with rfl | hone
    · rcases hsame hij' with rfl | hother
      · rfl
      · exact (eq_of_sameClaim hjk' hjk hother).symm
    · rcases hsame hij' with rfl | hother
      · exact eq_of_sameClaim hjk hjk' hone
      · exact eq_of_sameClaim hjk hjk' (hone.trans hother.symm)
  subst hj
  exact_mod_cast (eq_of_getElem?_kept hpos hpos').symm

/-- An index out of range leads nowhere. -/
theorem dictOf_newPositions_eq_none {t : ℤ} (h : ∀ i : ℕ, t = i → candidates.length ≤ i) :
    dictOf (newPositions core candidates) t = none := by
  rw [dictOf_eq_none]
  rintro ⟨a, b⟩ hmem rfl
  obtain ⟨i, j, pos, hi, -, hpos, rfl | hdrop⟩ := mem_newPositions.1 hmem
  · have hlt := (mem_keptIndices.1 (List.mem_of_getElem? hpos)).1
    have := h i hi
    omega
  · obtain ⟨-, key, hkey, -⟩ := ((dedupPass_inv candidates).drop i j).1 hdrop
    have hlt := lt_length_of_keyAt hkey
    have := h i hi
    omega

end Survivors

/-! ### The fold -/

/-- A survivor in its new place: it is as it was but for its target, which leads to the place of the
candidate it named, or of the kept copy of that one, and is left alone when it named none. -/
structure Retargeted (core : CorePackage) (candidates : List CandidateParticle) (kept : List ℕ)
    (before after : CandidateParticle) : Prop where
  same : after = { before with stanceTargetIndex := after.stanceTargetIndex }
  follows : ∀ t : ℕ, before.stanceTargetIndex = some (t : ℤ) → t < candidates.length →
    ∃ pos j : ℕ, after.stanceTargetIndex = some (pos : ℤ) ∧ kept[pos]? = some j ∧
      (j = t ∨ OneClaim core candidates j t)
  stays : (∀ t : ℕ, before.stanceTargetIndex = some (t : ℤ) → candidates.length ≤ t) → after = before

section Fold

variable {core : CorePackage} {candidates : List CandidateParticle}

/-- **A rebased survivor.** -/
theorem retargeted_rebase (c : CandidateParticle) :
    Retargeted core candidates (keptIndices core candidates) c
      (rebase (newPositions core candidates) c) := by
  have hnone : c.stanceTargetIndex.bind (dictOf (newPositions core candidates)) = none →
      rebase (newPositions core candidates) c = c := by
    intro h
    simp [rebase, h]
  refine ⟨?_, fun t ht hlt => ?_, fun hout => hnone ?_⟩
  · unfold rebase
    split <;> rfl
  · obtain ⟨j, pos, hdict, hpos, hsame⟩ := dictOf_newPositions core hlt
    refine ⟨pos, j, ?_, hpos, hsame⟩
    simp [rebase, ht, hdict]
  · cases htarget : c.stanceTargetIndex with
    | none => rfl
    | some t =>
        refine dictOf_newPositions_eq_none fun i hi => hout i ?_
        rw [htarget, hi]

/-- When nothing is marked every candidate is kept. -/
theorem keptIndices_of_drop_nil (h : (dedupPass core candidates).drop = []) :
    keptIndices core candidates = List.range candidates.length := by
  rw [keptIndices, survivors, h]
  simp [List.zipIdx_map_snd, List.range_eq_range']

theorem dedupe_fst (core : CorePackage) (candidates : List CandidateParticle) :
    (dedupeExactCandidates core candidates).1 =
      if (dedupPass core candidates).drop = [] then candidates
      else (survivors core candidates).map fun item => rebase (newPositions core candidates) item.1 := by
  rw [dedupeExactCandidates]
  split_ifs <;> rfl

/-- **The place of each survivor in the result.** -/
theorem getElem?_dedupe {pos i : ℕ} (h : (keptIndices core candidates)[pos]? = some i) :
    ∃ c d, candidates[i]? = some c ∧ (dedupeExactCandidates core candidates).1[pos]? = some d ∧
      Retargeted core candidates (keptIndices core candidates) c d := by
  obtain ⟨c, hc, hitem⟩ := getElem?_survivors h
  rw [dedupe_fst]
  split_ifs with hdrop
  · rw [keptIndices_of_drop_nil hdrop] at h ⊢
    obtain ⟨hlt, rfl⟩ := List.getElem?_eq_some_iff.1 h
    rw [List.getElem_range] at hc
    refine ⟨c, c, by simpa using hc, hc, rfl, fun t ht htlt => ?_, fun _ => rfl⟩
    exact ⟨t, t, ht, List.getElem?_range htlt, Or.inl rfl⟩
  · refine ⟨c, _, hc, ?_, retargeted_rebase c⟩
    simp [hitem]

theorem length_dedupe (core : CorePackage) (candidates : List CandidateParticle) :
    (dedupeExactCandidates core candidates).1.length = (keptIndices core candidates).length := by
  rw [dedupe_fst]
  split_ifs with hdrop
  · simp [keptIndices_of_drop_nil hdrop]
  · simp [keptIndices]

theorem dedupKey_of_retargeted {kept : List ℕ} {c d : CandidateParticle}
    (h : Retargeted core candidates kept c d) : dedupKey core d = dedupKey core c := by
  rw [h.same]
  rfl

/-- The keys of the result are those of the survivors. -/
theorem keyAt_dedupe {pos : ℕ} {key : DedupKey}
    (h : keyAt core (dedupeExactCandidates core candidates).1 pos = some key) :
    ∃ i, (keptIndices core candidates)[pos]? = some i ∧ keyAt core candidates i = some key := by
  have hlt := lt_length_of_keyAt h
  rw [length_dedupe] at hlt
  refine ⟨(keptIndices core candidates)[pos], by simp [hlt], ?_⟩
  obtain ⟨c, d, hc, hd, hretargeted⟩ := getElem?_dedupe (List.getElem?_eq_getElem hlt)
  rw [keyAt, hd, Option.bind_some, dedupKey_of_retargeted hretargeted] at h
  rw [keyAt, hc, Option.bind_some, h]

/-- **A second fold changes nothing.** -/
theorem dedupe_dedupe (core : CorePackage) (candidates : List CandidateParticle) :
    dedupeExactCandidates core (dedupeExactCandidates core candidates).1 =
      ((dedupeExactCandidates core candidates).1, []) := by
  have hdrop : (dedupPass core (dedupeExactCandidates core candidates).1).drop = [] := by
    refine List.eq_nil_iff_forall_not_mem.2 ?_
    rintro ⟨pos, twin⟩ hmem
    obtain ⟨hlt, key, hkey, hfirst⟩ := ((dedupPass_inv _).drop pos twin).1 hmem
    obtain ⟨i, hi, hikey⟩ := keyAt_dedupe hkey
    obtain ⟨j, hj, hjkey⟩ := keyAt_dedupe hfirst.1
    obtain rfl := eq_of_sameClaim (List.mem_of_getElem? hi) (List.mem_of_getElem? hj)
      ⟨key, hikey, hjkey⟩
    have := eq_of_getElem?_kept hi hj
    omega
  rw [dedupeExactCandidates, if_pos hdrop]

end Fold

/-- **Every structural candidate and the first of each claim are kept, in order; every target follows
its candidate or the kept copy of it; and a second fold changes nothing.** -/
theorem dedupeExactCandidates_keeps (core : CorePackage) (candidates : List CandidateParticle) :
    ∃ kept : List ℕ, kept.Sublist (List.range candidates.length) ∧
      (dedupeExactCandidates core candidates).1.length = kept.length ∧
      (∀ i, i ∈ kept ↔ i < candidates.length ∧ ∀ j < i, ¬ OneClaim core candidates j i) ∧
      (∀ i ∈ kept, ∀ j ∈ kept, OneClaim core candidates i j → i = j) ∧
      (∀ pos i : ℕ, kept[pos]? = some i → ∃ c d, candidates[i]? = some c ∧
        (dedupeExactCandidates core candidates).1[pos]? = some d ∧
          Retargeted core candidates kept c d) ∧
      dedupeExactCandidates core (dedupeExactCandidates core candidates).1 =
        ((dedupeExactCandidates core candidates).1, []) :=
  ⟨keptIndices core candidates, keptIndices_sublist core candidates, length_dedupe core candidates,
    fun _ => mem_keptIndices, fun _ hi _ hj h => eq_of_sameClaim hi hj h,
    fun _ _ h => getElem?_dedupe h, dedupe_dedupe core candidates⟩

/-- A stance on a repeated sentence follows to the first copy. -/
example : (dedupeExactCandidates .verbatim
    [{ content := "a" }, { content := "a" },
      { content := "b", stanceKind := some "DISPUTES", stanceTargetIndex := some 1 }]).1.map
        CandidateParticle.stanceTargetIndex = [none, some 0] := by
  decide +kernel

end ParticlesEngine
