/-
**The pairs of a restatement match.**

When a source that changed is read again, each candidate is matched with the nearest claim of the earlier
generation.  Two texts that are one sentence under the identity key match whatever their vectors say;
other pairs must reach a floor.  The matching goes through the pairs once, the key-equal ones first and
then by descending cosine, so a pair that is left out has lost an end to one that is no worse.

Main definitions:

* `RestatementCandidate`, `RestatementPair` — a candidate as the match reads it, and a pair;
* `selectPairs` — the matching;
* `Admissible` — what a pair must meet, said of the pair alone;
* `AtLeastAsGood` — key-equal, or of no smaller cosine than a pair that is not.

Main results:

* `mem_restatementOptions` — the pairs gone through are the admissible ones;
* `selectPairs_stable` — **the matching is one-to-one, and no pair it leaves out has both ends free or
  an end with a worse pair only**.
-/

import Mathlib.Data.Prod.Lex
import Mathlib.Data.String.Basic
import ParticlesEngine.Dict
import ParticlesEngine.DuplicateSuppression
import ParticlesEngine.GreedyMatching

set_option relaxedAutoImplicit false
set_option autoImplicit false

open SortBy Dict GreedyMatching

namespace ParticlesEngine

namespace RestatementPairs

/-- One candidate of the pass, as the match reads it. -/
structure RestatementCandidate where
  content : String
  holder : Option String
  embedding : Option Embedding
  /-- a candidate that never takes part in reconciliation -/
  skip : Bool := false
  deriving DecidableEq, Repr

/-- A candidate and the earlier-generation claim it may restate. -/
structure RestatementPair where
  /-- the candidate's position in the pass -/
  index : ℕ
  candidate : String
  existing : Particle
  cosine : ℚ
  /-- the two texts are one sentence under the identity key -/
  keyed : Bool
  deriving DecidableEq

section Match

variable (core : CorePackage) (candidates : List RestatementCandidate)
  (eligible : List (Particle × Option Embedding)) (floor : ℚ)

/-- The normal form of each eligible claim, by id. -/
def restatementForms : String → Option String :=
  dictOf (eligible.map fun e => (e.1.id, core.normalizeContent e.1.content))

/-- The pair of a candidate and an eligible claim, if the two may match. -/
def restatementOption (index : ℕ) (candidate : RestatementCandidate)
    (entry : Particle × Option Embedding) : Option RestatementPair :=
  if core.stanceHolder entry.1 ≠ candidate.holder then none
  else
    let keyed : Bool :=
      restatementForms core eligible entry.1.id = some (core.normalizeContent candidate.content)
    match candidate.embedding, entry.2 with
    | some vector, some emb =>
        let cosine := core.cosineSimilarity vector emb
        if keyed || floor ≤ cosine then some ⟨index, candidate.content, entry.1, cosine, keyed⟩
        else none
    | _, _ => if keyed then some ⟨index, candidate.content, entry.1, 1, keyed⟩ else none

/-- All pairs that may match, candidate after candidate. -/
def restatementOptions : List RestatementPair :=
  candidates.zipIdx.flatMap fun item =>
    if item.1.skip then []
    else eligible.filterMap (restatementOption core eligible floor item.2 item.1)

/-- Key-equal pairs first, then by descending cosine. -/
def RestatementPair.rank (pair : RestatementPair) : Bool ×ₗ ℚ ×ₗ ℕ ×ₗ String :=
  toLex (!pair.keyed, toLex (-pair.cosine, toLex (pair.index, pair.existing.id)))

/-- **`select_pairs`.** -/
def selectPairs : List RestatementPair :=
  greedy RestatementPair.index (fun pair => pair.existing.id) [] []
    (sortBy RestatementPair.rank (restatementOptions core candidates eligible floor))

end Match

/-! ### The pairs gone through -/

section Spec

variable {core : CorePackage} {candidates : List RestatementCandidate}
  {eligible : List (Particle × Option Embedding)} {floor : ℚ}

/-- The cosine of a candidate and an eligible claim, where both have a vector. -/
def restatementCosine (core : CorePackage) (candidate : RestatementCandidate)
    (entry : Particle × Option Embedding) : Option ℚ :=
  match candidate.embedding, entry.2 with
  | some vector, some emb => some (core.cosineSimilarity vector emb)
  | _, _ => none

/-- A pair that may match: of a candidate that takes part and an eligible claim, with one stance holder,
and key-equal or with a cosine that reaches the floor. -/
def Admissible (core : CorePackage) (candidates : List RestatementCandidate)
    (eligible : List (Particle × Option Embedding)) (floor : ℚ) (pair : RestatementPair) : Prop :=
  ∃ candidate entry, candidates[pair.index]? = some candidate ∧ entry ∈ eligible ∧
    candidate.skip = false ∧ pair.candidate = candidate.content ∧ pair.existing = entry.1 ∧
    core.stanceHolder entry.1 = candidate.holder ∧
    (pair.keyed = true ↔
      core.normalizeContent entry.1.content = core.normalizeContent candidate.content) ∧
    pair.cosine = (restatementCosine core candidate entry).getD 1 ∧
    (pair.keyed = true ∨ ∃ cosine, restatementCosine core candidate entry = some cosine ∧
      floor ≤ cosine)

/-- A pair wins over another when it is key-equal, or neither is and its cosine is no smaller. -/
def RestatementPair.AtLeastAsGood (pair other : RestatementPair) : Prop :=
  pair.keyed = true ∨ other.keyed = false ∧ other.cosine ≤ pair.cosine

/-- The normal form found under the id of an eligible claim is that of its content. -/
theorem restatementForms_eq (hids : (eligible.map fun e => e.1.id).Nodup)
    {entry : Particle × Option Embedding} (hentry : entry ∈ eligible) :
    restatementForms core eligible entry.1.id = some (core.normalizeContent entry.1.content) := by
  refine dictOf_eq_some (List.mem_map.2 ⟨entry, hentry, rfl⟩) fun form hform => ?_
  obtain ⟨other, hother, heq⟩ := List.mem_map.1 hform
  obtain ⟨hid, rfl⟩ := Prod.mk.inj heq
  rw [List.inj_on_of_nodup_map hids hother hentry hid]

theorem restatementOption_eq_some (hids : (eligible.map fun e => e.1.id).Nodup)
    {entry : Particle × Option Embedding} (hentry : entry ∈ eligible) {index : ℕ}
    {candidate : RestatementCandidate} {pair : RestatementPair} :
    restatementOption core eligible floor index candidate entry = some pair ↔
      pair.index = index ∧ pair.candidate = candidate.content ∧ pair.existing = entry.1 ∧
        core.stanceHolder entry.1 = candidate.holder ∧
        (pair.keyed = true ↔
          core.normalizeContent entry.1.content = core.normalizeContent candidate.content) ∧
        pair.cosine = (restatementCosine core candidate entry).getD 1 ∧
        (pair.keyed = true ∨ ∃ cosine, restatementCosine core candidate entry = some cosine ∧
          floor ≤ cosine) := by
  obtain ⟨i, content, existing, cosine, keyed⟩ := pair
  simp only [restatementOption, restatementCosine, restatementForms_eq hids hentry,
    Option.some.injEq]
  by_cases hholder : core.stanceHolder entry.1 = candidate.holder
  · by_cases hkey : core.normalizeContent entry.1.content = core.normalizeContent candidate.content
    · cases candidate.embedding <;> cases entry.2 <;> cases keyed <;> simp [hholder, hkey] <;> grind
    · cases candidate.embedding <;> cases entry.2 <;> cases keyed <;> simp [hholder, hkey]
      grind
  · simp [hholder]

/-- **The pairs gone through are the admissible ones.** -/
theorem mem_restatementOptions (hids : (eligible.map fun e => e.1.id).Nodup) {pair : RestatementPair} :
    pair ∈ restatementOptions core candidates eligible floor ↔
      Admissible core candidates eligible floor pair := by
  simp only [restatementOptions, List.mem_flatMap, List.mem_zipIdx_iff_getElem?]
  constructor
  · rintro ⟨⟨candidate, index⟩, hcandidate, hpair⟩
    dsimp only at hcandidate hpair
    split_ifs at hpair with hskip
    · cases hpair
    · obtain ⟨entry, hentry, hoption⟩ := List.mem_filterMap.1 hpair
      obtain ⟨rfl, hrest⟩ := (restatementOption_eq_some hids hentry).1 hoption
      exact ⟨candidate, entry, hcandidate, hentry, by simpa using hskip, hrest⟩
  · rintro ⟨candidate, entry, hcandidate, hentry, hskip, hrest⟩
    refine ⟨(candidate, pair.index), hcandidate, ?_⟩
    simp only [hskip, Bool.false_eq_true, if_false]
    exact List.mem_filterMap.2
      ⟨entry, hentry, (restatementOption_eq_some hids hentry).2 ⟨rfl, hrest⟩⟩

/-- What is ranked before a pair is at least as good. -/
theorem atLeastAsGood_of_rank_le {pair other : RestatementPair} (h : pair.rank ≤ other.rank) :
    pair.AtLeastAsGood other := by
  unfold RestatementPair.rank at h
  rcases Prod.Lex.toLex_le_toLex.1 h with hlt | ⟨heq, hle⟩
  · left
    cases hkeyed : pair.keyed
    · simp [hkeyed, Bool.lt_iff] at hlt
    · rfl
  · cases hkeyed : pair.keyed
    · right
      rw [hkeyed] at heq
      refine ⟨by simpa using heq.symm, ?_⟩
      rcases Prod.Lex.toLex_le_toLex.1 hle with hcosine | ⟨hcosine, -⟩
      · exact (neg_lt_neg_iff.1 hcosine).le
      · exact (neg_inj.1 hcosine).ge
    · exact Or.inl hkeyed

/-- **An admissible pair that is left out has an end in a pair that is at least as good.** -/
theorem exists_better_of_left_out (hids : (eligible.map fun e => e.1.id).Nodup)
    {pair : RestatementPair} (hpair : Admissible core candidates eligible floor pair)
    (hout : pair ∉ selectPairs core candidates eligible floor) :
    ∃ other ∈ selectPairs core candidates eligible floor,
      (other.index = pair.index ∨ other.existing.id = pair.existing.id) ∧
        other.AtLeastAsGood pair := by
  have hin : pair ∈ sortBy RestatementPair.rank
      (restatementOptions core candidates eligible floor) :=
    mem_sortBy.2 ((mem_restatementOptions hids).2 hpair)
  rcases exists_better_of_not_mem (pairwise_sortBy RestatementPair.rank _) hin hout with
    hleft | hright | ⟨other, hother, hrank, hends⟩
  · cases hleft
  · cases hright
  · exact ⟨other, hother, hends, atLeastAsGood_of_rank_le hrank⟩

end Spec

/-- **The matching is one-to-one, and a pair it leaves out has an end in a pair that is at least as
good.** -/
theorem selectPairs_stable (core : CorePackage) (candidates : List RestatementCandidate)
    (eligible : List (Particle × Option Embedding)) (floor : ℚ)
    (hids : (eligible.map fun e => e.1.id).Nodup) :
    ((selectPairs core candidates eligible floor).map RestatementPair.index).Nodup ∧
      ((selectPairs core candidates eligible floor).map fun pair => pair.existing.id).Nodup ∧
      (∀ pair ∈ selectPairs core candidates eligible floor,
        Admissible core candidates eligible floor pair) ∧
      (∀ pair, Admissible core candidates eligible floor pair →
        pair.index ∈ (selectPairs core candidates eligible floor).map RestatementPair.index ∨
          pair.existing.id ∈
            (selectPairs core candidates eligible floor).map fun pair => pair.existing.id) ∧
      ∀ pair, Admissible core candidates eligible floor pair →
        pair ∉ selectPairs core candidates eligible floor →
          ∃ other ∈ selectPairs core candidates eligible floor,
            (other.index = pair.index ∨ other.existing.id = pair.existing.id) ∧
              (pair.keyed = true → other.keyed = true) ∧
              (other.keyed = true ∨ pair.cosine ≤ other.cosine) := by
  refine ⟨nodup_left _ _ _, nodup_right _ _ _, fun pair hpair => ?_, fun pair hpair => ?_,
    fun pair hpair hout => ?_⟩
  · exact (mem_restatementOptions hids).1 (mem_sortBy.1 ((greedy_sublist _ _ _).subset hpair))
  · by_cases hin : pair ∈ selectPairs core candidates eligible floor
    · exact Or.inl (List.mem_map_of_mem hin)
    · obtain ⟨other, hother, hends, -⟩ := exists_better_of_left_out hids hpair hin
      rcases hends with heq | heq
      · exact Or.inl (List.mem_map.2 ⟨other, hother, heq⟩)
      · exact Or.inr (List.mem_map.2 ⟨other, hother, heq⟩)
  · obtain ⟨other, hother, hends, hgood⟩ := exists_better_of_left_out hids hpair hout
    refine ⟨other, hother, hends, fun hkeyed => ?_, hgood.imp_right And.right⟩
    rcases hgood with hother | ⟨hnot, -⟩
    · exact hother
    · rw [hkeyed] at hnot
      cases hnot

/-- A candidate that is one sentence with the second claim, and near to the first. -/
def reworded : List RestatementCandidate := [⟨"same", none, some [1], false⟩]

/-- Two earlier claims, both with vectors. -/
def earlierClaims : List (Particle × Option Embedding) :=
  [({ id := "p1", content := "near" }, some [1]), ({ id := "p2", content := "same" }, some [1 / 2])]

theorem selectPairs_stable_reworded :
    (selectPairs .verbatim reworded earlierClaims (1 / 4)).map
        (fun pair => (pair.index, pair.existing.id)) = [(0, "p2")] ∧
      ∀ pair ∈ selectPairs .verbatim reworded earlierClaims (1 / 4),
        Admissible .verbatim reworded earlierClaims (1 / 4) pair :=
  ⟨by decide +kernel,
    (selectPairs_stable .verbatim reworded earlierClaims (1 / 4) (by decide)).2.2.1⟩

end RestatementPairs

end ParticlesEngine
