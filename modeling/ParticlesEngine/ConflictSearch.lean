/-
**The conflict search.**

The search for the one stored claim that the conflict ladder runs a new claim against: the most
similar claim of the store above a similarity threshold, else the most similar one about the same
subject above a lower floor.  Both choose among the claims at or above the lower of the two floors,
the neighbourhood, and read nothing else of the candidates they are given.

Main definitions:

* `IngestEnv` — what the search reads of its process;
* `findConflict` — `_find_conflict`: the similarity-gated search;
* `SubjectIndex` — the subject-keyed search;
* `nearestConflict` — `_nearest_conflict`: one after the other, and the neighbourhood.

Main results:

* `nearestConflict_congr` — **the search depends on the neighbourhood alone**;
* `findConflict_filter`, `mem_candidates_filter` — what either search chooses it still chooses among
  fewer claims.
-/

import ParticlesEngine.Routing

set_option relaxedAutoImplicit false
set_option autoImplicit false

open SortBy

namespace ParticlesEngine

/-- What Python's text methods say about characters beyond ASCII. -/
structure PyText where
  casefold : String → String
  isspace : Char → Bool
  isalnum : Char → Bool

/-- What a write path reads of its process: the packages it calls and its settings. -/
structure IngestEnv where
  core : CorePackage
  cfg : IngestConfig
  text : PyText
  float32 : ℚ → ℚ
  /-- `get_embedding_model_id()` -/
  currentId : String

/-- A candidate: a particle and its decoded embedding. -/
abbrev EmbeddingPair := Particle × Embedding

/-- The persona Subject that a speaker-anchored claim is also keyed on. -/
structure SpeakerKey where
  subjectId : String
  /-- casefolded speaker references, longest first -/
  forms : List String
  deriving DecidableEq, Repr

/-! ### The key of the subject search -/

/-- `_POSSESSIVES`. -/
def POSSESSIVES : List String := ["'s", "\u2019s"]

/-- `speaker_opener`: the speaker reference that a content opens on, as it is spelled there. -/
def speakerOpener (text : PyText) (content : String) (forms : List String) : Option String :=
  let chars := content.toList.dropWhile text.isspace
  forms.findSome? fun form =>
    let head := String.ofList (chars.take form.length)
    if form = "" ∨ text.casefold head ≠ form then none
    else
      let rest := chars.drop form.length
      let possessive := String.ofList (rest.take 2) ∈ POSSESSIVES ∧
        ¬ ((rest.drop 2).take 1).any text.isalnum
      if (rest.take 1).any text.isspace ∨ possessive then some head else none

/-- `particle_subject_ids`: the subjects a particle is paired on. -/
def particleSubjectIds (text : PyText) (speaker : Option SpeakerKey) (p : Particle) :
    List String :=
  let sole := if p.subjectIds.length = 1 then p.subjectIds else []
  let keys :=
    match p.structuredSubjectId with
    | none => sole
    | some subjectId => if subjectId = "" then sole else [subjectId]
  match speaker with
  | none => keys
  | some speaker =>
      if speaker.subjectId ∈ p.subjectIds ∧ speaker.subjectId ∉ keys ∧
          (speakerOpener text p.content speaker.forms).isSome then
        keys ++ [speaker.subjectId]
      else keys

/-- `is_reconcilable`: truth-apt, no stance, asserted, and not about the document itself. -/
def CorePackage.isReconcilable (core : CorePackage) (p : Particle) : Bool :=
  core.isTruthApt p.assertionModality && (core.stanceHolder p).isNone &&
    !core.isExcludedDocumentMeta p.properties && !core.isNonAsserted p.properties

section Search

variable (env : IngestEnv)

/-! ### The similarity-gated search -/

/-- One existing claim in the loop of `_find_conflict`: the best similarity so far, and its claim. -/
def conflictStep (candidateEmb : Embedding) (stanceHolder : Option String)
    (generic : Option Bool) (best : ℚ × Option Particle) (pair : EmbeddingPair) :
    ℚ × Option Particle :=
  let holder := env.core.stanceHolder pair.1
  if ¬ env.core.isTruthApt pair.1.assertionModality then best
  -- a stance only conflicts with a stance of the same holder
  else if stanceHolder.isSome ≠ holder.isSome then best
  else if stanceHolder.isSome ∧ stanceHolder ≠ holder then best
  else
    let sim := env.core.cosineSimilarity candidateEmb pair.2
    if best.1 < sim then
      match generic with
      | none => (sim, some pair.1)
      | some generic =>
          if env.core.isGenericClaim pair.1.content ≠ generic then best else (sim, some pair.1)
    else best

/-- **`_find_conflict`**: the first of the most similar claims, at or above the threshold. -/
def findConflict (candidateEmb : Embedding) (existing : List EmbeddingPair)
    (stanceHolder : Option String) (generic : Option Bool) : Option Particle :=
  let best := existing.foldl (conflictStep env candidateEmb stanceHolder generic) (0, none)
  if existing = [] then none
  else if env.cfg.similarityThreshold ≤ best.1 then best.2 else none

/-! ### The subject-keyed search -/

/-- Reconcilable particles by the subjects they are paired on, in the order they were indexed. -/
structure SubjectIndex where
  bySubject : List (String × EmbeddingPair) := []
  /-- retired earlier in the same pass, and never offered again -/
  retired : List String := []

/-- `SubjectIndex.build`. -/
def SubjectIndex.build (pairs : List EmbeddingPair) (speaker : Option SpeakerKey) :
    SubjectIndex where
  bySubject := pairs.flatMap fun pair =>
    if env.core.isReconcilable pair.1 then
      (particleSubjectIds env.text speaker pair.1).map fun key => (key, pair)
    else []

/-- The pairs indexed under a subject. -/
def SubjectIndex.get (index : SubjectIndex) (subjectId : String) : List EmbeddingPair :=
  (index.bySubject.filter fun entry => entry.1 = subjectId).map Prod.snd

/-- One indexed pair in the loop of `candidates`: the pool with its scores, and the ids to skip. -/
def SubjectIndex.visit (embedding : Embedding) (floor : ℚ) (generic : Option Bool)
    (state : List (Particle × ℚ) × List String) (pair : EmbeddingPair) :
    List (Particle × ℚ) × List String :=
  let (pool, skip) := state
  let score := env.core.cosineSimilarity embedding pair.2
  if pair.1.id ∈ skip ∨ pair.1.id ∈ pool.map (·.1.id) then (pool, skip)
  else if floor ≤ score then
    if generic.isSome ∧ some (env.core.isGenericClaim pair.1.content) ≠ generic then
      (pool, skip ++ [pair.1.id])
    else (pool ++ [(pair.1, score)], skip)
  else (pool, skip)

/-- `SubjectIndex.candidates`: the most similar particles that share a subject, best first. -/
def SubjectIndex.candidates (index : SubjectIndex) (subjectIds : List String)
    (embedding : Embedding) (floor : ℚ) (limit : ℕ) (generic : Option Bool) : List Particle :=
  let pool := ((subjectIds.flatMap index.get).foldl (SubjectIndex.visit env embedding floor generic)
    ([], index.retired)).1
  ((sortBy (fun scored : Particle × ℚ => -scored.2) pool).take limit).map Prod.fst

/-! ### Both -/

/-- `_conflict_floor`: the lowest similarity at which the search can choose a claim. -/
def conflictFloor : ℚ :=
  if env.cfg.updateSupersession then min env.cfg.similarityThreshold env.cfg.subjectFloor
  else env.cfg.similarityThreshold

/-- Not excluded, and at or above the floor. -/
def isNear (emb : Embedding) (excludeIds : List String) (pair : EmbeddingPair) : Bool :=
  pair.1.id ∉ excludeIds ∧ conflictFloor env ≤ env.core.cosineSimilarity emb pair.2

/-- The claim chosen among the near ones. -/
def chooseConflict (speaker : Option SpeakerKey) (particle : Particle) (emb : Embedding)
    (near : List EmbeddingPair) : Option Particle :=
  let generic := env.core.isGenericClaim particle.content
  match findConflict env emb near none (some generic) with
  | some conflict => some conflict
  | none =>
      let subjectIds := particleSubjectIds env.text speaker particle
      if env.cfg.updateSupersession ∧ subjectIds ≠ [] then
        ((SubjectIndex.build env near speaker).candidates env subjectIds emb env.cfg.subjectFloor 1
          (some generic)).head?
      else none

/-- **`_nearest_conflict`**: the claim, and the ids of the neighbourhood it was chosen from. -/
def nearestConflict (speaker : Option SpeakerKey) (particle : Particle) (emb : Option Embedding)
    (pairs : List EmbeddingPair) (excludeIds : List String) : Option Particle × List String :=
  match emb with
  | none => (none, [])
  | some emb =>
      let near := pairs.filter (isNear env emb excludeIds)
      (chooseConflict env speaker particle emb near, near.map fun pair => pair.1.id)

end Search

variable {env : IngestEnv} {speaker : Option SpeakerKey} {particle : Particle}
  {emb : Option Embedding} {pairs pairs' : List EmbeddingPair} {excludeIds : List String}

/-- **The search depends on the neighbourhood alone.** -/
theorem nearestConflict_congr
    (h : ∀ e, emb = some e → pairs.filter (isNear env e excludeIds) =
      pairs'.filter (isNear env e excludeIds)) :
    nearestConflict env speaker particle emb pairs excludeIds =
      nearestConflict env speaker particle emb pairs' excludeIds := by
  cases emb with
  | none => rfl
  | some e => simp only [nearestConflict, h e rfl]

/-- Every near candidate is in the neighbourhood. -/
theorem mem_neighbourhood {e : Embedding} {pair : EmbeddingPair} (hpair : pair ∈ pairs)
    (hnear : isNear env e excludeIds pair = true) :
    pair.1.id ∈ (nearestConflict env speaker particle (some e) pairs excludeIds).2 :=
  List.mem_map_of_mem (List.mem_filter.2 ⟨hpair, hnear⟩)

/-! ### A conflict is a candidate -/

theorem mem_of_findConflict {e : Embedding} {holder : Option String} {generic : Option Bool}
    {c : Particle} (h : findConflict env e pairs holder generic = some c) :
    ∃ pair ∈ pairs, pair.1 = c := by
  -- the best claim so far is always one of those seen
  have hfold : ∀ (seen : List EmbeddingPair) (best : ℚ × Option Particle),
      (∀ q ∈ best.2, ∃ pair ∈ pairs, pair.1 = q) → (∀ pair ∈ seen, pair ∈ pairs) →
      ∀ q ∈ (seen.foldl (conflictStep env e holder generic) best).2, ∃ pair ∈ pairs, pair.1 = q := by
    intro seen
    induction seen with
    | nil => exact fun best hbest _ => hbest
    | cons pair seen ih =>
        intro best hbest hseen
        refine ih _ ?_ fun p hp => hseen p (List.mem_cons_of_mem _ hp)
        intro q hq
        have hpair : some pair.1 = some q → ∃ pair ∈ pairs, pair.1 = q := fun heq =>
          ⟨pair, hseen pair List.mem_cons_self, Option.some.inj heq⟩
        unfold conflictStep at hq
        cases generic <;> simp only at hq <;> split_ifs at hq <;>
          first | exact hbest q hq | exact hpair hq
  simp only [findConflict] at h
  split_ifs at h
  exact hfold pairs (0, none) (by simp) (fun _ hpair => hpair) c h

/-- What the subject index offers was indexed. -/
theorem mem_of_mem_candidates {skip subjectIds : List String} {e : Embedding} {floor : ℚ}
    {limit : ℕ} {generic : Option Bool} {c : Particle}
    (h : c ∈ { SubjectIndex.build env pairs speaker with retired := skip }.candidates env subjectIds
      e floor limit generic) : ∃ pair ∈ pairs, pair.1 = c := by
  have hindexed : ∀ pair ∈ subjectIds.flatMap (SubjectIndex.build env pairs speaker).get,
      pair ∈ pairs := by
    intro pair hpair
    obtain ⟨subjectId, -, hpair⟩ := List.mem_flatMap.1 hpair
    obtain ⟨entry, hentry, rfl⟩ := List.mem_map.1 hpair
    obtain ⟨source, hsource, hentry⟩ := List.mem_flatMap.1 (List.mem_filter.1 hentry).1
    split_ifs at hentry
    · obtain ⟨key, -, rfl⟩ := List.mem_map.1 hentry
      exact hsource
    · cases hentry
  -- the pool of the visit holds only indexed pairs
  have hfold : ∀ (visited : List EmbeddingPair) (state : List (Particle × ℚ) × List String),
      (∀ scored ∈ state.1, ∃ pair ∈ pairs, pair.1 = scored.1) →
      (∀ pair ∈ visited, pair ∈ pairs) →
      ∀ scored ∈ (visited.foldl (SubjectIndex.visit env e floor generic) state).1,
        ∃ pair ∈ pairs, pair.1 = scored.1 := by
    intro visited
    induction visited with
    | nil => exact fun state hstate _ => hstate
    | cons pair visited ih =>
        intro state hstate hvisited
        refine ih _ ?_ fun p hp => hvisited p (List.mem_cons_of_mem _ hp)
        obtain ⟨pool, skip⟩ := state
        intro scored hscored
        simp only [SubjectIndex.visit] at hscored
        split_ifs at hscored
        · exact hstate scored hscored
        · exact hstate scored hscored
        · rcases List.mem_append.1 hscored with hscored | hscored
          · exact hstate scored hscored
          · obtain rfl := List.mem_singleton.1 hscored
            exact ⟨pair, hvisited pair List.mem_cons_self, rfl⟩
        · exact hstate scored hscored
  obtain ⟨scored, hscored, rfl⟩ := List.mem_map.1 h
  exact hfold _ ([], skip) (by simp) hindexed scored (mem_sortBy.1 (List.mem_of_mem_take hscored))

/-- **The claim that a search finds is one of the candidates.** -/
theorem mem_of_nearestConflict {c : Particle}
    (h : (nearestConflict env speaker particle emb pairs excludeIds).1 = some c) :
    ∃ pair ∈ pairs, pair.1 = c := by
  cases emb with
  | none => cases h
  | some e =>
      have hnear : ∃ pair ∈ pairs.filter (isNear env e excludeIds), pair.1 = c := by
        simp only [nearestConflict, chooseConflict] at h
        split at h
        · next conflict hfind =>
            obtain rfl := Option.some.inj h
            exact mem_of_findConflict hfind
        · split_ifs at h
          exact mem_of_mem_candidates (List.mem_of_mem_head? h)
      obtain ⟨pair, hpair, rfl⟩ := hnear
      exact ⟨pair, List.mem_of_mem_filter hpair, rfl⟩

/-! ### A search among fewer claims -/

section Fewer

variable {q : String → Bool}

/-- The candidates whose id passes `q`. -/
def passing (q : String → Bool) (pairs : List EmbeddingPair) : List EmbeddingPair :=
  pairs.filter fun pair => q pair.1.id

/-- The claims that may conflict with a claim of that stance and that kind. -/
def isRival (env : IngestEnv) (holder : Option String) (generic : Option Bool) (p : Particle) :
    Bool :=
  env.core.isTruthApt p.assertionModality && holder.isSome = (env.core.stanceHolder p).isSome &&
    (holder.isSome → holder = env.core.stanceHolder p) &&
      ∀ kind ∈ generic, env.core.isGenericClaim p.content = kind

theorem conflictStep_eq (e : Embedding) (holder : Option String) (generic : Option Bool)
    (best : ℚ × Option Particle) (pair : EmbeddingPair) :
    conflictStep env e holder generic best pair =
      if isRival env holder generic pair.1 = true ∧
          best.1 < env.core.cosineSimilarity e pair.2 then
        (env.core.cosineSimilarity e pair.2, some pair.1)
      else best := by
  unfold conflictStep isRival
  cases generic <;> simp only <;> split_ifs <;> simp_all

/-- **The claim that the similarity search finds is found among fewer claims too**, since the best
of them so far never lies above the best of all. -/
theorem findConflict_filter {e : Embedding} {holder : Option String} {generic : Option Bool}
    {c : Particle} (h : findConflict env e pairs holder generic = some c) (hc : q c.id = true) :
    findConflict env e (passing q pairs) holder generic = some c := by
  have hfold : ∀ (seen : List EmbeddingPair) (best best' : ℚ × Option Particle),
      (best'.1 ≤ best.1 ∧ ((∀ p ∈ best.2, q p.id = true) → best' = best)) →
      let all := seen.foldl (conflictStep env e holder generic) best
      let few := (passing q seen).foldl (conflictStep env e holder generic) best'
      few.1 ≤ all.1 ∧ ((∀ p ∈ all.2, q p.id = true) → few = all) := by
    intro seen
    induction seen with
    | nil => exact fun best best' hbest => hbest
    | cons pair seen ih =>
        rintro best best' ⟨hle, hsame⟩
        by_cases hpair : q pair.1.id = true
        · have hfew : passing q (pair :: seen) = pair :: passing q seen := by
            simp [passing, hpair]
          rw [hfew]
          refine ih _ _ ?_
          rw [conflictStep_eq, conflictStep_eq]
          split_ifs with hfew' hall hall
          · exact ⟨le_refl _, fun _ => rfl⟩
          · -- the fewer take a claim that is not above the best of all
            refine ⟨not_lt.1 fun hlt => hall ⟨hfew'.1, hlt⟩, fun hbest => ?_⟩
            rw [hsame hbest] at hfew'
            exact absurd hfew' hall
          · exact absurd ⟨hall.1, hle.trans_lt hall.2⟩ hfew'
          · exact ⟨hle, hsame⟩
        · have hfew : passing q (pair :: seen) = passing q seen := by
            simp [passing, hpair]
          rw [hfew]
          refine ih _ _ ?_
          rw [conflictStep_eq]
          split_ifs with hall
          · exact ⟨hle.trans hall.2.le, fun hbest => absurd (hbest _ rfl) hpair⟩
          · exact ⟨hle, hsame⟩
  simp only [findConflict] at h ⊢
  split_ifs at h with hnil hthreshold
  have hmatch := (hfold pairs (0, none) (0, none) ⟨le_refl _, fun _ => rfl⟩).2 ?_
  · have hsome : passing q pairs ≠ [] := by
      intro hempty
      rw [hempty] at hmatch
      rw [← hmatch] at h
      cases h
    rw [if_neg hsome, hmatch, if_pos hthreshold, h]
  · intro p hp
    rw [h] at hp
    obtain rfl := Option.some.inj hp
    exact hc

/-- The pool of a visit of fewer claims, which skips what the whole visit does and maybe more, is
what the whole pool has of them. -/
theorem visit_filter {e : Embedding} {floor : ℚ} {generic : Option Bool} {skip skip' : List String}
    (hskip : ∀ id ∈ skip, q id = true → id ∈ skip') (visited : List EmbeddingPair) :
    ((passing q visited).foldl (SubjectIndex.visit env e floor generic) ([], skip')).1 =
      ((visited.foldl (SubjectIndex.visit env e floor generic) ([], skip)).1.filter
        fun scored => q scored.1.id && scored.1.id ∉ skip') := by
  have hfold : ∀ (visited : List EmbeddingPair) (all few : List (Particle × ℚ) × List String),
      few.1 = (all.1.filter fun scored => q scored.1.id && scored.1.id ∉ skip') →
      (∀ id, q id = true → (id ∈ few.2 ↔ id ∈ all.2 ∨ id ∈ skip')) →
      ((passing q visited).foldl (SubjectIndex.visit env e floor generic) few).1 =
        ((visited.foldl (SubjectIndex.visit env e floor generic) all).1.filter
          fun scored => q scored.1.id && scored.1.id ∉ skip') := by
    intro visited
    induction visited with
    | nil => exact fun all few hpool _ => hpool
    | cons pair visited ih =>
        rintro ⟨pool, skipped⟩ ⟨pool', skipped'⟩ hpool hskipped
        simp only at hpool hskipped
        by_cases hpair : q pair.1.id = true
        · have hfew : passing q (pair :: visited) = pair :: passing q visited := by
            simp [passing, hpair]
          rw [hfew, List.foldl_cons, List.foldl_cons]
          have hiff := hskipped _ hpair
          by_cases hout : pair.1.id ∈ skip'
          · -- the fewer skip it, and the filter drops it
            have hin : pair.1.id ∈ skipped' := hiff.2 (Or.inr hout)
            have hvisit : SubjectIndex.visit env e floor generic (pool', skipped') pair =
                (pool', skipped') := by
              simp [SubjectIndex.visit, hin]
            rw [hvisit]
            refine ih _ _ ?_ ?_
            · simp only [SubjectIndex.visit]
              split_ifs <;> simp [hpool, List.filter_append, hout]
            · intro id hid
              simp only [SubjectIndex.visit]
              split_ifs <;> simp only [hskipped id hid, List.mem_append, List.mem_singleton]
              constructor
              · rintro (h | h)
                · exact Or.inl (Or.inl h)
                · exact Or.inr h
              · rintro ((h | rfl) | h)
                · exact Or.inl h
                · exact Or.inr hout
                · exact Or.inr h
          · have hsame : pair.1.id ∈ skipped' ↔ pair.1.id ∈ skipped := by simp [hiff, hout]
            have hseen : pair.1.id ∈ pool'.map (·.1.id) ↔ pair.1.id ∈ pool.map (·.1.id) := by
              simp only [hpool, List.mem_map, List.mem_filter, Bool.and_eq_true,
                decide_eq_true_eq]
              constructor
              · rintro ⟨scored, ⟨hmem, -⟩, heq⟩
                exact ⟨scored, hmem, heq⟩
              · rintro ⟨scored, hmem, heq⟩
                exact ⟨scored, ⟨hmem, by rwa [heq], by rwa [heq]⟩, heq⟩
            refine ih _ _ ?_ ?_
            · simp only [SubjectIndex.visit, hsame, hseen]
              split_ifs <;> simp [hpool, List.filter_append, hpair, hout]
            · intro id hid
              simp only [SubjectIndex.visit, hsame, hseen]
              split_ifs <;> simp only [hskipped id hid, List.mem_append, List.mem_singleton]
              tauto
        · have hfew : passing q (pair :: visited) = passing q visited := by
            simp [passing, hpair]
          rw [hfew, List.foldl_cons]
          refine ih _ _ ?_ ?_
          · simp only [SubjectIndex.visit]
            split_ifs <;> simp [hpool, List.filter_append, hpair]
          · intro id hid
            have hne : id ≠ pair.1.id := fun heq => hpair (heq ▸ hid)
            simp only [SubjectIndex.visit]
            split_ifs <;> simp [hskipped id hid, hne]
  refine hfold visited ([], skip) ([], skip') (by simp) fun id hid => ?_
  constructor
  · exact Or.inr
  · rintro (h | h)
    · exact hskip id h hid
    · exact h

/-- The claims indexed under a subject, of fewer claims. -/
theorem get_build_passing (pairs : List EmbeddingPair) (subjectId : String) :
    (SubjectIndex.build env (passing q pairs) speaker).get subjectId =
      passing q ((SubjectIndex.build env pairs speaker).get subjectId) := by
  have hfilter : (SubjectIndex.build env (passing q pairs) speaker).bySubject =
      (SubjectIndex.build env pairs speaker).bySubject.filter fun entry => q entry.2.1.id := by
    simp only [SubjectIndex.build, passing, List.filter_flatMap]
    induction pairs with
    | nil => rfl
    | cons pair pairs ih =>
        rw [List.flatMap_cons, List.filter_cons, ← ih]
        cases hq : q pair.1.id <;> split_ifs <;>
          simp_all [List.filter_map, Function.comp_def]
  unfold SubjectIndex.get
  rw [hfilter]
  simp only [passing, List.filter_filter, List.filter_map, Function.comp_def]
  exact congrArg _ (List.filter_congr fun entry _ => Bool.and_comm _ _)

/-- **The claims that the subject search chooses are chosen among fewer claims too**, unless these
skip them. -/
theorem mem_candidates_filter {subjectIds : List String} {e : Embedding} {floor : ℚ} {limit : ℕ}
    {generic : Option Bool} {skip skip' : List String}
    (hskip : ∀ id ∈ skip, q id = true → id ∈ skip') {c : Particle} (hq : q c.id = true)
    (hc : c.id ∉ skip')
    (h : c ∈ { SubjectIndex.build env pairs speaker with retired := skip }.candidates env subjectIds
      e floor limit generic) :
    c ∈ { SubjectIndex.build env (passing q pairs) speaker with retired := skip' }.candidates env
      subjectIds e floor limit generic := by
  have hvisited : (subjectIds.flatMap
      { SubjectIndex.build env (passing q pairs) speaker with retired := skip' }.get) =
      passing q (subjectIds.flatMap
        { SubjectIndex.build env pairs speaker with retired := skip }.get) := by
    simp only [passing, List.filter_flatMap]
    exact List.flatMap_congr fun subjectId _ => get_build_passing pairs subjectId
  simp only [SubjectIndex.candidates] at h ⊢
  rw [hvisited, visit_filter hskip]
  obtain ⟨scored, hscored, rfl⟩ := List.mem_map.1 h
  exact List.mem_map_of_mem (mem_take_sortBy_filter _ (by simp [hq, hc]) hscored)

end Fewer

end ParticlesEngine
