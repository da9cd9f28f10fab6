/-
**Exact duplicates.**

Before any conflict search, a write path asks whether the store already holds the very claim it is
about to write: same normalised content, same subjects, same stance holder.  `DuplicateIndex` is
the in-memory index that answers, built from one probe of the store by content hash and kept up by
the pass itself; a second index of the same class holds the claims a person retired.  The core
package's functions enter as the fields of `CorePackage`.

Main definitions:

* `CorePackage` — what the write paths call from the packages outside this repository;
* `particleKey`, `isSuppressionEligible` — the identity of a claim, and which claims have one;
* `DuplicateIndex` — the index, with `add` and `find`;
* `buildDuplicateIndex`, `buildRetiredValueIndex` — the two indexes of a pass.

Main results:

* `DuplicateIndex.find_of` — **the index finds the first eligible particle with the same key**;
* `find_buildDuplicateIndex` — what the index built from a store finds is a live twin.
-/

import Mathlib.Data.Finset.Insert
import Mathlib.Data.List.AList
import ParticlesEngine.EmbeddingLoader
import ParticlesEngine.ParticleStore

set_option relaxedAutoImplicit false
set_option autoImplicit false

namespace ParticlesEngine

/-- The structured properties of a particle, as key and JSON text. -/
abbrev Properties := List (String × String)

/-- Python's `properties[key] = value`: in place, or at the end. -/
def setProperty (properties : Properties) (key value : String) : Properties :=
  if properties.any fun entry => entry.1 = key then
    properties.map fun entry => if entry.1 = key then (key, value) else entry
  else properties ++ [(key, value)]

/-- The annotation that a folded restatement leaves. -/
def RESTATED_AS_KEY : String := "restated_as"

/-- What the write paths call from the core, extraction and embeddings packages.  The readers of the
properties read the stance, scope and polarity keys. -/
structure CorePackage where
  /-- the normal form of a content, which the identity key compares -/
  normalizeContent : String → String
  digest : String → String
  isTruthApt : AssertionModality → Bool
  holderFromProperties : Properties → Option String
  stanceHolder : Particle → Option String
  isExcludedDocumentMeta : Properties → Bool
  isNonAsserted : Properties → Bool
  isGenericClaim : String → Bool
  /-- clamped to `[0, 1]` -/
  cosineSimilarity : Embedding → Embedding → ℚ
  /-- a hexadecimal digest -/
  digest_ne : ∀ content, digest content ≠ ""
  holder_restated : ∀ properties value,
    holderFromProperties (setProperty properties RESTATED_AS_KEY value) =
      holderFromProperties properties
  meta_restated : ∀ properties value,
    isExcludedDocumentMeta (setProperty properties RESTATED_AS_KEY value) =
      isExcludedDocumentMeta properties
  asserted_restated : ∀ properties value,
    isNonAsserted (setProperty properties RESTATED_AS_KEY value) = isNonAsserted properties

/-- Normalised content, subject-id set, stance holder. -/
abbrev DuplicateKey := String × Finset String × Option String

namespace CorePackage

variable (core : CorePackage)

/-- `content_hash`: the digest of the normalised content. -/
def contentHash (content : String) : String := core.digest (core.normalizeContent content)

/-- `duplicate_key`. -/
def duplicateKey (content : String) (subjectIds : List String) (holder : Option String) :
    DuplicateKey :=
  (core.normalizeContent content, subjectIds.toFinset, holder)

/-- `is_suppression_eligible`: truth-apt, asserted, and not about the document itself. -/
def isSuppressionEligible (p : Particle) : Bool :=
  core.isTruthApt p.assertionModality &&
    !(core.isExcludedDocumentMeta p.properties || core.isNonAsserted p.properties)

/-- `particle_key`. -/
def particleKey (p : Particle) : DuplicateKey :=
  core.duplicateKey p.content p.subjectIds (core.holderFromProperties p.properties)

/-- Two claims with one key have one content hash. -/
theorem contentHash_eq_of_particleKey_eq {p q : Particle}
    (h : core.particleKey p = core.particleKey q) :
    core.contentHash p.content = core.contentHash q.content :=
  congrArg core.digest (congrArg Prod.fst h)

end CorePackage

/-- A core package that compares contents as they are and lets every claim be one. -/
def CorePackage.verbatim : CorePackage where
  normalizeContent := id
  digest content := "#" ++ content
  isTruthApt _ := true
  holderFromProperties _ := none
  stanceHolder _ := none
  isExcludedDocumentMeta _ := false
  isNonAsserted _ := false
  isGenericClaim _ := false
  -- the cosine of two unit vectors
  cosineSimilarity a b := max 0 (min 1 (List.zipWith (· * ·) a b).sum)
  digest_ne content := by
    rw [Ne, ← String.toList_inj]
    simp
  holder_restated _ _ := rfl
  meta_restated _ _ := rfl
  asserted_restated _ _ := rfl

/-! ### The index -/

/-- The identity index of one write pass. -/
structure DuplicateIndex where
  byKey : AList fun _ : DuplicateKey => Particle := ∅
  excludeIds : List String := []

namespace DuplicateIndex

variable (core : CorePackage)

/-- Register a particle as a suppression target; the first one of a key stays. -/
def add (index : DuplicateIndex) (p : Particle) : DuplicateIndex :=
  if p.id ∈ index.excludeIds ∨ ¬ core.isSuppressionEligible p then index
  else if core.particleKey p ∈ index.byKey then index
  else { index with byKey := index.byKey.insert (core.particleKey p) p }

/-- Register what there is to register. -/
def addAll (index : DuplicateIndex) (ps : Option Particle) : DuplicateIndex :=
  ps.elim index (index.add core)

/-- The particle already holding this exact claim, if any. -/
def find (index : DuplicateIndex) (p : Particle) : Option Particle :=
  if core.isSuppressionEligible p then index.byKey.lookup (core.particleKey p) else none

/-- The constructor: register the existing particles one by one. -/
def of (existing : List Particle) (excludeIds : List String) : DuplicateIndex :=
  existing.foldl (add core) { excludeIds := excludeIds }

variable {core} {index : DuplicateIndex} {p q : Particle}

@[simp] theorem excludeIds_add : (index.add core p).excludeIds = index.excludeIds := by
  unfold add
  split_ifs <;> rfl

/-- What an index holds under a key once a particle is registered. -/
theorem lookup_add (key : DuplicateKey) :
    (index.add core p).byKey.lookup key = (index.byKey.lookup key).or
      (if p.id ∉ index.excludeIds ∧ core.isSuppressionEligible p = true ∧ core.particleKey p = key
        then some p else none) := by
  unfold add
  by_cases hskip : p.id ∈ index.excludeIds ∨ ¬ core.isSuppressionEligible p = true
  · -- refused: excluded or not eligible
    rw [if_pos hskip, if_neg (by tauto), Option.or_none]
  have hallowed : p.id ∉ index.excludeIds ∧ core.isSuppressionEligible p = true := by
    simpa [not_or] using hskip
  rw [if_neg hskip]
  by_cases hmem : core.particleKey p ∈ index.byKey
  · -- the key is taken
    rw [if_pos hmem]
    by_cases hkey : core.particleKey p = key
    · subst hkey
      obtain ⟨held, hheld⟩ := Option.isSome_iff_exists.1 (AList.lookup_isSome.2 hmem)
      rw [hheld, Option.some_or]
    · rw [if_neg (by tauto), Option.or_none]
  · rw [if_neg hmem]
    by_cases hkey : core.particleKey p = key
    · subst hkey
      rw [AList.lookup_insert, AList.lookup_eq_none.2 hmem, if_pos ⟨hallowed.1, hallowed.2, rfl⟩,
        Option.none_or]
    · rw [AList.lookup_insert_ne (Ne.symm hkey), if_neg (by tauto), Option.or_none]

theorem lookup_foldl_add (existing : List Particle) (key : DuplicateKey) :
    ∀ index : DuplicateIndex, (existing.foldl (add core) index).byKey.lookup key =
      (index.byKey.lookup key).or (existing.find? fun q =>
        q.id ∉ index.excludeIds ∧ core.isSuppressionEligible q = true ∧
          core.particleKey q = key) := by
  induction existing with
  | nil => intro index; simp
  | cons q existing ih =>
      intro index
      rw [List.foldl_cons, ih, lookup_add, excludeIds_add, Option.or_assoc, List.find?_cons]
      congr 1
      split_ifs with hq
      · simp [hq]
      · rw [Option.none_or, decide_eq_false hq]

/-- **The index of a list finds its first particle with the same key**, among those that are
eligible and not excluded. -/
theorem find_of (existing : List Particle) (excludeIds : List String) (p : Particle) :
    (of core existing excludeIds).find core p =
      if core.isSuppressionEligible p then existing.find? fun q =>
        q.id ∉ excludeIds ∧ core.isSuppressionEligible q = true ∧
          core.particleKey q = core.particleKey p
      else none := by
  unfold find of
  rw [lookup_foldl_add]
  simp

@[simp] theorem excludeIds_of (existing : List Particle) (excludeIds : List String) :
    (of core existing excludeIds).excludeIds = excludeIds := by
  have hfold : ∀ index : DuplicateIndex,
      (existing.foldl (add core) index).excludeIds = index.excludeIds := by
    induction existing with
    | nil => exact fun _ => rfl
    | cons p existing ih => exact fun index => (ih _).trans excludeIds_add
  exact hfold _

/-- What an index finds once a particle is registered. -/
theorem find_add (index : DuplicateIndex) (p q : Particle) :
    (index.add core q).find core p = (index.find core p).or
      (if q.id ∉ index.excludeIds ∧ core.isSuppressionEligible q = true ∧
          core.isSuppressionEligible p = true ∧ core.particleKey q = core.particleKey p
        then some q else none) := by
  unfold find
  by_cases hp : core.isSuppressionEligible p = true
  · rw [if_pos hp, if_pos hp, lookup_add]
    simp only [hp, true_and]
  · simp [hp]

@[simp] theorem excludeIds_addAll (index : DuplicateIndex) (ps : Option Particle) :
    (index.addAll core ps).excludeIds = index.excludeIds := by
  cases ps with
  | none => rfl
  | some p => exact excludeIds_add

/-- What an index finds once what there is to register is registered. -/
theorem find_addAll_eq_some {index : DuplicateIndex} {ps : Option Particle} {p q : Particle} :
    (index.addAll core ps).find core p = some q ↔ index.find core p = some q ∨
      index.find core p = none ∧ ps = some q ∧ q.id ∉ index.excludeIds ∧
        core.isSuppressionEligible q = true ∧ core.isSuppressionEligible p = true ∧
        core.particleKey q = core.particleKey p := by
  cases ps with
  | none => simp [addAll]
  | some r =>
      rw [addAll, Option.elim_some, find_add, Option.or_eq_some_iff, Option.ite_none_right_eq_some,
        Option.some.injEq]
      constructor
      · rintro (hq | ⟨hnone, hr, rfl⟩)
        · exact Or.inl hq
        · exact Or.inr ⟨hnone, rfl, hr⟩
      · rintro (hq | ⟨hnone, rfl, hr⟩)
        · exact Or.inl hq
        · exact Or.inr ⟨hnone, hr, rfl⟩

@[simp] theorem find_empty : ({} : DuplicateIndex).find core p = none := by
  simp [find]

theorem find_eq_none_of_not_eligible (h : ¬ core.isSuppressionEligible p) :
    index.find core p = none := if_neg h

end DuplicateIndex

/-! ### The store's probes -/

/-- `get_active_particles_by_content_hashes`.  The rows of one hash, which alone compete for a key,
come in the table's order. -/
def getActiveParticlesByContentHashes (store : Store) (contentHashes : List String) :
    List Particle :=
  (store.particles.rows.filter fun row => row.model.status = .ACTIVE ∧
    ∃ hash ∈ contentHashes, hash ≠ "" ∧ row.contentNormHash = some hash).map ParticleRow.toModel

/-- `get_particles_by_content_hashes_and_state`: one probe for each state, in turn. -/
def getParticlesByContentHashesAndState (store : Store) (contentHashes : List String)
    (states : List (Status × StatusReason)) : List Particle :=
  states.flatMap fun state =>
    (store.particles.rows.filter fun row => row.model.status = state.1 ∧
      row.model.statusReason = some state.2 ∧
      ∃ hash ∈ contentHashes, hash ≠ "" ∧ row.contentNormHash = some hash).map ParticleRow.toModel

/-- `get_retired_at`. -/
def Store.getRetiredAt (store : Store) (particleId : String) : Option Instant :=
  (store.get? particleId).bind ParticleRow.retiredAt

/-! ### The indexes of a pass -/

/-- The retirements that encode a judgment about the value. -/
def JUDGMENT_RETIREMENTS : List (Status × StatusReason) :=
  [(.RETRACTED, .EXPLICIT_RETRACTION), (.SUPERSEDED, .EXPLICIT_SUPERSESSION),
    (.PROVENANCE_STALE, .CONFLICT_RESOLVED)]

/-- A quarantined row that awaits review. -/
def PENDING_HOLD : List (Status × StatusReason) := [(.PROVENANCE_STALE, .CONFLICT_PENDING)]

/-- The asserter an interchange import stamps. -/
def IMPORTED_BY : String := "interchange-import"

/-- `is_judgment_retired`. -/
def Particle.isJudgmentRetired (p : Particle) : Bool :=
  JUDGMENT_RETIREMENTS.any fun state => p.status = state.1 ∧ p.statusReason = some state.2

/-- `is_pending_hold`. -/
def Particle.isPendingHold (p : Particle) : Bool :=
  PENDING_HOLD.any fun state => p.status = state.1 ∧ p.statusReason = some state.2

/-- `_status_came_with_a_bundle`: an imported row that never left ACTIVE in this store. -/
def statusCameWithABundle (store : Store) (p : Particle) : Bool :=
  p.assertedBy = IMPORTED_BY && store.getRetiredAt p.id = none

section Build

variable (core : CorePackage) (store : Store)

/-- `build_duplicate_index`. -/
def buildDuplicateIndex (contents : List String) (excludeIds : List String) : DuplicateIndex :=
  .of core (getActiveParticlesByContentHashes store (contents.map core.contentHash)) excludeIds

/-- The rows of the retired-value index, pending holds first. -/
def retiredValueRows (contents : List String) : List Particle :=
  let hashes := contents.map core.contentHash
  (getParticlesByContentHashesAndState store hashes PENDING_HOLD ++
    getParticlesByContentHashesAndState store hashes JUDGMENT_RETIREMENTS).filter fun p =>
      !statusCameWithABundle store p

/-- `build_retired_value_index`. -/
def buildRetiredValueIndex (contents : List String) (excludeIds : List String) :
    DuplicateIndex :=
  .of core (retiredValueRows core store contents) excludeIds

variable {core store}

theorem mem_getActiveParticlesByContentHashes {hashes : List String} {q : Particle} :
    q ∈ getActiveParticlesByContentHashes store hashes ↔
      ∃ row ∈ store.particles.rows, row.model = q ∧ q.status = .ACTIVE ∧
        ∃ hash ∈ hashes, hash ≠ "" ∧ row.contentNormHash = some hash := by
  simp only [getActiveParticlesByContentHashes, List.mem_map, List.mem_filter, decide_eq_true_eq,
    ParticleRow.toModel]
  constructor
  · rintro ⟨row, ⟨hrow, hactive, hhash⟩, rfl⟩
    exact ⟨row, hrow, rfl, hactive, hhash⟩
  · rintro ⟨row, hrow, rfl, hactive, hhash⟩
    exact ⟨row, ⟨hrow, hactive, hhash⟩, rfl⟩

/-- **What the index of a store finds** is an ACTIVE, eligible particle with the same key. -/
theorem find_buildDuplicateIndex {contents excludeIds : List String} {p q : Particle}
    (h : (buildDuplicateIndex core store contents excludeIds).find core p = some q) :
    core.isSuppressionEligible p = true ∧ core.isSuppressionEligible q = true ∧
      q.id ∉ excludeIds ∧ core.particleKey q = core.particleKey p ∧
      ∃ row, store.get? q.id = some row ∧ row.model = q ∧ q.status = .ACTIVE := by
  rw [buildDuplicateIndex, DuplicateIndex.find_of] at h
  split_ifs at h with heligible
  have hq := List.find?_some h
  simp only [decide_eq_true_eq] at hq
  obtain ⟨row, hrow, rfl, hactive, -⟩ :=
    mem_getActiveParticlesByContentHashes.1 (List.mem_of_find?_eq_some h)
  exact ⟨heligible, hq.2.1, hq.1, hq.2.2, row, ParticleTable.get?_id hrow, rfl, hactive⟩

/-- The row states the claim: its text, under its key, where both have one. -/
def StatedBy (core : CorePackage) (p : Particle) (row : ParticleRow) : Prop :=
  row.contentNormHash = some (core.contentHash p.content) ∧
    core.isSuppressionEligible row.model = true ∧ core.isSuppressionEligible p = true ∧
    core.particleKey row.model = core.particleKey p

/-- An ACTIVE row states the claim. -/
def HasLiveTwin (core : CorePackage) (store : Store) (p : Particle) : Prop :=
  ∃ row ∈ store.particles.rows, row.model.status = .ACTIVE ∧ StatedBy core p row

/-- A row quarantined in this store states the claim, and awaits review. -/
def HasOpenHold (core : CorePackage) (store : Store) (p : Particle) : Prop :=
  ∃ row ∈ store.particles.rows, row.model.isPendingHold = true ∧
    statusCameWithABundle store row.model = false ∧ StatedBy core p row

instance (core : CorePackage) (p : Particle) (row : ParticleRow) :
    Decidable (StatedBy core p row) := by
  unfold StatedBy
  infer_instance

instance (core : CorePackage) (store : Store) (p : Particle) :
    Decidable (HasLiveTwin core store p) := by
  unfold HasLiveTwin
  infer_instance

instance (core : CorePackage) (store : Store) (p : Particle) :
    Decidable (HasOpenHold core store p) := by
  unfold HasOpenHold
  infer_instance

/-- **The index of one claim holds something exactly when the claim has a live twin.** -/
theorem isSome_find_buildDuplicateIndex {p : Particle} :
    ((buildDuplicateIndex core store [p.content] []).find core p).isSome = true ↔
      HasLiveTwin core store p := by
  rw [buildDuplicateIndex, DuplicateIndex.find_of]
  constructor
  · intro h
    have heligible : core.isSuppressionEligible p = true := by
      by_contra hnot
      rw [if_neg hnot] at h
      cases h
    rw [if_pos heligible] at h
    obtain ⟨q, hq, hkey⟩ := List.find?_isSome.1 h
    obtain ⟨row, hrow, rfl, hactive, hash, hhash, -, hstored⟩ :=
      mem_getActiveParticlesByContentHashes.1 hq
    simp only [decide_eq_true_eq] at hkey
    obtain rfl : hash = core.contentHash p.content := by simpa using hhash
    exact ⟨row, hrow, hactive, hstored, hkey.2.1, heligible, hkey.2.2⟩
  · rintro ⟨row, hrow, hactive, hstored, heligible, heligible', hkey⟩
    rw [if_pos heligible']
    refine List.find?_isSome.2 ⟨row.model, ?_, by simp [heligible, hkey]⟩
    exact mem_getActiveParticlesByContentHashes.2 ⟨row, hrow, rfl, hactive,
      core.contentHash p.content, by simp, core.digest_ne _, hstored⟩

theorem mem_getParticlesByContentHashesAndState {hashes : List String}
    {states : List (Status × StatusReason)} {q : Particle} :
    q ∈ getParticlesByContentHashesAndState store hashes states ↔
      ∃ state ∈ states, ∃ row ∈ store.particles.rows, row.model = q ∧ q.status = state.1 ∧
        q.statusReason = some state.2 ∧
        ∃ hash ∈ hashes, hash ≠ "" ∧ row.contentNormHash = some hash := by
  simp only [getParticlesByContentHashesAndState, List.mem_flatMap, List.mem_map, List.mem_filter,
    decide_eq_true_eq, ParticleRow.toModel]
  constructor
  · rintro ⟨state, hstate, row, ⟨hrow, hstatus, hreason, hhash⟩, rfl⟩
    exact ⟨state, hstate, row, hrow, rfl, hstatus, hreason, hhash⟩
  · rintro ⟨state, hstate, row, hrow, rfl, hstatus, hreason, hhash⟩
    exact ⟨state, hstate, row, ⟨hrow, hstatus, hreason, hhash⟩, rfl⟩

/-- A judgment-retired claim is not a pending hold. -/
theorem not_isPendingHold_of_isJudgmentRetired {p : Particle} {state : Status × StatusReason}
    (hstate : state ∈ JUDGMENT_RETIREMENTS) (hreason : p.statusReason = some state.2) :
    p.isPendingHold = false := by
  simp only [JUDGMENT_RETIREMENTS, List.mem_cons, List.not_mem_nil, or_false] at hstate
  rcases hstate with rfl | rfl | rfl <;> simp [Particle.isPendingHold, PENDING_HOLD, hreason]

/-- **The retired-value index of one claim holds an open hold exactly when there is one**: the holds
come first. -/
theorem find_buildRetiredValueIndex_isPendingHold {p : Particle} :
    (∃ twin, (buildRetiredValueIndex core store [p.content] []).find core p = some twin ∧
      twin.isPendingHold = true) ↔ HasOpenHold core store p := by
  rw [buildRetiredValueIndex, DuplicateIndex.find_of, retiredValueRows, List.filter_append,
    List.find?_append]
  constructor
  · rintro ⟨twin, hfind, hpending⟩
    split_ifs at hfind with heligible
    have hkey := List.find?_some ((List.find?_append ..).trans hfind)
    have hmem := List.mem_of_find?_eq_some ((List.find?_append ..).trans hfind)
    simp only [decide_eq_true_eq] at hkey
    rcases List.mem_append.1 hmem with hmem | hmem <;>
      obtain ⟨hmem, hbundle⟩ := List.mem_filter.1 hmem <;>
      obtain ⟨state, hstate, row, hrow, rfl, -, hreason, hash, hhash, -, hstored⟩ :=
        mem_getParticlesByContentHashesAndState.1 hmem
    · obtain rfl : hash = core.contentHash p.content := by simpa using hhash
      exact ⟨row, hrow, hpending, by simpa using hbundle, hstored, hkey.2.1, heligible, hkey.2.2⟩
    · rw [not_isPendingHold_of_isJudgmentRetired hstate hreason] at hpending
      cases hpending
  · rintro ⟨row, hrow, hpending, hbundle, hstored, heligible, heligible', hkey⟩
    rw [if_pos heligible']
    have hstate : row.model.status = .PROVENANCE_STALE ∧
        row.model.statusReason = some .CONFLICT_PENDING := by
      simpa [Particle.isPendingHold, PENDING_HOLD] using hpending
    have hmem : row.model ∈ (getParticlesByContentHashesAndState store
        ([p.content].map core.contentHash) PENDING_HOLD).filter fun q =>
          !statusCameWithABundle store q := by
      refine List.mem_filter.2 ⟨?_, by simp [hbundle]⟩
      exact mem_getParticlesByContentHashesAndState.2 ⟨_, List.mem_singleton_self _, row, hrow, rfl,
        hstate.1, hstate.2, core.contentHash p.content, by simp, core.digest_ne _, hstored⟩
    -- so one of the holds is found, before any judgment
    have hsome : (((getParticlesByContentHashesAndState store ([p.content].map core.contentHash)
        PENDING_HOLD).filter fun q => !statusCameWithABundle store q).find? fun q =>
          q.id ∉ ([] : List String) ∧ core.isSuppressionEligible q = true ∧
            core.particleKey q = core.particleKey p).isSome = true :=
      List.find?_isSome.2 ⟨row.model, hmem, by simp [heligible, hkey]⟩
    obtain ⟨twin, htwin⟩ := Option.isSome_iff_exists.1 hsome
    refine ⟨twin, by rw [htwin, Option.some_or], ?_⟩
    obtain ⟨hmem, -⟩ := List.mem_filter.1 (List.mem_of_find?_eq_some htwin)
    obtain ⟨state, hstate, row', -, rfl, hstatus, hreason, -⟩ :=
      mem_getParticlesByContentHashesAndState.1 hmem
    rw [PENDING_HOLD, List.mem_singleton] at hstate
    subst hstate
    simp [Particle.isPendingHold, PENDING_HOLD, hstatus, hreason]

/-- What the retired-value index finds is stored. -/
theorem isSome_get?_of_find_buildRetiredValueIndex {contents excludeIds : List String}
    {p twin : Particle}
    (h : (buildRetiredValueIndex core store contents excludeIds).find core p = some twin) :
    (store.get? twin.id).isSome = true := by
  rw [buildRetiredValueIndex, DuplicateIndex.find_of] at h
  split_ifs at h
  have hmem := List.mem_of_mem_filter (List.mem_of_find?_eq_some h)
  rcases List.mem_append.1 hmem with hmem | hmem <;>
    obtain ⟨-, -, row, hrow, rfl, -⟩ := mem_getParticlesByContentHashesAndState.1 hmem
  all_goals
    rw [show store.get? row.model.id = some row from ParticleTable.get?_id hrow]
    rfl

end Build

end ParticlesEngine
