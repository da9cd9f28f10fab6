/-
**Loading the ACTIVE candidates.**

The rows that a cosine search compares: ACTIVE, with an embedding, and embedded under the current
model.  Both loaders of `particle_store.py` return them in `(confidence_value, rowid)` order, the
one over the whole store and the one over a set of ids.

Main definitions:

* `candidateOrder` — the order of the loaders;
* `getActiveParticlesWithEmbeddings`, `getActiveParticlesWithEmbeddingsByIds` — the loaders.

Main results:

* `candidateRows_eq` — **a sorted list of exactly the wanted rows is the loader's**;
* `mem_getActiveParticlesWithEmbeddings` — what the full loader returns.
-/

import Mathlib.Data.Prod.Lex
import Mathlib.Algebra.Order.Ring.Rat
import ParticlesEngine.SortBy
import ParticlesEngine.Store

set_option relaxedAutoImplicit false
set_option autoImplicit false

open SortBy

namespace ParticlesEngine

/-- A decoded embedding. -/
abbrev Embedding := List ℚ

/-- The model a row without a model id is taken to have been embedded under. -/
def LEGACY_EMBEDDING_MODEL_ID : String := "all-MiniLM-L6-v2"

/-- Python's `value or default` on an optional string. -/
def orDefault (value : Option String) (default : String) : String :=
  match value with
  | none => default
  | some s => if s = "" then default else s

/-- The model a row was embedded under. -/
def ParticleRow.storedModelId (row : ParticleRow) : String :=
  orDefault row.embeddingModelId LEGACY_EMBEDDING_MODEL_ID

/-- The order of the loaders: confidence, then rowid. -/
def candidateOrder (row : ParticleRow) : ℚ ×ₗ ℕ := toLex ((row.model.confidence : ℚ), row.rowid)

theorem rowid_eq_of_candidateOrder_eq {row row' : ParticleRow}
    (h : candidateOrder row = candidateOrder row') : row.rowid = row'.rowid :=
  congrArg (fun x => (ofLex x).2) h

/-- The order tells the rows of a table apart. -/
theorem eq_of_candidateOrder_eq {t : ParticleTable} {row row' : ParticleRow} (h : row ∈ t.rows)
    (h' : row' ∈ t.rows) (heq : candidateOrder row = candidateOrder row') : row = row' :=
  ParticleTable.eq_of_rowid_eq h h' (rowid_eq_of_candidateOrder_eq heq)

/-- `decode_embedding`: the `float32` vector of the stored floats. -/
def decodeEmbedding (float32 : ℚ → ℚ) (json : EmbeddingJson) : Embedding := json.map float32

/-! ### The loaders -/

section Loaders

variable (float32 : ℚ → ℚ)

/-- The candidate of a row: skipped without an embedding, and under another model. -/
def candidateOf (currentId : String) (row : ParticleRow) : Option (Particle × Embedding) :=
  match row.embeddingJson with
  | none => none
  | some json =>
      if row.storedModelId ≠ currentId then none
      else some (row.toModel, decodeEmbedding float32 json)

/-- ACTIVE and embedded. -/
def ParticleRow.isCandidate (row : ParticleRow) : Bool :=
  row.model.status = .ACTIVE && row.embeddingJson.isSome

/-- The rows of the whole-store query.  The join with the subject links yields a particle at most
once, since (particle, subject) is the primary key. -/
def wantedRow (store : Store) (minConfidence : ℚ) (subjectId : Option String)
    (row : ParticleRow) : Bool :=
  row.isCandidate && decide (minConfidence ≤ row.model.confidence) &&
    match subjectId with
    | none => true
    | some s => store.subjectLinks.rows.any fun link =>
        link.subjectId = s && link.particleId = row.id

/-- **`get_active_particles_with_embeddings`.** -/
def getActiveParticlesWithEmbeddings (currentId : String) (store : Store)
    (minConfidence : ℚ) (subjectId : Option String) : List (Particle × Embedding) :=
  (sortBy candidateOrder (store.particles.rows.filter
    (wantedRow store minConfidence subjectId))).filterMap (candidateOf float32 currentId)

/-- **`get_active_particles_with_embeddings_by_ids`.** -/
def getActiveParticlesWithEmbeddingsByIds (currentId : String) (store : Store)
    (particleIds : List String) : List (Particle × Embedding) :=
  (sortBy candidateOrder (store.particles.rows.filter fun row =>
    decide (row.id ∈ particleIds) && row.isCandidate)).filterMap (candidateOf float32 currentId)

end Loaders

theorem mem_candidateRows {t : ParticleTable} {p : ParticleRow → Bool} {row : ParticleRow} :
    row ∈ sortBy candidateOrder (t.rows.filter p) ↔ row ∈ t.rows ∧ p row = true := by
  rw [mem_sortBy, List.mem_filter]

theorem nodup_candidateRows (t : ParticleTable) (p : ParticleRow → Bool) :
    (sortBy candidateOrder (t.rows.filter p)).Nodup :=
  nodup_sortBy ((List.Nodup.of_map _ t.table.nodup).filter _)

theorem particle_of_candidateOf {float32 : ℚ → ℚ} {currentId : String} {row : ParticleRow}
    {pair : Particle × Embedding} (h : candidateOf float32 currentId row = some pair) :
    pair.1 = row.model := by
  unfold candidateOf at h
  cases hjson : row.embeddingJson with
  | none => simp [hjson] at h
  | some json =>
      simp only [hjson] at h
      split_ifs at h
      obtain rfl := Option.some.inj h
      rfl

theorem id_of_candidateOf {float32 : ℚ → ℚ} {currentId : String} {row : ParticleRow}
    {pair : Particle × Embedding} (h : candidateOf float32 currentId row = some pair) :
    pair.1.id = row.id := by
  rw [particle_of_candidateOf h, ParticleRow.id]

/-- **A loaded candidate is the particle of an ACTIVE row.** -/
theorem mem_getActiveParticlesWithEmbeddings {float32 : ℚ → ℚ} {currentId : String} {store : Store}
    {minConfidence : ℚ} {subjectId : Option String} {pair : Particle × Embedding}
    (h : pair ∈ getActiveParticlesWithEmbeddings float32 currentId store minConfidence subjectId) :
    ∃ row, store.get? pair.1.id = some row ∧ row.model = pair.1 ∧ row.model.status = .ACTIVE := by
  obtain ⟨row, hrow, hpair⟩ := List.mem_filterMap.1 h
  obtain ⟨hmem, hwanted⟩ := mem_candidateRows.1 hrow
  have hmodel := particle_of_candidateOf hpair
  refine ⟨row, ?_, hmodel.symm, ?_⟩
  · rw [hmodel]
    exact ParticleTable.get?_id hmem
  · simp only [wantedRow, ParticleRow.isCandidate, Bool.and_eq_true, decide_eq_true_eq] at hwanted
    exact hwanted.1.1.1

/-- The wanted row with a given id is the table's row, when that is wanted. -/
theorem find?_candidateRows (t : ParticleTable) (p : ParticleRow → Bool) (id : String) :
    (sortBy candidateOrder (t.rows.filter p)).find? (fun row => row.id = id) =
      (t.get? id).filter p := by
  cases hfind : (sortBy candidateOrder (t.rows.filter p)).find? fun row => row.id = id with
  | none =>
      cases hget : t.get? id with
      | none => rfl
      | some row =>
          obtain ⟨hrow, hid⟩ := ParticleTable.get?_eq_some.1 hget
          have hp : ¬ p row = true := fun hp => by
            simpa [hid] using List.find?_eq_none.1 hfind row (mem_candidateRows.2 ⟨hrow, hp⟩)
          exact (if_neg hp).symm
  | some row =>
      obtain ⟨hrow, hp⟩ := mem_candidateRows.1 (List.mem_of_find?_eq_some hfind)
      obtain rfl : row.id = id := by simpa using List.find?_some hfind
      rw [ParticleTable.get?_id hrow]
      exact (if_pos hp).symm

/-- **A sorted list of exactly the wanted rows of a table is the sort of its filter.** -/
theorem candidateRows_eq {t : ParticleTable} {p : ParticleRow → Bool} {rows : List ParticleRow}
    (hsorted : rows.Pairwise fun r r' => candidateOrder r ≤ candidateOrder r')
    (hnodup : rows.Nodup) (hmem : ∀ row, row ∈ rows ↔ row ∈ t.rows ∧ p row = true) :
    rows = sortBy candidateOrder (t.rows.filter p) := by
  refine eq_of_sorted_of_mem_iff ?_ hsorted (pairwise_sortBy _ _) hnodup
    (nodup_candidateRows t p) ?_
  · intro r hr r' hr' heq
    exact eq_of_candidateOrder_eq ((hmem r).1 hr).1 ((hmem r').1 hr').1 heq
  · intro row
    rw [hmem, mem_candidateRows]

/-- A filter of the loaded rows is a load of fewer rows. -/
theorem filter_candidateRows (t : ParticleTable) (p q : ParticleRow → Bool) :
    (sortBy candidateOrder (t.rows.filter p)).filter q =
      sortBy candidateOrder (t.rows.filter fun row => p row && q row) := by
  refine candidateRows_eq ((pairwise_sortBy _ _).filter _) ((nodup_candidateRows t p).filter _)
    fun row => ?_
  rw [List.mem_filter, mem_sortBy, List.mem_filter, Bool.and_eq_true, and_assoc]

end ParticlesEngine
