/-
**Corpus entries and their generations.**

A MUTABLE entry is captured again and again; its current generation is the newest of its records
that has been processed and not collapsed, an extracted RESPONSE or a completed ABSENT.  Every
reader that asks whether a claim is still stated goes through `get_entry_currency`.

Main definitions:

* `EntryCurrency`, `getEntryCurrency` — what the readers need to know about one entry;
* `SourceRef`, `attests` — whether one provenance reference is a current statement by its entry.

Main results:

* `latestRecord_eq_some` — **the current generation is a processed record, and no processed record
  of the entry was captured after it**;
* `attests_iff` — when a reference attests, case by case.
-/

import Mathlib.Algebra.Order.Group.Int
import ParticlesEngine.Store

set_option relaxedAutoImplicit false
set_option autoImplicit false

namespace ParticlesEngine

/-- What the observer-scope join needs to know about one attesting entry. -/
structure EntryCurrency where
  tags : List String
  mutable : Bool
  /-- the current generation of a MUTABLE entry, if anything has been processed -/
  latestSnapshotId : Option String
  /-- whether that generation is an ABSENT record -/
  absent : Bool
  deriving DecidableEq, Repr

/-- The record types that can be an entry's current generation. -/
def GENERATION_TYPES : List WarcRecordType := [.RESPONSE, .ABSENT]

/-- A processed, uncollapsed record of an entry. -/
def SnapshotRow.isGeneration (row : SnapshotRow) (entryId : String) : Bool :=
  row.entryId = entryId && row.extractionStatus = .COMPLETE &&
    row.warcRecordType ∈ GENERATION_TYPES && row.supersededBySnapshotId.isNone

/-- Keep the newer of two records; the one held wins a tie. -/
def newerRecord (held : Option SnapshotRow) (row : SnapshotRow) : Option SnapshotRow :=
  match held with
  | none => some row
  | some held => if held.capturedAt < row.capturedAt then some row else some held

/-- The newest processed record of an entry, in the order of the query. -/
def latestRecord (store : Store) (entryId : String) : Option SnapshotRow :=
  (store.snapshots.rows.filter (·.isGeneration entryId)).foldl newerRecord none

/-- **`get_entry_currency`** at one id; an id that names no entry is absent from the result. -/
def getEntryCurrency (store : Store) (entryId : String) : Option EntryCurrency :=
  (store.entries.get? entryId).map fun entry =>
    let latest := if entry.mutability = .MUTABLE then latestRecord store entryId else none
    { tags := entry.tags
      mutable := entry.mutability = .MUTABLE
      latestSnapshotId := latest.map SnapshotRow.snapshotId
      absent := latest.any (·.warcRecordType = .ABSENT) }

/-- The store with only the records captured by an instant, which is what `as_of` reads. -/
def Store.capturedBy (store : Store) (asOf : Option Instant) : Store :=
  { store with snapshots := store.snapshots.filter fun row => asOf.all (row.capturedAt ≤ ·) }

theorem foldl_newerRecord {rows : List SnapshotRow} {held : Option SnapshotRow} {row : SnapshotRow}
    (h : rows.foldl newerRecord held = some row) :
    (row ∈ rows ∨ held = some row) ∧ (∀ r ∈ rows, r.capturedAt ≤ row.capturedAt) ∧
      ∀ r, held = some r → r.capturedAt ≤ row.capturedAt := by
  induction rows generalizing held with
  | nil =>
      subst h
      exact ⟨Or.inr rfl, by simp, fun r hr => (congrArg _ (Option.some.inj hr)).ge⟩
  | cons first rows ih =>
      obtain ⟨hmem, hrows, hheld⟩ := ih h
      -- the record kept after the first one is at least as new as both
      have hkept : ∃ kept, newerRecord held first = some kept ∧
          (kept = first ∨ held = some kept) ∧ first.capturedAt ≤ kept.capturedAt ∧
          ∀ r, held = some r → r.capturedAt ≤ kept.capturedAt := by
        cases held with
        | none => exact ⟨first, rfl, Or.inl rfl, le_refl _, by simp⟩
        | some r =>
            by_cases hlt : r.capturedAt < first.capturedAt
            · exact ⟨first, if_pos hlt, Or.inl rfl, le_refl _, by simpa using hlt.le⟩
            · exact ⟨r, if_neg hlt, Or.inr rfl, not_lt.1 hlt, by simp⟩
      obtain ⟨kept, hnew, hfrom, hfirst, hold⟩ := hkept
      have hle := hheld kept hnew
      refine ⟨?_, ?_, fun r hr => (hold r hr).trans hle⟩
      · rcases hmem with hmem | hmem
        · exact Or.inl (List.mem_cons_of_mem _ hmem)
        · obtain rfl := Option.some.inj (hnew.symm.trans hmem)
          rcases hfrom with rfl | hfrom
          · exact Or.inl List.mem_cons_self
          · exact Or.inr hfrom
      · intro r hr
        rcases List.mem_cons.1 hr with rfl | hr
        · exact hfirst.trans hle
        · exact hrows r hr

/-- **The current generation is a processed record, and the newest one.** -/
theorem latestRecord_eq_some {store : Store} {entryId : String} {row : SnapshotRow}
    (h : latestRecord store entryId = some row) :
    row ∈ store.snapshots.rows ∧ row.isGeneration entryId = true ∧
      ∀ r ∈ store.snapshots.rows, r.isGeneration entryId = true → r.capturedAt ≤ row.capturedAt := by
  obtain ⟨hmem, hnewest, -⟩ := foldl_newerRecord h
  obtain ⟨hrow, hgen⟩ := List.mem_filter.1 (hmem.resolve_right (by simp))
  exact ⟨hrow, hgen, fun r hr hr' => hnewest r (List.mem_filter.2 ⟨hr, hr'⟩)⟩

/-- No current generation: no record of the entry has been processed. -/
theorem latestRecord_eq_none {store : Store} {entryId : String} :
    latestRecord store entryId = none ↔
      ∀ r ∈ store.snapshots.rows, ¬ r.isGeneration entryId = true := by
  have hnever : ∀ (rows : List SnapshotRow) (held : SnapshotRow),
      rows.foldl newerRecord (some held) ≠ none := by
    intro rows
    induction rows with
    | nil => simp
    | cons row rows ih =>
        intro held
        by_cases hlt : held.capturedAt < row.capturedAt
        · simpa [newerRecord, hlt] using ih row
        · simpa [newerRecord, hlt] using ih held
  unfold latestRecord
  cases hrows : store.snapshots.rows.filter (·.isGeneration entryId) with
  | nil => simpa using List.filter_eq_nil_iff.1 hrows
  | cons row rows =>
      have hrow := List.mem_filter.1 (hrows ▸ List.mem_cons_self : row ∈ _)
      constructor
      · intro h
        exact absurd h (hnever rows row)
      · intro h
        exact absurd hrow.2 (h row hrow.1)

/-! ### Attestation -/

/-- One provenance reference to a source: the entry it names and the snapshot, if any. -/
structure SourceRef where
  entryId : String
  snapshotId : Option String
  deriving DecidableEq, Repr

/-- **`attests`**: whether one reference is a current statement by its entry. -/
def attests (ref : SourceRef) (currency : Option EntryCurrency) : Bool :=
  match currency with
  | none => true
  | some currency =>
      if !currency.mutable then true
      else if currency.absent then false
      else if currency.latestSnapshotId.isNone then true
      else ref.snapshotId.isNone || ref.snapshotId = currency.latestSnapshotId

/-- **When a reference to a known entry attests**: an entry that is not MUTABLE attests through
every reference, and so does one with no processed generation; otherwise the generation must not be
an absence, and a reference that names a snapshot must name it. -/
theorem attests_iff {store : Store} {entry : CorpusEntryRow} (ref : SourceRef)
    (hentry : store.entries.get? ref.entryId = some entry) :
    attests ref (getEntryCurrency store ref.entryId) = true ↔
      entry.mutability ≠ .MUTABLE ∨
      (∀ r ∈ store.snapshots.rows, ¬ r.isGeneration ref.entryId = true) ∨
      ∃ latest, latestRecord store ref.entryId = some latest ∧ latest.warcRecordType ≠ .ABSENT ∧
        (ref.snapshotId = none ∨ ref.snapshotId = some latest.snapshotId) := by
  rw [getEntryCurrency, hentry, ← latestRecord_eq_none]
  by_cases hmutable : entry.mutability = .MUTABLE
  · cases hlatest : latestRecord store ref.entryId with
    | none => simp [attests, hmutable]
    | some latest =>
        by_cases habsent : latest.warcRecordType = .ABSENT
        · simp [attests, hmutable, habsent]
        · simp [attests, hmutable, habsent]
  · simp [attests, hmutable]

end ParticlesEngine
