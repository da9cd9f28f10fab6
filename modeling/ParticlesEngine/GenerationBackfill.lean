/-
**The backfill of the generation cascade.**

The backfill runs the cascade over every MUTABLE entry with more than one snapshot, against the entry's
current generation.  Its dry run counts, for each entry, what the cascade would demote in the store as it
is.  The real run demotes as it goes, so a particle that two entries let go of is counted for the first of
them only.

Main definitions:

* `backfillSupersededGenerations` — both runs;
* `demotable` — what the cascade would demote for one entry.

Main results:

* `RetiredAt.mem_supersededIds` — after other particles have been retired, the cascade of an entry demotes
  the rest of what it would have demoted;
* `backfill_reports_iff_disjoint` — **the two runs report the same exactly when no particle is let go by
  two of the entries**.
-/

import Mathlib.Algebra.BigOperators.Group.List.Basic
import ParticlesEngine.Generation
import ParticlesEngine.SortBy

set_option relaxedAutoImplicit false
set_option autoImplicit false

open SortBy

namespace ParticlesEngine

/-! ### The report -/

/-- What a backfill found, and did. -/
structure GenerationBackfillReport where
  /-- MUTABLE entries carrying more than one snapshot -/
  entriesScanned : ℕ := 0
  /-- of those, the ones with a demotable particle -/
  entriesAffected : ℕ := 0
  demoted : ℕ := 0
  /-- the entry, its URI and its count, largest first -/
  perEntry : List (String × Option String × ℕ) := []
  /-- entries of which nothing has been extracted -/
  entriesUnextracted : ℕ := 0
  deriving DecidableEq, Repr

namespace GenerationBackfillReport

/-- The report with one more entry; no count when nothing of it has been extracted. -/
def scan (report : GenerationBackfillReport) (entry : String × Option String) (count : Option ℕ) :
    GenerationBackfillReport :=
  match count with
  | none =>
      { report with
        entriesScanned := report.entriesScanned + 1
        entriesUnextracted := report.entriesUnextracted + 1 }
  | some 0 => { report with entriesScanned := report.entriesScanned + 1 }
  | some count =>
      { report with
        entriesScanned := report.entriesScanned + 1
        entriesAffected := report.entriesAffected + 1
        demoted := report.demoted + count
        perEntry := report.perEntry ++ [(entry.1, entry.2, count)] }

/-- The entries with the largest counts first. -/
def sorted (report : GenerationBackfillReport) : GenerationBackfillReport :=
  { report with
    perEntry := sortBy (fun row : String × Option String × ℕ => OrderDual.toDual row.2.2)
      report.perEntry }

end GenerationBackfillReport

/-! ### The two runs -/

section Backfill

variable (createdAt : String → Instant)

/-- `list_mutable_entries_with_multiple_snapshots`, by the creation of the entries. -/
def listMutableEntriesWithMultipleSnapshots (store : Store) : List (String × Option String) :=
  (sortBy (fun entry : CorpusEntryRow => createdAt entry.entryId)
    (store.entries.rows.filter fun entry => entry.mutability = .MUTABLE &&
      1 < store.snapshots.rows.countP fun row => row.entryId = entry.entryId)).map
    fun entry => (entry.entryId, entry.uriR)

/-- The entries that a backfill scans. -/
def scannedEntries (store : Store) (entryIds : Option (List String)) : List (String × Option String) :=
  (listMutableEntriesWithMultipleSnapshots createdAt store).filter fun entry =>
    entryIds.all fun scope => entry.1 ∈ scope

/-- The current generation of an entry, and whether it is an absence. -/
def processedGeneration (store : Store) (entryId : String) : Option (String × Bool) :=
  (getEntryCurrency store entryId).bind fun currency =>
    currency.latestSnapshotId.map fun current => (current, currency.absent)

variable (table : TransitionTable) (now : Instant)

/-- One entry of a backfill: the count of what is, or would be, demoted. -/
def backfillEntry (dryRun : Bool) (store : Store) (entryId : String) :
    Except StoreError (Store × Option ℕ) :=
  match processedGeneration store entryId with
  | none => .ok (store, none)
  | some (current, absent) =>
      if dryRun then
        .ok (store, some (unattested store
          (getActiveParticleIdsFromOtherSnapshots store entryId current absent) entryId
            current).length)
      else do
        let result ← cascadeSupersededGeneration table now store entryId current [] absent
          "corpus-refresh-backfill"
        return (result.store, some result.demoted.length)

/-- The entries of a backfill, one after the other. -/
def backfillEntries (dryRun : Bool) (state : Store × GenerationBackfillReport)
    (entries : List (String × Option String)) :
    Except StoreError (Store × GenerationBackfillReport) :=
  entries.foldlM (fun state entry => do
    let (store, count) ← backfillEntry table now dryRun state.1 entry.1
    return (store, state.2.scan entry count)) state

/-- **`backfill_superseded_generations`.** -/
def backfillSupersededGenerations (store : Store) (dryRun : Bool) (entryIds : Option (List String)) :
    Except StoreError (Store × GenerationBackfillReport) := do
  let (store, report) ← backfillEntries table now dryRun (store, {})
    (scannedEntries createdAt store entryIds)
  return (store, report.sorted)

end Backfill

/-! ### After particles have been retired -/

/-- The particles with these ids have been retired, and everything else is as it was. -/
structure RetiredAt (now : Instant) (before after : Store) (ids : List String) : Prop where
  entries : after.entries = before.entries
  snapshots : after.snapshots = before.snapshots
  edges : after.edges = before.edges
  rows : ∀ id, after.get? id = if id ∈ ids then
    (before.get? id).map (·.withStatus now .PROVENANCE_STALE (some .RETRACTED_DEPENDENCY))
    else before.get? id

section Retired

variable {now : Instant} {before mid after : Store} {ids ids' : List String}

/-- A status write leaves the captured records alone. -/
theorem snapshots_updateParticleStatus {table : TransitionTable} {id : String} {status : Status}
    {reason : Option StatusReason}
    (h : updateParticleStatus table now before id status reason = .ok after) :
    after.snapshots = before.snapshots := by
  obtain ⟨row, -, -, -, rfl⟩ := updateParticleStatus_eq_ok.1 h
  unfold Store.setStatus
  split_ifs <;> rfl

theorem corpus_retireAll {table : TransitionTable} {status : Status} {reason : Option StatusReason}
    (ids : List String) : ∀ {store store' : Store},
      retireAll table now status reason store ids = .ok store' →
        store'.entries = store.entries ∧ store'.snapshots = store.snapshots := by
  induction ids with
  | nil =>
      intro store store' h
      obtain rfl := Except.ok.inj h
      exact ⟨rfl, rfl⟩
  | cons id ids ih =>
      intro store store' h
      simp only [retireAll, List.foldlM_cons, bind_eq_ok] at h
      obtain ⟨mid, hmid, hrest⟩ := h
      obtain ⟨hentries, hsnapshots⟩ := ih hrest
      exact ⟨hentries.trans (entries_updateParticleStatus hmid),
        hsnapshots.trans (snapshots_updateParticleStatus hmid)⟩

namespace RetiredAt

theorem refl (now : Instant) (store : Store) : RetiredAt now store store [] :=
  ⟨rfl, rfl, rfl, by simp⟩

theorem append (h : RetiredAt now before mid ids) (h' : RetiredAt now mid after ids')
    (hfresh : ∀ id ∈ ids', id ∉ ids) : RetiredAt now before after (ids ++ ids') := by
  refine ⟨h'.entries.trans h.entries, h'.snapshots.trans h.snapshots, h'.edges.trans h.edges,
    fun id => ?_⟩
  rw [h'.rows, h.rows]
  by_cases hid' : id ∈ ids'
  · simp [hid', hfresh id hid']
  · simp [hid']

theorem congr (h : RetiredAt now before after ids) (hmem : ∀ id, id ∈ ids ↔ id ∈ ids') :
    RetiredAt now before after ids' := by
  refine ⟨h.entries, h.snapshots, h.edges, fun id => ?_⟩
  simp only [h.rows, hmem]

/-- Whether a source states a particle now does not depend on what is retired. -/
theorem currentlyStated_iff (h : RetiredAt now before after ids) {entryId current : String}
    {p q : Particle} (hprovenance : p.provenance = q.provenance) :
    CurrentlyStated after entryId current p ↔ CurrentlyStated before entryId current q := by
  simp only [CurrentlyStated, latestRecord, h.entries, h.snapshots, hprovenance]

theorem getEntryCurrency_eq (h : RetiredAt now before after ids) (entryId : String) :
    getEntryCurrency after entryId = getEntryCurrency before entryId := by
  simp only [getEntryCurrency, latestRecord, h.entries, h.snapshots]

/-- **After other particles have been retired, the cascade of an entry demotes the rest of what it
would have demoted.** -/
theorem mem_supersededIds (h : RetiredAt now before after ids) {entryId : String}
    {current : CurrentGeneration} {excludeIds : List String} {includeUnsnapshotted : Bool}
    {id : String} :
    id ∈ supersededIds after entryId current excludeIds includeUnsnapshotted ↔
      id ∈ supersededIds before entryId current excludeIds includeUnsnapshotted ∧ id ∉ ids := by
  simp only [ParticlesEngine.mem_supersededIds]
  by_cases hid : id ∈ ids
  · simp only [hid, not_true_eq_false, and_false, iff_false, not_exists]
    rintro row ⟨hrow, hanchored, -⟩
    rw [h.rows, if_pos hid] at hrow
    obtain ⟨row', -, rfl⟩ := Option.map_eq_some_iff.1 hrow
    cases hanchored.1
  · simp only [hid, not_false_eq_true, and_true]
    refine exists_congr fun row => ?_
    rw [h.rows, if_neg hid, h.currentlyStated_iff rfl]
    simp only [Anchored, h.edges]

end RetiredAt

/-- **What a cascade leaves.** -/
theorem cascade_retired (table : TransitionTable) (now : Instant) {store : Store} {entryId : String}
    (currentSnapshotId : String) (excludeIds : List String) (includeUnsnapshotted : Bool)
    (actor : String) {entry : CorpusEntryRow} (hentry : store.entries.get? entryId = some entry)
    (hmutable : entry.mutability = .MUTABLE) :
    ∃ result, cascadeSupersededGeneration table now store entryId currentSnapshotId excludeIds
        includeUnsnapshotted actor = .ok result ∧
      result.demoted = supersededIds store entryId (currentGeneration store entryId currentSnapshotId)
        excludeIds includeUnsnapshotted ∧
      RetiredAt now store result.store result.demoted := by
  generalize hcurrent : currentGeneration store entryId currentSnapshotId = current
  obtain ⟨store', hretired, hedges, hget⟩ := retireAll_supersededIds table now store entryId current
    excludeIds includeUnsnapshotted
  obtain ⟨hentries, hsnapshots⟩ := corpus_retireAll _ hretired
  simp only [cascadeSupersededGeneration, hentry, hmutable, ne_eq, not_true_eq_false, if_false,
    hcurrent, hretired]
  exact ⟨_, rfl, rfl, hentries, hsnapshots, hedges, hget⟩

end Retired

/-! ### The two reports -/

/-- What the cascade would demote for an entry; nothing when nothing of it has been extracted. -/
def demotable (store : Store) (entryId : String) : List String :=
  match processedGeneration store entryId with
  | none => []
  | some (current, absent) =>
      unattested store (getActiveParticleIdsFromOtherSnapshots store entryId current absent) entryId
        current

theorem demotable_eq {store : Store} {entryId current : String} {absent : Bool}
    (h : processedGeneration store entryId = some (current, absent)) :
    demotable store entryId = supersededIds store entryId { snapshotId := current } [] absent := by
  simp [demotable, h, supersededIds]

theorem mutable_of_processedGeneration {store : Store} {entryId current : String} {absent : Bool}
    (h : processedGeneration store entryId = some (current, absent)) :
    ∃ entry, store.entries.get? entryId = some entry ∧ entry.mutability = .MUTABLE ∧
      currentGeneration store entryId current = { snapshotId := current } := by
  obtain ⟨currency, hcurrency, hsnapshot⟩ := Option.bind_eq_some_iff.1 h
  obtain ⟨latest, hlatest, hpair⟩ := Option.map_eq_some_iff.1 hsnapshot
  obtain ⟨rfl, -⟩ := Prod.mk.inj hpair
  obtain ⟨entry, hentry, hsame⟩ := Option.map_eq_some_iff.1 hcurrency
  refine ⟨entry, hentry, ?_, ?_⟩
  · by_contra hnot
    rw [← hsame] at hlatest
    simp [hnot] at hlatest
  · simp [currentGeneration, hcurrency, hlatest]

/-- The entries of a scan, each with the count that the report gets. -/
abbrev Counts := List ((String × Option String) × Option ℕ)

/-- The counts of a dry run. -/
def predictedCounts (store : Store) (entries : List (String × Option String)) : Counts :=
  entries.map fun entry =>
    (entry, (processedGeneration store entry.1).map fun _ => (demotable store entry.1).length)

/-- The counts of a real run, once the particles `done` have been retired. -/
def realCounts (store : Store) : List String → List (String × Option String) → Counts
  | _, [] => []
  | done, entry :: entries =>
      (entry, (processedGeneration store entry.1).map fun _ =>
        ((demotable store entry.1).filter fun id => id ∉ done).length) ::
          realCounts store (done ++ demotable store entry.1) entries

/-- A report with counts. -/
def GenerationBackfillReport.scanAll (report : GenerationBackfillReport) (counts : Counts) :
    GenerationBackfillReport :=
  counts.foldl (fun report count => report.scan count.1 count.2) report

section Runs

variable (table : TransitionTable) (now : Instant) {store : Store}

theorem backfillEntries_dry (store : Store) (entries : List (String × Option String)) :
    ∀ report : GenerationBackfillReport, backfillEntries table now true (store, report) entries =
      .ok (store, report.scanAll (predictedCounts store entries)) := by
  induction entries with
  | nil => exact fun _ => rfl
  | cons entry entries ih =>
      intro report
      have hentry : backfillEntry table now true store entry.1 = .ok (store,
          (processedGeneration store entry.1).map fun _ => (demotable store entry.1).length) := by
        unfold backfillEntry demotable
        cases processedGeneration store entry.1 with
        | none => rfl
        | some generation => rfl
      rw [backfillEntries, List.foldlM_cons, hentry]
      exact ih _

/-- **One entry of a real run**: what is left of the demotable particles is retired. -/
theorem backfillEntry_real {st : Store} {done : List String} (h : RetiredAt now store st done)
    (entryId : String) : ∃ st', backfillEntry table now false st entryId = .ok (st',
        (processedGeneration store entryId).map fun _ =>
          ((demotable store entryId).filter fun id => id ∉ done).length) ∧
      RetiredAt now store st' (done ++ demotable store entryId) := by
  have hsame : processedGeneration st entryId = processedGeneration store entryId := by
    rw [processedGeneration, processedGeneration, h.getEntryCurrency_eq]
  unfold backfillEntry
  rw [hsame]
  cases hgeneration : processedGeneration store entryId with
  | none =>
      refine ⟨st, rfl, ?_⟩
      simpa [demotable, hgeneration] using h
  | some generation =>
      obtain ⟨current, absent⟩ := generation
      obtain ⟨entry, hentry, hmutable, hcurrent⟩ :=
        mutable_of_processedGeneration (hsame.trans hgeneration)
      obtain ⟨result, hok, hdemoted, hretired⟩ := cascade_retired table now current [] absent
        "corpus-refresh-backfill" hentry hmutable
      rw [hcurrent] at hdemoted
      have hmem : ∀ id, id ∈ result.demoted ↔ id ∈ demotable store entryId ∧ id ∉ done := by
        intro id
        rw [hdemoted, demotable_eq hgeneration]
        exact h.mem_supersededIds
      have hperm : result.demoted.Perm
          ((demotable store entryId).filter fun id => id ∉ done) := by
        refine (List.perm_ext_iff_of_nodup ?_ ?_).2 fun id => ?_
        · rw [hdemoted]
          exact nodup_supersededIds ..
        · rw [demotable_eq hgeneration]
          exact (nodup_supersededIds ..).filter _
        · rw [hmem]
          simp
      refine ⟨result.store, ?_, ?_⟩
      · simp only [hok, bind, Except.bind, pure, Except.pure, Bool.false_eq_true, if_false,
          Option.map_some, hperm.length_eq]
      · refine (h.append hretired fun id hid => ((hmem id).1 hid).2).congr fun id => ?_
        rw [List.mem_append, List.mem_append, hmem]
        tauto

theorem backfillEntries_real (entries : List (String × Option String)) :
    ∀ {st : Store} {done : List String} (report : GenerationBackfillReport),
      RetiredAt now store st done →
        ∃ st', backfillEntries table now false (st, report) entries =
          .ok (st', report.scanAll (realCounts store done entries)) := by
  induction entries with
  | nil => exact fun report _ => ⟨_, rfl⟩
  | cons entry entries ih =>
      intro st done report h
      obtain ⟨mid, hmid, hretired⟩ := backfillEntry_real table now h entry.1
      obtain ⟨st', hst'⟩ := ih (report.scan entry _) hretired
      refine ⟨st', ?_⟩
      rw [backfillEntries, List.foldlM_cons, hmid]
      exact hst'

end Runs

/-! ### When the reports agree -/

/-- What a list of counts adds up to. -/
def Counts.total (counts : Counts) : ℕ := (counts.map fun count => count.2.getD 0).sum

theorem demoted_scanAll (counts : Counts) : ∀ report : GenerationBackfillReport,
    (report.scanAll counts).demoted = report.demoted + counts.total := by
  induction counts with
  | nil => exact fun _ => rfl
  | cons count counts ih =>
      intro report
      have hscan : (report.scan count.1 count.2).demoted = report.demoted + count.2.getD 0 := by
        obtain ⟨entry, none | _ | n⟩ := count <;> rfl
      have hstep : report.scanAll (count :: counts) =
          (report.scan count.1 count.2).scanAll counts := rfl
      rw [hstep, ih, hscan, Counts.total, Counts.total, List.map_cons, List.sum_cons]
      omega

section Totals

variable (store : Store)

/-- The demotable particles of an entry, as its count tells them. -/
theorem getD_count (entryId : String) (p : String → Bool) :
    ((processedGeneration store entryId).map fun _ =>
      ((demotable store entryId).filter p).length).getD 0 =
        ((demotable store entryId).filter p).length := by
  unfold demotable
  cases processedGeneration store entryId with
  | none => rfl
  | some generation => rfl

theorem total_realCounts_le (entries : List (String × Option String)) : ∀ done : List String,
    (realCounts store done entries).total ≤ (predictedCounts store entries).total := by
  induction entries with
  | nil => exact fun _ => le_rfl
  | cons entry entries ih =>
      intro done
      have hrest := ih (done ++ demotable store entry.1)
      have hfirst := getD_count store entry.1 fun id => id ∉ done
      have hall := getD_count store entry.1 fun _ => true
      rw [List.filter_true] at hall
      have hle : ((demotable store entry.1).filter fun id => id ∉ done).length ≤
          (demotable store entry.1).length := List.length_filter_le ..
      simp only [Counts.total, realCounts, predictedCounts, List.map_cons, List.sum_cons] at hrest ⊢
      rw [hfirst, hall]
      exact Nat.add_le_add hle hrest

/-- **The totals agree exactly when no particle is let go twice.** -/
theorem total_realCounts_eq_iff (entries : List (String × Option String)) : ∀ done : List String,
    (realCounts store done entries).total = (predictedCounts store entries).total ↔
      (∀ entry ∈ entries, List.Disjoint done (demotable store entry.1)) ∧
        entries.Pairwise fun entry entry' =>
          List.Disjoint (demotable store entry.1) (demotable store entry'.1) := by
  induction entries with
  | nil => simp [realCounts, predictedCounts]
  | cons entry entries ih =>
      intro done
      have hrest := ih (done ++ demotable store entry.1)
      have hle := total_realCounts_le store entries (done ++ demotable store entry.1)
      have hfirst := getD_count store entry.1 fun id => id ∉ done
      have hall := getD_count store entry.1 fun _ => true
      rw [List.filter_true] at hall
      have hlength : ((demotable store entry.1).filter fun id => id ∉ done).length ≤
          (demotable store entry.1).length := List.length_filter_le ..
      have hfree : ((demotable store entry.1).filter fun id => id ∉ done).length =
          (demotable store entry.1).length ↔ List.Disjoint done (demotable store entry.1) := by
        rw [List.length_filter_eq_length_iff]
        simp only [List.disjoint_right, decide_eq_true_eq]
      have hreal : (realCounts store done (entry :: entries)).total =
          ((demotable store entry.1).filter fun id => id ∉ done).length +
            (realCounts store (done ++ demotable store entry.1) entries).total := by
        rw [← hfirst]
        rfl
      have hpredicted : (predictedCounts store (entry :: entries)).total =
          (demotable store entry.1).length + (predictedCounts store entries).total := by
        rw [← hall]
        rfl
      have hsplit : (realCounts store done (entry :: entries)).total =
            (predictedCounts store (entry :: entries)).total ↔
          List.Disjoint done (demotable store entry.1) ∧
            (realCounts store (done ++ demotable store entry.1) entries).total =
              (predictedCounts store entries).total := by
        rw [← hfree, hreal, hpredicted]
        omega
      rw [hsplit, hrest]
      simp only [List.disjoint_append_left, List.pairwise_cons, List.forall_mem_cons, forall_and]
      tauto

/-- Where no particle is let go twice, the counts are those of the dry run. -/
theorem realCounts_eq (entries : List (String × Option String)) : ∀ done : List String,
    (∀ entry ∈ entries, List.Disjoint done (demotable store entry.1)) →
      (entries.Pairwise fun entry entry' =>
        List.Disjoint (demotable store entry.1) (demotable store entry'.1)) →
      realCounts store done entries = predictedCounts store entries := by
  induction entries with
  | nil => exact fun _ _ _ => rfl
  | cons entry entries ih =>
      intro done hdone hpair
      obtain ⟨hfirst, hrest⟩ := List.pairwise_cons.1 hpair
      have hall : (demotable store entry.1).filter (fun id => id ∉ done) =
          demotable store entry.1 := by
        refine List.filter_eq_self.2 fun id hid => ?_
        rw [decide_eq_true_eq]
        exact fun hmem => hdone entry List.mem_cons_self hmem hid
      rw [realCounts, hall, ih _ ?_ hrest]
      · rfl
      · intro entry' hentry'
        rw [List.disjoint_append_left]
        exact ⟨hdone entry' (List.mem_cons_of_mem _ hentry'), hfirst entry' hentry'⟩

end Totals

/-- **The dry run and the real run report the same exactly when no particle is let go by two of the
entries.** -/
theorem backfill_reports_iff_disjoint (createdAt : String → Instant) (table : TransitionTable)
    (now : Instant) (store : Store) (entryIds : Option (List String)) :
    ∃ predicted after real,
      backfillSupersededGenerations createdAt table now store true entryIds =
        .ok (store, predicted) ∧
      backfillSupersededGenerations createdAt table now store false entryIds = .ok (after, real) ∧
      (predicted = real ↔ (scannedEntries createdAt store entryIds).Pairwise fun entry entry' =>
        List.Disjoint (demotable store entry.1) (demotable store entry'.1)) := by
  generalize hentries : scannedEntries createdAt store entryIds = entries
  have hdry := backfillEntries_dry table now store entries {}
  obtain ⟨after, hreal⟩ := backfillEntries_real table now entries {} (RetiredAt.refl now store)
  let empty : GenerationBackfillReport := {}
  refine ⟨(empty.scanAll (predictedCounts store entries)).sorted, after,
    (empty.scanAll (realCounts store [] entries)).sorted, ?_, ?_, ?_⟩
  · rw [backfillSupersededGenerations, hentries, hdry]
    rfl
  · rw [backfillSupersededGenerations, hentries, hreal]
    rfl
  · constructor
    · intro hsame
      have hdemoted := congrArg GenerationBackfillReport.demoted hsame
      change (empty.scanAll (predictedCounts store entries)).demoted =
        (empty.scanAll (realCounts store [] entries)).demoted at hdemoted
      rw [demoted_scanAll, demoted_scanAll] at hdemoted
      exact ((total_realCounts_eq_iff store entries []).1 (by omega)).2
    · intro hpair
      rw [realCounts_eq store entries [] (by simp) hpair]

/-- The particle `p` states what older snapshots of `E` and of `F` said. -/
def sharedStore : Store :=
  (generationStore [{ entryId := "F" }]
    [responseRow "E1" "E" 1 .COMPLETE, responseRow "E2" "E" 2 .COMPLETE,
      responseRow "F1" "F" 1 .COMPLETE, responseRow "F2" "F" 2 .COMPLETE]
    [⟨.SOURCE, "E", "E1", none, none⟩, ⟨.SOURCE, "F", "F1", none, none⟩]).getD {}

/-- The dry run counts it for both entries, the real run for the first. -/
theorem shared_claim_counted_twice :
    ¬ ∀ (createdAt : String → Instant) (table : TransitionTable) (now : Instant) (store : Store)
      (entryIds : Option (List String)) (predicted real : Store × GenerationBackfillReport),
      backfillSupersededGenerations createdAt table now store true entryIds = .ok predicted →
        backfillSupersededGenerations createdAt table now store false entryIds = .ok real →
          predicted.2 = real.2 := by
  intro hall
  have hdry : (backfillSupersededGenerations (fun _ => 0) .documented 5 sharedStore true
      none).toOption.map (fun r => r.2.demoted) = some 2 := by decide +kernel
  have hreal : (backfillSupersededGenerations (fun _ => 0) .documented 5 sharedStore false
      none).toOption.map (fun r => r.2.demoted) = some 1 := by decide +kernel
  obtain ⟨predicted, hpredicted, htwo⟩ := Option.map_eq_some_iff.1 hdry
  obtain ⟨real, hok, hone⟩ := Option.map_eq_some_iff.1 hreal
  rw [hall _ _ _ _ _ predicted real (toOption_eq_some.1 hpredicted) (toOption_eq_some.1 hok)] at htwo
  omega

end ParticlesEngine
