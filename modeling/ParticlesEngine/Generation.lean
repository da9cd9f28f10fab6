/-
**The snapshot-generation cascade.**

After a new snapshot of a MUTABLE entry has been extracted, `cascade_superseded_generation` demotes
the ACTIVE particles that are still anchored to another snapshot of the entry and that no entry's
current snapshot states.  The snapshot just extracted is current unless a processed generation was
captured after it; then that one is, and the pass is late.

Main definitions:

* `currentGeneration` — the record the cascade measures against;
* `getActiveParticleIdsFromOtherSnapshots`, `unattested` — the candidates, and the ones that no
  entry states any more;
* `cascadeSupersededGeneration` — the cascade;
* `CurrentlyStated` — some source states a particle now.

Main results:

* `retireAll_of_allowed`, `retireAll_spec` — retiring distinct particles succeeds where the table
  allows each move, as it does for ACTIVE ones, and changes them only;
* `cascade_exact` — **the cascade demotes exactly the particles anchored to a superseded snapshot
  that are neither excluded nor currently stated**.
-/

import ParticlesEngine.ParticleStore
import ParticlesEngine.Corpus

set_option relaxedAutoImplicit false
set_option autoImplicit false

namespace ParticlesEngine

/-! ### The current generation -/

/-- Which record of a MUTABLE entry a cascade measures against. -/
structure CurrentGeneration where
  snapshotId : String
  /-- the record is a processed ABSENT -/
  absent : Bool := false
  /-- a processed generation was captured after the snapshot just extracted -/
  late : Bool := false
  deriving DecidableEq, Repr

/-- `current_generation`: the newer, by capture time, of the snapshot just extracted and the
entry's current generation; on equal times the one just extracted. -/
def currentGeneration (store : Store) (entryId extractedSnapshotId : String) : CurrentGeneration :=
  match getEntryCurrency store entryId with
  | none => { snapshotId := extractedSnapshotId }
  | some currency =>
      match currency.latestSnapshotId with
      | none => { snapshotId := extractedSnapshotId }
      | some latest =>
          if latest = extractedSnapshotId then { snapshotId := extractedSnapshotId }
          else
            match store.snapshots.get? latest, store.snapshots.get? extractedSnapshotId with
            | some held, some extracted =>
                if held.capturedAt ≤ extracted.capturedAt then
                  { snapshotId := extractedSnapshotId }
                else { snapshotId := held.snapshotId, absent := currency.absent, late := true }
            | _, _ => { snapshotId := extractedSnapshotId }

/-- **A late pass is measured against a processed generation captured after its snapshot.** -/
theorem currentGeneration_late {store : Store} {entryId extractedSnapshotId : String}
    (h : (currentGeneration store entryId extractedSnapshotId).late = true) :
    ∃ held extracted, latestRecord store entryId = some held ∧
      store.snapshots.get? extractedSnapshotId = some extracted ∧
      extracted.capturedAt < held.capturedAt ∧
      (currentGeneration store entryId extractedSnapshotId).snapshotId = held.snapshotId := by
  have hlate := h
  unfold currentGeneration at hlate
  cases hcurrency : getEntryCurrency store entryId with
  | none => simp [hcurrency] at hlate
  | some currency =>
      cases hlatest : currency.latestSnapshotId with
      | none => simp [hcurrency, hlatest] at hlate
      | some latest =>
          by_cases hsame : latest = extractedSnapshotId
          · simp [hcurrency, hlatest, hsame] at hlate
          cases hheld : store.snapshots.get? latest with
          | none => simp [hcurrency, hlatest, hsame, hheld] at hlate
          | some held =>
              cases hextracted : store.snapshots.get? extractedSnapshotId with
              | none => simp [hcurrency, hlatest, hsame, hheld, hextracted] at hlate
              | some extracted =>
                  by_cases hle : held.capturedAt ≤ extracted.capturedAt
                  · simp [hcurrency, hlatest, hsame, hheld, hextracted, hle] at hlate
                  have hsnapshot : (currentGeneration store entryId extractedSnapshotId).snapshotId =
                      held.snapshotId := by
                    simp [currentGeneration, hcurrency, hlatest, hsame, hheld, hextracted, hle]
                  -- the latest id is that of the entry's latest record, which is the one held
                  obtain ⟨entry, -, rfl⟩ := Option.map_eq_some_iff.1 hcurrency
                  obtain ⟨record, hrecord, hid⟩ := Option.map_eq_some_iff.1 hlatest
                  have hrecord' : latestRecord store entryId = some record := by
                    split_ifs at hrecord
                    exact hrecord
                  have hget : store.snapshots.get? latest = some record := by
                    rw [← hid]
                    exact Table.get?_key (latestRecord_eq_some hrecord').1
                  obtain rfl := Option.some.inj (hheld.symm.trans hget)
                  exact ⟨held, extracted, hrecord', rfl, not_le.1 hle, hsnapshot⟩

/-! ### The candidates -/

/-- The edge names this entry, and a snapshot other than the current one. -/
def ProvenanceEdgeRow.otherSnapshot (edge : ProvenanceEdgeRow) (corpusEntryId : String)
    (currentSnapshotId : String) (includeUnsnapshotted : Bool) : Bool :=
  edge.corpusEntryId = corpusEntryId &&
    match edge.snapshotId with
    | none => includeUnsnapshotted
    | some snapshotId => snapshotId ≠ currentSnapshotId

/-- **`get_active_particle_ids_from_other_snapshots`.**  (particle, entry) is the key of the edge
index, so the join yields a particle at most once. -/
def getActiveParticleIdsFromOtherSnapshots (store : Store) (corpusEntryId : String)
    (currentSnapshotId : String) (includeUnsnapshotted : Bool) : List String :=
  (store.particles.rows.filter fun row => row.model.status = .ACTIVE &&
    store.edges.rows.any fun edge => edge.particleId = row.id &&
      edge.otherSnapshot corpusEntryId currentSnapshotId includeUnsnapshotted).map ParticleRow.id

/-- `attested` of `_unattested`: some entry's current snapshot attests the particle. -/
def attested (store : Store) (entryId currentSnapshotId : String) (p : Particle) : Bool :=
  p.provenance.any fun ref => ref.type = .SOURCE &&
    if ref.corpusEntryId = entryId then ref.snapshotId = some currentSnapshotId
    else (store.entries.get? ref.corpusEntryId).isSome &&
      attests ⟨ref.corpusEntryId, ref.snapshotId⟩ (getEntryCurrency store ref.corpusEntryId)

/-- **`_unattested`**: the ids that no entry's current snapshot attests, in order. -/
def unattested (store : Store) (particleIds : List String) (entryId currentSnapshotId : String) :
    List String :=
  particleIds.filter fun id =>
    !((store.get? id).any fun row => attested store entryId currentSnapshotId row.toModel)

/-- The ids that a pass measured against `current` demotes. -/
def supersededIds (store : Store) (entryId : String) (current : CurrentGeneration)
    (excludeIds : List String) (includeUnsnapshotted : Bool) : List String :=
  let candidates := getActiveParticleIdsFromOtherSnapshots store entryId current.snapshotId
    (includeUnsnapshotted || current.absent)
  unattested store (candidates.filter (· ∉ excludeIds)) entryId current.snapshotId

/-! ### The cascade -/

/-- The CLAIMS_RETIRED event of one pass. -/
structure ClaimsRetired where
  actor : String
  route : String
  retiredIds : List String
  status : Status
  statusReason : Option StatusReason
  reason : String
  entryId : Option String
  snapshotId : Option String
  deriving DecidableEq, Repr

/-- `record_claims_retired`: one event per pass that retired something. -/
def recordClaimsRetired (event : ClaimsRetired) : Option ClaimsRetired :=
  if event.retiredIds = [] then none else some event

/-- What a cascade leaves. -/
structure CascadeResult where
  store : Store
  /-- the ids demoted, in query order -/
  demoted : List String := []
  event : Option ClaimsRetired := none
  /-- what the pass adds to the caller's `late_out` -/
  lateOut : List String := []

/-- Move particles to a status, one after the other. -/
def retireAll (table : TransitionTable) (now : Instant) (status : Status)
    (reason : Option StatusReason) (store : Store) (ids : List String) : Except StoreError Store :=
  ids.foldlM (fun store id => updateParticleStatus table now store id status reason) store

/-- **`cascade_superseded_generation`.** -/
def cascadeSupersededGeneration (table : TransitionTable) (now : Instant) (store : Store)
    (entryId currentSnapshotId : String) (excludeIds : List String)
    (includeUnsnapshotted : Bool) (actor : String) : Except StoreError CascadeResult :=
  match store.entries.get? entryId with
  | none => .ok { store := store }
  | some entry =>
      if entry.mutability ≠ .MUTABLE then .ok { store := store }
      else do
        let current := currentGeneration store entryId currentSnapshotId
        let demoted := supersededIds store entryId current excludeIds includeUnsnapshotted
        let store ← retireAll table now .PROVENANCE_STALE (some .RETRACTED_DEPENDENCY) store demoted
        let event : ClaimsRetired :=
          { actor := actor
            route := "generation_cascade"
            retiredIds := demoted
            status := .PROVENANCE_STALE
            statusReason := some .RETRACTED_DEPENDENCY
            reason := "generation cascade: no current snapshot of the entry states the claim" ++
              if current.late then " (an older snapshot was extracted late)" else ""
            entryId := some entryId
            snapshotId := some current.snapshotId }
        return { store := store
                 demoted := demoted
                 event := recordClaimsRetired event
                 lateOut := if current.late then demoted else [] }

/-! ### Retiring a list of particles -/

/-- **Retiring distinct particles succeeds where the table allows each move, and changes them and
nothing else.** -/
theorem retireAll_of_allowed (table : TransitionTable) (now : Instant) (status : Status)
    (reason : Option StatusReason) (hretired : status ≠ .ACTIVE) {store : Store} {ids : List String}
    (hnodup : ids.Nodup)
    (hallowed : ∀ id ∈ ids, ∃ row, store.get? id = some row ∧
      table.allows (some row.model.status) status = true) :
    ∃ store', retireAll table now status reason store ids = .ok store' ∧
      store'.edges = store.edges ∧
      ∀ id, store'.get? id = if id ∈ ids then
        (store.get? id).map (·.withStatus now status reason) else store.get? id := by
  induction ids generalizing store with
  | nil => exact ⟨store, rfl, rfl, fun id => by simp⟩
  | cons first ids ih =>
      obtain ⟨hnot, hrest⟩ := List.nodup_cons.1 hnodup
      obtain ⟨row, hrow, hedge⟩ := hallowed first List.mem_cons_self
      have hfirst : updateParticleStatus table now store first status reason =
          .ok (store.setStatus now first status reason) :=
        updateParticleStatus_eq_ok.2
          ⟨row, hrow, hedge, fun _ hactive => absurd hactive hretired, rfl⟩
      have hget := get?_setStatus store now first status reason
      have hallowed' : ∀ id ∈ ids, ∃ row,
          (store.setStatus now first status reason).get? id = some row ∧
            table.allows (some row.model.status) status = true := by
        intro id hid
        have hne : first ≠ id := fun h => hnot (h ▸ hid)
        rw [hget, if_neg hne]
        exact hallowed id (List.mem_cons_of_mem _ hid)
      obtain ⟨store', hstore', hedges', hget'⟩ := ih hrest hallowed'
      refine ⟨store', ?_, hedges'.trans (edges_setStatus ..), fun id => ?_⟩
      · rw [retireAll, List.foldlM_cons, bind_eq_ok]
        exact ⟨_, hfirst, hstore'⟩
      · rw [hget', hget]
        by_cases hid : first = id
        · subst hid
          simp [hnot]
        · simp [hid, Ne.symm hid]

/-- **Retiring distinct ACTIVE particles succeeds, changes them and nothing else.** -/
theorem retireAll_spec (table : TransitionTable) (now : Instant) (reason : Option StatusReason)
    {store : Store} {ids : List String} (hnodup : ids.Nodup)
    (hactive : ∀ id ∈ ids, ∃ row, store.get? id = some row ∧ row.model.status = .ACTIVE) :
    ∃ store', retireAll table now .PROVENANCE_STALE reason store ids = .ok store' ∧
      store'.edges = store.edges ∧
      ∀ id, store'.get? id = if id ∈ ids then
        (store.get? id).map (·.withStatus now .PROVENANCE_STALE reason) else store.get? id := by
  refine retireAll_of_allowed table now _ reason (by decide) hnodup fun id hid => ?_
  obtain ⟨row, hrow, hstatus⟩ := hactive id hid
  refine ⟨row, hrow, ?_⟩
  rw [hstatus]
  exact (table.from_active _).2 (Or.inr (Or.inr rfl))

/-! ### Exactness -/

/-- Some source states a particle now: the entry `entryId` through its current snapshot, or another
entry, which is not MUTABLE, has no processed generation, or whose current generation is no absence
and is the snapshot the reference names, if it names one. -/
def CurrentlyStated (store : Store) (entryId currentSnapshotId : String) (p : Particle) : Prop :=
  ∃ ref ∈ p.provenance, ref.type = .SOURCE ∧
    ((ref.corpusEntryId = entryId ∧ ref.snapshotId = some currentSnapshotId) ∨
      (ref.corpusEntryId ≠ entryId ∧ ∃ entry, store.entries.get? ref.corpusEntryId = some entry ∧
        (entry.mutability ≠ .MUTABLE ∨
          (∀ r ∈ store.snapshots.rows, ¬ r.isGeneration ref.corpusEntryId = true) ∨
          ∃ latest, latestRecord store ref.corpusEntryId = some latest ∧
            latest.warcRecordType ≠ .ABSENT ∧
            (ref.snapshotId = none ∨ ref.snapshotId = some latest.snapshotId))))

theorem attested_iff {store : Store} {entryId currentSnapshotId : String} {p : Particle} :
    attested store entryId currentSnapshotId p = true ↔
      CurrentlyStated store entryId currentSnapshotId p := by
  unfold attested CurrentlyStated
  rw [List.any_eq_true]
  refine exists_congr fun ref => and_congr_right fun _ => ?_
  rw [Bool.and_eq_true, decide_eq_true_eq]
  refine and_congr_right fun _ => ?_
  by_cases hentry : ref.corpusEntryId = entryId
  · simp [hentry]
  · simp only [hentry, if_false, Bool.and_eq_true, false_and, ne_eq, not_false_eq_true, true_and,
      false_or, Option.isSome_iff_exists]
    constructor
    · rintro ⟨⟨entry, hget⟩, hattests⟩
      exact ⟨entry, hget, (attests_iff ⟨ref.corpusEntryId, ref.snapshotId⟩ hget).1 hattests⟩
    · rintro ⟨entry, hget, hrest⟩
      exact ⟨⟨entry, hget⟩, (attests_iff ⟨ref.corpusEntryId, ref.snapshotId⟩ hget).2 hrest⟩

/-- An ACTIVE particle anchored to another snapshot of the entry. -/
def Anchored (store : Store) (entryId currentSnapshotId : String) (includeUnsnapshotted : Bool)
    (row : ParticleRow) : Prop :=
  row.model.status = .ACTIVE ∧ ∃ edge ∈ store.edges.rows, edge.particleId = row.id ∧
    edge.otherSnapshot entryId currentSnapshotId includeUnsnapshotted = true

theorem mem_candidates {store : Store} {entryId currentSnapshotId : String}
    {includeUnsnapshotted : Bool} {id : String} :
    id ∈ getActiveParticleIdsFromOtherSnapshots store entryId currentSnapshotId
        includeUnsnapshotted ↔
      ∃ row, store.get? id = some row ∧
        Anchored store entryId currentSnapshotId includeUnsnapshotted row := by
  simp only [getActiveParticleIdsFromOtherSnapshots, List.mem_map, List.mem_filter, Anchored,
    Bool.and_eq_true, decide_eq_true_eq, List.any_eq_true, Store.get?,
    ParticleTable.get?_eq_some]
  constructor
  · rintro ⟨row, ⟨hrow, hanchored⟩, rfl⟩
    exact ⟨row, ⟨hrow, rfl⟩, hanchored⟩
  · rintro ⟨row, ⟨hrow, rfl⟩, hanchored⟩
    exact ⟨row, ⟨hrow, hanchored⟩, rfl⟩

/-- An edge that does not name the current snapshot names another one, or none. -/
theorem otherSnapshot_iff_of_ne {edge : ProvenanceEdgeRow} {currentSnapshotId : String}
    (hne : edge.snapshotId ≠ some currentSnapshotId) (entryId : String) :
    edge.otherSnapshot entryId currentSnapshotId true = true ↔ edge.corpusEntryId = entryId := by
  unfold ProvenanceEdgeRow.otherSnapshot
  cases hs : edge.snapshotId with
  | none => simp
  | some s =>
      rw [hs] at hne
      have hs' : s ≠ currentSnapshotId := fun heq => hne (congrArg some heq)
      simp [hs']

theorem nodup_candidates (store : Store) (entryId currentSnapshotId : String)
    (includeUnsnapshotted : Bool) :
    (getActiveParticleIdsFromOtherSnapshots store entryId currentSnapshotId
      includeUnsnapshotted).Nodup :=
  (List.filter_sublist.map _).nodup store.particles.table.nodup

theorem mem_supersededIds {store : Store} {entryId : String} {current : CurrentGeneration}
    {excludeIds : List String} {includeUnsnapshotted : Bool} {id : String} :
    id ∈ supersededIds store entryId current excludeIds includeUnsnapshotted ↔
      ∃ row, store.get? id = some row ∧
        Anchored store entryId current.snapshotId (includeUnsnapshotted || current.absent) row ∧
        id ∉ excludeIds ∧ ¬ CurrentlyStated store entryId current.snapshotId row.model := by
  simp only [supersededIds, unattested, List.mem_filter, mem_candidates, decide_eq_true_eq]
  constructor
  · rintro ⟨⟨⟨row, hrow, hanchored⟩, hexclude⟩, hnot⟩
    refine ⟨row, hrow, hanchored, hexclude, fun hstated => ?_⟩
    simp [hrow, ParticleRow.toModel, attested_iff.2 hstated] at hnot
  · rintro ⟨row, hrow, hanchored, hexclude, hnot⟩
    refine ⟨⟨⟨row, hrow, hanchored⟩, hexclude⟩, ?_⟩
    rw [hrow, Option.any_some, Bool.not_eq_true', Bool.eq_false_iff, ne_eq]
    exact fun hattested => hnot (attested_iff.1 hattested)

theorem nodup_supersededIds (store : Store) (entryId : String) (current : CurrentGeneration)
    (excludeIds : List String) (includeUnsnapshotted : Bool) :
    (supersededIds store entryId current excludeIds includeUnsnapshotted).Nodup :=
  ((nodup_candidates ..).filter _).filter _

/-- The superseded claims can be retired, each once. -/
theorem retireAll_supersededIds (table : TransitionTable) (now : Instant) (store : Store)
    (entryId : String) (current : CurrentGeneration) (excludeIds : List String)
    (includeUnsnapshotted : Bool) :
    ∃ store', retireAll table now .PROVENANCE_STALE (some .RETRACTED_DEPENDENCY) store
        (supersededIds store entryId current excludeIds includeUnsnapshotted) = .ok store' ∧
      store'.edges = store.edges ∧
      ∀ id, store'.get? id =
        if id ∈ supersededIds store entryId current excludeIds includeUnsnapshotted then
          (store.get? id).map (·.withStatus now .PROVENANCE_STALE (some .RETRACTED_DEPENDENCY))
        else store.get? id := by
  refine retireAll_spec table now _ (nodup_supersededIds ..) fun id hid => ?_
  obtain ⟨row, hrow, hanchored, -⟩ := mem_supersededIds.1 hid
  exact ⟨row, hrow, hanchored.1⟩

/-- **The generation cascade is exact.**  Over a MUTABLE entry it succeeds, and measured against
the current generation: a particle still ACTIVE and anchored to another snapshot is excluded or
currently stated; an excluded or currently stated particle is not changed; every changed particle
was ACTIVE, anchored to another snapshot, and is now PROVENANCE_STALE; and a late pass is measured
against a processed generation captured after the snapshot just extracted. -/
theorem cascade_exact (table : TransitionTable) (now : Instant) (store : Store)
    (entryId extractedSnapshotId : String) (excludeIds : List String)
    (includeUnsnapshotted : Bool) (actor : String) (entry : CorpusEntryRow)
    (hentry : store.entries.get? entryId = some entry) (hmutable : entry.mutability = .MUTABLE) :
    ∃ result, cascadeSupersededGeneration table now store entryId extractedSnapshotId excludeIds
        includeUnsnapshotted actor = .ok result ∧
      ∀ current, current = currentGeneration store entryId extractedSnapshotId →
      (∀ id row, result.store.get? id = some row →
        Anchored result.store entryId current.snapshotId (includeUnsnapshotted || current.absent)
          row →
        id ∈ excludeIds ∨ CurrentlyStated store entryId current.snapshotId row.model) ∧
      (∀ id row, store.get? id = some row →
        id ∈ excludeIds ∨ CurrentlyStated store entryId current.snapshotId row.model →
        result.store.get? id = some row) ∧
      (∀ id row, store.get? id = some row → result.store.get? id ≠ some row →
        Anchored store entryId current.snapshotId (includeUnsnapshotted || current.absent) row ∧
          result.store.get? id =
            some (row.withStatus now .PROVENANCE_STALE (some .RETRACTED_DEPENDENCY))) ∧
      (current.late = true → ∃ held extracted, latestRecord store entryId = some held ∧
        store.snapshots.get? extractedSnapshotId = some extracted ∧
        extracted.capturedAt < held.capturedAt ∧ current.snapshotId = held.snapshotId) := by
  generalize hcurrent : currentGeneration store entryId extractedSnapshotId = current
  obtain ⟨store', hretired, hedges, hget⟩ := retireAll_supersededIds table now store entryId current
    excludeIds includeUnsnapshotted
  simp only [cascadeSupersededGeneration, hentry, hmutable, ne_eq, not_true_eq_false, if_false,
    hcurrent, hretired]
  refine ⟨_, rfl, ?_⟩
  intro measured hmeasured
  obtain rfl : current = measured := hmeasured.symm
  refine ⟨?_, ?_, ?_, fun hlate => ?_⟩
  · -- a particle that stayed anchored was spared
    intro id row hrow hanchored
    change store'.get? id = some row at hrow
    rw [hget] at hrow
    by_contra hnot
    by_cases hid : id ∈ supersededIds store entryId current excludeIds includeUnsnapshotted
    · obtain ⟨row₀, hrow₀, -⟩ := mem_supersededIds.1 hid
      rw [if_pos hid, hrow₀, Option.map_some] at hrow
      obtain rfl := Option.some.inj hrow
      simp [Anchored, ParticleRow.withStatus] at hanchored
    · rw [if_neg hid] at hrow
      refine hid (mem_supersededIds.2
        ⟨row, hrow, ?_, fun h => hnot (Or.inl h), fun h => hnot (Or.inr h)⟩)
      simpa only [Anchored, hedges] using hanchored
  · -- a spared particle is not among the ones demoted
    intro id row hrow hspared
    change store'.get? id = some row
    rw [hget, if_neg, hrow]
    intro hid
    obtain ⟨row', hrow', -, hexclude, hnot⟩ := mem_supersededIds.1 hid
    obtain rfl := Option.some.inj (hrow.symm.trans hrow')
    exact hspared.elim hexclude hnot
  · intro id row hrow hchanged
    change store'.get? id ≠ some row at hchanged
    change _ ∧ store'.get? id = _
    rw [hget] at hchanged ⊢
    split_ifs at hchanged ⊢ with hid
    · obtain ⟨row', hrow', hanchored, -⟩ := mem_supersededIds.1 hid
      obtain rfl := Option.some.inj (hrow.symm.trans hrow')
      exact ⟨hanchored, by rw [hrow, Option.map_some]⟩
    · exact absurd hrow hchanged
  · rw [← hcurrent] at hlate ⊢
    exact currentGeneration_late hlate

/-! ### Two passes -/

/-- A RESPONSE of an entry. -/
def responseRow (snapshotId entryId : String) (capturedAt : Instant)
    (extractionStatus : ExtractionStatus) : SnapshotRow where
  snapshotId := snapshotId
  entryId := entryId
  capturedAt := capturedAt
  extractionStatus := extractionStatus

/-- A store with the MUTABLE entry `E`, other entries and snapshots, and one ACTIVE particle `p`
with the given references. -/
def generationStore (others : List CorpusEntryRow) (snapshots : List SnapshotRow)
    (refs : List ProvenanceRef) : Option Store := do
  let entries ← ({ entryId := "E" } :: others).foldlM Table.insert? Table.empty
  let snapshots ← snapshots.foldlM Table.insert? Table.empty
  if hids : entries.get? "" = none then
    let store : Store := { entries := entries, snapshots := snapshots, entryIds := hids }
    (insertParticle id "m" store { id := "p", content := "p", provenance := refs } none).toOption
  else none

/-- `E2` has just been extracted after `E1`, whose statement `p` no source repeats. -/
def rewrittenStore : Store :=
  (generationStore [] [responseRow "E1" "E" 1 .COMPLETE, responseRow "E2" "E" 2 .PENDING]
    [⟨.SOURCE, "E", "E1", none, none⟩]).getD {}

theorem cascade_exact_rewritten :
    ∃ result, cascadeSupersededGeneration .documented 5 rewrittenStore "E" "E2" [] false "extract" =
        .ok result ∧ result.demoted = ["p"] ∧
      ∀ id row, result.store.get? id = some row →
        Anchored result.store "E" "E2" false row →
          id ∈ ([] : List String) ∨ CurrentlyStated rewrittenStore "E" "E2" row.model := by
  obtain ⟨result, hresult, hexact⟩ := cascade_exact .documented 5 rewrittenStore "E" "E2" [] false
    "extract" { entryId := "E" } (by decide) rfl
  refine ⟨result, hresult, ?_, (hexact _ rfl).1⟩
  have hdemoted : (cascadeSupersededGeneration .documented 5 rewrittenStore "E" "E2" [] false
      "extract").map CascadeResult.demoted = .ok ["p"] := by rfl
  rw [hresult] at hdemoted
  exact Except.ok.inj hdemoted

/-- The MUTABLE entry `F`, which `p` also cites, has no processed generation. -/
def unprocessedStore : Store :=
  (generationStore [{ entryId := "F" }]
    [responseRow "E1" "E" 1 .COMPLETE, responseRow "E2" "E" 2 .PENDING,
      responseRow "F1" "F" 1 .PENDING]
    [⟨.SOURCE, "E", "E1", none, none⟩, ⟨.SOURCE, "F", "F1", none, none⟩]).getD {}

/-- `E2` is extracted late, behind `E3`, and `p` is the output of `E1`. -/
def leftoverStore : Store :=
  (generationStore []
    [responseRow "E1" "E" 1 .COMPLETE, responseRow "E2" "E" 2 .PENDING,
      responseRow "E3" "E" 3 .COMPLETE]
    [⟨.SOURCE, "E", "E1", none, none⟩]).getD {}

/-- Some entry that the particle cites is not MUTABLE, or has a current generation that the
reference names. -/
def statedByGeneration (store : Store) (entryId currentSnapshotId : String) (p : Particle) : Bool :=
  p.provenance.any fun ref => ref.type = .SOURCE &&
    (store.entries.get? ref.corpusEntryId).any fun entry =>
      if entry.mutability ≠ .MUTABLE then true
      else if entry.entryId = entryId then ref.snapshotId = some currentSnapshotId
      else (latestRecord store entry.entryId).any fun latest =>
        latest.warcRecordType ≠ .ABSENT && ref.snapshotId = some latest.snapshotId

/-- **Two designs the cascade follows**: a reference to an entry with no processed generation keeps
a particle that no current generation states, and a late pass also demotes what older snapshots
left behind. -/
theorem cascade_not_only_generations :
    (∃ result row, cascadeSupersededGeneration .documented 5 unprocessedStore "E" "E2" [] false
        "extract" = .ok result ∧ currentGeneration unprocessedStore "E" "E2" = ⟨"E2", false, false⟩ ∧
      result.store.get? "p" = some row ∧ row.model.status = .ACTIVE ∧
      ⟨"p", "E", some "E1", none⟩ ∈ result.store.edges.rows ∧
      statedByGeneration unprocessedStore "E" "E2" row.model = false) ∧
    (∃ result, cascadeSupersededGeneration .documented 5 leftoverStore "E" "E2" [] false
        "extract" = .ok result ∧ currentGeneration leftoverStore "E" "E2" = ⟨"E3", false, true⟩ ∧
      result.demoted = ["p"] ∧
      ((leftoverStore.get? "p").map fun row => row.model.provenance) =
        some [⟨.SOURCE, "E", some "E1", none, none⟩]) := by
  refine ⟨⟨_, _, rfl, by decide, rfl, by decide, by decide, by decide⟩, ⟨_, rfl, ?_⟩⟩
  exact ⟨by decide, rfl, by decide⟩

end ParticlesEngine
