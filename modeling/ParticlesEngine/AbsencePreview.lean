/-
**What processing absences retires.**

A deleted document leaves an ABSENT record, and processing the record retires what no source states any
more.  Processed one after the other, the absences of several entries retire a claim that two of them
stated with the later one.  The preview takes the entries together: it names the claims that an entry
states and that no entry outside of the set attests.  The two agree, in any order, because the last of the
entries that a claim cites finds every other one absent.

Main definitions:

* `claimsAbsencesWouldRetire` — the preview;
* `processAbsences` — the absences, one after the other;
* `CitationsSound` — what the writes of provenance keep of the edge index;
* `GivenAbsence` — an entry with a record of its absence that is newer than its other records.

Main results:

* `processAbsence_step` — **what one absence retires, and that its entry then states nothing**;
* `absences_retire_previewed` — **in any order the absences retire exactly the claims of the preview, and
  change no other claim**.
-/

import Mathlib.Data.List.Induction
import ParticlesEngine.FirstByKey
import ParticlesEngine.GenerationBackfill
import ParticlesEngine.Reindex

set_option relaxedAutoImplicit false
set_option autoImplicit false

open SortBy FirstByKey

namespace ParticlesEngine

/-! ### The preview -/

/-- Some entry outside of the set currently attests the claim. -/
def statedOutside (store : Store) (entryIds : List String) (p : Particle) : Bool :=
  p.provenance.any fun ref => ref.type = .SOURCE && ref.corpusEntryId ∉ entryIds &&
    (store.entries.get? ref.corpusEntryId).isSome &&
      attests ⟨ref.corpusEntryId, ref.snapshotId⟩ (getEntryCurrency store ref.corpusEntryId)

/-- **`claims_absences_would_retire`.** -/
def claimsAbsencesWouldRetire (store : Store) (entryIds : List String) : List String :=
  let deleted := entryIds.filter fun entryId =>
    (getEntryCurrency store entryId).any EntryCurrency.mutable
  -- no snapshot has an empty id, so every edge of the entry is a candidate
  let candidates := (sortBy id deleted).flatMap fun entryId =>
    getActiveParticleIdsFromOtherSnapshots store entryId "" true
  sortBy id ((firstByKey id [] candidates).filter fun pid =>
    !((store.get? pid).any fun row => statedOutside store entryIds row.toModel))

/-! ### The absences -/

/-- One absence to process. -/
structure AbsenceCall where
  now : Instant
  entryId : String
  snapshotId : String
  deriving DecidableEq, Repr

/-- `process_absence` on each, with the ids retired. -/
def processAbsences (table : TransitionTable) (store : Store) (calls : List AbsenceCall) :
    Except StoreError (Store × List String) :=
  calls.foldlM (fun state call => do
    let (store, retired) ← processAbsence table call.now state.1 call.entryId call.snapshotId
    return (store, state.2 ++ retired)) (store, [])

/-- What the writes of provenance keep: the edge index has a row for every entry that a claim cites, no
snapshot that is named has an empty id, and no claim cites an absence. -/
structure CitationsSound (store : Store) : Prop where
  indexed : ∀ id row, store.get? id = some row → ∀ ref ∈ row.model.provenance, ref.type = .SOURCE →
    ∃ edge ∈ store.edges.rows, edge.particleId = id ∧ edge.corpusEntryId = ref.corpusEntryId
  named : ∀ edge ∈ store.edges.rows, edge.snapshotId ≠ some ""
  edges : ∀ edge ∈ store.edges.rows, ∀ record ∈ store.snapshots.rows,
    record.warcRecordType = .ABSENT → edge.snapshotId ≠ some record.snapshotId
  refs : ∀ id row, store.get? id = some row → ∀ ref ∈ row.model.provenance,
    ∀ record ∈ store.snapshots.rows, record.warcRecordType = .ABSENT →
      ref.snapshotId ≠ some record.snapshotId

/-- The citations of a store are sound when those of its rows are. -/
theorem CitationsSound.of_rows {store : Store}
    (hrefs : ∀ row ∈ store.particles.rows, ∀ ref ∈ row.model.provenance,
      (∃ edge ∈ store.edges.rows, edge.particleId = row.id ∧
        edge.corpusEntryId = ref.corpusEntryId) ∧
      ∀ record ∈ store.snapshots.rows, record.warcRecordType = .ABSENT →
        ref.snapshotId ≠ some record.snapshotId)
    (hnamed : ∀ edge ∈ store.edges.rows, edge.snapshotId ≠ some "")
    (hedges : ∀ edge ∈ store.edges.rows, ∀ record ∈ store.snapshots.rows,
      record.warcRecordType = .ABSENT → edge.snapshotId ≠ some record.snapshotId) :
    CitationsSound store where
  indexed := by
    intro id row hrow ref href _
    obtain ⟨hmem, rfl⟩ := ParticleTable.get?_eq_some.1 hrow
    exact (hrefs row hmem ref href).1
  named := hnamed
  edges := hedges
  refs id row hrow ref href := (hrefs row (ParticleTable.get?_eq_some.1 hrow).1 ref href).2

/-- A MUTABLE entry with an uncollapsed ABSENT record, captured after all of its other records. -/
structure GivenAbsence (store : Store) (call : AbsenceCall) : Prop where
  mutable : ∃ entry, store.entries.get? call.entryId = some entry ∧ entry.mutability = .MUTABLE
  record : ∃ record ∈ store.snapshots.rows, record.snapshotId = call.snapshotId ∧
    record.entryId = call.entryId ∧ record.warcRecordType = .ABSENT ∧
    record.supersededBySnapshotId = none ∧
    ∀ other ∈ store.snapshots.rows, other.entryId = call.entryId → other ≠ record →
      other.capturedAt < record.capturedAt

/-! ### The writes of provenance -/

/-- A reference that a write may store: it names a snapshot that is no absence, or none. -/
def Citable (store : Store) (ref : ProvenanceRef) : Prop :=
  ref.snapshotId ≠ some "" ∧ ∀ record ∈ store.snapshots.rows, record.warcRecordType = .ABSENT →
    ref.snapshotId ≠ some record.snapshotId

section Writes

variable {store store' : Store}

theorem provenanceEdges_eq (p : Particle) : provenanceEdges p =
    (firstByKey ProvenanceRef.corpusEntryId [] p.provenance).map fun ref =>
      ⟨p.id, ref.corpusEntryId, ref.snapshotId, ref.chunkHash⟩ := by
  have h := foldl_eq_firstByKey (fun _ => rfl : ∀ ref : ProvenanceRef,
    ProvenanceEdgeRow.corpusEntryId ⟨p.id, ref.corpusEntryId, ref.snapshotId, ref.chunkHash⟩ =
      ref.corpusEntryId) [] p.provenance []
  simpa [provenanceEdges] using h

/-- An insert adds the edges of the particle, and captures nothing. -/
theorem edges_insertParticle {contentHash : String → String} {modelId : String} {p : Particle}
    {embedding : Option EmbeddingJson}
    (hok : insertParticle contentHash modelId store p embedding = .ok store') :
    store'.edges.rows = store.edges.rows ++ provenanceEdges p ∧
      store'.snapshots = store.snapshots := by
  simp only [insertParticle, bind_eq_ok, require_eq_ok, orRaise_eq_ok] at hok
  obtain ⟨-, -, particles, -, edges, hinsert, links, -, tagEdges, -, hstore⟩ := hok
  obtain rfl := Except.ok.inj hstore
  exact ⟨(insertAll_eq_ok.1 hinsert).2, rfl⟩

/-- **An insert keeps the citations sound.** -/
theorem CitationsSound.insertParticle {contentHash : String → String} {modelId : String} {p : Particle}
    {embedding : Option EmbeddingJson} (h : CitationsSound store)
    (hok : insertParticle contentHash modelId store p embedding = .ok store')
    (hciting : ∀ ref ∈ p.provenance, Citable store ref) : CitationsSound store' := by
  obtain ⟨-, -, row, hrow, -, -, -, hget⟩ := get?_insertParticle hok
  obtain ⟨hedges, hsnapshots⟩ := edges_insertParticle hok
  have hnew : ∀ edge ∈ provenanceEdges p, ∃ ref ∈ p.provenance, edge.snapshotId = ref.snapshotId := by
    intro edge hedge
    rw [provenanceEdges_eq, List.mem_map] at hedge
    obtain ⟨ref, href, rfl⟩ := hedge
    exact ⟨ref, mem_of_mem_firstByKey href, rfl⟩
  refine ⟨fun id row' hrow' ref href hsource => ?_, fun edge hedge => ?_,
    fun edge hedge record hrecord habsent => ?_, fun id row' hrow' ref href record hrecord habsent => ?_⟩
  · rw [hget] at hrow'
    rw [hedges]
    split_ifs at hrow' with hid
    · obtain rfl := Option.some.inj hrow'
      rw [hrow] at href
      have hkey : ref.corpusEntryId ∈
          (firstByKey ProvenanceRef.corpusEntryId [] p.provenance).map ProvenanceRef.corpusEntryId :=
        mem_map_firstByKey.2 ⟨List.mem_map_of_mem href, by simp⟩
      obtain ⟨first, hfirst, hentry⟩ := List.mem_map.1 hkey
      refine ⟨⟨p.id, first.corpusEntryId, first.snapshotId, first.chunkHash⟩,
        List.mem_append_right _ ?_, hid, hentry⟩
      rw [provenanceEdges_eq]
      exact List.mem_map_of_mem hfirst
    · obtain ⟨edge, hedge, hcites⟩ := h.indexed id row' hrow' ref href hsource
      exact ⟨edge, List.mem_append_left _ hedge, hcites⟩
  · rw [hedges] at hedge
    rcases List.mem_append.1 hedge with hedge | hedge
    · exact h.named edge hedge
    · obtain ⟨ref, href, hsame⟩ := hnew edge hedge
      rw [hsame]
      exact (hciting ref href).1
  · rw [hedges] at hedge
    rw [hsnapshots] at hrecord
    rcases List.mem_append.1 hedge with hedge | hedge
    · exact h.edges edge hedge record hrecord habsent
    · obtain ⟨ref, href, hsame⟩ := hnew edge hedge
      rw [hsame]
      exact (hciting ref href).2 record hrecord habsent
  · rw [hsnapshots] at hrecord
    rw [hget] at hrow'
    split_ifs at hrow'
    · obtain rfl := Option.some.inj hrow'
      rw [hrow] at href
      exact (hciting ref href).2 record hrecord habsent
    · exact h.refs id row' hrow' ref href record hrecord habsent

/-- One more observation adds the edge of its entry, unless there is one, and captures nothing. -/
structure EdgeAdded (particleId : String) (ref : ProvenanceRef) (store store' : Store) : Prop where
  entries : store'.entries = store.entries
  snapshots : store'.snapshots = store.snapshots
  back : ∀ edge ∈ store'.edges.rows, edge ∈ store.edges.rows ∨
    edge = ⟨particleId, ref.corpusEntryId, ref.snapshotId, ref.chunkHash⟩
  forth : ∀ edge ∈ store.edges.rows, edge ∈ store'.edges.rows
  added : ∀ row, store.get? particleId = some row → ref ∉ row.model.provenance →
    ∃ edge ∈ store'.edges.rows, edge.particleId = particleId ∧
      edge.corpusEntryId = ref.corpusEntryId

theorem edgeAdded_appendProvenanceRef (store : Store) (particleId : String) (ref : ProvenanceRef) :
    EdgeAdded particleId ref store (appendProvenanceRef store particleId ref).1 := by
  unfold appendProvenanceRef
  cases hrow : store.get? particleId with
  | none => exact ⟨rfl, rfl, fun _ => Or.inl, fun _ => id, by simp [hrow]⟩
  | some row =>
      by_cases hmem : ref ∈ row.model.provenance
      · simp only [if_pos hmem]
        refine ⟨rfl, rfl, fun _ => Or.inl, fun _ => id, fun row' hrow' hnot => ?_⟩
        obtain rfl := Option.some.inj (hrow.symm.trans hrow')
        exact absurd hmem hnot
      · simp only [if_neg hmem]
        let edge : ProvenanceEdgeRow :=
          ⟨particleId, ref.corpusEntryId, ref.snapshotId, ref.chunkHash⟩
        have hrows := Table.rows_insertIfAbsent store.edges edge
        unfold Table.insertIfAbsent at hrows
        refine ⟨rfl, rfl, fun e he => ?_, fun e he => ?_, fun _ _ _ => ?_⟩
        · rw [hrows] at he
          split_ifs at he
          · rcases List.mem_append.1 he with he | he
            · exact Or.inl he
            · exact Or.inr (List.mem_singleton.1 he)
          · exact Or.inl he
        · rw [hrows]
          split_ifs
          · exact List.mem_append_left _ he
          · exact he
        · rw [hrows]
          split_ifs with hnone
          · exact ⟨edge, List.mem_append_right _ (List.mem_singleton_self _), rfl, rfl⟩
          · obtain ⟨found, hfound⟩ := Option.ne_none_iff_exists'.1 hnone
            obtain ⟨hin, hkey⟩ := Table.get?_eq_some.1 hfound
            exact ⟨found, hin, congrArg Prod.fst hkey, congrArg Prod.snd hkey⟩

/-- **One more observation keeps the citations sound.** -/
theorem CitationsSound.appendProvenanceRef (h : CitationsSound store) (particleId : String)
    {ref : ProvenanceRef} (hciting : Citable store ref) :
    CitationsSound (appendProvenanceRef store particleId ref).1 := by
  have hget := get?_appendProvenanceRef store particleId ref
  obtain ⟨-, hsnapshots, hback, hforth, hadded⟩ :=
    edgeAdded_appendProvenanceRef store particleId ref
  have hold : ∀ id row', (ParticlesEngine.appendProvenanceRef store particleId ref).1.get? id =
      some row' → ∃ row, store.get? id = some row ∧ ∀ r ∈ row'.model.provenance,
        r ∈ row.model.provenance ∨ (particleId = id ∧ r = ref ∧ ref ∉ row.model.provenance) := by
    intro id row' hrow'
    rw [hget] at hrow'
    split_ifs at hrow' with hid
    · obtain ⟨row, hrow, rfl⟩ := Option.map_eq_some_iff.1 hrow'
      refine ⟨row, hrow, fun r hr => ?_⟩
      unfold ParticleRow.noteRef at hr
      split_ifs at hr with hmem
      · exact Or.inl hr
      · rcases List.mem_append.1 hr with hr | hr
        · exact Or.inl hr
        · exact Or.inr ⟨hid, List.mem_singleton.1 hr, hmem⟩
    · exact ⟨row', hrow', fun _ => Or.inl⟩
  refine ⟨fun id row' hrow' r hr hsource => ?_, fun edge hedge => ?_,
    fun edge hedge record hrecord habsent => ?_, fun id row' hrow' r hr record hrecord habsent => ?_⟩
  · obtain ⟨row, hrow, hrefs⟩ := hold id row' hrow'
    rcases hrefs r hr with hr | ⟨rfl, rfl, hnot⟩
    · obtain ⟨edge, hedge, hcites⟩ := h.indexed id row hrow r hr hsource
      exact ⟨edge, hforth edge hedge, hcites⟩
    · exact hadded row hrow hnot
  · rcases hback edge hedge with hedge | rfl
    · exact h.named edge hedge
    · exact hciting.1
  · rw [hsnapshots] at hrecord
    rcases hback edge hedge with hedge | rfl
    · exact h.edges edge hedge record hrecord habsent
    · exact hciting.2 record hrecord habsent
  · rw [hsnapshots] at hrecord
    obtain ⟨row, hrow, hrefs⟩ := hold id row' hrow'
    rcases hrefs r hr with hr | ⟨-, rfl, -⟩
    · exact h.refs id row hrow r hr record hrecord habsent
    · exact hciting.2 record hrecord habsent

end Writes

/-! ### The records of an entry -/

section Records

variable {store st : Store} {entryId : String}

/-- The records of one entry. -/
def Store.recordsOf (store : Store) (entryId : String) : List SnapshotRow :=
  store.snapshots.rows.filter fun row => row.entryId = entryId

theorem mem_recordsOf {row : SnapshotRow} :
    row ∈ store.recordsOf entryId ↔ row ∈ store.snapshots.rows ∧ row.entryId = entryId := by
  simp [Store.recordsOf]

/-- The current generation is read off the records of the entry. -/
theorem latestRecord_congr (h : st.recordsOf entryId = store.recordsOf entryId) :
    latestRecord st entryId = latestRecord store entryId := by
  have hfilter : ∀ s : Store, s.snapshots.rows.filter (·.isGeneration entryId) =
      (s.recordsOf entryId).filter (·.isGeneration entryId) := by
    intro s
    rw [Store.recordsOf, List.filter_filter]
    refine List.filter_congr fun row _ => ?_
    simp only [SnapshotRow.isGeneration, Bool.and_assoc]
    cases decide (row.entryId = entryId) <;> simp
  rw [latestRecord, latestRecord, hfilter, hfilter, h]

/-- A status of one record leaves the records of the other entries. -/
theorem recordsOf_updateExtractionStatus {record : SnapshotRow} (hrecord : record ∈ st.snapshots.rows)
    (hne : record.entryId ≠ entryId) (status : ExtractionStatus) :
    (updateExtractionStatus st record.snapshotId status).recordsOf entryId =
      st.recordsOf entryId := by
  unfold Store.recordsOf updateExtractionStatus
  simp only [Table.modify]
  rw [List.filter_map]
  have hfilter : ∀ row ∈ st.snapshots.rows, ((fun r : SnapshotRow => decide (r.entryId = entryId)) ∘
      fun r => if r.snapshotId = record.snapshotId then { r with extractionStatus := status }
        else r) row = decide (row.entryId = entryId) := by
    intro row _
    simp only [Function.comp_apply]
    split_ifs <;> rfl
  rw [List.filter_congr hfilter]
  have hid : ∀ row ∈ st.snapshots.rows.filter (fun row => row.entryId = entryId),
      (if row.snapshotId = record.snapshotId then { row with extractionStatus := status } else row) =
        row := by
    intro row hrow
    obtain ⟨hmem, hentry⟩ := mem_recordsOf.1 hrow
    refine if_neg fun heq => hne ?_
    rw [← Table.eq_of_key_eq hmem hrecord heq, hentry]
  rw [List.map_congr_left hid, List.map_id']

/-- A record that is COMPLETE, uncollapsed and newer than the other records of its entry is the current
generation. -/
theorem latestRecord_of_newest {record : SnapshotRow} (hrecord : record ∈ st.snapshots.rows)
    (hgeneration : record.isGeneration entryId = true)
    (hnewest : ∀ other ∈ st.snapshots.rows, other.entryId = entryId → other ≠ record →
      other.capturedAt < record.capturedAt) : latestRecord st entryId = some record := by
  cases hlatest : latestRecord st entryId with
  | none => exact absurd hgeneration (latestRecord_eq_none.1 hlatest record hrecord)
  | some latest =>
      obtain ⟨hmem, hlatestgen, hall⟩ := latestRecord_eq_some hlatest
      by_contra hne
      have hentry : latest.entryId = entryId := by
        simp only [SnapshotRow.isGeneration, Bool.and_eq_true, decide_eq_true_eq] at hlatestgen
        exact hlatestgen.1.1.1
      have hlt := hnewest latest hmem hentry fun heq => hne (congrArg some heq)
      exact absurd (hall record hrecord hgeneration) (not_le.2 hlt)

end Records

/-! ### One absence -/

/-- The store after the absences `done`, which retired `retired`. -/
structure AbsencesDone (store st : Store) (done : List String) (retired : List String) : Prop where
  entries : st.entries = store.entries
  edges : st.edges = store.edges
  kept : ∀ id, id ∉ retired → st.get? id = store.get? id
  retired : ∀ id ∈ retired, ∃ now row, store.get? id = some row ∧ row.model.status = .ACTIVE ∧
    st.get? id = some (row.withStatus now .PROVENANCE_STALE (some .RETRACTED_DEPENDENCY))
  records : ∀ entryId, entryId ∉ done → st.recordsOf entryId = store.recordsOf entryId
  absent : ∀ entryId ∈ done, ∃ entry record, store.entries.get? entryId = some entry ∧
    entry.mutability = .MUTABLE ∧ latestRecord st entryId = some record ∧
    record.warcRecordType = .ABSENT

section Step

variable {store st : Store} {done retired : List String}

theorem AbsencesDone.refl (store : Store) : AbsencesDone store store [] [] :=
  ⟨rfl, rfl, fun _ _ => rfl, by simp, fun _ _ => rfl, by simp⟩

/-- A row keeps its references. -/
theorem AbsencesDone.provenance (h : AbsencesDone store st done retired) {id : String}
    {row : ParticleRow} (hrow : st.get? id = some row) :
    ∃ before, store.get? id = some before ∧ row.model.provenance = before.model.provenance ∧
      (row.model.status = .ACTIVE ↔ before.model.status = .ACTIVE ∧ id ∉ retired) := by
  by_cases hid : id ∈ retired
  · obtain ⟨now, before, hbefore, -, hst⟩ := h.retired id hid
    obtain rfl := Option.some.inj (hrow.symm.trans hst)
    refine ⟨before, hbefore, rfl, ?_⟩
    simp [hid, ParticleRow.withStatus]
  · rw [h.kept id hid] at hrow
    exact ⟨row, hrow, rfl, by simp [hid]⟩

/-- While the absences are processed, an entry outside of the done ones attests as before and a done
one does not. -/
theorem AbsencesDone.attests_iff (h : AbsencesDone store st done retired) (ref : SourceRef) :
    (store.entries.get? ref.entryId).isSome = true →
      (attests ref (getEntryCurrency st ref.entryId) = true ↔ ref.entryId ∉ done ∧
        attests ref (getEntryCurrency store ref.entryId) = true) := by
  intro _
  by_cases hdone : ref.entryId ∈ done
  · obtain ⟨entry, record, hentry, hmutable, hlatest, habsent⟩ := h.absent _ hdone
    simp [hdone, getEntryCurrency, h.entries, hentry, hmutable, hlatest, habsent, attests]
  · rw [getEntryCurrency, getEntryCurrency, h.entries, latestRecord_congr (h.records _ hdone)]
    simp [hdone]

/-- The claims that an absence retires: ACTIVE, of an edge to the entry, and attested by no entry that is
not done. -/
def AbsenceRetires (store : Store) (done : List String) (entryId id : String) : Prop :=
  ∃ row, store.get? id = some row ∧ row.model.status = .ACTIVE ∧
    (∃ edge ∈ store.edges.rows, edge.particleId = id ∧ edge.corpusEntryId = entryId) ∧
    statedOutside store (done ++ [entryId]) row.model = false

/-- An absence that is processed is measured against itself. -/
theorem currentGeneration_absence (h : AbsencesDone store st done retired) {call : AbsenceCall}
    (hgiven : GivenAbsence store call) (hnew : call.entryId ∉ done) :
    currentGeneration st call.entryId call.snapshotId = { snapshotId := call.snapshotId } := by
  obtain ⟨record, hrecord, hid, hentry, -, -, hnewest⟩ := hgiven.record
  have hst : record ∈ st.snapshots.rows :=
    (mem_recordsOf.1 (h.records _ hnew ▸ mem_recordsOf.2 ⟨hrecord, hentry⟩)).1
  have hget : st.snapshots.get? call.snapshotId = some record := hid ▸ Table.get?_key hst
  obtain ⟨entry, hrow, hmutable⟩ := hgiven.mutable
  rw [currentGeneration, getEntryCurrency, h.entries, hrow, Option.map_some]
  simp only [hmutable, if_true, latestRecord_congr (h.records _ hnew), hget]
  cases hlatest : latestRecord store call.entryId with
  | none => rfl
  | some latest =>
      obtain ⟨hmem, hgen, -⟩ := latestRecord_eq_some hlatest
      have hlatestentry : latest.entryId = call.entryId := by
        simp only [SnapshotRow.isGeneration, Bool.and_eq_true, decide_eq_true_eq] at hgen
        exact hgen.1.1.1
      have hheld : st.snapshots.get? latest.snapshotId = some latest :=
        Table.get?_key (mem_recordsOf.1
          (h.records _ hnew ▸ mem_recordsOf.2 ⟨hmem, hlatestentry⟩)).1
      simp only [Option.map_some, hheld]
      by_cases hsame : latest = record
      · subst hsame
        rw [if_pos hid]
      · have hle := (hnewest latest hmem hlatestentry hsame).le
        rw [if_pos hle, ite_self]

/-- The claims that the cascade of an absence demotes. -/
theorem mem_supersededIds_absence (h : AbsencesDone store st done retired)
    (hsound : CitationsSound store) {call : AbsenceCall} (hgiven : GivenAbsence store call)
    (id : String) :
    id ∈ supersededIds st call.entryId { snapshotId := call.snapshotId } [] true ↔
      AbsenceRetires store done call.entryId id ∧ id ∉ retired := by
  obtain ⟨record, hrecord, hsnapshot, -, habsent, -⟩ := hgiven.record
  have hedge : ∀ edge ∈ store.edges.rows,
      (edge.otherSnapshot call.entryId call.snapshotId true = true ↔
        edge.corpusEntryId = call.entryId) := by
    intro edge hedge
    have hne := hsound.edges edge hedge record hrecord habsent
    rw [hsnapshot] at hne
    exact otherSnapshot_iff_of_ne hne call.entryId
  have hstated : ∀ (row before : ParticleRow), store.get? id = some before →
      row.model.provenance = before.model.provenance →
      (CurrentlyStated st call.entryId call.snapshotId row.model ↔
        statedOutside store (done ++ [call.entryId]) before.model = true) := by
    intro row before hbefore hsame
    rw [← attested_iff, attested, statedOutside, hsame, List.any_eq_true, List.any_eq_true]
    refine exists_congr fun ref => and_congr_right fun href => ?_
    have hcited := hsound.refs id before hbefore ref href record hrecord habsent
    rw [hsnapshot] at hcited
    by_cases hentry : ref.corpusEntryId = call.entryId
    · simp [hentry, hcited]
    · simp only [Bool.and_eq_true, decide_eq_true_eq, hentry, if_false, h.entries,
        List.mem_append, List.mem_singleton, or_false, and_assoc]
      refine and_congr_right fun _ => ?_
      constructor
      · rintro ⟨hsome, hattests⟩
        obtain ⟨hnot, hattests⟩ := (h.attests_iff ⟨_, _⟩ hsome).1 hattests
        exact ⟨hnot, hsome, hattests⟩
      · rintro ⟨hnot, hsome, hattests⟩
        exact ⟨hsome, (h.attests_iff ⟨_, _⟩ hsome).2 ⟨hnot, hattests⟩⟩
  rw [mem_supersededIds]
  simp only [Anchored, h.edges, Bool.or_false, List.not_mem_nil, not_false_eq_true, true_and]
  constructor
  · rintro ⟨row, hrow, ⟨hactive, edge, hmem, hpid, hother⟩, hnot⟩
    obtain ⟨before, hbefore, hprovenance, hstatus⟩ := h.provenance hrow
    obtain ⟨hbeforeactive, hfree⟩ := hstatus.1 hactive
    refine ⟨⟨before, hbefore, hbeforeactive, ⟨edge, hmem, ?_, (hedge edge hmem).1 hother⟩, ?_⟩, hfree⟩
    · rw [hpid]
      exact ParticleTable.id_of_get? hrow
    · rw [← Bool.not_eq_true, ← hstated row before hbefore hprovenance]
      exact hnot
  · rintro ⟨⟨before, hbefore, hactive, ⟨edge, hmem, hpid, hentry⟩, hnot⟩, hfree⟩
    have hrow : st.get? id = some before := by rw [h.kept id hfree, hbefore]
    refine ⟨before, hrow, ⟨hactive, edge, hmem, ?_, (hedge edge hmem).2 hentry⟩, ?_⟩
    · rw [hpid]
      exact (ParticleTable.id_of_get? hrow).symm
    · rw [hstated before before hbefore rfl, hnot]
      simp

/-- **One absence** retires the claims with an edge to its entry that no other entry attests; its entry
then states nothing. -/
theorem processAbsence_step (table : TransitionTable) (h : AbsencesDone store st done retired)
    (hsound : CitationsSound store) {call : AbsenceCall} (hgiven : GivenAbsence store call)
    (hnew : call.entryId ∉ done) :
    ∃ st' demoted, processAbsence table call.now st call.entryId call.snapshotId =
        .ok (st', demoted) ∧
      AbsencesDone store st' (done ++ [call.entryId]) (retired ++ demoted) ∧
      ∀ id, id ∈ demoted ↔ AbsenceRetires store done call.entryId id ∧ id ∉ retired := by
  obtain ⟨entry, hentry, hmutable⟩ := hgiven.mutable
  obtain ⟨result, hok, hdemoted, hretired⟩ := cascade_retired table call.now call.snapshotId [] true
    "extract-absence" (h.entries ▸ hentry) hmutable
  rw [currentGeneration_absence h hgiven hnew] at hdemoted
  have hmem : ∀ id, id ∈ result.demoted ↔ AbsenceRetires store done call.entryId id ∧ id ∉ retired := by
    rw [hdemoted]
    exact mem_supersededIds_absence h hsound hgiven
  obtain ⟨record, hrecord, hid, hrecordentry, habsent, hlive, hnewest⟩ := hgiven.record
  have hrecords : ∀ entryId, entryId ∉ done →
      result.store.recordsOf entryId = store.recordsOf entryId := by
    intro entryId hfree
    rw [← h.records entryId hfree, Store.recordsOf, Store.recordsOf, hretired.snapshots]
  have hst : record ∈ result.store.snapshots.rows :=
    (mem_recordsOf.1 (hrecords _ hnew ▸ mem_recordsOf.2 ⟨hrecord, hrecordentry⟩)).1
  refine ⟨updateExtractionStatus result.store call.snapshotId .COMPLETE, result.demoted, ?_, ?_, hmem⟩
  · rw [processAbsence, hok]
    rfl
  refine ⟨hretired.entries.trans h.entries, hretired.edges.trans h.edges, fun id hfree => ?_,
    fun id hin => ?_, fun entryId hfree => ?_, fun entryId hin => ?_⟩
  · rw [List.mem_append, not_or] at hfree
    exact (hretired.rows id).trans ((if_neg hfree.2).trans (h.kept id hfree.1))
  · by_cases hthen : id ∈ result.demoted
    · obtain ⟨⟨row, hrow, hactive, -⟩, hfree⟩ := (hmem id).1 hthen
      refine ⟨call.now, row, hrow, hactive, (hretired.rows id).trans ?_⟩
      rw [if_pos hthen, h.kept id hfree, hrow, Option.map_some]
    · obtain ⟨now, row, hrow, hactive, hbefore⟩ :=
        h.retired id ((List.mem_append.1 hin).resolve_right hthen)
      exact ⟨now, row, hrow, hactive, (hretired.rows id).trans ((if_neg hthen).trans hbefore)⟩
  · rw [List.mem_append, List.mem_singleton, not_or] at hfree
    rw [← hrecords entryId hfree.1, ← hid]
    exact recordsOf_updateExtractionStatus hst (fun heq => hfree.2 (heq.symm.trans hrecordentry)) _
  · by_cases hthis : entryId = call.entryId
    · subst hthis
      -- the record is now the current generation of its entry
      let marked : SnapshotRow := { record with extractionStatus := .COMPLETE }
      have hmarked : marked ∈
          (updateExtractionStatus result.store call.snapshotId .COMPLETE).snapshots.rows :=
        List.mem_map.2 ⟨record, hst, if_pos hid⟩
      refine ⟨entry, marked, hentry, hmutable, latestRecord_of_newest hmarked ?_ ?_, habsent⟩
      · simp [marked, SnapshotRow.isGeneration, hrecordentry, habsent, hlive, GENERATION_TYPES]
      · intro other hother hotherentry hne
        obtain ⟨before, hbefore, rfl⟩ := List.mem_map.1 hother
        by_cases hsame : before.snapshotId = call.snapshotId
        · obtain rfl := Table.eq_of_key_eq hbefore hst (hsame.trans hid.symm)
          rw [if_pos hsame] at hne
          exact absurd rfl hne
        · rw [if_neg hsame] at hotherentry ⊢
          refine hnewest before ?_ hotherentry fun heq => hsame (heq ▸ hid)
          exact (mem_recordsOf.1
            (hrecords _ hnew ▸ mem_recordsOf.2 ⟨hbefore, hotherentry⟩)).1
    · have hdone := (List.mem_append.1 hin).resolve_right fun h => hthis (List.mem_singleton.1 h)
      obtain ⟨entry', record', hentry', hmutable', hlatest, habsent'⟩ := h.absent entryId hdone
      refine ⟨entry', record', hentry', hmutable', ?_, habsent'⟩
      rw [← hlatest]
      refine latestRecord_congr ?_
      rw [← hid, recordsOf_updateExtractionStatus hst
        (fun heq => hthis (heq.symm.trans hrecordentry)), Store.recordsOf, Store.recordsOf,
        hretired.snapshots]

end Step

/-! ### A sequence of absences -/

/-- The claims that a sequence of absences retires: at some absence they have an edge to its entry and
no entry attests them that is not done. -/
def RetiredInTurn (store : Store) (entryIds : List String) (id : String) : Prop :=
  ∃ before entryId after, entryIds = before ++ entryId :: after ∧ AbsenceRetires store before entryId id

theorem retiredInTurn_concat {store : Store} {entryIds : List String} {entryId id : String} :
    RetiredInTurn store (entryIds ++ [entryId]) id ↔
      RetiredInTurn store entryIds id ∨ AbsenceRetires store entryIds entryId id := by
  constructor
  · rintro ⟨before, e, after, hsplit, hretired⟩
    cases after using List.reverseRecOn with
    | nil =>
        obtain ⟨rfl, hlast⟩ := List.append_inj' hsplit rfl
        obtain rfl := List.head_eq_of_cons_eq hlast
        exact Or.inr hretired
    | append_singleton after last =>
        rw [← List.cons_append, ← List.append_assoc] at hsplit
        exact Or.inl ⟨before, e, after, (List.append_inj' hsplit rfl).1, hretired⟩
  · rintro (⟨before, e, after, rfl, hretired⟩ | hretired)
    · exact ⟨before, e, after ++ [entryId], by simp, hretired⟩
    · exact ⟨entryIds, entryId, [], rfl, hretired⟩

/-- **What a sequence of absences leaves.** -/
theorem processAbsences_spec (table : TransitionTable) {store : Store} (hsound : CitationsSound store)
    (calls : List AbsenceCall) (hdistinct : (calls.map AbsenceCall.entryId).Nodup)
    (hgiven : ∀ call ∈ calls, GivenAbsence store call) :
    ∃ after retired, processAbsences table store calls = .ok (after, retired) ∧
      AbsencesDone store after (calls.map AbsenceCall.entryId) retired ∧
      ∀ id, id ∈ retired ↔ RetiredInTurn store (calls.map AbsenceCall.entryId) id := by
  induction calls using List.reverseRecOn with
  | nil => exact ⟨store, [], rfl, .refl store, by simp [RetiredInTurn]⟩
  | append_singleton calls call ih =>
      rw [List.map_append, List.nodup_append'] at hdistinct
      obtain ⟨st, retired, hok, hdone, hmem⟩ := ih hdistinct.1 fun c hc =>
        hgiven c (List.mem_append_left _ hc)
      have hnew : call.entryId ∉ calls.map AbsenceCall.entryId := fun hmem' =>
        hdistinct.2.2 hmem' (List.mem_singleton_self _)
      obtain ⟨st', demoted, hcall, hdone', hdemoted⟩ := processAbsence_step table hdone hsound
        (hgiven call (List.mem_append_right _ (List.mem_singleton_self _))) hnew
      refine ⟨st', retired ++ demoted, ?_, ?_, fun id => ?_⟩
      · unfold processAbsences at hok ⊢
        rw [List.foldlM_append, hok]
        simp only [List.foldlM_cons, List.foldlM_nil, bind, Except.bind, hcall]
        rfl
      · rw [List.map_append]
        exact hdone'
      · rw [List.map_append, List.map_singleton, retiredInTurn_concat, List.mem_append, hdemoted,
          ← hmem]
        tauto

/-! ### The law -/

theorem mem_claimsAbsencesWouldRetire {store : Store} (hsound : CitationsSound store)
    {entryIds : List String} (hmutable : ∀ entryId ∈ entryIds, ∃ entry,
      store.entries.get? entryId = some entry ∧ entry.mutability = .MUTABLE) {id : String} :
    id ∈ claimsAbsencesWouldRetire store entryIds ↔
      ∃ row, store.get? id = some row ∧ row.model.status = .ACTIVE ∧
        (∃ entryId ∈ entryIds, ∃ edge ∈ store.edges.rows, edge.particleId = id ∧
          edge.corpusEntryId = entryId) ∧ statedOutside store entryIds row.model = false := by
  have hall : (entryIds.filter fun entryId =>
      (getEntryCurrency store entryId).any EntryCurrency.mutable) = entryIds := by
    refine List.filter_eq_self.2 fun entryId hin => ?_
    obtain ⟨entry, hentry, hmut⟩ := hmutable entryId hin
    simp [getEntryCurrency, hentry, hmut]
  have hedge : ∀ edge ∈ store.edges.rows, ∀ entryId, (edge.otherSnapshot entryId "" true = true ↔
      edge.corpusEntryId = entryId) := by
    intro edge hedge entryId
    exact otherSnapshot_iff_of_ne (hsound.named edge hedge) entryId
  unfold claimsAbsencesWouldRetire
  simp only [hall, mem_sortBy, List.mem_filter, mem_firstByKey_id, List.mem_flatMap,
    mem_candidates, Anchored]
  constructor
  · rintro ⟨⟨entryId, hin, row, hrow, hactive, edge, hmem, hpid, hother⟩, hnot⟩
    rw [hrow, Option.any_some, Bool.not_eq_true'] at hnot
    refine ⟨row, hrow, hactive, ⟨entryId, hin, edge, hmem, ?_, (hedge edge hmem entryId).1 hother⟩,
      hnot⟩
    rw [hpid]
    exact ParticleTable.id_of_get? hrow
  · rintro ⟨row, hrow, hactive, ⟨entryId, hin, edge, hmem, hpid, hentry⟩, hnot⟩
    refine ⟨⟨entryId, hin, row, hrow, hactive, edge, hmem, ?_, (hedge edge hmem entryId).2 hentry⟩, ?_⟩
    · rw [hpid]
      exact (ParticleTable.id_of_get? hrow).symm
    · rw [hrow, Option.any_some, Bool.not_eq_true']
      exact hnot

/-- Of the entries that a claim has an edge to, one is the last. -/
theorem exists_last {P : String → Prop} (entryIds : List String) (h : ∃ entryId ∈ entryIds, P entryId) :
    ∃ before entryId after, entryIds = before ++ entryId :: after ∧ P entryId ∧
      ∀ other ∈ after, ¬ P other := by
  induction entryIds using List.reverseRecOn with
  | nil => simp at h
  | append_singleton entryIds last ih =>
      by_cases hlast : P last
      · exact ⟨entryIds, last, [], rfl, hlast, by simp⟩
      · obtain ⟨entryId, hin, hP⟩ := h
        have hin' : entryId ∈ entryIds := by
          refine (List.mem_append.1 hin).resolve_right fun hmem => hlast ?_
          rwa [← List.mem_singleton.1 hmem]
        obtain ⟨before, entryId, after, rfl, hP, hafter⟩ := ih ⟨entryId, hin', hP⟩
        refine ⟨before, entryId, after ++ [last], by simp, hP, fun other hother => ?_⟩
        rcases List.mem_append.1 hother with hother | hother
        · exact hafter other hother
        · rwa [List.mem_singleton.1 hother]

/-- **The claims retired in turn are those of the preview**: the last of the entries that a claim has an
edge to finds every other one done. -/
theorem retiredInTurn_iff {store : Store} (hsound : CitationsSound store) {entryIds : List String}
    (hmutable : ∀ entryId ∈ entryIds, ∃ entry,
      store.entries.get? entryId = some entry ∧ entry.mutability = .MUTABLE) {id : String} :
    RetiredInTurn store entryIds id ↔ id ∈ claimsAbsencesWouldRetire store entryIds := by
  rw [mem_claimsAbsencesWouldRetire hsound hmutable]
  constructor
  · rintro ⟨before, entryId, after, rfl, row, hrow, hactive, hedge, hnot⟩
    refine ⟨row, hrow, hactive, ⟨entryId, by simp, hedge⟩, ?_⟩
    rw [statedOutside, List.any_eq_false] at hnot ⊢
    intro ref href hstated
    refine hnot ref href ?_
    simp only [Bool.and_eq_true, decide_eq_true_eq, List.mem_append, List.mem_cons, not_or] at hstated ⊢
    simp [hstated]
  · rintro ⟨row, hrow, hactive, hedge, hnot⟩
    obtain ⟨before, entryId, after, rfl, hlast, hothers⟩ := exists_last entryIds hedge
    refine ⟨before, entryId, after, rfl, row, hrow, hactive, hlast, ?_⟩
    rw [statedOutside, List.any_eq_false] at hnot ⊢
    intro ref href hstated
    refine hnot ref href ?_
    simp only [Bool.and_eq_true, decide_eq_true_eq, List.mem_append, List.mem_cons,
      List.not_mem_nil, or_false, not_or] at hstated ⊢
    obtain ⟨⟨⟨hsource, hbefore, hne⟩, hsome⟩, hattests⟩ := hstated
    -- the claim has an edge to every entry that it cites
    have hafter : ref.corpusEntryId ∉ after := fun hin =>
      hothers _ hin (hsound.indexed id row hrow ref href hsource)
    exact ⟨⟨⟨hsource, hbefore, hne, hafter⟩, hsome⟩, hattests⟩

/-- **In any order the absences of a set of entries retire exactly the claims of the preview, and change no
other claim.** -/
theorem absences_retire_previewed (table : TransitionTable) (store : Store)
    (hsound : CitationsSound store) (entryIds : List String) (calls : List AbsenceCall)
    (horder : (calls.map AbsenceCall.entryId).Nodup)
    (hset : ∀ entryId, entryId ∈ calls.map AbsenceCall.entryId ↔ entryId ∈ entryIds)
    (hgiven : ∀ call ∈ calls, GivenAbsence store call) :
    ∃ after retired, processAbsences table store calls = .ok (after, retired) ∧
      (∀ id, id ∈ retired ↔ id ∈ claimsAbsencesWouldRetire store entryIds) ∧
      (∀ id ∈ retired, ∃ now row, store.get? id = some row ∧ row.model.status = .ACTIVE ∧
        after.get? id = some (row.withStatus now .PROVENANCE_STALE (some .RETRACTED_DEPENDENCY))) ∧
      ∀ id, id ∉ retired → after.get? id = store.get? id := by
  obtain ⟨after, retired, hok, hdone, hmem⟩ := processAbsences_spec table hsound calls horder hgiven
  refine ⟨after, retired, hok, fun id => ?_, hdone.retired, hdone.kept⟩
  have hmutable : ∀ entryId ∈ calls.map AbsenceCall.entryId, ∃ entry,
      store.entries.get? entryId = some entry ∧ entry.mutability = .MUTABLE := by
    intro entryId hin
    obtain ⟨call, hcall, rfl⟩ := List.mem_map.1 hin
    exact (hgiven call hcall).mutable
  rw [hmem, retiredInTurn_iff hsound hmutable, mem_claimsAbsencesWouldRetire hsound hmutable,
    mem_claimsAbsencesWouldRetire hsound fun e he => hmutable e ((hset e).2 he)]
  have hstated : ∀ p, statedOutside store (calls.map AbsenceCall.entryId) p =
      statedOutside store entryIds p := by
    intro p
    simp only [statedOutside, hset]
  simp only [hset, hstated]

/-- The record of an absence. -/
def absentRow (snapshotId entryId : String) (capturedAt : Instant) : SnapshotRow where
  snapshotId := snapshotId
  entryId := entryId
  capturedAt := capturedAt
  warcRecordType := .ABSENT

/-- `E` and `F` are deleted, and the particle `p` states what both said. -/
def deletedStore : Store :=
  (generationStore [{ entryId := "F" }]
    [responseRow "E1" "E" 1 .COMPLETE, responseRow "F1" "F" 1 .COMPLETE, absentRow "E2" "E" 2,
      absentRow "F2" "F" 2]
    [⟨.SOURCE, "E", "E1", none, none⟩, ⟨.SOURCE, "F", "F1", none, none⟩]).getD {}

theorem absences_retire_previewed_shared :
    ∃ after retired, processAbsences .documented deletedStore [⟨5, "F", "F2"⟩, ⟨6, "E", "E2"⟩] =
        .ok (after, retired) ∧
      (∀ id, id ∈ retired ↔ id ∈ claimsAbsencesWouldRetire deletedStore ["E", "F"]) ∧
      claimsAbsencesWouldRetire deletedStore ["E", "F"] = ["p"] := by
  have hsound : CitationsSound deletedStore :=
    .of_rows (by decide +kernel) (by decide +kernel) (by decide +kernel)
  have hE : GivenAbsence deletedStore ⟨6, "E", "E2"⟩ :=
    ⟨⟨{ entryId := "E" }, by decide +kernel, rfl⟩, by decide +kernel⟩
  have hF : GivenAbsence deletedStore ⟨5, "F", "F2"⟩ :=
    ⟨⟨{ entryId := "F" }, by decide +kernel, rfl⟩, by decide +kernel⟩
  obtain ⟨after, retired, hok, hmem, -⟩ := absences_retire_previewed .documented deletedStore hsound
    ["E", "F"] [⟨5, "F", "F2"⟩, ⟨6, "E", "E2"⟩] (by decide) (by simp [or_comm]) (by simp [hE, hF])
  exact ⟨after, retired, hok, hmem, by decide +kernel⟩

end ParticlesEngine
