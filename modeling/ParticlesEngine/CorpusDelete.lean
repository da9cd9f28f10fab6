/-
**Deleting a corpus entry.**

`corpus delete` removes an entry, its snapshots and its references from every particle that cites
it.  A particle that only the entry supports is deleted with it; a particle that other entries also
support is stripped of the entry's references.  No index table has a foreign key, so the rows of a
deleted particle are swept table by table.

Main definitions:

* `decideEntryDeletion`, `planEntryDeletion` — which particles are deleted, and which stripped;
* `stripEntryProvenanceRefs`, `purgeParticleIndexRows`, `purgeOrphanSubjects` — the sweeps;
* `deleteEntry` — the delete.

Main result:

* `deleteEntry_spec` — **the delete succeeds, and what it leaves in each table**.
-/

import ParticlesEngine.ConflictPlan

set_option relaxedAutoImplicit false
set_option autoImplicit false

namespace ParticlesEngine

/-! ### The decision -/

/-- A SOURCE reference to the entry. -/
def ProvenanceRef.isSourceOf (ref : ProvenanceRef) (entryId : String) : Bool :=
  ref.type = .SOURCE && ref.corpusEntryId = entryId

/-- One surviving particle and what the delete removes from it. -/
structure ProvenanceStrip where
  particleId : String
  removedRefs : ℕ
  /-- a removed reference was the first, so the decay anchor moves -/
  anchorMoved : Bool
  deriving DecidableEq, Repr

/-- Which of an entry's particles are deleted and which are stripped. -/
structure EntryDeletionDecision where
  toDelete : List String := []
  toStrip : List ProvenanceStrip := []
  deriving DecidableEq, Repr

/-- The loop body of `decide_entry_deletion`. -/
def decideParticle (entryId : String) (decision : EntryDeletionDecision) (p : Particle) :
    EntryDeletionDecision :=
  let namesEntry := p.provenance.map (·.isSourceOf entryId)
  let sources := (p.provenance.filter fun ref => ref.type = .SOURCE).map
    ProvenanceRef.corpusEntryId
  if ¬ namesEntry.any id then decision
  else if sources.toFinset = {entryId} then
    { decision with toDelete := decision.toDelete ++ [p.id] }
  else
    { decision with
      toStrip := decision.toStrip ++
        [⟨p.id, namesEntry.count true, namesEntry.head? = some true⟩] }

/-- **`decide_entry_deletion`.** -/
def decideEntryDeletion (entryId : String) (particles : List Particle) : EntryDeletionDecision :=
  particles.foldl (decideParticle entryId) {}

/-- `get_particles_for_entry`: of any status, through the edge index. -/
def getParticlesForEntry (store : Store) (corpusEntryId : String) : List Particle :=
  (store.particles.rows.filter fun row => store.edges.rows.any fun edge =>
    edge.particleId = row.id && edge.corpusEntryId = corpusEntryId).map ParticleRow.toModel

/-- What a delete would do. -/
structure EntryDeletionPlan where
  entryId : String
  snapshots : ℕ
  decision : EntryDeletionDecision
  /-- the deleted particles that are the tombstones of judgments -/
  judgmentsDeleted : List String
  deriving DecidableEq, Repr

/-- `plan_entry_deletion`. -/
def planEntryDeletion (store : Store) (entryId : String) : EntryDeletionPlan :=
  let particles := getParticlesForEntry store entryId
  let decision := decideEntryDeletion entryId particles
  { entryId := entryId
    snapshots := (store.snapshots.rows.filter fun row => row.entryId = entryId).length
    decision := decision
    judgmentsDeleted := (particles.filter fun p =>
      p.id ∈ decision.toDelete ∧ p.isJudgmentRetired).map Particle.id }

/-! ### The sweeps -/

/-- The row without the entry's SOURCE references. -/
def ParticleRow.stripped (row : ParticleRow) (entryId : String) : ParticleRow :=
  { row with model := { row.model with
      provenance := row.model.provenance.filter fun ref => !ref.isSourceOf entryId } }

/-- **`strip_entry_provenance_refs`**: the number of references removed, and the particle's edge row
for the entry goes with them. -/
def stripEntryProvenanceRefs (store : Store) (particleId corpusEntryId : String) :
    Except StoreError (Store × ℕ) := do
  let row ← orRaise (store.get? particleId) (.notFound particleId)
  let kept := (row.stripped corpusEntryId).model.provenance
  require (kept.any fun ref => ref.type = .SOURCE) (.solelySupported particleId)
  let store := store.modifyParticle particleId (·.stripped corpusEntryId) (fun _ => rfl) fun _ => rfl
  return ({ store with edges := store.edges.filter fun edge =>
      ¬ (edge.particleId = particleId ∧ edge.corpusEntryId = corpusEntryId) },
    row.model.provenance.length - kept.length)

/-- **`purge_particle_index_rows`**: the subject links, the tag edges, and the relations at either
end. -/
def purgeParticleIndexRows (store : Store) (particleIds : List String) : Store :=
  { store with
    subjectLinks := store.subjectLinks.filter fun link => link.particleId ∉ particleIds
    tagEdges := store.tagEdges.filter fun edge => edge.particleId ∉ particleIds
    relations := store.relations.filter fun rel =>
      ¬ (rel.particleA ∈ particleIds ∨ rel.particleB ∈ particleIds) }

/-- The subjects, among the candidates if there are any, that no particle is linked to. -/
def orphanSubjects (store : Store) (candidateIds : Option (List String)) : List String :=
  (store.subjects.rows.filter fun subject =>
    (!store.subjectLinks.rows.any fun link => link.subjectId = subject.id) &&
      candidateIds.all fun ids => subject.id ∈ ids).map Subject.id

/-- **`purge_orphan_subjects`**: with the counts of the subjects and the cached articles removed. -/
def purgeOrphanSubjects (store : Store) (candidateIds : Option (List String)) : Store × ℕ × ℕ :=
  let orphans := orphanSubjects store candidateIds
  let purged : Store :=
    { store with
      subjects := store.subjects.filter fun subject => subject.id ∉ orphans
      aliasRows := store.aliasRows.filter fun row => row.subjectId ∉ orphans
      synthesisCache := store.synthesisCache.filter fun row => row.subjectId ∉ orphans }
  (purged, orphans.length,
    store.synthesisCache.rows.length - purged.synthesisCache.rows.length)

/-! ### The delete -/

/-- The entry and its snapshots are gone, and every edge to it. -/
def dropEntry (store : Store) (entryId : String) : Store :=
  { store with
    edges := store.edges.filter fun edge => edge.corpusEntryId ≠ entryId
    snapshots := store.snapshots.filter fun row => row.entryId ≠ entryId
    entries := store.entries.filter fun row => row.entryId ≠ entryId
    entryIds := by
      rw [Table.get?_filter_key_ne]
      split_ifs
      · rfl
      · exact store.entryIds }

/-- What an applied delete reports. -/
structure EntryDeletionResult where
  entryId : String
  particlesDeleted : ℕ
  particlesStripped : ℕ
  anchorsMoved : ℕ
  judgmentsDeleted : ℕ
  snapshotsDeleted : ℕ
  subjectsOrphaned : ℕ
  synthesisRowsDeleted : ℕ
  deriving DecidableEq, Repr

/-- What a delete leaves, reports and records. -/
structure EntryDeleted where
  store : Store
  result : EntryDeletionResult
  event : OperatorEvent

/-- **`delete_entry`.** -/
def deleteEntry (store : Store) (entryId : String) : Except StoreError EntryDeleted := do
  let plan := planEntryDeletion store entryId
  let deleteIds := plan.decision.toDelete
  let stripIds := plan.decision.toStrip.map ProvenanceStrip.particleId
  -- captured before the join rows go
  let candidates := (store.subjectLinks.rows.filter fun link => link.particleId ∈ deleteIds).map
    ParticleSubjectRow.subjectId
  let purged := purgeParticleIndexRows
    { store with particles := store.particles.deleteAll deleteIds } deleteIds
  let stripped ← stripIds.foldlM (fun store id =>
    Prod.fst <$> stripEntryProvenanceRefs store id entryId) purged
  let (kept, subjectsOrphaned, synthRemoved) := purgeOrphanSubjects stripped (some candidates)
  return {
    store := dropEntry kept entryId
    result :=
      { entryId := entryId
        particlesDeleted := deleteIds.length
        particlesStripped := stripIds.length
        anchorsMoved := (plan.decision.toStrip.filter ProvenanceStrip.anchorMoved).length
        judgmentsDeleted := plan.judgmentsDeleted.length
        snapshotsDeleted := plan.snapshots
        subjectsOrphaned := subjectsOrphaned
        synthesisRowsDeleted := synthRemoved }
    event := ⟨.CORPUS_ENTRY_DELETED, entryId :: deleteIds ++ stripIds⟩ }

/-! ### What the decision is -/

/-- Some SOURCE reference of the particle names the entry. -/
def Particle.cites (p : Particle) (entryId : String) : Prop :=
  ∃ ref ∈ p.provenance, ref.isSourceOf entryId = true

/-- The entry is the only source of the particle. -/
def Particle.restsOn (p : Particle) (entryId : String) : Prop :=
  p.cites entryId ∧ ∀ ref ∈ p.provenance, ref.type = .SOURCE → ref.corpusEntryId = entryId

/-- The edge index links the particle to the entry. -/
def Indexed (store : Store) (id entryId : String) : Prop :=
  ∃ edge ∈ store.edges.rows, edge.particleId = id ∧ edge.corpusEntryId = entryId

section Decision

variable {store : Store} {entryId : String}

theorem cites_iff {p : Particle} :
    p.cites entryId ↔ (p.provenance.map (·.isSourceOf entryId)).any id = true := by
  simp [Particle.cites]

theorem sources_eq_iff {p : Particle} (hcites : p.cites entryId) :
    ((p.provenance.filter fun ref => ref.type = .SOURCE).map
        ProvenanceRef.corpusEntryId).toFinset = {entryId} ↔ p.restsOn entryId := by
  rw [Finset.eq_singleton_iff_unique_mem]
  simp only [List.mem_toFinset, List.mem_map, List.mem_filter, decide_eq_true_eq]
  constructor
  · rintro ⟨-, hall⟩
    exact ⟨hcites, fun ref href htype => hall _ ⟨ref, ⟨href, htype⟩, rfl⟩⟩
  · rintro ⟨⟨ref, href, hsource⟩, hall⟩
    simp only [ProvenanceRef.isSourceOf, Bool.and_eq_true, decide_eq_true_eq] at hsource
    refine ⟨⟨ref, ⟨href, hsource.1⟩, hsource.2⟩, ?_⟩
    rintro x ⟨ref', ⟨href', htype'⟩, rfl⟩
    exact hall ref' href' htype'

/-- **A particle is deleted when it rests on the entry alone, and stripped when it cites another
entry too.** -/
theorem mem_decideEntryDeletion (particles : List Particle) (id : String) :
    (id ∈ (decideEntryDeletion entryId particles).toDelete ↔
        ∃ p ∈ particles, p.id = id ∧ p.restsOn entryId) ∧
      (id ∈ (decideEntryDeletion entryId particles).toStrip.map ProvenanceStrip.particleId ↔
        ∃ p ∈ particles, p.id = id ∧ p.cites entryId ∧ ¬ p.restsOn entryId) := by
  unfold decideEntryDeletion
  induction particles using List.reverseRecOn with
  | nil => simp
  | append_singleton particles p ih =>
      rw [List.foldl_append, List.foldl_cons, List.foldl_nil]
      generalize List.foldl (decideParticle entryId) {} particles = decision at ih
      have hsplit : ∀ P : Particle → Prop, (∃ q ∈ particles ++ [p], q.id = id ∧ P q) ↔
          (∃ q ∈ particles, q.id = id ∧ P q) ∨ p.id = id ∧ P p := by
        intro P
        simp [or_and_right, exists_or]
      rw [hsplit, hsplit, ← ih.1, ← ih.2]
      by_cases hcites : p.cites entryId
      · have hany := cites_iff.1 hcites
        by_cases hrests : p.restsOn entryId
        · simp only [decideParticle, hany, not_true, if_false,
            (sources_eq_iff hcites).2 hrests, if_true, List.mem_append, List.mem_singleton, hrests,
            not_true, and_false, or_false, and_true, @eq_comm _ id p.id, iff_self, and_self]
        · have hsources := mt (sources_eq_iff hcites).1 hrests
          simp only [decideParticle, hany, not_true, if_false, hsources, List.map_append,
            List.map_cons, List.map_nil, List.mem_append, List.mem_singleton, hrests, hcites,
            not_false_eq_true, and_false, or_false, and_true, @eq_comm _ id p.id, iff_self,
            and_self]
      · have hany := mt cites_iff.2 hcites
        have hrests : ¬ p.restsOn entryId := fun h => hcites h.1
        simp [decideParticle, hany, hcites, hrests]

theorem mem_getParticlesForEntry {p : Particle} :
    p ∈ getParticlesForEntry store entryId ↔
      ∃ row, store.get? p.id = some row ∧ row.model = p ∧ Indexed store p.id entryId := by
  simp only [getParticlesForEntry, List.mem_map, List.mem_filter, List.any_eq_true,
    Bool.and_eq_true, decide_eq_true_eq]
  constructor
  · rintro ⟨row, ⟨hrow, hedge⟩, rfl⟩
    exact ⟨row, ParticleTable.get?_id hrow, rfl, hedge⟩
  · rintro ⟨row, hrow, rfl, hedge⟩
    exact ⟨row, ⟨(ParticleTable.get?_eq_some.1 hrow).1, hedge⟩, rfl⟩

theorem mem_toDelete {id : String} :
    id ∈ (planEntryDeletion store entryId).decision.toDelete ↔
      ∃ row, store.get? id = some row ∧ Indexed store id entryId ∧ row.model.restsOn entryId := by
  refine (mem_decideEntryDeletion _ id).1.trans ?_
  constructor
  · rintro ⟨p, hp, rfl, hrests⟩
    obtain ⟨row, hrow, rfl, hindexed⟩ := mem_getParticlesForEntry.1 hp
    exact ⟨row, hrow, hindexed, hrests⟩
  · rintro ⟨row, hrow, hindexed, hrests⟩
    have hid : row.model.id = id := ParticleTable.id_of_get? hrow
    refine ⟨row.model, mem_getParticlesForEntry.2 ⟨row, ?_, rfl, ?_⟩, hid, hrests⟩
    · rwa [hid]
    · rwa [hid]

theorem mem_toStrip {id : String} :
    id ∈ (planEntryDeletion store entryId).decision.toStrip.map ProvenanceStrip.particleId ↔
      ∃ row, store.get? id = some row ∧ Indexed store id entryId ∧
        row.model.cites entryId ∧ ¬ row.model.restsOn entryId := by
  refine (mem_decideEntryDeletion _ id).2.trans ?_
  constructor
  · rintro ⟨p, hp, rfl, hcites⟩
    obtain ⟨row, hrow, rfl, hindexed⟩ := mem_getParticlesForEntry.1 hp
    exact ⟨row, hrow, hindexed, hcites⟩
  · rintro ⟨row, hrow, hindexed, hcites⟩
    have hid : row.model.id = id := ParticleTable.id_of_get? hrow
    refine ⟨row.model, mem_getParticlesForEntry.2 ⟨row, ?_, rfl, ?_⟩, hid, hcites⟩
    · rwa [hid]
    · rwa [hid]

end Decision

/-! ### What the delete leaves -/

section Laws

variable {store : Store} {entryId : String}

/-- Another entry supports the particle. -/
def Particle.hasOtherSource (p : Particle) (entryId : String) : Prop :=
  ∃ ref ∈ p.provenance, ref.type = .SOURCE ∧ ref.corpusEntryId ≠ entryId

theorem hasOtherSource_of_not_restsOn {p : Particle} (hcites : p.cites entryId)
    (hrests : ¬ p.restsOn entryId) : p.hasOtherSource entryId := by
  by_contra hnone
  refine hrests ⟨hcites, fun ref href htype => ?_⟩
  by_contra hne
  exact hnone ⟨ref, href, htype, hne⟩

theorem mem_provenance_stripped {row : ParticleRow} {ref : ProvenanceRef} :
    ref ∈ (row.stripped entryId).model.provenance ↔
      ref ∈ row.model.provenance ∧ ¬ (ref.type = .SOURCE ∧ ref.corpusEntryId = entryId) := by
  simp [ParticleRow.stripped, ProvenanceRef.isSourceOf, imp_iff_not_or]

@[simp] theorem stripped_stripped (row : ParticleRow) :
    (row.stripped entryId).stripped entryId = row.stripped entryId := by
  simp [ParticleRow.stripped]

/-- A particle that does not cite the entry is left as it is. -/
theorem stripped_of_not_cites {row : ParticleRow} (h : ¬ row.model.cites entryId) :
    row.stripped entryId = row := by
  have hfilter : (row.model.provenance.filter fun ref => !ref.isSourceOf entryId)
      = row.model.provenance := by
    rw [List.filter_eq_self]
    intro ref href
    by_contra hsource
    exact h ⟨ref, href, by simpa using hsource⟩
  simp only [ParticleRow.stripped, hfilter]

theorem hasOtherSource_stripped {row : ParticleRow} (h : row.model.hasOtherSource entryId) :
    (row.stripped entryId).model.hasOtherSource entryId := by
  obtain ⟨ref, href, htype, hne⟩ := h
  exact ⟨ref, mem_provenance_stripped.2 ⟨href, fun hsource => hne hsource.2⟩, htype, hne⟩

/-- **A strip of a particle that another entry supports succeeds**, on the particle and its edge to
the entry. -/
theorem stripEntryProvenanceRefs_spec {id : String} {row : ParticleRow}
    (hrow : store.get? id = some row) (hother : row.model.hasOtherSource entryId) :
    ∃ particles edges, Prod.fst <$> stripEntryProvenanceRefs store id entryId =
        .ok { store with particles := particles, edges := edges } ∧
      (∀ k, particles.get? k =
        if id = k then (store.get? k).map (·.stripped entryId) else store.get? k) ∧
      edges.rows = store.edges.rows.filter fun edge =>
        ¬ (edge.particleId = id ∧ edge.corpusEntryId = entryId) := by
  obtain ⟨ref, href, htype, -⟩ := hasOtherSource_stripped hother
  have hsource : ((row.stripped entryId).model.provenance.any
      fun ref => decide (ref.type = .SOURCE)) = true :=
    List.any_eq_true.2 ⟨ref, href, by simpa using htype⟩
  refine ⟨_, store.edges.filter fun edge =>
      ¬ (edge.particleId = id ∧ edge.corpusEntryId = entryId), ?_,
    Store.get?_modifyParticle store id (·.stripped entryId) (fun _ => rfl) (fun _ => rfl), ?_⟩
  · simp only [stripEntryProvenanceRefs, hrow, orRaise, hsource, require, if_true, bind,
      Except.bind, pure, Except.pure, Functor.map, Except.map]
    rfl
  · rfl

/-- **The strips all succeed**, and each rewrites its own particle. -/
theorem strips_spec (ids : List String) : ∀ {store : Store},
    (∀ id ∈ ids, ∃ row, store.get? id = some row ∧ row.model.hasOtherSource entryId) →
    ∃ particles edges, ids.foldlM (fun store id =>
        Prod.fst <$> stripEntryProvenanceRefs store id entryId) store =
        .ok { store with particles := particles, edges := edges } ∧
      (∀ k, particles.get? k =
        if k ∈ ids then (store.get? k).map (·.stripped entryId) else store.get? k) ∧
      edges.rows = store.edges.rows.filter fun edge =>
        ¬ (edge.particleId ∈ ids ∧ edge.corpusEntryId = entryId) := by
  induction ids with
  | nil =>
      intro store _
      refine ⟨store.particles, store.edges, rfl, by simp [Store.get?], by simp⟩
  | cons id ids ih =>
      intro store hids
      obtain ⟨row, hrow, hother⟩ := hids id List.mem_cons_self
      obtain ⟨particles, edges, hstrip, hget, hedges⟩ :=
        stripEntryProvenanceRefs_spec hrow hother
      have hrest : ∀ id' ∈ ids, ∃ row,
          Store.get? { store with particles := particles, edges := edges } id' = some row ∧
            row.model.hasOtherSource entryId := by
        intro id' hid'
        obtain ⟨row', hrow', hother'⟩ := hids id' (List.mem_cons_of_mem _ hid')
        by_cases heq : id = id'
        · refine ⟨row'.stripped entryId, ?_, hasOtherSource_stripped hother'⟩
          exact (hget id').trans (by rw [if_pos heq, hrow', Option.map_some])
        · exact ⟨row', (hget id').trans (by rw [if_neg heq, hrow']), hother'⟩
      obtain ⟨particles', edges', hfold, hget', hedges'⟩ := ih hrest
      refine ⟨particles', edges', ?_, fun k => ?_, ?_⟩
      · rw [List.foldlM_cons, hstrip]
        exact hfold
      · have hk : Store.get? { store with particles := particles, edges := edges } k =
            if id = k then (store.get? k).map (·.stripped entryId) else store.get? k := hget k
        rw [hget', hk]
        by_cases hmem : k ∈ ids <;> by_cases heq : id = k
        · simp [hmem, heq, Option.map_map, Function.comp_def]
        · simp [hmem, heq]
        · simp [hmem, heq]
        · simp [hmem, heq, Ne.symm heq]
      · rw [hedges', hedges, List.filter_filter]
        refine List.filter_congr fun edge _ => ?_
        by_cases hmem : edge.particleId ∈ ids <;> by_cases heq : edge.particleId = id <;>
          by_cases hentry : edge.corpusEntryId = entryId <;> simp [hmem, heq, hentry]

/-- The particles that the delete removes: those that rest on the entry alone, as far as the index
knows. -/
def Doomed (store : Store) (entryId id : String) : Prop :=
  ∃ row, store.get? id = some row ∧ Indexed store id entryId ∧ row.model.restsOn entryId

/-- What the delete leaves of a particle. -/
structure LeftOf (store : Store) (entryId id : String) (left : Option ParticleRow) : Prop where
  doomed : Doomed store entryId id → left = none
  stripped : ¬ Doomed store entryId id → Indexed store id entryId →
    left = (store.get? id).map (·.stripped entryId)
  untouched : ¬ Indexed store id entryId → left = store.get? id

/-- What the delete leaves in each table of derived rows. -/
structure DeleteSpec (before after : Store) (entryId : String) : Prop where
  particles : ∀ id, LeftOf before entryId id (after.get? id)
  edges : ∀ edge, edge ∈ after.edges.rows ↔
    edge ∈ before.edges.rows ∧ edge.corpusEntryId ≠ entryId
  subjectLinks : ∀ link, link ∈ after.subjectLinks.rows ↔
    link ∈ before.subjectLinks.rows ∧ ¬ Doomed before entryId link.particleId
  tagEdges : ∀ edge, edge ∈ after.tagEdges.rows ↔
    edge ∈ before.tagEdges.rows ∧ ¬ Doomed before entryId edge.particleId
  relations : ∀ rel, rel ∈ after.relations.rows ↔
    rel ∈ before.relations.rows ∧ ¬ Doomed before entryId rel.particleA ∧
      ¬ Doomed before entryId rel.particleB

/-- **The delete succeeds, and what it leaves in each table.** -/
theorem deleteEntry_spec (store : Store) (entryId : String) :
    ∃ deleted, deleteEntry store entryId = .ok deleted ∧
      DeleteSpec store deleted.store entryId := by
  set deleteIds := (planEntryDeletion store entryId).decision.toDelete with hdelete
  set stripIds := (planEntryDeletion store entryId).decision.toStrip.map
    ProvenanceStrip.particleId with hstrip
  have hdoomed : ∀ id, id ∈ deleteIds ↔ Doomed store entryId id := fun id => mem_toDelete
  set purged := purgeParticleIndexRows
    { store with particles := store.particles.deleteAll deleteIds } deleteIds with hpurged
  have hget : ∀ id, purged.get? id = if id ∈ deleteIds then none else store.get? id :=
    ParticleTable.get?_deleteAll store.particles deleteIds
  have hids : ∀ id ∈ stripIds, ∃ row, purged.get? id = some row ∧
      row.model.hasOtherSource entryId := by
    intro id hid
    obtain ⟨row, hrow, -, hcites, hrests⟩ := mem_toStrip.1 hid
    have hkept : id ∉ deleteIds := by
      rw [hdoomed]
      rintro ⟨row', hrow', -, hrests'⟩
      obtain rfl := Option.some.inj (hrow.symm.trans hrow')
      exact hrests hrests'
    exact ⟨row, by rw [hget, if_neg hkept, hrow], hasOtherSource_of_not_restsOn hcites hrests⟩
  obtain ⟨particles, edges, hfold, hparticles, hedges⟩ := strips_spec stripIds hids
  have hrun : EntryDeleted.store <$> deleteEntry store entryId = .ok (dropEntry (purgeOrphanSubjects
      { purged with particles := particles, edges := edges }
      (some ((store.subjectLinks.rows.filter fun link => link.particleId ∈ deleteIds).map
        ParticleSubjectRow.subjectId))).1 entryId) := by
    simp only [deleteEntry]
    rw [← hdelete, ← hstrip, ← hpurged, hfold]
    rfl
  obtain ⟨deleted, hok, hstore⟩ : ∃ deleted, deleteEntry store entryId = .ok deleted ∧
      deleted.store = _ := by
    cases hok : deleteEntry store entryId with
    | error e => rw [hok] at hrun; cases hrun
    | ok deleted => rw [hok] at hrun; exact ⟨deleted, rfl, Except.ok.inj hrun⟩
  refine ⟨deleted, hok, ?_⟩
  rw [hstore]
  have hfinal : ∀ id, particles.get? id =
      if id ∈ stripIds then (purged.get? id).map (·.stripped entryId) else purged.get? id :=
    hparticles
  have hstripIds : ∀ id, Indexed store id entryId → ¬ Doomed store entryId id →
      particles.get? id = (store.get? id).map (·.stripped entryId) := by
    intro id hindexed hkept
    rw [hfinal, hget, if_neg (mt (hdoomed id).1 hkept)]
    split_ifs with hmem
    · rfl
    cases hrow : store.get? id with
    | none => rfl
    | some row =>
        have hcites : ¬ row.model.cites entryId := fun hcites =>
          hmem (mem_toStrip.2 ⟨row, hrow, hindexed, hcites, fun hrests =>
            hkept ⟨row, hrow, hindexed, hrests⟩⟩)
        rw [Option.map_some, stripped_of_not_cites hcites]
  refine { particles := fun id => ⟨fun hid => ?_, fun hkept hindexed => hstripIds id hindexed hkept,
    fun hindexed => ?_⟩, edges := ?_, subjectLinks := ?_, tagEdges := ?_, relations := ?_ }
  · refine (hfinal id).trans ?_
    rw [hget, if_pos ((hdoomed id).2 hid)]
    split_ifs <;> rfl
  · refine (hfinal id).trans ?_
    have hkept : id ∉ deleteIds := fun hmem => hindexed ((hdoomed id).1 hmem).choose_spec.2.1
    have hstay : id ∉ stripIds := fun hmem => hindexed (mem_toStrip.1 hmem).choose_spec.2.1
    rw [hget, if_neg hkept, if_neg hstay]
  · intro edge
    simp only [dropEntry, purgeOrphanSubjects, Table.rows_filter, hedges, purged,
      purgeParticleIndexRows, List.mem_filter, decide_eq_true_eq]
    constructor
    · rintro ⟨⟨hmem, -⟩, hne⟩
      exact ⟨hmem, hne⟩
    · rintro ⟨hmem, hne⟩
      exact ⟨⟨hmem, fun h => hne h.2⟩, hne⟩
  · intro link
    simp [dropEntry, purgeOrphanSubjects, purged, purgeParticleIndexRows, hdoomed]
  · intro edge
    simp [dropEntry, purgeOrphanSubjects, purged, purgeParticleIndexRows, hdoomed]
  · intro rel
    simp [dropEntry, purgeOrphanSubjects, purged, purgeParticleIndexRows, hdoomed]

end Laws

end ParticlesEngine
