/-
**The store.**

The tables of one store, as a session reads and writes them inside a transaction.

Main definitions:

* `Store` — the tables;
* `Store.get?`, `Store.modifyParticle` — the particle row with an id, and an update of it;
* `Store.getParticlesForSubject` — the particles linked to a subject.
-/

import ParticlesEngine.ParticleTable

set_option relaxedAutoImplicit false
set_option autoImplicit false

namespace ParticlesEngine

/-- An empty table has no entry with an empty id. -/
theorem noEntryId_empty : (Table.empty : Table CorpusEntryRow.entryId).get? "" = none := rfl

/-- The tables of a store. -/
structure Store where
  particles : ParticleTable := .empty
  subjects : Table Subject.id := .empty
  subjectLinks : Table ParticleSubjectRow.key := .empty
  aliasRows : Table SubjectAliasRow.key := .empty
  edges : Table ProvenanceEdgeRow.key := .empty
  tagEdges : Table ParticleTagEdgeRow.key := .empty
  relations : Table ParticleRelationRow.key := .empty
  entries : Table CorpusEntryRow.entryId := .empty
  snapshots : Table SnapshotRow.snapshotId := .empty
  trustStatements : Table TrustStatementRow.statementId := .empty
  sourceTrust : Table SourceTrustRow.key := .empty
  scopeStatements : Table ObserverScopeStatementRow.key := .empty
  synthesisCache : Table SynthesisCacheRow.key := .empty
  /-- an entry id is a UUID, so never the empty string -/
  entryIds : entries.get? "" = none := by first | exact noEntryId_empty | rfl
  deriving DecidableEq

namespace Store

/-- The store with no row in any table. -/
def empty : Store := {}

/-- The particle row with a given id. -/
def get? (store : Store) (id : String) : Option ParticleRow := store.particles.get? id

@[simp] theorem get?_empty (id : String) : empty.get? id = none := rfl

/-- Update in place the row of a particle, keeping its id and rowid. -/
def modifyParticle (store : Store) (id : String) (f : ParticleRow → ParticleRow)
    (hid : ∀ row, (f row).id = row.id) (hrowid : ∀ row, (f row).rowid = row.rowid) : Store :=
  { store with particles := store.particles.modify id f hid hrowid }

theorem get?_modifyParticle (store : Store) (id : String) (f : ParticleRow → ParticleRow)
    (hid : ∀ row, (f row).id = row.id) (hrowid : ∀ row, (f row).rowid = row.rowid) (k : String) :
    (store.modifyParticle id f hid hrowid).get? k =
      if id = k then (store.get? k).map f else store.get? k :=
  ParticleTable.get?_modify _ id f hid hrowid k

/-- The ids of the particles linked to a subject, as `get_particles_for_subject` lists them. -/
def getParticlesForSubject (store : Store) (subjectId : String) : List String :=
  (store.subjectLinks.rows.filter fun link => link.subjectId = subjectId).map
    ParticleSubjectRow.particleId

theorem mem_getParticlesForSubject {store : Store} {subjectId id : String} :
    id ∈ store.getParticlesForSubject subjectId ↔
      ∃ link ∈ store.subjectLinks.rows, link.subjectId = subjectId ∧ link.particleId = id := by
  simp [getParticlesForSubject, and_assoc]

/-- The (particle, subject) key lists a particle at most once for a subject. -/
theorem nodup_getParticlesForSubject (store : Store) (subjectId : String) :
    (store.getParticlesForSubject subjectId).Nodup := by
  have hrows : store.subjectLinks.rows.Nodup := store.subjectLinks.nodup.of_map
  refine List.Nodup.map_on ?_ (hrows.filter _)
  intro a ha b hb hab
  refine Table.eq_of_key_eq (List.mem_filter.1 ha).1 (List.mem_filter.1 hb).1 ?_
  have ha' : a.subjectId = subjectId := by simpa using (List.mem_filter.1 ha).2
  have hb' : b.subjectId = subjectId := by simpa using (List.mem_filter.1 hb).2
  simp only [ParticleSubjectRow.key, hab, ha', hb']

end Store

end ParticlesEngine
