/-
**What a deleted corpus entry leaves behind.**

After an entry is deleted nothing should dangle: no particle cites it, no derived row names a
particle that is gone, what survives keeps a source, and the edge index describes the references
that are left.  The sweep of a deleted particle's rows leaves out the edge index, and the edges that
go with the entry are only those to the entry itself, so the edges of a deleted particle to anything
else stay.

Main definitions:

* `DerivedRowsExist` — every derived row names particles of the store;
* `EntryErased` — what a delete of the entry should leave;
* `DeletesCleanly` — the stores where it does.

Main result:

* `erased_iff_deletesCleanly` — **a delete erases the entry exactly when no particle that it deletes
  has an edge to anything else, and the index describes the particles it keeps**.
-/

import ParticlesEngine.CorpusDelete

set_option relaxedAutoImplicit false
set_option autoImplicit false

namespace ParticlesEngine

/-! ### The property -/

/-- Every derived row names particles of the store. -/
structure DerivedRowsExist (store : Store) : Prop where
  subjectLinks : ∀ link ∈ store.subjectLinks.rows, store.get? link.particleId ≠ none
  tagEdges : ∀ edge ∈ store.tagEdges.rows, store.get? edge.particleId ≠ none
  relations : ∀ rel ∈ store.relations.rows,
    store.get? rel.particleA ≠ none ∧ store.get? rel.particleB ≠ none
  edges : ∀ edge ∈ store.edges.rows, store.get? edge.particleId ≠ none

/-- If the particle names `X`, its edge to `X` is that of the first reference that does. -/
def EdgeDescribes (store : Store) (row : ParticleRow) (X : String) : Prop :=
  ∀ ref, row.model.provenance.find? (fun ref => ref.corpusEntryId = X) = some ref →
    store.edges.get? (row.id, X) = some ⟨row.id, X, ref.snapshotId, ref.chunkHash⟩

/-- What a delete of the entry should leave. -/
structure EntryErased (before after : Store) (entryId : String) : Prop where
  uncited : ∀ id row, after.get? id = some row → ¬ row.model.cites entryId
  rowsExist : DerivedRowsExist after
  supported : ∀ id row row', before.get? id = some row → row.model.cites entryId →
    after.get? id = some row' → ∃ ref ∈ row'.model.provenance, ref.type = .SOURCE
  described : ∀ id row X, after.get? id = some row → EdgeDescribes after row X

/-- The stores where a delete of the entry leaves nothing dangling. -/
structure DeletesCleanly (store : Store) (entryId : String) : Prop where
  /-- the index has the particles that cite the entry -/
  indexed : ∀ id row, store.get? id = some row → row.model.cites entryId →
    Indexed store id entryId
  /-- a particle that rests on the entry alone has an edge to nothing else -/
  unentangled : ∀ id row, store.get? id = some row → row.model.restsOn entryId →
    ∀ edge ∈ store.edges.rows, edge.particleId = id → edge.corpusEntryId = entryId
  /-- no other particle names the entry as anything but a source -/
  sourceOnly : ∀ id row, store.get? id = some row → ¬ row.model.restsOn entryId →
    ∀ ref ∈ row.model.provenance, ref.corpusEntryId = entryId → ref.type = .SOURCE
  /-- and the index describes its other references -/
  described : ∀ id row, store.get? id = some row → ¬ row.model.restsOn entryId →
    ∀ X, X ≠ entryId → EdgeDescribes store row X

/-! ### The delete and the property -/

section Laws

variable {before after : Store} {entryId : String}

/-- The particles that rest on the entry are the ones deleted, when the index has them. -/
theorem doomed_iff (hindexed : ∀ id row, before.get? id = some row → row.model.cites entryId →
    Indexed before id entryId) {id : String} {row : ParticleRow}
    (hrow : before.get? id = some row) : Doomed before entryId id ↔ row.model.restsOn entryId := by
  constructor
  · rintro ⟨row', hrow', -, hrests⟩
    obtain rfl := Option.some.inj (hrow.symm.trans hrow')
    exact hrests
  · intro hrests
    exact ⟨row, hrow, hindexed id row hrow hrests.1, hrests⟩

/-- What a delete leaves, when the index has the particles that cite the entry: the particles that
do not rest on it, stripped. -/
theorem DeleteSpec.get?_eq (h : DeleteSpec before after entryId)
    (hindexed : ∀ id row, before.get? id = some row → row.model.cites entryId →
      Indexed before id entryId) {id : String} {row' : ParticleRow} :
    after.get? id = some row' ↔ ∃ row, before.get? id = some row ∧
      ¬ row.model.restsOn entryId ∧ row.stripped entryId = row' := by
  have hleft := h.particles id
  cases hrow : before.get? id with
  | none =>
      have hkept : ¬ Doomed before entryId id := by
        rintro ⟨row, hrow', -⟩
        rw [hrow] at hrow'
        cases hrow'
      have hnone : after.get? id = none := by
        by_cases hedge : Indexed before id entryId
        · rw [hleft.stripped hkept hedge, hrow, Option.map_none]
        · rw [hleft.untouched hedge, hrow]
      simp [hnone]
  | some row =>
      simp only [Option.some.injEq, exists_eq_left']
      by_cases hrests : row.model.restsOn entryId
      · simp [hleft.doomed ((doomed_iff hindexed hrow).2 hrests), hrests]
      · have hkept := mt (doomed_iff hindexed hrow).1 hrests
        have hstripped : after.get? id = some (row.stripped entryId) := by
          by_cases hedge : Indexed before id entryId
          · rw [hleft.stripped hkept hedge, hrow, Option.map_some]
          · have hcites := fun hcites => hedge (hindexed id row hrow hcites)
            rw [hleft.untouched hedge, hrow, stripped_of_not_cites hcites]
        simp [hstripped, hrests]

theorem not_cites_stripped (row : ParticleRow) :
    ¬ (row.stripped entryId).model.cites entryId := by
  rintro ⟨ref, href, hsource⟩
  refine (mem_provenance_stripped.1 href).2 ?_
  simpa [ProvenanceRef.isSourceOf] using hsource

/-- The strip keeps the first reference to anything but the entry. -/
theorem find?_stripped (row : ParticleRow) {X : String} (hX : X ≠ entryId) :
    (row.stripped entryId).model.provenance.find? (fun ref => ref.corpusEntryId = X)
      = row.model.provenance.find? fun ref => ref.corpusEntryId = X := by
  simp only [ParticleRow.stripped, List.find?_filter]
  refine congrArg (List.find? · row.model.provenance) (funext fun ref => ?_)
  by_cases href : ref.corpusEntryId = X
  · simp [ProvenanceRef.isSourceOf, href, hX]
  · simp [href]

/-- The delete keeps the edges to anything but the entry. -/
theorem DeleteSpec.get?_edges (h : DeleteSpec before after entryId) (id : String) {X : String}
    (hX : X ≠ entryId) : after.edges.get? (id, X) = before.edges.get? (id, X) := by
  ext edge
  simp only [Table.get?_eq_some, h.edges, ProvenanceEdgeRow.key, Prod.mk.injEq]
  constructor
  · rintro ⟨⟨hmem, -⟩, hkey⟩
    exact ⟨hmem, hkey⟩
  · rintro ⟨hmem, hid, rfl⟩
    exact ⟨⟨hmem, hX⟩, hid, rfl⟩

theorem DeleteSpec.edgeDescribes_iff (h : DeleteSpec before after entryId) (row : ParticleRow)
    {X : String} (hX : X ≠ entryId) :
    EdgeDescribes after (row.stripped entryId) X ↔ EdgeDescribes before row X := by
  have hid : (row.stripped entryId).id = row.id := rfl
  rw [EdgeDescribes, EdgeDescribes, find?_stripped row hX, hid, h.get?_edges row.id hX]

/-- No edge to the entry is left, so what still names it is not described. -/
theorem DeleteSpec.not_edgeDescribes (h : DeleteSpec before after entryId) {row : ParticleRow}
    {ref : ProvenanceRef} (href : ref ∈ row.model.provenance) (hentry : ref.corpusEntryId = entryId) :
    ¬ EdgeDescribes after row entryId := by
  intro hdescribes
  obtain ⟨first, hfirst⟩ : ∃ first,
      row.model.provenance.find? (fun ref => ref.corpusEntryId = entryId) = some first := by
    rw [← Option.isSome_iff_exists, List.find?_isSome]
    exact ⟨ref, href, by simpa using hentry⟩
  obtain ⟨hmem, -⟩ := Table.get?_eq_some.1 (hdescribes first hfirst)
  exact ((h.edges _).1 hmem).2 rfl

theorem DeleteSpec.deletesCleanly (h : DeleteSpec before after entryId)
    (herased : EntryErased before after entryId) : DeletesCleanly before entryId := by
  have hindexed : ∀ id row, before.get? id = some row → row.model.cites entryId →
      Indexed before id entryId := by
    intro id row hrow hcites
    by_contra hedge
    exact herased.uncited id row (((h.particles id).untouched hedge).trans hrow) hcites
  refine { indexed := hindexed, unentangled := ?_, sourceOnly := ?_, described := ?_ }
  · intro id row hrow hrests edge hedge hid
    by_contra hentry
    refine herased.rowsExist.edges edge ((h.edges edge).2 ⟨hedge, hentry⟩) ?_
    rw [hid]
    exact (h.particles id).doomed ((doomed_iff hindexed hrow).2 hrests)
  · intro id row hrow hrests ref href hentry
    by_contra htype
    have hkept := (h.get?_eq hindexed).2 ⟨row, hrow, hrests, rfl⟩
    have hmem : ref ∈ (row.stripped entryId).model.provenance :=
      mem_provenance_stripped.2 ⟨href, fun hsource => htype hsource.1⟩
    exact h.not_edgeDescribes hmem hentry (herased.described id _ entryId hkept)
  · intro id row hrow hrests X hX
    have hkept := (h.get?_eq hindexed).2 ⟨row, hrow, hrests, rfl⟩
    exact (h.edgeDescribes_iff row hX).1 (herased.described id _ X hkept)

theorem DeleteSpec.entryErased (h : DeleteSpec before after entryId)
    (hexist : DerivedRowsExist before) (hclean : DeletesCleanly before entryId) :
    EntryErased before after entryId := by
  -- a particle that is not deleted is there after the delete
  have hstays : ∀ id, before.get? id ≠ none → ¬ Doomed before entryId id →
      after.get? id ≠ none := by
    intro id hid hkept
    obtain ⟨row, hrow⟩ := Option.ne_none_iff_exists'.1 hid
    rw [(h.get?_eq hclean.indexed).2
      ⟨row, hrow, mt (doomed_iff hclean.indexed hrow).2 hkept, rfl⟩]
    exact Option.some_ne_none _
  refine { uncited := ?_, rowsExist := ?_, supported := ?_, described := ?_ }
  · intro id row' hrow'
    obtain ⟨row, -, -, rfl⟩ := (h.get?_eq hclean.indexed).1 hrow'
    exact not_cites_stripped row
  · refine { subjectLinks := ?_, tagEdges := ?_, relations := ?_, edges := ?_ }
    · intro link hlink
      obtain ⟨hmem, hkept⟩ := (h.subjectLinks link).1 hlink
      exact hstays _ (hexist.subjectLinks link hmem) hkept
    · intro edge hedge
      obtain ⟨hmem, hkept⟩ := (h.tagEdges edge).1 hedge
      exact hstays _ (hexist.tagEdges edge hmem) hkept
    · intro rel hrel
      obtain ⟨hmem, hkeptA, hkeptB⟩ := (h.relations rel).1 hrel
      obtain ⟨hA, hB⟩ := hexist.relations rel hmem
      exact ⟨hstays _ hA hkeptA, hstays _ hB hkeptB⟩
    · intro edge hedge
      obtain ⟨hmem, hentry⟩ := (h.edges edge).1 hedge
      refine hstays _ (hexist.edges edge hmem) ?_
      rintro ⟨row, hrow, -, hrests⟩
      exact hentry (hclean.unentangled _ row hrow hrests edge hmem rfl)
  · intro id row row' hrow hcites hrow'
    obtain ⟨row₀, hrow₀, hrests, rfl⟩ := (h.get?_eq hclean.indexed).1 hrow'
    obtain rfl := Option.some.inj (hrow.symm.trans hrow₀)
    obtain ⟨ref, href, htype, -⟩ :=
      hasOtherSource_stripped (hasOtherSource_of_not_restsOn hcites hrests)
    exact ⟨ref, href, htype⟩
  · intro id row' X hrow'
    obtain ⟨row, hrow, hrests, rfl⟩ := (h.get?_eq hclean.indexed).1 hrow'
    by_cases hX : X = entryId
    · subst hX
      -- nothing names the entry any more
      intro ref hfind
      obtain ⟨href, hkept⟩ := mem_provenance_stripped.1 (List.mem_of_find?_eq_some hfind)
      have hentry : ref.corpusEntryId = X := by simpa using List.find?_some hfind
      exact absurd ⟨hclean.sourceOnly id row hrow hrests ref href hentry, hentry⟩ hkept
    · exact (h.edgeDescribes_iff row hX).2 (hclean.described id row hrow hrests X hX)

end Laws

/-- **A delete erases the entry exactly when the store is clean for it.** -/
theorem erased_iff_deletesCleanly (store : Store) (entryId : String) (h : DerivedRowsExist store) :
    ∃ deleted, deleteEntry store entryId = .ok deleted ∧
      (EntryErased store deleted.store entryId ↔ DeletesCleanly store entryId) := by
  obtain ⟨deleted, hok, hspec⟩ := deleteEntry_spec store entryId
  exact ⟨deleted, hok, hspec.deletesCleanly, hspec.entryErased h⟩

/-- Two claims that contradict each other, from two entries, and the record of the contradiction:
its members, and as its source the entry of the newer claim. -/
def contradictedStore : Store :=
  let entries : Table CorpusEntryRow.entryId := ⟨[{ entryId := "e" }, { entryId := "f" }], by decide⟩
  let older : Particle :=
    { id := "a"
      content := "opens at 9"
      provenance := [⟨.SOURCE, "f", none, none, none⟩] }
  let newer : Particle :=
    { id := "b"
      content := "opens at 10"
      provenance := [⟨.SOURCE, "e", none, none, none⟩] }
  let record : Particle :=
    { id := "r"
      content := "opens at 9; opens at 10"
      status := .INCONSISTENCY
      provenance := [⟨.PARTICLE, "a", none, none, none⟩, ⟨.PARTICLE, "b", none, none, none⟩,
        ⟨.SOURCE, "e", none, none, none⟩] }
  ([older, newer, record].foldlM (fun store p => insertParticle id "" store p none)
    { entries := entries, entryIds := by decide }).toOption.getD .empty

theorem erased_iff_deletesCleanly_contradicted :
    ∃ deleted, deleteEntry contradictedStore "e" = .ok deleted ∧
      (EntryErased contradictedStore deleted.store "e" ↔ DeletesCleanly contradictedStore "e") :=
  erased_iff_deletesCleanly contradictedStore "e"
    ⟨by decide +kernel, by decide +kernel, by decide +kernel, by decide +kernel⟩

/-- The delete of `e` removes the record, and leaves its edge to the claim that stays. -/
theorem record_edge_dangles :
    ¬ ∀ (store : Store) (entryId : String) (deleted : EntryDeleted), DerivedRowsExist store →
      deleteEntry store entryId = .ok deleted → EntryErased store deleted.store entryId := by
  intro h
  obtain ⟨deleted, hok, hspec⟩ := deleteEntry_spec contradictedStore "e"
  have hexist : DerivedRowsExist contradictedStore :=
    ⟨by decide +kernel, by decide +kernel, by decide +kernel, by decide +kernel⟩
  have hclean := hspec.deletesCleanly (h contradictedStore "e" deleted hexist hok)
  obtain ⟨row, hrow, hid, hrests⟩ : ∃ row ∈ contradictedStore.particles.rows,
      row.id = "r" ∧ row.model.restsOn "e" := by
    unfold Particle.restsOn Particle.cites
    decide +kernel
  have hedge : (⟨"r", "a", none, none⟩ : ProvenanceEdgeRow) ∈ contradictedStore.edges.rows := by
    decide +kernel
  have hentry := hclean.unentangled "r" row (ParticleTable.get?_eq_some.2 ⟨hrow, hid⟩) hrests _
    hedge rfl
  exact absurd hentry (by decide)

end ParticlesEngine
