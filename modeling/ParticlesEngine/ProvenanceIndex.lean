/-
**The provenance index mirrors the references.**

A particle keeps the list of what it rests on, and the `particle_provenance_edges` table keeps one row
for each id that the list names.  Three writes edit the two separately: an insert, an append of one
more observation, and the strip of a deleted entry.

Main definitions:

* `ProvenanceCall`, `applyProvenanceCall` — the three writes as the steps of a run;
* `NamesApart` — an entry is never named by a reference that is not a source;
* `Mirrors` — the rows of a particle are one for each id it names, from the first reference to it.

Main results:

* `Mirrors.step` — **each write keeps the index in step with the references**;
* `provenance_mirrored` — the index of every store that a run reaches, with what an append, a strip
  and a refused strip leave of the references.
-/

import ParticlesEngine.AbsencePreview
import ParticlesEngine.CorpusDelete
import ParticlesEngine.Runs

set_option relaxedAutoImplicit false
set_option autoImplicit false

open FirstByKey Runs

namespace ParticlesEngine

/-! ### Runs -/

/-- A write of the references of a particle. -/
inductive ProvenanceCall where
  | insert (p : Particle) (embedding : Option EmbeddingJson)
  | append (particleId : String) (ref : ProvenanceRef)
  | strip (particleId corpusEntryId : String)

section Steps

variable (contentHash : String → String) (modelId : String)

/-- What a write does. -/
def provenanceWrite (store : Store) : ProvenanceCall → Except StoreError Store
  | .insert p embedding => insertParticle contentHash modelId store p embedding
  | .append particleId ref => .ok (appendProvenanceRef store particleId ref).1
  | .strip particleId corpusEntryId =>
      Prod.fst <$> stripEntryProvenanceRefs store particleId corpusEntryId

/-- One step of a run: a write that raises leaves the store as it was. -/
def applyProvenanceCall (store : Store) (call : ProvenanceCall) : Store :=
  (provenanceWrite contentHash modelId store call).toOption.getD store

end Steps

/-- The ids of entries and those that the other references name are disjoint. -/
def NamesApart (isEntry : String → Prop) : ProvenanceCall → Prop
  | .insert p _ => ∀ ref ∈ p.provenance, ref.type ≠ .SOURCE → ¬ isEntry ref.corpusEntryId
  | .append _ ref => ref.type ≠ .SOURCE → ¬ isEntry ref.corpusEntryId
  | .strip _ corpusEntryId => isEntry corpusEntryId

/-- The first reference that names an id. -/
def firstNaming (provenance : List ProvenanceRef) (corpusEntryId : String) : Option ProvenanceRef :=
  provenance.find? (·.corpusEntryId = corpusEntryId)

/-- **The index mirrors the references.** -/
structure Mirrors (store : Store) : Prop where
  /-- an edge carries what the first reference to its id carries -/
  named : ∀ edge ∈ store.edges.rows, ∃ row, store.get? edge.particleId = some row ∧
    ∃ ref, firstNaming row.model.provenance edge.corpusEntryId = some ref ∧
      edge.snapshotId = ref.snapshotId ∧ edge.chunkHash = ref.chunkHash
  /-- an id that is named has one edge -/
  edged : ∀ id row, store.get? id = some row → ∀ ref ∈ row.model.provenance,
    ∃! edge, edge ∈ store.edges.rows ∧ edge.particleId = id ∧
      edge.corpusEntryId = ref.corpusEntryId

/-! ### The index, edge by edge -/

section Index

variable {store store' : Store} {isEntry : String → Prop}

/-- The edge of a particle to what a reference names. -/
def edgeOf (id : String) (ref : ProvenanceRef) : ProvenanceEdgeRow :=
  ⟨id, ref.corpusEntryId, ref.snapshotId, ref.chunkHash⟩

/-- The edge is that of the first reference to its id. -/
def IsFirst (store : Store) (edge : ProvenanceEdgeRow) : Prop :=
  ∃ row, store.get? edge.particleId = some row ∧
    ∃ ref, firstNaming row.model.provenance edge.corpusEntryId = some ref ∧
      edge = edgeOf edge.particleId ref

theorem entryId_of_firstNaming {refs : List ProvenanceRef} {entryId : String} {ref : ProvenanceRef}
    (h : firstNaming refs entryId = some ref) : ref ∈ refs ∧ ref.corpusEntryId = entryId :=
  ⟨List.mem_of_find?_eq_some h, by simpa using List.find?_some h⟩

theorem exists_firstNaming {refs : List ProvenanceRef} {ref : ProvenanceRef} (h : ref ∈ refs) :
    ∃ first, firstNaming refs ref.corpusEntryId = some first := by
  refine Option.isSome_iff_exists.1 (List.find?_isSome.2 ⟨ref, h, by simp⟩)

theorem mirrors_iff : Mirrors store ↔ ∀ edge, edge ∈ store.edges.rows ↔ IsFirst store edge := by
  constructor
  · intro h edge
    constructor
    · intro hedge
      obtain ⟨row, hrow, ref, href, hsnapshot, hchunk⟩ := h.named edge hedge
      refine ⟨row, hrow, ref, href, ?_⟩
      rw [edgeOf, (entryId_of_firstNaming href).2, ← hsnapshot, ← hchunk]
    · rintro ⟨row, hrow, ref, href, hedge⟩
      obtain ⟨hmem, hid⟩ := entryId_of_firstNaming href
      obtain ⟨found, ⟨hfound, hparticle, hentry⟩, -⟩ := h.edged edge.particleId row hrow ref hmem
      -- the edge that is there carries what the first reference carries
      obtain ⟨row', hrow', ref', href', hsnapshot, hchunk⟩ := h.named found hfound
      rw [hparticle] at hrow'
      obtain rfl := Option.some.inj (hrow.symm.trans hrow')
      rw [hentry, hid] at href'
      obtain rfl := Option.some.inj (href.symm.trans href')
      have hsame : found = edge := by
        rw [hedge, edgeOf, ← hparticle, ← hentry, ← hsnapshot, ← hchunk]
      rwa [← hsame]
  · intro h
    refine ⟨fun edge hedge => ?_, fun id row hrow ref href => ?_⟩
    · obtain ⟨row, hrow, ref, href, heq⟩ := (h edge).1 hedge
      refine ⟨row, hrow, ref, href, ?_⟩
      rw [heq]
      exact ⟨rfl, rfl⟩
    · obtain ⟨first, hfirst⟩ := exists_firstNaming href
      have hentry := (entryId_of_firstNaming hfirst).2
      refine ⟨edgeOf id first, ⟨(h (edgeOf id first)).2 ⟨row, hrow, first, ?_, rfl⟩, rfl, hentry⟩,
        fun edge hedge => ?_⟩
      · simpa [edgeOf, hentry] using hfirst
      · refine Table.eq_of_key_eq hedge.1 ((h (edgeOf id first)).2 ⟨row, hrow, first, ?_, rfl⟩) ?_
        · simpa [edgeOf, hentry] using hfirst
        · rw [ProvenanceEdgeRow.key, ProvenanceEdgeRow.key, hedge.2.1, hedge.2.2]
          simp [edgeOf, hentry]

/-! ### The three writes -/

theorem mem_provenanceEdges {p : Particle} {edge : ProvenanceEdgeRow} :
    edge ∈ provenanceEdges p ↔ ∃ ref, firstNaming p.provenance edge.corpusEntryId = some ref ∧
      edge = edgeOf p.id ref := by
  rw [provenanceEdges_eq, List.mem_map]
  constructor
  · rintro ⟨ref, href, rfl⟩
    exact ⟨ref, (mem_firstByKey.1 href).2, rfl⟩
  · rintro ⟨ref, href, rfl⟩
    exact ⟨ref, mem_firstByKey.2 ⟨by simp, href⟩, rfl⟩

/-- **An insert keeps the index in step**: the rows of the new particle are those of its own list. -/
theorem Mirrors.insertParticle {contentHash : String → String} {modelId : String} {p : Particle}
    {embedding : Option EmbeddingJson} (h : Mirrors store)
    (hok : insertParticle contentHash modelId store p embedding = .ok store') : Mirrors store' := by
  obtain ⟨hnone, -, new, hmodel, -, -, -, hget⟩ := get?_insertParticle hok
  have hedges := (edges_insertParticle hok).1
  refine mirrors_iff.2 fun edge => ?_
  rw [hedges, List.mem_append, mirrors_iff.1 h edge, mem_provenanceEdges, IsFirst, IsFirst, hget]
  by_cases hid : p.id = edge.particleId
  · -- no particle had the id before
    rw [if_pos hid, ← hid, hnone]
    simp [hmodel]
  · rw [if_neg hid]
    constructor
    · rintro (hold | ⟨ref, -, hedge⟩)
      · exact hold
      · exact absurd (congrArg ProvenanceEdgeRow.particleId hedge).symm hid
    · exact Or.inl

/-- An observation appended at the end is the first to name an id only when none named it. -/
theorem firstNaming_append {refs : List ProvenanceRef} {ref : ProvenanceRef} (entryId : String) :
    firstNaming (refs ++ [ref]) entryId = (firstNaming refs entryId).or
      (if ref.corpusEntryId = entryId then some ref else none) := by
  rw [firstNaming, List.find?_append, firstNaming]
  congr 1
  by_cases hid : ref.corpusEntryId = entryId <;> simp [hid]

theorem isFirst_iff {edge : ProvenanceEdgeRow} {row : ParticleRow}
    (hrow : store.get? edge.particleId = some row) :
    IsFirst store edge ↔ ∃ ref, firstNaming row.model.provenance edge.corpusEntryId = some ref ∧
      edge = edgeOf edge.particleId ref := by
  simp [IsFirst, hrow]

/-- A write that leaves the edges and the references of a particle leaves its index in step. -/
theorem isFirst_congr (store' store : Store) {edge : ProvenanceEdgeRow}
    (h : (store'.get? edge.particleId).map (·.model.provenance) =
      (store.get? edge.particleId).map (·.model.provenance)) :
    IsFirst store' edge ↔ IsFirst store edge := by
  have hcast : ∀ s : Store, IsFirst s edge ↔
      ∃ refs, (s.get? edge.particleId).map (·.model.provenance) = some refs ∧
        ∃ ref, firstNaming refs edge.corpusEntryId = some ref ∧
          edge = edgeOf edge.particleId ref := by
    intro s
    constructor
    · rintro ⟨row, hrow, href⟩
      exact ⟨_, by rw [hrow]; rfl, href⟩
    · rintro ⟨refs, hrefs, href⟩
      obtain ⟨row, hrow, rfl⟩ := Option.map_eq_some_iff.1 hrefs
      exact ⟨row, hrow, href⟩
  rw [hcast, hcast, h]

/-- **An append keeps the index in step**: an id that was named keeps its edge, and a new one gets
the edge of this reference. -/
theorem Mirrors.appendProvenanceRef (h : Mirrors store) (particleId : String) (ref : ProvenanceRef) :
    Mirrors (appendProvenanceRef store particleId ref).1 := by
  have hget := get?_appendProvenanceRef store particleId ref
  have hold := mirrors_iff.1 h
  refine mirrors_iff.2 fun edge => ?_
  -- the reference is noted only on a particle that does not carry it
  by_cases hnoted : ∃ row, store.get? particleId = some row ∧ ref ∉ row.model.provenance
  · obtain ⟨row, hrow, hmem⟩ := hnoted
    have hedges : (ParticlesEngine.appendProvenanceRef store particleId ref).1.edges =
        store.edges.insertIfAbsent (edgeOf particleId ref) := by
      simp [ParticlesEngine.appendProvenanceRef, hrow, hmem, Table.insertIfAbsent, edgeOf]
    rw [hedges, Table.rows_insertIfAbsent]
    by_cases hid : edge.particleId = particleId
    · have hrow' : (ParticlesEngine.appendProvenanceRef store particleId ref).1.get?
          edge.particleId = some (row.noteRef ref) := by
        rw [hget, if_pos hid.symm, hid, hrow, Option.map_some]
      have hnamed : (row.noteRef ref).model.provenance = row.model.provenance ++ [ref] := by
        simp [ParticleRow.noteRef, hmem, ParticleRow.withRef]
      rw [isFirst_iff hrow', hnamed]
      simp only [firstNaming_append]
      have hedge : ∀ e : ProvenanceEdgeRow, e.particleId = particleId → (e ∈ store.edges.rows ↔
          ∃ first, firstNaming row.model.provenance e.corpusEntryId = some first ∧
            e = edgeOf e.particleId first) := by
        intro e he
        rw [hold e, isFirst_iff (he ▸ hrow)]
      have habsent : store.edges.get? (edgeOf particleId ref).key = none ↔
          firstNaming row.model.provenance ref.corpusEntryId = none := by
        rw [Table.get?_eq_none, Option.eq_none_iff_forall_ne_some]
        constructor
        · intro hne first hfirst
          obtain ⟨-, hentry⟩ := entryId_of_firstNaming hfirst
          refine hne (edgeOf particleId first) ((hedge _ rfl).2 ⟨first, ?_, rfl⟩) ?_
          · rw [← hfirst, ← hentry]
            rfl
          · simp [ProvenanceEdgeRow.key, edgeOf, hentry]
        · intro hne e he hkey
          obtain ⟨hparticle, hentry⟩ := Prod.mk.inj hkey
          obtain ⟨first, hfirst, -⟩ := (hedge e hparticle).1 he
          rw [show e.corpusEntryId = ref.corpusEntryId from hentry] at hfirst
          exact hne first hfirst
      by_cases hentry : ref.corpusEntryId = edge.corpusEntryId
      · rw [if_pos hentry]
        cases hfirst : firstNaming row.model.provenance edge.corpusEntryId with
        | some first =>
            rw [if_neg (by rw [habsent, hentry, hfirst]; simp), hedge edge hid, hfirst]
            simp
        | none =>
            rw [if_pos (habsent.2 (hentry ▸ hfirst)), List.mem_append, List.mem_singleton,
              hedge edge hid, hfirst, hid]
            simp
      · rw [if_neg hentry, Option.or_none, ← hedge edge hid]
        split_ifs
        · rw [List.mem_append, List.mem_singleton]
          refine or_iff_left fun heq => hentry ?_
          rw [heq]
          rfl
        · rfl
    · rw [isFirst_congr _ store (by rw [hget, if_neg fun heq => hid heq.symm]), ← hold edge]
      split_ifs
      · rw [List.mem_append, List.mem_singleton]
        exact or_iff_left fun heq => hid (congrArg ProvenanceEdgeRow.particleId heq)
      · rfl
  · have hedges : (ParticlesEngine.appendProvenanceRef store particleId ref).1.edges =
        store.edges := by
      unfold ParticlesEngine.appendProvenanceRef
      cases hrow : store.get? particleId with
      | none => rfl
      | some row =>
          have hmem : ref ∈ row.model.provenance := by
            by_contra hmem
            exact hnoted ⟨row, hrow, hmem⟩
          simp [hmem]
    rw [hedges, hold edge]
    refine (isFirst_congr _ _ ?_).symm
    rw [hget]
    split_ifs with hid
    · cases hrow : store.get? edge.particleId with
      | none => rfl
      | some row =>
          have hmem : ref ∈ row.model.provenance := by
            by_contra hmem
            exact hnoted ⟨row, hid ▸ hrow, hmem⟩
          simp [ParticleRow.noteRef, hmem]
    · rfl

/-- The strip of an entry leaves, of each other id, the first reference that named it. -/
theorem firstNaming_stripped {row : ParticleRow} {entryId other : String} (hne : other ≠ entryId) :
    firstNaming (row.stripped entryId).model.provenance other =
      firstNaming row.model.provenance other := by
  rw [firstNaming, firstNaming, ParticleRow.stripped, List.find?_filter]
  refine congrArg (List.find? · row.model.provenance) (funext fun ref => ?_)
  by_cases hid : ref.corpusEntryId = other
  · simp [ProvenanceRef.isSourceOf, hid, hne]
  · simp [hid]

/-- After the strip of an entry that only sources name, nothing names it. -/
theorem firstNaming_stripped_self {row : ParticleRow} {entryId : String}
    (hsource : ∀ ref ∈ row.model.provenance, ref.corpusEntryId = entryId → ref.type = .SOURCE) :
    firstNaming (row.stripped entryId).model.provenance entryId = none := by
  rw [firstNaming, List.find?_eq_none]
  intro ref href hid
  rw [mem_provenance_stripped] at href
  have hid : ref.corpusEntryId = entryId := by simpa using hid
  exact href.2 ⟨hsource ref href.1 hid, hid⟩

/-- **A strip keeps the index in step**: it takes every reference to the entry, and the edge with
them. -/
theorem Mirrors.stripped (h : Mirrors store) {id entryId : String} {row : ParticleRow}
    (hrow : store.get? id = some row)
    (hsource : ∀ ref ∈ row.model.provenance, ref.corpusEntryId = entryId → ref.type = .SOURCE)
    (hget : ∀ k, store'.get? k =
      if id = k then (store.get? k).map (·.stripped entryId) else store.get? k)
    (hedges : store'.edges.rows = store.edges.rows.filter fun edge =>
      ¬ (edge.particleId = id ∧ edge.corpusEntryId = entryId)) : Mirrors store' := by
  have hold := mirrors_iff.1 h
  refine mirrors_iff.2 fun edge => ?_
  rw [hedges, List.mem_filter, hold edge]
  by_cases hid : edge.particleId = id
  · have hstripped : store'.get? edge.particleId = some (row.stripped entryId) := by
      rw [hget, if_pos hid.symm, hid, hrow, Option.map_some]
    rw [isFirst_iff hstripped, isFirst_iff (hid ▸ hrow)]
    by_cases hentry : edge.corpusEntryId = entryId
    · rw [hentry, firstNaming_stripped_self hsource]
      simp [hid]
    · rw [firstNaming_stripped hentry]
      simp [hentry]
  · rw [isFirst_congr store' store
      (by rw [hget, if_neg fun heq => hid heq.symm])]
    simp [hid]

end Index

/-! ### A run -/

/-- A reference that is not a source names no entry. -/
def RefsApart (isEntry : String → Prop) (store : Store) : Prop :=
  ∀ id row, store.get? id = some row → ∀ ref ∈ row.model.provenance, ref.type ≠ .SOURCE →
    ¬ isEntry ref.corpusEntryId

section Run

variable {contentHash : String → String} {modelId : String} {isEntry : String → Prop}
  {store : Store}

theorem applyProvenanceCall_insert (contentHash : String → String) (modelId : String) (store : Store)
    (p : Particle) (embedding : Option EmbeddingJson) :
    applyProvenanceCall contentHash modelId store (.insert p embedding) = store ∨
      insertParticle contentHash modelId store p embedding =
        .ok (applyProvenanceCall contentHash modelId store (.insert p embedding)) := by
  rw [applyProvenanceCall, provenanceWrite]
  cases insertParticle contentHash modelId store p embedding with
  | error e => exact Or.inl rfl
  | ok store' => exact Or.inr rfl

/-- **A strip is refused exactly when no other entry supports the particle**, and a refused strip
leaves the store as it was. -/
theorem applyProvenanceCall_strip (contentHash : String → String) (modelId : String) (store : Store)
    (id entryId : String) :
    (∃ row, store.get? id = some row ∧ row.model.hasOtherSource entryId ∧
      (∀ k, (applyProvenanceCall contentHash modelId store (.strip id entryId)).get? k =
        if id = k then (store.get? k).map (·.stripped entryId) else store.get? k) ∧
      (applyProvenanceCall contentHash modelId store (.strip id entryId)).edges.rows =
        store.edges.rows.filter fun edge =>
          ¬ (edge.particleId = id ∧ edge.corpusEntryId = entryId)) ∨
    ((∀ row, store.get? id = some row → ¬ row.model.hasOtherSource entryId) ∧
      (∃ e, stripEntryProvenanceRefs store id entryId = .error e) ∧
      applyProvenanceCall contentHash modelId store (.strip id entryId) = store) := by
  cases hrow : store.get? id with
  | none =>
      have hstrip : stripEntryProvenanceRefs store id entryId = .error (.notFound id) := by
        simp [stripEntryProvenanceRefs, hrow, orRaise, bind, Except.bind]
      refine Or.inr ⟨by simp, ⟨_, hstrip⟩, ?_⟩
      rw [applyProvenanceCall, provenanceWrite, hstrip]
      rfl
  | some row =>
      by_cases hother : row.model.hasOtherSource entryId
      · obtain ⟨particles, edges, hstrip, hget, hedges⟩ := stripEntryProvenanceRefs_spec hrow hother
        have happly : applyProvenanceCall contentHash modelId store (.strip id entryId) =
            { store with particles := particles, edges := edges } := by
          rw [applyProvenanceCall, provenanceWrite, hstrip]
          rfl
        exact Or.inl ⟨row, rfl, hother, by rw [happly]; exact hget, by rw [happly]; exact hedges⟩
      · -- every source that stays would name another entry
        have hnone : ((row.stripped entryId).model.provenance.any
            fun ref => decide (ref.type = .SOURCE)) = false := by
          rw [List.any_eq_false]
          intro ref href htype
          have htype : ref.type = .SOURCE := by simpa using htype
          obtain ⟨hmem, hne⟩ := mem_provenance_stripped.1 href
          exact hother ⟨ref, hmem, htype, fun hid => hne ⟨htype, hid⟩⟩
        have hstrip : stripEntryProvenanceRefs store id entryId = .error (.solelySupported id) := by
          simp [stripEntryProvenanceRefs, hrow, orRaise, bind, Except.bind, require, hnone]
        refine Or.inr ⟨?_, ⟨_, hstrip⟩, ?_⟩
        · intro row' hrow'
          obtain rfl := Option.some.inj hrow'
          exact hother
        · rw [applyProvenanceCall, provenanceWrite, hstrip]
          rfl

/-- **Each write keeps the index in step.** -/
theorem Mirrors.step (h : Mirrors store) (hapart : RefsApart isEntry store) {call : ProvenanceCall}
    (hcall : NamesApart isEntry call) :
    Mirrors (applyProvenanceCall contentHash modelId store call) := by
  cases call with
  | insert p embedding =>
      rcases applyProvenanceCall_insert contentHash modelId store p embedding with hsame | hok
      · rwa [hsame]
      · exact h.insertParticle hok
  | append particleId ref => exact h.appendProvenanceRef particleId ref
  | strip particleId entryId =>
      rcases applyProvenanceCall_strip contentHash modelId store particleId entryId with ⟨row, hrow, -, hget, hedges⟩ | ⟨-, -, hsame⟩
      · refine h.stripped hrow (fun ref href hid => ?_) hget hedges
        by_contra htype
        exact hapart particleId row hrow ref href htype (hid ▸ hcall)
      · rwa [hsame]

theorem RefsApart.step (hapart : RefsApart isEntry store) {call : ProvenanceCall}
    (hcall : NamesApart isEntry call) :
    RefsApart isEntry (applyProvenanceCall contentHash modelId store call) := by
  cases call with
  | insert p embedding =>
      rcases applyProvenanceCall_insert contentHash modelId store p embedding with hsame | hok
      · rwa [hsame]
      · obtain ⟨-, -, new, hmodel, -, -, -, hget⟩ := get?_insertParticle hok
        intro id row hrow ref href
        rw [hget] at hrow
        split_ifs at hrow with hid
        · obtain rfl := Option.some.inj hrow
          exact hcall ref (hmodel ▸ href)
        · exact hapart id row hrow ref href
  | append particleId ref =>
      have hget := get?_appendProvenanceRef store particleId ref
      intro id row hrow ref' href'
      change (ParticlesEngine.appendProvenanceRef store particleId ref).1.get? id = some row at hrow
      rw [hget] at hrow
      split_ifs at hrow with hid
      · obtain ⟨old, hold, rfl⟩ := Option.map_eq_some_iff.1 hrow
        rw [ParticleRow.noteRef] at href'
        split_ifs at href' with hmem
        · exact hapart id old hold ref' href'
        · rcases List.mem_append.1 href' with hin | hin
          · exact hapart id old hold ref' hin
          · obtain rfl := List.mem_singleton.1 hin
            exact hcall
      · exact hapart id row hrow ref' href'
  | strip particleId entryId =>
      rcases applyProvenanceCall_strip contentHash modelId store particleId entryId with ⟨-, -, -, hget, -⟩ | ⟨-, -, hsame⟩
      · intro id row hrow ref href
        rw [hget] at hrow
        split_ifs at hrow with hid
        · obtain ⟨old, hold, rfl⟩ := Option.map_eq_some_iff.1 hrow
          exact hapart id old hold ref (mem_provenance_stripped.1 href).1
        · exact hapart id row hrow ref href
      · rwa [hsame]

/-- **An append adds at the end or not at all**, and only to its own particle. -/
theorem provenance_append (contentHash : String → String) (modelId : String) (particleId : String)
    (ref : ProvenanceRef) {id : String} {row : ParticleRow} (hrow : store.get? id = some row) :
    ∃ row', (applyProvenanceCall contentHash modelId store (.append particleId ref)).get? id =
        some row' ∧
      (row'.model.provenance = row.model.provenance ∨
        particleId = id ∧ ref ∉ row.model.provenance ∧
          row'.model.provenance = row.model.provenance ++ [ref]) := by
  change ∃ row', (ParticlesEngine.appendProvenanceRef store particleId ref).1.get? id = some row' ∧ _
  rw [get?_appendProvenanceRef]
  split_ifs with hid
  · refine ⟨row.noteRef ref, by rw [hrow, Option.map_some], ?_⟩
    rw [ParticleRow.noteRef]
    split_ifs with hmem
    · exact Or.inl rfl
    · exact Or.inr ⟨hid, hmem, rfl⟩
  · exact ⟨row, hrow, Or.inl rfl⟩

/-- **The first reference of a particle stays the first**, unless a strip takes it. -/
theorem head_step {id : String} {row : ParticleRow} {first : ProvenanceRef}
    (hrow : store.get? id = some row) (hfirst : row.model.provenance.head? = some first)
    (call : ProvenanceCall) :
    ∃ row', (applyProvenanceCall contentHash modelId store call).get? id = some row' ∧
      (row'.model.provenance.head? = some first ∨
        ∃ entryId, call = .strip id entryId ∧ first.isSourceOf entryId) := by
  cases call with
  | insert p embedding =>
      rcases applyProvenanceCall_insert contentHash modelId store p embedding with hsame | hok
      · exact ⟨row, by rwa [hsame], Or.inl hfirst⟩
      · exact ⟨row, (get?_insertParticle_of_some hok hrow).2, Or.inl hfirst⟩
  | append particleId ref =>
      obtain ⟨row', hrow', hsame | ⟨-, -, hadded⟩⟩ :=
        provenance_append contentHash modelId particleId ref hrow
      · exact ⟨row', hrow', Or.inl (by rw [hsame, hfirst])⟩
      · exact ⟨row', hrow', Or.inl (by rw [hadded, List.head?_append, hfirst]; rfl)⟩
  | strip particleId entryId =>
      rcases applyProvenanceCall_strip contentHash modelId store particleId entryId with ⟨-, -, -, hget, -⟩ | ⟨-, -, hsame⟩
      · rw [hget]
        split_ifs with hid
        · refine ⟨row.stripped entryId, by rw [hrow, Option.map_some], ?_⟩
          by_cases htaken : first.isSourceOf entryId = true
          · exact Or.inr ⟨entryId, by rw [hid], htaken⟩
          · obtain ⟨rest, hrest⟩ : ∃ rest, row.model.provenance = first :: rest :=
              ⟨_, (List.cons_head?_tail hfirst).symm⟩
            exact Or.inl (by simp [ParticleRow.stripped, hrest, htaken])
        · exact ⟨row, hrow, Or.inl hfirst⟩
      · exact ⟨row, by rwa [hsame], Or.inl hfirst⟩

theorem mirrors_empty : Mirrors .empty ∧ RefsApart isEntry .empty := by
  have hnone : ∀ id, Store.empty.get? id = none := fun id => rfl
  refine ⟨⟨by simp [Store.empty, Table.empty], fun id row hrow => ?_⟩, fun id row hrow => ?_⟩ <;>
  · rw [hnone] at hrow
    cases hrow

/-- **The provenance index mirrors the references in every store that a run reaches.**  A write adds
at the end of a list or not at all, the first reference of a particle changes only when a strip takes
it, and a strip that no other source would survive is refused and changes nothing. -/
theorem provenance_mirrored (isEntry : String → Prop) (calls : List ProvenanceCall)
    (hcalls : ∀ call ∈ calls, NamesApart isEntry call) {store : Store}
    (hstore : store = calls.foldl (applyProvenanceCall contentHash modelId) .empty) :
    Mirrors store ∧
    (∀ id row particleId ref, store.get? id = some row →
      ∃ row', (applyProvenanceCall contentHash modelId store (.append particleId ref)).get? id =
          some row' ∧
        (row'.model.provenance = row.model.provenance ∨
          particleId = id ∧ ref ∉ row.model.provenance ∧
            row'.model.provenance = row.model.provenance ++ [ref])) ∧
    (∀ id row first call, store.get? id = some row → row.model.provenance.head? = some first →
      ∃ row', (applyProvenanceCall contentHash modelId store call).get? id = some row' ∧
        (row'.model.provenance.head? = some first ∨
          ∃ entryId, call = .strip id entryId ∧ first.isSourceOf entryId)) ∧
    (∀ id row entryId, store.get? id = some row → ¬ row.model.hasOtherSource entryId →
      (∃ e, stripEntryProvenanceRefs store id entryId = .error e) ∧
        applyProvenanceCall contentHash modelId store (.strip id entryId) = store) := by
  have hinv : Mirrors store ∧ RefsApart isEntry store := by
    rw [hstore]
    refine List.foldlRecOn (motive := fun s => Mirrors s ∧ RefsApart isEntry s) calls _ mirrors_empty
      fun store hinv call hcall => ?_
    exact ⟨hinv.1.step hinv.2 (hcalls call hcall), hinv.2.step (hcalls call hcall)⟩
  refine ⟨hinv.1, fun id row particleId ref hrow => provenance_append contentHash modelId particleId ref hrow,
    fun id row first call hrow hfirst => head_step hrow hfirst call,
    fun id row entryId hrow hnone => ?_⟩
  rcases applyProvenanceCall_strip contentHash modelId store id entryId with ⟨row', hrow', hother, -⟩ | ⟨-, herror, hsame⟩
  · obtain rfl := Option.some.inj (hrow.symm.trans hrow')
    exact absurd hother hnone
  · exact ⟨herror, hsame⟩

/-- A particle cites two entries, one of them twice; a third observation comes in, and the first
entry is deleted. -/
def citedTwice : List ProvenanceCall :=
  [.insert
      { id := "p"
        content := "Ada wrote the notes."
        provenance := [{ type := .SOURCE, corpusEntryId := "e1", snapshotId := some "s1" },
          { type := .SOURCE, corpusEntryId := "e2", snapshotId := some "s2" },
          { type := .SOURCE, corpusEntryId := "e1", snapshotId := some "s3" }] } none,
    .append "p" { type := .SOURCE, corpusEntryId := "e3" },
    .strip "p" "e1"]

theorem provenance_mirrored_citedTwice :
    Mirrors (citedTwice.foldl (applyProvenanceCall id "model") .empty) :=
  (provenance_mirrored (· ∈ ["e1", "e2", "e3"]) citedTwice
    (by simp [citedTwice, NamesApart]) rfl).1

end Run

end ParticlesEngine
