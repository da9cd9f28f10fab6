/-
**The particle repository.**

The writes of `store/particle_store.py` that create a particle and move its status.  A write that
raises leaves the transaction to be rolled back, so it returns an error and no store.

Main definitions:

* `insertParticle` — the insert, with its birth gate and its `born_retired` stamp;
* `updateParticleStatus` — a transition of the table, with the write-once retirement stamp;
* `updateStatusReason` — the reason-only update of a demoted row;
* `appendProvenanceRef` — one more observation of a stored claim.

Main results:

* `updateParticleStatus_eq_ok` — when a transition succeeds;
* `get?_insertParticle`, `get?_updateParticleStatus`, `get?_updateStatusReason` — **what a write
  that succeeds found, and what it leaves at every id**.
-/

import ParticlesEngine.FirstByKey
import ParticlesEngine.Store

set_option relaxedAutoImplicit false
set_option autoImplicit false

namespace ParticlesEngine

/-- Why a write raises. -/
inductive StoreError where
  /-- born PROVENANCE_STALE under another reason than CONFLICT_PENDING -/
  | birthReason (found : Option StatusReason)
  /-- a unique constraint of the database -/
  | integrity
  | notFound (particleId : String)
  /-- an edge that the transition table does not have -/
  | invalidTransition (source target : Status)
  /-- a supersession that no automatic merge made -/
  | irreversible (found : Option StatusReason)
  /-- a reason-only update of a row that is not PROVENANCE_STALE -/
  | notStale (particleId : String) (status : Status)
  /-- a birth that the transition table does not have -/
  | invalidBirth (target : Status)
  /-- an `assert` of the code -/
  | assertion
  /-- a guard of a write verb: the target is not ACTIVE, or not the caller's to change -/
  | notMutable (particleId : String)
  /-- a relation between a particle and itself -/
  | selfRelation (particleId : String)
  | subjectNotFound (subjectId : String)
  /-- an id prefix of several subjects -/
  | ambiguousSubject (subjectId : String)
  /-- a merge of no source, of the target itself, or of one source twice -/
  | noSources
  | sourceIsTarget (subjectId : String)
  | repeatedSource (subjectId : String)
  /-- a restored source that exists -/
  | subjectExists (subjectId : String)
  /-- an attachment of nothing, or to a particle that has a subject -/
  | noSubjects
  | alreadyLinked (particleId : String)
  /-- a split of a subject from itself -/
  | sameSubject (subjectId : String)
  /-- an undo of an event that is not an artifact fold -/
  | notAFold
  /-- a strip that would leave a particle without a source -/
  | solelySupported (particleId : String)
  /-- a promotion of a particle that is not a quarantined conflict loser -/
  | notQuarantined (particleId : String)
  /-- a merge that the operator has not enabled -/
  | autoMergeDisabled
  /-- a re-read merge while the judge is admitted on no stratum -/
  | rereadNotAdmitted
  deriving DecidableEq, Repr

/-- `urlparse` raises `ValueError` on some texts. -/
inductive UriError where
  | valueError
  deriving DecidableEq, Repr

/-- A check that raises `error` unless the condition holds. -/
def require (condition : Bool) (error : StoreError) : Except StoreError Unit :=
  if condition then .ok () else .error error

/-- A lookup that raises `error` when there is nothing. -/
def orRaise {α : Type} (value : Option α) (error : StoreError) : Except StoreError α :=
  match value with
  | none => .error error
  | some a => .ok a

theorem require_eq_ok {condition : Bool} {error : StoreError} {u : Unit} :
    require condition error = .ok u ↔ condition = true := by
  cases condition <;> simp [require]

theorem orRaise_eq_ok {α : Type} {value : Option α} {error : StoreError} {a : α} :
    orRaise value error = .ok a ↔ value = some a := by
  cases value <;> simp [orRaise]

/-- A sequence of two steps succeeds when both do. -/
theorem bind_eq_ok {ε α β : Type} {x : Except ε α} {f : α → Except ε β} {b : β} :
    (x >>= f) = .ok b ↔ ∃ a, x = .ok a ∧ f a = .ok b := by
  cases x <;> simp [bind, Except.bind]

theorem map_eq_ok {ε α β : Type} {x : Except ε α} {f : α → β} {b : β} :
    x.map f = .ok b ↔ ∃ a, x = .ok a ∧ f a = b := by
  cases x <;> simp [Except.map]

/-- A pass over a list succeeds when each of its steps does. -/
theorem mapM_eq_ok {ε α β : Type} {f : α → Except ε β} {l : List α} {out : List β} :
    l.mapM f = .ok out ↔ List.Forall₂ (fun a b => f a = .ok b) l out := by
  induction l generalizing out with
  | nil =>
      rw [List.mapM_nil, List.forall₂_nil_left_iff]
      constructor
      · intro h
        exact (Except.ok.inj h).symm
      · rintro rfl
        rfl
  | cons a l ih =>
      rw [List.mapM_cons, bind_eq_ok, List.forall₂_cons_left_iff]
      constructor
      · rintro ⟨b, hb, h⟩
        obtain ⟨rest, hrest, h⟩ := bind_eq_ok.1 h
        exact ⟨b, rest, hb, ih.1 hrest, (Except.ok.inj h).symm⟩
      · rintro ⟨b, rest, hb, hrest, rfl⟩
        exact ⟨b, hb, bind_eq_ok.2 ⟨rest, ih.2 hrest, rfl⟩⟩

/-- A pass over a list can succeed when each of its steps can. -/
theorem exists_mapM_eq_ok {ε α β : Type} {f : α → Except ε β} {l : List α} :
    (∃ out, l.mapM f = .ok out) ↔ ∀ a ∈ l, ∃ b, f a = .ok b := by
  simp only [mapM_eq_ok]
  induction l with
  | nil => exact iff_of_true ⟨[], List.Forall₂.nil⟩ fun _ ha => absurd ha List.not_mem_nil
  | cons a l ih =>
      rw [List.forall_mem_cons, ← ih]
      constructor
      · rintro ⟨_, hout⟩
        obtain ⟨b, rest, hb, hrest, -⟩ := List.forall₂_cons_left_iff.1 hout
        exact ⟨⟨b, hb⟩, rest, hrest⟩
      · rintro ⟨⟨b, hb⟩, rest, hrest⟩
        exact ⟨b :: rest, List.Forall₂.cons hb hrest⟩

/-- The results of a pass are those of its steps. -/
theorem mem_of_mapM_eq_ok {ε α β : Type} {f : α → Except ε β} {l : List α} {out : List β}
    (h : l.mapM f = .ok out) {b : β} : b ∈ out ↔ ∃ a ∈ l, f a = .ok b := by
  rw [mapM_eq_ok] at h
  induction h with
  | nil => simp
  | @cons a c l out hc _ ih =>
      rw [List.mem_cons, ih, List.exists_mem_cons_iff, hc]
      exact or_congr_left ⟨fun heq => heq ▸ rfl, fun heq => (Except.ok.inj heq).symm⟩

theorem toOption_eq_some {ε α : Type} {x : Except ε α} {a : α} :
    x.toOption = some a ↔ x = .ok a := by
  cases x <;> simp [Except.toOption]

/-! ### Insertion -/

/-- The row of a new particle. -/
def ParticleRow.fromModel (contentHash : String → String) (modelId : String) (rowid : ℕ)
    (p : Particle) (embedding : Option EmbeddingJson) : ParticleRow where
  model := p
  rowid := rowid
  contentNormHash := some (contentHash p.content)
  -- Python's truth test: an empty vector is stored as no embedding
  embeddingJson := embedding.filter (· ≠ [])
  embeddingModelId := if (embedding.filter (· ≠ [])).isSome then some modelId else none

/-- Add rows to a table, none of which may break its key. -/
def insertAll {κ ρ : Type} {key : ρ → κ} [DecidableEq κ] (table : Table key) (rows : List ρ) :
    Except StoreError (Table key) :=
  rows.foldlM (fun table row => orRaise (table.insert? row) .integrity) table

/-- **When rows can be added**: no key of the table and the new rows is there twice. -/
theorem insertAll_eq_ok {κ ρ : Type} {key : ρ → κ} [DecidableEq κ] {rows : List ρ} :
    ∀ {table table' : Table key}, insertAll table rows = .ok table' ↔
      ((table.rows ++ rows).map key).Nodup ∧ table'.rows = table.rows ++ rows := by
  induction rows with
  | nil =>
      intro table table'
      simp only [insertAll, List.foldlM_nil, List.append_nil]
      constructor
      · intro h
        obtain rfl := Except.ok.inj h
        exact ⟨table.nodup, rfl⟩
      · rintro ⟨-, h⟩
        exact congrArg Except.ok (Table.ext h.symm)
  | cons row rows ih =>
      intro table table'
      have hstep : insertAll table (row :: rows) = .ok table' ↔
          ∃ mid, table.insert? row = some mid ∧ insertAll mid rows = .ok table' := by
        simp only [insertAll, List.foldlM_cons, bind_eq_ok, orRaise_eq_ok]
      rw [hstep]
      have happend : table.rows ++ row :: rows = table.rows ++ [row] ++ rows := by simp
      constructor
      · rintro ⟨mid, hmid, hrest⟩
        obtain ⟨-, hrows⟩ := Table.insert?_eq_some.1 hmid
        rw [happend, ← hrows]
        exact ih.1 hrest
      · rintro ⟨hnodup, hrows⟩
        rw [happend] at hnodup hrows
        have hmid : ((table.rows ++ [row]).map key).Nodup :=
          ((List.sublist_append_left _ _).map key).nodup hnodup
        refine ⟨⟨table.rows ++ [row], hmid⟩, Table.insert?_eq_some.2 ⟨?_, rfl⟩,
          ih.2 ⟨hnodup, hrows⟩⟩
        rw [Table.get?_eq_none]
        intro r hr heq
        rw [List.map_append, List.nodup_append'] at hmid
        exact hmid.2.2 (List.mem_map_of_mem hr) (by simp [heq])

/-- The edges of a new particle: one per corpus entry, from the first reference that names it. -/
def provenanceEdges (p : Particle) : List ProvenanceEdgeRow :=
  p.provenance.foldl (fun edges ref =>
    if ref.corpusEntryId ∈ edges.map ProvenanceEdgeRow.corpusEntryId then edges
    else edges ++ [⟨p.id, ref.corpusEntryId, ref.snapshotId, ref.chunkHash⟩]) []

/-- The subject links of a new particle, without repetitions. -/
def subjectLinksOf (p : Particle) : List ParticleSubjectRow :=
  p.subjectIds.foldl (fun links sid =>
    if sid ∈ links.map ParticleSubjectRow.subjectId then links else links ++ [⟨p.id, sid⟩]) []

/-- The tag edges of a new particle: duplicate tags collapse to one edge. -/
def tagEdgesOf (p : Particle) : List ParticleTagEdgeRow :=
  (FirstByKey.firstByKey id [] p.tags).map fun tag => ⟨p.id, tag⟩

section Insert

variable (contentHash : String → String) (modelId : String)

/-- **`insert_particle`.** -/
def insertParticle (store : Store) (p : Particle) (embedding : Option EmbeddingJson) :
    Except StoreError Store := do
  require (¬ (p.status = .PROVENANCE_STALE ∧ p.statusReason ≠ some .CONFLICT_PENDING))
    (.birthReason p.statusReason)
  let row := { ParticleRow.fromModel contentHash modelId store.particles.nextRowid p embedding with
    bornRetired := p.status = .INCONSISTENCY ∨ p.status = .PROVENANCE_STALE }
  let particles ← orRaise (store.particles.insert? row) .integrity
  let edges ← insertAll store.edges (provenanceEdges p)
  let subjectLinks ← insertAll store.subjectLinks (subjectLinksOf p)
  let tagEdges ← insertAll store.tagEdges (tagEdgesOf p)
  return { store with
    particles := particles
    edges := edges
    subjectLinks := subjectLinks
    tagEdges := tagEdges }

end Insert

/-! ### Status writes -/

/-- The stance kinds, whose edges outlive a retracted endpoint. -/
def STANCE_KINDS : List RelationType := [.ENDORSES, .DISPUTES]

/-- `remove_particle_from_relations`: drop the non-stance edges at a particle. -/
def removeParticleFromRelations (store : Store) (particleId : String) : Store :=
  { store with relations := store.relations.filter fun rel =>
      ¬ ((rel.particleA = particleId ∨ rel.particleB = particleId) ∧
        rel.relationType ∉ STANCE_KINDS) }

/-- The row after a status write at instant `now`. -/
def ParticleRow.withStatus (row : ParticleRow) (now : Instant) (status : Status)
    (reason : Option StatusReason) : ParticleRow :=
  let retiredAt :=
    if row.model.status = .ACTIVE ∧ status ≠ .ACTIVE ∧ row.retiredAt = none then some now
    else row.retiredAt
  { row with
    model := { row.model with status := status, statusReason := reason }
    -- a return to ACTIVE withdraws the retirement
    retiredAt := if status = .ACTIVE then none else retiredAt }

theorem ParticleRow.id_withStatus (now : Instant) (status : Status)
    (reason : Option StatusReason) (row : ParticleRow) :
    (row.withStatus now status reason).id = row.id := rfl

theorem ParticleRow.rowid_withStatus (now : Instant) (status : Status)
    (reason : Option StatusReason) (row : ParticleRow) :
    (row.withStatus now status reason).rowid = row.rowid := rfl

/-- The row after a reason-only write. -/
def ParticleRow.withReason (row : ParticleRow) (reason : StatusReason) : ParticleRow :=
  { row with model := { row.model with statusReason := some reason } }

theorem ParticleRow.id_withReason (reason : StatusReason) (row : ParticleRow) :
    (row.withReason reason).id = row.id := rfl

theorem ParticleRow.rowid_withReason (reason : StatusReason) (row : ParticleRow) :
    (row.withReason reason).rowid = row.rowid := rfl

/-- The row with one more provenance reference, at the end of the list. -/
def ParticleRow.withRef (row : ParticleRow) (ref : ProvenanceRef) : ParticleRow :=
  { row with model := { row.model with provenance := row.model.provenance ++ [ref] } }

theorem ParticleRow.id_withRef (ref : ProvenanceRef) (row : ParticleRow) :
    (row.withRef ref).id = row.id := rfl

theorem ParticleRow.rowid_withRef (ref : ProvenanceRef) (row : ParticleRow) :
    (row.withRef ref).rowid = row.rowid := rfl

/-- The store after a status write at instant `now`; a retraction also leaves the relations. -/
def Store.setStatus (store : Store) (now : Instant) (particleId : String) (status : Status)
    (reason : Option StatusReason) : Store :=
  let store := store.modifyParticle particleId (·.withStatus now status reason)
    (ParticleRow.id_withStatus now status reason) (ParticleRow.rowid_withStatus now status reason)
  if status = .RETRACTED then removeParticleFromRelations store particleId else store

/-- **`update_particle_status`** at instant `now`. -/
def updateParticleStatus (table : TransitionTable) (now : Instant) (store : Store)
    (particleId : String) (status : Status) (reason : Option StatusReason) :
    Except StoreError Store := do
  let row ← orRaise (store.get? particleId) (.notFound particleId)
  require (table.allows (some row.model.status) status)
    (.invalidTransition row.model.status status)
  require (¬ (row.model.status = .SUPERSEDED ∧ status = .ACTIVE ∧
    row.model.statusReason ≠ some REVERSIBLE_SUPERSESSION_REASON))
    (.irreversible row.model.statusReason)
  return store.setStatus now particleId status reason

/-- **`update_status_reason`**: a reason-only write of a demoted row. -/
def updateStatusReason (store : Store) (particleId : String) (reason : StatusReason) :
    Except StoreError Store := do
  let row ← orRaise (store.get? particleId) (.notFound particleId)
  require (row.model.status = .PROVENANCE_STALE) (.notStale particleId row.model.status)
  return store.modifyParticle particleId (·.withReason reason)
    (ParticleRow.id_withReason reason) (ParticleRow.rowid_withReason reason)

/-! ### Provenance -/

/-- **`append_provenance_ref`**: the store, and whether the reference was added. -/
def appendProvenanceRef (store : Store) (particleId : String) (ref : ProvenanceRef) :
    Store × Bool :=
  match store.get? particleId with
  | none => (store, false)
  | some row =>
      if ref ∈ row.model.provenance then (store, false)
      else
        let modified := store.modifyParticle particleId (·.withRef ref)
          (ParticleRow.id_withRef ref) (ParticleRow.rowid_withRef ref)
        -- the index keeps one row per entry, and never re-points it
        let edge : ProvenanceEdgeRow :=
          ⟨particleId, ref.corpusEntryId, ref.snapshotId, ref.chunkHash⟩
        ({ modified with edges := (store.edges.insert? edge).getD store.edges }, true)

/-- Each reference of a new observation, in turn. -/
def appendProvenanceRefs (store : Store) (particleId : String) (refs : List ProvenanceRef) :
    Store :=
  refs.foldl (fun store ref => (appendProvenanceRef store particleId ref).1) store

/-! ### What the writes leave -/

section Specs

variable {store store' : Store}

theorem get?_insertParticle {contentHash : String → String} {modelId : String} {p : Particle}
    {embedding : Option EmbeddingJson}
    (h : insertParticle contentHash modelId store p embedding = .ok store') :
    store.get? p.id = none ∧
      (p.status = .PROVENANCE_STALE → p.statusReason = some .CONFLICT_PENDING) ∧
      ∃ row : ParticleRow, row.model = p ∧ row.retiredAt = none ∧
        (row.bornRetired = true ↔ p.status = .INCONSISTENCY ∨ p.status = .PROVENANCE_STALE) ∧
        row.contentNormHash = some (contentHash p.content) ∧
        ∀ id, store'.get? id = if p.id = id then some row else store.get? id := by
  simp only [insertParticle, bind_eq_ok, require_eq_ok, orRaise_eq_ok] at h
  obtain ⟨-, hgate, particles, hparticles, edges, -, links, -, tagEdges, -, hstore⟩ := h
  obtain rfl := Except.ok.inj hstore
  obtain ⟨hnone, -, -⟩ := ParticleTable.insert?_eq_some hparticles
  refine ⟨hnone, ?_, _, rfl, rfl, by simp, rfl, ParticleTable.get?_insert? hparticles⟩
  intro hstale
  simpa [hstale] using hgate

/-- A row that is there before an insert is there after it, for the insert takes a new id. -/
theorem get?_insertParticle_of_some {contentHash : String → String} {modelId : String} {p : Particle}
    {embedding : Option EmbeddingJson} {id : String} {row : ParticleRow}
    (h : insertParticle contentHash modelId store p embedding = .ok store')
    (hrow : store.get? id = some row) : p.id ≠ id ∧ store'.get? id = some row := by
  obtain ⟨hfresh, -, _, -, -, -, -, hget⟩ := get?_insertParticle h
  have hne : p.id ≠ id := by
    rintro rfl
    rw [hrow] at hfresh
    cases hfresh
  exact ⟨hne, by rw [hget, if_neg hne, hrow]⟩

/-- An insert leaves the corpus alone. -/
theorem entries_insertParticle {contentHash : String → String} {modelId : String} {p : Particle}
    {embedding : Option EmbeddingJson}
    (h : insertParticle contentHash modelId store p embedding = .ok store') :
    store'.entries = store.entries := by
  simp only [insertParticle, bind_eq_ok] at h
  obtain ⟨-, -, particles, -, edges, -, links, -, tagEdges, -, hstore⟩ := h
  obtain rfl := Except.ok.inj hstore
  rfl

theorem get?_setStatus (store : Store) (now : Instant) (particleId : String) (status : Status)
    (reason : Option StatusReason) (id : String) :
    (store.setStatus now particleId status reason).get? id =
      if particleId = id then (store.get? id).map (·.withStatus now status reason)
      else store.get? id := by
  rw [← Store.get?_modifyParticle store particleId (·.withStatus now status reason)
    (ParticleRow.id_withStatus now status reason) (ParticleRow.rowid_withStatus now status reason)]
  unfold Store.setStatus
  split_ifs <;> rfl

@[simp] theorem edges_setStatus (store : Store) (now : Instant) (particleId : String)
    (status : Status) (reason : Option StatusReason) :
    (store.setStatus now particleId status reason).edges = store.edges := by
  unfold Store.setStatus
  split_ifs <;> rfl

/-- **When a status write succeeds**: along an edge of the table, from SUPERSEDED only when an
automatic merge retired the row. -/
theorem updateParticleStatus_eq_ok {table : TransitionTable} {now : Instant} {particleId : String}
    {status : Status} {reason : Option StatusReason} :
    updateParticleStatus table now store particleId status reason = .ok store' ↔
      ∃ row, store.get? particleId = some row ∧
        table.allows (some row.model.status) status = true ∧
        (row.model.status = .SUPERSEDED → status = .ACTIVE →
          row.model.statusReason = some REVERSIBLE_SUPERSESSION_REASON) ∧
        store.setStatus now particleId status reason = store' := by
  simp only [updateParticleStatus, bind_eq_ok, require_eq_ok, orRaise_eq_ok]
  constructor
  · rintro ⟨row, hrow, -, hallows, -, hreversible, hstore⟩
    refine ⟨row, hrow, hallows, ?_, Except.ok.inj hstore⟩
    intro hsuperseded hactive
    simpa [hsuperseded, hactive] using hreversible
  · rintro ⟨row, hrow, hallows, hreversible, rfl⟩
    refine ⟨row, hrow, (), hallows, (), ?_, rfl⟩
    rw [decide_eq_true_eq]
    rintro ⟨hsuperseded, hactive, hne⟩
    exact hne (hreversible hsuperseded hactive)

/-- **A status write** moves the row of its id along an edge of the table, and no other row. -/
theorem get?_updateParticleStatus {table : TransitionTable} {now : Instant} {particleId : String}
    {status : Status} {reason : Option StatusReason}
    (h : updateParticleStatus table now store particleId status reason = .ok store') :
    ∃ row, store.get? particleId = some row ∧
      table.allows (some row.model.status) status = true ∧
      ∀ id, store'.get? id =
        if particleId = id then some (row.withStatus now status reason) else store.get? id := by
  obtain ⟨row, hrow, hallows, -, rfl⟩ := updateParticleStatus_eq_ok.1 h
  refine ⟨row, hrow, hallows, fun id => ?_⟩
  rw [get?_setStatus]
  by_cases hid : particleId = id
  · subst hid
    rw [if_pos rfl, if_pos rfl, hrow, Option.map_some]
  · rw [if_neg hid, if_neg hid]

/-- A status write leaves the corpus alone. -/
theorem entries_updateParticleStatus {table : TransitionTable} {now : Instant} {particleId : String}
    {status : Status} {reason : Option StatusReason}
    (h : updateParticleStatus table now store particleId status reason = .ok store') :
    store'.entries = store.entries := by
  obtain ⟨row, -, -, -, rfl⟩ := updateParticleStatus_eq_ok.1 h
  unfold Store.setStatus
  split_ifs <;> rfl

/-- **A reason-only write** rewrites the reason of a demoted row, and nothing else. -/
theorem get?_updateStatusReason {particleId : String} {reason : StatusReason}
    (h : updateStatusReason store particleId reason = .ok store') :
    ∃ row, store.get? particleId = some row ∧ row.model.status = .PROVENANCE_STALE ∧
      ∀ id, store'.get? id =
        if particleId = id then some (row.withReason reason) else store.get? id := by
  simp only [updateStatusReason, bind_eq_ok, require_eq_ok, orRaise_eq_ok] at h
  obtain ⟨row, hrow, -, hstale, hstore⟩ := h
  obtain rfl := Except.ok.inj hstore
  refine ⟨row, hrow, by simpa using hstale, fun id => ?_⟩
  rw [Store.get?_modifyParticle]
  by_cases hid : particleId = id
  · subst hid
    rw [if_pos rfl, if_pos rfl, hrow, Option.map_some]
  · rw [if_neg hid, if_neg hid]

/-- The row with a reference that it does not carry yet. -/
def ParticleRow.noteRef (row : ParticleRow) (ref : ProvenanceRef) : ParticleRow :=
  if ref ∈ row.model.provenance then row else row.withRef ref

theorem get?_appendProvenanceRef (store : Store) (particleId : String) (ref : ProvenanceRef)
    (id : String) :
    (appendProvenanceRef store particleId ref).1.get? id =
      if particleId = id then (store.get? id).map (·.noteRef ref) else store.get? id := by
  unfold appendProvenanceRef
  cases hrow : store.get? particleId with
  | none =>
      by_cases hid : particleId = id
      · subst hid
        rw [if_pos rfl, hrow]
        rfl
      · rw [if_neg hid]
  | some row =>
      by_cases hmem : ref ∈ row.model.provenance
      · simp only [if_pos hmem]
        by_cases hid : particleId = id
        · subst hid
          rw [if_pos rfl, hrow, Option.map_some, ParticleRow.noteRef, if_pos hmem]
        · rw [if_neg hid]
      · simp only [if_neg hmem]
        change (store.modifyParticle particleId (·.withRef ref) (ParticleRow.id_withRef ref)
          (ParticleRow.rowid_withRef ref)).get? id = _
        rw [Store.get?_modifyParticle]
        by_cases hid : particleId = id
        · subst hid
          rw [if_pos rfl, if_pos rfl, hrow, Option.map_some, Option.map_some,
            ParticleRow.noteRef, if_neg hmem]
        · rw [if_neg hid, if_neg hid]

/-- **An observation adds references to one row**, and changes nothing else of it. -/
theorem get?_appendProvenanceRefs (particleId : String) (refs : List ProvenanceRef) :
    ∀ (store : Store) (id : String),
      (appendProvenanceRefs store particleId refs).get? id =
        if particleId = id then (store.get? id).map (refs.foldl ParticleRow.noteRef ·)
        else store.get? id := by
  induction refs with
  | nil =>
      intro store id
      simp [appendProvenanceRefs]
  | cons ref refs ih =>
      intro store id
      have hstep := ih (appendProvenanceRef store particleId ref).1 id
      rw [get?_appendProvenanceRef] at hstep
      refine Eq.trans hstep ?_
      split_ifs with hid
      · rw [Option.map_map]
        rfl
      · rfl

end Specs

/-- The particle with the id is stored and ACTIVE. -/
def IsActive (store : Store) (id : String) : Prop :=
  ∃ row, store.get? id = some row ∧ row.model.status = .ACTIVE

instance (store : Store) (id : String) : Decidable (IsActive store id) :=
  decidable_of_iff ((store.get? id).any (·.model.status = .ACTIVE) = true) <| by
    simp [IsActive, Option.any_eq_true]

end ParticlesEngine
