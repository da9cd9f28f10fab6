/-
**The tags of a particle.**

A particle's tags are kept twice: in its row, as the list it displays, and in the edge table that
tag-filtered reads go through.  `insert_particle` and the three tag verbs of
`store/taxonomy_store.py` write both.

Main definitions:

* `setParticleTags`, `addParticleTags`, `removeParticleTags` — the tag verbs, over a session that
  keeps whatever was written before a raise;
* `TagCall`, `TagSession.runAll` — any sequence of them and of inserts;
* `TagsIndexed` — the edges are those of the stored tags;
* `Retagged` — what a verb that succeeds leaves.

Main results:

* `Retagged.indexed` — a verb keeps the two in step;
* `insertAll_tagEdgesOf` — the edges of a new particle are new;
* `tagsIndexed_runAll` — **in every store reached the edges are those of the stored tags, no edge is
  inserted twice, and a call that raises changes nothing**.
-/

import Mathlib.Data.String.Basic
import ParticlesEngine.ParticleStore
import ParticlesEngine.SortBy

set_option relaxedAutoImplicit false
set_option autoImplicit false

open FirstByKey SortBy

namespace ParticlesEngine

/-! ### The tag verbs -/

/-- What a tag verb reports to the operator's event log. -/
inductive TagEventType where
  | PARTICLE_TAGGED
  | PARTICLE_UNTAGGED
  deriving DecidableEq, Repr

/-- An event of the log, about one particle. -/
structure TagEvent where
  actor : String
  eventType : TagEventType
  particleId : String
  tags : List String
  deriving DecidableEq, Repr

/-- Why a tag verb raises. -/
inductive TagError where
  /-- `ReservedTagError`, with the reserved tags named -/
  | reservedTag (tags : List String)
  | notFound (particleId : String)
  /-- an edge that the table holds already -/
  | edgeTwice
  /-- `insert_particle` raised -/
  | insert (error : StoreError)
  deriving DecidableEq, Repr

/-- A session in progress: what it has written, and the events recorded. -/
structure TagSession where
  store : Store := .empty
  events : List TagEvent := []
  deriving DecidableEq

/-- The row with its tags rewritten. -/
def ParticleRow.withTags (row : ParticleRow) (tags : List String) : ParticleRow :=
  { row with model := { row.model with tags := tags } }

theorem ParticleRow.id_withTags (tags : List String) (row : ParticleRow) :
    (row.withTags tags).id = row.id := rfl

theorem ParticleRow.rowid_withTags (tags : List String) (row : ParticleRow) :
    (row.withTags tags).rowid = row.rowid := rfl

/-- The store with a particle's `tags_json` rewritten. -/
def Store.writeTags (store : Store) (particleId : String) (tags : List String) : Store :=
  store.modifyParticle particleId (·.withTags tags) (ParticleRow.id_withTags tags)
    (ParticleRow.rowid_withTags tags)

namespace TagSession

/-- `session.add` of an edge for each tag, and the flush. -/
def addEdges (session : TagSession) (particleId : String) (tags : List String) :
    TagSession × Except TagError Unit :=
  match insertAll session.store.tagEdges (tags.map fun tag => ⟨particleId, tag⟩) with
  | .ok tagEdges => ({ session with store := { session.store with tagEdges := tagEdges } }, .ok ())
  | .error _ => (session, .error .edgeTwice)

/-- `set_particle_tags`. -/
def setParticleTags (session : TagSession) (particleId : String) (tags : List String) :
    TagSession × Except TagError Unit :=
  match session.store.get? particleId with
  | none => (session, .error (.notFound particleId))
  | some _ =>
      let deduped := firstByKey id [] tags
      let written := session.store.writeTags particleId deduped
      let cleared := { written with
        tagEdges := written.tagEdges.filter fun edge => edge.particleId ≠ particleId }
      addEdges { session with store := cleared } particleId deduped

/-- `add_particle_tags`: the tags added.  No tag verb adds a reserved tag. -/
def addParticleTags (RESERVED_TAGS : List String) (session : TagSession) (particleId : String)
    (newTags : List String) (actor : String) : TagSession × Except TagError (List String) :=
  let reserved := sortBy id (RESERVED_TAGS.filter (· ∈ newTags))
  if reserved ≠ [] then (session, .error (.reservedTag reserved))
  else
    match session.store.get? particleId with
    | none => (session, .error (.notFound particleId))
    | some row =>
        let current := row.model.tags
        let added := (firstByKey id [] newTags).filter (· ∉ current)
        if added = [] then (session, .ok [])
        else
          let written := session.store.writeTags particleId (current ++ added)
          match addEdges { session with store := written } particleId added with
          | (session, .error error) => (session, .error error)
          | (session, .ok ()) =>
              ({ session with
                  events := session.events ++ [⟨actor, .PARTICLE_TAGGED, particleId, added⟩] },
                .ok added)

/-- `remove_particle_tags`: the tags removed, in order. -/
def removeParticleTags (session : TagSession) (particleId : String) (tags : List String)
    (actor : String) : TagSession × Except TagError (List String) :=
  match session.store.get? particleId with
  | none => (session, .error (.notFound particleId))
  | some row =>
      let current := row.model.tags
      let toRemove := (firstByKey id [] current).filter (· ∈ tags)
      if toRemove = [] then (session, .ok [])
      else
        let remaining := current.filter (· ∉ toRemove)
        let written := session.store.writeTags particleId remaining
        let cleared := { written with
          tagEdges := written.tagEdges.filter fun edge =>
            ¬(edge.particleId = particleId ∧ edge.tag ∈ toRemove) }
        let removed := sortBy id toRemove
        ({ session with
            store := cleared
            events := session.events ++ [⟨actor, .PARTICLE_UNTAGGED, particleId, removed⟩] },
          .ok removed)

end TagSession

/-- A call that writes tags. -/
inductive TagCall where
  | insertParticle (particle : Particle) (embedding : Option EmbeddingJson)
  | setParticleTags (particleId : String) (tags : List String)
  | addParticleTags (particleId : String) (newTags : List String) (actor : String)
  | removeParticleTags (particleId : String) (tags : List String) (actor : String)
  deriving DecidableEq

section Calls

variable (contentHash : String → String) (modelId : String) (RESERVED_TAGS : List String)

/-- The session after a call, and what the call raised or returned. -/
def TagCall.run (session : TagSession) : TagCall → TagSession × Except TagError (List String)
  | insertParticle particle embedding =>
      match ParticlesEngine.insertParticle contentHash modelId session.store particle embedding with
      | .ok store => ({ session with store := store }, .ok [])
      | .error error => (session, .error (.insert error))
  | setParticleTags particleId tags =>
      let (session, result) := session.setParticleTags particleId tags
      (session, result.map fun _ => [])
  | addParticleTags particleId newTags actor =>
      session.addParticleTags RESERVED_TAGS particleId newTags actor
  | removeParticleTags particleId tags actor => session.removeParticleTags particleId tags actor

/-- The session after a sequence of calls, each of which may raise. -/
def TagSession.runAll (session : TagSession) (calls : List TagCall) : TagSession :=
  calls.foldl (fun session call => (call.run contentHash modelId RESERVED_TAGS session).1) session

end Calls

/-! ### The edges and the stored tags -/

/-- **The edges are those of the stored tags.** -/
def TagsIndexed (store : Store) : Prop :=
  ∀ edge : ParticleTagEdgeRow, edge ∈ store.tagEdges.rows ↔
    ∃ row, store.get? edge.particleId = some row ∧ edge.tag ∈ row.model.tags

/-- What a verb that succeeds leaves: one particle's tags and edges rewritten, nothing else. -/
structure Retagged (before after : Store) (particleId : String) (tags : List String) : Prop where
  rows : ∀ id, after.get? id =
    if particleId = id then (before.get? id).map (·.withTags tags) else before.get? id
  edges : ∀ edge, edge ∈ after.tagEdges.rows ↔
    if edge.particleId = particleId then edge.tag ∈ tags else edge ∈ before.tagEdges.rows

theorem TagsIndexed.mem_edges {store : Store} (hindexed : TagsIndexed store) {particleId : String}
    {row : ParticleRow} (hrow : store.get? particleId = some row) (tag : String) :
    (⟨particleId, tag⟩ : ParticleTagEdgeRow) ∈ store.tagEdges.rows ↔ tag ∈ row.model.tags := by
  have hiff := hindexed ⟨particleId, tag⟩
  rw [hrow] at hiff
  simpa using hiff

/-- A particle's tags are rewritten when its own edges are those tags and the others are as before. -/
theorem Retagged.of_own {before after : Store} {particleId : String} {tags : List String}
    (hrows : ∀ id, after.get? id =
      if particleId = id then (before.get? id).map (·.withTags tags) else before.get? id)
    (hown : ∀ tag, (⟨particleId, tag⟩ : ParticleTagEdgeRow) ∈ after.tagEdges.rows ↔ tag ∈ tags)
    (hothers : ∀ edge : ParticleTagEdgeRow, edge.particleId ≠ particleId →
      (edge ∈ after.tagEdges.rows ↔ edge ∈ before.tagEdges.rows)) :
    Retagged before after particleId tags where
  rows := hrows
  edges := by
    intro edge
    by_cases hid : edge.particleId = particleId
    · rw [if_pos hid, ← hown, ← hid]
    · rw [if_neg hid, hothers edge hid]

/-- **A verb keeps the edges and the stored tags in step.** -/
theorem Retagged.indexed {before after : Store} {particleId : String} {tags : List String}
    (h : Retagged before after particleId tags) (hexists : before.get? particleId ≠ none)
    (hindexed : TagsIndexed before) : TagsIndexed after := by
  intro edge
  rw [h.edges, h.rows]
  by_cases hid : edge.particleId = particleId
  · obtain ⟨row, hrow⟩ := Option.ne_none_iff_exists'.1 hexists
    rw [if_pos hid, if_pos hid.symm, hid, hrow]
    simp [ParticleRow.withTags]
  · rw [if_neg hid, if_neg (Ne.symm hid)]
    exact hindexed edge

theorem Store.rows_writeTags (store : Store) (particleId : String) (tags : List String) (id : String) :
    (store.writeTags particleId tags).get? id =
      if particleId = id then (store.get? id).map (·.withTags tags) else store.get? id :=
  Store.get?_modifyParticle store particleId _ _ _ id

@[simp] theorem Store.tagEdges_writeTags (store : Store) (particleId : String) (tags : List String) :
    (store.writeTags particleId tags).tagEdges = store.tagEdges := rfl

/-- The edges that a particle's tags ask for. -/
theorem mem_map_edge {particleId : String} {tags : List String} {edge : ParticleTagEdgeRow} :
    edge ∈ tags.map (fun tag => (⟨particleId, tag⟩ : ParticleTagEdgeRow)) ↔
      edge.particleId = particleId ∧ edge.tag ∈ tags := by
  obtain ⟨id, tag⟩ := edge
  simp [and_comm, eq_comm]

/-- Edges that the table does not hold can be added, each once. -/
theorem TagSession.addEdges_eq_ok (session : TagSession) (particleId : String) {tags : List String}
    (hnodup : tags.Nodup)
    (hnew : ∀ tag ∈ tags, (⟨particleId, tag⟩ : ParticleTagEdgeRow) ∉ session.store.tagEdges.rows) :
    ∃ tagEdges : Table ParticleTagEdgeRow.key,
      session.addEdges particleId tags =
        ({ session with store := { session.store with tagEdges := tagEdges } }, .ok ()) ∧
      tagEdges.rows = session.store.tagEdges.rows ++ tags.map fun tag => ⟨particleId, tag⟩ := by
  have hinj : Function.Injective ParticleTagEdgeRow.key := by
    rintro ⟨id, tag⟩ ⟨id', tag'⟩ h
    simpa [ParticleTagEdgeRow.key] using h
  have hkeys : ((session.store.tagEdges.rows ++
      tags.map fun tag => (⟨particleId, tag⟩ : ParticleTagEdgeRow)).map
        ParticleTagEdgeRow.key).Nodup := by
    refine List.Nodup.map hinj (List.nodup_append.2 ⟨session.store.tagEdges.nodup.of_map, ?_, ?_⟩)
    · exact hnodup.map fun tag tag' h => by simpa using h
    · rintro edge hedge edge' hedge' rfl
      obtain ⟨tag, htag, rfl⟩ := List.mem_map.1 hedge'
      exact hnew tag htag hedge
  have hinsert : insertAll session.store.tagEdges (tags.map fun tag => ⟨particleId, tag⟩) =
      .ok ⟨_, hkeys⟩ := insertAll_eq_ok.2 ⟨hkeys, rfl⟩
  exact ⟨⟨_, hkeys⟩, by rw [addEdges, hinsert], rfl⟩

/-! ### One call -/

/-- What a tag verb comes to: it raises and changes nothing, it has nothing to do, or it rewrites one
particle's tags and edges. -/
inductive TagOutcome {α : Type} (session : TagSession) : TagSession × Except TagError α → Prop
  | raised (error : TagError) (hedge : error ≠ .edgeTwice) : TagOutcome session (session, .error error)
  | same (value : α) : TagOutcome session (session, .ok value)
  | retagged (after : Store) (events : List TagEvent) (particleId : String) (tags : List String)
      (value : α) (hexists : session.store.get? particleId ≠ none)
      (hafter : Retagged session.store after particleId tags) :
      TagOutcome session (⟨after, events⟩, .ok value)

variable (session : TagSession) (particleId : String)

theorem nodup_firstByKey_id (tags : List String) : (firstByKey id [] tags).Nodup := by
  have h : ((firstByKey id [] tags).map id).Nodup := nodup_map_firstByKey
  simpa using h

theorem TagSession.outcome_setParticleTags (tags : List String) :
    TagOutcome session (session.setParticleTags particleId tags) := by
  rw [setParticleTags]
  cases hrow : session.store.get? particleId with
  | none => exact .raised _ (by simp)
  | some row =>
      obtain ⟨tagEdges, hadd, hedges⟩ := addEdges_eq_ok
        { session with
          store := { session.store.writeTags particleId (firstByKey id [] tags) with
            tagEdges := session.store.tagEdges.filter fun edge => edge.particleId ≠ particleId } }
        particleId (nodup_firstByKey_id tags) (fun tag _ => by simp)
      refine hadd ▸ .retagged _ _ particleId (firstByKey id [] tags) () (by simp [hrow])
        (.of_own (Store.rows_writeTags _ _ _) (fun tag => ?_) fun edge hid => ?_)
      · rw [hedges, List.mem_append, mem_map_edge]
        simp
      · rw [hedges, List.mem_append, mem_map_edge]
        simp [hid]

theorem TagSession.outcome_addParticleTags (RESERVED_TAGS newTags : List String) (actor : String)
    (hindexed : TagsIndexed session.store) :
    TagOutcome session (session.addParticleTags RESERVED_TAGS particleId newTags actor) := by
  rw [addParticleTags]
  split_ifs with hreserved
  · exact .raised _ (by simp)
  · cases hrow : session.store.get? particleId with
    | none => exact .raised _ (by simp)
    | some row =>
        simp only
        split_ifs with hadded
        · exact .same []
        · -- no edge of an added tag is there, for the edges are those of the stored tags
          obtain ⟨tagEdges, hadd, hedges⟩ := addEdges_eq_ok
            { session with
              store := session.store.writeTags particleId
                (row.model.tags ++ (firstByKey id [] newTags).filter (· ∉ row.model.tags)) }
            particleId ((nodup_firstByKey_id newTags).filter (· ∉ row.model.tags)) (fun tag htag hedge => by
              have hin := (hindexed.mem_edges hrow tag).1 hedge
              simp [hin] at htag)
          rw [hadd]
          refine .retagged _ _ particleId _ _ (by simp [hrow])
            (.of_own (Store.rows_writeTags _ _ _) (fun tag => ?_) fun edge hid => ?_)
          · rw [hedges, List.mem_append, mem_map_edge]
            simp [hindexed.mem_edges hrow]
          · rw [hedges, List.mem_append, mem_map_edge]
            simp [hid]

theorem TagSession.outcome_removeParticleTags (tags : List String) (actor : String)
    (hindexed : TagsIndexed session.store) :
    TagOutcome session (session.removeParticleTags particleId tags actor) := by
  rw [removeParticleTags]
  cases hrow : session.store.get? particleId with
  | none => exact .raised _ (by simp)
  | some row =>
      simp only
      split_ifs with hremove
      · exact .same []
      · refine .retagged _ _ particleId _ _ (by simp [hrow])
          (.of_own (Store.rows_writeTags _ _ _) (fun tag => ?_) fun edge hid => ?_)
        · simp [hindexed.mem_edges hrow]
        · simp [hid]

/-- The edges of a particle that is not there yet are new. -/
theorem insertAll_tagEdgesOf {store : Store} (hindexed : TagsIndexed store) {p : Particle}
    (hnone : store.get? p.id = none) :
    ∃ tagEdges, insertAll store.tagEdges (tagEdgesOf p) = .ok tagEdges := by
  obtain ⟨tagEdges, hadd, -⟩ := TagSession.addEdges_eq_ok { store := store } p.id
    (nodup_firstByKey_id p.tags) (fun tag _ hedge => by
      obtain ⟨row, hrow, -⟩ := (hindexed ⟨p.id, tag⟩).1 hedge
      rw [hnone] at hrow
      cases hrow)
  rw [TagSession.addEdges] at hadd
  cases hinsert : insertAll store.tagEdges (tagEdgesOf p) with
  | ok tagEdges => exact ⟨tagEdges, rfl⟩
  | error error =>
      have hsame : tagEdgesOf p = (firstByKey id [] p.tags).map fun tag => ⟨p.id, tag⟩ := rfl
      rw [hsame] at hinsert
      simp [hinsert] at hadd

/-- An insert that succeeds adds the edges of its tags. -/
theorem tagsIndexed_insertParticle {contentHash : String → String} {modelId : String}
    {store after : Store} {p : Particle} {embedding : Option EmbeddingJson}
    (hindexed : TagsIndexed store)
    (h : insertParticle contentHash modelId store p embedding = .ok after) : TagsIndexed after := by
  obtain ⟨hnone, -, row, hmodel, -, -, -, hget⟩ := get?_insertParticle h
  have hedges : after.tagEdges.rows = store.tagEdges.rows ++ tagEdgesOf p := by
    simp only [insertParticle, bind_eq_ok] at h
    obtain ⟨-, -, particles, -, edges, -, links, -, tagEdges, hadd, hafter⟩ := h
    obtain rfl := Except.ok.inj hafter
    exact (insertAll_eq_ok.1 hadd).2
  rintro ⟨id, tag⟩
  rw [hedges, hget, List.mem_append, hindexed]
  by_cases hid : p.id = id
  · subst hid
    simp [hnone, tagEdgesOf, hmodel, mem_firstByKey_id]
  · simp [hid, tagEdgesOf]

section Runs

variable {session} {contentHash : String → String} {modelId : String} {RESERVED_TAGS : List String}

/-- What every call comes to, where the edges are those of the stored tags. -/
theorem TagCall.run_outcome (call : TagCall) (hindexed : TagsIndexed session.store) :
    TagsIndexed (call.run contentHash modelId RESERVED_TAGS session).1.store ∧
      ∀ error, (call.run contentHash modelId RESERVED_TAGS session).2 = .error error →
        (call.run contentHash modelId RESERVED_TAGS session).1 = session ∧ error ≠ .edgeTwice := by
  have hverb : ∀ {α : Type} {result : TagSession × Except TagError α}, TagOutcome session result →
      TagsIndexed result.1.store ∧
        ∀ error, result.2 = .error error → result.1 = session ∧ error ≠ .edgeTwice := by
    rintro α result (⟨error, hedge⟩ | ⟨value⟩ | ⟨after, events, id, tags, value, hexists, hafter⟩)
    · exact ⟨hindexed, fun error' h => ⟨rfl, Except.error.inj h ▸ hedge⟩⟩
    · exact ⟨hindexed, fun error' h => by cases h⟩
    · exact ⟨hafter.indexed hexists hindexed, fun error' h => by cases h⟩
  cases call with
  | insertParticle particle embedding =>
      rw [run]
      cases hinsert : ParticlesEngine.insertParticle contentHash modelId session.store particle
          embedding with
      | ok after => exact ⟨tagsIndexed_insertParticle hindexed hinsert, fun error h => by cases h⟩
      | error error => exact ⟨hindexed, fun error' h => ⟨rfl, by cases h; simp⟩⟩
  | setParticleTags particleId tags =>
      obtain ⟨hafter, hraise⟩ := hverb (session.outcome_setParticleTags particleId tags)
      refine ⟨hafter, fun error h => hraise error ?_⟩
      rw [run] at h
      cases hresult : (session.setParticleTags particleId tags).2 with
      | ok value => simp [hresult, Except.map] at h
      | error error' => simpa [hresult, Except.map] using h
  | addParticleTags particleId newTags actor =>
      exact hverb (session.outcome_addParticleTags particleId RESERVED_TAGS newTags actor hindexed)
  | removeParticleTags particleId tags actor =>
      exact hverb (session.outcome_removeParticleTags particleId tags actor hindexed)

/-- The store with no particle has no edge. -/
theorem tagsIndexed_empty : TagsIndexed Store.empty := by
  refine fun edge => iff_of_false (by simp [Store.empty]) ?_
  rintro ⟨row, hrow, -⟩
  cases hrow

/-- Every sequence of calls keeps the edges and the stored tags in step. -/
theorem indexed_runAll (calls : List TagCall) (hindexed : TagsIndexed session.store) :
    TagsIndexed (session.runAll contentHash modelId RESERVED_TAGS calls).store := by
  induction calls generalizing session with
  | nil => exact hindexed
  | cons call calls ih => exact ih (call.run_outcome hindexed).1

end Runs

/-- **Tag edges equal the stored tags** in every store that inserts and tag verbs reach, no edge is
inserted twice, and a call that raises changes nothing. -/
theorem tagsIndexed_runAll (contentHash : String → String) (modelId : String)
    (RESERVED_TAGS : List String) (calls : List TagCall) :
    let session := TagSession.runAll contentHash modelId RESERVED_TAGS {} calls
    (∀ particleId tag,
      (⟨particleId, tag⟩ : ParticleTagEdgeRow) ∈ session.store.tagEdges.rows ↔
        ∃ row, session.store.get? particleId = some row ∧ tag ∈ row.model.tags) ∧
      (∀ p : Particle, session.store.get? p.id = none →
        ∃ tagEdges, insertAll session.store.tagEdges (tagEdgesOf p) = .ok tagEdges) ∧
      ∀ (call : TagCall) (error : TagError),
        (call.run contentHash modelId RESERVED_TAGS session).2 = .error error →
          (call.run contentHash modelId RESERVED_TAGS session).1 = session ∧
            error ≠ .edgeTwice := by
  intro session
  have hindexed : TagsIndexed session.store := indexed_runAll calls tagsIndexed_empty
  exact ⟨fun particleId tag => hindexed ⟨particleId, tag⟩, fun p => insertAll_tagEdgesOf hindexed,
    fun call => (call.run_outcome hindexed).2⟩

end ParticlesEngine
