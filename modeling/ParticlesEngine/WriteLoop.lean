/-
**The write loop of an extraction pass.**

An extraction pass gathers without the writer lock: it reads the store, asks its models, and builds
the duplicate and retired-value indexes of its candidates.  Then it takes the lock, looks at what
changed since, and writes its candidates one by one; each turn routes one candidate and acts on the
route.  Other writers commit whenever the store lets them.

Main definitions:

* `Turn` — what the gather says of one candidate;
* `WritePass`, `WriteState` — what a pass is fixed to, and what its loop carries along;
* `routeTurn`, `foundLate` — the routing of one turn;
* `turn` — one turn of the loop;
* `WriteAction`, `step` — another writer's commit, the lock, and a turn.

Main results:

* `get?_applyUpdateExtras`, `get?_foldRestatement` — what the pass's own writes leave.
-/

import ParticlesEngine.ConflictPlan
import ParticlesEngine.SearchUnderLock

set_option relaxedAutoImplicit false
set_option autoImplicit false

open Runs

namespace ParticlesEngine

/-- What the gather says of one candidate, and what the models answered. -/
structure Turn where
  particle : Particle
  /-- `candidate_to_particle` makes ACTIVE particles -/
  active : particle.status = .ACTIVE
  embedding : Option Embedding := none
  /-- the pair the ladder runs on, and further confirmed pairs of the same subject -/
  primary : Option Particle := none
  extras : List Particle := []
  /-- the earlier claim that the candidate restates -/
  carried : Option Particle := none
  /-- what the ladder decides, should it run -/
  outcome : LadderOutcome := ⟨some .CORROBORATES, false⟩
  /-- the primary pair is a revision pair -/
  revision : Bool := false
  /-- rung 2.5 on an extra: `none` unless it qualifies, positive if the winner is newer -/
  extraOrder : Particle → Option ℤ := fun _ => none
  /-- the id drawn for a record -/
  recordId : String := ""
  /-- the JSON text of the `restated_as` annotation -/
  restatedAs : String := ""
  now : Instant := 0

/-- What a pass is fixed to. -/
structure WritePass where
  env : IngestEnv
  table : TransitionTable := .documented
  records : RecordBuilder := .documented
  /-- the particles a reindex is about to retire -/
  supersedeIds : List String := []
  /-- the corpus entry and the snapshot -/
  trigger : TriggerRef
  watermark : ConflictWatermark := none
  /-- the existing claims the pass would act on -/
  actedOn : List String := []
  /-- the claims the gather loaded -/
  seenIds : List String := []
  speaker : Option SpeakerKey := none

/-- What the loop carries along. -/
structure WriteState where
  db : Database
  dupIndex : DuplicateIndex := {}
  retiredIndex : DuplicateIndex := {}
  /-- retired earlier in this pass -/
  retired : List String := []
  /-- acted on by the pass, and no longer ACTIVE when it took the lock -/
  lapsedIds : List String := []
  /-- ACTIVE since the gather -/
  freshPairs : List EmbeddingPair := []
  locked : Bool := false

/-- The state with another store. -/
def WriteState.setStore (st : WriteState) (store : Store) : WriteState :=
  { st with db := { st.db with store := store } }

@[simp] theorem WriteState.store_setStore (st : WriteState) (store : Store) :
    (st.setStore store).db.store = store := rfl

@[simp] theorem WriteState.dupIndex_setStore (st : WriteState) (store : Store) :
    (st.setStore store).dupIndex = st.dupIndex := rfl

/-- The row with a property set. -/
def ParticleRow.withProperty (row : ParticleRow) (key value : String) : ParticleRow :=
  { row with model := { row.model with
      properties := setProperty row.model.properties key value } }

theorem ParticleRow.id_withProperty (key value : String) (row : ParticleRow) :
    (row.withProperty key value).id = row.id := rfl

theorem ParticleRow.rowid_withProperty (key value : String) (row : ParticleRow) :
    (row.withProperty key value).rowid = row.rowid := rfl

namespace WritePass

variable (pass : WritePass)

/-- The indexes of a pass, built from the store before the lock. -/
def begin (db : Database) (turns : List Turn) : WriteState :=
  let contents := turns.map fun t => t.particle.content
  { db := db
    dupIndex :=
      if pass.env.cfg.duplicateSuppression then
        buildDuplicateIndex pass.env.core db.store contents pass.supersedeIds
      else {}
    retiredIndex :=
      if pass.env.cfg.retiredValueQuarantine then
        buildRetiredValueIndex pass.env.core db.store contents pass.supersedeIds
      else {} }

/-- The look at the store once the lock is held. -/
def lock (st : WriteState) : WriteState :=
  let found := searchStoreUnderLock pass.env st.db pass.watermark pass.actedOn
  let underLock :=
    match found with
    | some found => found.1
    | none => loadActiveConflictCandidates pass.env st.db.store
  let isNew (id : String) : Bool :=
    match found with
    | some found => id ∈ found.2 ∧ id ∉ pass.seenIds
    | none => id ∉ pass.seenIds
  { st with
    lapsedIds := pass.actedOn.filter fun id => id ∉ underLock.map fun pair => pair.1.id
    freshPairs := underLock.filter fun pair =>
      isNew pair.1.id ∧ pair.1.id ∉ pass.supersedeIds
    locked := true }

/-! ### One turn -/

/-- `route_particle` on the loop's indexes. -/
def routeTurn (st : WriteState) (t : Turn) : Route × Option Particle :=
  routeParticle pass.env.core t.particle st.dupIndex st.retiredIndex t.primary
    (st.retired ++ st.lapsedIds)

/-- A claim committed since the gather, found only under the lock. -/
def foundLate (st : WriteState) (t : Turn) : Option Particle :=
  let route := (pass.routeTurn st t).1
  if (route = .INSERT ∨ route = .LADDER) ∧ st.freshPairs ≠ [] ∧
      pass.env.core.holderFromProperties t.particle.properties = none then
    match t.embedding with
    | none => none
    | some emb =>
        (nearestConflict pass.env pass.speaker t.particle (some emb) st.freshPairs st.retired).1
  else none

/-- The route that the turn acts on. -/
def routeUnderLock (st : WriteState) (t : Turn) : Route × Option Particle :=
  match pass.foundLate st t with
  | some late => (.LADDER, some late)
  | none => pass.routeTurn st t

/-- `insert_particle` of the pass, after its transition check. -/
def insert (st : WriteState) (p : Particle) (embedding : Option Embedding) :
    Except StoreError Store :=
  insertValidated pass.env.core.contentHash pass.env.currentId pass.table st.db.store p embedding

/-- `settle_by_generation`: rung 3 does not apply to a revision pair. -/
def settleByGeneration (outcome : LadderOutcome) : LadderOutcome :=
  if outcome.verdict = some .INCONSISTENT then ⟨some .CORROBORATES, false⟩ else outcome

/-- The plan of the ladder for one pair. -/
def ladderPlan (st : WriteState) (t : Turn) (target : Particle) : ConflictWritePlan :=
  let outcome :=
    if t.revision ∧ pass.foundLate st t = none then settleByGeneration t.outcome else t.outcome
  planConflictWrites pass.records t.recordId outcome t.particle target pass.trigger

/-- `plan_update_extras`: `(loser, winner)` for each extra that qualifies, until the winner loses. -/
def planUpdateExtras (order : Particle → Option ℤ) (winner : Particle) :
    List Particle → List (String × String)
  | [] => []
  | other :: others =>
      match order other with
      | none => planUpdateExtras order winner others
      | some direction =>
          if 0 < direction then (other.id, winner.id) :: planUpdateExtras order winner others
          else [(winner.id, other.id)]

/-- The extras that a turn of the ladder settles, given the ids retired so far. -/
def ladderExtras (st : WriteState) (t : Turn) (plan : ConflictWritePlan)
    (retired : List String) : List (String × String) :=
  match plan.result with
  | none => []
  | some resolved =>
      if pass.foundLate st t = none ∧ resolved.id = t.particle.id ∧ resolved.status = .ACTIVE then
        planUpdateExtras t.extraOrder resolved
          (t.extras.filter fun p => p.id ∉ retired ∧ p.id ∉ st.lapsedIds)
      else []

/-- `_apply_update_extras`: each loser is retired by update. -/
def applyUpdateExtras (now : Instant) (store : Store) (pairs : List (String × String)) :
    Except StoreError Store :=
  pairs.foldlM (fun store pair => updateParticleStatus pass.table now store pair.1
    .PROVENANCE_STALE (some .SUPERSEDED_BY_UPDATE)) store

/-- `_fold_restatement`: the candidate's references go to the earlier claim, and a reworded one leaves
its wording there. -/
def foldRestatement (store : Store) (t : Turn) (earlier : Particle) : Store :=
  let store := appendProvenanceRefs store earlier.id t.particle.provenance
  if pass.env.core.normalizeContent t.particle.content ≠
      pass.env.core.normalizeContent earlier.content then
    store.modifyParticle earlier.id (·.withProperty RESTATED_AS_KEY t.restatedAs)
      (ParticleRow.id_withProperty RESTATED_AS_KEY t.restatedAs)
      (ParticleRow.rowid_withProperty RESTATED_AS_KEY t.restatedAs)
  else store

/-- The ladder's branch of a turn. -/
def turnLadder (st : WriteState) (t : Turn) (target : Particle) :
    Except StoreError WriteState := do
  let plan := pass.ladderPlan st t target
  let store ← applyConflictPlan pass.env.core.contentHash pass.env.currentId pass.table t.now
    st.db.store plan target t.embedding
  let retired := if plan.cacheDropExisting then st.retired ++ [target.id] else st.retired
  let extras := pass.ladderExtras st t plan retired
  let store ← pass.applyUpdateExtras t.now store extras
  -- without the update rung there is no set that outlives the turn
  let retired := if pass.env.cfg.updateSupersession then retired ++ extras.map Prod.fst else []
  return { st.setStore store with
    dupIndex := st.dupIndex.addAll pass.env.core plan.result, retired := retired }

/-- The branch of a turn that no earlier claim carries. -/
def turnRouted (st : WriteState) (t : Turn) : Except StoreError WriteState :=
  match pass.routeUnderLock st t with
  | (.SUPPRESS, some target) =>
      .ok (st.setStore (appendProvenanceRefs st.db.store target.id t.particle.provenance))
  | (.RETIRED_TWIN, some twin) => do
      let held ← holdRetiredReassertion pass.env.core.contentHash pass.env.currentId pass.table
        pass.records t.recordId t.now st.db.store t.particle t.embedding twin pass.trigger
      return st.setStore held.1
  | (.LADDER, some target) => pass.turnLadder st t target
  | (.INSERT, _) => do
      let store ← pass.insert st t.particle t.embedding
      return { st.setStore store with dupIndex := st.dupIndex.add pass.env.core t.particle }
  | (.UNCHECKED, _) => do
      -- off the conflict surface: stored, and registered nowhere
      let store ← pass.insert st t.particle t.embedding
      return st.setStore store
  | (_, none) => .error .assertion

/-- The earlier claim that a turn folds its candidate into: an exact twin is left to suppression. -/
def carriedInto (st : WriteState) (t : Turn) : Option Particle :=
  if (pass.routeTurn st t).1 = .SUPPRESS then none else t.carried

/-- **One turn of the write loop.** -/
def turn (st : WriteState) (t : Turn) : Except StoreError WriteState :=
  match pass.carriedInto st t with
  | some earlier => .ok (st.setStore (pass.foldRestatement st.db.store t earlier))
  | none => pass.turnRouted st t

/-! ### Runs -/

/-- What happens next: another writer commits, the pass takes the lock, or a candidate's turn. -/
inductive WriteAction where
  | other (c : Database.Commit)
  | lock
  | turn (t : Turn)

/-- **One step**; `none` when a constraint refuses it, or the turn raises. -/
def step (st : WriteState) : WriteAction → Option WriteState
  | .other c => (st.db.commit c).map fun db => { st with db := db }
  | .lock => if st.locked then none else some (pass.lock st)
  | .turn t => if st.locked then (pass.turn st t).toOption else none

/-- The turns of a list of actions. -/
def turnsOf (actions : List WriteAction) : List Turn :=
  actions.filterMap fun action =>
    match action with
    | .turn t => some t
    | _ => none

end WritePass

/-! ### What the pass's own writes leave -/

section Specs

variable {pass : WritePass} {store store' : Store}

/-- A retirement by update of each loser, and nothing else. -/
theorem get?_applyUpdateExtras {now : Instant} {pairs : List (String × String)} :
    ∀ {store : Store}, pass.applyUpdateExtras now store pairs = .ok store' →
      (∀ id, id ∉ pairs.map Prod.fst → store'.get? id = store.get? id) ∧
      ∀ id ∈ pairs.map Prod.fst, ∀ row, store'.get? id = some row → row.model.status ≠ .ACTIVE := by
  induction pairs with
  | nil =>
      intro store h
      obtain rfl := Except.ok.inj h
      exact ⟨fun _ _ => rfl, by simp⟩
  | cons pair pairs ih =>
      intro store h
      simp only [WritePass.applyUpdateExtras, List.foldlM_cons, bind_eq_ok] at h
      obtain ⟨s, hfirst, hrest⟩ := h
      obtain ⟨row, -, -, hget⟩ := get?_updateParticleStatus hfirst
      obtain ⟨hsame, hgone⟩ := ih hrest
      refine ⟨fun id hid => ?_, fun id hid row' hrow' => ?_⟩
      · rw [List.map_cons, List.mem_cons, not_or] at hid
        rw [hsame id hid.2, hget, if_neg (Ne.symm hid.1)]
      · by_cases hlater : id ∈ pairs.map Prod.fst
        · exact hgone id hlater row' hrow'
        · -- the first loser, which no later pair touches
          have hfst : id = pair.1 := by
            rw [List.map_cons, List.mem_cons] at hid
            exact hid.resolve_right hlater
          rw [hsame id hlater, hget, if_pos hfst.symm] at hrow'
          obtain rfl := Option.some.inj hrow'
          simp [ParticleRow.withStatus]

/-- A fold touches the earlier claim alone. -/
theorem get?_foldRestatement (store : Store) (t : Turn) (earlier : Particle) (id : String) :
    (pass.foldRestatement store t earlier).get? id =
      if earlier.id = id then (store.get? id).map fun row =>
        let row := t.particle.provenance.foldl ParticleRow.noteRef row
        if pass.env.core.normalizeContent t.particle.content ≠
            pass.env.core.normalizeContent earlier.content then
          row.withProperty RESTATED_AS_KEY t.restatedAs
        else row
      else store.get? id := by
  unfold WritePass.foldRestatement
  by_cases hreworded : pass.env.core.normalizeContent t.particle.content ≠
      pass.env.core.normalizeContent earlier.content
  · simp only [if_pos hreworded]
    rw [Store.get?_modifyParticle, get?_appendProvenanceRefs]
    split_ifs
    · rw [Option.map_map]
      rfl
    · rfl
  · simp only [if_neg hreworded]
    rw [get?_appendProvenanceRefs]

end Specs

end ParticlesEngine
