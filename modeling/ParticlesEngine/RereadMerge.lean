/-
**Merging two readings of one passage.**

A source that only grows is read again and again, and its passages are claimed in other words each
time.  The finder's pairs of such claims are joined into components, whose first reading survives, and
each other member merges into it when the recorded readings say that the two are the same.  A run asks
no model and writes what an exact-duplicate merge writes, under a tag of its own.

Main definitions:

* `ClaimFacts`, `inPopulation` — what is read of a claim, and the pairs that are two readings;
* `planQuestions` — the components, their survivors and the questions;
* `decideMerge` — the rule over the recorded readings;
* `applyReread` — a run over the store.

Main results:

* `active_of_mem_rereadItems` — what a run may merge is ACTIVE.
-/

import Mathlib.Order.WithBot
import ParticlesEngine.DuplicateMerge
import ParticlesEngine.ReconcileSweeps

set_option relaxedAutoImplicit false
set_option autoImplicit false

open SortBy FirstByKey

namespace ParticlesEngine

/-! ### The facts of a claim -/

/-- What the pair gates and the election read about one ACTIVE claim. -/
structure ClaimFacts where
  id : String
  content : String
  /-- the entries named by its SOURCE refs -/
  entryIds : List String
  snapshotIds : List String
  /-- the capture time of the earliest snapshot it cites -/
  firstRead : Option Instant
  assertedAt : Instant
  subjectIds : List String
  holder : Option String
  /-- every provenance ref is a SOURCE ref naming a snapshot that is there -/
  sourcesOnly : Bool
  deriving DecidableEq, Repr

/-- The snapshot that a reference names; the empty string names none. -/
def ProvenanceRef.namedSnapshot (ref : ProvenanceRef) : Option String :=
  ref.snapshotId.filter fun s => s ≠ ""

/-- `_facts`. -/
def claimFacts (core : CorePackage) (store : Store) (p : Particle) : ClaimFacts :=
  let sources := p.provenance.filter fun ref => ref.type = .SOURCE
  let snapshots := firstByKey id [] (sources.filterMap ProvenanceRef.namedSnapshot)
  let times := snapshots.filterMap fun s => (store.snapshots.get? s).map SnapshotRow.capturedAt
  { id := p.id
    content := p.content
    entryIds := firstByKey id [] (sources.map ProvenanceRef.corpusEntryId)
    snapshotIds := snapshots
    firstRead := times.min?
    assertedAt := p.assertedAt
    subjectIds := p.subjectIds
    holder := core.stanceHolder p
    sourcesOnly := p.provenance ≠ [] && sources.length = p.provenance.length &&
      sources.all (fun ref => ref.namedSnapshot.isSome) && times.length = snapshots.length }

/-- `in_population`: two readings of one append-only passage. -/
def inPopulation (core : CorePackage) (appendOnly : String → Bool) (a b : ClaimFacts) : Bool :=
  a.sourcesOnly && b.sourcesOnly &&
    match firstByKey id [] (a.entryIds ++ b.entryIds) with
    | [entry] => appendOnly entry && a.snapshotIds.all (fun s => s ∉ b.snapshotIds) &&
        a.holder = b.holder && core.contentHash a.content ≠ core.contentHash b.content
    | _ => false

/-- `_election_key`: the first reading, by the earliest snapshot, then the earliest assertion, then the
id. -/
def readingKey (facts : ClaimFacts) : WithBot Instant ×ₗ Instant ×ₗ String :=
  toLex (facts.firstRead.elim ⊥ WithBot.some, toLex (facts.assertedAt, facts.id))

/-! ### The plan -/

/-- The admission stratum of a pair. -/
inductive Stratum where
  | high
  | low
  deriving DecidableEq, Repr

def HIGH_STRATUM_FLOOR : ℚ := 97 / 100

/-- `stratum_of`. -/
def stratumOf (cosine : Option ℚ) : Stratum :=
  if cosine.any fun c => HIGH_STRATUM_FLOOR ≤ c then .high else .low

/-- Why a component member is not asked. -/
inductive AskSkip where
  | SHARED_SNAPSHOT
  | EXTRA_SUBJECT
  deriving DecidableEq, Repr

/-- One (survivor, copy) pair put to the readings. -/
structure Question where
  survivorId : String
  copyId : String
  entryId : String
  cosine : Option ℚ
  stratum : Stratum
  deriving DecidableEq, Repr

/-- The questions a run asks, and what it leaves alone. -/
structure RereadPlan where
  pairs : List (String × String)
  components : ℕ
  questions : List Question
  skipped : List AskSkip
  deriving DecidableEq, Repr

section Plan

variable (pairs : List (String × String)) (facts : String → Option ClaimFacts)
  (cosine : String → String → Option ℚ)

/-- The ids that the pairs name, sorted. -/
def pairedIds : List String := sortBy id (firstByKey id [] (pairs.flatMap fun pair => [pair.1, pair.2]))

/-- The ids paired with an id. -/
def partners (id : String) : Finset String :=
  ((pairs.filter fun pair => pair.1 = id).map Prod.snd ++
    (pairs.filter fun pair => pair.2 = id).map Prod.fst).toFinset

/-- The claims of each component, the first reading first. -/
def readingComponents : List (List ClaimFacts) :=
  (Closure.components (partners pairs) (pairedIds pairs).toFinset (pairedIds pairs)).map fun ids =>
    sortBy readingKey (((pairedIds pairs).filter fun id => id ∈ ids).filterMap facts)

/-- A member is asked against the survivor, unless the two share a snapshot or it is about a subject
that the survivor lacks. -/
def askMember (survivor member : ClaimFacts) : Except AskSkip Question :=
  if member.snapshotIds.any fun s => s ∈ survivor.snapshotIds then .error .SHARED_SNAPSHOT
  else if member.subjectIds.any fun s => s ∉ survivor.subjectIds then .error .EXTRA_SUBJECT
  else
    let sim := cosine survivor.id member.id
    -- every claim of the population names one entry
    .ok ⟨survivor.id, member.id, survivor.entryIds.headD "", sim, stratumOf sim⟩

/-- What becomes of each member but the survivor. -/
def askComponent : List ClaimFacts → List (Except AskSkip Question)
  | [] => []
  | survivor :: rest => rest.map (askMember cosine survivor)

/-- **`plan_questions`.** -/
def planQuestions : RereadPlan :=
  let asked := (readingComponents pairs facts).flatMap (askComponent cosine)
  { pairs := pairs
    components := (readingComponents pairs facts).length
    questions := asked.filterMap Except.toOption
    skipped := asked.filterMap fun ask => match ask with
      | .error skip => some skip
      | .ok _ => none }

end Plan

/-! ### The rule -/

/-- The update ladder's recorded reading of a pair. -/
structure UpdateRecord where
  /-- the settled verdict was CHANGES -/
  changes : Bool
  /-- the second reading settled it -/
  second : Bool
  deriving DecidableEq, Repr

def UpdateRecord.anyChanges (record : UpdateRecord) : Bool := record.changes || record.second

/-- Why a question does not merge. -/
inductive Block where
  | UNJUDGED
  | DIFFERENT
  | UPDATE_UNREAD
  | UPDATE_CHANGES
  | CONTRADICTION
  | RESTORED
  | NOT_ADMITTED
  deriving DecidableEq, Repr

/-- `links_suggest.reread.admitted` -/
inductive Admitted where
  | none
  | high
  | all
  deriving DecidableEq, Repr

/-- `stratum_admitted`. -/
def stratumAdmitted (stratum : Stratum) (admitted : Admitted) : Bool :=
  admitted = .all || (admitted = .high && stratum = .high)

/-- `decide_merge`: `none` when the copy merges into its survivor, else the first block. -/
def decideMerge (same : Option Bool) (update : Option UpdateRecord) (contradiction restored : Bool)
    (stratum : Stratum) (admitted : Admitted) : Option Block :=
  match same, update with
  | none, _ => some .UNJUDGED
  | some false, _ => some .DIFFERENT
  | some true, none => some .UPDATE_UNREAD
  | some true, some record =>
      if record.anyChanges then some .UPDATE_CHANGES
      else if contradiction then some .CONTRADICTION
      else if restored then some .RESTORED
      else if !stratumAdmitted stratum admitted then some .NOT_ADMITTED
      else none

/-! ### The run -/

/-- A pair of the similarity finder. -/
structure LinkCandidate where
  particleA : String
  particleB : String
  similarity : ℚ
  ne : particleA ≠ particleB

/-- What a re-read run reads of its process, and of the ledgers beside the tables. -/
structure RereadEnv where
  core : CorePackage
  table : TransitionTable
  /-- `links_suggest.auto_merge.enabled` -/
  enabled : Bool
  /-- `links_suggest.auto_merge.max_per_run` -/
  maxPerRun : ℕ
  admitted : Admitted
  /-- the finder's candidates, cluster after cluster -/
  candidates : Store → List LinkCandidate
  /-- `get_embeddings_by_ids`, of a row -/
  embeddingOf : ParticleRow → Option Embedding
  /-- the duplicate judge's recorded verdict on two contents -/
  judgedSame : String → String → Option Bool
  /-- the recorded update reading, the earlier content first -/
  updateRecord : String → String → Option UpdateRecord
  /-- a contradiction of two contents on record -/
  contradictionRecorded : String → String → Bool
  /-- the copies that an unmerge restored -/
  restored : List String

section Reread

variable (renv : RereadEnv) (store : Store)

/-- The facts of an ACTIVE claim. -/
def activeFacts (id : String) : Option ClaimFacts :=
  (store.get? id).bind fun row =>
    if row.model.status = .ACTIVE then some (claimFacts renv.core store row.model) else none

/-- Whether an entry's content only grows. -/
def isAppendOnly (entryId : String) : Bool :=
  (store.entries.get? entryId).any fun entry => entry.mutability = .APPEND_ONLY

/-- The finder's pairs that are two readings of one passage, in order. -/
def rereadPairs : List (String × String) :=
  let pairs := firstByKey id [] ((renv.candidates store).map fun c =>
    canonicalPair c.particleA c.particleB)
  (sortBy toLex pairs).filter fun pair =>
    match activeFacts renv store pair.1, activeFacts renv store pair.2 with
    | some a, some b => inPopulation renv.core (isAppendOnly store) a b
    | _, _ => false

/-- The similarity of two claims: the finder's, else of their vectors. -/
def rereadCosine (x y : String) : Option ℚ :=
  let known := ((renv.candidates store).filter fun c =>
    canonicalPair c.particleA c.particleB = canonicalPair x y).map LinkCandidate.similarity
  (if known = [] then none else some (known.foldl max 0)).or do
    let vx ← (store.get? x).bind renv.embeddingOf
    let vy ← (store.get? y).bind renv.embeddingOf
    return renv.core.cosineSimilarity vx vy

/-- `_gather`: the plan. -/
def rereadPlan : RereadPlan :=
  planQuestions (rereadPairs renv store) (activeFacts renv store) (rereadCosine renv store)

/-- One question and what the ledger holds for it. -/
structure RereadItem where
  survivorId : String
  copyId : String
  entryId : String
  cosine : Option ℚ
  stratum : Stratum
  verdict : Option Bool
  update : Option UpdateRecord
  block : Option Block
  deriving DecidableEq, Repr

/-- What the ledgers say of a question. -/
def assessQuestion (q : Question) : RereadItem :=
  let content (id : String) : String := ((store.get? id).map fun row => row.model.content).getD ""
  let same := renv.judgedSame (content q.survivorId) (content q.copyId)
  let update := renv.updateRecord (content q.survivorId) (content q.copyId)
  let contradiction := namesPair (openRecordPairs store) q.survivorId q.copyId ||
    renv.contradictionRecorded (content q.survivorId) (content q.copyId)
  { survivorId := q.survivorId
    copyId := q.copyId
    entryId := q.entryId
    cosine := q.cosine
    stratum := q.stratum
    verdict := same
    update := if same = some true then update else none
    block := decideMerge same update contradiction (q.copyId ∈ renv.restored) q.stratum
      renv.admitted }

/-- `_assess`: the items of the plan. -/
def rereadItems : List RereadItem := (rereadPlan renv store).questions.map (assessQuestion renv store)

/-- The survivors with something to merge, sorted. -/
def rereadSurvivors : List String :=
  sortBy id (firstByKey id []
    (((rereadItems renv store).filter fun item => item.block = none).map RereadItem.survivorId))

/-- The copies that merge into a survivor. -/
def rereadCopies (survivorId : String) : List String :=
  ((rereadItems renv store).filter fun item => item.block = none ∧ item.survivorId = survivorId).map
    RereadItem.copyId

/-- What a re-read run reports. -/
structure RereadReport where
  items : List RereadItem
  deferredGroups : ℕ := 0
  linksCreated : ℕ := 0
  mergedGroups : ℕ := 0
  mergedCopies : ℕ := 0
  deriving DecidableEq, Repr

/-- What a run leaves, reports and records. -/
structure RereadRun where
  store : Store
  report : RereadReport
  events : List DuplicatesMerged := []

/-- The `basis` of a re-read merge's event. -/
def BASIS : String := "reread_judged"

/-- The event of one group; the survivor is as it was gathered. -/
def rereadEvent (survivorId : String) (copyIds : List String) : DuplicatesMerged :=
  let survivor := (store.get? survivorId).map ParticleRow.toModel
  { survivor := survivorId
    superseded := copyIds
    contentHash := (survivor.map fun p => renv.core.contentHash p.content).getD ""
    subjectIds := (survivor.map Particle.subjectIds).getD []
    basis := some BASIS }

/-- One group of a run. -/
def rereadGroup (now : Instant) (run : RereadRun) (survivorId : String) :
    Except StoreError RereadRun := do
  let copyIds := rereadCopies renv store survivorId
  let (after, links) ← mergeCopies renv.table now .REREAD_DUPLICATE run.store survivorId copyIds
  return {
    store := after
    report :=
      { run.report with
        linksCreated := run.report.linksCreated + links
        mergedGroups := run.report.mergedGroups + 1
        mergedCopies := run.report.mergedCopies + copyIds.length }
    events := run.events ++ [rereadEvent renv store survivorId copyIds] }

/-- The survivors that a run merges into. -/
def mergingSurvivors : List String := (rereadSurvivors renv store).take renv.maxPerRun

/-- **`apply_reread`.** -/
def applyReread (now : Instant) : Except StoreError RereadRun := do
  require renv.enabled .autoMergeDisabled
  require (renv.admitted ≠ .none) .rereadNotAdmitted
  (mergingSurvivors renv store).foldlM (rereadGroup renv store now)
    { store := store
      report :=
        { items := rereadItems renv store
          deferredGroups := (rereadSurvivors renv store).length - renv.maxPerRun } }

end Reread

/-! ### What a run may merge -/

section Laws

variable {renv : RereadEnv} {store : Store}

theorem activeFacts_eq_some {id : String} {facts : ClaimFacts} :
    activeFacts renv store id = some facts ↔
      ∃ row, store.get? id = some row ∧ row.model.status = .ACTIVE ∧
        claimFacts renv.core store row.model = facts := by
  simp only [activeFacts, Option.bind_eq_some_iff]
  constructor
  · rintro ⟨row, hrow, h⟩
    split_ifs at h with hactive
    exact ⟨row, hrow, hactive, Option.some.inj h⟩
  · rintro ⟨row, hrow, hactive, rfl⟩
    exact ⟨row, hrow, if_pos hactive⟩

/-- The facts of a claim name the claim they were read from. -/
theorem active_of_facts {id : String} {facts : ClaimFacts}
    (h : activeFacts renv store id = some facts) :
    ∃ row, store.get? facts.id = some row ∧ row.model.status = .ACTIVE := by
  obtain ⟨row, hrow, hactive, rfl⟩ := activeFacts_eq_some.1 h
  refine ⟨row, ?_, hactive⟩
  rw [← hrow]
  exact congrArg store.get? (ParticleTable.id_of_get? hrow)

/-- A component holds facts that were read. -/
theorem facts_of_mem_component {pairs : List (String × String)} {facts : String → Option ClaimFacts}
    {component : List ClaimFacts} (h : component ∈ readingComponents pairs facts) {claim : ClaimFacts}
    (hclaim : claim ∈ component) : ∃ id, facts id = some claim := by
  simp only [readingComponents, List.mem_map] at h
  obtain ⟨ids, -, rfl⟩ := h
  obtain ⟨id, -, hid⟩ := List.mem_filterMap.1 (mem_sortBy.1 hclaim)
  exact ⟨id, hid⟩

/-- A question is about two claims of one component. -/
theorem claims_of_mem_questions {pairs : List (String × String)}
    {facts : String → Option ClaimFacts} {cosine : String → String → Option ℚ} {q : Question}
    (h : q ∈ (planQuestions pairs facts cosine).questions) :
    ∃ survivor member : ClaimFacts, q.survivorId = survivor.id ∧ q.copyId = member.id ∧
      (∃ id, facts id = some survivor) ∧ ∃ id, facts id = some member := by
  simp only [planQuestions, List.mem_filterMap, List.mem_flatMap] at h
  obtain ⟨ask, ⟨component, hcomponent, hask⟩, hq⟩ := h
  cases component with
  | nil => cases hask
  | cons survivor rest =>
      obtain ⟨member, hmember, rfl⟩ := List.mem_map.1 hask
      have hq' := toOption_eq_some.1 hq
      unfold askMember at hq'
      split_ifs at hq'
      obtain rfl := Except.ok.inj hq'
      exact ⟨survivor, member, rfl, rfl, facts_of_mem_component hcomponent List.mem_cons_self,
        facts_of_mem_component hcomponent (List.mem_cons_of_mem _ hmember)⟩

/-- The claims of an item are ACTIVE. -/
theorem active_of_mem_rereadItems {item : RereadItem} (h : item ∈ rereadItems renv store) :
    (∃ row, store.get? item.survivorId = some row ∧ row.model.status = .ACTIVE) ∧
      ∃ row, store.get? item.copyId = some row ∧ row.model.status = .ACTIVE := by
  obtain ⟨q, hq, rfl⟩ := List.mem_map.1 h
  obtain ⟨survivor, member, hsurvivor, hmember, ⟨_, hs⟩, _, hm⟩ := claims_of_mem_questions hq
  constructor
  · rw [show (assessQuestion renv store q).survivorId = survivor.id from hsurvivor]
    exact active_of_facts hs
  · rw [show (assessQuestion renv store q).copyId = member.id from hmember]
    exact active_of_facts hm

end Laws

end ParticlesEngine
