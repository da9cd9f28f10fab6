/-
**The bounded search under the writer lock.**

A belief writer searches the whole store for a conflict before it takes the writer lock (the
gather), and once more under the lock (the apply).  The second search reads only the claims of the
first one's neighbourhood and those that the change journal names since its watermark.  The gather
holds no transaction, so each of its reads sees what is committed at that moment.

Main definitions:

* `readConflictWatermark`, `searchStoreUnderLock` — the marker, and the bounded read;
* `GatherReads` — the states a gather reads at;
* `gatherReconcile`, `applyConflict` — the search of a new claim, before and under the lock;
* `gatherHeldSearch`, `conflictUnderLock` — the search of a held claim.

Main results:

* `searchStoreUnderLock_near` — the bounded read holds every near claim of the store, in its order;
* `searchUnderLock_finds_full` — **the bounded search finds what the full search would find**.
-/

import ParticlesEngine.CandidateCache
import ParticlesEngine.ConflictSearch

set_option relaxedAutoImplicit false
set_option autoImplicit false

open ChangeLog Runs SortBy

namespace ParticlesEngine

/-- The store's change marker a gather searched at, or `none` where the store keeps no journal. -/
abbrev ConflictWatermark := Option (ℕ × Token)

section Search

variable (env : IngestEnv)

/-- `load_active_conflict_candidates`: every ACTIVE particle with an embedding that takes part in
conflict resolution. -/
def loadActiveConflictCandidates (store : Store) : List EmbeddingPair :=
  (getActiveParticlesWithEmbeddings env.float32 env.currentId store 0 none).filter fun pair =>
    !env.core.skipsConflictResolution pair.1.properties

/-- `read_conflict_watermark`. -/
def readConflictWatermark (journalInstalled : Bool) (db : Database) : ConflictWatermark :=
  if journalInstalled then readHead db.journal else none

/-- **`search_store_under_lock`**: the candidates, and the ids changed since the watermark; `none`
when the journal cannot say what changed. -/
def searchStoreUnderLock (db : Database) (watermark : ConflictWatermark) (ids : List String) :
    Option (List EmbeddingPair × List String) :=
  match watermark with
  | none => none
  | some (seq, token) =>
      if tokenAt db.journal seq ≠ some token then none
      else
        match changedSince db.journal seq JOURNAL_RETENTION with
        | none => none
        | some changed =>
            let pairs := getActiveParticlesWithEmbeddingsByIds env.float32 env.currentId db.store
              (changed ++ ids)
            some (pairs.filter fun pair => !env.core.skipsConflictResolution pair.1.properties,
              changed)

/-- The pairs that a search under the lock is given: the bounded read, or the whole set. -/
def pairsUnderLock (db : Database) (watermark : ConflictWatermark) (ids : List String) :
    List EmbeddingPair :=
  match searchStoreUnderLock env db watermark ids with
  | some found => found.1
  | none => loadActiveConflictCandidates env db.store

/-- The states at which a gather reads, in turn. -/
structure GatherReads where
  /-- the duplicate indexes and the stored embedding -/
  routed : Store
  journalInstalled : Bool
  /-- the watermark -/
  marked : Database
  /-- the candidates -/
  loaded : Database
  speaker : Option SpeakerKey

/-! ### A new claim -/

/-- What the gather hands to the apply, except for the model's answers on the pair. -/
structure ReconcileGather where
  embedding : Option Embedding
  searched : Bool
  conflict : Option Particle := none
  excludeIds : List String := []
  watermark : ConflictWatermark := none
  neighbourhood : List String := []
  deriving DecidableEq

/-- **`gather_reconcile`** without a candidate cache.  There is no subject pool and no precondition
on this path, so the pair that `select_pairs` makes primary is the nearest claim. -/
def gatherReconcile (reads : GatherReads) (particle : Particle) (emb : Option Embedding)
    (excludeIds : List String) : ReconcileGather :=
  if (routeCheapRungs env.core env.cfg reads.routed particle excludeIds).1 ≠ .INSERT then
    { embedding := emb, searched := false, excludeIds := excludeIds }
  else
    let nearest := nearestConflict env reads.speaker particle emb
      (loadActiveConflictCandidates env reads.loaded.store) excludeIds
    { embedding := emb
      searched := true
      conflict := nearest.1
      excludeIds := excludeIds
      watermark := readConflictWatermark reads.journalInstalled reads.marked
      neighbourhood := nearest.2 }

/-- The conflict that `apply_reconcile` finds under the lock, once no cheap rung routes. -/
def applyConflict (db : Database) (speaker : Option SpeakerKey) (particle : Particle)
    (gathered : ReconcileGather) : Option Particle :=
  let gatheredIds := gathered.neighbourhood ++ (gathered.conflict.map Particle.id).toList
  (nearestConflict env speaker particle gathered.embedding
    (pairsUnderLock env db gathered.watermark gatheredIds) gathered.excludeIds).1

/-! ### A held claim -/

/-- What a writer read, before the lock, about a held claim it may return to the store. -/
structure HeldSearch where
  embedding : Option Embedding
  watermark : ConflictWatermark
  neighbourhood : List String
  exclude : List String

/-- `get_embeddings_by_ids`, for one id: the stored vector, whatever the particle's status. -/
def getEmbeddingById (store : Store) (id : String) : Option Embedding :=
  ((store.get? id).bind (candidateOf env.float32 env.currentId)).map Prod.snd

/-- The claims a held one is never reconciled against: the given ones, itself, and an ACTIVE twin
that states it. -/
def heldExclude (store : Store) (held : Particle) (exclude : List String) : List String :=
  exclude ++ [held.id] ++
    (((buildDuplicateIndex env.core store [held.content] []).find env.core held).map
      Particle.id).toList

/-- The search that `gather_held_search` runs. -/
def heldNearest (reads : GatherReads) (held : Particle) (exclude : List String) :
    Option Particle × List String :=
  nearestConflict env reads.speaker held (getEmbeddingById env reads.routed held.id)
    (loadActiveConflictCandidates env reads.loaded.store)
    (heldExclude env reads.routed held exclude)

/-- **`gather_held_search`**, which keeps only the neighbourhood of its search. -/
def gatherHeldSearch (reads : GatherReads) (held : Particle) (exclude : List String) :
    HeldSearch where
  embedding := getEmbeddingById env reads.routed held.id
  watermark := readConflictWatermark reads.journalInstalled reads.marked
  neighbourhood := (heldNearest env reads held exclude).2
  exclude := heldExclude env reads.routed held exclude

/-- **`conflict_under_lock`**. -/
def conflictUnderLock (db : Database) (speaker : Option SpeakerKey) (held : Particle)
    (gathered : HeldSearch) : Option Particle :=
  (nearestConflict env speaker held gathered.embedding
    (pairsUnderLock env db gathered.watermark gathered.neighbourhood) gathered.exclude).1

end Search

/-! ### The candidates of a search -/

section Candidates

variable {env : IngestEnv}

/-- Through the candidate cache the candidates are the same, from any state that the process may
keep. -/
theorem loadActiveConflictCandidates_cached {db : Database} {used : List Token} {H : History}
    (hdb : db.RecordedBy used H) {previous : Option CacheState}
    (hprevious : ∀ state, previous = some state → state.Remembered env.float32 used H) :
    ((loadActiveCandidates env.float32 db previous { currentId := env.currentId }).1.filter
        fun pair => !env.core.skipsConflictResolution pair.1.properties) =
      loadActiveConflictCandidates env db.store := by
  rw [loadActiveCandidates_eq hdb hprevious]
  rfl

/-- What a loader yields is an ACTIVE row. -/
theorem exists_row_of_mem_loaded {t : ParticleTable} {p : ParticleRow → Bool} {pair : EmbeddingPair}
    (hp : ∀ row, p row = true → row.isCandidate = true)
    (h : pair ∈ (sortBy candidateOrder (t.rows.filter p)).filterMap
      (candidateOf env.float32 env.currentId)) :
    ∃ row ∈ t.rows, row.model = pair.1 ∧ row.model.status = .ACTIVE := by
  obtain ⟨row, hrow, hpair⟩ := List.mem_filterMap.1 h
  obtain ⟨hmem, hwanted⟩ := mem_candidateRows.1 hrow
  have hactive : row.model.status = .ACTIVE := by
    have hcandidate := hp row hwanted
    simp only [ParticleRow.isCandidate, Bool.and_eq_true, decide_eq_true_eq] at hcandidate
    exact hcandidate.1
  refine ⟨row, hmem, ?_, hactive⟩
  unfold candidateOf at hpair
  split at hpair
  · cases hpair
  · split_ifs at hpair
    obtain rfl := Option.some.inj hpair
    rfl

/-- **What a bounded read returns**: the ids changed since the watermark, when the journal still has
it, and the claims among those and the ids asked for. -/
theorem searchStoreUnderLock_eq_some {db : Database} {watermark : ConflictWatermark}
    {ids : List String} {found : List EmbeddingPair × List String}
    (h : searchStoreUnderLock env db watermark ids = some found) :
    ∃ seq token, watermark = some (seq, token) ∧ tokenAt db.journal seq = some token ∧
      changedSince db.journal seq JOURNAL_RETENTION = some found.2 ∧
      found.1 = (getActiveParticlesWithEmbeddingsByIds env.float32 env.currentId db.store
        (found.2 ++ ids)).filter fun pair =>
          !env.core.skipsConflictResolution pair.1.properties := by
  unfold searchStoreUnderLock at h
  split at h
  · cases h
  · next seq token =>
      split_ifs at h with htoken
      split at h
      · cases h
      · next changed hchanged =>
          obtain rfl := Option.some.inj h
          exact ⟨seq, token, rfl, not_not.1 htoken, hchanged, rfl⟩

theorem readHead_of_watermark {installed : Bool} {marked : Database} {head : ℕ × Token}
    (h : readConflictWatermark installed marked = some head) :
    readHead marked.journal = some head := by
  unfold readConflictWatermark at h
  split_ifs at h
  exact h

/-- **What the search under the lock is given is ACTIVE at that moment.** -/
theorem exists_row_of_mem_pairsUnderLock {db : Database} {watermark : ConflictWatermark}
    {ids : List String} {pair : EmbeddingPair} (h : pair ∈ pairsUnderLock env db watermark ids) :
    ∃ row ∈ db.store.particles.rows, row.model = pair.1 ∧ row.model.status = .ACTIVE := by
  unfold pairsUnderLock at h
  split at h
  · next found hfound =>
      obtain ⟨_, _, -, -, -, hpairs⟩ := searchStoreUnderLock_eq_some hfound
      rw [hpairs] at h
      refine exists_row_of_mem_loaded (fun row hrow => ?_) (List.mem_of_mem_filter h)
      exact (Bool.and_eq_true _ _ ▸ hrow : _ ∧ _).2
  · refine exists_row_of_mem_loaded (fun row hrow => ?_) (List.mem_of_mem_filter h)
    rw [wantedRow] at hrow
    simp only [Bool.and_eq_true] at hrow
    exact hrow.1.1

/-- A row as a near candidate: decoded, in conflict resolution, and near. -/
def nearCandidate (env : IngestEnv) (e : Embedding) (excludeIds : List String)
    (row : ParticleRow) : Option EmbeddingPair :=
  ((candidateOf env.float32 env.currentId row).filter fun pair =>
    !env.core.skipsConflictResolution pair.1.properties).filter (isNear env e excludeIds)

theorem nearCandidate_eq_some {e : Embedding} {excludeIds : List String} {row : ParticleRow}
    {pair : EmbeddingPair} :
    nearCandidate env e excludeIds row = some pair ↔
      candidateOf env.float32 env.currentId row = some pair ∧
        env.core.skipsConflictResolution pair.1.properties = false ∧
        isNear env e excludeIds pair = true := by
  simp only [nearCandidate, Option.filter_eq_some_iff, Bool.not_eq_true', and_assoc]

/-- Two loads of a table have the same near candidates, when they agree on the rows that are. -/
theorem filterMap_candidateRows_congr {t : ParticleTable} {p q : ParticleRow → Bool}
    {g : ParticleRow → Option EmbeddingPair}
    (h : ∀ row ∈ t.rows, (g row).isSome = true → p row = q row) :
    (sortBy candidateOrder (t.rows.filter p)).filterMap g =
      (sortBy candidateOrder (t.rows.filter q)).filterMap g := by
  have hsome : ∀ rows : List ParticleRow,
      rows.filterMap g = (rows.filter fun row => (g row).isSome).filterMap g := by
    intro rows
    induction rows with
    | nil => rfl
    | cons row rows ih => cases hrow : g row <;> simp [hrow, ih]
  rw [hsome, hsome (sortBy _ (t.rows.filter q)), filter_candidateRows, filter_candidateRows]
  congr 2
  refine List.filter_congr fun row hrow => ?_
  cases hg : (g row).isSome with
  | false => simp
  | true => simp [h row hrow hg]

/-- The near candidates of the whole store, row by row. -/
theorem near_loadActiveConflictCandidates (store : Store) (e : Embedding)
    (excludeIds : List String) :
    (loadActiveConflictCandidates env store).filter (isNear env e excludeIds) =
      (sortBy candidateOrder (store.particles.rows.filter (wantedRow store 0 none))).filterMap
        (nearCandidate env e excludeIds) := by
  simp only [loadActiveConflictCandidates, getActiveParticlesWithEmbeddings, List.filter_filterMap]
  rfl

/-- No confidence lies below the bound of the load. -/
theorem wantedRow_zero (store : Store) (row : ParticleRow) :
    wantedRow store 0 none row = row.isCandidate := by
  simp [wantedRow]

/-- A near row of a table is in the neighbourhood of a search over it. -/
theorem mem_neighbourhood_of_row {store : Store} (speaker : Option SpeakerKey)
    (particle : Particle) {e : Embedding} {excludeIds : List String} {row : ParticleRow}
    (hrow : row ∈ store.particles.rows) (hcandidate : row.isCandidate = true)
    (hnear : (nearCandidate env e excludeIds row).isSome = true) :
    row.id ∈ (nearestConflict env speaker particle (some e)
      (loadActiveConflictCandidates env store) excludeIds).2 := by
  obtain ⟨pair, hpair⟩ := Option.isSome_iff_exists.1 hnear
  have hload : pair ∈ (loadActiveConflictCandidates env store).filter (isNear env e excludeIds) := by
    rw [near_loadActiveConflictCandidates]
    exact List.mem_filterMap.2
      ⟨row, mem_candidateRows.2 ⟨hrow, by rw [wantedRow_zero, hcandidate]⟩, hpair⟩
  rw [← id_of_candidateOf (nearCandidate_eq_some.1 hpair).1]
  exact mem_neighbourhood (List.mem_filter.1 hload).1 (List.mem_filter.1 hload).2

end Candidates

/-! ### The bounded read -/

section Bounded

variable {env : IngestEnv} {marked loaded db : Database} {ids : List String} {e : Embedding}
  {excludeIds : List String} {installed : Bool}

/-- A row that the journal does not name since the watermark is as the gather loaded it. -/
theorem mem_loaded_of_not_changed {found : List EmbeddingPair × List String}
    (hsince : ∀ head, readHead marked.journal = some head →
      Since head.1 loaded.rows db.rows db.journal)
    (hfound : searchStoreUnderLock env db (readConflictWatermark installed marked) ids =
      some found)
    {row : ParticleRow} (hrow : row ∈ db.store.particles.rows) (hnot : row.id ∉ found.2) :
    row ∈ loaded.store.particles.rows := by
  obtain ⟨seq, token, hmark, htoken, hchanged, -⟩ := searchStoreUnderLock_eq_some hfound
  have hid := ParticleTable.ne_empty_of_get? (ParticleTable.get?_id hrow)
  have hunnamed : ¬ NamedAfter db.journal seq row.id := fun hnamed =>
    hnot ((changedSince_eq_some hchanged row.id).2 ⟨hnamed, hid⟩)
  have hrows : db.rows row.id = loaded.rows row.id :=
    (hsince _ (readHead_of_watermark hmark)).eq_of_not_named htoken hunnamed
  have hloaded : loaded.rows row.id = some row := hrows.symm.trans (ParticleTable.get?_id hrow)
  exact (ParticleTable.get?_eq_some.1 hloaded).1

/-- **The bounded read holds every near claim of the store, in the store's order**, when it is
given every near claim of the state the gather loaded. -/
theorem searchStoreUnderLock_near {found : List EmbeddingPair × List String}
    (hsince : ∀ head, readHead marked.journal = some head →
      Since head.1 loaded.rows db.rows db.journal)
    (hids : ∀ row ∈ loaded.store.particles.rows, row.isCandidate = true →
      (nearCandidate env e excludeIds row).isSome = true → row.id ∈ ids)
    (hfound : searchStoreUnderLock env db (readConflictWatermark installed marked) ids =
      some found) :
    found.1.filter (isNear env e excludeIds) =
      (loadActiveConflictCandidates env db.store).filter (isNear env e excludeIds) := by
  obtain ⟨_, _, -, -, -, hpairs⟩ := searchStoreUnderLock_eq_some hfound
  rw [near_loadActiveConflictCandidates, hpairs]
  simp only [getActiveParticlesWithEmbeddingsByIds, List.filter_filterMap]
  refine filterMap_candidateRows_congr fun row hrow hnear => ?_
  rw [wantedRow_zero]
  cases hcandidate : row.isCandidate with
  | false => simp
  | true =>
      simp only [Bool.and_true, decide_eq_true_eq, List.mem_append]
      by_cases hmem : row.id ∈ found.2
      · exact Or.inl hmem
      · exact Or.inr (hids row (mem_loaded_of_not_changed hsince hfound hrow hmem) hcandidate hnear)

/-- What the watermark of a gather says under the lock, after any commits in between. -/
theorem since_watermark {cs cs' : List Database.Commit}
    (hload : run Database.commit marked cs = some loaded)
    (hlock : run Database.commit loaded cs' = some db) (head : ℕ × Token)
    (hhead : readHead marked.journal = some head) :
    Since head.1 loaded.rows db.rows db.journal := by
  obtain ⟨entry, hentry, rfl⟩ := Option.map_eq_some_iff.1 hhead
  have hreached := (Database.since_run (Since.of_head hentry marked.rows) hload).reached
  exact Database.since_run (Since.refl hreached loaded.rows) hlock

/-- The search under the lock, given the near claims of the gather, is the full search. -/
theorem nearestConflict_pairsUnderLock {cs cs' : List Database.Commit}
    (hload : run Database.commit marked cs = some loaded)
    (hlock : run Database.commit loaded cs' = some db) (speaker : Option SpeakerKey)
    (particle : Particle) {emb : Option Embedding}
    (hids : ∀ e, emb = some e → ∀ row ∈ loaded.store.particles.rows, row.isCandidate = true →
      (nearCandidate env e excludeIds row).isSome = true → row.id ∈ ids) :
    nearestConflict env speaker particle emb
        (pairsUnderLock env db (readConflictWatermark installed marked) ids) excludeIds =
      nearestConflict env speaker particle emb (loadActiveConflictCandidates env db.store)
        excludeIds := by
  unfold pairsUnderLock
  cases hfound : searchStoreUnderLock env db (readConflictWatermark installed marked) ids with
  | none => rfl
  | some found =>
      refine nearestConflict_congr fun e he => ?_
      exact searchStoreUnderLock_near (since_watermark hload hlock) (hids e he) hfound

end Bounded

/-! ### The two pairs of searches -/

section Pairs

variable (env : IngestEnv)

/-- The gather of a claim that no cheap rung routes. -/
theorem gatherReconcile_of_insert {reads : GatherReads} {particle : Particle}
    {emb : Option Embedding} {excludeIds : List String}
    (hroute : (routeCheapRungs env.core env.cfg reads.routed particle excludeIds).1 = .INSERT) :
    let nearest := nearestConflict env reads.speaker particle emb
      (loadActiveConflictCandidates env reads.loaded.store) excludeIds
    gatherReconcile env reads particle emb excludeIds =
      { embedding := emb
        searched := true
        conflict := nearest.1
        excludeIds := excludeIds
        watermark := readConflictWatermark reads.journalInstalled reads.marked
        neighbourhood := nearest.2 } :=
  if_neg (not_not.2 hroute)

/-- The search of a new claim under the lock is the full search. -/
theorem applyConflict_eq_full {reads : GatherReads} {db : Database}
    {cs cs' : List Database.Commit} (hload : run Database.commit reads.marked cs = some reads.loaded)
    (hlock : run Database.commit reads.loaded cs' = some db) (particle : Particle)
    (emb : Option Embedding) (excludeIds : List String) (speaker : Option SpeakerKey)
    (resolved : Particle) :
    applyConflict env db speaker resolved (gatherReconcile env reads particle emb excludeIds) =
      (nearestConflict env speaker resolved emb (loadActiveConflictCandidates env db.store)
        excludeIds).1 := by
  by_cases hroute : (routeCheapRungs env.core env.cfg reads.routed particle excludeIds).1 = .INSERT
  · rw [gatherReconcile_of_insert env hroute]
    refine congrArg Prod.fst (nearestConflict_pairsUnderLock hload hlock speaker resolved ?_)
    rintro e rfl row hrow hcandidate hnear
    exact List.mem_append_left _ (mem_neighbourhood_of_row reads.speaker particle hrow hcandidate hnear)
  · -- no search ran: there is no watermark, and the whole set is read
    rw [gatherReconcile, if_pos hroute]
    rfl

/-- The search of a held claim under the lock is the full search. -/
theorem conflictUnderLock_eq_full {reads : GatherReads} {db : Database}
    {cs cs' : List Database.Commit} (hload : run Database.commit reads.marked cs = some reads.loaded)
    (hlock : run Database.commit reads.loaded cs' = some db) (held : Particle)
    (exclude : List String) (speaker : Option SpeakerKey) (resolved : Particle) :
    conflictUnderLock env db speaker resolved (gatherHeldSearch env reads held exclude) =
      (nearestConflict env speaker resolved (getEmbeddingById env reads.routed held.id)
        (loadActiveConflictCandidates env db.store) (heldExclude env reads.routed held exclude)).1 := by
  refine congrArg Prod.fst (nearestConflict_pairsUnderLock hload hlock speaker resolved ?_)
  intro e he row hrow hcandidate hnear
  change getEmbeddingById env reads.routed held.id = some e at he
  change row.id ∈ (heldNearest env reads held exclude).2
  rw [heldNearest, he]
  exact mem_neighbourhood_of_row _ held hrow hcandidate hnear

/-- The candidates depend on the `particles` table alone. -/
theorem loadActiveConflictCandidates_congr {store store' : Store}
    (h : store.particles = store'.particles) :
    loadActiveConflictCandidates env store = loadActiveConflictCandidates env store' := by
  have hwanted : wantedRow store 0 none = wantedRow store' 0 none := by
    funext row
    rw [wantedRow_zero, wantedRow_zero]
  unfold loadActiveConflictCandidates getActiveParticlesWithEmbeddings
  rw [h, hwanted]

/-- **The bounded search under the lock finds what the full search would find.**  Whatever other
writers commit after the watermark, before and after the gather loads its candidates, the conflict
found under the lock is the one a search over every ACTIVE candidate of that moment finds, for a
new claim (as it is resolved by then) and for a held one.  When no row changed since the load, it
is the conflict that the gather found. -/
theorem searchUnderLock_finds_full (reads : GatherReads) (db : Database)
    (cs cs' : List Database.Commit) (hload : run Database.commit reads.marked cs = some reads.loaded)
    (hlock : run Database.commit reads.loaded cs' = some db) (particle : Particle)
    (emb : Option Embedding) (excludeIds : List String) (held : Particle) (exclude : List String) :
    let gathered := gatherReconcile env reads particle emb excludeIds
    let heldSearch := gatherHeldSearch env reads held exclude
    let full := loadActiveConflictCandidates env db.store
    (∀ speaker resolved, applyConflict env db speaker resolved gathered =
      (nearestConflict env speaker resolved gathered.embedding full gathered.excludeIds).1) ∧
    (∀ speaker resolved, conflictUnderLock env db speaker resolved heldSearch =
      (nearestConflict env speaker resolved heldSearch.embedding full heldSearch.exclude).1) ∧
    (db.store.particles = reads.loaded.store.particles →
      (gathered.searched = true →
        applyConflict env db reads.speaker particle gathered = gathered.conflict) ∧
      conflictUnderLock env db reads.speaker held heldSearch =
        (heldNearest env reads held exclude).1) := by
  intro gathered heldSearch full
  have hgathered : gathered.embedding = emb ∧ gathered.excludeIds = excludeIds := by
    simp only [gathered, gatherReconcile]
    split_ifs <;> exact ⟨rfl, rfl⟩
  refine ⟨fun speaker resolved => ?_, fun speaker resolved => ?_, fun hsame => ⟨?_, ?_⟩⟩
  · rw [hgathered.1, hgathered.2]
    exact applyConflict_eq_full env hload hlock particle emb excludeIds speaker resolved
  · exact conflictUnderLock_eq_full env hload hlock held exclude speaker resolved
  · intro hsearched
    rw [applyConflict_eq_full env hload hlock, loadActiveConflictCandidates_congr env hsame]
    by_cases hroute :
        (routeCheapRungs env.core env.cfg reads.routed particle excludeIds).1 = .INSERT
    · simp only [gathered, gatherReconcile, if_neg (not_not.2 hroute)]
    · simp [gathered, gatherReconcile, hroute] at hsearched
  · rw [conflictUnderLock_eq_full env hload hlock, loadActiveConflictCandidates_congr env hsame]
    rfl

end Pairs

/-- The settings of the examples. -/
def IngestEnv.verbatim : IngestEnv where
  core := .verbatim
  cfg := { similarityThreshold := 4 / 5, subjectFloor := 1 / 2 }
  text := { casefold := id, isspace := fun c => c = ' ', isalnum := Char.isAlphanum }
  float32 := id
  currentId := LEGACY_EMBEDDING_MODEL_ID

/-- The row of a claim with an embedding. -/
def embeddedRow (id : String) (rowid : ℕ) (confidence : NNRat) (embedding : Embedding) :
    ParticleRow where
  model := { id := id, content := id, confidence := confidence }
  rowid := rowid
  contentNormHash := some ("#" ++ id)
  embeddingJson := some embedding

/-- Three claims: `a` is nearest to `[1, 0]`, and `b` and `c` are equally near. -/
def threeClaims : Database :=
  (run Database.commit {}
    [.row (.insert (embeddedRow "a" 1 1 [1, 0]) 11),
      .row (.insert (embeddedRow "b" 2 1 [4 / 5, 3 / 5]) 12),
      .row (.insert (embeddedRow "c" 3 1 [4 / 5, 3 / 5]) 13)]).getD {}

/-- Another writer retires `a`, and lowers the confidence of `c`, so that `c` is read before `b`. -/
def nearestRetired : List Database.Commit :=
  let retired := (embeddedRow "a" 1 1 [1, 0]).withStatus 5 .SUPERSEDED (some .EXPLICIT_SUPERSESSION)
  [.row (.update "a" retired 14 15), .row (.update "c" (embeddedRow "c" 3 0 [4 / 5, 3 / 5]) 16 17)]

/-- The store under the lock. -/
def afterNearestRetired : Database := (run Database.commit threeClaims nearestRetired).getD {}

theorem searchUnderLock_finds_full_nearestRetired :
    let reads : GatherReads := ⟨threeClaims.store, true, threeClaims, threeClaims, none⟩
    let claim : Particle := { id := "new", content := "new" }
    let gathered := gatherReconcile .verbatim reads claim (some [1, 0]) []
    gathered.conflict.map Particle.id = some "a" ∧
      (applyConflict .verbatim afterNearestRetired none claim gathered).map Particle.id =
        some "c" ∧
      applyConflict .verbatim afterNearestRetired none claim gathered =
        (nearestConflict .verbatim none claim gathered.embedding
          (loadActiveConflictCandidates .verbatim afterNearestRetired.store)
          gathered.excludeIds).1 := by
  refine ⟨by decide +kernel, by decide +kernel, ?_⟩
  exact (searchUnderLock_finds_full .verbatim ⟨threeClaims.store, true, threeClaims, threeClaims, none⟩
    afterNearestRetired [] nearestRetired rfl rfl { id := "new", content := "new" } (some [1, 0]) []
    { id := "a", content := "a" } []).1 none _

end ParticlesEngine
