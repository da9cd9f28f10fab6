/-
**The candidate cache.**

`store/candidate_cache.py` keeps the decoded ACTIVE rows of a store in memory, valid as of one
journal entry, and brings them up to date before every use: it re-reads the rows the journal names
since that entry, or rebuilds when it cannot tell what it missed.

Main definitions:

* `CacheState` — a store's cached rows and the journal entry they are valid at;
* `currentState` — `_current_state`;
* `select` — `_select`: the per-query filters;
* `loadActiveCandidates` — the cached equivalent of the loader.

Main results:

* `CacheState.Covers` — the cached rows are those of the history at the cached entry;
* `remembered_currentState` — **the state brought up to date covers the reader's snapshot**;
* `loadActiveCandidates_eq` — **from a remembered state, one call returns what the loader would**;
* `remembered_loadActiveCandidates` — and it leaves a remembered state behind.
-/

import Mathlib.Data.List.AList
import Mathlib.Data.String.Basic
import ParticlesEngine.ChangeJournal
import ParticlesEngine.EmbeddingLoader

set_option relaxedAutoImplicit false
set_option autoImplicit false

open ChangeLog SortBy

namespace ParticlesEngine

/-- Re-read at most this many changed rows (or a quarter of the cache) before rebuilding. -/
def DELTA_FLOOR : ℕ := 1000

/-- One cached ACTIVE row. -/
structure CacheEntry where
  particle : Particle
  embedding : Embedding
  confidence : ℚ
  modelId : String
  order : ℚ ×ₗ ℕ
  deriving DecidableEq

/-- A store's cached rows, valid as of journal entry `head`. -/
structure CacheState where
  head : ℕ × Token
  byId : AList fun _ : String => CacheEntry
  ordered : List CacheEntry
  /-- built from scratch, rather than brought up from an earlier state -/
  rebuilt : Bool

section Cache

variable (float32 : ℚ → ℚ)

/-- `_entry`. -/
def cacheEntry (row : ParticleRow) : CacheEntry where
  particle := row.toModel
  embedding := decodeEmbedding float32 (row.embeddingJson.getD [])
  confidence := row.model.confidence
  modelId := row.storedModelId
  order := candidateOrder row

/-- `_cacheable`. -/
def cacheable (row : ParticleRow) : Bool := row.isCandidate

/-- `_build`: every ACTIVE row with an embedding, in the loader's order. -/
def build (db : Database) (head : ℕ × Token) : CacheState :=
  let rows := sortBy candidateOrder (db.store.particles.rows.filter cacheable)
  { head := head
    byId := rows.foldl (fun byId row => byId.insert row.id (cacheEntry float32 row)) ∅
    ordered := rows.map (cacheEntry float32)
    rebuilt := true }

/-- Re-read one changed row. -/
def reread (db : Database) (byId : AList fun _ : String => CacheEntry) (pid : String) :
    AList fun _ : String => CacheEntry :=
  match db.rows pid with
  | none => byId.erase pid
  | some row =>
      if cacheable row then byId.insert pid (cacheEntry float32 row) else byId.erase pid

/-- `_apply_changes`: re-read the changed rows, in the order of their ids. -/
def applyChanges (db : Database) (state : CacheState) (head : ℕ × Token)
    (changed : List String) : CacheState :=
  let byId := (sortBy id changed).foldl (reread float32 db) state.byId
  { head := head
    byId := byId
    ordered := sortBy CacheEntry.order (byId.entries.map Sigma.snd)
    rebuilt := false }

/-- `_current_state`: `state` brought up to the journal's head, or `none` to read directly. -/
def currentState (db : Database) (state : Option CacheState) (mayRebuild : Bool) :
    Option CacheState :=
  match readHead db.journal with
  | none => none
  | some head =>
      let rebuild := if mayRebuild then some (build float32 db head) else none
      match state with
      | none => rebuild
      | some state =>
          if state.head = head then some state
          else if tokenAt db.journal state.head.1 = some state.head.2 then
            match changedSince db.journal state.head.1
                (max DELTA_FLOOR (state.byId.entries.length / 4)) with
            | some changed => some (applyChanges float32 db state head changed)
            | none => rebuild
          else rebuild

/-- `_select`: the confidence, embedding-model and subject filters of one query. -/
def select (currentId : String) (state : CacheState) (minConfidence : ℚ)
    (allowed : Option (List String)) : List (Particle × Embedding) :=
  let entries :=
    match allowed with
    | none => state.ordered
    | some allowed => sortBy CacheEntry.order (allowed.filterMap state.byId.lookup)
  entries.filterMap fun entry =>
    if entry.confidence < minConfidence then none
    else if entry.modelId ≠ currentId then none
    else some (entry.particle, entry.embedding)

/-- What a call of `load_active_candidates` is asked, and what it reads from its process. -/
structure LoadCall where
  minConfidence : ℚ := 0
  subjectId : Option String := none
  /-- `get_embedding_model_id()` -/
  currentId : String
  /-- `query.candidate_cache` is on, and the session's store has every journal trigger -/
  cacheOn : Bool := true
  deriving DecidableEq

/-- What the uncached loader returns to the same call. -/
def LoadCall.uncached (call : LoadCall) (store : Store) : List (Particle × Embedding) :=
  getActiveParticlesWithEmbeddings float32 call.currentId store call.minConfidence call.subjectId

/-- **`load_active_candidates`**, over the snapshot `db` and from the process's state `previous`:
what it returns, and the state it leaves in `_STATES`, if any. -/
def loadActiveCandidates (db : Database) (previous : Option CacheState) (call : LoadCall) :
    List (Particle × Embedding) × Option CacheState :=
  if call.cacheOn then
    match currentState float32 db previous call.subjectId.isNone with
    | none => (call.uncached float32 db.store, none)
    | some state =>
        (select call.currentId state call.minConfidence
          (call.subjectId.map db.store.getParticlesForSubject), some state)
  else (call.uncached float32 db.store, none)

end Cache

/-! ### States that cover a snapshot -/

section Covers

variable {float32 : ℚ → ℚ}

/-- The cached entry of a row, if it is cached at all. -/
def cachedOf (float32 : ℚ → ℚ) (row : ParticleRow) : Option CacheEntry :=
  if cacheable row then some (cacheEntry float32 row) else none

theorem cachedOf_eq_some {row : ParticleRow} {entry : CacheEntry} :
    cachedOf float32 row = some entry ↔ cacheable row = true ∧ cacheEntry float32 row = entry := by
  simp [cachedOf]

/-- A state covers the rows it should hold: one entry for every cacheable row, in order. -/
structure CacheState.Covers (float32 : ℚ → ℚ) (state : CacheState)
    (rows : String → Option ParticleRow) : Prop where
  lookup : ∀ id, state.byId.lookup id = (rows id).bind (cachedOf float32)
  sorted : state.ordered.Pairwise fun e f => e.order ≤ f.order
  nodup : state.ordered.Nodup
  mem : ∀ entry, entry ∈ state.ordered ↔ ∃ id, state.byId.lookup id = some entry
  /-- no row has the empty id -/
  empty : state.byId.lookup "" = none

theorem cacheEntry_eq_of_order_eq {t : ParticleTable} {row row' : ParticleRow} (h : row ∈ t.rows)
    (h' : row' ∈ t.rows) (heq : (cacheEntry float32 row).order = (cacheEntry float32 row').order) :
    cacheEntry float32 row = cacheEntry float32 row' := by
  rw [eq_of_candidateOrder_eq h h' heq]

/-- The entries of a table's rows are told apart by their ids. -/
theorem nodup_map_cacheEntry {t : ParticleTable} {rows : List ParticleRow} (hnodup : rows.Nodup)
    (hmem : ∀ row ∈ rows, row ∈ t.rows) : (rows.map (cacheEntry float32)).Nodup := by
  refine hnodup.map_on fun r hr r' hr' heq => ?_
  exact eq_of_candidateOrder_eq (hmem r hr) (hmem r' hr') (congrArg CacheEntry.order heq)

/-- **A sorted list of exactly the entries of the wanted rows is the loader's list, as entries.** -/
theorem entries_eq {t : ParticleTable} {p : ParticleRow → Bool} {entries : List CacheEntry}
    (hsorted : entries.Pairwise fun e f => e.order ≤ f.order) (hnodup : entries.Nodup)
    (hmem : ∀ entry, entry ∈ entries ↔
      ∃ row ∈ t.rows, p row = true ∧ cacheEntry float32 row = entry) :
    entries = (sortBy candidateOrder (t.rows.filter p)).map (cacheEntry float32) := by
  refine eq_of_sorted_of_mem_iff ?_ hsorted ?_ hnodup ?_ ?_
  · intro e he f hf heq
    obtain ⟨r, hr, -, rfl⟩ := (hmem e).1 he
    obtain ⟨r', hr', -, rfl⟩ := (hmem f).1 hf
    exact cacheEntry_eq_of_order_eq hr hr' heq
  · exact List.pairwise_map.2 (pairwise_sortBy _ _)
  · exact nodup_map_cacheEntry (nodup_candidateRows t p) fun row hrow =>
      (mem_candidateRows.1 hrow).1
  · intro entry
    simp only [hmem, List.mem_map, mem_candidateRows, and_assoc]

/-! ### Building and catching up -/

/-- A fold of inserts leaves the last row inserted under each id. -/
theorem lookup_foldl_insert {rows : List ParticleRow} (hnodup : (rows.map ParticleRow.id).Nodup) :
    ∀ (byId : AList fun _ : String => CacheEntry) (id : String),
      (rows.foldl (fun byId row => byId.insert row.id (cacheEntry float32 row)) byId).lookup id =
        ((rows.find? fun row => row.id = id).map (cacheEntry float32)).or (byId.lookup id) := by
  induction rows with
  | nil => intro byId id; rfl
  | cons row rows ih =>
      intro byId id
      obtain ⟨hnot, hrest⟩ := List.nodup_cons.1 hnodup
      rw [List.foldl_cons, ih hrest]
      by_cases hid : row.id = id
      · have hnone : rows.find? (fun row => row.id = id) = none := by
          rw [List.find?_eq_none]
          intro r hr
          simp only [decide_eq_true_eq]
          exact fun heq => hnot (List.mem_map.2 ⟨r, hr, heq.trans hid.symm⟩)
        rw [hnone, List.find?_cons_of_pos (by simpa using hid), ← hid]
        simp
      · rw [List.find?_cons_of_neg (by simpa using hid), AList.lookup_insert_ne (Ne.symm hid)]

theorem lookup_build (db : Database) (head : ℕ × Token) (id : String) :
    (build float32 db head).byId.lookup id = (db.rows id).bind (cachedOf float32) := by
  have hids : ((sortBy candidateOrder (db.store.particles.rows.filter cacheable)).map
      ParticleRow.id).Nodup := by
    refine (nodup_candidateRows _ _).map_on fun r hr r' hr' heq => ?_
    exact Table.eq_of_key_eq (mem_candidateRows.1 hr).1 (mem_candidateRows.1 hr').1 heq
  simp only [build, lookup_foldl_insert hids, find?_candidateRows, AList.lookup_empty,
    Option.or_none]
  change ((db.rows id).filter cacheable).map (cacheEntry float32) = _
  cases db.rows id with
  | none => rfl
  | some row => by_cases hc : cacheable row = true <;> simp [hc, cachedOf]

/-- A build covers the snapshot it read. -/
theorem covers_build (db : Database) (head : ℕ × Token) :
    (build float32 db head).Covers float32 db.rows where
  lookup := lookup_build db head
  sorted := List.pairwise_map.2 (pairwise_sortBy _ _)
  nodup := nodup_map_cacheEntry (nodup_candidateRows _ _) fun row hrow =>
    (mem_candidateRows.1 hrow).1
  mem := by
    intro entry
    have hbuilt : entry ∈ (build float32 db head).ordered ↔
        ∃ row ∈ db.store.particles.rows, cacheable row = true ∧ cacheEntry float32 row = entry := by
      simp only [build, List.mem_map, mem_candidateRows, and_assoc]
    simp only [hbuilt, lookup_build, Option.bind_eq_some_iff, cachedOf_eq_some]
    constructor
    · rintro ⟨row, hrow, hc, rfl⟩
      exact ⟨row.id, row, ParticleTable.get?_id hrow, hc, rfl⟩
    · rintro ⟨id, row, hrow, hc, rfl⟩
      exact ⟨row, (ParticleTable.get?_eq_some.1 hrow).1, hc, rfl⟩
  empty := by
    rw [lookup_build]
    simp [Database.rows, Store.get?]

/-- Re-reading one id reads the snapshot there and changes nothing else. -/
theorem lookup_reread (db : Database) (byId : AList fun _ : String => CacheEntry)
    (pid id : String) :
    (reread float32 db byId pid).lookup id =
      if pid = id then (db.rows id).bind (cachedOf float32) else byId.lookup id := by
  by_cases hid : pid = id
  · subst hid
    rw [if_pos rfl, reread]
    cases db.rows pid with
    | none => simp
    | some row => by_cases hc : cacheable row = true <;> simp [hc, cachedOf]
  · rw [if_neg hid, reread]
    cases db.rows pid with
    | none => exact AList.lookup_erase_ne (Ne.symm hid)
    | some row =>
        by_cases hc : cacheable row = true
        · simp [hc, AList.lookup_insert_ne (Ne.symm hid)]
        · simp [hc, AList.lookup_erase_ne (Ne.symm hid)]

theorem lookup_foldl_reread (db : Database) (changed : List String) :
    ∀ (byId : AList fun _ : String => CacheEntry) (id : String),
      (changed.foldl (reread float32 db) byId).lookup id =
        if id ∈ changed then (db.rows id).bind (cachedOf float32) else byId.lookup id := by
  induction changed with
  | nil => intro byId id; rfl
  | cons pid changed ih =>
      intro byId id
      rw [List.foldl_cons, ih, lookup_reread]
      by_cases hmem : id ∈ changed
      · simp [hmem]
      · by_cases hid : pid = id
        · simp [hid]
        · simp [hmem, hid, Ne.symm hid]

/-- The values of a dict, in any order. -/
theorem mem_values {byId : AList fun _ : String => CacheEntry} {entry : CacheEntry} :
    entry ∈ byId.entries.map Sigma.snd ↔ ∃ id, byId.lookup id = some entry := by
  constructor
  · intro h
    obtain ⟨⟨id, e⟩, hmem, rfl⟩ := List.mem_map.1 h
    exact ⟨id, AList.mem_lookup_iff.2 hmem⟩
  · rintro ⟨id, h⟩
    exact List.mem_map.2 ⟨⟨id, entry⟩, AList.mem_lookup_iff.1 h, rfl⟩

/-- Catching up covers the snapshot, when every id it does not re-read is unchanged. -/
theorem covers_applyChanges {db : Database} {state : CacheState} {head : ℕ × Token}
    {changed : List String} {rows : String → Option ParticleRow}
    (hstate : state.Covers float32 rows)
    (hsame : ∀ id, id ∉ changed → id ≠ "" → db.rows id = rows id) :
    (applyChanges float32 db state head changed).Covers float32 db.rows := by
  have hlookup : ∀ id, (applyChanges float32 db state head changed).byId.lookup id =
      (db.rows id).bind (cachedOf float32) := by
    intro id
    simp only [applyChanges, lookup_foldl_reread, mem_sortBy]
    by_cases hmem : id ∈ changed
    · rw [if_pos hmem]
    · rw [if_neg hmem]
      by_cases hid : id = ""
      · subst hid
        rw [hstate.empty]
        simp [Database.rows, Store.get?]
      · rw [hstate.lookup, hsame id hmem hid]
  have hid : ∀ {id : String} {entry : CacheEntry}, (db.rows id).bind (cachedOf float32) = some entry →
      entry.particle.id = id := by
    intro id entry h
    obtain ⟨row, hrow, hcached⟩ := Option.bind_eq_some_iff.1 h
    obtain ⟨-, rfl⟩ := cachedOf_eq_some.1 hcached
    exact ParticleTable.id_of_get? hrow
  refine ⟨hlookup, pairwise_sortBy _ _, nodup_sortBy ?_, ?_, ?_⟩
  · -- entries under different ids hold different particles
    refine (applyChanges float32 db state head changed).byId.nodupKeys.nodup.map_on ?_
    rintro ⟨id, e⟩ he ⟨id', e'⟩ he' rfl
    have h := (hlookup id).symm.trans (AList.mem_lookup_iff.2 he)
    have h' := (hlookup id').symm.trans (AList.mem_lookup_iff.2 he')
    rw [← hid h, ← hid h']
  · intro entry
    rw [applyChanges, mem_sortBy, mem_values]
  · rw [hlookup]
    simp [Database.rows, Store.get?]

/-! ### Selecting from a covering state -/

/-- The selection over the entries of the wanted rows is the loader's selection. -/
theorem filterMap_select_eq (currentId : String) (store : Store) (minConfidence : ℚ)
    (subjectId : Option String) (p : ParticleRow → Bool)
    (hp : ∀ row, wantedRow store minConfidence subjectId row =
      (p row && decide (minConfidence ≤ row.model.confidence)))
    (hc : ∀ row, p row = true → row.isCandidate = true) :
    ((sortBy candidateOrder (store.particles.rows.filter p)).map (cacheEntry float32)).filterMap
        (fun entry =>
          if entry.confidence < minConfidence then none
          else if entry.modelId ≠ currentId then none
          else some (entry.particle, entry.embedding)) =
      getActiveParticlesWithEmbeddings float32 currentId store minConfidence subjectId := by
  have hfilter : store.particles.rows.filter (wantedRow store minConfidence subjectId) =
      store.particles.rows.filter fun row =>
        p row && decide (minConfidence ≤ row.model.confidence) :=
    List.filter_congr fun row _ => hp row
  rw [getActiveParticlesWithEmbeddings, hfilter, ← filter_candidateRows, List.filterMap_map,
    List.filterMap_filter]
  refine List.filterMap_congr fun row hrow => ?_
  have hcand : row.isCandidate = true := hc row (mem_candidateRows.1 hrow).2
  simp only [ParticleRow.isCandidate, Bool.and_eq_true, Option.isSome_iff_exists] at hcand
  obtain ⟨-, json, hjson⟩ := hcand
  by_cases hconf : minConfidence ≤ row.model.confidence
  · simp [cacheEntry, candidateOf, hjson, hconf, not_lt.2 hconf]
  · simp [cacheEntry, hconf, not_le.1 hconf]

/-- **From a state that covers the snapshot, `_select` returns what the loader would.** -/
theorem select_eq {db : Database} {state : CacheState} (h : state.Covers float32 db.rows)
    (call : LoadCall) :
    select call.currentId state call.minConfidence
        (call.subjectId.map db.store.getParticlesForSubject) = call.uncached float32 db.store := by
  have hentry : ∀ entry id, state.byId.lookup id = some entry ↔
      ∃ row ∈ db.store.particles.rows, row.id = id ∧ cacheable row = true ∧
        cacheEntry float32 row = entry := by
    intro entry id
    rw [h.lookup, Option.bind_eq_some_iff]
    simp only [cachedOf_eq_some, Database.rows, Store.get?, ParticleTable.get?_eq_some, and_assoc]
  cases hsubject : call.subjectId with
  | none =>
      -- no subject: the ordered entries are those of every cacheable row
      have hordered : state.ordered =
          (sortBy candidateOrder (db.store.particles.rows.filter cacheable)).map
            (cacheEntry float32) := by
        refine entries_eq h.sorted h.nodup fun entry => ?_
        rw [h.mem]
        simp only [hentry]
        constructor
        · rintro ⟨id, row, hrow, -, hrest⟩
          exact ⟨row, hrow, hrest⟩
        · rintro ⟨row, hrow, hrest⟩
          exact ⟨row.id, row, hrow, rfl, hrest⟩
      simp only [LoadCall.uncached, hsubject, select, Option.map_none, hordered]
      refine filterMap_select_eq _ _ _ _ cacheable (fun row => ?_) fun row hrow => hrow
      simp [wantedRow, cacheable]
  | some s =>
      -- a subject: the entries looked up are those of its cacheable rows
      have hlinked : sortBy CacheEntry.order
          ((db.store.getParticlesForSubject s).filterMap state.byId.lookup) =
          (sortBy candidateOrder (db.store.particles.rows.filter fun row =>
            cacheable row && decide (row.id ∈ db.store.getParticlesForSubject s))).map
            (cacheEntry float32) := by
        refine entries_eq (pairwise_sortBy _ _) (nodup_sortBy ?_) fun entry => ?_
        · refine (db.store.nodup_getParticlesForSubject s).filterMap fun id id' entry he he' => ?_
          obtain ⟨row, -, rfl, -, rfl⟩ := (hentry entry id).1 he
          obtain ⟨row', -, rfl, -, heq⟩ := (hentry _ id').1 he'
          exact congrArg (fun e : CacheEntry => e.particle.id) heq.symm
        · simp only [mem_sortBy, List.mem_filterMap, hentry, Bool.and_eq_true, decide_eq_true_eq]
          constructor
          · rintro ⟨id, hid, row, hrow, rfl, hc, rfl⟩
            exact ⟨row, hrow, ⟨hc, hid⟩, rfl⟩
          · rintro ⟨row, hrow, ⟨hc, hid⟩, rfl⟩
            exact ⟨row.id, hid, row, hrow, rfl, hc, rfl⟩
      simp only [LoadCall.uncached, hsubject, select, Option.map_some, hlinked]
      refine filterMap_select_eq _ _ _ _ _ (fun row => ?_) fun row hrow => ?_
      · have hany : (db.store.subjectLinks.rows.any fun link =>
            link.subjectId = s && link.particleId = row.id) =
            decide (row.id ∈ db.store.getParticlesForSubject s) := by
          rw [Bool.eq_iff_iff]
          simp [Store.mem_getParticlesForSubject]
        simp only [wantedRow, cacheable, hany]
        rw [Bool.and_right_comm]
      · exact (Bool.and_eq_true _ _ ▸ hrow).1

end Covers

/-! ### One call -/

section Call

variable {float32 : ℚ → ℚ}

/-- A state that may be kept between calls: it covers the rows of the history at its entry. -/
structure CacheState.Remembered (float32 : ℚ → ℚ) (used : List Token) (H : History)
    (state : CacheState) : Prop where
  drawn : state.head.2 ∈ used
  covers : state.Covers float32 (H state.head.2)

theorem CacheState.Remembered.congr_history {used used' : List Token} {H H' : History}
    {state : CacheState} (h : state.Remembered float32 used H) (hsub : used ⊆ used')
    (hH : AgreeOn used H H') : state.Remembered float32 used' H' :=
  ⟨hsub h.drawn, by rw [hH _ h.drawn]; exact h.covers⟩

/-- **The state brought up to date covers the reader's snapshot** and may be remembered. -/
theorem remembered_currentState {db : Database} {used : List Token} {H : History}
    (hdb : db.RecordedBy used H) {previous : Option CacheState}
    (hprevious : ∀ state, previous = some state → state.Remembered float32 used H)
    {mayRebuild : Bool} {state : CacheState}
    (h : currentState float32 db previous mayRebuild = some state) :
    state.Covers float32 db.rows ∧ state.Remembered float32 used H := by
  cases hhead : db.journal.head with
  | none => simp [currentState, readHead, hhead] at h
  | some entry =>
      have hread : readHead db.journal = some (entry.seq, entry.token) := by
        simp [readHead, hhead]
      have hdrawn : entry.token ∈ used := hdb.tokens entry (Log.mem_of_head hhead)
      have hrows : db.rows = H entry.token := hdb.faithful.rows_eq_of_head hhead
      -- a state at the head that covers the snapshot may be remembered
      have hfresh : ∀ st : CacheState, st.head = (entry.seq, entry.token) →
          st.Covers float32 db.rows → st.Covers float32 db.rows ∧
            st.Remembered float32 used H := by
        intro st hst hcov
        refine ⟨hcov, ⟨by rw [hst]; exact hdrawn, ?_⟩⟩
        rw [hst, ← hrows]
        exact hcov
      have hbuild : ∀ st, (if mayRebuild then
          some (build float32 db (entry.seq, entry.token)) else none) = some st →
          st.Covers float32 db.rows ∧ st.Remembered float32 used H := by
        intro st hst
        split_ifs at hst
        obtain rfl := Option.some.inj hst
        exact hfresh _ rfl (covers_build db _)
      simp only [currentState, hread] at h
      cases previous with
      | none => exact hbuild state h
      | some old =>
          have hold := hprevious old rfl
          by_cases hsame : old.head = (entry.seq, entry.token)
          · -- nothing changed: the head is the one the state was built at
            simp only [hsame, if_true] at h
            obtain rfl := Option.some.inj h
            refine ⟨?_, hold⟩
            have hcov := hold.covers
            rwa [hsame, ← hrows] at hcov
          by_cases htoken : tokenAt db.journal old.head.1 = some old.head.2
          · simp only [hsame, htoken, if_false, if_true] at h
            cases hchanged : changedSince db.journal old.head.1
                (max DELTA_FLOOR (old.byId.entries.length / 4)) with
            | none =>
                rw [hchanged] at h
                exact hbuild state h
            | some changed =>
                -- catch up: what is not named is as it was at the remembered entry
                rw [hchanged] at h
                obtain rfl := Option.some.inj h
                refine hfresh _ rfl (covers_applyChanges hold.covers fun id hid hne => ?_)
                refine hdb.faithful.catchUp htoken fun hnamed => hid ?_
                exact (changedSince_eq_some hchanged id).2 ⟨hnamed, hne⟩
          · simp only [hsame, htoken, if_false] at h
            exact hbuild state h

/-- **From a remembered state, one call returns what the uncached loader would return from the
same snapshot.** -/
theorem loadActiveCandidates_eq {db : Database} {used : List Token} {H : History}
    (hdb : db.RecordedBy used H) {previous : Option CacheState}
    (hprevious : ∀ state, previous = some state → state.Remembered float32 used H)
    (call : LoadCall) :
    (loadActiveCandidates float32 db previous call).1 = call.uncached float32 db.store := by
  unfold loadActiveCandidates
  split_ifs with hon
  · cases hstate : currentState float32 db previous call.subjectId.isNone with
    | none => rfl
    | some state => exact select_eq (remembered_currentState hdb hprevious hstate).1 call
  · rfl

/-- The state a call leaves in the process may be remembered. -/
theorem remembered_loadActiveCandidates {db : Database} {used : List Token} {H : History}
    (hdb : db.RecordedBy used H) {previous : Option CacheState}
    (hprevious : ∀ state, previous = some state → state.Remembered float32 used H)
    {call : LoadCall} {state : CacheState}
    (h : (loadActiveCandidates float32 db previous call).2 = some state) :
    state.Remembered float32 used H := by
  unfold loadActiveCandidates at h
  split_ifs at h with hon
  cases hstate : currentState float32 db previous call.subjectId.isNone with
  | none => simp [hstate] at h
  | some state' =>
      rw [hstate] at h
      obtain rfl := Option.some.inj h
      exact (remembered_currentState hdb hprevious hstate).2

end Call

end ParticlesEngine
