/-
**Deposits into the corpus.**

Every path by which a source enters the corpus ends in one function.  It looks for the entry that the
deposit belongs to, by its URI and then by the hash of its bytes, refuses or passes over the entries
that are another's, and appends a record to the entry it found or makes a new one.  An agent's deposit
runs confined to the entries of one depositor.

Main definitions:

* `CorpusStore`, `DepositEnv`, `DepositCall` — the tables, the parts outside, one call;
* `findExisting` — the entry a deposit belongs to, and the release of a capture's URI;
* `writeEntryAndSnapshot`, `depositTextVersioned` — the two entry points;
* `depositStep`, `runDeposits` — a call of either as a step, and a run of them.

Main results:

* `mem_of_getEntryByUri` — what a lookup by URI finds;
* `mem_of_getLatestSnapshot` — the latest record of an entry is one of its records;
* `matchByUri_cases`, `depositOnto_cases`, `depositNew_eq_ok` — what each part of a deposit has done
  when it returns, and `writeEntryAndSnapshot_cases`, `depositTextVersioned_cases` of the whole.
-/

import Mathlib.Data.List.Dedup
import Mathlib.Data.Prod.Lex
import Mathlib.Data.String.Basic
import ParticlesEngine.Corpus
import ParticlesEngine.ParticleStore
import ParticlesEngine.SortBy

set_option relaxedAutoImplicit false
set_option autoImplicit false

open SortBy

namespace ParticlesEngine

namespace Deposits

/-! ### Rows and calls -/

/-- Whether the refresh tier reads the source again. -/
inductive FetchPolicy where
  | NEVER
  | LAZY
  deriving DecidableEq, Repr

/-- How far a set of tags scopes an entry. -/
inductive EntryScope where
  | GLOBAL
  | KEYED
  | UNATTRIBUTED
  deriving DecidableEq, Repr

/-- A corpus entry, with what a deposit reads and writes of it. -/
structure EntryRow extends CorpusEntryRow where
  fetchPolicy : FetchPolicy := .NEVER
  createdAt : Instant := 0
  deriving DecidableEq, Repr

/-- The primary key of an entry. -/
def EntryRow.id (row : EntryRow) : String := row.entryId

/-- A record of an entry, with what a deposit reads and writes of it. -/
structure RecordRow extends SnapshotRow where
  contentHash : String
  etag : Option String := none
  lastModifiedAt : Option Instant := none
  refersTo : Option String := none
  authorId : Option String := none
  deriving DecidableEq, Repr

/-- The primary key of a record. -/
def RecordRow.id (row : RecordRow) : String := row.snapshotId

/-- The operator events that a deposit records, by the entry they name. -/
inductive DepositEvent where
  | uriReleased (entryId : String) (uriR : Option String) (releasedTo : String)
  | keyAssigned (entryId key : String)
  deriving DecidableEq, Repr

/-- The entry that an event names. -/
def DepositEvent.entryId : DepositEvent → String
  | uriReleased entryId _ _ => entryId
  | keyAssigned entryId _ => entryId

/-- The tables that a deposit reads and writes. -/
structure CorpusStore where
  entries : Table EntryRow.id := .empty
  snapshots : Table RecordRow.id := .empty
  events : List DepositEvent := []

/-- Raw content. -/
abbrev Content := List UInt8

/-- The parts outside: the scope of a set of tags, the genre adapter, and which row a query with a
limit of one returns. -/
structure DepositEnv where
  /-- the set of keys, as a list of its members -/
  projectKeys : List String → List String
  projectTag : String → String
  classifyEntry : List String → EntryScope
  /-- `UNATTRIBUTED_MARKER` -/
  unattributedMarker : String
  /-- `document_relation_for_content`; nothing when the feature is off -/
  documentRelationForContent : Content → Option DocumentRelation
  limitOne : List RecordRow → Option RecordRow
  limitOne_mem : ∀ {rows row}, limitOne rows = some row → row ∈ rows

/-- The arguments of `write_entry_and_snapshot`, what its scope and its clock say, and the ids it
draws. -/
structure DepositCall where
  uriR : Option String := none
  sourceType : String := ""
  mutability : Mutability := .STABLE
  fetchPolicy : FetchPolicy := .NEVER
  content : Content := []
  contentHash : String
  archivePath : String := ""
  depositedBy : String
  tags : List String := []
  warcRecordType : WarcRecordType := .RESPONSE
  etag : Option String := none
  lastModified : Option Instant := none
  authorId : Option String := none
  contentPublishedAt : Option Instant := none
  contentDateExplicit : Bool := false
  identifiedByUri : Bool := false
  ownEntriesOnly : Bool := false
  untrustedCaller : Bool := false
  /-- the depositor of the `own_entries_only_for` scope it runs in -/
  confinedTo : Option String := none
  /-- the clock at its start, and at its write -/
  startedAt : Instant := 0
  now : Instant := 0
  newEntryId : String
  newSnapshotId : String
  deriving DecidableEq

/-- Why a deposit raises. -/
inductive DepositError where
  | foreignEntryRefused (uriR depositedBy : String)
  | multipleResultsFound (uriR : String)
  | integrityError
  deriving DecidableEq, Repr

/-- What a deposit returns. -/
structure DepositResult where
  entryId : String
  snapshotId : String
  unchanged : Bool
  deriving DecidableEq, Repr

/-! ### Depositors -/

def WEB_CLIPPER_DEPOSITOR : String := "web-clipper"

def CAPTURE_DEPOSITORS : List String := [WEB_CLIPPER_DEPOSITOR]

def HARVEST_DEPOSITORS : List String := ["claude-code-hook", "audit"]

def REFRESH_MASKED_TAGS : List String := ["memory-file", "rule-file"]

/-- `_owners_of`. -/
def ownersOf (depositor : String) : List String :=
  if depositor ∈ HARVEST_DEPOSITORS then HARVEST_DEPOSITORS else [depositor]

/-- `_foreign_capture_entry`. -/
def foreignCaptureEntry (existing : EntryRow) (depositedBy : String) : Bool :=
  existing.depositedBy ∈ CAPTURE_DEPOSITORS && existing.depositedBy ≠ depositedBy

/-- `_foreign_local_entry`. -/
def foreignLocalEntry (existing : EntryRow) (call : DepositCall) : Bool :=
  (existing.uriR.getD "").startsWith "file://" &&
    (existing.depositedBy ≠ call.depositedBy ||
      (call.untrustedCaller &&
        (existing.fetchPolicy = .LAZY || existing.sourceType ≠ call.sourceType)))

/-- `_not_after`. -/
def notAfter (value : Option Instant) (now : Instant) : Option Instant := value.map (min · now)

variable (env : DepositEnv)

/-- `_identified_by_uri_alone`. -/
def identifiedByUriAlone (call : DepositCall) : Bool :=
  call.identifiedByUri || (call.mutability = .MUTABLE && env.projectKeys call.tags ≠ [])

/-- `_keyed_deposit_onto_global_entry`. -/
def keyedDepositOntoGlobalEntry (existing : EntryRow) (tags : List String) : Bool :=
  env.projectKeys tags ≠ [] && env.classifyEntry existing.tags = .GLOBAL

/-- Two sets of tags have the same project keys. -/
def sameKeys (tags tags' : List String) : Bool :=
  (env.projectKeys tags).all (· ∈ env.projectKeys tags') &&
    (env.projectKeys tags').all (· ∈ env.projectKeys tags)

/-! ### The tables -/

/-- The chain of REVISIT records from a record to the one that has the blob. -/
def holderOf (snapshots : Table RecordRow.id) (seen : List String)
    (snap : { row : RecordRow // row ∈ snapshots.rows }) : Option RecordRow :=
  if _hwalk : snap.1.warcRecordType = .REVISIT ∧ snap.1.refersTo.getD "" ≠ "" ∧
      snap.1.snapshotId ∉ seen then
    match hnext : snapshots.get? (snap.1.refersTo.getD "") with
    | none => none
    | some next => holderOf snapshots (snap.1.snapshotId :: seen) ⟨next, Table.mem_of_get? hnext⟩
  else some snap.1
termination_by (snapshots.rows.filter fun row => row.snapshotId ∉ seen).length
decreasing_by
  have hmem : snap.1 ∈ snapshots.rows.filter fun row => row.snapshotId ∉ seen :=
    List.mem_filter.2 ⟨snap.2, by simpa using _hwalk.2.2⟩
  have hunseen : (snapshots.rows.filter fun row => row.snapshotId ∉ snap.1.snapshotId :: seen) =
      (snapshots.rows.filter fun row => row.snapshotId ∉ seen).filter
        fun row => row.snapshotId ≠ snap.1.snapshotId := by
    rw [List.filter_filter]
    refine List.filter_congr fun row _ => ?_
    simp [not_or]
  rw [hunseen, List.length_filter_lt_length_iff_exists]
  exact ⟨snap.1, hmem, by simp⟩

/-- The records of an entry. -/
def recordsIn (snapshots : Table RecordRow.id) (entryId : String) : List RecordRow :=
  snapshots.rows.filter fun row => row.entryId = entryId

/-- The latest first, by the instant of capture, and then by id. -/
def captureOrder (row : RecordRow) : (Instant ×ₗ String)ᵒᵈ :=
  OrderDual.toDual (toLex (row.capturedAt, row.snapshotId))

/-- `get_latest_snapshot`. -/
def getLatestSnapshot (snapshots : Table RecordRow.id) (entryId : String) : Option RecordRow :=
  (sortBy captureOrder (recordsIn snapshots entryId)).head?

theorem mem_of_getLatestSnapshot {snapshots : Table RecordRow.id} {entryId : String} {row : RecordRow}
    (h : getLatestSnapshot snapshots entryId = some row) : row ∈ snapshots.rows :=
  (List.mem_filter.1 (mem_sortBy.1 (List.mem_of_head? h))).1

/-- The record that stands for a deposit of some bytes, and of a date if one is given: the latest one,
or the one that it revisits. -/
def reusedSnapshotId (snapshots : Table RecordRow.id) (entryId contentHash : String)
    (explicitDate : Option Instant) : Option String :=
  match hlatest : getLatestSnapshot snapshots entryId with
  | none => none
  | some latest =>
      if latest.contentHash ≠ contentHash then none
      else if latest.warcRecordType = .ABSENT then none
      else
        let holder := (holderOf snapshots [] ⟨latest, mem_of_getLatestSnapshot hlatest⟩).getD latest
        if explicitDate.isSome ∧ holder.contentPublishedAt ≠ explicitDate then none
        else some holder.snapshotId

namespace CorpusStore

variable (store : CorpusStore)

/-- Update in place an entry, keeping its id. -/
def modifyEntry (entryId : String) (f : EntryRow → EntryRow)
    (hf : ∀ row, (f row).id = row.id := by intro; rfl) : CorpusStore :=
  { store with entries := store.entries.modify entryId f hf }

/-- Append an operator event. -/
def record (event : DepositEvent) : CorpusStore := { store with events := store.events ++ [event] }

/-- `add_entry_tags`. -/
def addEntryTags (entryId : String) (newTags : List String) : CorpusStore :=
  store.modifyEntry entryId fun row =>
    { row with tags := row.tags ++ (newTags.eraseDups.filter (· ∉ row.tags)) }

/-- `get_entry_by_uri`, which raises when two entries hold the URI. -/
def getEntryByUri (uriR : String) : Except DepositError (Option EntryRow) :=
  match store.entries.rows.filter fun row => row.uriR = some uriR with
  | [] => .ok none
  | [row] => .ok (some row)
  | _ => .error (.multipleResultsFound uriR)

/-- The records of an entry. -/
def recordsOf (entryId : String) : List RecordRow := recordsIn store.snapshots entryId

/-- `get_entry_by_content_hash`. -/
def getEntryByContentHash (contentHash : String) : Option EntryRow :=
  (env.limitOne (store.snapshots.rows.filter fun row =>
    row.contentHash = contentHash && row.warcRecordType = .RESPONSE)).bind fun row =>
      store.entries.get? row.entryId

/-- The entry is one of the depositor's, under the scope of some tags. -/
def isOwn (depositedBy : String) (scopeTags : List String) (entryId : String) : Bool :=
  (store.entries.get? entryId).any fun entry =>
    entry.depositedBy = depositedBy && sameKeys env entry.tags scopeTags &&
      decide (env.unattributedMarker ∈ entry.tags) = decide (env.unattributedMarker ∈ scopeTags)

/-- `get_own_entry_by_content_hash`. -/
def getOwnEntryByContentHash (contentHash depositedBy : String) (scopeTags : List String) :
    Option EntryRow :=
  (env.limitOne (store.snapshots.rows.filter fun row =>
    row.contentHash = contentHash && row.warcRecordType = .RESPONSE &&
      store.isOwn env depositedBy scopeTags row.entryId)).bind fun row =>
        store.entries.get? row.entryId

end CorpusStore

/-! ### The deposit -/

/-- `_release_capture_uri`. -/
def releaseCaptureUri (store : CorpusStore) (existing : EntryRow) (depositedBy : String) :
    CorpusStore :=
  match store.entries.get? existing.entryId with
  | none => store
  | some row =>
      (store.modifyEntry existing.entryId fun row => { row with uriR := none }).record
        (.uriReleased existing.entryId row.uriR depositedBy)

/-- `_refuse_foreign_entry`. -/
def refuseForeignEntry (call : DepositCall) (existing : EntryRow) (uriR : String) :
    Except DepositError Unit :=
  match call.confinedTo with
  | none => .ok ()
  | some confinedTo =>
      if existing.depositedBy ∈ ownersOf confinedTo then .ok ()
      else .error (.foreignEntryRefused uriR existing.depositedBy)

/-- The keys of a deposit that an entry does not have, sorted. -/
def missingKeys (existing : EntryRow) (tags : List String) : List String :=
  sortBy id ((env.projectKeys tags).filter (· ∉ env.projectKeys existing.tags)).dedup

/-- `_reconcile_project_keys`. -/
def reconcileProjectKeys (store : CorpusStore) (existing : EntryRow) (tags : List String) :
    CorpusStore :=
  if env.projectKeys tags = [] then store
  else if env.classifyEntry existing.tags = .GLOBAL then store
  else
    (missingKeys env existing tags).foldl
      (fun store key => store.record (.keyAssigned existing.entryId key))
      (store.addEntryTags existing.entryId ((missingKeys env existing tags).map env.projectTag))

/-- `_reconcile_fetch_policy`. -/
def reconcileFetchPolicy (store : CorpusStore) (existing : EntryRow)
    (requested : Option FetchPolicy) : CorpusStore :=
  match requested with
  | none => store
  | some requested =>
      if existing.fetchPolicy = requested then store
      else store.modifyEntry existing.entryId fun row => { row with fetchPolicy := requested }

/-- `_reconcile_masked_tags`. -/
def reconcileMaskedTags (store : CorpusStore) (existing : EntryRow) (tags : List String) :
    CorpusStore :=
  store.addEntryTags existing.entryId
    (REFRESH_MASKED_TAGS.filter fun tag => tag ∈ tags && tag ∉ existing.tags)

/-- `_unchanged_snapshot_id`. -/
def unchangedSnapshotId (store : CorpusStore) (existing : EntryRow) (contentHash sourceType : String)
    (explicitDate : Option Instant) : Option String :=
  if existing.sourceType ≠ sourceType then none
  else reusedSnapshotId store.snapshots existing.entryId contentHash explicitDate

/-- The entry that the URI of a deposit names.  Another's is refused to a confined deposit, and a
capture's gives up its URI to another depositor. -/
def matchByUri (store : CorpusStore) (call : DepositCall) :
    Except DepositError (CorpusStore × Option EntryRow) :=
  match call.uriR.filter (· ≠ "") with
  | none => .ok (store, none)
  | some uriR => do
      match ← store.getEntryByUri uriR with
      | none => return (store, none)
      | some existing =>
          refuseForeignEntry call existing uriR
          if foreignCaptureEntry existing call.depositedBy then
            return (releaseCaptureUri store existing call.depositedBy, none)
          return (store, some existing)

/-- A deposit in a confined scope touches its depositor's own entries only. -/
def DepositCall.ownOnly (call : DepositCall) : Bool := call.confinedTo.isSome || call.ownEntriesOnly

/-- The entry that the hash of a deposit's bytes finds, before it is held to the deposit. -/
def foundByHash (store : CorpusStore) (call : DepositCall) : Option EntryRow :=
  if call.ownOnly then
    (store.getOwnEntryByContentHash env call.contentHash call.depositedBy call.tags).filter
      fun existing => existing.sourceType = call.sourceType
  else store.getEntryByContentHash env call.contentHash

/-- A deposit may join an entry that the hash of its bytes found. -/
def mayJoin (call : DepositCall) (existing : EntryRow) : Bool :=
  !keyedDepositOntoGlobalEntry env existing call.tags &&
    !foreignLocalEntry existing call && !foreignCaptureEntry existing call.depositedBy

/-- The entry that a deposit belongs to by the hash of its bytes. -/
def matchByHash (store : CorpusStore) (call : DepositCall) : Option EntryRow :=
  if identifiedByUriAlone env call then none
  else (foundByHash env store call).filter (mayJoin env call)

/-- The entry that a deposit belongs to: by its URI, and then by its hash. -/
def findExisting (store : CorpusStore) (call : DepositCall) :
    Except DepositError (CorpusStore × Option EntryRow) := do
  let (store, byUri) ← matchByUri store call
  return (store, byUri.orElse fun _ => matchByHash env store call)

/-- The date that a deposit carries, which is no later than its start. -/
def DepositCall.publishedAt (call : DepositCall) : Option Instant :=
  notAfter call.contentPublishedAt call.startedAt

/-- The date that an operator gave. -/
def DepositCall.explicitDate (call : DepositCall) : Option Instant :=
  if call.contentDateExplicit then call.publishedAt else none

/-- The record that a deposit appends to an entry. -/
def DepositCall.snapRow (call : DepositCall) (entryId : String) : RecordRow where
  snapshotId := call.newSnapshotId
  entryId := entryId
  capturedAt := call.now
  warcRecordType := call.warcRecordType
  archivePath := some call.archivePath
  contentPublishedAt := call.publishedAt
  contentHash := call.contentHash
  etag := call.etag
  lastModifiedAt := call.lastModified
  authorId := call.authorId

/-- The entry that a deposit makes. -/
def DepositCall.entryRow (call : DepositCall) : EntryRow where
  entryId := call.newEntryId
  uriR := call.uriR
  sourceType := call.sourceType
  mutability := call.mutability
  tags := call.tags
  depositedBy := call.depositedBy
  fetchPolicy := call.fetchPolicy
  createdAt := call.now

/-- Append a record; the database refuses an id that is taken. -/
def addRecord (store : CorpusStore) (row : RecordRow) : Except DepositError CorpusStore :=
  match store.snapshots.insert? row with
  | none => .error .integrityError
  | some snapshots => .ok { store with snapshots }

/-- Add an entry; the database refuses an id that is taken. -/
def addEntry (store : CorpusStore) (row : EntryRow) : Except DepositError CorpusStore :=
  match store.entries.insert? row with
  | none => .error .integrityError
  | some entries => .ok { store with entries }

/-- The type of a deposit replaces the type of its entry, unless it is confined. -/
def retype (store : CorpusStore) (existing : EntryRow) (call : DepositCall) : CorpusStore :=
  if existing.sourceType = call.sourceType ∨ call.ownOnly then store
  else store.modifyEntry existing.entryId fun row => { row with sourceType := call.sourceType }

/-- `set_document_relation`, of what the genre adapter reads in the content. -/
def stampRelation (store : CorpusStore) (entryId : String) (call : DepositCall) : CorpusStore :=
  match env.documentRelationForContent call.content with
  | none => store
  | some relation =>
      store.modifyEntry entryId fun row => { row with documentSupersession := some relation }

/-- The deposit onto an entry that exists. -/
def depositOnto (store : CorpusStore) (call : DepositCall) (existing : EntryRow) :
    Except DepositError (CorpusStore × DepositResult) :=
  let store := reconcileProjectKeys env store existing call.tags
  match unchangedSnapshotId store existing call.contentHash call.sourceType
      call.explicitDate with
  | some reused => .ok (store, ⟨existing.entryId, reused, true⟩)
  | none => do
      let store ← addRecord store (call.snapRow existing.entryId)
      return (stampRelation env (retype store existing call) existing.entryId call,
        ⟨existing.entryId, call.newSnapshotId, false⟩)

/-- The deposit of a source that no entry stands for. -/
def depositNew (store : CorpusStore) (call : DepositCall) :
    Except DepositError (CorpusStore × DepositResult) := do
  let store ← addEntry store call.entryRow
  let store ← addRecord store (call.snapRow call.newEntryId)
  return (stampRelation env store call.newEntryId call, ⟨call.newEntryId, call.newSnapshotId, false⟩)

/-- **`write_entry_and_snapshot`.** -/
def writeEntryAndSnapshot (store : CorpusStore) (call : DepositCall) :
    Except DepositError (CorpusStore × DepositResult) := do
  let (store, existing) ← findExisting env store call
  match existing with
  | some existing => depositOnto env store call existing
  | none => depositNew env store call

/-- The newest record of an entry, by the instant of capture: the first one of a tie. -/
def newestCaptured (store : CorpusStore) (entryId : String) : Option RecordRow :=
  (sortBy (fun row => OrderDual.toDual row.capturedAt) (store.recordsOf entryId)).head?

/-- What `deposit_text_versioned` writes onto the entry that its URI names, and the record that
already holds its bytes. -/
def reconcileVersioned (store : CorpusStore) (call : DepositCall) (policy : Option FetchPolicy)
    (existing : EntryRow) : CorpusStore × Option String :=
  let store := reconcileProjectKeys env (reconcileFetchPolicy store existing policy) existing call.tags
  let store := if policy = some .LAZY then reconcileMaskedTags store existing call.tags else store
  (store, ((newestCaptured store existing.entryId).filter fun row =>
    row.contentHash = call.contentHash).map fun row => row.snapshotId)

/-- The call that `deposit_text_versioned` makes of `write_entry_and_snapshot`. -/
def DepositCall.versioned (call : DepositCall) (policy : Option FetchPolicy) (uriR : String) :
    DepositCall :=
  { call with
    uriR := some uriR
    fetchPolicy := policy.getD .NEVER
    warcRecordType := .RESPONSE
    etag := none
    lastModified := none
    authorId := none
    contentDateExplicit := false
    identifiedByUri := false
    ownEntriesOnly := false
    untrustedCaller := false }

/-- The end of `deposit_text_versioned`, which reports a deposit even where a record was reused. -/
def writeVersioned (store : CorpusStore) (call : DepositCall) :
    Except DepositError (CorpusStore × DepositResult) := do
  let (store, result) ← writeEntryAndSnapshot env store call
  return (store, ⟨result.entryId, result.snapshotId, false⟩)

/-- **`deposit_text_versioned`.** -/
def depositTextVersioned (store : CorpusStore) (call : DepositCall) (policy : Option FetchPolicy)
    (uriR : String) : Except DepositError (CorpusStore × DepositResult) := do
  let call := call.versioned policy uriR
  match ← store.getEntryByUri uriR with
  | none => writeVersioned env store call
  | some existing =>
      refuseForeignEntry call existing uriR
      if foreignCaptureEntry existing call.depositedBy then
        writeVersioned env (releaseCaptureUri store existing call.depositedBy) call
      else
        match reconcileVersioned env store call policy existing with
        | (store, some reused) => return (store, ⟨existing.entryId, reused, true⟩)
        | (store, none) => writeVersioned env store call

/-- A call of one of the two entry points. -/
inductive DepositAction where
  | write (call : DepositCall)
  | versioned (call : DepositCall) (policy : Option FetchPolicy) (uriR : String)

/-- The arguments of an action. -/
def DepositAction.call : DepositAction → DepositCall
  | write call => call
  | versioned call _ _ => call

/-- What an action does, or why it raises. -/
def DepositAction.deposit (store : CorpusStore) :
    DepositAction → Except DepositError (CorpusStore × DepositResult)
  | write call => writeEntryAndSnapshot env store call
  | versioned call policy uriR => depositTextVersioned env store call policy uriR

/-- One action of a run: an action that raises is rolled back. -/
def depositStep (store : CorpusStore) (action : DepositAction) : CorpusStore :=
  match action.deposit env store with
  | .ok (store, _) => store
  | .error _ => store

/-- The store after some actions. -/
def runDeposits (store : CorpusStore) (actions : List DepositAction) : CorpusStore :=
  actions.foldl (depositStep env) store

/-! ### Plain deposits -/

/-- The key of a tag `project:<key>`. -/
def projectKeyOf (tag : String) : Option String :=
  if "project:".toList <+: tag.toList then some (String.ofList (tag.toList.drop 8)) else none

/-- The keys among some tags. -/
def projectKeysOf (tags : List String) : List String := tags.filterMap projectKeyOf

/-- A program whose queries read the tables in the order of the rows. -/
def plainDeposits : DepositEnv where
  projectKeys := projectKeysOf
  projectTag := fun key => "project:" ++ key
  classifyEntry := fun tags =>
    if projectKeysOf tags ≠ [] then .KEYED
    else if "claude-code" ∈ tags then .UNATTRIBUTED else .GLOBAL
  unattributedMarker := "observer:unattributed"
  documentRelationForContent := fun _ => none
  limitOne := List.head?
  limitOne_mem := List.mem_of_head?

/-- The deposit of a page. -/
def pageDeposit : DepositCall where
  uriR := some "https://example.org/page"
  sourceType := "WEB_PAGE"
  contentHash := "h1"
  depositedBy := "operator"
  now := 100
  newEntryId := "E1"
  newSnapshotId := "S1"

/-- The same deposit by an agent, in its scope. -/
def agentDeposit : DepositCall :=
  { pageDeposit with depositedBy := "agent-7", confinedTo := some "agent-7" }

/-- A store with the operator's entry of the page. -/
def operatorPage : CorpusStore where
  entries := ⟨[{ pageDeposit.entryRow with entryId := "E0" }], by decide⟩
  snapshots := ⟨[{ pageDeposit.snapRow "E0" with snapshotId := "S0" }], by decide⟩

section Reads

variable {store after : CorpusStore}

theorem mem_modifyEntry (entryId : String) (f : EntryRow → EntryRow) (hf : ∀ row, (f row).id = row.id)
    (row : EntryRow) : row ∈ (store.modifyEntry entryId f hf).entries.rows ↔
      ∃ row₀ ∈ store.entries.rows, (if row₀.id = entryId then f row₀ else row₀) = row :=
  List.mem_map

theorem addEntry_eq_ok {row : EntryRow} (h : addEntry store row = .ok after) :
    store.entries.get? row.id = none ∧ after.entries.rows = store.entries.rows ++ [row] ∧
      after.snapshots = store.snapshots ∧ after.events = store.events := by
  unfold addEntry at h
  cases hinsert : store.entries.insert? row with
  | none => simp [hinsert] at h
  | some entries =>
      simp only [hinsert, Except.ok.injEq] at h
      subst h
      obtain ⟨hfresh, hrows⟩ := Table.insert?_eq_some.1 hinsert
      exact ⟨hfresh, hrows, rfl, rfl⟩

theorem addRecord_eq_ok {row : RecordRow} (h : addRecord store row = .ok after) :
    after.entries = store.entries ∧ after.snapshots.rows = store.snapshots.rows ++ [row] ∧
      after.events = store.events := by
  unfold addRecord at h
  cases hinsert : store.snapshots.insert? row with
  | none => simp [hinsert] at h
  | some snapshots =>
      simp only [hinsert, Except.ok.injEq] at h
      subst h
      exact ⟨rfl, (Table.insert?_eq_some.1 hinsert).2, rfl⟩

theorem getEntryByUri_eq_ok {uriR : String} {existing : EntryRow}
    (h : store.getEntryByUri uriR = .ok (some existing)) :
    (store.entries.rows.filter fun row => row.uriR = some uriR) = [existing] := by
  unfold CorpusStore.getEntryByUri at h
  split at h
  · simp at h
  · next row hrows =>
      simp only [Except.ok.injEq, Option.some.injEq] at h
      rw [hrows, h]
  · simp at h

theorem mem_of_getEntryByUri {uriR : String} {existing : EntryRow}
    (h : store.getEntryByUri uriR = .ok (some existing)) :
    existing ∈ store.entries.rows ∧ existing.uriR = some uriR := by
  have hmem : existing ∈ store.entries.rows.filter fun row => row.uriR = some uriR := by
    rw [getEntryByUri_eq_ok h]
    exact List.mem_singleton_self existing
  simpa using hmem

/-! ### What a deposit that does not raise has done -/

variable {env : DepositEnv} {call : DepositCall} {existing : EntryRow} {result : DepositResult}

/-- The URI of a deposit is missing, names no entry, names a capture that gives it up, or names the
entry that is found. -/
theorem matchByUri_cases {found : Option EntryRow} (h : matchByUri store call = .ok (after, found)) :
    ((∀ uriR, call.uriR = some uriR → uriR = "") ∧ after = store ∧ found = none) ∨
    ∃ uriR, uriR ≠ "" ∧ call.uriR = some uriR ∧
      ((store.getEntryByUri uriR = .ok none ∧ after = store ∧ found = none) ∨
        ∃ existing, store.getEntryByUri uriR = .ok (some existing) ∧
          refuseForeignEntry call existing uriR = .ok () ∧
          ((foreignCaptureEntry existing call.depositedBy = true ∧
              after = releaseCaptureUri store existing call.depositedBy ∧ found = none) ∨
            (foreignCaptureEntry existing call.depositedBy = false ∧ after = store ∧
              found = some existing))) := by
  unfold matchByUri at h
  cases huri : call.uriR.filter (· ≠ "") with
  | none =>
      simp only [huri, Except.ok.injEq, Prod.mk.injEq] at h
      refine Or.inl ⟨fun uriR hcall => ?_, h.1.symm, h.2.symm⟩
      rw [hcall, Option.filter_eq_none_iff] at huri
      simpa using huri uriR rfl
  | some uriR =>
      obtain ⟨hcall, hne⟩ := Option.filter_eq_some_iff.1 huri
      refine Or.inr ⟨uriR, by simpa using hne, hcall, ?_⟩
      simp only [huri] at h
      obtain ⟨byUri, hbyUri, h⟩ := bind_eq_ok.1 h
      cases byUri with
      | none =>
          simp only [pure, Except.pure, Except.ok.injEq, Prod.mk.injEq] at h
          exact Or.inl ⟨hbyUri, h.1.symm, h.2.symm⟩
      | some existing =>
          obtain ⟨⟨⟩, hrefuse, h⟩ := bind_eq_ok.1 h
          refine Or.inr ⟨existing, hbyUri, hrefuse, ?_⟩
          cases hcapture : foreignCaptureEntry existing call.depositedBy with
          | true =>
              simp only [hcapture, if_true, pure, Except.pure, Except.ok.injEq,
                Prod.mk.injEq] at h
              exact Or.inl ⟨rfl, h.1.symm, h.2.symm⟩
          | false =>
              simp only [hcapture, Bool.false_eq_true, if_false, pure, Except.pure,
                Except.ok.injEq, Prod.mk.injEq] at h
              exact Or.inr ⟨rfl, h.1.symm, h.2.symm⟩

/-- A deposit onto an entry reuses a record, or appends its own. -/
theorem depositOnto_cases (h : depositOnto env store call existing = .ok (after, result)) :
    (after = reconcileProjectKeys env store existing call.tags ∧
      ∃ reused, unchangedSnapshotId after existing call.contentHash call.sourceType
        call.explicitDate = some reused ∧ result = ⟨existing.entryId, reused, true⟩) ∨
    (unchangedSnapshotId (reconcileProjectKeys env store existing call.tags) existing
        call.contentHash call.sourceType call.explicitDate = none ∧
      result = ⟨existing.entryId, call.newSnapshotId, false⟩ ∧
      ∃ recorded, addRecord (reconcileProjectKeys env store existing call.tags)
          (call.snapRow existing.entryId) = .ok recorded ∧
        after = stampRelation env (retype recorded existing call) existing.entryId call) := by
  unfold depositOnto at h
  cases hreused : unchangedSnapshotId (reconcileProjectKeys env store existing call.tags) existing
      call.contentHash call.sourceType call.explicitDate with
  | some reused =>
      simp only [hreused, Except.ok.injEq, Prod.mk.injEq] at h
      obtain ⟨rfl, rfl⟩ := h
      exact Or.inl ⟨rfl, reused, hreused, rfl⟩
  | none =>
      simp only [hreused] at h
      obtain ⟨recorded, hrecorded, h⟩ := bind_eq_ok.1 h
      simp only [pure, Except.pure, Except.ok.injEq, Prod.mk.injEq] at h
      exact Or.inr ⟨rfl, h.2.symm, recorded, hrecorded, h.1.symm⟩

/-- A deposit of a new source adds its entry, and then its record. -/
theorem depositNew_eq_ok (h : depositNew env store call = .ok (after, result)) :
    result = ⟨call.newEntryId, call.newSnapshotId, false⟩ ∧
    ∃ entered recorded, addEntry store call.entryRow = .ok entered ∧
      addRecord entered (call.snapRow call.newEntryId) = .ok recorded ∧
      after = stampRelation env recorded call.newEntryId call := by
  unfold depositNew at h
  obtain ⟨entered, hentered, h⟩ := bind_eq_ok.1 h
  obtain ⟨recorded, hrecorded, h⟩ := bind_eq_ok.1 h
  simp only [pure, Except.pure, Except.ok.injEq, Prod.mk.injEq] at h
  exact ⟨h.2.symm, entered, recorded, hentered, hrecorded, h.1.symm⟩

/-- A deposit goes onto the entry of its URI, onto the entry of its hash when its URI names none, or
into a new entry. -/
theorem writeEntryAndSnapshot_cases
    (h : writeEntryAndSnapshot env store call = .ok (after, result)) :
    ∃ byUri found, matchByUri store call = .ok (byUri, found) ∧
      ((∃ existing, found = some existing ∧
          depositOnto env byUri call existing = .ok (after, result)) ∨
        (found = none ∧ ∃ existing, matchByHash env byUri call = some existing ∧
          depositOnto env byUri call existing = .ok (after, result)) ∨
        (found = none ∧ matchByHash env byUri call = none ∧
          depositNew env byUri call = .ok (after, result))) := by
  unfold writeEntryAndSnapshot findExisting at h
  obtain ⟨⟨matched, existing⟩, hfind, h⟩ := bind_eq_ok.1 h
  obtain ⟨⟨byUri, found⟩, huri, hreturn⟩ := bind_eq_ok.1 hfind
  simp only [pure, Except.pure, Except.ok.injEq, Prod.mk.injEq] at hreturn
  obtain ⟨rfl, rfl⟩ := hreturn
  refine ⟨byUri, found, huri, ?_⟩
  cases found with
  | some existing => exact Or.inl ⟨existing, rfl, h⟩
  | none =>
      rw [Option.orElse_none] at h
      cases hhash : matchByHash env byUri call with
      | some existing =>
          rw [hhash] at h
          exact Or.inr (Or.inl ⟨rfl, existing, rfl, h⟩)
      | none =>
          rw [hhash] at h
          exact Or.inr (Or.inr ⟨rfl, rfl, h⟩)

/-- A versioned deposit that writes has written what `write_entry_and_snapshot` writes. -/
theorem writeVersioned_eq_ok :
    writeVersioned env store call = .ok (after, result) ↔
      ∃ written, writeEntryAndSnapshot env store call = .ok (after, written) ∧
        result = ⟨written.entryId, written.snapshotId, false⟩ := by
  unfold writeVersioned
  constructor
  · intro h
    obtain ⟨⟨written, found⟩, hwrite, hreturn⟩ := bind_eq_ok.1 h
    obtain ⟨rfl, rfl⟩ := Prod.mk.inj (Except.ok.inj hreturn)
    exact ⟨found, hwrite, rfl⟩
  · rintro ⟨written, hwrite, rfl⟩
    exact bind_eq_ok.2 ⟨(after, written), hwrite, rfl⟩

/-- A versioned deposit writes a new entry, writes after a capture gave up the URI, reuses a record of
the entry it reconciled, or writes onto what it reconciled. -/
theorem depositTextVersioned_cases {policy : Option FetchPolicy} {uriR : String}
    (h : depositTextVersioned env store call policy uriR = .ok (after, result)) :
    (store.getEntryByUri uriR = .ok none ∧
      writeVersioned env store (call.versioned policy uriR) = .ok (after, result)) ∨
    ∃ existing, store.getEntryByUri uriR = .ok (some existing) ∧
      refuseForeignEntry (call.versioned policy uriR) existing uriR = .ok () ∧
      ((foreignCaptureEntry existing call.depositedBy = true ∧
          writeVersioned env (releaseCaptureUri store existing call.depositedBy)
            (call.versioned policy uriR) = .ok (after, result)) ∨
        (foreignCaptureEntry existing call.depositedBy = false ∧
          ∃ reused, reconcileVersioned env store (call.versioned policy uriR) policy existing =
              (after, some reused) ∧ result = ⟨existing.entryId, reused, true⟩) ∨
        (foreignCaptureEntry existing call.depositedBy = false ∧
          ∃ reconciled, reconcileVersioned env store (call.versioned policy uriR) policy existing =
              (reconciled, none) ∧
            writeVersioned env reconciled (call.versioned policy uriR) =
              .ok (after, result))) := by
  unfold depositTextVersioned at h
  obtain ⟨found, hfound, h⟩ := bind_eq_ok.1 h
  cases found with
  | none => exact Or.inl ⟨hfound, h⟩
  | some existing =>
      obtain ⟨⟨⟩, hrefuse, h⟩ := bind_eq_ok.1 h
      refine Or.inr ⟨existing, hfound, hrefuse, ?_⟩
      change (if foreignCaptureEntry existing call.depositedBy then _ else _) = _ at h
      cases hcapture : foreignCaptureEntry existing call.depositedBy with
      | true =>
          rw [hcapture, if_pos rfl] at h
          exact Or.inl ⟨rfl, h⟩
      | false =>
          rw [hcapture, if_neg Bool.false_ne_true] at h
          cases hreconcile : reconcileVersioned env store (call.versioned policy uriR) policy
              existing with
          | mk reconciled reused =>
              rw [hreconcile] at h
              cases reused with
              | some reused =>
                  simp only [pure, Except.pure, Except.ok.injEq, Prod.mk.injEq] at h
                  obtain ⟨rfl, rfl⟩ := h
                  exact Or.inr (Or.inl ⟨rfl, reused, rfl, rfl⟩)
              | none => exact Or.inr (Or.inr ⟨rfl, reconciled, rfl, h⟩)

end Reads

end Deposits

end ParticlesEngine
