/-
**Depositing a source again.**

A source is deposited again and again: a rule file at every session, a page at every import.  The same
bytes under the same identity should add nothing, so that no extraction work is queued.  Whether they
do depends on what the first deposit found, and on what the second one then finds.

Main definitions:

* `ScopeLaws` — what project keys, and a query with a limit of one, do as an entry and a table grow;
* `DepositCall.again` — the same deposit, later;
* `Settles` — the deposits that a repeat finds again.

Main results:

* `depositOnto_spec` — what a deposit onto an entry does;
* `redeposit_iff` — **a repeat returns the ids of the first deposit and writes nothing exactly when the
  first one settles**: it does not when a confined deposit names another's type for its own entry, nor
  when the hash of its bytes finds an entry that it may not join and it names no URI.
-/

import ParticlesEngine.DepositConfinement
import ParticlesEngine.DepositIdentity

set_option relaxedAutoImplicit false
set_option autoImplicit false

open SortBy

namespace ParticlesEngine

namespace Deposits

/-- What project keys, and a query with a limit of one, do as an entry and a table grow: tags are read
one by one, a key gives its tag, a keyed entry is not global, and a query that returned a row returns
it again after rows were appended. -/
structure ScopeLaws (env : DepositEnv) : Prop where
  keys_append : ∀ key tags tags', key ∈ env.projectKeys (tags ++ tags') ↔
    key ∈ env.projectKeys tags ∨ key ∈ env.projectKeys tags'
  keys_tag : ∀ key, key ∈ env.projectKeys [env.projectTag key]
  keyed : ∀ tags, env.projectKeys tags ≠ [] → env.classifyEntry tags ≠ .GLOBAL
  limitOne_append : ∀ rows more row, env.limitOne rows = some row →
    env.limitOne (rows ++ more) = some row
  limitOne_isSome : ∀ rows, rows ≠ [] → (env.limitOne rows).isSome

/-- The same deposit, later and with other ids drawn. -/
def DepositCall.again (call : DepositCall) (startedAt now : Instant)
    (newEntryId newSnapshotId : String) : DepositCall :=
  { call with startedAt, now, newEntryId, newSnapshotId }

variable (env : DepositEnv)

/-- The rows that the hash of a deposit's bytes may find. -/
def hashRows (store : CorpusStore) (call : DepositCall) : List RecordRow :=
  if call.ownOnly then
    store.snapshots.rows.filter fun row =>
      row.contentHash = call.contentHash && row.warcRecordType = .RESPONSE &&
        store.isOwn env call.depositedBy call.tags row.entryId
  else
    store.snapshots.rows.filter fun row =>
      row.contentHash = call.contentHash && row.warcRecordType = .RESPONSE

/-- What a repeat needs, of the entry that the URI of a deposit found.  An entry found keeps or takes the
deposit's type; otherwise the deposit names a URI, or the hash of its bytes found an entry, or it
looked for one and no record had the hash. -/
def SettlesAt (matched : CorpusStore) (call : DepositCall) : Option EntryRow → Prop
  | some existing => existing.sourceType = call.sourceType ∨ call.ownOnly = false
  | none => (∃ uriR, uriR ≠ "" ∧ call.uriR = some uriR) ∨ (matchByHash env matched call).isSome ∨
      (identifiedByUriAlone env call = false ∧ hashRows env matched call = [])

/-- **The deposits that a repeat finds again.** -/
def Settles (store : CorpusStore) (call : DepositCall) : Prop :=
  ∃ matched found, matchByUri store call = .ok (matched, found) ∧ SettlesAt env matched call found

/-! ### The entry that a deposit is made onto -/

section Onto

variable {env} {store after : CorpusStore} {existing : EntryRow} {call : DepositCall}

/-- The keys of a deposit change nothing of the entry. -/
def KeysSettled (env : DepositEnv) (tags : List String) (row : EntryRow) : Prop :=
  env.projectKeys tags = [] ∨ env.classifyEntry row.tags = .GLOBAL ∨
    ∀ key ∈ env.projectKeys tags, key ∈ env.projectKeys row.tags

theorem modifyEntry_self (entryId : String) (f : EntryRow → EntryRow) (hf : ∀ row, (f row).id = row.id)
    (hsame : ∀ row, f row = row) : store.modifyEntry entryId f hf = store := by
  have hrows : (store.entries.modify entryId f hf) = store.entries := by
    refine Table.ext ?_
    have hmap : (store.entries.rows.map fun row => if row.id = entryId then f row else row) =
        store.entries.rows := by
      conv_rhs => rw [← List.map_id store.entries.rows]
      refine List.map_congr_left fun row _ => ?_
      split_ifs
      · exact hsame row
      · rfl
    exact hmap
  unfold CorpusStore.modifyEntry
  rw [hrows]

theorem reconcileProjectKeys_settled {tags : List String} (h : KeysSettled env tags existing) :
    reconcileProjectKeys env store existing tags = store := by
  unfold reconcileProjectKeys
  split_ifs with hnone hglobal
  · rfl
  · rfl
  · have hkeys := (h.resolve_left hnone).resolve_left hglobal
    have hmissing : missingKeys env existing tags = [] := by
      have hfilter : (env.projectKeys tags).filter (· ∉ env.projectKeys existing.tags) = [] :=
        List.filter_eq_nil_iff.2 fun key hkey => by simpa using hkeys key hkey
      rw [missingKeys, hfilter]
      rfl
    rw [hmissing]
    refine modifyEntry_self _ _ _ fun row => ?_
    simp

theorem get?_modifyEntry (entryId id : String) (f : EntryRow → EntryRow)
    (hf : ∀ row, (f row).id = row.id) : (store.modifyEntry entryId f hf).entries.get? id =
      if entryId = id then (store.entries.get? id).map f else store.entries.get? id :=
  Table.get?_modify _ _ _ hf _

/-- A key whose tag is among some tags is one of their keys. -/
theorem mem_keys_of_mem (laws : ScopeLaws env) {key : String} {tags : List String}
    (h : env.projectTag key ∈ tags) : key ∈ env.projectKeys tags := by
  obtain ⟨before, behind, rfl⟩ := List.append_of_mem h
  rw [laws.keys_append, ← List.singleton_append, laws.keys_append]
  exact Or.inr (Or.inl (laws.keys_tag key))

/-- The writes of a deposit change, of all entries, the one it is made onto: which then is as it was, up
to some columns. -/
structure SameUpTo (store after : CorpusStore) (existing row : EntryRow) : Prop where
  get : after.entries.get? existing.entryId = some row
  others : ∀ id, id ≠ existing.entryId → after.entries.get? id = store.entries.get? id
  uriR : row.uriR = existing.uriR
  depositedBy : row.depositedBy = existing.depositedBy
  fetchPolicy : row.fetchPolicy = existing.fetchPolicy

theorem SameUpTo.entryId {row : EntryRow} (h : SameUpTo store after existing row) :
    row.entryId = existing.entryId := by
  have hkey : row.id = existing.entryId := Table.key_of_get? h.get
  exact hkey

theorem SameUpTo.modify {row : EntryRow} (h : SameUpTo store after existing row)
    (f : EntryRow → EntryRow) (hf : ∀ row, (f row).id = row.id) (huri : (f row).uriR = row.uriR)
    (hby : (f row).depositedBy = row.depositedBy) (hpolicy : (f row).fetchPolicy = row.fetchPolicy) :
    SameUpTo store (after.modifyEntry existing.entryId f hf) existing (f row) where
  get := by rw [get?_modifyEntry, if_pos rfl, h.get, Option.map_some]
  others := fun id hid => by rw [get?_modifyEntry, if_neg (Ne.symm hid), h.others id hid]
  uriR := huri.trans h.uriR
  depositedBy := hby.trans h.depositedBy
  fetchPolicy := hpolicy.trans h.fetchPolicy

/-- After its keys are added, the keys of a deposit are settled, and the snapshots are as they were. -/
theorem reconcileProjectKeys_spec (laws : ScopeLaws env) (hexisting : existing ∈ store.entries.rows)
    (tags : List String) :
    ∃ row, SameUpTo store (reconcileProjectKeys env store existing tags) existing row ∧
      (reconcileProjectKeys env store existing tags).snapshots = store.snapshots ∧
      row.sourceType = existing.sourceType ∧ KeysSettled env tags row ∧
      (KeysSettled env tags existing → row = existing) ∧
      (¬ KeysSettled env tags existing →
        ∀ key ∈ env.projectKeys tags, key ∈ env.projectKeys row.tags) := by
  have hself : SameUpTo store store existing existing :=
    ⟨Table.get?_key hexisting, fun _ _ => rfl, rfl, rfl, rfl⟩
  by_cases hsettled : KeysSettled env tags existing
  · rw [reconcileProjectKeys_settled hsettled]
    exact ⟨existing, hself, rfl, rfl, hsettled, fun _ => rfl, fun h => absurd hsettled h⟩
  · have hnone : env.projectKeys tags ≠ [] := fun h => hsettled (Or.inl h)
    have hglobal : env.classifyEntry existing.tags ≠ .GLOBAL := fun h => hsettled (Or.inr (Or.inl h))
    have hfold : ∀ (keys : List String) (tagged : CorpusStore),
        (keys.foldl (fun store key => store.record (.keyAssigned existing.entryId key)) tagged).entries =
            tagged.entries ∧
          (keys.foldl (fun store key => store.record (.keyAssigned existing.entryId key))
            tagged).snapshots = tagged.snapshots := by
      intro keys
      induction keys with
      | nil => exact fun tagged => ⟨rfl, rfl⟩
      | cons key keys ih => exact fun tagged => ih _
    unfold reconcileProjectKeys
    rw [if_neg hnone, if_neg hglobal]
    obtain ⟨hentries, hsnapshots⟩ := hfold (missingKeys env existing tags)
      (store.addEntryTags existing.entryId ((missingKeys env existing tags).map env.projectTag))
    have htagged := hself.modify (fun row => { row with
      tags := row.tags ++ (((missingKeys env existing tags).map env.projectTag).eraseDups.filter
        (· ∉ row.tags)) }) (fun _ => rfl) rfl rfl rfl
    have hkeys : ∀ key ∈ env.projectKeys tags, key ∈ env.projectKeys (existing.tags ++
        (((missingKeys env existing tags).map env.projectTag).eraseDups.filter
          (· ∉ existing.tags))) := by
      intro key hkey
      rw [laws.keys_append]
      by_cases hold : key ∈ env.projectKeys existing.tags
      · exact Or.inl hold
      · have hmissing : key ∈ missingKeys env existing tags :=
          mem_sortBy.2 (List.mem_dedup.2 (List.mem_filter.2 ⟨hkey, by simpa using hold⟩))
        refine Or.inr (mem_keys_of_mem laws (List.mem_filter.2 ⟨?_, ?_⟩))
        · exact List.mem_eraseDups.2 (List.mem_map_of_mem hmissing)
        · simp only [decide_eq_true_eq]
          exact fun htag => hold (mem_keys_of_mem laws htag)
    refine ⟨_, ⟨?_, fun id hid => ?_, htagged.uriR, htagged.depositedBy, htagged.fetchPolicy⟩,
      hsnapshots, rfl, Or.inr (Or.inr hkeys), fun h => absurd h hsettled, fun _ => hkeys⟩
    · rw [hentries]
      exact htagged.get
    · rw [hentries]
      exact htagged.others id hid

theorem retype_spec {row : EntryRow} (call : DepositCall) (h : SameUpTo store after existing row)
    (htype : row.sourceType = existing.sourceType) :
    ∃ row', SameUpTo store (retype after existing call) existing row' ∧
      (retype after existing call).snapshots = after.snapshots ∧ row'.tags = row.tags ∧
      row'.sourceType = if call.ownOnly then existing.sourceType else call.sourceType := by
  unfold retype
  split_ifs with hkeep hown hown
  · exact ⟨row, h, rfl, rfl, htype⟩
  · exact ⟨row, h, rfl, rfl, htype.trans (hkeep.resolve_right hown)⟩
  · exact absurd (Or.inr hown) hkeep
  · exact ⟨_, h.modify (fun row => { row with sourceType := call.sourceType }) (fun _ => rfl) rfl rfl rfl,
      rfl, rfl, rfl⟩

theorem stampRelation_spec (env : DepositEnv) {row : EntryRow} (call : DepositCall)
    (h : SameUpTo store after existing row) :
    ∃ row', SameUpTo store (stampRelation env after existing.entryId call) existing row' ∧
      (stampRelation env after existing.entryId call).snapshots = after.snapshots ∧
      row'.tags = row.tags ∧ row'.sourceType = row.sourceType := by
  unfold stampRelation
  cases env.documentRelationForContent call.content with
  | none => exact ⟨row, h, rfl, rfl, rfl⟩
  | some relation =>
      exact ⟨_, h.modify (fun row => { row with documentSupersession := some relation }) (fun _ => rfl)
        rfl rfl rfl, rfl, rfl, rfl⟩

/-- What stands in an entry after a deposit into it: the deposit's keys are settled, and either a record
stood for it already or its own was appended. -/
structure DepositedIn (env : DepositEnv) (store : CorpusStore) (call : DepositCall)
    (after : CorpusStore) (result : DepositResult) (row : EntryRow) : Prop where
  resultId : result.entryId = row.entryId
  settled : KeysSettled env call.tags row
  records :
    (after.snapshots = store.snapshots ∧
      reusedSnapshotId after.snapshots row.entryId call.contentHash call.explicitDate =
        some result.snapshotId) ∨
    (result.snapshotId = call.newSnapshotId ∧
      after.snapshots.rows = store.snapshots.rows ++ [call.snapRow row.entryId])

/-- **What a deposit onto an entry does**: its keys are added, and its type is the entry's unless it is
confined. -/
structure DepositedOnto (env : DepositEnv) (store : CorpusStore) (call : DepositCall)
    (existing : EntryRow) (after : CorpusStore) (result : DepositResult) (row : EntryRow) : Prop
    extends SameUpTo store after existing row, DepositedIn env store call after result row where
  tags : KeysSettled env call.tags existing → row.tags = existing.tags
  keys : ¬ KeysSettled env call.tags existing →
    ∀ key ∈ env.projectKeys call.tags, key ∈ env.projectKeys row.tags
  sourceType : row.sourceType = if call.ownOnly then existing.sourceType else call.sourceType

theorem depositOnto_spec (laws : ScopeLaws env) {result : DepositResult}
    (hexisting : existing ∈ store.entries.rows)
    (h : depositOnto env store call existing = .ok (after, result)) :
    ∃ row, DepositedOnto env store call existing after result row := by
  obtain ⟨row, hrow, hsnapshots, htype, hsettled, hsame, hkeys⟩ :=
    reconcileProjectKeys_spec laws hexisting call.tags
  obtain ⟨rfl, reused, hreused, rfl⟩ | ⟨-, rfl, recorded, hrecorded, rfl⟩ := depositOnto_cases h
  · unfold unchangedSnapshotId at hreused
    split_ifs at hreused with hcall
    have hcall : existing.sourceType = call.sourceType := not_not.1 hcall
    exact ⟨row, hrow, ⟨hrow.entryId.symm, hsettled, Or.inl ⟨hsnapshots, hrow.entryId ▸ hreused⟩⟩,
      fun h => by rw [hsame h], hkeys, by rw [htype, hcall, ite_self]⟩
  · obtain ⟨hadd, hrows, -⟩ := addRecord_eq_ok hrecorded
    -- the record is added, the type may be replaced, and the relation stamped
    have hadded : SameUpTo store recorded existing row := ⟨hadd ▸ hrow.get, hadd ▸ hrow.others,
      hrow.uriR, hrow.depositedBy, hrow.fetchPolicy⟩
    obtain ⟨typed, htyped, hsnaps, htags, htypes⟩ := retype_spec call hadded htype
    obtain ⟨stamped, hstamped, hsnaps', htags', htype'⟩ := stampRelation_spec env call htyped
    refine ⟨stamped, hstamped, ⟨hstamped.entryId.symm, ?_, Or.inr ⟨rfl, ?_⟩⟩, fun h => ?_, ?_,
      htype'.trans htypes⟩
    · rwa [KeysSettled, htags', htags]
    · rw [hsnaps', hsnaps, hrows, hsnapshots, hstamped.entryId]
    · rw [htags', htags, hsame h]
    · rw [htags', htags]
      exact hkeys

/-- The record that a deposit appended is the latest one of its entry, when the clock has moved on. -/
theorem reusedSnapshotId_appended {entryId contentHash : String} {explicitDate : Option Instant}
    {row : RecordRow} {snapshots : Table RecordRow.id}
    (hrows : snapshots.rows = store.snapshots.rows ++ [row]) (hentry : row.entryId = entryId)
    (hlatest : ∀ old ∈ store.recordsOf entryId, old.capturedAt < row.capturedAt)
    (hhash : row.contentHash = contentHash) (hresponse : row.warcRecordType = .RESPONSE)
    (hdate : explicitDate.isSome → row.contentPublishedAt = explicitDate) :
    reusedSnapshotId snapshots entryId contentHash explicitDate = some row.snapshotId := by
  have hmem : row ∈ recordsIn snapshots entryId :=
    List.mem_filter.2 ⟨by rw [hrows]; simp, by simpa using hentry⟩
  have hget : getLatestSnapshot snapshots entryId = some row := by
    unfold getLatestSnapshot
    have hrow : row ∈ sortBy captureOrder (recordsIn snapshots entryId) := mem_sortBy.2 hmem
    have hpairs := pairwise_sortBy captureOrder (recordsIn snapshots entryId)
    have hrecords : ∀ old ∈ sortBy captureOrder (recordsIn snapshots entryId),
        old ∈ recordsIn snapshots entryId := fun old hold => mem_sortBy.1 hold
    cases hsorted : sortBy captureOrder (recordsIn snapshots entryId) with
    | nil =>
        rw [hsorted] at hrow
        cases hrow
    | cons first rest =>
        rw [hsorted] at hrow hpairs hrecords
        rcases List.mem_cons.1 hrow with heq | hrest
        · rw [heq]
          rfl
        · -- the first one sorts before the new record, so it was captured no earlier
          have hle : row.capturedAt ≤ first.capturedAt := by
            have hlex : toLex (row.capturedAt, row.snapshotId) ≤
                toLex (first.capturedAt, first.snapshotId) := List.rel_of_pairwise_cons hpairs hrest
            rcases Prod.Lex.le_iff.1 hlex with hlt | ⟨heq, -⟩
            · exact le_of_lt hlt
            · exact le_of_eq heq
          obtain ⟨hfirstMem, hfirstEntry⟩ := List.mem_filter.1 (hrecords first List.mem_cons_self)
          rw [hrows] at hfirstMem
          rcases List.mem_append.1 hfirstMem with hold | hnew
          · exact absurd (hlatest first (List.mem_filter.2 ⟨hold, hfirstEntry⟩)) (not_lt.2 hle)
          · rw [List.mem_singleton.1 hnew]
            rfl
  unfold reusedSnapshotId
  split
  · next hnone =>
      rw [hget] at hnone
      cases hnone
  · next latest hsome =>
      obtain rfl := Option.some.inj (hget.symm.trans hsome)
      have hholder : holderOf snapshots [] ⟨row, mem_of_getLatestSnapshot hsome⟩ = some row := by
        rw [holderOf]
        simp [hresponse]
      rw [if_neg (not_not.2 hhash), if_neg (by simp [hresponse]), hholder, Option.getD_some,
        if_neg (fun h => h.2 (hdate h.1))]

/-- A date that an operator gave is the same date in a repeat, unless it lay in the future. -/
theorem explicitDate_again {startedAt now : Instant} {newEntryId newSnapshotId : String}
    (hdate : call.contentDateExplicit = true → ∀ date, call.contentPublishedAt = some date →
      date ≤ call.startedAt) (hclock : call.startedAt ≤ startedAt) :
    (call.again startedAt now newEntryId newSnapshotId).explicitDate = call.explicitDate := by
  unfold DepositCall.explicitDate DepositCall.publishedAt DepositCall.again notAfter
  dsimp only
  split_ifs with hexplicit
  · cases hpublished : call.contentPublishedAt with
    | none => rfl
    | some date =>
        have hpast := hdate hexplicit date hpublished
        rw [Option.map_some, Option.map_some, min_eq_left hpast, min_eq_left (hpast.trans hclock)]
  · rfl

/-- **A repeat onto the entry that a deposit was made onto writes nothing exactly when the entry has
the deposit's type.** -/
theorem depositOnto_again {result : DepositResult} {row : EntryRow}
    {startedAt now : Instant} {newEntryId newSnapshotId : String}
    (h : DepositedIn env store call after result row)
    (hresponse : call.warcRecordType = .RESPONSE)
    (hlatest : ∀ old ∈ store.recordsOf result.entryId, old.capturedAt < call.now)
    (hdate : call.contentDateExplicit = true → ∀ date, call.contentPublishedAt = some date →
      date ≤ call.startedAt) (hclock : call.startedAt ≤ startedAt) :
    depositOnto env after (call.again startedAt now newEntryId newSnapshotId) row =
        .ok (after, ⟨result.entryId, result.snapshotId, true⟩) ↔
      row.sourceType = call.sourceType := by
  have hkeys : reconcileProjectKeys env after row (call.again startedAt now newEntryId
      newSnapshotId).tags = after := reconcileProjectKeys_settled h.settled
  have hreuse : unchangedSnapshotId after row
      (call.again startedAt now newEntryId newSnapshotId).contentHash
      (call.again startedAt now newEntryId newSnapshotId).sourceType call.explicitDate =
      unchangedSnapshotId after row call.contentHash call.sourceType call.explicitDate := rfl
  unfold depositOnto
  rw [hkeys, explicitDate_again hdate hclock]
  dsimp only
  rw [hreuse]
  constructor
  · intro hagain
    by_contra hne
    rw [unchangedSnapshotId, if_pos hne] at hagain
    obtain ⟨added, -, hreturn⟩ := bind_eq_ok.1 hagain
    simp [pure, Except.pure] at hreturn
  · intro htype
    have hreused : reusedSnapshotId after.snapshots row.entryId call.contentHash
        call.explicitDate = some result.snapshotId := by
      rcases h.records with ⟨-, hreused⟩ | ⟨hnew, hrows⟩
      · exact hreused
      · rw [hnew]
        refine reusedSnapshotId_appended hrows rfl (h.resultId ▸ hlatest) rfl hresponse fun hgiven => ?_
        unfold DepositCall.explicitDate at hgiven ⊢
        split_ifs at hgiven ⊢ with hexplicit
        · rfl
        · cases hgiven
    rw [unchangedSnapshotId, if_neg (not_not.2 htype), hreused]
    simp only [h.resultId]

end Onto

/-! ### What a repeat finds -/

section Find

variable {env} {store after : CorpusStore} {existing row : EntryRow} {call : DepositCall}

theorem matchByUri_found {matched : CorpusStore}
    (h : matchByUri store call = .ok (matched, some existing)) :
    matched = store ∧ existing ∈ store.entries.rows ∧
      foreignCaptureEntry existing call.depositedBy = false ∧
      ∃ uriR, uriR ≠ "" ∧ call.uriR = some uriR ∧ existing.uriR = some uriR ∧
        refuseForeignEntry call existing uriR = .ok () := by
  -- the entry is found in the last of the cases only
  obtain ⟨-, -, ⟨⟩⟩ | ⟨uriR, hne, hcall, ⟨-, -, ⟨⟩⟩ | ⟨found, hbyUri, hrefuse, hcases⟩⟩ :=
    matchByUri_cases h
  obtain ⟨-, -, ⟨⟩⟩ | ⟨hcapture, rfl, hfound⟩ := hcases
  obtain rfl := Option.some.inj hfound
  obtain ⟨hmem, hheld⟩ := mem_of_getEntryByUri hbyUri
  exact ⟨rfl, hmem, hcapture, uriR, hne, hcall, hheld, hrefuse⟩

/-- A deposit finds the entry that holds its URI, unless it is refused or a capture's. -/
theorem matchByUri_of_entry {uriR : String} (hone : UriNamesOne store) (hrow : row ∈ store.entries.rows)
    (hne : uriR ≠ "") (hcall : call.uriR = some uriR) (hheld : row.uriR = some uriR)
    (hrefuse : refuseForeignEntry call row uriR = .ok ())
    (hcapture : foreignCaptureEntry row call.depositedBy = false) :
    matchByUri store call = .ok (store, some row) := by
  have huri : call.uriR.filter (· ≠ "") = some uriR :=
    Option.filter_eq_some_iff.2 ⟨hcall, by simpa using hne⟩
  unfold matchByUri
  rw [huri]
  dsimp only
  rw [getEntryByUri_of_uriNamesOne hone hne hrow hheld]
  simp only [bind, Except.bind, hrefuse, hcapture, Bool.false_eq_true, if_false]
  rfl

/-- A deposit finds no entry by a URI that no entry holds. -/
theorem matchByUri_of_free
    (hfree : ∀ uriR, uriR ≠ "" → call.uriR = some uriR → UriFree store uriR) :
    matchByUri store call = .ok (store, none) := by
  unfold matchByUri
  cases huri : call.uriR.filter (· ≠ "") with
  | none => rfl
  | some uriR =>
      obtain ⟨hcall, hne⟩ := Option.filter_eq_some_iff.1 huri
      have hnone : (store.entries.rows.filter fun row => row.uriR = some uriR) = [] :=
        List.filter_eq_nil_iff.2 fun row hrow => by
          simpa using hfree uriR (by simpa using hne) hcall row hrow
      simp only [CorpusStore.getEntryByUri, hnone]
      rfl

theorem writeEntryAndSnapshot_of_match {found : Option EntryRow}
    (h : matchByUri store call = .ok (store, found)) :
    writeEntryAndSnapshot env store call =
      match found.orElse fun _ => matchByHash env store call with
      | some existing => depositOnto env store call existing
      | none => depositNew env store call := by
  unfold writeEntryAndSnapshot findExisting
  rw [h]
  rfl

theorem refuseForeignEntry_congr {uriR : String} (hby : row.depositedBy = existing.depositedBy)
    (h : refuseForeignEntry call existing uriR = .ok ()) :
    refuseForeignEntry call row uriR = .ok () := by
  unfold refuseForeignEntry at h ⊢
  rw [hby]
  cases hconfined : call.confinedTo with
  | none => rfl
  | some confinedTo =>
      simp only [hconfined] at h
      split_ifs at h with howned
      exact if_pos howned

/-- The rows that a deposit's hash may find, once rows were appended. -/
theorem hashRows_grown {added : List RecordRow}
    (hrows : after.snapshots.rows = store.snapshots.rows ++ added)
    (hown : ∀ old ∈ store.snapshots.rows,
      after.isOwn env call.depositedBy call.tags old.entryId =
        store.isOwn env call.depositedBy call.tags old.entryId) :
    ∃ more, hashRows env after call = hashRows env store call ++ more ∧ more.Sublist added ∧
      ∀ new ∈ added, new.contentHash = call.contentHash → new.warcRecordType = .RESPONSE →
        (call.ownOnly = true → after.isOwn env call.depositedBy call.tags new.entryId = true) →
        new ∈ more := by
  unfold hashRows
  split_ifs with honly
  · refine ⟨added.filter fun row => row.contentHash = call.contentHash &&
      row.warcRecordType = .RESPONSE && after.isOwn env call.depositedBy call.tags row.entryId, ?_,
      List.filter_sublist, fun new hnew hhash hresponse hisOwn => ?_⟩
    · rw [hrows, List.filter_append]
      congr 1
      refine List.filter_congr fun old hold => ?_
      rw [hown old hold]
    · refine List.mem_filter.2 ⟨hnew, ?_⟩
      simp [hhash, hresponse, hisOwn honly]
  · refine ⟨added.filter fun row => row.contentHash = call.contentHash &&
      row.warcRecordType = .RESPONSE, by rw [hrows, List.filter_append], List.filter_sublist,
      fun new hnew hhash hresponse _ => List.mem_filter.2 ⟨hnew, by simp [hhash, hresponse]⟩⟩

/-- What the hash of a deposit's bytes finds, from the rows that it may find. -/
theorem foundByHash_eq (store : CorpusStore) (call : DepositCall) :
    foundByHash env store call =
      ((env.limitOne (hashRows env store call)).bind fun row => store.entries.get? row.entryId).filter
        fun existing => !call.ownOnly || existing.sourceType = call.sourceType := by
  unfold foundByHash hashRows
  cases honly : call.ownOnly with
  | true => simp [CorpusStore.getOwnEntryByContentHash]
  | false =>
      simp only [CorpusStore.getEntryByContentHash, Bool.not_false, Bool.true_or, Bool.false_eq_true,
        if_false]
      have htrue : ∀ found : Option EntryRow, found.filter (fun _ => true) = found := by
        intro found
        cases found <;> rfl
      exact (htrue _).symm

theorem isOwn_congr {id depositedBy : String} {tags : List String} {row row' : EntryRow}
    (hget : store.entries.get? id = some row) (hget' : after.entries.get? id = some row')
    (hby : row'.depositedBy = row.depositedBy) (htags : row'.tags = row.tags) :
    after.isOwn env depositedBy tags id = store.isOwn env depositedBy tags id := by
  simp only [CorpusStore.isOwn, hget, hget', Option.any_some, hby, htags]

/-- What a deposit of a new source does. -/
theorem depositNew_spec {result : DepositResult}
    (h : depositNew env store call = .ok (after, result)) :
    store.entries.get? call.newEntryId = none ∧
    after.snapshots.rows = store.snapshots.rows ++ [call.snapRow call.newEntryId] ∧
    result = ⟨call.newEntryId, call.newSnapshotId, false⟩ ∧
    (∀ id, id ≠ call.newEntryId → after.entries.get? id = store.entries.get? id) ∧
    ∃ row, after.entries.get? call.newEntryId = some row ∧ row.uriR = call.uriR ∧
      row.depositedBy = call.depositedBy ∧ row.tags = call.tags ∧
      row.sourceType = call.sourceType := by
  obtain ⟨rfl, entered, recorded, hentered, hrecorded, rfl⟩ := depositNew_eq_ok h
  obtain ⟨hentries, hrows, -⟩ := addRecord_eq_ok hrecorded
  unfold addEntry at hentered
  cases hinsert : store.entries.insert? call.entryRow with
  | none => simp [hinsert] at hentered
  | some entries =>
      simp only [hinsert, Except.ok.injEq] at hentered
      subst hentered
      have hget := fun id => Table.get?_insert? hinsert id
      have hentry : SameUpTo recorded recorded call.entryRow call.entryRow := by
        refine ⟨?_, fun _ _ => rfl, rfl, rfl, rfl⟩
        rw [hentries]
        exact (hget _).trans (if_pos rfl)
      obtain ⟨row, hrow, hsnapshots, htags, htype⟩ := stampRelation_spec env call hentry
      refine ⟨(Table.insert?_eq_some.1 hinsert).1, ?_, rfl, fun id hid => ?_, row, hrow.get, hrow.uriR,
        hrow.depositedBy, htags, htype⟩
      · exact (congrArg Table.rows hsnapshots).trans hrows
      · refine (hrow.others id hid).trans ?_
        rw [hentries]
        exact (hget id).trans (if_neg (Ne.symm hid))

/-- The record by which a deposit's hash finds an entry. -/
theorem matchByHash_eq_some : matchByHash env store call = some existing ↔
    identifiedByUriAlone env call = false ∧ mayJoin env call existing = true ∧
      (call.ownOnly = true → existing.sourceType = call.sourceType) ∧
      ∃ found, env.limitOne (hashRows env store call) = some found ∧
        store.entries.get? found.entryId = some existing := by
  unfold matchByHash
  split_ifs with halone
  · simp [halone]
  · rw [Option.filter_eq_some_iff, foundByHash_eq, Option.filter_eq_some_iff,
      Option.bind_eq_some_iff]
    constructor
    · rintro ⟨⟨hfound, htype⟩, hjoin⟩
      refine ⟨Bool.eq_false_iff.2 halone, hjoin, fun honly => ?_, hfound⟩
      simpa [honly] using htype
    · rintro ⟨-, hjoin, htype, hfound⟩
      refine ⟨⟨hfound, ?_⟩, hjoin⟩
      cases honly : call.ownOnly with
      | false => rfl
      | true => simp [htype honly]

/-- An entry that a deposit may join is one that it may join again. -/
theorem mayJoin_again (laws : ScopeLaws env) {result : DepositResult}
    (h : DepositedOnto env store call existing after result row)
    (htype : row.sourceType = call.sourceType) (hjoin : mayJoin env call existing = true) :
    mayJoin env call row = true := by
  unfold mayJoin at hjoin ⊢
  simp only [Bool.and_eq_true, Bool.not_eq_true'] at hjoin ⊢
  obtain ⟨⟨hglobal, hlocal⟩, hcapture⟩ := hjoin
  refine ⟨⟨?_, ?_⟩, ?_⟩
  · unfold keyedDepositOntoGlobalEntry at hglobal ⊢
    rw [Bool.and_eq_false_iff] at hglobal ⊢
    rcases hglobal with hnone | hglobal
    · exact Or.inl hnone
    · by_cases hsettled : KeysSettled env call.tags existing
      · rw [h.tags hsettled]
        exact Or.inr hglobal
      · refine Or.inr (decide_eq_false (laws.keyed _ fun hempty => hsettled (Or.inl ?_)))
        rw [List.eq_nil_iff_forall_not_mem]
        intro key hkey
        have hmem := h.keys hsettled key hkey
        rw [hempty] at hmem
        cases hmem
  · unfold foreignLocalEntry at hlocal ⊢
    rw [h.uriR, h.depositedBy, h.fetchPolicy, htype]
    rw [Bool.and_eq_false_iff] at hlocal ⊢
    refine hlocal.imp_right fun hlocal => ?_
    simp only [Bool.or_eq_false_iff, Bool.and_eq_false_iff] at hlocal ⊢
    exact ⟨hlocal.1, hlocal.2.imp_right fun h => ⟨h.1, by simp⟩⟩
  · unfold foreignCaptureEntry at hcapture ⊢
    rw [h.depositedBy]
    exact hcapture

/-- The rows that a deposit's hash may find stay in front, when the entry keeps its tags. -/
theorem hashRows_again {result : DepositResult}
    (h : DepositedOnto env store call existing after result row)
    (hget : store.entries.get? existing.entryId = some existing)
    (htags : call.ownOnly = true → row.tags = existing.tags) :
    ∃ more, hashRows env after call = hashRows env store call ++ more := by
  have hrows : ∃ added, after.snapshots.rows = store.snapshots.rows ++ added := by
    rcases h.records with ⟨hsame, -⟩ | ⟨-, hrows⟩
    · exact ⟨[], by rw [hsame, List.append_nil]⟩
    · exact ⟨_, hrows⟩
  obtain ⟨added, hadded⟩ := hrows
  by_cases honly : call.ownOnly = true
  · have hown : ∀ old ∈ store.snapshots.rows,
        after.isOwn env call.depositedBy call.tags old.entryId =
          store.isOwn env call.depositedBy call.tags old.entryId := by
      intro old _
      by_cases hold : old.entryId = existing.entryId
      · rw [hold]
        exact isOwn_congr hget h.get h.depositedBy (htags honly)
      · simp only [CorpusStore.isOwn, h.others _ hold]
    obtain ⟨more, hmore, -, -⟩ := hashRows_grown hadded hown
    exact ⟨more, hmore⟩
  · refine ⟨added.filter fun row => row.contentHash = call.contentHash &&
      row.warcRecordType = .RESPONSE, ?_⟩
    rw [hashRows, hashRows, if_neg honly, if_neg honly, hadded, List.filter_append]

/-- An entry that a deposit's hash found and that it may join is found again after the deposit. -/
theorem matchByHash_found_again (laws : ScopeLaws env) {result : DepositResult}
    (hmatch : matchByHash env store call = some existing)
    (h : DepositedOnto env store call existing after result row) :
    matchByHash env after call = some row ∧ row.sourceType = call.sourceType := by
  obtain ⟨halone, hjoin, htypes, found, hlimit, hget⟩ := matchByHash_eq_some.1 hmatch
  have hid : found.entryId = existing.entryId := (Table.key_of_get? hget).symm
  have htype : row.sourceType = call.sourceType := by
    rw [h.sourceType]
    split_ifs with honly
    · exact htypes honly
    · rfl
  -- the entry is one of the depositor's, under the scope of the deposit, so its tags stay
  have htags : call.ownOnly = true → row.tags = existing.tags := by
    intro honly
    refine h.tags (Or.inr (Or.inr ?_))
    have hfilter := env.limitOne_mem hlimit
    rw [hashRows, if_pos honly] at hfilter
    have hown := (List.mem_filter.1 hfilter).2
    simp only [CorpusStore.isOwn, hget, Option.any_some, Bool.and_eq_true, sameKeys,
      List.all_eq_true, decide_eq_true_eq] at hown
    exact hown.2.1.2.2
  obtain ⟨more, hmore⟩ := hashRows_again h (hid ▸ hget) htags
  refine ⟨matchByHash_eq_some.2 ⟨halone, mayJoin_again laws h htype hjoin, fun _ => htype, found,
    ?_, ?_⟩, htype⟩
  · rw [hmore]
    exact laws.limitOne_append _ _ _ hlimit
  · rw [hid]
    exact h.get

/-- A deposit made onto an entry leaves a URI that no entry held free. -/
theorem uriFree_after {uriR : String} (hget : store.entries.get? existing.entryId = some existing)
    (h : SameUpTo store after existing row) (hfree : UriFree store uriR) : UriFree after uriR := by
  intro entry hentry huri
  by_cases hid : entry.entryId = existing.entryId
  · have hsome : after.entries.get? existing.entryId = some entry := by
      rw [← hid]
      exact Table.get?_key hentry
    obtain rfl := Option.some.inj (hsome.symm.trans h.get)
    exact hfree existing (Table.mem_of_get? hget) (h.uriR ▸ huri)
  · have hsome : store.entries.get? entry.entryId = some entry := by
      rw [← h.others _ hid]
      exact Table.get?_key hentry
    exact hfree entry (Table.mem_of_get? hsome) huri

/-- After a new source was deposited, the rows that its hash may find are those of before, and its own
record. -/
theorem hashRows_new {result : DepositResult} (h : depositNew env store call = .ok (after, result))
    (hresponse : call.warcRecordType = .RESPONSE)
    (hfresh : ∀ old ∈ store.snapshots.rows, old.entryId ≠ call.newEntryId) :
    hashRows env after call = hashRows env store call ++ [call.snapRow call.newEntryId] := by
  obtain ⟨-, hrows, -, hothers, row, hrow, -, hby, htags, -⟩ := depositNew_spec h
  have hsame : ∀ old ∈ store.snapshots.rows,
      after.isOwn env call.depositedBy call.tags old.entryId =
        store.isOwn env call.depositedBy call.tags old.entryId := by
    intro old hold
    simp only [CorpusStore.isOwn, hothers _ (hfresh old hold)]
  obtain ⟨more, hmore, hsub, hmem⟩ := hashRows_grown hrows hsame
  have hown : after.isOwn env call.depositedBy call.tags call.newEntryId = true := by
    simp [CorpusStore.isOwn, hrow, hby, htags, sameKeys]
  have hsnap := hmem (call.snapRow call.newEntryId) List.mem_cons_self rfl hresponse fun _ => hown
  rcases List.sublist_singleton.1 hsub with hnil | hone
  · rw [hnil] at hsnap
    cases hsnap
  · rw [hmore, hone]

theorem snapshots_matchByUri {found : Option EntryRow}
    (h : matchByUri store call = .ok (after, found)) : after.snapshots = store.snapshots := by
  obtain ⟨-, rfl, -⟩ | ⟨uriR, -, -, ⟨-, rfl, -⟩ | ⟨existing, -, -, ⟨-, rfl, -⟩ | ⟨-, rfl, -⟩⟩⟩ :=
    matchByUri_cases h
  · rfl
  · rfl
  · unfold releaseCaptureUri
    cases store.entries.get? existing.entryId <;> rfl
  · rfl

/-! ### The repeat -/

variable {result : DepositResult} {startedAt now : Instant} {newEntryId newSnapshotId : String}

/-- The repeat of a deposit that found its entry by its URI. -/
theorem again_found (laws : ScopeLaws env) (hone : UriNamesOne after)
    (huri : matchByUri store call = .ok (store, some existing))
    (hwrite : depositOnto env store call existing = .ok (after, result))
    (hresponse : call.warcRecordType = .RESPONSE)
    (hlatest : ∀ old ∈ store.recordsOf result.entryId, old.capturedAt < call.now)
    (hdate : call.contentDateExplicit = true → ∀ date, call.contentPublishedAt = some date →
      date ≤ call.startedAt) (hclock : call.startedAt ≤ startedAt) :
    writeEntryAndSnapshot env after (call.again startedAt now newEntryId newSnapshotId) =
        .ok (after, ⟨result.entryId, result.snapshotId, true⟩) ↔
      existing.sourceType = call.sourceType ∨ call.ownOnly = false := by
  obtain ⟨-, hmem, hcapture, uriR, hne, hcall, hheld, hrefuse⟩ := matchByUri_found huri
  obtain ⟨row, h⟩ := depositOnto_spec laws hmem hwrite
  have hcapture' : foreignCaptureEntry row call.depositedBy = false := by
    rw [foreignCaptureEntry, h.depositedBy]
    exact hcapture
  have hagain : matchByUri after (call.again startedAt now newEntryId newSnapshotId) =
      .ok (after, some row) :=
    matchByUri_of_entry hone (Table.mem_of_get? h.get) hne hcall (h.uriR.trans hheld)
      (refuseForeignEntry_congr h.depositedBy hrefuse) hcapture'
  have htype : row.sourceType = call.sourceType ↔
      existing.sourceType = call.sourceType ∨ call.ownOnly = false := by
    rw [h.sourceType]
    cases call.ownOnly <;> simp
  rw [writeEntryAndSnapshot_of_match hagain, ← htype]
  exact depositOnto_again h.toDepositedIn hresponse hlatest hdate hclock

/-- The repeat of a deposit that found its entry by the hash of its bytes. -/
theorem again_hashed (laws : ScopeLaws env)
    (hfree : ∀ uriR, uriR ≠ "" → call.uriR = some uriR → UriFree store uriR)
    (hhash : matchByHash env store call = some existing)
    (hwrite : depositOnto env store call existing = .ok (after, result))
    (hresponse : call.warcRecordType = .RESPONSE)
    (hlatest : ∀ old ∈ store.recordsOf result.entryId, old.capturedAt < call.now)
    (hdate : call.contentDateExplicit = true → ∀ date, call.contentPublishedAt = some date →
      date ≤ call.startedAt) (hclock : call.startedAt ≤ startedAt) :
    writeEntryAndSnapshot env after (call.again startedAt now newEntryId newSnapshotId) =
      .ok (after, ⟨result.entryId, result.snapshotId, true⟩) := by
  have hget : store.entries.get? existing.entryId = some existing := by
    obtain ⟨-, -, -, found, -, hget⟩ := matchByHash_eq_some.1 hhash
    exact Table.get?_key (Table.mem_of_get? hget)
  obtain ⟨row, h⟩ := depositOnto_spec laws (Table.mem_of_get? hget) hwrite
  obtain ⟨hmatch, htype⟩ := matchByHash_found_again laws hhash h
  have hagain : matchByUri after (call.again startedAt now newEntryId newSnapshotId) =
      .ok (after, none) :=
    matchByUri_of_free fun uriR hne hcall => uriFree_after hget h.toSameUpTo (hfree uriR hne hcall)
  have hmatch' : matchByHash env after (call.again startedAt now newEntryId newSnapshotId) =
      some row := hmatch
  rw [writeEntryAndSnapshot_of_match hagain, Option.orElse_none, hmatch']
  exact (depositOnto_again h.toDepositedIn hresponse hlatest hdate hclock).2 htype

/-- A new source that names no URI, and that no record had the hash of, is found by its hash. -/
theorem matchByHash_new (laws : ScopeLaws env)
    (hlooked : identifiedByUriAlone env call = false ∧ hashRows env store call = [])
    (hnamed : ¬ ∃ uriR, uriR ≠ "" ∧ call.uriR = some uriR)
    (hwrite : depositNew env store call = .ok (after, result))
    (hresponse : call.warcRecordType = .RESPONSE)
    (hfresh : ∀ old ∈ store.snapshots.rows, old.entryId ≠ call.newEntryId)
    (hrow : after.entries.get? call.newEntryId = some row) (huri : row.uriR = call.uriR)
    (hby : row.depositedBy = call.depositedBy) (htags : row.tags = call.tags)
    (htype : row.sourceType = call.sourceType) : matchByHash env after call = some row := by
  have hrows : hashRows env after call = [call.snapRow call.newEntryId] := by
    rw [hashRows_new hwrite hresponse hfresh, hlooked.2, List.nil_append]
  have hlimit : env.limitOne [call.snapRow call.newEntryId] = some (call.snapRow call.newEntryId) := by
    obtain ⟨found, hfound⟩ := Option.isSome_iff_exists.1
      (laws.limitOne_isSome [call.snapRow call.newEntryId] (List.cons_ne_nil _ _))
    rw [hfound, List.mem_singleton.1 (env.limitOne_mem hfound)]
  refine matchByHash_eq_some.2 ⟨hlooked.1, ?_, fun _ => htype, _, hrows ▸ hlimit, hrow⟩
  unfold mayJoin
  simp only [Bool.and_eq_true, Bool.not_eq_true']
  refine ⟨⟨?_, ?_⟩, by simp [foreignCaptureEntry, hby]⟩
  · unfold keyedDepositOntoGlobalEntry
    rw [htags, Bool.and_eq_false_iff]
    by_cases hkeys : env.projectKeys call.tags = []
    · exact Or.inl (by simp [hkeys])
    · exact Or.inr (decide_eq_false (laws.keyed _ hkeys))
  · have hempty : row.uriR.getD "" = "" := by
      rw [huri]
      cases hcall : call.uriR with
      | none => rfl
      | some uriR =>
          by_contra hne
          exact hnamed ⟨uriR, hne, hcall⟩
    unfold foreignLocalEntry
    rw [hempty, Bool.and_eq_false_iff]
    exact Or.inl (by decide)

/-- A new source that did not look for its hash, or was turned away from what it found, finds nothing
the next time either. -/
theorem matchByHash_rejected (laws : ScopeLaws env)
    (hlooked : ¬ (identifiedByUriAlone env call = false ∧ hashRows env store call = []))
    (hhash : matchByHash env store call = none)
    (hwrite : depositNew env store call = .ok (after, result))
    (hresponse : call.warcRecordType = .RESPONSE)
    (hfresh : ∀ old ∈ store.snapshots.rows, old.entryId ≠ call.newEntryId) :
    matchByHash env after call = none := by
  unfold matchByHash at hhash ⊢
  split_ifs at hhash ⊢ with halone
  · rfl
  · have hsome : hashRows env store call ≠ [] := fun h => hlooked ⟨by simpa using halone, h⟩
    obtain ⟨found, hfound⟩ := Option.isSome_iff_exists.1 (laws.limitOne_isSome _ hsome)
    have hold : found ∈ store.snapshots.rows := by
      have hmem := env.limitOne_mem hfound
      unfold hashRows at hmem
      split_ifs at hmem
      · exact (List.mem_filter.1 hmem).1
      · exact (List.mem_filter.1 hmem).1
    have hothers := (depositNew_spec hwrite).2.2.2.1
    rw [foundByHash_eq, hashRows_new hwrite hresponse hfresh, laws.limitOne_append _ _ _ hfound,
      Option.bind_some, hothers _ (hfresh found hold)]
    rw [foundByHash_eq, hfound, Option.bind_some] at hhash
    exact hhash

/-- The repeat of a deposit that made an entry. -/
theorem again_new (laws : ScopeLaws env) (hone : UriNamesOne after)
    (hhash : matchByHash env store call = none)
    (hwrite : depositNew env store call = .ok (after, result))
    (hresponse : call.warcRecordType = .RESPONSE)
    (hscope : ∀ depositor, call.confinedTo = some depositor → depositor = call.depositedBy)
    (hlatest : ∀ old ∈ store.recordsOf result.entryId, old.capturedAt < call.now)
    (hfresh : ∀ old ∈ store.snapshots.rows, old.entryId ≠ call.newEntryId)
    (hdate : call.contentDateExplicit = true → ∀ date, call.contentPublishedAt = some date →
      date ≤ call.startedAt) (hclock : call.startedAt ≤ startedAt) :
    writeEntryAndSnapshot env after (call.again startedAt now newEntryId newSnapshotId) =
        .ok (after, ⟨result.entryId, result.snapshotId, true⟩) ↔
      (∃ uriR, uriR ≠ "" ∧ call.uriR = some uriR) ∨
        (identifiedByUriAlone env call = false ∧ hashRows env store call = []) := by
  obtain ⟨hnone, hrows, rfl, hothers, row, hrow, huri, hby, htags, htype⟩ := depositNew_spec hwrite
  have hkey : row.id = call.newEntryId := Table.key_of_get? hrow
  have hrowId : row.entryId = call.newEntryId := hkey
  have hin : DepositedIn env store call after ⟨call.newEntryId, call.newSnapshotId, false⟩ row :=
    ⟨hrowId.symm, Or.inr (Or.inr (by rw [htags]; exact fun _ hkey => hkey)),
      Or.inr ⟨rfl, hrowId ▸ hrows⟩⟩
  have honto : depositOnto env after (call.again startedAt now newEntryId newSnapshotId) row =
      .ok (after, ⟨call.newEntryId, call.newSnapshotId, true⟩) :=
    (depositOnto_again hin hresponse hlatest hdate hclock).2 htype
  have hcapture : foreignCaptureEntry row call.depositedBy = false := by
    simp [foreignCaptureEntry, hby]
  by_cases hnamed : ∃ uriR, uriR ≠ "" ∧ call.uriR = some uriR
  · -- the repeat finds the entry by its URI
    obtain ⟨uriR, hne, hcall⟩ := hnamed
    have hrefuse : refuseForeignEntry call row uriR = .ok () := by
      unfold refuseForeignEntry
      cases hconfined : call.confinedTo with
      | none => rfl
      | some confinedTo =>
          refine if_pos ?_
          rw [hscope confinedTo hconfined, hby]
          exact ownedBy_self call.depositedBy
    have hagain : matchByUri after (call.again startedAt now newEntryId newSnapshotId) =
        .ok (after, some row) :=
      matchByUri_of_entry hone (Table.mem_of_get? hrow) hne hcall (huri.trans hcall) hrefuse hcapture
    rw [writeEntryAndSnapshot_of_match hagain]
    exact ⟨fun _ => Or.inl ⟨uriR, hne, hcall⟩, fun _ => honto⟩
  · have hagain : matchByUri after (call.again startedAt now newEntryId newSnapshotId) =
        .ok (after, none) :=
      matchByUri_of_free fun uriR hne hcall => absurd ⟨uriR, hne, hcall⟩ hnamed
    rw [writeEntryAndSnapshot_of_match hagain, Option.orElse_none]
    by_cases hlooked : identifiedByUriAlone env call = false ∧ hashRows env store call = []
    · -- the repeat finds the entry by its hash, since only the entry's record has it
      have hmatch := matchByHash_new laws hlooked hnamed hwrite hresponse hfresh hrow huri hby htags htype
      have hmatch' : matchByHash env after (call.again startedAt now newEntryId newSnapshotId) =
          some row := hmatch
      rw [hmatch']
      exact ⟨fun _ => Or.inr hlooked, fun _ => honto⟩
    · have hmatch := matchByHash_rejected laws hlooked hhash hwrite hresponse hfresh
      have hmatch' : matchByHash env after (call.again startedAt now newEntryId newSnapshotId) =
          none := hmatch
      rw [hmatch']
      refine ⟨fun hrepeat => ?_, fun hsettles => absurd hsettles ?_⟩
      · have hresult := (depositNew_spec hrepeat).2.2.1
        cases hresult
      · rintro (h | h)
        · exact hnamed h
        · exact hlooked h

end Find

/-- **A repeat of a deposit returns the ids of the first one and writes nothing exactly when the first
one settles.**  The clock has moved on past the records of the entry, the date that an operator gave
does not lie in the future, and the entry id that was drawn is new. -/
theorem redeposit_iff (laws : ScopeLaws env) {store after : CorpusStore} {call : DepositCall}
    {result : DepositResult} (hone : UriNamesOne store) (hresponse : call.warcRecordType = .RESPONSE)
    (hscope : ∀ depositor, call.confinedTo = some depositor → depositor = call.depositedBy)
    (h : writeEntryAndSnapshot env store call = .ok (after, result))
    (hlatest : ∀ old ∈ store.recordsOf result.entryId, old.capturedAt < call.now)
    (hfresh : ∀ old ∈ store.snapshots.rows, old.entryId ≠ call.newEntryId)
    (hdate : call.contentDateExplicit = true → ∀ date, call.contentPublishedAt = some date →
      date ≤ call.startedAt)
    {startedAt : Instant} (hclock : call.startedAt ≤ startedAt) (now : Instant)
    (newEntryId newSnapshotId : String) :
    writeEntryAndSnapshot env after (call.again startedAt now newEntryId newSnapshotId) =
        .ok (after, ⟨result.entryId, result.snapshotId, true⟩) ↔
      Settles env store call := by
  have hafter : UriNamesOne after := (keeps_writeEntryAndSnapshot h).uris hone
  obtain ⟨byUri, found, huri, hcases⟩ := writeEntryAndSnapshot_cases h
  have hsettles : Settles env store call ↔ SettlesAt env byUri call found := by
    constructor
    · rintro ⟨matched, found', hmatched, hcase⟩
      obtain ⟨rfl, rfl⟩ := Prod.mk.inj (Except.ok.inj (huri.symm.trans hmatched))
      exact hcase
    · exact fun hcase => ⟨byUri, found, huri, hcase⟩
  have hlatest' : ∀ old ∈ byUri.recordsOf result.entryId, old.capturedAt < call.now := by
    rw [CorpusStore.recordsOf, snapshots_matchByUri huri]
    exact hlatest
  rw [hsettles]
  rcases hcases with ⟨existing, rfl, hwrite⟩ | ⟨rfl, existing, hhash, hwrite⟩ | ⟨rfl, hhash, hwrite⟩
  · obtain ⟨rfl, -⟩ := matchByUri_found huri
    exact again_found laws hafter huri hwrite hresponse hlatest hdate hclock
  · have hfree := (keeps_matchByUri huri).2 rfl
    exact ⟨fun _ => Or.inr (Or.inl (by rw [hhash]; rfl)),
      fun _ => again_hashed laws hfree hhash hwrite hresponse hlatest' hdate hclock⟩
  · rw [again_new laws hafter hhash hwrite hresponse hscope hlatest'
      (by rw [snapshots_matchByUri huri]; exact hfresh) hdate hclock]
    simp only [SettlesAt, hhash, Option.isSome_none, Bool.false_eq_true, false_or]

theorem projectKeyOf_tag (key : String) : projectKeyOf ("project:" ++ key) = some key := by
  unfold projectKeyOf
  rw [String.toList_append, if_pos (List.prefix_append _ _), List.drop_left' (by rfl),
    String.ofList_toList]

theorem scopeLaws_plainDeposits : ScopeLaws plainDeposits where
  keys_append := by simp [plainDeposits, projectKeysOf]
  keys_tag := by
    intro key
    have hkey : projectKeyOf ("project:" ++ key) = some key := projectKeyOf_tag key
    change key ∈ [("project:" ++ key)].filterMap projectKeyOf
    rw [List.filterMap_cons_some hkey]
    exact List.mem_cons_self
  keyed := by
    intro tags hkeys
    simp only [plainDeposits] at hkeys ⊢
    simp [hkeys]
  limitOne_append := by
    intro rows more row h
    cases rows with
    | nil => cases h
    | cons first rows => exact h
  limitOne_isSome := by
    intro rows hrows
    cases rows with
    | nil => exact absurd rfl hrows
    | cons first rows => rfl

theorem page_redeposited : ∃ after result,
    writeEntryAndSnapshot plainDeposits {} pageDeposit = .ok (after, result) ∧
    writeEntryAndSnapshot plainDeposits after (pageDeposit.again 3600 3600 "E2" "S2") =
      .ok (after, ⟨result.entryId, result.snapshotId, true⟩) := by
  have hwrite : ∃ after result,
      writeEntryAndSnapshot plainDeposits {} pageDeposit = .ok (after, result) := ⟨_, _, rfl⟩
  obtain ⟨after, result, hwrite⟩ := hwrite
  refine ⟨after, result, hwrite, (redeposit_iff plainDeposits scopeLaws_plainDeposits ?_ rfl ?_ hwrite ?_
    ?_ ?_ ?_ 3600 "E2" "S2").2 ?_⟩
  · intro row hrow
    cases hrow
  · intro depositor h
    cases h
  · intro old hold
    cases hold
  · intro old hold
    cases hold
  · intro h
    cases h
  · decide
  · exact ⟨{}, none, rfl, Or.inl ⟨_, by decide, rfl⟩⟩

end Deposits

end ParticlesEngine
