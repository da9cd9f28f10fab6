/-
**Confined deposits.**

An agent's key deposits under a scope that confines it to the entries of one depositor, whatever path
the deposit takes and whatever arguments the agent chose.  A write is tracked by the depositor of the
entry that it names.

Main definitions:

* `Spares` — only entries by the depositors that pass a test are written;
* `OwnedBy` — the depositors whose entries a confined deposit may write.

Main results:

* `spares_depositStep` — what a confined step leaves as it was;
* `confined_run_spares` — **in any run of deposits confined to one depositor, no entry, record or event
  of another principal is written**.
-/

import ParticlesEngine.Deposits

set_option relaxedAutoImplicit false
set_option autoImplicit false

namespace ParticlesEngine

namespace Deposits

variable (env : DepositEnv)

/-! ### What a deposit writes -/

/-- An entry of the store by a depositor that passes a test. -/
def EntryBy (own : String → Prop) (store : CorpusStore) (entryId : String) : Prop :=
  ∃ row ∈ store.entries.rows, row.entryId = entryId ∧ own row.depositedBy

/-- **Only entries by the depositors that pass a test are written**: every other entry stands as it
was, and what is added names one of theirs. -/
structure Spares (own : String → Prop) (before after : CorpusStore) : Prop where
  kept : ∀ row ∈ before.entries.rows, ¬ own row.depositedBy → row ∈ after.entries.rows
  standing : ∀ row ∈ before.entries.rows, ∃ row' ∈ after.entries.rows,
    row'.entryId = row.entryId ∧ row'.depositedBy = row.depositedBy
  new : ∀ row ∈ after.entries.rows, ¬ own row.depositedBy → row ∈ before.entries.rows
  records : ∃ added, after.snapshots.rows = before.snapshots.rows ++ added ∧
    ∀ row ∈ added, EntryBy own after row.entryId
  events : ∃ added, after.events = before.events ++ added ∧
    ∀ event ∈ added, EntryBy own after event.entryId

section Spares

variable {env} {own : String → Prop} {before middle after store : CorpusStore}

theorem Spares.refl (store : CorpusStore) : Spares own store store where
  kept := fun _ hrow _ => hrow
  standing := fun row hrow => ⟨row, hrow, rfl, rfl⟩
  new := fun _ hrow _ => hrow
  records := ⟨[], by simp, by simp⟩
  events := ⟨[], by simp, by simp⟩

/-- An entry by one of the depositors stands. -/
theorem Spares.entryBy (h : Spares own before after) {entryId : String}
    (hentry : EntryBy own before entryId) : EntryBy own after entryId := by
  obtain ⟨row, hrow, rfl, hown⟩ := hentry
  obtain ⟨row', hrow', hid, hby⟩ := h.standing row hrow
  exact ⟨row', hrow', hid, hby ▸ hown⟩

theorem Spares.trans (h₁ : Spares own before middle) (h₂ : Spares own middle after) :
    Spares own before after where
  kept := fun row hrow hother => h₂.kept row (h₁.kept row hrow hother) hother
  standing := fun row hrow => by
    obtain ⟨row₁, hrow₁, hid₁, hby₁⟩ := h₁.standing row hrow
    obtain ⟨row₂, hrow₂, hid₂, hby₂⟩ := h₂.standing row₁ hrow₁
    exact ⟨row₂, hrow₂, hid₂.trans hid₁, hby₂.trans hby₁⟩
  new := fun row hrow hother => h₁.new row (h₂.new row hrow hother) hother
  records := by
    obtain ⟨added₁, hadded₁, hown₁⟩ := h₁.records
    obtain ⟨added₂, hadded₂, hown₂⟩ := h₂.records
    refine ⟨added₁ ++ added₂, by rw [hadded₂, hadded₁, List.append_assoc], fun row hrow => ?_⟩
    rcases List.mem_append.1 hrow with hrow | hrow
    · exact h₂.entryBy (hown₁ row hrow)
    · exact hown₂ row hrow
  events := by
    obtain ⟨added₁, hadded₁, hown₁⟩ := h₁.events
    obtain ⟨added₂, hadded₂, hown₂⟩ := h₂.events
    refine ⟨added₁ ++ added₂, by rw [hadded₂, hadded₁, List.append_assoc], fun event hevent => ?_⟩
    rcases List.mem_append.1 hevent with hevent | hevent
    · exact h₂.entryBy (hown₁ event hevent)
    · exact hown₂ event hevent

/-- An update of one of the depositors' entries. -/
theorem spares_modifyEntry {entryId : String} (hentry : EntryBy own store entryId)
    {f : EntryRow → EntryRow} {hf : ∀ row, (f row).id = row.id}
    (hby : ∀ row, (f row).depositedBy = row.depositedBy) :
    Spares own store (store.modifyEntry entryId f hf) := by
  obtain ⟨entry, hentry, rfl, hown⟩ := hentry
  -- the row with the id is the one entry that is updated
  have hsame : ∀ row ∈ store.entries.rows, row.id = entry.entryId → row = entry :=
    fun row hrow hid => Table.eq_of_key_eq hrow hentry hid
  refine ⟨fun row hrow hother => ?_, fun row hrow => ?_, fun row hrow hother => ?_,
    ⟨[], (List.append_nil _).symm, by simp⟩, ⟨[], (List.append_nil _).symm, by simp⟩⟩
  · have hne : row.id ≠ entry.entryId := fun hid => hother (hsame row hrow hid ▸ hown)
    exact (mem_modifyEntry _ f hf row).2 ⟨row, hrow, if_neg hne⟩
  · by_cases hid : row.id = entry.entryId
    · exact ⟨f row, (mem_modifyEntry _ f hf _).2 ⟨row, hrow, if_pos hid⟩, hf row, hby row⟩
    · exact ⟨row, (mem_modifyEntry _ f hf _).2 ⟨row, hrow, if_neg hid⟩, rfl, rfl⟩
  · obtain ⟨row₀, hrow₀, rfl⟩ := (mem_modifyEntry _ f hf row).1 hrow
    by_cases hid : row₀.id = entry.entryId
    · rw [if_pos hid, hby, hsame row₀ hrow₀ hid] at hother
      exact absurd hown hother
    · rw [if_neg hid]
      exact hrow₀

theorem spares_record {event : DepositEvent} (hentry : EntryBy own store event.entryId) :
    Spares own store (store.record event) where
  kept := fun _ hrow _ => hrow
  standing := fun row hrow => ⟨row, hrow, rfl, rfl⟩
  new := fun _ hrow _ => hrow
  records := ⟨[], (List.append_nil _).symm, by simp⟩
  events := ⟨[event], rfl, fun _ hevent => by rwa [List.mem_singleton.1 hevent]⟩

theorem spares_addRecord {row : RecordRow} (hentry : EntryBy own store row.entryId)
    (h : addRecord store row = .ok after) : Spares own store after := by
  obtain ⟨hentries, hrows, hevents⟩ := addRecord_eq_ok h
  refine ⟨fun row' hrow' _ => ?_, fun row' hrow' => ⟨row', ?_, rfl, rfl⟩, fun row' hrow' _ => ?_,
    ⟨[row], hrows, fun row' hrow' => ?_⟩, ⟨[], by simp [hevents], by simp⟩⟩
  · rwa [hentries]
  · rwa [hentries]
  · rwa [← hentries]
  · rwa [List.mem_singleton.1 hrow', EntryBy, hentries]

theorem spares_addEntry {row : EntryRow} (hown : own row.depositedBy)
    (h : addEntry store row = .ok after) : Spares own store after := by
  obtain ⟨-, hrows, hsnapshots, hevents⟩ := addEntry_eq_ok h
  refine ⟨fun row' hrow' _ => ?_, fun row' hrow' => ⟨row', ?_, rfl, rfl⟩, fun row' hrow' hother => ?_,
    ⟨[], by simp [hsnapshots], by simp⟩, ⟨[], by simp [hevents], by simp⟩⟩
  · rw [hrows]
    exact List.mem_append_left _ hrow'
  · rw [hrows]
    exact List.mem_append_left _ hrow'
  · rw [hrows] at hrow'
    rcases List.mem_append.1 hrow' with hrow' | hrow'
    · exact hrow'
    · rw [List.mem_singleton.1 hrow'] at hother
      exact absurd hown hother

theorem spares_addEntryTags {entryId : String} (hentry : EntryBy own store entryId)
    (newTags : List String) : Spares own store (store.addEntryTags entryId newTags) :=
  spares_modifyEntry hentry fun _ => rfl

theorem spares_reconcileProjectKeys {existing : EntryRow} (hentry : EntryBy own store existing.entryId)
    (tags : List String) : Spares own store (reconcileProjectKeys env store existing tags) := by
  unfold reconcileProjectKeys
  split_ifs
  · exact Spares.refl store
  · exact Spares.refl store
  · have htags := spares_addEntryTags hentry ((missingKeys env existing tags).map env.projectTag)
    -- one event for each of the keys, all of them naming the entry
    generalize store.addEntryTags existing.entryId _ = tagged at htags ⊢
    induction missingKeys env existing tags generalizing tagged with
    | nil => exact htags
    | cons key keys ih => exact ih _ (htags.trans (spares_record (htags.entryBy hentry)))

theorem spares_reconcileFetchPolicy {existing : EntryRow} (hentry : EntryBy own store existing.entryId)
    (requested : Option FetchPolicy) :
    Spares own store (reconcileFetchPolicy store existing requested) := by
  cases requested with
  | none => exact Spares.refl store
  | some requested =>
      simp only [reconcileFetchPolicy]
      split_ifs
      · exact Spares.refl store
      · exact spares_modifyEntry hentry fun _ => rfl

theorem spares_retype {existing : EntryRow} (hentry : EntryBy own store existing.entryId)
    (call : DepositCall) : Spares own store (retype store existing call) := by
  unfold retype
  split_ifs
  · exact Spares.refl store
  · exact spares_modifyEntry hentry fun _ => rfl

theorem spares_stampRelation {entryId : String} (hentry : EntryBy own store entryId)
    (call : DepositCall) : Spares own store (stampRelation env store entryId call) := by
  unfold stampRelation
  cases env.documentRelationForContent call.content with
  | none => exact Spares.refl store
  | some relation => exact spares_modifyEntry hentry fun _ => rfl

/-- A deposit onto an entry writes that entry. -/
theorem spares_depositOnto {call : DepositCall} {existing : EntryRow} {result : DepositResult}
    (hentry : EntryBy own store existing.entryId)
    (h : depositOnto env store call existing = .ok (after, result)) : Spares own store after := by
  have hkeys : Spares own store (reconcileProjectKeys env store existing call.tags) :=
    spares_reconcileProjectKeys hentry call.tags
  obtain ⟨rfl, -⟩ | ⟨-, -, recorded, hrecorded, rfl⟩ := depositOnto_cases h
  · exact hkeys
  · have hrecord := hkeys.trans (spares_addRecord (hkeys.entryBy hentry) hrecorded)
    have htype := hrecord.trans (spares_retype (hrecord.entryBy hentry) call)
    exact htype.trans (spares_stampRelation (htype.entryBy hentry) call)

/-- A deposit of a new source writes an entry of its own. -/
theorem spares_depositNew {call : DepositCall} {result : DepositResult} (hown : own call.depositedBy)
    (h : depositNew env store call = .ok (after, result)) : Spares own store after := by
  obtain ⟨-, entered, recorded, hentered, hrecorded, rfl⟩ := depositNew_eq_ok h
  have hentry : EntryBy own entered call.newEntryId :=
    ⟨call.entryRow, by rw [(addEntry_eq_ok hentered).2.1]; simp, rfl, hown⟩
  have hnew := spares_addEntry hown hentered
  have hrecord := spares_addRecord hentry hrecorded
  exact (hnew.trans hrecord).trans (spares_stampRelation (hrecord.entryBy hentry) call)

/-! ### Confinement -/

/-- The depositors whose entries a confined deposit may write. -/
def OwnedBy (depositor depositedBy : String) : Prop := depositedBy ∈ ownersOf depositor

theorem ownedBy_self (depositor : String) : OwnedBy depositor depositor := by
  unfold OwnedBy ownersOf
  split_ifs with h
  · exact h
  · exact List.mem_singleton_self depositor

/-- A depositor never releases the URI of a capture that it owns. -/
theorem not_foreignCapture {depositor : String} {existing : EntryRow}
    (h : OwnedBy depositor existing.depositedBy) : foreignCaptureEntry existing depositor = false := by
  unfold OwnedBy ownersOf at h
  unfold foreignCaptureEntry CAPTURE_DEPOSITORS
  split_ifs at h with hharvest
  · have hne : existing.depositedBy ≠ WEB_CLIPPER_DEPOSITOR := by
      intro heq
      rw [heq] at h
      revert h
      decide
    simp [hne]
  · simp [List.mem_singleton.1 h]

theorem refuseForeignEntry_eq_ok {call : DepositCall} {existing : EntryRow} {uriR depositor : String}
    (hconfined : call.confinedTo = some depositor)
    (h : refuseForeignEntry call existing uriR = .ok ()) : OwnedBy depositor existing.depositedBy := by
  simp only [refuseForeignEntry, hconfined] at h
  split_ifs at h with howned
  exact howned

/-- A confined deposit finds, by its URI, an entry that its depositor owns, and writes nothing. -/
theorem matchByUri_confined {call : DepositCall} {found : Option EntryRow}
    (hconfined : call.confinedTo = some call.depositedBy)
    (h : matchByUri store call = .ok (after, found)) :
    after = store ∧ ∀ existing, found = some existing →
      EntryBy (OwnedBy call.depositedBy) store existing.entryId := by
  obtain ⟨-, rfl, rfl⟩ | ⟨uriR, -, -, ⟨-, rfl, rfl⟩ | ⟨existing, hbyUri, hrefuse, hcases⟩⟩ :=
    matchByUri_cases h
  · exact ⟨rfl, fun _ hfound => by cases hfound⟩
  · exact ⟨rfl, fun _ hfound => by cases hfound⟩
  · have howned := refuseForeignEntry_eq_ok hconfined hrefuse
    rcases hcases with ⟨hcapture, -⟩ | ⟨-, rfl, rfl⟩
    · rw [not_foreignCapture howned] at hcapture
      cases hcapture
    · refine ⟨rfl, fun existing' hfound => ?_⟩
      obtain rfl := Option.some.inj hfound
      exact ⟨existing, (mem_of_getEntryByUri hbyUri).1, rfl, howned⟩

/-- A confined deposit finds, by its hash, an entry of its depositor. -/
theorem matchByHash_confined {call : DepositCall} {existing : EntryRow}
    (hconfined : call.confinedTo = some call.depositedBy)
    (h : matchByHash env store call = some existing) :
    EntryBy (OwnedBy call.depositedBy) store existing.entryId := by
  unfold matchByHash at h
  split_ifs at h
  have hfound := (Option.filter_eq_some_iff.1 h).1
  have hown : call.ownOnly = true := by simp [DepositCall.ownOnly, hconfined]
  rw [foundByHash, if_pos hown] at hfound
  obtain ⟨row, hrow, hget⟩ := Option.bind_eq_some_iff.1 (Option.filter_eq_some_iff.1 hfound).1
  have hfilter := (List.mem_filter.1 (env.limitOne_mem hrow)).2
  simp only [Bool.and_eq_true, CorpusStore.isOwn, hget, Option.any_some, decide_eq_true_eq] at hfilter
  refine ⟨existing, Table.mem_of_get? hget, rfl, ?_⟩
  rw [hfilter.2.1.1]
  exact ownedBy_self call.depositedBy

/-- **A confined deposit writes its depositor's entries only.** -/
theorem spares_writeEntryAndSnapshot {call : DepositCall} {result : DepositResult}
    (hconfined : call.confinedTo = some call.depositedBy)
    (h : writeEntryAndSnapshot env store call = .ok (after, result)) :
    Spares (OwnedBy call.depositedBy) store after := by
  obtain ⟨byUri, found, huri, hcases⟩ := writeEntryAndSnapshot_cases h
  obtain ⟨rfl, hfound⟩ := matchByUri_confined hconfined huri
  rcases hcases with ⟨existing, rfl, hwrite⟩ | ⟨-, existing, hhash, hwrite⟩ | ⟨-, -, hwrite⟩
  · exact spares_depositOnto (hfound existing rfl) hwrite
  · exact spares_depositOnto (matchByHash_confined hconfined hhash) hwrite
  · exact spares_depositNew (ownedBy_self _) hwrite

theorem spares_reconcileVersioned {call : DepositCall} {policy : Option FetchPolicy}
    {existing : EntryRow} {reused : Option String} (hentry : EntryBy own store existing.entryId)
    (h : reconcileVersioned env store call policy existing = (after, reused)) :
    Spares own store after := by
  have hpolicy := spares_reconcileFetchPolicy hentry policy
  have hkeys : Spares own store
      (reconcileProjectKeys env (reconcileFetchPolicy store existing policy) existing call.tags) :=
    hpolicy.trans (spares_reconcileProjectKeys (hpolicy.entryBy hentry) call.tags)
  unfold reconcileVersioned at h
  have hafter := congrArg Prod.fst h
  dsimp only at hafter
  rw [← hafter]
  split_ifs
  · exact hkeys.trans (spares_addEntryTags (hkeys.entryBy hentry) _)
  · exact hkeys

theorem spares_depositTextVersioned {call : DepositCall} {policy : Option FetchPolicy}
    {uriR : String} {result : DepositResult} (hconfined : call.confinedTo = some call.depositedBy)
    (h : depositTextVersioned env store call policy uriR = .ok (after, result)) :
    Spares (OwnedBy call.depositedBy) store after := by
  have hwrites : ∀ store : CorpusStore,
      writeVersioned env store (call.versioned policy uriR) = .ok (after, result) →
      Spares (OwnedBy call.depositedBy) store after := by
    intro store h
    obtain ⟨written, hwritten, -⟩ := writeVersioned_eq_ok.1 h
    have hscope : (call.versioned policy uriR).confinedTo =
        some (call.versioned policy uriR).depositedBy := hconfined
    have hspares := spares_writeEntryAndSnapshot hscope hwritten
    exact hspares
  obtain ⟨-, hwrite⟩ | ⟨existing, hfound, hrefuse, hcases⟩ := depositTextVersioned_cases h
  · exact hwrites store hwrite
  · have hscope : (call.versioned policy uriR).confinedTo = some call.depositedBy := hconfined
    have howned := refuseForeignEntry_eq_ok hscope hrefuse
    have hentry : EntryBy (OwnedBy call.depositedBy) store existing.entryId :=
      ⟨existing, (mem_of_getEntryByUri hfound).1, rfl, howned⟩
    rcases hcases with ⟨hcapture, -⟩ | ⟨-, reused, hreconcile, -⟩ | ⟨-, reconciled, hreconcile, hwrite⟩
    · rw [not_foreignCapture howned] at hcapture
      cases hcapture
    · exact spares_reconcileVersioned hentry hreconcile
    · exact (spares_reconcileVersioned hentry hreconcile).trans (hwrites reconciled hwrite)

/-- A step confined to a depositor: its scope and its arguments name the depositor. -/
def DepositAction.ConfinedTo (depositor : String) (action : DepositAction) : Prop :=
  action.call.confinedTo = some depositor ∧ action.call.depositedBy = depositor

/-- **What a confined step leaves as it was**, whatever its arguments are and whether it raises. -/
theorem spares_depositStep {depositor : String} {action : DepositAction}
    (hconfined : action.ConfinedTo depositor) (store : CorpusStore) :
    Spares (OwnedBy depositor) store (depositStep env store action) := by
  obtain ⟨hscope, rfl⟩ := hconfined
  unfold depositStep
  cases hdeposit : action.deposit env store with
  | error reason => exact Spares.refl store
  | ok written =>
      obtain ⟨written, result⟩ := written
      cases action with
      | write call => exact spares_writeEntryAndSnapshot hscope hdeposit
      | versioned call policy uriR => exact spares_depositTextVersioned hscope hdeposit

theorem spares_runDeposits {depositor : String} {actions : List DepositAction}
    (hconfined : ∀ action ∈ actions, action.ConfinedTo depositor) (store : CorpusStore) :
    Spares (OwnedBy depositor) store (runDeposits env store actions) := by
  induction actions generalizing store with
  | nil => exact Spares.refl store
  | cons action actions ih =>
      have hstep : Spares (OwnedBy depositor) store (depositStep env store action) :=
        spares_depositStep (hconfined action List.mem_cons_self) store
      exact hstep.trans (ih (fun a ha => hconfined a (List.mem_cons_of_mem _ ha)) _)

end Spares

/-- **In any run of deposits confined to one depositor, every entry of another principal keeps its row,
its records and its events, and whatever entry is new is the depositor's.**  The deposits may name any
URI, carry any bytes and tags, and raise. -/
theorem confined_run_spares {depositor : String} {actions : List DepositAction}
    (hconfined : ∀ action ∈ actions, action.ConfinedTo depositor) (store : CorpusStore) :
    (∀ entry ∈ store.entries.rows, entry.depositedBy ∉ ownersOf depositor →
      (runDeposits env store actions).entries.get? entry.entryId = some entry ∧
      (runDeposits env store actions).recordsOf entry.entryId = store.recordsOf entry.entryId ∧
      ((runDeposits env store actions).events.filter fun event => event.entryId = entry.entryId) =
        store.events.filter fun event => event.entryId = entry.entryId) ∧
    ∀ entry ∈ (runDeposits env store actions).entries.rows, entry ∉ store.entries.rows →
      entry.depositedBy ∈ ownersOf depositor := by
  have hspares : Spares (OwnedBy depositor) store (runDeposits env store actions) :=
    spares_runDeposits hconfined store
  refine ⟨fun entry hentry hother => ?_, fun entry hentry hnew => ?_⟩
  · have hkept := hspares.kept entry hentry hother
    -- an entry by the depositor has another id
    have hapart : ∀ {id : String}, EntryBy (OwnedBy depositor) (runDeposits env store actions) id →
        id ≠ entry.entryId := by
      rintro id ⟨row, hrow, rfl, hown⟩ hid
      rw [Table.eq_of_key_eq hrow hkept hid] at hown
      exact hother hown
    obtain ⟨added, hadded, hrecords⟩ := hspares.records
    obtain ⟨logged, hlogged, hevents⟩ := hspares.events
    refine ⟨Table.get?_key hkept, ?_, ?_⟩
    · have hnone : (added.filter fun row => row.entryId = entry.entryId) = [] :=
        List.filter_eq_nil_iff.2 fun row hrow => by simpa using hapart (hrecords row hrow)
      rw [CorpusStore.recordsOf, recordsIn, hadded, List.filter_append, hnone, List.append_nil]
      rfl
    · have hnone : (logged.filter fun event => event.entryId = entry.entryId) = [] :=
        List.filter_eq_nil_iff.2 fun event hevent => by simpa using hapart (hevents event hevent)
      rw [hlogged, List.filter_append, hnone, List.append_nil]
  · by_contra hother
    exact hnew (hspares.new entry hentry hother)

/-- An agent deposits the operator's page twice: the operator's entry keeps its records. -/
theorem agent_spares_page :
    (runDeposits plainDeposits operatorPage
      [.write agentDeposit, .versioned agentDeposit (some .LAZY) "https://example.org/page"]).recordsOf
        "E0" = operatorPage.recordsOf "E0" := by
  have hconfined : ∀ action ∈ [DepositAction.write agentDeposit,
      .versioned agentDeposit (some .LAZY) "https://example.org/page"],
      action.ConfinedTo "agent-7" := by
    intro action haction
    rcases List.mem_cons.1 haction with rfl | haction
    · exact ⟨rfl, rfl⟩
    · rw [List.mem_singleton.1 haction]
      exact ⟨rfl, rfl⟩
  exact ((confined_run_spares plainDeposits hconfined operatorPage).1 _ List.mem_cons_self
    (by decide)).2.1

end Deposits

end ParticlesEngine
