/-
**The identity of an entry.**

A URI names one source, so one entry, and the entry that holds it is never handed to another
depositor.  The exception is a web capture, whose frontmatter may name any URL: it gives its URL up to
whoever deposits it.

Main definitions:

* `EntryRow.Becomes`, `Evolves` — what a deposit may do to an entry, and to the tables;
* `UriNamesOne` — a URI names at most one entry.

Main results:

* `keeps_depositStep` — what every step keeps;
* `uri_held_along` — **along any run of deposits a URI names at most one entry, and only a web
  capture's entry ever loses its own**.
-/

import ParticlesEngine.Deposits

set_option relaxedAutoImplicit false
set_option autoImplicit false

namespace ParticlesEngine

namespace Deposits

variable (env : DepositEnv)

/-! ### What every deposit keeps -/

/-- **What a deposit may do to an entry**: its id, its depositor, its mutability and its date stay, its
tags grow, and its URI stays unless the entry is a web capture's that gives it up. -/
structure EntryRow.Becomes (row row' : EntryRow) : Prop where
  entryId : row'.entryId = row.entryId
  depositedBy : row'.depositedBy = row.depositedBy
  mutability : row'.mutability = row.mutability
  createdAt : row'.createdAt = row.createdAt
  tags : row.tags <+: row'.tags
  uriR : row'.uriR = row.uriR ∨ row.depositedBy ∈ CAPTURE_DEPOSITORS ∧ row'.uriR = none

/-- **What every deposit keeps**: the entries stand, and the records and the events stay in front. -/
structure Evolves (before after : CorpusStore) : Prop where
  entries : ∀ row ∈ before.entries.rows, ∃ row' ∈ after.entries.rows, row.Becomes row'
  records : before.snapshots.rows <+: after.snapshots.rows
  events : before.events <+: after.events

/-- A URI names at most one entry. -/
def UriNamesOne (store : CorpusStore) : Prop :=
  ∀ row ∈ store.entries.rows, ∀ row' ∈ store.entries.rows, ∀ uriR, uriR ≠ "" →
    row.uriR = some uriR → row'.uriR = some uriR → row = row'

/-- No entry holds a URI. -/
def UriFree (store : CorpusStore) (uriR : String) : Prop :=
  ∀ row ∈ store.entries.rows, row.uriR ≠ some uriR

/-- A step that keeps what every deposit keeps, gives no entry a URI, and processes no record. -/
structure Keeps (before after : CorpusStore) : Prop extends Evolves before after where
  uris : UriNamesOne before → UriNamesOne after
  pending : ∀ row ∈ after.snapshots.rows, row ∈ before.snapshots.rows ∨
    row.extractionStatus = .PENDING

section Keeps

variable {env} {before middle after store : CorpusStore}

theorem uriFree_of_getEntryByUri {uriR : String} (h : store.getEntryByUri uriR = .ok none) :
    UriFree store uriR := by
  unfold CorpusStore.getEntryByUri at h
  split at h
  · next hrows =>
      intro row hrow huri
      have hmem : row ∈ store.entries.rows.filter fun row => row.uriR = some uriR :=
        List.mem_filter.2 ⟨hrow, by simpa using huri⟩
      rw [hrows] at hmem
      cases hmem
  · simp at h
  · simp at h

theorem EntryRow.Becomes.refl (row : EntryRow) : row.Becomes row :=
  ⟨rfl, rfl, rfl, rfl, List.prefix_rfl, Or.inl rfl⟩

theorem EntryRow.Becomes.trans {row row₁ row₂ : EntryRow} (h₁ : row.Becomes row₁)
    (h₂ : row₁.Becomes row₂) : row.Becomes row₂ where
  entryId := h₂.entryId.trans h₁.entryId
  depositedBy := h₂.depositedBy.trans h₁.depositedBy
  mutability := h₂.mutability.trans h₁.mutability
  createdAt := h₂.createdAt.trans h₁.createdAt
  tags := h₁.tags.trans h₂.tags
  uriR := by
    rcases h₂.uriR with hsame | ⟨hcapture, hnone⟩
    · rcases h₁.uriR with hsame₁ | ⟨hcapture, hnone⟩
      · exact Or.inl (hsame.trans hsame₁)
      · exact Or.inr ⟨hcapture, hsame.trans hnone⟩
    · exact Or.inr ⟨h₁.depositedBy ▸ hcapture, hnone⟩

theorem Keeps.refl (store : CorpusStore) : Keeps store store where
  entries := fun row hrow => ⟨row, hrow, EntryRow.Becomes.refl row⟩
  records := List.prefix_rfl
  events := List.prefix_rfl
  uris := id
  pending := fun _ hrow => Or.inl hrow

theorem Keeps.trans (h₁ : Keeps before middle) (h₂ : Keeps middle after) : Keeps before after where
  entries := fun row hrow => by
    obtain ⟨row₁, hrow₁, hbecomes₁⟩ := h₁.entries row hrow
    obtain ⟨row₂, hrow₂, hbecomes₂⟩ := h₂.entries row₁ hrow₁
    exact ⟨row₂, hrow₂, hbecomes₁.trans hbecomes₂⟩
  records := h₁.records.trans h₂.records
  events := h₁.events.trans h₂.events
  uris := fun h => h₂.uris (h₁.uris h)
  pending := fun row hrow => by
    rcases h₂.pending row hrow with hmiddle | hpending
    · exact h₁.pending row hmiddle
    · exact Or.inr hpending

/-- An update of an entry that is allowed, and gives it no other URI. -/
theorem keeps_modifyEntry {entryId : String} {f : EntryRow → EntryRow}
    {hf : ∀ row, (f row).id = row.id}
    (hbecomes : ∀ row ∈ store.entries.rows, row.entryId = entryId → row.Becomes (f row)) :
    Keeps store (store.modifyEntry entryId f hf) where
  entries := fun row hrow => by
    by_cases hid : row.id = entryId
    · exact ⟨f row, (mem_modifyEntry _ f hf _).2 ⟨row, hrow, if_pos hid⟩, hbecomes row hrow hid⟩
    · exact ⟨row, (mem_modifyEntry _ f hf _).2 ⟨row, hrow, if_neg hid⟩, EntryRow.Becomes.refl row⟩
  records := List.prefix_rfl
  events := List.prefix_rfl
  pending := fun _ hrow => Or.inl hrow
  uris := by
    intro hone
    -- whoever holds a URI afterwards held it before
    have hheld : ∀ row ∈ (store.modifyEntry entryId f hf).entries.rows, ∀ uriR, row.uriR = some uriR →
        ∃ row₀ ∈ store.entries.rows, row₀.uriR = some uriR ∧
          (if row₀.id = entryId then f row₀ else row₀) = row := by
      intro row hrow uriR huri
      obtain ⟨row₀, hrow₀, rfl⟩ := (mem_modifyEntry _ f hf row).1 hrow
      refine ⟨row₀, hrow₀, ?_, rfl⟩
      split_ifs at huri with hid
      · rcases (hbecomes row₀ hrow₀ hid).uriR with hsame | ⟨-, hnone⟩
        · exact hsame ▸ huri
        · rw [hnone] at huri
          cases huri
      · exact huri
    intro row hrow row' hrow' uriR hne huri huri'
    obtain ⟨row₀, hrow₀, hheld₀, rfl⟩ := hheld row hrow uriR huri
    obtain ⟨row₁, hrow₁, hheld₁, rfl⟩ := hheld row' hrow' uriR huri'
    rw [hone row₀ hrow₀ row₁ hrow₁ uriR hne hheld₀ hheld₁]

theorem keeps_record (event : DepositEvent) : Keeps store (store.record event) where
  entries := fun row hrow => ⟨row, hrow, EntryRow.Becomes.refl row⟩
  records := List.prefix_rfl
  events := List.prefix_append _ _
  uris := id
  pending := fun _ hrow => Or.inl hrow

theorem keeps_addRecord {row : RecordRow} (hpending : row.extractionStatus = .PENDING)
    (h : addRecord store row = .ok after) : Keeps store after := by
  obtain ⟨hentries, hrows, hevents⟩ := addRecord_eq_ok h
  refine ⟨⟨fun row' hrow' => ⟨row', ?_, EntryRow.Becomes.refl row'⟩, ⟨[row], hrows.symm⟩,
    hevents ▸ List.prefix_rfl⟩, fun hone => ?_, fun row' hrow' => ?_⟩
  · rwa [hentries]
  · rwa [UriNamesOne, hentries]
  · rw [hrows, List.mem_append, List.mem_singleton] at hrow'
    rcases hrow' with hrow' | rfl
    · exact Or.inl hrow'
    · exact Or.inr hpending

/-- A new entry, whose URI no other entry holds. -/
theorem keeps_addEntry {row : EntryRow}
    (hfree : ∀ uriR, uriR ≠ "" → row.uriR = some uriR → UriFree store uriR)
    (h : addEntry store row = .ok after) : Keeps store after := by
  obtain ⟨-, hrows, hsnapshots, hevents⟩ := addEntry_eq_ok h
  refine ⟨⟨fun row' hrow' => ⟨row', ?_, EntryRow.Becomes.refl row'⟩, hsnapshots ▸ List.prefix_rfl,
    hevents ▸ List.prefix_rfl⟩, ?_, fun _ hrow' => Or.inl (hsnapshots ▸ hrow')⟩
  · rw [hrows]
    exact List.mem_append_left _ hrow'
  · intro hone row₁ hrow₁ row₂ hrow₂ uriR hne huri₁ huri₂
    rw [hrows] at hrow₁ hrow₂
    rcases List.mem_append.1 hrow₁ with hrow₁ | hrow₁ <;>
      rcases List.mem_append.1 hrow₂ with hrow₂ | hrow₂
    · exact hone row₁ hrow₁ row₂ hrow₂ uriR hne huri₁ huri₂
    · rw [List.mem_singleton.1 hrow₂] at huri₂
      exact absurd huri₁ (hfree uriR hne huri₂ row₁ hrow₁)
    · rw [List.mem_singleton.1 hrow₁] at huri₁
      exact absurd huri₂ (hfree uriR hne huri₁ row₂ hrow₂)
    · rw [List.mem_singleton.1 hrow₁, List.mem_singleton.1 hrow₂]

theorem keeps_addEntryTags (entryId : String) (newTags : List String) :
    Keeps store (store.addEntryTags entryId newTags) :=
  keeps_modifyEntry fun _ _ _ => ⟨rfl, rfl, rfl, rfl, List.prefix_append _ _, Or.inl rfl⟩

theorem keeps_reconcileProjectKeys (existing : EntryRow) (tags : List String) :
    Keeps store (reconcileProjectKeys env store existing tags) := by
  unfold reconcileProjectKeys
  split_ifs
  · exact Keeps.refl store
  · exact Keeps.refl store
  · have htags : Keeps store (store.addEntryTags existing.entryId
        ((missingKeys env existing tags).map env.projectTag)) := keeps_addEntryTags _ _
    generalize store.addEntryTags existing.entryId _ = tagged at htags ⊢
    induction missingKeys env existing tags generalizing tagged with
    | nil => exact htags
    | cons key keys ih => exact ih _ (htags.trans (keeps_record _))

theorem keeps_reconcileFetchPolicy (existing : EntryRow) (requested : Option FetchPolicy) :
    Keeps store (reconcileFetchPolicy store existing requested) := by
  cases requested with
  | none => exact Keeps.refl store
  | some requested =>
      simp only [reconcileFetchPolicy]
      split_ifs
      · exact Keeps.refl store
      · exact keeps_modifyEntry fun _ _ _ => ⟨rfl, rfl, rfl, rfl, List.prefix_rfl, Or.inl rfl⟩

theorem keeps_retype (existing : EntryRow) (call : DepositCall) :
    Keeps store (retype store existing call) := by
  unfold retype
  split_ifs
  · exact Keeps.refl store
  · exact keeps_modifyEntry fun _ _ _ => ⟨rfl, rfl, rfl, rfl, List.prefix_rfl, Or.inl rfl⟩

theorem keeps_stampRelation (entryId : String) (call : DepositCall) :
    Keeps store (stampRelation env store entryId call) := by
  unfold stampRelation
  cases env.documentRelationForContent call.content with
  | none => exact Keeps.refl store
  | some relation =>
      exact keeps_modifyEntry fun _ _ _ => ⟨rfl, rfl, rfl, rfl, List.prefix_rfl, Or.inl rfl⟩

theorem keeps_depositOnto {call : DepositCall} {existing : EntryRow} {result : DepositResult}
    (h : depositOnto env store call existing = .ok (after, result)) : Keeps store after := by
  have hkeys : Keeps store (reconcileProjectKeys env store existing call.tags) :=
    keeps_reconcileProjectKeys existing call.tags
  obtain ⟨rfl, -⟩ | ⟨-, -, recorded, hrecorded, rfl⟩ := depositOnto_cases h
  · exact hkeys
  · exact ((hkeys.trans (keeps_addRecord rfl hrecorded)).trans (keeps_retype existing call)).trans
      (keeps_stampRelation _ call)

theorem keeps_depositNew {call : DepositCall} {result : DepositResult}
    (hfree : ∀ uriR, uriR ≠ "" → call.uriR = some uriR → UriFree store uriR)
    (h : depositNew env store call = .ok (after, result)) : Keeps store after := by
  obtain ⟨-, entered, recorded, hentered, hrecorded, rfl⟩ := depositNew_eq_ok h
  exact ((keeps_addEntry hfree hentered).trans (keeps_addRecord rfl hrecorded)).trans
    (keeps_stampRelation _ call)

/-- A capture gives up its URI, which no entry then holds. -/
theorem keeps_releaseCaptureUri {existing : EntryRow} {depositedBy : String}
    (hexisting : existing ∈ store.entries.rows)
    (hcapture : foreignCaptureEntry existing depositedBy = true) :
    Keeps store (releaseCaptureUri store existing depositedBy) := by
  unfold releaseCaptureUri
  cases store.entries.get? existing.entryId with
  | none => exact Keeps.refl store
  | some found =>
      refine (keeps_modifyEntry fun row hrow hid => ?_).trans (keeps_record _)
      obtain rfl : row = existing := Table.eq_of_key_eq hrow hexisting hid
      have hdepositor : row.depositedBy ∈ CAPTURE_DEPOSITORS := by
        unfold foreignCaptureEntry at hcapture
        simp only [Bool.and_eq_true, decide_eq_true_eq] at hcapture
        exact hcapture.1
      exact ⟨rfl, rfl, rfl, rfl, List.prefix_rfl, Or.inr ⟨hdepositor, rfl⟩⟩

theorem uriFree_releaseCaptureUri {existing : EntryRow} {uriR depositedBy : String}
    (h : store.getEntryByUri uriR = .ok (some existing)) :
    UriFree (releaseCaptureUri store existing depositedBy) uriR := by
  have hexisting := (mem_of_getEntryByUri h).1
  have hget : store.entries.get? existing.entryId = some existing := Table.get?_key hexisting
  unfold releaseCaptureUri
  rw [hget]
  intro row hrow huri
  have hrow : row ∈ store.entries.rows.map fun row =>
      if row.id = existing.entryId then { row with uriR := none } else row := hrow
  obtain ⟨row₀, hrow₀, rfl⟩ := List.mem_map.1 hrow
  split_ifs at huri with hid
  -- the entry that held the URI is the one that gave it up
  have hmem : row₀ ∈ store.entries.rows.filter fun row => row.uriR = some uriR :=
    List.mem_filter.2 ⟨hrow₀, by simpa using huri⟩
  rw [getEntryByUri_eq_ok h] at hmem
  exact hid (congrArg EntryRow.id (List.mem_singleton.1 hmem))

/-- Looking for the entry by its URI keeps what every deposit keeps; when it finds none, no entry holds
the URI. -/
theorem keeps_matchByUri {call : DepositCall} {found : Option EntryRow}
    (h : matchByUri store call = .ok (after, found)) :
    Keeps store after ∧
      (found = none → ∀ uriR, uriR ≠ "" → call.uriR = some uriR → UriFree after uriR) := by
  obtain ⟨hempty, rfl, rfl⟩ | ⟨uriR, -, hcall, hcases⟩ := matchByUri_cases h
  · exact ⟨Keeps.refl after, fun _ uriR hne hcall => absurd (hempty uriR hcall) hne⟩
  · have hcall : ∀ other, call.uriR = some other → other = uriR :=
      fun other hother => Option.some.inj (hother.symm.trans hcall)
    rcases hcases with ⟨hbyUri, rfl, rfl⟩ |
      ⟨existing, hbyUri, -, ⟨hcapture, rfl, rfl⟩ | ⟨-, rfl, rfl⟩⟩
    · refine ⟨Keeps.refl after, fun _ other _ hother => ?_⟩
      rw [hcall other hother]
      exact uriFree_of_getEntryByUri hbyUri
    · refine ⟨keeps_releaseCaptureUri (mem_of_getEntryByUri hbyUri).1 hcapture,
        fun _ other _ hother => ?_⟩
      rw [hcall other hother]
      exact uriFree_releaseCaptureUri hbyUri
    · exact ⟨Keeps.refl after, fun hnone => by cases hnone⟩

theorem keeps_writeEntryAndSnapshot {call : DepositCall} {result : DepositResult}
    (h : writeEntryAndSnapshot env store call = .ok (after, result)) : Keeps store after := by
  obtain ⟨byUri, found, huri, hcases⟩ := writeEntryAndSnapshot_cases h
  obtain ⟨hkeeps, hfree⟩ := keeps_matchByUri huri
  rcases hcases with ⟨existing, rfl, hwrite⟩ | ⟨-, existing, -, hwrite⟩ | ⟨hnone, -, hwrite⟩
  · exact hkeeps.trans (keeps_depositOnto hwrite)
  · exact hkeeps.trans (keeps_depositOnto hwrite)
  · exact hkeeps.trans (keeps_depositNew (hfree hnone) hwrite)

theorem keeps_reconcileVersioned {call : DepositCall} {policy : Option FetchPolicy}
    {existing : EntryRow} {reused : Option String}
    (h : reconcileVersioned env store call policy existing = (after, reused)) : Keeps store after := by
  have hkeys : Keeps store
      (reconcileProjectKeys env (reconcileFetchPolicy store existing policy) existing call.tags) :=
    (keeps_reconcileFetchPolicy existing policy).trans (keeps_reconcileProjectKeys existing call.tags)
  unfold reconcileVersioned at h
  have hafter := congrArg Prod.fst h
  dsimp only at hafter
  rw [← hafter]
  split_ifs
  · exact hkeys.trans (keeps_addEntryTags _ _)
  · exact hkeys

theorem keeps_depositTextVersioned {call : DepositCall} {policy : Option FetchPolicy}
    {uriR : String} {result : DepositResult}
    (h : depositTextVersioned env store call policy uriR = .ok (after, result)) :
    Keeps store after := by
  have hwrites : ∀ (store : CorpusStore),
      writeVersioned env store (call.versioned policy uriR) = .ok (after, result) → Keeps store after := by
    intro store hwrite
    obtain ⟨written, hwritten, -⟩ := writeVersioned_eq_ok.1 hwrite
    exact keeps_writeEntryAndSnapshot hwritten
  obtain ⟨-, hwrite⟩ | ⟨existing, hfound, -, hcases⟩ := depositTextVersioned_cases h
  · exact hwrites store hwrite
  · rcases hcases with ⟨hcapture, hwrite⟩ | ⟨-, reused, hreconcile, -⟩ |
      ⟨-, reconciled, hreconcile, hwrite⟩
    · exact (keeps_releaseCaptureUri (mem_of_getEntryByUri hfound).1 hcapture).trans (hwrites _ hwrite)
    · exact keeps_reconcileVersioned hreconcile
    · exact (keeps_reconcileVersioned hreconcile).trans (hwrites _ hwrite)

/-- **What every step keeps**, whoever deposits and whether it raises. -/
theorem keeps_depositStep (store : CorpusStore) (action : DepositAction) :
    Keeps store (depositStep env store action) := by
  unfold depositStep
  cases hdeposit : action.deposit env store with
  | error reason => exact Keeps.refl store
  | ok written =>
      obtain ⟨written, result⟩ := written
      cases action with
      | write call => exact keeps_writeEntryAndSnapshot hdeposit
      | versioned call policy uriR => exact keeps_depositTextVersioned hdeposit

theorem keeps_runDeposits (store : CorpusStore) (actions : List DepositAction) :
    Keeps store (runDeposits env store actions) := by
  induction actions generalizing store with
  | nil => exact Keeps.refl store
  | cons action actions ih => exact (keeps_depositStep store action).trans (ih _)

/-- A lookup of a URI that one entry holds finds that entry. -/
theorem getEntryByUri_of_uriNamesOne (hone : UriNamesOne store) {entry : EntryRow} {uriR : String}
    (hne : uriR ≠ "") (hentry : entry ∈ store.entries.rows) (huri : entry.uriR = some uriR) :
    store.getEntryByUri uriR = .ok (some entry) := by
  have hnodup : (store.entries.rows.filter fun row => row.uriR = some uriR).Nodup :=
    store.entries.nodup.of_map.filter _
  have hrows : (store.entries.rows.filter fun row => row.uriR = some uriR) = [entry] := by
    refine List.perm_singleton.1 ((List.perm_ext_iff_of_nodup hnodup (by simp)).2 fun row => ?_)
    rw [List.mem_filter, decide_eq_true_eq, List.mem_singleton]
    constructor
    · rintro ⟨hrow, hheld⟩
      exact hone row hrow entry hentry uriR hne hheld huri
    · rintro rfl
      exact ⟨hentry, huri⟩
  unfold CorpusStore.getEntryByUri
  rw [hrows]

end Keeps

/-- **Along any run of deposits, by anyone, a URI names at most one entry, and an entry that no web
capture made keeps its URI and is found by it.**  The records and events that stand are never
rewritten, and no entry changes its depositor. -/
theorem uri_held_along {store : CorpusStore} (hone : UriNamesOne store)
    (actions : List DepositAction) :
    UriNamesOne (runDeposits env store actions) ∧
    (∀ entry ∈ store.entries.rows, ∀ uriR, uriR ≠ "" → entry.uriR = some uriR →
      entry.depositedBy ∉ CAPTURE_DEPOSITORS →
      ∃ entry', (runDeposits env store actions).getEntryByUri uriR = .ok (some entry') ∧
        entry.Becomes entry') ∧
    Evolves store (runDeposits env store actions) := by
  have hkeeps : Keeps store (runDeposits env store actions) := keeps_runDeposits store actions
  refine ⟨hkeeps.uris hone, fun entry hentry uriR hne huri hcapture => ?_, hkeeps.toEvolves⟩
  obtain ⟨entry', hentry', hbecomes⟩ := hkeeps.entries entry hentry
  have huri' : entry'.uriR = some uriR := by
    rcases hbecomes.uriR with hsame | ⟨hcapture', -⟩
    · exact hsame.trans huri
    · exact absurd hcapture' hcapture
  exact ⟨entry', getEntryByUri_of_uriNamesOne (hkeeps.uris hone) hne hentry' huri', hbecomes⟩

/-- The operator deposits the page again: its URI finds the entry that held it. -/
theorem page_held : ∃ entry', (runDeposits plainDeposits operatorPage [.write pageDeposit]).getEntryByUri
    "https://example.org/page" = .ok (some entry') ∧ entry'.entryId = "E0" := by
  have hone : UriNamesOne operatorPage := by
    intro row hrow row' hrow' uriR _ _ _
    rw [List.mem_singleton.1 hrow, List.mem_singleton.1 hrow']
  obtain ⟨entry', hget, hbecomes⟩ := (uri_held_along plainDeposits hone [.write pageDeposit]).2.1
    { pageDeposit.entryRow with entryId := "E0" } List.mem_cons_self "https://example.org/page"
    (by decide) rfl (by decide)
  exact ⟨entry', hget, hbecomes.entryId⟩

end Deposits

end ParticlesEngine
