/-
**Runs over vocabulary documents.**

Whatever calls are made, each version of a document keeps what the earlier ones said.  The event log is
sound as long as no call records a key that is pending in another document, events are dated after those
with their key, no call repeats a key that it rules on, and the log fits within one scan: then each
proposal has a key of its own in its document and at most one ruling, and what is listed as pending can be
ruled by its key.

Main definitions:

* `CanBeRuled`, `VocabularySound`, `VersionsKept` — what should hold in every state;
* `CallMeets` — the condition on a call;
* `VocabularyInv` — the invariant.

Main results:

* `VocabularyInv.publish`, `VocabularyInv.record`, `VocabularyInv.propose` — what each kind of write keeps;
* `VocabularyInv.afterCall` — **a call that meets the condition keeps the invariant**;
* `VocabularyInv.canBeRuled`, `not_canBeRuled_of_lookupKey` — a pending proposal can be ruled, and one
  whose key answers with another cannot;
* `vocabulary_runs_sound` — **in every run the versions keep what they said, and in every run whose calls
  meet the condition the log is sound in every state**;
* `vocabulary_shadows_pending` — two documents that propose one key leave a proposal that no call can
  rule, and a call that repeats a key rules one proposal twice.
-/

import ParticlesEngine.VocabularyProposals

set_option relaxedAutoImplicit false
set_option autoImplicit false

open SortBy Runs

namespace ParticlesEngine

namespace Vocabulary

/-! ### What should hold -/

section Spec

variable {ι : Type*} (env : VocabularyEnv ι) (st : VocabularyState)

/-- A ruling is written, and names the event and its document. -/
def Rules (e : ProposalEvent) (st' : VocabularyState) : Prop :=
  ∃ r, st'.ruled = st.ruled ++ [r] ∧ r.proposalEventId = some e.eventId ∧ r.document = e.document

/-- **A proposal can be ruled by its key.**  Declining it succeeds; confirming it does when the revision
helpers take it, and its terms are told apart and extracted. -/
structure CanBeRuled (e : ProposalEvent) : Prop where
  declined : ∀ actor reason, ∃ st', decline env st [e.key] actor reason = .ok st' ∧ Rules st e st'
  confirmed : ∀ kind pastForms actor reason st',
    confirm env st [e.key] kind pastForms actor reason = .ok st' → Rules st e st'
  confirms : ∃ doc, current env st e.document = .ok doc ∧
    ∀ kind pastForms actor reason revised,
      reviseAll env kind (pastForms.map env.normalisePredicate) actor reason doc [e] = .ok revised →
        TermsApart revised → env.extracts { revised with version := doc.version + 1 } = true →
          ∃ st', confirm env st [e.key] kind pastForms actor reason = .ok st'

/-- **A sound log.** -/
structure VocabularySound : Prop where
  /-- no document has two proposals with one key -/
  keysApart : ∀ e ∈ st.proposed, ∀ e' ∈ st.proposed, e.document = e'.document → e.key = e'.key → e = e'
  /-- each proposal has at most one ruling -/
  ruledOnce : ∀ e ∈ st.proposed,
    (st.ruled.countP fun r => r.proposalEventId = some e.eventId) ≤ 1
  /-- what is listed as pending can be ruled -/
  canBeRuled : ∀ document, ∀ e ∈ pendingProposals st document, CanBeRuled env st e

/-- Every later version of a document keeps every earlier one. -/
def VersionsKept : Prop :=
  ∀ a ∈ st.versions, ∀ b ∈ st.versions, a.name = b.name → a.version < b.version → KeepsTerms a b

/-- The keys of a ruling call that finds their proposals are apart, and its rulings fit within a scan. -/
def RulesApart (keys : List String) : Prop :=
  ∀ loaded, loadPending env st keys = .ok loaded →
    keys.Nodup ∧ st.ruled.length + keys.length ≤ EVENT_SCAN

/-- **The condition on a call.**  A key that a run plans is pending in no other document, and the id and
the time it is recorded with place it before the earlier proposals with the key; a key that is ruled on is
given once; and the log fits within a scan. -/
def CallMeets : VocabularyCall ι → Prop
  | .create _ _ _ _ => True
  | .importDocument _ => True
  | .align _ _ _ _ => st.ruled.length + 1 ≤ EVENT_SCAN
  | .propose args => args.dryRun = false → ∀ doc, current env st args.name = .ok doc →
      st.proposed.length + (plannedPayloads env st args doc).length ≤ EVENT_SCAN ∧
        ∀ item ∈ (plannedPayloads env st args doc).zipIdx st.drawn, ∀ e ∈ st.proposed,
          e.key = item.1.key → (Pending st e → e.document = args.name) ∧
            listKey (env.clock item.2) (env.uuid item.2) < e.listKey
  | .confirm keys _ _ _ _ => RulesApart env st keys
  | .decline keys _ _ => RulesApart env st keys

instance Pending.decidable (e : ProposalEvent) : Decidable (Pending st e) :=
  inferInstanceAs (Decidable (_ ∧ _))

/-- A condition on a result that goes through. -/
instance Except.decidableOk {ε α : Type} (result : Except ε α) (p : α → Prop) [DecidablePred p] :
    Decidable (∀ a, result = .ok a → p a) :=
  match result with
  | .error _ => isTrue fun _ h => nomatch h
  | .ok a => decidable_of_iff (p a) ⟨fun h _ heq => Except.ok.inj heq ▸ h, fun h => h a rfl⟩

instance RulesApart.decidable (keys : List String) : Decidable (RulesApart env st keys) :=
  Except.decidableOk _ _

instance CallMeets.decidable : ∀ call, Decidable (CallMeets env st call)
  | .create _ _ _ _ => isTrue trivial
  | .importDocument _ => isTrue trivial
  | .align _ _ _ _ => inferInstanceAs (Decidable (_ ≤ _))
  | .propose args =>
      have := Except.decidableOk (current env st args.name) fun doc =>
        st.proposed.length + (plannedPayloads env st args doc).length ≤ EVENT_SCAN ∧
          ∀ item ∈ (plannedPayloads env st args doc).zipIdx st.drawn, ∀ e ∈ st.proposed,
            e.key = item.1.key → (Pending st e → e.document = args.name) ∧
              listKey (env.clock item.2) (env.uuid item.2) < e.listKey
      inferInstanceAs (Decidable (_ → _))
  | .confirm keys _ _ _ _ => RulesApart.decidable env st keys
  | .decline keys _ _ => RulesApart.decidable env st keys

end Spec

/-! ### The invariant -/

/-- **What the calls keep.** -/
structure VocabularyInv {ι : Type*} (env : VocabularyEnv ι) (st : VocabularyState) : Prop where
  published : ∀ e ∈ st.proposed, ∃ row ∈ st.versions, row.name = e.document
  ids : ∀ e ∈ st.proposed, ∃ n < st.drawn, e.eventId = env.uuid n
  idsApart : (st.proposed.map ProposalEvent.eventId).Nodup
  keysApart : ∀ e ∈ st.proposed, ∀ e' ∈ st.proposed, e.document = e'.document → e.key = e'.key → e = e'
  ruledIds : ∀ id ∈ st.ruled.filterMap fun r => r.proposalEventId, ∃ e ∈ st.proposed, e.eventId = id
  ruledApart : (st.ruled.filterMap fun r => r.proposalEventId).Nodup
  /-- a pending proposal is the newest with its key -/
  newest : ∀ e, Pending st e → ∀ e' ∈ st.proposed, e'.key = e.key → e' ≠ e → e.listKey < e'.listKey
  proposedFits : st.proposed.length ≤ EVENT_SCAN
  ruledFits : st.ruled.length ≤ EVENT_SCAN

section Events

variable {ι : Type*} {env : VocabularyEnv ι} {st : VocabularyState} {actor : String}

theorem pending_iff {e : ProposalEvent} : Pending st e ↔
    e ∈ st.proposed ∧ e.eventId ∉ st.ruled.filterMap fun r => r.proposalEventId := by
  unfold Pending
  rw [List.mem_filterMap]
  simp only [not_exists, not_and]

/-- Recorded rulings say what was ruled. -/
theorem map_toRulingPayload_newRulings (reason : Option String) (payloads : List RulingPayload) :
    (newRulings env st actor reason payloads).map RulingEvent.toRulingPayload = payloads := by
  rw [newRulings, List.map_map]
  exact List.zipIdx_map_fst st.drawn payloads

theorem length_newRulings (reason : Option String) (payloads : List RulingPayload) :
    (newRulings env st actor reason payloads).length = payloads.length := by
  rw [newRulings, List.length_map, List.length_zipIdx]

/-- The proposals that recorded rulings name. -/
theorem filterMap_newRulings (reason : Option String) (payloads : List RulingPayload) :
    ((newRulings env st actor reason payloads).filterMap fun r => r.proposalEventId) =
      payloads.filterMap RulingPayload.proposalEventId := by
  have hpayloads : (newRulings env st actor reason payloads).map RulingEvent.toRulingPayload =
      payloads := map_toRulingPayload_newRulings reason payloads
  conv_rhs => rw [← hpayloads, List.filterMap_map]
  rfl

/-- Recorded proposals say what was planned. -/
theorem map_toProposalPayload_newProposals (payloads : List ProposalPayload) :
    (newProposals env st actor payloads).map ProposalEvent.toProposalPayload = payloads := by
  rw [newProposals, List.map_map]
  exact List.zipIdx_map_fst st.drawn payloads

/-- The ids of recorded proposals, in the order they are drawn. -/
theorem map_eventId_newProposals (payloads : List ProposalPayload) :
    (newProposals env st actor payloads).map ProposalEvent.eventId =
      (List.range' st.drawn payloads.length).map env.uuid := by
  rw [← List.zipIdx_map_snd, newProposals, List.map_map, List.map_map]
  rfl

end Events

/-! ### What a proposal run records -/

section Recorded

variable {ι : Type*} {env : VocabularyEnv ι} {st : VocabularyState} {args : ProposeArgs ι}
  {doc : VocabularyDocument} {e : ProposalEvent}

theorem map_toProposalPayload_recordedProposals :
    (recordedProposals env st args doc).map ProposalEvent.toProposalPayload =
      plannedPayloads env st args doc := map_toProposalPayload_newProposals _

theorem length_recordedProposals :
    (recordedProposals env st args doc).length = (plannedPayloads env st args doc).length := by
  rw [← map_toProposalPayload_recordedProposals, List.length_map]

/-- The keys of what a run would record are keys of the plan. -/
theorem sublist_keys_plannedPayloads (args : ProposeArgs ι) (doc : VocabularyDocument) :
    ((plannedPayloads env st args doc).map ProposalPayload.key).Sublist
      (env.planProposals args.input doc (excludedKeys st args.name)).keys := by
  unfold plannedPayloads ProposalPlan.keys
  dsimp only
  rw [List.map_append, List.map_map, List.map_map]
  refine List.Sublist.append ?_ ?_
  · refine List.Sublist.map AliasProposal.key ?_
    split_ifs
    · exact List.take_sublist _ _
    · exact List.nil_sublist _
  · refine List.Sublist.map ProfileProposal.key ?_
    split_ifs
    · exact List.take_sublist _ _
    · exact List.nil_sublist _

theorem document_recordedProposals (he : e ∈ recordedProposals env st args doc) :
    e.document = args.name := by
  have hpayload := List.mem_map_of_mem (f := ProposalEvent.toProposalPayload) he
  rw [map_toProposalPayload_recordedProposals] at hpayload
  rcases List.mem_append.1 hpayload with h | h
  · obtain ⟨a, -, heq⟩ := List.mem_map.1 h
    exact (congrArg ProposalPayload.document heq).symm
  · obtain ⟨p, -, heq⟩ := List.mem_map.1 h
    exact (congrArg ProposalPayload.document heq).symm

/-- An event has an id that is drawn for it. -/
theorem eventId_recordedProposals (he : e ∈ recordedProposals env st args doc) :
    ∃ n, st.drawn ≤ n ∧ n < st.drawn + (plannedPayloads env st args doc).length ∧
      e.eventId = env.uuid n := by
  have hid := List.mem_map_of_mem (f := ProposalEvent.eventId) he
  rw [recordedProposals, map_eventId_newProposals] at hid
  obtain ⟨n, hn, heq⟩ := List.mem_map.1 hid
  obtain ⟨hle, hlt⟩ := List.mem_range'_1.1 hn
  exact ⟨n, hle, hlt, heq.symm⟩

theorem nodup_eventId_recordedProposals (hdoc : env.Documented) :
    ((recordedProposals env st args doc).map ProposalEvent.eventId).Nodup := by
  rw [recordedProposals, map_eventId_newProposals]
  exact List.Nodup.map hdoc.uuid_injective List.nodup_range'

/-- The keys are keys of the plan. -/
theorem sublist_keys_recordedProposals :
    ((recordedProposals env st args doc).map fun e => e.key).Sublist
      (env.planProposals args.input doc (excludedKeys st args.name)).keys := by
  have hkeys : ((plannedPayloads env st args doc).map ProposalPayload.key).Sublist _ :=
    sublist_keys_plannedPayloads args doc
  rwa [← map_toProposalPayload_recordedProposals, List.map_map] at hkeys

theorem nodup_key_recordedProposals (hdoc : env.Documented) :
    ((recordedProposals env st args doc).map fun e => e.key).Nodup :=
  sublist_keys_recordedProposals.nodup (hdoc.plan_apart _ _ _)

/-- A key that the document has had is not proposed again. -/
theorem key_ne_recordedProposals (hdoc : env.Documented)
    (hfits : st.proposed.length ≤ EVENT_SCAN) (he : e ∈ st.proposed) {n : ProposalEvent}
    (hn : n ∈ recordedProposals env st args doc) (hsame : e.document = n.document) :
    e.key ≠ n.key := by
  intro hkey
  have hplan := sublist_keys_recordedProposals.subset (List.mem_map_of_mem hn)
  refine hdoc.plan_excluded _ _ _ _ hplan (List.mem_map.2 ⟨e, List.mem_filter.2 ⟨?_, ?_⟩, hkey⟩)
  · exact (mem_listEvents hfits).2 he
  · exact decide_eq_true (hsame.trans (document_recordedProposals hn))

end Recorded

/-! ### Every write keeps it -/

section Invariant

variable {ι : Type*} {env : VocabularyEnv ι} {st st' : VocabularyState} {actor : String}

theorem VocabularyInv.start (env : VocabularyEnv ι) : VocabularyInv env {} := by
  constructor <;> simp [pending_iff]

/-- A published version leaves the log. -/
theorem VocabularyInv.publish (h : VocabularyInv env st) (hpublishes : Publishes env st st') :
    VocabularyInv env st' := by
  obtain ⟨doc, published, hpublished, rfl⟩ := hpublishes
  refine { h with published := ?_ }
  intro e he
  obtain ⟨row, hrow, hname⟩ := h.published e he
  exact ⟨row, subset_of_publishVersion hpublished hrow, hname⟩

/-- Rulings that name pending proposals, none of them twice. -/
theorem VocabularyInv.record (h : VocabularyInv env st) {reason : Option String}
    {payloads : List RulingPayload}
    (hpending : ∀ id ∈ payloads.filterMap RulingPayload.proposalEventId,
      ∃ e, Pending st e ∧ e.eventId = id)
    (hapart : (payloads.filterMap RulingPayload.proposalEventId).Nodup)
    (hfits : st.ruled.length + payloads.length ≤ EVENT_SCAN) :
    VocabularyInv env (recordRulings env st actor reason payloads) := by
  have hruled : ((recordRulings env st actor reason payloads).ruled.filterMap
      fun r => r.proposalEventId) = (st.ruled.filterMap fun r => r.proposalEventId) ++
        payloads.filterMap RulingPayload.proposalEventId := by
    rw [recordRulings, List.filterMap_append, filterMap_newRulings]
  refine ⟨h.published, ?_, h.idsApart, h.keysApart, ?_, ?_, ?_, h.proposedFits, ?_⟩
  · intro e he
    obtain ⟨n, hn, hid⟩ := h.ids e he
    exact ⟨n, Nat.lt_add_right _ hn, hid⟩
  · rw [hruled]
    intro id hid
    rcases List.mem_append.1 hid with hid | hid
    · exact h.ruledIds id hid
    · obtain ⟨e, he, rfl⟩ := hpending id hid
      exact ⟨e, he.1, rfl⟩
  · rw [hruled]
    refine List.nodup_append'.2 ⟨h.ruledApart, hapart, ?_⟩
    intro id hid hid'
    obtain ⟨e, he, rfl⟩ := hpending id hid'
    exact (pending_iff.1 he).2 hid
  · intro e he
    refine h.newest e ⟨he.1, ?_⟩
    intro r hr
    exact he.2 r (List.mem_append_left _ hr)
  · rw [recordRulings, List.length_append, length_newRulings]
    exact hfits

/-- The keys of a document stay apart. -/
theorem VocabularyInv.keysApart_append (h : VocabularyInv env st) (hdoc : env.Documented)
    {args : ProposeArgs ι} {doc : VocabularyDocument} :
    ∀ e ∈ st.proposed ++ recordedProposals env st args doc,
      ∀ e' ∈ st.proposed ++ recordedProposals env st args doc,
        e.document = e'.document → e.key = e'.key → e = e' := by
  intro e he e' he' hsame hkey
  rcases List.mem_append.1 he with he | he
  · rcases List.mem_append.1 he' with he' | he'
    · exact h.keysApart e he e' he' hsame hkey
    · exact absurd hkey (key_ne_recordedProposals hdoc h.proposedFits he he' hsame)
  · rcases List.mem_append.1 he' with he' | he'
    · exact absurd hkey.symm (key_ne_recordedProposals hdoc h.proposedFits he' he hsame.symm)
    · exact List.inj_on_of_nodup_map (nodup_key_recordedProposals hdoc) he he' hkey

/-- **Proposals whose keys are not pending elsewhere.** -/
theorem VocabularyInv.propose (h : VocabularyInv env st) (hdoc : env.Documented)
    {args : ProposeArgs ι} {doc : VocabularyDocument} (hcurrent : current env st args.name = .ok doc)
    (hfits : st.proposed.length + (plannedPayloads env st args doc).length ≤ EVENT_SCAN)
    (hshadows : ∀ item ∈ (plannedPayloads env st args doc).zipIdx st.drawn, ∀ e ∈ st.proposed,
      e.key = item.1.key → (Pending st e → e.document = args.name) ∧
        listKey (env.clock item.2) (env.uuid item.2) < e.listKey) :
    VocabularyInv env { st with
      proposed := st.proposed ++ recordedProposals env st args doc
      drawn := st.drawn + (plannedPayloads env st args doc).length } := by
  have hnewer : ∀ n ∈ recordedProposals env st args doc, ∀ e ∈ st.proposed, e.key = n.key →
      (Pending st e → e.document = args.name) ∧ n.listKey < e.listKey := by
    intro n hn
    obtain ⟨item, hitem, rfl⟩ := List.mem_map.1 hn
    exact hshadows item hitem
  refine ⟨?_, ?_, ?_, h.keysApart_append hdoc, ?_, h.ruledApart, ?_, ?_, h.ruledFits⟩
  · intro e he
    rcases List.mem_append.1 he with he | he
    · exact h.published e he
    · obtain ⟨hmem, hname⟩ := mem_of_latestRow (current_eq_ok.1 hcurrent)
      exact ⟨doc, hmem, hname.trans (document_recordedProposals he).symm⟩
  · intro e he
    rcases List.mem_append.1 he with he | he
    · obtain ⟨n, hn, hid⟩ := h.ids e he
      exact ⟨n, Nat.lt_add_right _ hn, hid⟩
    · obtain ⟨n, -, hn, hid⟩ := eventId_recordedProposals he
      exact ⟨n, hn, hid⟩
  · rw [List.map_append]
    refine List.nodup_append'.2 ⟨h.idsApart, nodup_eventId_recordedProposals hdoc, ?_⟩
    intro id hid hid'
    obtain ⟨e, he, rfl⟩ := List.mem_map.1 hid
    obtain ⟨e', he', heq⟩ := List.mem_map.1 hid'
    obtain ⟨n, hn, hold⟩ := h.ids e he
    obtain ⟨m, hm, -, hnew⟩ := eventId_recordedProposals he'
    have hnm := hdoc.uuid_injective (hnew.symm.trans (heq.trans hold))
    omega
  · intro id hid
    obtain ⟨e, he, heq⟩ := h.ruledIds id hid
    exact ⟨e, List.mem_append_left _ he, heq⟩
  · intro e he e' he' hkey hne
    rcases List.mem_append.1 he' with hold' | hadded'
    · rcases List.mem_append.1 he.1 with hold | hadded
      · exact h.newest e ⟨hold, he.2⟩ e' hold' hkey hne
      · exact (hnewer e hadded e' hold' hkey).2
    · -- a later proposal of the key would be one of the same document
      refine absurd (h.keysApart_append hdoc e' he' e he.1 ?_ hkey) hne
      rw [document_recordedProposals hadded']
      rcases List.mem_append.1 he.1 with hold | hadded
      · exact ((hnewer e' hadded' e hold hkey.symm).1 ⟨hold, he.2⟩).symm
      · exact (document_recordedProposals hadded).symm
  · change (st.proposed ++ recordedProposals env st args doc).length ≤ EVENT_SCAN
    rw [List.length_append, length_recordedProposals]
    exact hfits

/-- A proposal with no ruling is pending. -/
theorem VocabularyInv.rulingOf_eq_none (h : VocabularyInv env st) (hdoc : env.Documented)
    {e : ProposalEvent} (he : e ∈ st.proposed) : rulingOf st e.eventId = none ↔ Pending st e := by
  obtain ⟨n, -, hid⟩ := h.ids e he
  have hne : e.eventId ≠ "" := hid ▸ hdoc.uuid_ne n
  rw [Vocabulary.rulingOf_eq_none h.ruledFits hne]
  exact (and_iff_right he).symm

/-- A proposal that is looked up is pending. -/
theorem VocabularyInv.pending_of_lookupKey (h : VocabularyInv env st) (hdoc : env.Documented)
    {key : String} {e : ProposalEvent} (hlookup : lookupKey env st key = .ok e) : Pending st e := by
  obtain ⟨hmem, -⟩ := mem_of_lookupKey hlookup
  exact (h.rulingOf_eq_none hdoc hmem).1 (lookupKey_eq_ok.1 hlookup).2

/-- The proposals that a ruling call finds are pending, and none is found twice. -/
theorem VocabularyInv.loaded (h : VocabularyInv env st) (hdoc : env.Documented) {keys : List String}
    (hmeets : RulesApart env st keys) {name : String} {events : List ProposalEvent}
    (hloaded : loadPending env st keys = .ok (name, events)) :
    (∀ e ∈ events, Pending st e) ∧ (events.map ProposalEvent.eventId).Nodup ∧
      st.ruled.length + events.length ≤ EVENT_SCAN := by
  obtain ⟨hkeys, hfits⟩ := hmeets _ hloaded
  obtain ⟨hlookups, -⟩ := loadPending_spec hloaded
  have hpending : ∀ e ∈ events, Pending st e := by
    intro e he
    obtain ⟨i, hi, rfl⟩ := List.mem_iff_getElem.1 he
    exact h.pending_of_lookupKey hdoc (hlookups.get (hlookups.length_eq ▸ hi) hi)
  have hmap : (events.map fun e => e.key) = keys := by
    refine List.ext_getElem ?_ ?_
    · rw [List.length_map, hlookups.length_eq]
    · intro i hi hi'
      rw [List.getElem_map]
      exact (mem_of_lookupKey (hlookups.get hi' (List.length_map _ ▸ hi))).2
  refine ⟨hpending, ?_, hlookups.length_eq ▸ hfits⟩
  refine List.Nodup.map_on ?_ ((hmap ▸ hkeys).of_map _)
  intro a ha b hb hid
  exact List.inj_on_of_nodup_map h.idsApart (hpending a ha).1 (hpending b hb).1 hid

/-- Rulings on the proposals that a call finds. -/
theorem VocabularyInv.rule (h : VocabularyInv env st) (hdoc : env.Documented) {keys : List String}
    (hmeets : RulesApart env st keys) {name : String} {events : List ProposalEvent}
    (hloaded : loadPending env st keys = .ok (name, events)) {reason : Option String}
    {payload : ProposalEvent → RulingPayload}
    (hpayload : ∀ e, (payload e).proposalEventId = some e.eventId) :
    VocabularyInv env (recordRulings env st actor reason (events.map payload)) := by
  obtain ⟨hpending, hapart, hfits⟩ := h.loaded hdoc hmeets hloaded
  have hids : (events.map payload).filterMap RulingPayload.proposalEventId =
      events.map ProposalEvent.eventId := by
    rw [List.filterMap_map, ← List.filterMap_eq_map]
    exact List.filterMap_congr fun e _ => hpayload e
  refine h.record ?_ (hids ▸ hapart) ?_
  · intro id hid
    rw [hids] at hid
    obtain ⟨e, he, heq⟩ := List.mem_map.1 hid
    exact ⟨e, hpending e he, heq⟩
  · rw [List.length_map]
    exact hfits

/-- A version can as well be published after the rulings are recorded. -/
theorem Publishes.record {mid : VocabularyState} (h : Publishes env st mid) (reason : Option String)
    (payloads : List RulingPayload) :
    Publishes env (recordRulings env st actor reason payloads)
      (recordRulings env mid actor reason payloads) := by
  obtain ⟨doc, published, hpublished, rfl⟩ := h
  exact ⟨doc, published, hpublished, rfl⟩

/-- **A call that meets the condition keeps the invariant.** -/
theorem VocabularyInv.afterCall (h : VocabularyInv env st) (hdoc : env.Documented)
    {call : VocabularyCall ι} (hmeets : CallMeets env st call) :
    VocabularyInv env (afterCall env st call) := by
  unfold Vocabulary.afterCall
  cases hresult : callResult env st call with
  | error message => exact h
  | ok st' =>
      dsimp only
      cases call with
      | create name iriPrefix namespaceIri publisher => exact h.publish (createDocument_ok hresult)
      | importDocument text => exact h.publish (importDocument_ok hresult)
      | align name termRef alignment actor =>
          obtain ⟨mid, payload, hmid, hnone, rfl⟩ := align_ok hresult
          have hnames : [payload].filterMap RulingPayload.proposalEventId = [] := by
            rw [List.filterMap_cons_none hnone, List.filterMap_nil]
          refine VocabularyInv.publish ?_ (hmid.record none [payload])
          refine h.record ?_ ?_ hmeets
          · rw [hnames]
            intro id hid
            cases hid
          · rw [hnames]
            exact List.nodup_nil
      | propose args =>
          obtain ⟨doc, hcurrent, rfl | ⟨hrecords, rfl⟩⟩ := propose_ok hresult
          · exact h
          · obtain ⟨hfits, hshadows⟩ := hmeets hrecords doc hcurrent
            exact h.propose hdoc hcurrent hfits hshadows
      | confirm keys kind pastForms actor reason =>
          obtain ⟨name, events, mid, stored, hloaded, hmid, rfl⟩ := confirm_ok hresult
          refine VocabularyInv.publish ?_ (hmid.record reason _)
          exact h.rule hdoc hmeets hloaded fun e => rfl
      | decline keys actor reason =>
          obtain ⟨name, events, hloaded, rfl⟩ := decline_ok hresult
          exact h.rule hdoc hmeets hloaded fun e => rfl

/-! ### What the invariant says of a state -/

/-- A proposal has at most one ruling. -/
theorem VocabularyInv.ruledOnce (h : VocabularyInv env st) (e : ProposalEvent) :
    (st.ruled.countP fun r => r.proposalEventId = some e.eventId) ≤ 1 := by
  have hcount := List.nodup_iff_count_le_one.1 h.ruledApart e.eventId
  rw [List.count_filterMap] at hcount
  refine le_of_eq_of_le (List.countP_congr ?_) hcount
  intro r _
  rw [decide_eq_true_eq, beq_iff_eq]

/-- **A pending proposal is found by its key**, since the others with the key are older. -/
theorem VocabularyInv.lookupKey (h : VocabularyInv env st) (hdoc : env.Documented)
    {e : ProposalEvent} (hpending : Pending st e) :
    Vocabulary.lookupKey env st e.key = .ok e := by
  refine lookupKey_eq_ok.2 ⟨?_, (h.rulingOf_eq_none hdoc hpending.1).2 hpending⟩
  have hinj : ∀ a ∈ st.proposed, ∀ b ∈ st.proposed, a.listKey = b.listKey → a = b := by
    intro a ha b hb hkey
    exact List.inj_on_of_nodup_map h.idsApart ha hb (congrArg (fun k => (ofLex k).2) hkey)
  rw [proposals, listEvents_eq h.proposedFits, ← List.head?_filter, ← sortBy_filter,
    head?_sortBy_filter _ hinj]
  refine ⟨hpending.1, decide_eq_true rfl, ?_⟩
  intro e' he' hkey
  by_cases heq : e' = e
  · rw [heq]
  · exact (h.newest e hpending e' he' (of_decide_eq_true hkey) heq).le

/-- What is listed as pending is not ruled. -/
theorem VocabularyInv.pending_of_listed (h : VocabularyInv env st) (hdoc : env.Documented)
    {document : Option String} {e : ProposalEvent} (he : e ∈ pendingProposals st document) :
    Pending st e := by
  obtain ⟨hlisted, hkept⟩ := List.mem_filter.1 (mem_sortBy.1 he)
  have hruling := Option.isNone_iff_eq_none.1 (of_decide_eq_true hkept).1
  exact (h.rulingOf_eq_none hdoc (mem_of_mem_listEvents hlisted)).1 hruling

/-- What the revision helpers make of a document keeps its terms and its name. -/
theorem reviseBy_adds (hdoc : env.Documented) {kind : Option SlotKind} {past : List String}
    {reason : Option String} {doc doc' : VocabularyDocument} {e : ProposalEvent}
    (h : reviseBy env kind past actor reason doc e = .ok doc') :
    KeepsTerms doc doc' ∧ doc'.name = doc.name := by
  unfold reviseBy at h
  rcases hkind : e.kind with _ | _
  · simp only [hkind] at h
    exact hdoc.addAlias_adds _ _ _ _ _ _ _ h
  · cases kind with
    | none =>
        simp only [hkind] at h
        cases h
    | some kind =>
        simp only [hkind] at h
        obtain ⟨mid, hmid, h⟩ := bind_eq_ok.1 h
        have hset := hdoc.setProfile_adds _ _ _ _ _ _ _ _ h
        split_ifs at hmid
        · obtain rfl := Except.ok.inj hmid
          exact hset
        · have hadd := hdoc.addAlias_adds _ _ _ _ _ _ _ hmid
          exact ⟨hadd.1.trans hset.1, hset.2.trans hadd.2⟩

theorem reviseAll_adds (hdoc : env.Documented) {kind : Option SlotKind} {past : List String}
    {reason : Option String} {events : List ProposalEvent} : ∀ {doc doc' : VocabularyDocument},
      reviseAll env kind past actor reason doc events = .ok doc' →
        KeepsTerms doc doc' ∧ doc'.name = doc.name := by
  induction events with
  | nil =>
      intro doc doc' h
      obtain rfl := Except.ok.inj h
      exact ⟨KeepsTerms.refl doc, rfl⟩
  | cons e events ih =>
      intro doc doc' h
      obtain ⟨mid, hmid, hrest⟩ := bind_eq_ok.1 h
      have hfirst := reviseBy_adds hdoc hmid
      have hlast := ih hrest
      exact ⟨hfirst.1.trans hlast.1, hlast.2.trans hfirst.2⟩

/-- A revision that keeps the latest version of its name is published under the next number. -/
theorem publishVersion_revised {env : PublishEnv} {versions : List VocabularyDocument}
    {doc revised : VocabularyDocument} (hlatest : latestRow versions revised.name = some doc)
    (hkeeps : KeepsTerms doc revised) (hapart : TermsApart revised)
    (hextracts : env.extracts { revised with version := doc.version + 1 } = true) :
    publishVersion env versions { revised with version := doc.version + 1 } =
      .ok (versions ++ [{ revised with version := doc.version + 1 }],
        { revised with version := doc.version + 1 }) := by
  have hnext : Keeps doc { revised with version := doc.version + 1 } :=
    ⟨⟨hkeeps.namespaceIri, hkeeps.iriPrefix, hkeeps.terms⟩, Nat.lt_succ_self _⟩
  refine publishVersion_append ?_ ?_ hextracts
  · intro row hrow hname
    exact Nat.lt_succ_of_le (version_le_latestRow hlatest hrow hname)
  · unfold storeRefusal
    rw [hlatest, Option.bind_some]
    exact revisionRefusal_eq_none hnext hapart

/-- **A pending proposal can be ruled by its key.** -/
theorem VocabularyInv.canBeRuled (h : VocabularyInv env st) (hdoc : env.Documented)
    {e : ProposalEvent} (hpending : Pending st e) : CanBeRuled env st e := by
  have hloaded := loadPending_singleton (h.lookupKey hdoc hpending)
  constructor
  · intro actor reason
    have hdeclined : decline env st [e.key] actor reason =
        .ok (recordRulings env st actor reason [declinedPayload e.document e]) := by
      unfold decline
      rw [hloaded]
      rfl
    exact ⟨_, hdeclined, _, rfl, rfl, rfl⟩
  · intro kind pastForms actor reason st' hconfirm
    obtain ⟨name, events, mid, stored, hloaded', ⟨doc, published, -, rfl⟩, rfl⟩ := confirm_ok hconfirm
    obtain ⟨rfl, rfl⟩ := Prod.mk.inj (Except.ok.inj (hloaded.symm.trans hloaded'))
    exact ⟨_, rfl, rfl, rfl⟩
  · obtain ⟨row, hrow, hname⟩ := h.published e hpending.1
    cases hlatest : latestRow st.versions e.document with
    | none => exact absurd hname (latestRow_eq_none.1 hlatest row hrow)
    | some doc =>
        have hcurrent : current env st e.document = .ok doc := current_eq_ok.2 hlatest
        refine ⟨doc, hcurrent, ?_⟩
        intro kind pastForms actor reason revised hrevised hapart hextracts
        obtain ⟨hkeeps, hrevisedName⟩ := reviseAll_adds hdoc hrevised
        have hname' := hrevisedName.trans (mem_of_latestRow hlatest).2
        have hpublished := publishVersion_revised (hname' ▸ hlatest) hkeeps hapart hextracts
        exact ⟨_, confirm_eq_ok hloaded hcurrent hrevised hpublished⟩

/-- **A proposal that another shadows cannot be ruled**: the ruling by its key names the other. -/
theorem not_canBeRuled_of_lookupKey {e other : ProposalEvent}
    (hlookup : lookupKey env st e.key = .ok other) (hne : other.eventId ≠ e.eventId) :
    ¬ CanBeRuled env st e := by
  intro h
  obtain ⟨st', hdeclined, r, hruled, hnames, -⟩ := h.declined "" none
  obtain ⟨name, events, hloaded, rfl⟩ := decline_ok hdeclined
  obtain ⟨rfl, rfl⟩ := Prod.mk.inj (Except.ok.inj
    (hloaded.symm.trans (loadPending_singleton hlookup)))
  have hsame := List.append_cancel_left hruled
  obtain rfl := List.head_eq_of_cons_eq hsame
  exact hne (Option.some.inj hnames)

/-- **What the invariant says.** -/
theorem VocabularyInv.sound (h : VocabularyInv env st) (hdoc : env.Documented) :
    VocabularySound env st := by
  refine ⟨h.keysApart, fun e _ => h.ruledOnce e, ?_⟩
  intro document e he
  exact h.canBeRuled hdoc (h.pending_of_listed hdoc he)

/-- **Vocabulary runs.**  In every run a later version of a document keeps every earlier one; and in every
run whose calls meet the condition the log is sound in every state. -/
theorem vocabulary_runs_sound (hdoc : env.Documented) (calls : List (VocabularyCall ι)) :
    (∀ s, run (vocabularyStep env) {} calls = some s → VersionsKept s) ∧
      (StepsMeet (vocabularyStep env) (CallMeets env) {} calls →
        ∀ before after s, calls = before ++ after →
          run (vocabularyStep env) {} before = some s → VocabularySound env s) := by
  constructor
  · intro s hrun
    have hstart : Chained ({} : VocabularyState).versions := List.Pairwise.nil
    have hchained : Chained s.versions := by
      refine run_invariant (fun s : VocabularyState => Chained s.versions) ?_ hstart hrun
      intro s call s' hs hstep
      obtain rfl := Option.some.inj hstep
      exact hs.afterCall call
    intro a ha b hb hname hversion
    exact (hchained.keeps ha hb hname hversion).toKeepsTerms
  · intro hmeets before after s hcalls hrun
    have hinv : VocabularyInv env s := by
      refine hmeets.invariant (VocabularyInv env) ?_ (VocabularyInv.start env) hcalls hrun
      intro s call s' hs hcall hstep
      obtain rfl := Option.some.inj hstep
      exact hs.afterCall hdoc hcall
    exact hinv.sound hdoc

end Invariant

/-! ### Two documents -/

/-- The key of a proposal is made of its kind, its class and its forms. -/
def KeyedByForms {ι : Type*} (env : VocabularyEnv ι) : Prop :=
  ∃ keyOf : ProposalKind → String → List String → String, ∀ input doc excluded,
    (∀ a ∈ (env.planProposals input doc excluded).aliases,
        a.key = keyOf .alias a.subjectClass (a.canonical :: a.aliases)) ∧
      ∀ p ∈ (env.planProposals input doc excluded).profiles, p.key = keyOf .profile p.subjectClass [p.form]

/-- A term for a form of a person, unless the document has one. -/
def withTerm (doc : VocabularyDocument) (form : String) : VocabularyDocument where
  name := doc.name
  version := doc.version + 1
  iriPrefix := doc.iriPrefix
  namespaceIri := doc.namespaceIri
  publisher := doc.publisher
  terms := doc.terms ++ if form ∈ doc.terms.map VocabularyTerm.form then [] else
    [{ localName := form, form := form, subjectClass := "person" }]

/-- An engine whose census is a list of forms of a person, each of which may be profiled. -/
def formsEnv : VocabularyEnv (List String) where
  repr := id
  dumps doc := doc.name
  entryId doc := doc.name
  extracts _ := true
  planProposals forms doc excluded :=
    { profiles := (forms.dedup.filter fun form =>
          form ∉ excluded ∧ form ∉ doc.terms.map VocabularyTerm.form).map fun form =>
        { key := form, subjectClass := "person", form := form, surfaces := [(form, 1)], claims := 1 } }
  newDocument name iriPrefix namespaceIri publisher :=
    .ok { name := name, version := 1, iriPrefix := iriPrefix, namespaceIri := namespaceIri,
          publisher := publisher }
  loads _ := .error "not a vocabulary document"
  addAlias doc form _ _ _ _ := .ok (withTerm doc form)
  setProfile doc form _ _ _ _ _ := .ok (withTerm doc form)
  addAlignment doc _ _ := .ok { doc with version := doc.version + 1 }
  findTerm doc form _ := doc.terms.find? fun t => t.form = form
  normalisePredicate := id
  uuid n := String.ofList (List.replicate (n + 1) 'e')
  clock n := n

theorem keepsTerms_withTerm (doc : VocabularyDocument) (form : String) :
    KeepsTerms doc (withTerm doc form) :=
  ⟨rfl, rfl, fun term hterm => ⟨term, List.mem_append_left _ hterm, rfl, rfl, rfl⟩⟩

theorem keys_formsEnv (forms : List String) (doc : VocabularyDocument) (excluded : List String) :
    (formsEnv.planProposals forms doc excluded).keys = forms.dedup.filter fun form =>
      form ∉ excluded ∧ form ∉ doc.terms.map VocabularyTerm.form := by
  rw [ProposalPlan.keys, formsEnv, List.map_nil, List.nil_append, List.map_map]
  exact List.map_id _

theorem formsEnv_documented : formsEnv.Documented where
  plan_excluded forms doc excluded key hkey := by
    rw [keys_formsEnv] at hkey
    exact (of_decide_eq_true (List.mem_filter.1 hkey).2).1
  plan_apart forms doc excluded := by
    rw [keys_formsEnv]
    exact (List.nodup_dedup forms).filter _
  addAlias_adds doc form cls aliases ruling label doc' h := by
    obtain rfl := Except.ok.inj h
    exact ⟨keepsTerms_withTerm doc form, rfl⟩
  setProfile_adds doc form cls kind past ruling label doc' h := by
    obtain rfl := Except.ok.inj h
    exact ⟨keepsTerms_withTerm doc form, rfl⟩
  uuid_injective n m h := by
    have hlength := congrArg List.length (String.ofList_injective h)
    simpa using hlength
  uuid_ne n h := by
    have hnil := String.ofList_injective (h.trans String.ofList_nil.symm)
    cases hnil

theorem formsEnv_keyedByForms : KeyedByForms formsEnv := by
  refine ⟨fun _ _ forms => forms.headD "", ?_⟩
  intro forms doc excluded
  constructor
  · intro a ha
    cases ha
  · intro p hp
    obtain ⟨form, -, rfl⟩ := List.mem_map.1 hp
    rfl

/-- The calls that make two documents and propose one form to each, `between` in the middle. -/
def proposeTwice (between : List (VocabularyCall (List String))) :
    List (VocabularyCall (List String)) :=
  [.create "staff" "st" "urn:staff:" none, .create "press" "pr" "urn:press:" none,
    .propose { name := "staff", input := ["works for"], limit := 1 }] ++ between ++
      [.propose { name := "press", input := ["works for"], limit := 1 }]

/-- The state that calls lead to. -/
def afterCalls (calls : List (VocabularyCall (List String))) : VocabularyState :=
  calls.foldl (afterCall formsEnv) {}

/-- Once the proposal of the first document is confirmed, the second may propose the key. -/
theorem vocabulary_runs_sound_two :
    VocabularySound formsEnv (afterCalls (proposeTwice
      [.confirm ["works for"] (some .ONE_AT_A_TIME) [] "operator" none])) :=
  (vocabulary_runs_sound formsEnv_documented (proposeTwice
    [.confirm ["works for"] (some .ONE_AT_A_TIME) [] "operator" none])).2 (by decide +kernel)
      _ [] _ (List.append_nil _).symm (run_vocabularyStep formsEnv _ _)

/-- The first of two proposals with one key is listed, and declining the key rules on the second; and a
decline that gives a key twice rules on its proposal twice. -/
theorem vocabulary_shadows_pending : formsEnv.Documented ∧ KeyedByForms formsEnv ∧
    (∃ s, run (vocabularyStep formsEnv) {} (proposeTwice []) = some s ∧
      ∃ e ∈ pendingProposals s (some "staff"), ¬ CanBeRuled formsEnv s e) ∧
    ∃ s, run (vocabularyStep formsEnv) {} (proposeTwice
        [.decline ["works for", "works for"] "operator" none]) = some s ∧
      ∃ e ∈ s.proposed, ¬ (s.ruled.countP fun r => r.proposalEventId = some e.eventId) ≤ 1 := by
  refine ⟨formsEnv_documented, formsEnv_keyedByForms, ⟨_, run_vocabularyStep _ _ _, ?_⟩,
    ⟨_, run_vocabularyStep _ _ _, by decide +kernel⟩⟩
  have hshadowed : ∃ e ∈ pendingProposals (afterCalls (proposeTwice [])) (some "staff"),
      ∃ other ∈ (afterCalls (proposeTwice [])).proposed,
        lookupKey formsEnv (afterCalls (proposeTwice [])) e.key = .ok other ∧
          other.eventId ≠ e.eventId := by decide +kernel
  obtain ⟨e, he, other, -, hlookup, hne⟩ := hshadowed
  exact ⟨e, he, not_canBeRuled_of_lookupKey hlookup hne⟩

end Vocabulary

end ParticlesEngine
