/-
**Proposals of a vocabulary and their rulings.**

A proposal lives only in the operator's event log.  `propose` records candidates of a document, each under
a key that the document has not had; `confirm` and `decline` look proposals up by key, over all documents,
and record a ruling on each, which names the proposal's event.  A key says what is proposed and not for
which document, so two documents can hold proposals with one key, and the lookup finds only the newest.

Main definitions:

* `VocabularyState`, `VocabularyEnv` — the versions and the two kinds of events; what comes from elsewhere;
* `pendingProposals`, `propose`, `loadPending`, `confirm`, `decline` — the operations;
* `VocabularyCall`, `afterCall` — a call, and the state it leaves;
* `Pending`, `Publishes` — what is not ruled yet, and what a publication changes.

Main results:

* `lookupKey_eq_ok`, `loadPending_spec` — the proposals that a ruling call finds;
* `createDocument_ok`, `importDocument_ok`, `align_ok`, `propose_ok`, `confirm_ok`, `decline_ok` — **what
  a call that goes through has written**.
-/

import Mathlib.Data.List.Dedup
import Mathlib.Data.Prod.Lex
import Mathlib.Data.String.Basic
import Mathlib.Order.OrderDual
import ParticlesEngine.MergedDict
import ParticlesEngine.ParticleStore
import ParticlesEngine.Runs
import ParticlesEngine.Schema
import ParticlesEngine.SortBy
import ParticlesEngine.VocabularyStore

set_option relaxedAutoImplicit false
set_option autoImplicit false

open SortBy Runs

namespace ParticlesEngine

namespace Vocabulary

/-! ### Events -/

inductive ProposalKind where
  | alias
  | profile
  deriving DecidableEq, Repr

inductive SlotKind where
  | TIMELESS_SINGLE
  | ONE_AT_A_TIME
  | MANY_AT_ONCE
  deriving DecidableEq, Repr

/-- What a proposal says, as its event carries it. -/
structure ProposalPayload where
  document : String
  documentVersion : ℕ
  key : String
  kind : ProposalKind
  subjectClass : String
  form : String
  aliases : List String := []
  label : Option String := none
  claims : ℕ := 0
  evidence : List (String × String) := []
  deriving DecidableEq, Repr

/-- A `VOCABULARY_PROPOSED` event. -/
structure ProposalEvent extends ProposalPayload where
  eventId : String
  occurredAt : Instant
  actor : String
  deriving DecidableEq, Repr

/-- What a ruling says, as its event carries it. -/
structure RulingPayload where
  resolution : String
  /-- an alignment rules on no proposal -/
  proposalEventId : Option String := none
  key : Option String := none
  kind : Option ProposalKind := none
  document : String
  version : Option ℕ := none
  term : Option String := none
  slotKind : Option SlotKind := none
  deriving DecidableEq, Repr

/-- A `VOCABULARY_RULED` event. -/
structure RulingEvent extends RulingPayload where
  eventId : String
  occurredAt : Instant
  actor : String
  reason : Option String := none
  deriving DecidableEq, Repr

/-- The versions of the documents, and the events of the two types in the order they were recorded.  An
event draws an id and a time. -/
structure VocabularyState where
  versions : List VocabularyDocument := []
  proposed : List ProposalEvent := []
  ruled : List RulingEvent := []
  /-- how many of these events have been recorded -/
  drawn : ℕ := 0
  deriving DecidableEq, Repr

/-! ### What comes from elsewhere -/

/-- A group of forms that may be one predicate. -/
structure AliasProposal where
  key : String
  subjectClass : String
  canonical : String
  aliases : List String
  /-- each member's form, and how it is displayed -/
  members : List (String × String)
  claims : ℕ
  evidence : List (String × String) := []

/-- A canonical predicate that no document profiles yet. -/
structure ProfileProposal where
  key : String
  subjectClass : String
  form : String
  /-- the surfaces of the form, the most frequent first -/
  surfaces : List (String × ℕ)
  claims : ℕ
  evidence : List (String × String) := []

structure ProposalPlan where
  aliases : List AliasProposal := []
  profiles : List ProfileProposal := []

/-- The keys of a plan. -/
def ProposalPlan.keys (plan : ProposalPlan) : List String :=
  plan.aliases.map AliasProposal.key ++ plan.profiles.map ProfileProposal.key

/-- Who confirmed what a revision adds, and on what. -/
structure Ruling where
  confirmedBy : String
  evidence : List (String × String)
  proposalEventId : Option String

/-- What the operations take from the core package, the clock and the id source.  A census with its
vectors is an element of `ι`. -/
structure VocabularyEnv (ι : Type*) extends PublishEnv where
  planProposals : ι → VocabularyDocument → List String → ProposalPlan
  newDocument : String → String → String → Option String → Except String VocabularyDocument
  loads : String → Except String VocabularyDocument
  addAlias : VocabularyDocument → String → String → List String → Ruling → Option String →
    Except String VocabularyDocument
  setProfile : VocabularyDocument → String → String → SlotKind → List String → Ruling →
    Option String → Except String VocabularyDocument
  addAlignment : VocabularyDocument → String → String → Except String VocabularyDocument
  findTerm : VocabularyDocument → String → String → Option VocabularyTerm
  normalisePredicate : String → String
  /-- the id of the n-th event -/
  uuid : ℕ → String
  /-- the time the n-th event is recorded -/
  clock : ℕ → Instant

/-- **What is documented of it**: a plan offers no excluded key and no key twice, the revision helpers
only add to a document, and ids are never drawn twice. -/
structure VocabularyEnv.Documented {ι : Type*} (env : VocabularyEnv ι) : Prop where
  plan_excluded : ∀ input doc excluded, ∀ key ∈ (env.planProposals input doc excluded).keys,
    key ∉ excluded
  plan_apart : ∀ input doc excluded, (env.planProposals input doc excluded).keys.Nodup
  addAlias_adds : ∀ doc form cls aliases ruling label doc',
    env.addAlias doc form cls aliases ruling label = .ok doc' →
      KeepsTerms doc doc' ∧ doc'.name = doc.name
  setProfile_adds : ∀ doc form cls kind past ruling label doc',
    env.setProfile doc form cls kind past ruling label = .ok doc' →
      KeepsTerms doc doc' ∧ doc'.name = doc.name
  uuid_injective : Function.Injective env.uuid
  uuid_ne : ∀ n, env.uuid n ≠ ""

/-! ### Reading the log -/

/-- `_EVENT_SCAN`. -/
def EVENT_SCAN : ℕ := 1000000

/-- The place of an event in a list, newest first. -/
def listKey (occurredAt : Instant) (eventId : String) : Instantᵒᵈ ×ₗ String :=
  toLex (OrderDual.toDual occurredAt, eventId)

def ProposalEvent.listKey (e : ProposalEvent) : Instantᵒᵈ ×ₗ String :=
  Vocabulary.listKey e.occurredAt e.eventId

def RulingEvent.listKey (e : RulingEvent) : Instantᵒᵈ ×ₗ String :=
  Vocabulary.listKey e.occurredAt e.eventId

/-- `list_events` of one type, up to `_EVENT_SCAN`. -/
def listEvents {ε : Type*} (key : ε → Instantᵒᵈ ×ₗ String) (events : List ε) : List ε :=
  (sortBy key events).take EVENT_SCAN

section Reads

variable (st : VocabularyState)

/-- The proposal events, newest first. -/
def proposals : List ProposalEvent := listEvents ProposalEvent.listKey st.proposed

/-- The ruling on a proposal event: of several the oldest. -/
def rulingOf (eventId : String) : Option RulingEvent :=
  (listEvents RulingEvent.listKey st.ruled).reverse.find? fun e =>
    e.proposalEventId = some eventId ∧ eventId ≠ ""

/-- **`pending_proposals`**: unruled proposals, highest claim count first. -/
def pendingProposals (document : Option String) : List ProposalEvent :=
  sortBy (fun e : ProposalEvent => toLex (OrderDual.toDual e.claims, e.occurredAt))
    ((proposals st).filter fun e =>
      (rulingOf st e.eventId).isNone ∧ (document = none ∨ document = some e.document))

end Reads

section Operations

variable {ι : Type*} (env : VocabularyEnv ι) (st : VocabularyState)

/-- `_current`. -/
def current (name : String) : Except String VocabularyDocument :=
  match getDocument st.versions name none with
  | some doc => .ok doc
  | none =>
      .error ("No vocabulary named " ++ env.repr name ++ ": create or import it first.")

/-- The events that proposals are recorded as. -/
def newProposals (actor : String) (payloads : List ProposalPayload) : List ProposalEvent :=
  (payloads.zipIdx st.drawn).map fun item =>
    { toProposalPayload := item.1, eventId := env.uuid item.2, occurredAt := env.clock item.2,
      actor := actor }

/-- The events that rulings are recorded as. -/
def newRulings (actor : String) (reason : Option String) (payloads : List RulingPayload) :
    List RulingEvent :=
  (payloads.zipIdx st.drawn).map fun item =>
    { toRulingPayload := item.1, eventId := env.uuid item.2, occurredAt := env.clock item.2,
      actor := actor, reason := reason }

def recordRulings (actor : String) (reason : Option String) (payloads : List RulingPayload) :
    VocabularyState :=
  { st with ruled := st.ruled ++ newRulings env st actor reason payloads
            drawn := st.drawn + payloads.length }

/-! ### Documents -/

/-- `create_document`. -/
def createDocument (name iriPrefix namespaceIri : String) (publisher : Option String) :
    Except String VocabularyState :=
  match getDocument st.versions name none with
  | some _ => .error ("A vocabulary named " ++ env.repr name ++ " already exists.")
  | none =>
      (env.newDocument name iriPrefix namespaceIri publisher).bind fun doc =>
        (publishVersion env.toPublishEnv st.versions doc).map fun published =>
          { st with versions := published.1 }

/-- `import_document`. -/
def importDocument (text : String) : Except String VocabularyState :=
  (env.loads text).bind fun doc =>
    (publishVersion env.toPublishEnv st.versions doc).map fun published =>
      { st with versions := published.1 }

/-- `align`. -/
def align (name termRef alignment actor : String) : Except String VocabularyState :=
  (current env st name).bind fun doc =>
    (env.addAlignment doc termRef alignment).bind fun revised =>
      (publishVersion env.toPublishEnv st.versions revised).map fun published =>
        recordRulings env { st with versions := published.1 } actor none
          [{ resolution := "aligned", document := name, version := some published.2.version,
             term := some termRef }]

/-! ### Proposing -/

/-- What a proposal run is asked for. -/
structure ProposeArgs (ι : Type*) where
  name : String
  input : ι
  limit : ℕ
  kinds : List String := ["alias", "profile"]
  dryRun : Bool := false
  actor : String := "operator"

def aliasPayload (name : String) (doc : VocabularyDocument) (a : AliasProposal) : ProposalPayload where
  document := name
  documentVersion := doc.version
  key := a.key
  kind := .alias
  subjectClass := a.subjectClass
  form := a.canonical
  aliases := a.aliases
  label := (a.members.find? fun m => m.1 = a.canonical).map Prod.snd
  claims := a.claims
  evidence := a.evidence

def profilePayload (name : String) (doc : VocabularyDocument) (p : ProfileProposal) :
    ProposalPayload where
  document := name
  documentVersion := doc.version
  key := p.key
  kind := .profile
  subjectClass := p.subjectClass
  form := p.form
  label := p.surfaces.head?.map Prod.fst
  claims := p.claims
  evidence := p.evidence

/-- The keys already proposed for a document. -/
def excludedKeys (name : String) : List String :=
  ((proposals st).filter fun e => e.document = name).map fun e => e.key

/-- What a run would record. -/
def plannedPayloads (args : ProposeArgs ι) (doc : VocabularyDocument) : List ProposalPayload :=
  let plan := env.planProposals args.input doc (excludedKeys st args.name)
  (if "alias" ∈ args.kinds then plan.aliases.take args.limit else []).map
      (aliasPayload args.name doc) ++
    (if "profile" ∈ args.kinds then plan.profiles.take args.limit else []).map
      (profilePayload args.name doc)

/-- **`propose`.** -/
def propose (args : ProposeArgs ι) : Except String VocabularyState :=
  (current env st args.name).map fun doc =>
    let payloads := plannedPayloads env st args doc
    if args.dryRun then st
    else
      { st with proposed := st.proposed ++ newProposals env st args.actor payloads
                drawn := st.drawn + payloads.length }

/-! ### Ruling -/

/-- The pending proposal of a key. -/
def lookupKey (key : String) : Except String ProposalEvent :=
  match (proposals st).find? fun e => e.key = key with
  | none => .error ("No vocabulary proposal " ++ env.repr key ++ ".")
  | some event =>
      match rulingOf st event.eventId with
      | some ruling =>
          .error ("Proposal " ++ env.repr key ++ " was already " ++ ruling.resolution ++ ".")
      | none => .ok event

def lookupKeys : List String → Except String (List ProposalEvent)
  | [] => .ok []
  | key :: keys => (lookupKey env st key).bind fun event => (lookupKeys keys).map (event :: ·)

/-- **`_load_pending`: the pending proposal of each key, all of one document.** -/
def loadPending (keys : List String) : Except String (String × List ProposalEvent) :=
  (lookupKeys env st keys).bind fun events =>
    match (events.map fun e => e.document).dedup with
    | [name] => .ok (name, events)
    | documents =>
        .error ("Proposals " ++ ", ".intercalate keys ++ " belong to different documents: [" ++
          ", ".intercalate ((sortBy id documents).map env.repr) ++ "].")

/-- What a proposal adds to its document. -/
def reviseBy (kind : Option SlotKind) (past : List String) (actor : String) (reason : Option String)
    (doc : VocabularyDocument) (event : ProposalEvent) : Except String VocabularyDocument :=
  let evidence := match reason.filter (· ≠ "") with
    | some given => MergedDict.upsert (fun _ => given) "reason" event.evidence
    | none => event.evidence
  let ruling : Ruling := ⟨actor, evidence, some event.eventId⟩
  match event.kind with
  | .alias => env.addAlias doc event.form event.subjectClass event.aliases ruling event.label
  | .profile =>
      match kind with
      | none =>
          .error ("Proposal " ++ env.repr event.key ++ " is a profile: say which kind of slot " ++
            "it fills (--kind timeless_single | one_at_a_time | many_at_once).")
      | some kind =>
          (if past = [] then .ok doc
            else env.addAlias doc event.form event.subjectClass past ruling event.label).bind
              fun doc =>
                env.setProfile doc event.form event.subjectClass kind past ruling event.label

def reviseAll (kind : Option SlotKind) (past : List String) (actor : String)
    (reason : Option String) : VocabularyDocument → List ProposalEvent →
      Except String VocabularyDocument
  | doc, [] => .ok doc
  | doc, event :: events =>
      (reviseBy env kind past actor reason doc event).bind fun doc =>
        reviseAll kind past actor reason doc events

/-- The ruling that confirms a proposal. -/
def confirmedPayload (name : String) (kind : Option SlotKind) (stored : VocabularyDocument)
    (event : ProposalEvent) : RulingPayload where
  resolution := "confirmed"
  proposalEventId := some event.eventId
  key := some event.key
  kind := some event.kind
  document := name
  version := some stored.version
  term := (env.findTerm stored event.form event.subjectClass).map VocabularyTerm.localName
  slotKind := if event.kind = .profile then kind else none

/-- **`confirm`**: proposals go into the next version of their document, one version for all. -/
def confirm (keys : List String) (kind : Option SlotKind) (pastForms : List String)
    (actor : String) (reason : Option String) : Except String VocabularyState :=
  (loadPending env st keys).bind fun loaded =>
    (current env st loaded.1).bind fun doc =>
      (reviseAll env kind (pastForms.map env.normalisePredicate) actor reason doc loaded.2).bind
        fun revised =>
          (publishVersion env.toPublishEnv st.versions
            { revised with version := doc.version + 1 }).map fun published =>
              recordRulings env { st with versions := published.1 } actor reason
                (loaded.2.map (confirmedPayload env loaded.1 kind published.2))

/-- The ruling that declines a proposal. -/
def declinedPayload (name : String) (event : ProposalEvent) : RulingPayload where
  resolution := "declined"
  proposalEventId := some event.eventId
  key := some event.key
  kind := some event.kind
  document := name

/-- **`decline`.** -/
def decline (keys : List String) (actor : String) (reason : Option String) :
    Except String VocabularyState :=
  (loadPending env st keys).map fun loaded =>
    recordRulings env st actor reason (loaded.2.map (declinedPayload loaded.1))

end Operations

/-! ### Calls -/

/-- One call of an operator. -/
inductive VocabularyCall (ι : Type*) where
  | create (name iriPrefix namespaceIri : String) (publisher : Option String)
  | importDocument (text : String)
  | align (name termRef alignment actor : String)
  | propose (args : ProposeArgs ι)
  | confirm (keys : List String) (kind : Option SlotKind) (pastForms : List String)
      (actor : String) (reason : Option String)
  | decline (keys : List String) (actor : String) (reason : Option String)

section Calls

variable {ι : Type*} (env : VocabularyEnv ι)

/-- What a call returns. -/
def callResult (st : VocabularyState) : VocabularyCall ι → Except String VocabularyState
  | .create name iriPrefix namespaceIri publisher =>
      createDocument env st name iriPrefix namespaceIri publisher
  | .importDocument text => importDocument env st text
  | .align name termRef alignment actor => align env st name termRef alignment actor
  | .propose args => propose env st args
  | .confirm keys kind pastForms actor reason => confirm env st keys kind pastForms actor reason
  | .decline keys actor reason => decline env st keys actor reason

/-- The state that a call leaves: one that is refused writes nothing. -/
def afterCall (st : VocabularyState) (call : VocabularyCall ι) : VocabularyState :=
  match callResult env st call with
  | .ok st' => st'
  | .error _ => st

/-- A call as a step of a run; every call can be made. -/
def vocabularyStep (st : VocabularyState) (call : VocabularyCall ι) : Option VocabularyState :=
  some (afterCall env st call)

theorem run_vocabularyStep (st : VocabularyState) (calls : List (VocabularyCall ι)) :
    run (vocabularyStep env) st calls = some (calls.foldl (afterCall env) st) := by
  induction calls generalizing st with
  | nil => rfl
  | cons call calls ih => exact ih (afterCall env st call)

end Calls

/-! ### What the reads find -/

/-- A proposal that no ruling names. -/
def Pending (st : VocabularyState) (e : ProposalEvent) : Prop :=
  e ∈ st.proposed ∧ ∀ r ∈ st.ruled, r.proposalEventId ≠ some e.eventId

section Reads

variable {ι : Type*} {env : VocabularyEnv ι} {st : VocabularyState}

/-- A log that is no longer than the scan is read whole. -/
theorem listEvents_eq {ε : Type*} {key : ε → Instantᵒᵈ ×ₗ String} {events : List ε}
    (h : events.length ≤ EVENT_SCAN) : listEvents key events = sortBy key events := by
  unfold listEvents
  refine List.take_of_length_le ?_
  rwa [(sortBy_perm key events).length_eq]

theorem mem_of_mem_listEvents {ε : Type*} {key : ε → Instantᵒᵈ ×ₗ String} {events : List ε} {e : ε}
    (h : e ∈ listEvents key events) : e ∈ events :=
  mem_sortBy.1 (List.mem_of_mem_take h)

theorem mem_listEvents {ε : Type*} {key : ε → Instantᵒᵈ ×ₗ String} {events : List ε} {e : ε}
    (h : events.length ≤ EVENT_SCAN) : e ∈ listEvents key events ↔ e ∈ events := by
  rw [listEvents_eq h, mem_sortBy]

/-- A proposal has no ruling exactly when no event names it. -/
theorem rulingOf_eq_none (hfits : st.ruled.length ≤ EVENT_SCAN) {eventId : String}
    (hid : eventId ≠ "") :
    rulingOf st eventId = none ↔ ∀ r ∈ st.ruled, r.proposalEventId ≠ some eventId := by
  unfold rulingOf
  rw [List.find?_eq_none]
  simp [mem_listEvents hfits, hid]

theorem lookupKey_eq_ok {key : String} {event : ProposalEvent} : lookupKey env st key = .ok event ↔
    ((proposals st).find? fun e => e.key = key) = some event ∧ rulingOf st event.eventId = none := by
  unfold lookupKey
  cases hfind : (proposals st).find? fun e => e.key = key with
  | none => simp
  | some found =>
      cases hruling : rulingOf st found.eventId with
      | none =>
          simp only [hruling, Except.ok.injEq, Option.some.injEq]
          constructor
          · rintro rfl
            exact ⟨rfl, hruling⟩
          · exact And.left
      | some ruling =>
          simp only [hruling, reduceCtorEq, Option.some.injEq, false_iff, not_and]
          rintro rfl
          simp [hruling]

/-- The event that is looked up is a proposal with the key. -/
theorem mem_of_lookupKey {key : String} {event : ProposalEvent}
    (h : lookupKey env st key = .ok event) : event ∈ st.proposed ∧ event.key = key := by
  obtain ⟨hfind, -⟩ := lookupKey_eq_ok.1 h
  exact ⟨mem_of_mem_listEvents (List.mem_of_find?_eq_some hfind),
    of_decide_eq_true (List.find?_some (p := fun e : ProposalEvent => e.key = key) hfind)⟩

theorem lookupKeys_eq_ok {keys : List String} : ∀ {events : List ProposalEvent},
    lookupKeys env st keys = .ok events ↔
      List.Forall₂ (fun key event => lookupKey env st key = .ok event) keys events := by
  induction keys with
  | nil =>
      intro events
      simp [lookupKeys, eq_comm]
  | cons key keys ih =>
      intro events
      rw [lookupKeys]
      constructor
      · intro h
        obtain ⟨event, hkey, h⟩ := bind_eq_ok.1 h
        obtain ⟨rest, hkeys, rfl⟩ := map_eq_ok.1 h
        exact .cons hkey (ih.1 hkeys)
      · intro h
        cases h with
        | cons hkey hkeys => exact bind_eq_ok.2 ⟨_, hkey, map_eq_ok.2 ⟨_, ih.2 hkeys, rfl⟩⟩

/-- **What is loaded**: the proposal of each key, unruled, all of the document. -/
theorem loadPending_spec {keys : List String} {name : String} {events : List ProposalEvent}
    (h : loadPending env st keys = .ok (name, events)) :
    List.Forall₂ (fun key event => lookupKey env st key = .ok event) keys events ∧
      ∀ event ∈ events, event.document = name := by
  obtain ⟨found, hkeys, h⟩ := bind_eq_ok.1 h
  split at h
  · rename_i name' hdocuments
    obtain ⟨rfl, rfl⟩ := Prod.mk.inj (Except.ok.inj h)
    refine ⟨lookupKeys_eq_ok.1 hkeys, ?_⟩
    intro event hevent
    have hmem := List.mem_dedup.2 (List.mem_map_of_mem (f := fun e : ProposalEvent => e.document)
      hevent)
    rw [hdocuments] at hmem
    exact List.mem_singleton.1 hmem
  · cases h

/-- One key is loaded with its document. -/
theorem loadPending_singleton {key : String} {event : ProposalEvent}
    (h : lookupKey env st key = .ok event) :
    loadPending env st [key] = .ok (event.document, [event]) := by
  unfold loadPending lookupKeys lookupKeys
  rw [h]
  rfl

end Reads

/-! ### What a call has written -/

section Writes

variable {ι : Type*} {env : VocabularyEnv ι} {st st' : VocabularyState}

/-- A version is published, and nothing else changes. -/
def Publishes (env : VocabularyEnv ι) (st st' : VocabularyState) : Prop :=
  ∃ doc published, publishVersion env.toPublishEnv st.versions doc = .ok published ∧
    st' = { st with versions := published.1 }

theorem current_eq_ok {name : String} {doc : VocabularyDocument} :
    current env st name = .ok doc ↔ latestRow st.versions name = some doc := by
  unfold current getDocument
  cases latestRow st.versions name <;> simp

theorem createDocument_ok {name iriPrefix namespaceIri : String} {publisher : Option String}
    (h : createDocument env st name iriPrefix namespaceIri publisher = .ok st') :
    Publishes env st st' := by
  unfold createDocument at h
  split at h
  · cases h
  · obtain ⟨doc, -, h⟩ := bind_eq_ok.1 h
    obtain ⟨published, hpublished, rfl⟩ := map_eq_ok.1 h
    exact ⟨doc, published, hpublished, rfl⟩

theorem importDocument_ok {text : String} (h : importDocument env st text = .ok st') :
    Publishes env st st' := by
  obtain ⟨doc, -, h⟩ := bind_eq_ok.1 h
  obtain ⟨published, hpublished, rfl⟩ := map_eq_ok.1 h
  exact ⟨doc, published, hpublished, rfl⟩

/-- An alignment publishes a version and records a ruling that names no proposal. -/
theorem align_ok {name termRef alignment actor : String}
    (h : align env st name termRef alignment actor = .ok st') :
    ∃ mid payload, Publishes env st mid ∧ payload.proposalEventId = none ∧
      st' = recordRulings env mid actor none [payload] := by
  obtain ⟨doc, -, h⟩ := bind_eq_ok.1 h
  obtain ⟨revised, -, h⟩ := bind_eq_ok.1 h
  obtain ⟨published, hpublished, rfl⟩ := map_eq_ok.1 h
  exact ⟨_, _, ⟨revised, published, hpublished, rfl⟩, rfl, rfl⟩

/-- The events that a proposal run records. -/
def recordedProposals (env : VocabularyEnv ι) (st : VocabularyState) (args : ProposeArgs ι)
    (doc : VocabularyDocument) : List ProposalEvent :=
  newProposals env st args.actor (plannedPayloads env st args doc)

/-- A proposal run leaves the log, or records what it planned. -/
theorem propose_ok {args : ProposeArgs ι} (h : propose env st args = .ok st') :
    ∃ doc, current env st args.name = .ok doc ∧ (st' = st ∨ args.dryRun = false ∧
      st' = { st with
        proposed := st.proposed ++ recordedProposals env st args doc
        drawn := st.drawn + (plannedPayloads env st args doc).length }) := by
  obtain ⟨doc, hdoc, rfl⟩ := map_eq_ok.1 h
  refine ⟨doc, hdoc, ?_⟩
  dsimp only
  cases args.dryRun with
  | false => exact Or.inr ⟨rfl, rfl⟩
  | true => exact Or.inl rfl

/-- A confirmation publishes a version and records a ruling on each proposal that it loads. -/
theorem confirm_ok {keys : List String} {kind : Option SlotKind} {pastForms : List String}
    {actor : String} {reason : Option String}
    (h : confirm env st keys kind pastForms actor reason = .ok st') :
    ∃ name events mid stored, loadPending env st keys = .ok (name, events) ∧ Publishes env st mid ∧
      st' = recordRulings env mid actor reason
        (events.map (confirmedPayload env name kind stored)) := by
  obtain ⟨⟨name, events⟩, hloaded, h⟩ := bind_eq_ok.1 h
  obtain ⟨doc, -, h⟩ := bind_eq_ok.1 h
  obtain ⟨revised, -, h⟩ := bind_eq_ok.1 h
  obtain ⟨published, hpublished, rfl⟩ := map_eq_ok.1 h
  exact ⟨name, events, _, published.2, hloaded, ⟨_, published, hpublished, rfl⟩, rfl⟩

/-- And it goes through when each of its parts does. -/
theorem confirm_eq_ok {keys : List String} {kind : Option SlotKind} {pastForms : List String}
    {actor : String} {reason : Option String} {name : String} {events : List ProposalEvent}
    {doc revised : VocabularyDocument} {published : List VocabularyDocument × VocabularyDocument}
    (hloaded : loadPending env st keys = .ok (name, events))
    (hcurrent : current env st name = .ok doc)
    (hrevised : reviseAll env kind (pastForms.map env.normalisePredicate) actor reason doc events =
      .ok revised)
    (hpublished : publishVersion env.toPublishEnv st.versions
      { revised with version := doc.version + 1 } = .ok published) :
    confirm env st keys kind pastForms actor reason =
      .ok (recordRulings env { st with versions := published.1 } actor reason
        (events.map (confirmedPayload env name kind published.2))) := by
  simp only [confirm, hloaded, hcurrent, hrevised, hpublished, Except.bind, Except.map]

/-- A decline records a ruling on each proposal that it loads. -/
theorem decline_ok {keys : List String} {actor : String} {reason : Option String}
    (h : decline env st keys actor reason = .ok st') :
    ∃ name events, loadPending env st keys = .ok (name, events) ∧
      st' = recordRulings env st actor reason (events.map (declinedPayload name)) := by
  obtain ⟨⟨name, events⟩, hloaded, rfl⟩ := map_eq_ok.1 h
  exact ⟨name, events, hloaded, rfl⟩

/-- **Every call keeps the chain of versions.** -/
theorem Chained.afterCall (h : Chained st.versions) (call : VocabularyCall ι) :
    Chained (afterCall env st call).versions := by
  have hpublishes : ∀ {mid}, Publishes env st mid → Chained mid.versions := by
    rintro _ ⟨doc, published, hpublished, rfl⟩
    exact h.publish hpublished
  unfold Vocabulary.afterCall
  cases hresult : callResult env st call with
  | error message => exact h
  | ok st' =>
      dsimp only
      cases call with
      | create name iriPrefix namespaceIri publisher => exact hpublishes (createDocument_ok hresult)
      | importDocument text => exact hpublishes (importDocument_ok hresult)
      | align name termRef alignment actor =>
          obtain ⟨mid, payload, hmid, -, rfl⟩ := align_ok hresult
          change Chained mid.versions
          exact hpublishes hmid
      | propose args =>
          obtain ⟨doc, -, rfl | ⟨-, rfl⟩⟩ := propose_ok hresult
          · exact h
          · exact h
      | confirm keys kind pastForms actor reason =>
          obtain ⟨name, events, mid, stored, -, hmid, rfl⟩ := confirm_ok hresult
          change Chained mid.versions
          exact hpublishes hmid
      | decline keys actor reason =>
          obtain ⟨name, events, -, rfl⟩ := decline_ok hresult
          exact h

end Writes

end Vocabulary

end ParticlesEngine
