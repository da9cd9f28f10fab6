/-
**The subject resolution cascade.**

A name is resolved to a subject in five tiers: the cache of the process, the names and aliases of the
store, the references that an authority recognises in the name, the live authorities, and a new
subject under the bare name.  The resolver does every write; an authority only recognises and answers.
A write path that holds the writer lock asks no live authority: a read-only run of the cascade asks
them first, and the resolution replays what they answered.

Main definitions:

* `ResolverEnv`, `Authority` — the configuration, and what an authority can be asked;
* `findExistingSubject` — the read-only lookup that a caller must agree with;
* `settle` — what an answer of an authority comes to, at a store;
* `resolve`, `resolveSubject`, `resolveSubjects` — the cascade, a name, and the names of a claim;
* `prefetchSubjects` — the read-only run, and the answers it keeps.

Main results:

* `resolve_cases` — **what a resolution can do**: answer from the cache, find a row, attach the name
  to a row, or insert a subject.
-/

import ParticlesEngine.SubjectNames

set_option relaxedAutoImplicit false
set_option autoImplicit false

open SortBy

namespace ParticlesEngine

/-! ### Authorities and configuration -/

/-- What the resolver takes from the language and reads of the configuration. -/
structure ResolverEnv extends NameEnv where
  /-- `str.casefold` -/
  casefold : String → String
  inferDomain : String → Option String
  personaCanonicalName : String
  personaAliases : List String
  personaSourceTypes : List String
  personaSourceTags : List String
  skipLiveAuthoritiesSourceTypes : List String
  externalLinkAbstainThreshold : ℚ
  strip_strip : ∀ text, strip (strip text) = strip text

/-- The answer of a live authority that found candidates, or could not be asked. -/
inductive AuthorityResolution where
  | existing (subject : Subject)
  | abstained
  | unreachable
  | new (externalRef : ExternalRef) (canonicalName : Option String) (aliases : List String)
      (description : Option String)
  deriving DecidableEq, Repr

/-- A subject authority.  What it answers depends on the store through the subjects that an external
ref finds. -/
structure Authority where
  NAMESPACE : String
  LIVE : Bool
  /-- `is_applicable` of a domain -/
  isApplicable : Option String → Bool
  /-- `_live_authority_allowed` -/
  allowed : Bool
  recognize : String → Option ExternalRef
  resolve : (String → String → Option Subject) → String → Option String → Option String →
    Option AuthorityResolution
  canonicalNameFor : String → Option String
  /-- an existing subject is one that a ref found -/
  existing_found : ∀ find name content domain subject,
    resolve find name content domain = some (.existing subject) →
      ∃ namespc id, find namespc id = some subject

/-- The corpus entry that names are resolved for. -/
structure NameSource where
  sourceType : Option String := none
  sourceTags : List String := []
  deriving DecidableEq, Repr

/-- A name to resolve. -/
structure NameCall where
  name : String
  assertedBy : String := "general-extractor"
  content : Option String := none
  source : NameSource := {}
  deriving DecidableEq, Repr

/-- The id and the time that a new subject would be given. -/
structure Stamp where
  id : String
  createdAt : Instant := 0
  deriving DecidableEq, Repr

/-- `value or default` of an optional text. -/
def orText (value : Option String) (default : String) : String :=
  (value.filter (· ≠ "")).getD default

/-! ### The cache -/

/-- What the process keeps: the resolutions by key, the names that every live authority missed, and
the persona forms that another subject answers to. -/
structure SubjectCache where
  positive : List (String × Subject) := []
  negative : List String := []
  heldElsewhere : List String := []
  deriving DecidableEq, Repr

namespace SubjectCache

variable (cache : SubjectCache)

/-- `cache_get`. -/
def get? (key : String) : Option Subject := (cache.positive.find? (·.1 = key)).map Prod.snd

/-- `cache_set`. -/
def set (key : String) (subject : Subject) : SubjectCache :=
  { cache with positive := (key, subject) :: cache.positive.filter (·.1 ≠ key) }

/-- `clear(keep_negative=True)`. -/
def clear : SubjectCache := { cache with positive := [] }

/-- `negative_set` of a folded name. -/
def setNegative (key : String) : SubjectCache :=
  { cache with negative := key :: cache.negative.filter (· ≠ key) }

/-- A persona form that another subject holds. -/
def holdElsewhere (key : String) : SubjectCache :=
  { cache with heldElsewhere := key :: cache.heldElsewhere }

end SubjectCache

/-- The store of a session, and the cache of its process. -/
structure Resolver where
  store : Store
  cache : SubjectCache := {}
  deriving DecidableEq

/-! ### The lookups -/

section Env

variable (env : ResolverEnv)

/-- `make_key`, in one store. -/
def makeKey (name : String) : String := env.lower name

/-- `is_persona_source`. -/
def isPersonaSource (source : NameSource) : Bool :=
  source.sourceType.any (· ∈ env.personaSourceTypes) ||
    source.sourceTags.any (· ∈ env.personaSourceTags)

/-- `persona_alias_guard`. -/
def personaAliasGuard (name : String) (source : NameSource) : List String :=
  if isPersonaSource env source then []
  else if env.casefold (env.strip name) ∉ env.personaAliases.map env.casefold then []
  else [env.personaCanonicalName]

/-- `_persona_fold`. -/
def personaFold (name : String) (source : NameSource) : Option String :=
  if isPersonaSource env source = false then none
  else
    let form := env.casefold (env.strip name)
    if form = env.casefold env.personaCanonicalName ∨ form ∈ env.personaAliases.map env.casefold then
      some env.personaCanonicalName
    else none

/-- `_persona_canonical`. -/
def personaCanonical (name : String) (source : NameSource) : String :=
  (personaFold env name source).getD name

/-- `_find_local`. -/
def findLocal (store : Store) (name : String) (source : NameSource) : Option Subject :=
  findByName env.toNameEnv store name (personaAliasGuard env name source)

/-- **`find_existing_subject`.** -/
def findExistingSubject (store : Store) (name : String) (source : NameSource) : Option Subject :=
  findLocal env store (personaCanonical env name source) source

/-- `_skip_live_authorities`. -/
def skipLiveAuthorities (source : NameSource) : Bool :=
  source.sourceType.any (· ∈ env.skipLiveAuthoritiesSourceTypes)

/-- The domain that the authorities are gated by. -/
def domainOf (source : NameSource) : Option String :=
  (source.sourceType.filter (· ≠ "")).bind env.inferDomain

end Env

/-- `find_by_external_ref`. -/
def findByExternalRef (store : Store) (namespc id : String) : Option Subject :=
  store.subjects.rows.find? fun subject =>
    subject.externalIds.any fun ref => ref.ns = namespc ∧ ref.id = id

/-! ### Answers -/

/-- What an answer comes to: the next authority, a row to attach the name to, or a new subject. -/
inductive Settled where
  | skip
  | attach (subject : Subject)
  | mint (canonicalName : String) (description : Option String) (aliases : List String)
      (externalRef : ExternalRef)
  deriving DecidableEq, Repr

section Env

variable (env : ResolverEnv)

/-- The dedup guard: the subject that has the ref, or the rewritten name. -/
def findDuplicate (store : Store) (name : String) (source : NameSource) (externalRef : ExternalRef)
    (resolvedName : String) : Option Subject :=
  match findByExternalRef store externalRef.ns externalRef.id with
  | some dup => some dup
  | none =>
      if env.lower resolvedName = env.lower name then none else findLocal env store resolvedName source

/-- **What an answer comes to.**  A new link below the floor is treated as a declined one; a new
subject that the store has already is attached to. -/
def settle (store : Store) (name : String) (source : NameSource) : AuthorityResolution → Settled
  | .existing subject => .attach subject
  | .abstained => .skip
  | .unreachable => .skip
  | .new externalRef canonicalName aliases description =>
      if externalRef.confidence < env.externalLinkAbstainThreshold then .skip
      else match findDuplicate env store name source externalRef (orText canonicalName name) with
        | some dup => .attach dup
        | none => .mint (orText canonicalName name) description aliases externalRef

/-- `LiveAnswers.asked`: the answers of a prefetch, by folded name and namespace. -/
abbrev LiveAnswers := List ((String × String) × Option AuthorityResolution)

/-- The recorded answer, if the authority was asked for the name. -/
def LiveAnswers.get? (answers : LiveAnswers) (asked : String × String) :
    Option (Option AuthorityResolution) :=
  (answers.find? (·.1 = asked)).map Prod.snd

/-- How the live authorities answer: asked now, or read from a prefetch. -/
inductive Asking where
  | live
  | replay (answers : LiveAnswers)

/-- A live authority that is asked in a domain. -/
def Authority.asks (auth : Authority) (domain : Option String) : Bool :=
  auth.LIVE && auth.isApplicable domain && auth.allowed

/-- The answer to a name, `none` where the authority is not asked.  An existing subject that a
prefetch recorded is read again. -/
def askAuthority (asking : Asking) (store : Store) (call : NameCall) (auth : Authority) :
    Except StoreError (Option (Option AuthorityResolution)) :=
  match asking with
  | .live => .ok (some (auth.resolve (findByExternalRef store) call.name call.content
      (domainOf env call.source)))
  | .replay answers =>
      match answers.get? (call.name, auth.NAMESPACE) with
      | none => .ok none
      | some (some (.existing subject)) =>
          (getSubject env.toSubjectEnv store subject.id).map fun current =>
            current.map fun current => some (.existing current)
      | some answer => .ok (some answer)

/-- The live pass: what the authorities come to, and whether each that was asked missed. -/
def livePass (asking : Asking) (store : Store) (call : NameCall) :
    List Authority → (searchedLive allMissed : Bool) → Except StoreError (Settled × Bool)
  | [], searchedLive, allMissed => .ok (.skip, searchedLive && allMissed)
  | auth :: rest, searchedLive, allMissed =>
      if auth.asks (domainOf env call.source) = false then
        livePass asking store call rest searchedLive allMissed
      else do
        match ← askAuthority env asking store call auth with
        | none => livePass asking store call rest searchedLive allMissed
        | some none => livePass asking store call rest true allMissed
        | some (some res) =>
            match settle env store call.name call.source res with
            | .skip => livePass asking store call rest true false
            | settled => .ok (settled, false)

/-! ### The writes -/

/-- `_attach_alias`. -/
def attachAlias (r : Resolver) (subject : Subject) (name : String) :
    Except StoreError (Resolver × Subject) :=
  if env.casefold name ∈
      env.casefold subject.canonicalName :: subject.aliases.map env.casefold then
    .ok (r, subject)
  else do
    let (store, updated, _) ← addAliases env.toSubjectEnv r.store subject.id [name]
    return ({ store := store, cache := r.cache.clear }, updated)

/-- A name attached to a row, and cached. -/
def attachResolved (r : Resolver) (key : String) (subject : Subject) (name : String) :
    Except StoreError (Resolver × Subject) := do
  let (r, attached) ← attachAlias env r subject name
  return ({ r with cache := r.cache.set key attached }, attached)

/-- A new subject inserted, and cached. -/
def insertResolved (r : Resolver) (key : String) (subject : Subject) :
    Except StoreError (Resolver × Subject) := do
  let store ← insertSubject env.toSubjectEnv r.store subject
  return ({ store := store, cache := r.cache.set key subject }, subject)

/-- The first authority that recognises a reference in the name. -/
def firstRecognized (authorities : List Authority) (name : String) :
    Option (Authority × ExternalRef) :=
  authorities.findSome? fun auth => (auth.recognize name).map (auth, ·)

/-- The subject under the bare name, possibly with the recognised ref. -/
def bareSubject (authorities : List Authority) (call : NameCall) (stamp : Stamp) : Subject :=
  match firstRecognized authorities call.name with
  | none =>
      { id := stamp.id
        canonicalName := call.name
        createdAt := stamp.createdAt
        assertedBy := call.assertedBy }
  | some (auth, ref) =>
      { id := stamp.id
        canonicalName := orText (auth.canonicalNameFor ref.id) call.name
        externalIds := [ref]
        createdAt := stamp.createdAt
        assertedBy := call.assertedBy }

/-- Whether the live pass is skipped: for a folded name, a source of private names, or a name that was
missed before. -/
def skipsLive (cache : SubjectCache) (call : NameCall) (live : Bool) : Bool :=
  !live || skipLiveAuthorities env call.source || decide (makeKey env call.name ∈ cache.negative)

/-- The writes that end a resolution: an attach, a new subject with the answered ref, or one under the
bare name. -/
def writeSettled (authorities : List Authority) (r : Resolver) (call : NameCall) (stamp : Stamp) :
    Settled × Bool → Except StoreError (Resolver × Subject)
  | (.attach subject, _) => attachResolved env r (makeKey env call.name) subject call.name
  | (.mint canonicalName description aliases externalRef, _) =>
      insertResolved env r (makeKey env call.name)
        { id := stamp.id
          canonicalName := canonicalName
          description := description
          aliases := aliases
          externalIds := [externalRef]
          createdAt := stamp.createdAt
          assertedBy := call.assertedBy }
  | (.skip, missed) =>
      -- Step 4: bare local Subject
      let cache := if missed then r.cache.setNegative (makeKey env call.name) else r.cache
      insertResolved env { r with cache := cache } (makeKey env call.name)
        (bareSubject authorities call stamp)

/-- The row that has the recognised reference. -/
def findRecognized (authorities : List Authority) (store : Store) (name : String) :
    Option Subject :=
  match firstRecognized authorities name with
  | none => none
  | some (_, ref) => findByExternalRef store ref.ns ref.id

/-- **`_resolve`**, for a folded name. -/
def resolve (authorities : List Authority) (asking : Asking) (r : Resolver) (call : NameCall)
    (live : Bool) (stamp : Stamp) : Except StoreError (Resolver × Subject) :=
  match r.cache.get? (makeKey env call.name) with
  | some subject => .ok (r, subject)
  | none =>
      -- Step 1: local alias index
      match findLocal env r.store call.name call.source with
      | some existing =>
          .ok ({ r with cache := r.cache.set (makeKey env call.name) existing }, existing)
      | none =>
          -- Step 2: recognize pass
          match findRecognized authorities r.store call.name with
          | some byRef =>
              .ok ({ r with cache := r.cache.set (makeKey env call.name) byRef }, byRef)
          | none =>
              -- Step 3: resolve pass
              if skipsLive env r.cache call live then
                writeSettled env authorities r call stamp (.skip, false)
              else do
                let settled ← livePass env asking r.store call authorities false true
                writeSettled env authorities r call stamp settled

/-- `_record_persona_alias`: the updated subject, where the form was recorded. -/
def recordPersonaAlias (r : Resolver) (subject : Subject) (form : String) :
    Except StoreError (Resolver × Option Subject) :=
  let folded := env.casefold form
  let heldKey := makeKey env folded
  if folded ∈ env.casefold subject.canonicalName :: subject.aliases.map env.casefold then
    .ok (r, none)
  else if heldKey ∈ r.cache.heldElsewhere then .ok (r, none)
  else if (findByName env.toNameEnv r.store form []).any (·.id ≠ subject.id) then
    .ok ({ r with cache := r.cache.holdElsewhere heldKey }, none)
  else do
    let (store, updated, _) ← addAliases env.toSubjectEnv r.store subject.id [form]
    return ({ store := store, cache := r.cache.clear }, some updated)

/-- **`resolve_subject`.** -/
def resolveSubject (authorities : List Authority) (asking : Asking) (r : Resolver)
    (call : NameCall) (stamp : Stamp) : Except StoreError (Resolver × Subject) := do
  let folded := personaCanonical env call.name call.source
  let live := (personaFold env call.name call.source).isNone
  let (r, subject) ← resolve env authorities asking r { call with name := folded } live stamp
  if folded = call.name then return (r, subject)
  else
    match ← recordPersonaAlias env r subject (env.strip call.name) with
    | (r, none) => return (r, subject)
    | (r, some recorded) =>
        -- the alias write cleared the cache
        return ({ r with cache := r.cache.set (makeKey env folded) recorded }, recorded)

/-! ### Claims -/

/-- The names of a claim, each with the stamp that a new subject would get. -/
structure ClaimNames where
  names : List (String × Stamp)
  content : Option String := none
  deriving DecidableEq, Repr

/-- A name of a claim as it is resolved. -/
def claimCall (source : NameSource) (assertedBy : String) (content : Option String)
    (name : String) : NameCall where
  name := env.strip name
  assertedBy := assertedBy
  content := content
  source := source

/-- `resolve_subjects`, with no qualified name. -/
def resolveSubjects (authorities : List Authority) (asking : Asking) (source : NameSource)
    (assertedBy : String) (r : Resolver) (claim : ClaimNames) :
    Except StoreError (Resolver × List String) :=
  claim.names.foldlM (fun (acc : Resolver × List String) (name : String × Stamp) =>
    if env.strip name.1 = "" then .ok acc
    else do
      let (r, subject) ← resolveSubject env authorities asking acc.1
        (claimCall env source assertedBy claim.content name.1) name.2
      return (r, acc.2 ++ [subject.id])) (r, [])

/-- An authority asked for a name in a read-only run, once: its answer is kept. -/
def askOnce (store : Store) (call : NameCall) (auth : Authority) (answers : LiveAnswers) :
    LiveAnswers × Option AuthorityResolution :=
  match answers.get? (call.name, auth.NAMESPACE) with
  | some res => (answers, res)
  | none =>
      let res := auth.resolve (findByExternalRef store) call.name call.content
        (domainOf env call.source)
      (answers ++ [((call.name, auth.NAMESPACE), res)], res)

/-- The live pass of a read-only run, with the subject that the store holds. -/
def prefetchPass (store : Store) (call : NameCall) :
    List Authority → LiveAnswers → LiveAnswers × Option Subject
  | [], answers => (answers, none)
  | auth :: rest, answers =>
      if auth.asks (domainOf env call.source) = false then prefetchPass store call rest answers
      else match askOnce env store call auth answers with
        | (answers, none) => prefetchPass store call rest answers
        | (answers, some res) =>
            match settle env store call.name call.source res with
            | .skip => prefetchPass store call rest answers
            | .attach subject => (answers, some subject)
            | .mint _ _ _ _ => (answers, none)

/-- `_resolve` with `dry`: the subject that the store holds for a folded name. -/
def resolveDry (authorities : List Authority) (r : Resolver) (call : NameCall) (live : Bool)
    (answers : LiveAnswers) : LiveAnswers × Option Subject :=
  match r.cache.get? (makeKey env call.name) with
  | some subject => (answers, some subject)
  | none =>
      match findLocal env r.store call.name call.source with
      | some existing => (answers, some existing)
      | none =>
          match findRecognized authorities r.store call.name with
          | some byRef => (answers, some byRef)
          | none =>
              if skipsLive env r.cache call live then (answers, none)
              else prefetchPass env r.store call authorities answers

/-- What a prefetch learned. -/
structure SubjectPrefetch where
  answers : LiveAnswers
  knownIds : List String

/-- **`prefetch_subjects`.** -/
def prefetchSubjects (authorities : List Authority) (source : NameSource) (r : Resolver)
    (claim : ClaimNames) (answers : LiveAnswers) : SubjectPrefetch :=
  let (answers, known) := claim.names.foldl (fun (acc : LiveAnswers × List String) name =>
    if env.strip name.1 = "" then acc
    else
      -- a persona form is folded as it is spelled, any other name is stripped
      let persona := personaFold env name.1 source
      let folded := persona.getD (env.strip name.1)
      let (answers, found) := resolveDry env authorities r
        { claimCall env source "" claim.content name.1 with name := folded } persona.isNone acc.1
      (answers, acc.2 ++ (found.map Subject.id).toList)) (answers, [])
  { answers := answers, knownIds := rebound id known }

end Env

/-! ### What the writes do to a lookup -/

section Lookups

variable {env : NameEnv} {store store' : Store} {text : String} {skip : List String}
  {first subject : Subject}

/-- A subject that the alias tier may answer with. -/
def AliasedOutside (env : NameEnv) (skip : List String) (text : String) (subject : Subject) : Prop :=
  Aliased env text subject ∧ env.lower subject.canonicalName ∉ skip.map env.lower

theorem findByAlias_eq_some (h : AliasIndexed env.toSubjectEnv store) :
    findByAlias env.toSubjectEnv store text skip = some first ↔
      Earliest store (AliasedOutside env skip text) first := by
  rw [findByAlias, h.rowsWithAlias_eq, rowsByScan, ← List.head?_filter, ← sortBy_filter,
    List.filter_filter, head?_sortBy_filter _ subjectOrder_inj]
  simp only [Bool.and_eq_true, decide_eq_true_eq, List.any_eq_true]
  constructor
  · rintro ⟨hmem, ⟨hskip, halias⟩, hle⟩
    exact ⟨hmem, ⟨halias, hskip⟩, fun other hother hother' => hle other hother ⟨hother'.2, hother'.1⟩⟩
  · intro hfirst
    exact ⟨hfirst.mem, ⟨hfirst.holds.2, hfirst.holds.1⟩,
      fun other hother hother' => hfirst.le other hother ⟨hother'.2, hother'.1⟩⟩

/-- **What a lookup finds**, where some aliases are passed over. -/
theorem findByName_skip_eq_some (h : AliasIndexed env.toSubjectEnv store) :
    findByName env store text skip = some first ↔
      Earliest store (FoldsTo env text) first ∨
        (AliasesAnswer env store text ∧ Earliest store (AliasedOutside env skip text) first) := by
  rw [← head?_rowsByCanonical, ← rowsByCanonical_eq_nil, ← findByAlias_eq_some h, findByName]
  cases rowsByCanonical env store text with
  | nil => simp
  | cons subject rest => simp

/-- A lookup that can answer does. -/
theorem findByName_isSome (h : AliasIndexed env.toSubjectEnv store)
    (hsubject : subject ∈ store.subjects.rows)
    (hmatch : FoldsTo env text subject ∨ AliasedOutside env skip text subject) :
    ∃ first, findByName env store text skip = some first := by
  classical
  by_cases hanswer : AliasesAnswer env store text
  · have haliased := hmatch.resolve_left (hanswer subject hsubject)
    obtain ⟨first, hfirst⟩ := exists_earliest (AliasedOutside env skip text) hsubject haliased
    exact ⟨first, (findByName_skip_eq_some h).2 (.inr ⟨hanswer, hfirst⟩)⟩
  · simp only [AliasesAnswer, not_forall, not_not] at hanswer
    obtain ⟨other, hother, hfolds⟩ := hanswer
    obtain ⟨first, hfirst⟩ := exists_earliest (FoldsTo env text) hother hfolds
    exact ⟨first, (findByName_skip_eq_some h).2 (.inl hfirst)⟩

theorem mem_of_findByName (h : AliasIndexed env.toSubjectEnv store)
    (hfind : findByName env store text skip = some first) : first ∈ store.subjects.rows := by
  rcases (findByName_skip_eq_some h).1 hfind with hfirst | ⟨-, hfirst⟩
  · exact hfirst.mem
  · exact hfirst.mem

/-- What a lookup finds after a write is a written row, or what it found before. -/
theorem findByName_of_rows (h : AliasIndexed env.toSubjectEnv store)
    (h' : AliasIndexed env.toSubjectEnv store') {id : String}
    (hrows : ∀ other, other.id ≠ id →
      (other ∈ store'.subjects.rows ↔ other ∈ store.subjects.rows))
    (hkept : ∀ other ∈ store.subjects.rows, other.id = id → ∃ other' ∈ store'.subjects.rows,
      subjectOrder other' = subjectOrder other ∧ other'.canonicalName = other.canonicalName ∧
        other.aliases ⊆ other'.aliases)
    (hfind : findByName env store' text skip = some first) :
    first.id = id ∨ findByName env store text skip = some first := by
  refine or_iff_not_imp_left.2 fun hid => ?_
  have hafter : ∀ other ∈ store.subjects.rows, ∃ other' ∈ store'.subjects.rows,
      subjectOrder other' = subjectOrder other ∧ other'.canonicalName = other.canonicalName ∧
        other.aliases ⊆ other'.aliases := by
    intro other hother
    by_cases hid' : other.id = id
    · exact hkept other hother hid'
    · exact ⟨other, (hrows other hid').2 hother, rfl, rfl, List.Subset.refl _⟩
  have halias : ∀ other other' : Subject, other'.canonicalName = other.canonicalName →
      other.aliases ⊆ other'.aliases → AliasedOutside env skip text other →
      AliasedOutside env skip text other' := by
    rintro other other' hname haliases ⟨⟨spelling, hspelling, hfold⟩, hskip⟩
    exact ⟨⟨spelling, haliases hspelling, hfold⟩, by rwa [hname]⟩
  rw [findByName_skip_eq_some h]
  rcases (findByName_skip_eq_some h').1 hfind with hfirst | ⟨hanswer, hfirst⟩
  · refine .inl ⟨(hrows first hid).1 hfirst.mem, hfirst.holds, fun other hother hfolds => ?_⟩
    obtain ⟨other', hother', horder, hname, -⟩ := hafter other hother
    rw [← horder]
    exact hfirst.le other' hother' (by rwa [FoldsTo, hname])
  · refine .inr ⟨fun other hother hfolds => ?_, (hrows first hid).1 hfirst.mem, hfirst.holds,
      fun other hother haliased => ?_⟩
    · obtain ⟨other', hother', -, hname, -⟩ := hafter other hother
      exact hanswer other' hother' (by rwa [FoldsTo, hname])
    · obtain ⟨other', hother', horder, hname, haliases⟩ := hafter other hother
      rw [← horder]
      exact hfirst.le other' hother' (halias other other' hname haliases haliased)

/-- A write that keeps the rows, their names and their aliases keeps every answer, up to the row. -/
theorem findByName_isSome_of_rows (h : AliasIndexed env.toSubjectEnv store)
    (h' : AliasIndexed env.toSubjectEnv store')
    (hkept : ∀ other ∈ store.subjects.rows, ∃ other' ∈ store'.subjects.rows,
      other'.canonicalName = other.canonicalName ∧ other.aliases ⊆ other'.aliases)
    (hfind : findByName env store text skip = some first) :
    ∃ first', findByName env store' text skip = some first' := by
  have hmem := mem_of_findByName h hfind
  obtain ⟨other', hother', hname, haliases⟩ := hkept first hmem
  refine findByName_isSome h' hother' ?_
  rcases (findByName_skip_eq_some h).1 hfind with hfirst | ⟨-, hfirst⟩
  · exact .inl (by rw [FoldsTo, hname]; exact hfirst.holds)
  · obtain ⟨⟨spelling, hspelling, hfold⟩, hskip⟩ := hfirst.holds
    exact .inr ⟨⟨spelling, haliases hspelling, hfold⟩, by rwa [hname]⟩

/-- **An insert** changes the answer to a lookup only into the new subject. -/
theorem findByName_insert (h : AliasIndexed env.toSubjectEnv store)
    (hok : insertSubject env.toSubjectEnv store subject = .ok store') :
    findByName env store' text skip = some subject ∨
      findByName env store' text skip = findByName env store text skip := by
  have h' : AliasIndexed env.toSubjectEnv store' := h.insertSubject hok
  obtain ⟨hnew, hsubjects, -, -⟩ := insertSubject_spec hok
  have hrows : ∀ other, other ∈ store'.subjects.rows ↔ other = subject ∨ other ∈ store.subjects.rows := by
    intro other
    have hget : ∀ (t : Table Subject.id) other, other ∈ t.rows ↔ t.get? other.id = some other :=
      fun t other => ⟨Table.get?_key, Table.mem_of_get?⟩
    rw [hget, hget, hsubjects]
    split_ifs with hid
    · rw [← hid, hnew, Option.some.injEq]
      simp [eq_comm]
    · have hne : other ≠ subject := fun heq => hid (heq ▸ rfl)
      simp [hne]
  have hkept : ∀ other ∈ store.subjects.rows, ∃ other' ∈ store'.subjects.rows,
      other'.canonicalName = other.canonicalName ∧ other.aliases ⊆ other'.aliases :=
    fun other hother => ⟨other, (hrows other).2 (.inr hother), rfl, List.Subset.refl _⟩
  have hmissing : ∀ other ∈ store.subjects.rows, other.id ≠ subject.id := Table.get?_eq_none.1 hnew
  cases hfind : findByName env store' text skip with
  | none =>
      -- nothing was found before either
      right
      by_contra hne
      obtain ⟨found, hfound⟩ := Option.ne_none_iff_exists'.1 (Ne.symm hne)
      obtain ⟨first', hfirst'⟩ := findByName_isSome_of_rows h h' hkept hfound
      exact Option.some_ne_none _ (hfirst'.symm.trans hfind)
  | some first =>
      have hother : ∀ other, other.id ≠ subject.id →
          (other ∈ store'.subjects.rows ↔ other ∈ store.subjects.rows) := by
        intro other hid
        have hne : other ≠ subject := fun heq => hid (heq ▸ rfl)
        rw [hrows, or_iff_right hne]
      rcases findByName_of_rows h h' hother (fun other hmem hid => absurd hid (hmissing other hmem))
        hfind with hid | hsame
      · left
        rw [Table.eq_of_key_eq (mem_of_findByName h' hfind) ((hrows subject).2 (.inl rfl)) hid]
      · exact .inr hsame.symm

/-- The rows after new aliases. -/
theorem rows_addAliases {id : String} {names added : List String} {updated : Subject}
    (hok : addAliases env.toSubjectEnv store id names = .ok (store', updated, added)) :
    (∀ other, other.id ≠ id → (other ∈ store'.subjects.rows ↔ other ∈ store.subjects.rows)) ∧
      ∀ other ∈ store.subjects.rows, other.id = id → ∃ other' ∈ store'.subjects.rows,
        subjectOrder other' = subjectOrder other ∧ other'.canonicalName = other.canonicalName ∧
          other'.externalIds = other.externalIds ∧ other.aliases ⊆ other'.aliases := by
  obtain ⟨found, hfound, hsubjects, -, -⟩ := addAliases_spec hok
  have hget : ∀ (t : Table Subject.id) other, other ∈ t.rows ↔ t.get? other.id = some other :=
    fun t other => ⟨Table.get?_key, Table.mem_of_get?⟩
  constructor
  · intro other hid
    rw [hget, hget, hsubjects, if_neg (Ne.symm hid)]
  · intro other hother hid
    have heq : other = found := by
      have hother' := (hget _ _).1 hother
      rw [hid, hfound] at hother'
      exact (Option.some.inj hother').symm
    refine ⟨found.withAliases (found.aliases ++ added), ?_, ?_, ?_, ?_, ?_⟩
    · rw [hget, Subject.id_withAliases, hsubjects, if_pos (by rw [← heq, hid])]
    all_goals rw [heq]
    · rfl
    · rfl
    · rfl
    · exact List.subset_append_left _ _

/-- **New aliases** change the answer to a lookup only into the subject that gained them. -/
theorem findByName_addAliases (h : AliasIndexed env.toSubjectEnv store) {id : String}
    {names added : List String} {updated : Subject}
    (hok : addAliases env.toSubjectEnv store id names = .ok (store', updated, added))
    (hfind : findByName env store' text skip = some first) :
    first.id = id ∨ findByName env store text skip = some first := by
  obtain ⟨hrows, hkept⟩ := rows_addAliases hok
  refine findByName_of_rows h (h.addAliases hok) hrows (fun other hother hid => ?_) hfind
  obtain ⟨other', hother', horder, hname, -, haliases⟩ := hkept other hother hid
  exact ⟨other', hother', horder, hname, haliases⟩

/-- A lookup that answered before answers still. -/
theorem findByName_isSome_addAliases (h : AliasIndexed env.toSubjectEnv store) {id : String}
    {names added : List String} {updated : Subject}
    (hok : addAliases env.toSubjectEnv store id names = .ok (store', updated, added))
    (hfind : findByName env store text skip = some first) :
    ∃ first', findByName env store' text skip = some first' := by
  obtain ⟨hrows, hkept⟩ := rows_addAliases hok
  refine findByName_isSome_of_rows h (h.addAliases hok) (fun other hother => ?_) hfind
  by_cases hid : other.id = id
  · obtain ⟨other', hother', -, hname, -, haliases⟩ := hkept other hother hid
    exact ⟨other', hother', hname, haliases⟩
  · exact ⟨other, (hrows other hid).2 hother, rfl, List.Subset.refl _⟩

theorem mem_of_findByExternalRef {namespc id : String}
    (hfind : findByExternalRef store namespc id = some first) : first ∈ store.subjects.rows :=
  List.mem_of_find?_eq_some hfind

end Lookups

/-! ### What a resolution does -/

section Cases

variable {env : ResolverEnv} {authorities : List Authority} {asking : Asking}
  {r r' : Resolver} {call : NameCall} {live : Bool} {stamp : Stamp} {subject : Subject}

/-- The subject that an authority's answer would be inserted as. -/
def mintedSubject (call : NameCall) (stamp : Stamp) (externalRef : ExternalRef)
    (canonicalName : Option String) (aliases : List String) (description : Option String) :
    Subject where
  id := stamp.id
  canonicalName := orText canonicalName call.name
  description := description
  aliases := aliases
  externalIds := [externalRef]
  createdAt := stamp.createdAt
  assertedBy := call.assertedBy

/-- What a resolution of a name may insert: the bare subject, or what an authority answers. -/
inductive Mintable (env : ResolverEnv) (authorities : List Authority) (asking : Asking)
    (store : Store) (call : NameCall) (stamp : Stamp) : Subject → Prop where
  | bare : Mintable env authorities asking store call stamp (bareSubject authorities call stamp)
  | answered {auth : Authority} {externalRef : ExternalRef} {canonicalName : Option String}
      {aliases : List String} {description : Option String} (mem : auth ∈ authorities)
      (answer : askAuthority env asking store call auth =
        .ok (some (some (.new externalRef canonicalName aliases description)))) :
      Mintable env authorities asking store call stamp
        (mintedSubject call stamp externalRef canonicalName aliases description)

theorem mem_of_findRecognized {store : Store} {name : String}
    (hfind : findRecognized authorities store name = some subject) :
    subject ∈ store.subjects.rows := by
  unfold findRecognized at hfind
  split at hfind
  · cases hfind
  · exact mem_of_findByExternalRef hfind

/-- A subject that an authority gives as existing is a row. -/
theorem mem_of_askAuthority {store : Store} {auth : Authority}
    (hask : askAuthority env asking store call auth = .ok (some (some (.existing subject)))) :
    subject ∈ store.subjects.rows := by
  cases asking with
  | live =>
      have hanswer : auth.resolve (findByExternalRef store) call.name call.content
          (domainOf env call.source) = some (.existing subject) := by
        simpa [askAuthority] using hask
      obtain ⟨namespc, id, hfind⟩ := auth.existing_found _ _ _ _ _ hanswer
      exact mem_of_findByExternalRef hfind
  | replay answers =>
      simp only [askAuthority] at hask
      split at hask
      · cases hask
      · rename_i recorded _
        cases hget : getSubject env.toSubjectEnv store recorded.id with
        | error e =>
            rw [hget] at hask
            cases hask
        | ok current =>
            rw [hget] at hask
            cases current with
            | none => cases hask
            | some current =>
                cases hask
                exact Table.mem_of_get? (get?_getSubject hget)
      · rename_i answer hother _
        obtain rfl : answer = some (.existing subject) := by simpa using hask
        exact absurd rfl (hother subject)

theorem mem_of_findDuplicate {store : Store} (h : AliasIndexed env.toSubjectEnv store)
    {name resolvedName : String} {source : NameSource} {externalRef : ExternalRef}
    (hdup : findDuplicate env store name source externalRef resolvedName = some subject) :
    subject ∈ store.subjects.rows := by
  unfold findDuplicate at hdup
  cases href : findByExternalRef store externalRef.ns externalRef.id with
  | some dup =>
      rw [href] at hdup
      cases hdup
      exact mem_of_findByExternalRef href
  | none =>
      rw [href] at hdup
      dsimp only at hdup
      split_ifs at hdup
      exact mem_of_findByName h hdup

/-- An answer that comes to an attach names a row. -/
theorem mem_of_settle_attach {store : Store} (h : AliasIndexed env.toSubjectEnv store)
    {res : AuthorityResolution} (hres : ∀ found, res = .existing found → found ∈ store.subjects.rows)
    (hsettle : settle env store call.name call.source res = .attach subject) :
    subject ∈ store.subjects.rows := by
  cases res with
  | existing found =>
      obtain rfl : found = subject := by simpa [settle] using hsettle
      exact hres found rfl
  | abstained => cases hsettle
  | unreachable => cases hsettle
  | new externalRef canonicalName aliases description =>
      simp only [settle] at hsettle
      split_ifs at hsettle
      cases hdup : findDuplicate env store call.name call.source externalRef
        (orText canonicalName call.name) with
      | none =>
          rw [hdup] at hsettle
          cases hsettle
      | some dup =>
          rw [hdup] at hsettle
          obtain rfl : dup = subject := by simpa using hsettle
          exact mem_of_findDuplicate h hdup

/-- An answer that comes to a new subject is one. -/
theorem settle_eq_mint {store : Store} {res : AuthorityResolution} {canonicalName : String}
    {description : Option String} {aliases : List String} {externalRef : ExternalRef}
    (hsettle : settle env store call.name call.source res =
      .mint canonicalName description aliases externalRef) :
    ∃ name, res = .new externalRef name aliases description ∧
      canonicalName = orText name call.name := by
  cases res with
  | existing found => cases hsettle
  | abstained => cases hsettle
  | unreachable => cases hsettle
  | new ref name names text =>
      simp only [settle] at hsettle
      split_ifs at hsettle
      cases hdup : findDuplicate env store call.name call.source ref (orText name call.name) with
      | some dup =>
          rw [hdup] at hsettle
          cases hsettle
      | none =>
          rw [hdup] at hsettle
          cases hsettle
          exact ⟨name, rfl, rfl⟩

/-- **What the live pass comes to**, an authority at a time. -/
theorem livePass_cases {store : Store} (h : AliasIndexed env.toSubjectEnv store)
    {settled : Settled} {missed : Bool} :
    ∀ {auths : List Authority} {searchedLive allMissed : Bool},
      livePass env asking store call auths searchedLive allMissed = .ok (settled, missed) →
      settled = .skip ∨ (∃ row ∈ store.subjects.rows, settled = .attach row) ∨
        ∃ auth ∈ auths, ∃ externalRef name aliases description,
          askAuthority env asking store call auth =
            .ok (some (some (.new externalRef name aliases description))) ∧
          settled = .mint (orText name call.name) description aliases externalRef := by
  intro auths
  induction auths with
  | nil =>
      intro searchedLive allMissed hpass
      cases hpass
      exact .inl rfl
  | cons auth rest ih =>
      intro searchedLive allMissed hpass
      have hrest : ∀ {searched allMissed : Bool},
          livePass env asking store call rest searched allMissed = .ok (settled, missed) →
          settled = .skip ∨ (∃ row ∈ store.subjects.rows, settled = .attach row) ∨
            ∃ auth' ∈ auth :: rest, ∃ externalRef name aliases description,
              askAuthority env asking store call auth' =
                .ok (some (some (.new externalRef name aliases description))) ∧
              settled = .mint (orText name call.name) description aliases externalRef := by
        intro searched allMissed hpass
        refine (ih hpass).imp_right (Or.imp_right ?_)
        rintro ⟨auth', hmem, hmint⟩
        exact ⟨auth', List.mem_cons_of_mem _ hmem, hmint⟩
      rw [livePass] at hpass
      split_ifs at hpass with hasks
      · exact hrest hpass
      · obtain ⟨answer, hask, hpass⟩ := bind_eq_ok.1 hpass
        cases answer with
        | none => exact hrest hpass
        | some answer =>
            cases answer with
            | none => exact hrest hpass
            | some res =>
                dsimp only at hpass
                cases hsettle : settle env store call.name call.source res with
                | skip =>
                    rw [hsettle] at hpass
                    exact hrest hpass
                | attach row =>
                    rw [hsettle] at hpass
                    cases hpass
                    refine .inr (.inl ⟨row, mem_of_settle_attach h ?_ hsettle, rfl⟩)
                    rintro found rfl
                    exact mem_of_askAuthority hask
                | mint canonicalName description aliases externalRef =>
                    rw [hsettle] at hpass
                    cases hpass
                    obtain ⟨name, rfl, rfl⟩ := settle_eq_mint hsettle
                    exact .inr (.inr ⟨auth, List.mem_cons_self, externalRef, name, aliases,
                      description, hask, rfl⟩)

/-- **What a resolution can do.** -/
inductive ResolveEffect (env : ResolverEnv) (authorities : List Authority) (asking : Asking)
    (r : Resolver) (call : NameCall) (stamp : Stamp) : Resolver → Subject → Prop where
  /-- the cache answers -/
  | cached {subject : Subject} (hget : r.cache.get? (makeKey env call.name) = some subject) :
      ResolveEffect env authorities asking r call stamp r subject
  /-- a row is found, and cached -/
  | found {subject : Subject} (hget : r.cache.get? (makeKey env call.name) = none)
      (mem : subject ∈ r.store.subjects.rows)
      (hlocal : ∀ row, findLocal env r.store call.name call.source = some row → row = subject) :
      ResolveEffect env authorities asking r call stamp
        { r with cache := r.cache.set (makeKey env call.name) subject } subject
  /-- the name is attached to a row -/
  | attached {row : Subject} {r' : Resolver} {subject : Subject}
      (hget : r.cache.get? (makeKey env call.name) = none) (mem : row ∈ r.store.subjects.rows)
      (hlocal : findLocal env r.store call.name call.source = none)
      (hattach : attachResolved env r (makeKey env call.name) row call.name = .ok (r', subject)) :
      ResolveEffect env authorities asking r call stamp r' subject
  /-- a subject is inserted -/
  | inserted {store' : Store} (negative : List String) {subject : Subject}
      (hget : r.cache.get? (makeKey env call.name) = none)
      (hlocal : findLocal env r.store call.name call.source = none)
      (mintable : Mintable env authorities asking r.store call stamp subject)
      (hinsert : insertSubject env.toSubjectEnv r.store subject = .ok store') :
      ResolveEffect env authorities asking r call stamp
        { store := store'
          cache := ({ r.cache with negative := negative } : SubjectCache).set
            (makeKey env call.name) subject } subject

/-- A new subject inserted. -/
theorem insertResolved_eq_ok {key : String} {inserted : Subject}
    (hok : insertResolved env r key inserted = .ok (r', subject)) :
    ∃ store', insertSubject env.toSubjectEnv r.store inserted = .ok store' ∧ subject = inserted ∧
      r' = { store := store', cache := r.cache.set key inserted } := by
  obtain ⟨store', hinsert, hresult⟩ := bind_eq_ok.1 hok
  cases hresult
  exact ⟨store', hinsert, rfl, rfl⟩

theorem writeSettled_cases {settled : Settled} {missed : Bool}
    (hget : r.cache.get? (makeKey env call.name) = none)
    (hlocal : findLocal env r.store call.name call.source = none)
    (hsettled : settled = .skip ∨ (∃ row ∈ r.store.subjects.rows, settled = .attach row) ∨
      ∃ auth ∈ authorities, ∃ externalRef name aliases description,
        askAuthority env asking r.store call auth =
          .ok (some (some (.new externalRef name aliases description))) ∧
        settled = .mint (orText name call.name) description aliases externalRef)
    (hok : writeSettled env authorities r call stamp (settled, missed) = .ok (r', subject)) :
    ResolveEffect env authorities asking r call stamp r' subject := by
  rcases hsettled with rfl | ⟨row, hrow, rfl⟩ | ⟨auth, hauth, externalRef, name, aliases,
    description, hask, rfl⟩
  · obtain ⟨store', hinsert, rfl, rfl⟩ := insertResolved_eq_ok hok
    cases missed with
    | false => exact .inserted r.cache.negative hget hlocal .bare hinsert
    | true =>
        exact .inserted (r.cache.setNegative (makeKey env call.name)).negative hget hlocal .bare
          hinsert
  · exact .attached hget hrow hlocal hok
  · obtain ⟨store', hinsert, rfl, rfl⟩ := insertResolved_eq_ok hok
    exact .inserted r.cache.negative hget hlocal (.answered hauth hask) hinsert

theorem resolve_cases (h : AliasIndexed env.toSubjectEnv r.store)
    (hok : resolve env authorities asking r call live stamp = .ok (r', subject)) :
    ResolveEffect env authorities asking r call stamp r' subject := by
  unfold resolve at hok
  cases hget : r.cache.get? (makeKey env call.name) with
  | some cached =>
      rw [hget] at hok
      cases hok
      exact .cached hget
  | none =>
      rw [hget] at hok
      cases hlocal : findLocal env r.store call.name call.source with
      | some existing =>
          simp only [hlocal] at hok
          cases hok
          refine .found hget (mem_of_findByName h hlocal) fun row hrow => ?_
          rw [hlocal] at hrow
          exact (Option.some.inj hrow).symm
      | none =>
          simp only [hlocal] at hok
          cases href : findRecognized authorities r.store call.name with
          | some byRef =>
              simp only [href] at hok
              cases hok
              refine .found hget (mem_of_findRecognized href) fun row hrow => ?_
              rw [hlocal] at hrow
              cases hrow
          | none =>
              simp only [href] at hok
              split_ifs at hok
              · exact writeSettled_cases hget hlocal (.inl rfl) hok
              · obtain ⟨⟨settled, missed⟩, hpass, hok⟩ := bind_eq_ok.1 hok
                exact writeSettled_cases hget hlocal (livePass_cases h hpass) hok

end Cases

end ParticlesEngine
