/-
**Prefetching and replaying the live authorities.**

A write path asks the live authorities before it takes the writer lock, for every claim against the
store as it is then, and replays the answers under the lock.  Asked live, an authority would see the
subjects that earlier names of the same batch inserted; so a replay resolves as a live run does only
where the answers carry over.

Main definitions:

* `resolveClaims`, `prefetchClaims` — the claims of one source, resolved and prefetched in order;
* `CarriesOver` — a recorded answer comes to what the answer asked live comes to;
* `AnswersCarry` — the answers to a name carry over, for each authority that the live run reaches;
* `wikidataAuthority` — the authority that looks up its choice by its ref.

Main results:

* `recorded_prefetchClaims` — a prefetch records the first claim's answers, up to the one that decides;
* `replay_eq_live` — **where the answers carry over the replay is the live run**;
* `wikidata_carriesOver_iff` — for Wikidata they do, unless a link below the floor was inserted
  meanwhile;
* `replay_differs_bigApple` — two names of one entity are resolved to two subjects.
-/

import ParticlesEngine.SubjectSessions

set_option relaxedAutoImplicit false
set_option autoImplicit false

open Runs

namespace ParticlesEngine

/-! ### Claims in order -/

section Claims

variable (env : ResolverEnv) (authorities : List Authority) (source : NameSource)

/-- The claims of one source, resolved in order: the ids of the subjects of each. -/
def resolveClaims (asking : Asking) (assertedBy : String) (r : Resolver) (claims : List ClaimNames) :
    Except StoreError (Resolver × List (List String)) :=
  claims.foldlM (fun (acc : Resolver × List (List String)) (claim : ClaimNames) => do
    let (r, ids) ← resolveSubjects env authorities asking source assertedBy acc.1 claim
    return (r, acc.2 ++ [ids])) (r, [])

/-- The claims of one source, prefetched in order into one set of answers. -/
def prefetchClaims (r : Resolver) (claims : List ClaimNames) : LiveAnswers :=
  claims.foldl (fun answers claim =>
    (prefetchSubjects env authorities source r claim answers).answers) []

/-- The names of a claim that are resolved, in order. -/
def claimCalls (assertedBy : String) (claim : ClaimNames) : List (NameCall × Stamp) :=
  (claim.names.filter fun name => env.strip name.1 ≠ "").map fun name =>
    (claimCall env source assertedBy claim.content name.1, name.2)

/-- The names of several claims. -/
def claimsCalls (assertedBy : String) (claims : List ClaimNames) : List (NameCall × Stamp) :=
  claims.flatMap (claimCalls env source assertedBy)

/-- The content of the first claim with a name. -/
def firstContent (claims : List ClaimNames) (name : String) : Option String :=
  ((claimsCalls env source "" claims).find? fun call => call.1.name = name).bind fun call =>
    call.1.content

/-- One name of a live run. -/
def liveStep (r : Resolver) (call : NameCall × Stamp) : Option Resolver :=
  (resolveSubject env authorities .live r call.1 call.2).toOption.map Prod.fst

end Claims

/-! ### Answers that carry over -/

section Carry

variable (env : ResolverEnv)

/-- An answer that leaves the name to the next authority. -/
def declines : Option AuthorityResolution → Bool
  | none => true
  | some (.existing _) => false
  | some .abstained => true
  | some .unreachable => true
  | some (.new externalRef _ _ _) => externalRef.confidence < env.externalLinkAbstainThreshold

/-- **A recorded answer carries over** to a store: it is what the authority answers there, or both
give the same row, the recorded one as a new link that is not below the floor. -/
inductive CarriesOver (store : Store) :
    (recorded live : Option AuthorityResolution) → Prop where
  | same (answer : Option AuthorityResolution) : CarriesOver store answer answer
  | row {before row : Subject} (hid : row.id = before.id) :
      CarriesOver store (some (.existing before)) (some (.existing row))
  | linked {externalRef : ExternalRef} {canonicalName : Option String} {aliases : List String}
      {description : Option String} {row : Subject}
      (found : findByExternalRef store externalRef.ns externalRef.id = some row)
      (floor : env.externalLinkAbstainThreshold ≤ externalRef.confidence) :
      CarriesOver store (some (.new externalRef canonicalName aliases description))
        (some (.existing row))

/-- The live run asks the authorities for a name: nothing before them answers it. -/
structure AsksLive (authorities : List Authority) (r : Resolver) (call : NameCall) : Prop where
  unfolded : personaFold env call.name call.source = none
  uncached : r.cache.get? (makeKey env call.name) = none
  missing : findLocal env r.store call.name call.source = none
  unrecognized : findRecognized authorities r.store call.name = none
  searched : skipsLive env r.cache call true = false

/-- The answers of each authority that is reached carry over from one store and content to another. -/
def PassCarries (before : Store) (content : Option String) (store : Store) (call : NameCall) :
    List Authority → Prop
  | [] => True
  | auth :: rest =>
      if auth.asks (domainOf env call.source) = false then
        PassCarries before content store call rest
      else
        CarriesOver env store
          (auth.resolve (findByExternalRef before) call.name content (domainOf env call.source))
          (auth.resolve (findByExternalRef store) call.name call.content
            (domainOf env call.source)) ∧
        (declines env (auth.resolve (findByExternalRef store) call.name call.content
            (domainOf env call.source)) = true →
          PassCarries before content store call rest)

/-- **The answers to a name carry over** from the prefetch, where the live run asks for it. -/
def AnswersCarry (authorities : List Authority) (source : NameSource) (before : Store)
    (claims : List ClaimNames) (r : Resolver) (call : NameCall × Stamp) : Prop :=
  AsksLive env authorities r call.1 →
    PassCarries env before (firstContent env source claims call.1.name) r.store call.1 authorities

end Carry

/-! ### One pass -/

section Pass

variable {env : ResolverEnv} {store before : Store} {call : NameCall} {answers : LiveAnswers}
  {content : Option String}

theorem settle_eq_skip_iff {res : AuthorityResolution} :
    settle env store call.name call.source res = .skip ↔ declines env (some res) = true := by
  cases res with
  | existing subject => simp [settle, declines]
  | abstained => simp [settle, declines]
  | unreachable => simp [settle, declines]
  | new externalRef canonicalName aliases description =>
      simp only [settle, declines, decide_eq_true_eq]
      split_ifs with hfloor
      · simp [hfloor]
      · cases findDuplicate env store call.name call.source externalRef
          (orText canonicalName call.name) <;> simp [hfloor]

/-- What an answer comes to, a missing one included. -/
def settledOf (env : ResolverEnv) (store : Store) (call : NameCall) :
    Option AuthorityResolution → Settled
  | none => .skip
  | some res => settle env store call.name call.source res

/-- **One authority of the live pass**, that is asked and answers. -/
theorem livePass_answered {asking : Asking} {auth : Authority} {rest : List Authority}
    {searchedLive allMissed : Bool} {answer : Option AuthorityResolution}
    (hasks : auth.asks (domainOf env call.source) = true)
    (hask : askAuthority env asking store call auth = .ok (some answer)) :
    livePass env asking store call (auth :: rest) searchedLive allMissed =
      if declines env answer = true then
        livePass env asking store call rest true (allMissed && answer.isNone)
      else .ok (settledOf env store call answer, false) := by
  rw [livePass, if_neg (by simp [hasks]), hask]
  cases answer with
  | none => simp [declines, bind, Except.bind]
  | some res =>
      by_cases hdeclines : declines env (some res) = true
      · rw [if_pos hdeclines]
        have hskip : settle env store call.name call.source res = .skip :=
          settle_eq_skip_iff.2 hdeclines
        simp [bind, Except.bind, hskip]
      · rw [if_neg hdeclines, settledOf]
        have hskip : settle env store call.name call.source res ≠ .skip :=
          fun h => hdeclines (settle_eq_skip_iff.1 h)
        cases hsettle : settle env store call.name call.source res with
        | skip => exact absurd hsettle hskip
        | attach subject => simp [bind, Except.bind, hsettle]
        | mint canonicalName description aliases externalRef => simp [bind, Except.bind, hsettle]

/-- The answers of each authority that the prefetch reached are recorded. -/
def AnswersRecorded (env : ResolverEnv) (before : Store) (content : Option String) (name : String)
    (domain : Option String) (answers : LiveAnswers) : List Authority → Prop
  | [] => True
  | auth :: rest =>
      if auth.asks domain = false then AnswersRecorded env before content name domain answers rest
      else
        answers.get? (name, auth.NAMESPACE) =
          some (auth.resolve (findByExternalRef before) name content domain) ∧
        (declines env (auth.resolve (findByExternalRef before) name content domain) = true →
          AnswersRecorded env before content name domain answers rest)

/-- A row is read again under its id. -/
theorem getSubject_of_mem {row : Subject} {id : String} (hrow : row ∈ store.subjects.rows)
    (hid : row.id = id) : getSubject env.toSubjectEnv store id = .ok (some row) := by
  unfold getSubject
  rw [← hid, Table.get?_key hrow]

/-- A live answer that gives a row gives one of the store. -/
theorem mem_of_resolve {auth : Authority} {domain : Option String} {row : Subject}
    (hanswer : auth.resolve (findByExternalRef store) call.name content domain =
      some (.existing row)) : row ∈ store.subjects.rows := by
  obtain ⟨namespc, id, hfind⟩ := auth.existing_found _ _ _ _ _ hanswer
  exact mem_of_findByExternalRef hfind

/-- **A recorded answer that carries over is replayed** as one that comes to the same. -/
theorem askAuthority_replay {auth : Authority} {recorded live : Option AuthorityResolution}
    (hrecorded : answers.get? (call.name, auth.NAMESPACE) = some recorded)
    (hcarries : CarriesOver env store recorded live)
    (hrow : ∀ row, live = some (.existing row) → row ∈ store.subjects.rows) :
    ∃ answer, askAuthority env (.replay answers) store call auth = .ok (some answer) ∧
      declines env answer = declines env live ∧ answer.isNone = live.isNone ∧
      settledOf env store call answer = settledOf env store call live := by
  unfold askAuthority
  simp only [hrecorded]
  cases hcarries with
  | same =>
      cases recorded with
      | none => exact ⟨none, rfl, rfl, rfl, rfl⟩
      | some res =>
          cases res with
          | existing row =>
              refine ⟨some (.existing row), ?_, rfl, rfl, rfl⟩
              simp only [getSubject_of_mem (hrow row rfl) rfl]
              rfl
          | abstained => exact ⟨_, rfl, rfl, rfl, rfl⟩
          | unreachable => exact ⟨_, rfl, rfl, rfl, rfl⟩
          | new externalRef canonicalName aliases description => exact ⟨_, rfl, rfl, rfl, rfl⟩
  | row hid =>
      rename_i recordedRow row
      refine ⟨some (.existing row), ?_, rfl, rfl, rfl⟩
      simp only [getSubject_of_mem (hrow row rfl) hid]
      rfl
  | linked hfound hfloor =>
      rename_i externalRef canonicalName aliases description row
      refine ⟨_, rfl, ?_, rfl, ?_⟩
      · simp [declines, hfloor]
      · simp only [settledOf, settle, findDuplicate, hfound, if_neg (not_lt.2 hfloor)]

theorem CarriesOver.declines {recorded live : Option AuthorityResolution}
    (hcarries : CarriesOver env store recorded live)
    (hdeclines : ParticlesEngine.declines env live = true) :
    ParticlesEngine.declines env recorded = true := by
  cases hcarries with
  | same => exact hdeclines
  | row hid => simp [ParticlesEngine.declines] at hdeclines
  | linked hfound hfloor => simp [ParticlesEngine.declines] at hdeclines

/-- **Where the answers carry over the replayed pass is the live pass.** -/
theorem livePass_replay :
    ∀ {authorities : List Authority} {searchedLive allMissed : Bool},
      AnswersRecorded env before content call.name (domainOf env call.source) answers authorities →
      PassCarries env before content store call authorities →
      livePass env (.replay answers) store call authorities searchedLive allMissed =
        livePass env .live store call authorities searchedLive allMissed := by
  intro authorities
  induction authorities with
  | nil => intros; rfl
  | cons auth rest ih =>
      intro searchedLive allMissed hrecorded hcarries
      rw [AnswersRecorded] at hrecorded
      rw [PassCarries] at hcarries
      by_cases hasks : auth.asks (domainOf env call.source) = false
      · rw [if_pos hasks] at hrecorded hcarries
        rw [livePass, livePass, if_pos hasks, if_pos hasks]
        exact ih hrecorded hcarries
      · rw [if_neg hasks] at hrecorded hcarries
        obtain ⟨hget, hrecordedRest⟩ := hrecorded
        obtain ⟨hcarry, hcarriesRest⟩ := hcarries
        have hasks' : auth.asks (domainOf env call.source) = true := by simpa using hasks
        obtain ⟨answer, hask, hdeclines, hnone, hsettled⟩ :=
          askAuthority_replay hget hcarry fun row hlive => mem_of_resolve hlive
        have hlive : askAuthority env .live store call auth = .ok (some
            (auth.resolve (findByExternalRef store) call.name call.content
              (domainOf env call.source))) := rfl
        rw [livePass_answered hasks' hask, livePass_answered hasks' hlive, hdeclines, hnone, hsettled]
        split_ifs with hdeclined
        · -- the recorded answer declined too, so the next authority was asked
          exact ih (hrecordedRest (hcarry.declines hdeclined)) (hcarriesRest hdeclined)
        · rfl

end Pass

/-! ### What a prefetch records -/

section Prefetch

variable {env : ResolverEnv} {before : Store} {answers : LiveAnswers}

theorem LiveAnswers.get?_append (answers extra : LiveAnswers) (asked : String × String) :
    LiveAnswers.get? (answers ++ extra) asked = (answers.get? asked).or (extra.get? asked) := by
  unfold LiveAnswers.get?
  rw [List.find?_append, Option.map_or]

/-- An authority asked in a read-only run. -/
theorem prefetchPass_asked {call : NameCall} {auth : Authority} {rest : List Authority}
    (hasks : auth.asks (domainOf env call.source) = true) :
    (prefetchPass env before call (auth :: rest) answers).1 =
      if declines env (askOnce env before call auth answers).2 = true then
        (prefetchPass env before call rest (askOnce env before call auth answers).1).1
      else (askOnce env before call auth answers).1 := by
  rw [prefetchPass, if_neg (by simp [hasks])]
  cases hask : askOnce env before call auth answers with
  | mk answers' answer =>
      cases answer with
      | none => simp [declines]
      | some res =>
          by_cases hdeclines : declines env (some res) = true
          · simp [settle_eq_skip_iff.2 hdeclines, hdeclines]
          · have hskip : settle env before call.name call.source res ≠ .skip :=
              fun h => hdeclines (settle_eq_skip_iff.1 h)
            rw [if_neg hdeclines]
            cases hsettle : settle env before call.name call.source res with
            | skip => exact absurd hsettle hskip
            | attach subject => simp [hsettle]
            | mint canonicalName description aliases externalRef => simp [hsettle]

theorem prefetchPass_unasked {call : NameCall} {auth : Authority} {rest : List Authority}
    (hasks : auth.asks (domainOf env call.source) = false) :
    prefetchPass env before call (auth :: rest) answers =
      prefetchPass env before call rest answers := by
  rw [prefetchPass, if_pos hasks]

/-- The answer of an authority that was not asked before is added. -/
theorem askOnce_of_none {call : NameCall} {auth : Authority}
    (hnone : answers.get? (call.name, auth.NAMESPACE) = none) :
    askOnce env before call auth answers =
      (answers ++ [((call.name, auth.NAMESPACE), auth.resolve (findByExternalRef before) call.name
        call.content (domainOf env call.source))],
        auth.resolve (findByExternalRef before) call.name call.content
          (domainOf env call.source)) := by
  rw [askOnce, hnone]

theorem askOnce_of_some {call : NameCall} {auth : Authority} {res : Option AuthorityResolution}
    (hget : answers.get? (call.name, auth.NAMESPACE) = some res) :
    askOnce env before call auth answers = (answers, res) := by
  rw [askOnce, hget]

theorem askOnce_extends (env : ResolverEnv) (before : Store) (call : NameCall) (auth : Authority)
    (answers : LiveAnswers) : ∃ extra, (askOnce env before call auth answers).1 = answers ++ extra ∧
      ∀ entry ∈ extra, entry.1.1 = call.name := by
  cases hget : answers.get? (call.name, auth.NAMESPACE) with
  | some res =>
      rw [askOnce_of_some hget]
      exact ⟨[], (List.append_nil answers).symm, by simp⟩
  | none =>
      rw [askOnce_of_none hget]
      exact ⟨_, rfl, by simp⟩

/-- The answers that a pass of a name adds are to that name. -/
theorem prefetchPass_extends (env : ResolverEnv) (before : Store) (call : NameCall) :
    ∀ (authorities : List Authority) (answers : LiveAnswers),
      ∃ extra, (prefetchPass env before call authorities answers).1 = answers ++ extra ∧
        ∀ entry ∈ extra, entry.1.1 = call.name := by
  intro authorities
  induction authorities with
  | nil =>
      intro answers
      exact ⟨[], (List.append_nil answers).symm, by simp⟩
  | cons auth rest ih =>
      intro answers
      by_cases hasks : auth.asks (domainOf env call.source) = true
      · rw [prefetchPass_asked hasks]
        obtain ⟨extra, hextra, hnames⟩ := askOnce_extends env before call auth answers
        split_ifs
        · obtain ⟨extra', hextra', hnames'⟩ := ih (askOnce env before call auth answers).1
          refine ⟨extra ++ extra', by rw [hextra', hextra, List.append_assoc], ?_⟩
          intro entry hentry
          rcases List.mem_append.1 hentry with h | h
          · exact hnames entry h
          · exact hnames' entry h
        · exact ⟨extra, hextra, hnames⟩
      · rw [prefetchPass_unasked (by simpa using hasks)]
        exact ih answers

/-- What is recorded stays so. -/
theorem AnswersRecorded.append {content : Option String} {name : String} {domain : Option String}
    (extra : LiveAnswers) : ∀ {authorities : List Authority},
      AnswersRecorded env before content name domain answers authorities →
      AnswersRecorded env before content name domain (answers ++ extra) authorities := by
  intro authorities
  induction authorities with
  | nil => exact fun _ => trivial
  | cons auth rest ih =>
      intro hrecorded
      rw [AnswersRecorded] at hrecorded ⊢
      split_ifs at hrecorded ⊢ with hasks
      · exact ih hrecorded
      · refine ⟨?_, fun hdeclines => ih (hrecorded.2 hdeclines)⟩
        rw [LiveAnswers.get?_append, hrecorded.1, Option.some_or]

/-- The namespaces of the live authorities of a domain are distinct. -/
def DistinctNamespaces (domain : Option String) (authorities : List Authority) : Prop :=
  ((authorities.filter (·.asks domain)).map Authority.NAMESPACE).Nodup

/-- **The first pass of a name records its answers**, up to the one that decides. -/
theorem recorded_prefetchPass {call : NameCall} :
    ∀ {authorities : List Authority} {answers : LiveAnswers},
      DistinctNamespaces (domainOf env call.source) authorities →
      (∀ auth ∈ authorities, auth.asks (domainOf env call.source) = true →
        answers.get? (call.name, auth.NAMESPACE) = none) →
      AnswersRecorded env before call.content call.name (domainOf env call.source)
        (prefetchPass env before call authorities answers).1 authorities := by
  intro authorities
  induction authorities with
  | nil => intros; trivial
  | cons auth rest ih =>
      intro answers hdistinct hnone
      rw [AnswersRecorded]
      unfold DistinctNamespaces at hdistinct
      by_cases hasks : auth.asks (domainOf env call.source) = false
      · rw [if_pos hasks, prefetchPass_unasked hasks]
        rw [List.filter_cons_of_neg (by simp [hasks])] at hdistinct
        exact ih hdistinct fun other hother => hnone other (List.mem_cons_of_mem _ hother)
      · have hasks' : auth.asks (domainOf env call.source) = true := by simpa using hasks
        have hfilter : (auth :: rest).filter (·.asks (domainOf env call.source)) =
            auth :: rest.filter (·.asks (domainOf env call.source)) :=
          List.filter_cons_of_pos hasks'
        rw [hfilter, List.map_cons, List.nodup_cons] at hdistinct
        rw [if_neg hasks, prefetchPass_asked hasks',
          askOnce_of_none (hnone auth List.mem_cons_self hasks')]
        dsimp only
        generalize hres : auth.resolve (findByExternalRef before) call.name call.content
          (domainOf env call.source) = res
        set answers' := answers ++ [((call.name, auth.NAMESPACE), res)] with hanswers'
        have hget : answers'.get? (call.name, auth.NAMESPACE) = some res := by
          rw [hanswers', LiveAnswers.get?_append, hnone auth List.mem_cons_self hasks']
          simp [LiveAnswers.get?]
        split_ifs with hdeclines
        · refine ⟨?_, fun _ => ih hdistinct.2 fun other hother hasksOther => ?_⟩
          · obtain ⟨extra, hextra, -⟩ := prefetchPass_extends env before call rest answers'
            rw [hextra, LiveAnswers.get?_append, hget, Option.some_or]
          · -- another authority has another namespace
            have hother' : auth.NAMESPACE ≠ other.NAMESPACE := by
              intro heq
              exact hdistinct.1 (heq ▸ List.mem_map_of_mem (List.mem_filter.2 ⟨hother, hasksOther⟩))
            rw [hanswers', LiveAnswers.get?_append,
              hnone other (List.mem_cons_of_mem _ hother) hasksOther, Option.none_or]
            simp [LiveAnswers.get?, hother']
        · exact ⟨hget, fun h => absurd h hdeclines⟩

/-- **A later pass of a name asks nothing.** -/
theorem prefetchPass_again {call : NameCall} {content : Option String} :
    ∀ {authorities : List Authority},
      AnswersRecorded env before content call.name (domainOf env call.source) answers authorities →
      (prefetchPass env before call authorities answers).1 = answers := by
  intro authorities
  induction authorities with
  | nil => intros; rfl
  | cons auth rest ih =>
      intro hrecorded
      rw [AnswersRecorded] at hrecorded
      by_cases hasks : auth.asks (domainOf env call.source) = false
      · rw [if_pos hasks] at hrecorded
        rw [prefetchPass_unasked hasks]
        exact ih hrecorded
      · rw [if_neg hasks] at hrecorded
        rw [prefetchPass_asked (by simpa using hasks), askOnce_of_some hrecorded.1]
        split_ifs with hdeclines
        · exact ih (hrecorded.2 hdeclines)
        · rfl

end Prefetch

/-! ### All the names -/

section Names

variable {env : ResolverEnv} {authorities : List Authority} {source : NameSource}
  {r : Resolver} {answers : LiveAnswers}

/-- One name of a prefetch. -/
def dryCall (env : ResolverEnv) (authorities : List Authority) (r : Resolver)
    (answers : LiveAnswers) (call : NameCall × Stamp) : LiveAnswers :=
  (resolveDry env authorities r (call.1.folded env)
    (personaFold env call.1.name call.1.source).isNone answers).1

theorem personaFold_strip (env : ResolverEnv) (name : String) (source : NameSource) :
    personaFold env (env.strip name) source = personaFold env name source := by
  unfold personaFold
  rw [env.strip_strip]

theorem prefetchSubjects_answers (claim : ClaimNames) :
    (prefetchSubjects env authorities source r claim answers).answers =
      (claimCalls env source "" claim).foldl (dryCall env authorities r) answers := by
  have hfold : ∀ (names : List (String × Stamp)) (answers : LiveAnswers) (known : List String),
      (names.foldl (fun (acc : LiveAnswers × List String) name =>
        if env.strip name.1 = "" then acc
        else
          let persona := personaFold env name.1 source
          let folded := persona.getD (env.strip name.1)
          let dry := resolveDry env authorities r
            { claimCall env source "" claim.content name.1 with name := folded } persona.isNone acc.1
          (dry.1, acc.2 ++ (dry.2.map Subject.id).toList)) (answers, known)).1 =
        ((names.filter fun name => env.strip name.1 ≠ "").map fun name =>
          (claimCall env source "" claim.content name.1, name.2)).foldl
          (dryCall env authorities r) answers := by
    intro names
    induction names with
    | nil => intros; rfl
    | cons name rest ih =>
        intro answers known
        rw [List.foldl_cons]
        by_cases hblank : env.strip name.1 = ""
        · rw [if_pos hblank, List.filter_cons_of_neg (by simp [hblank])]
          exact ih answers known
        · rw [if_neg hblank, List.filter_cons_of_pos (by simp [hblank]), List.map_cons,
            List.foldl_cons, ih]
          have hcall : dryCall env authorities r answers
              (claimCall env source "" claim.content name.1, name.2) =
              (resolveDry env authorities r
                { claimCall env source "" claim.content name.1 with
                  name := (personaFold env name.1 source).getD (env.strip name.1) }
                (personaFold env name.1 source).isNone answers).1 := by
            unfold dryCall NameCall.folded personaCanonical claimCall
            simp only [personaFold_strip]
          rw [hcall]
  exact hfold claim.names answers []

theorem prefetchClaims_eq (claims : List ClaimNames) :
    prefetchClaims env authorities source r claims =
      (claimsCalls env source "" claims).foldl (dryCall env authorities r) [] := by
  unfold prefetchClaims claimsCalls
  rw [List.foldl_flatMap]
  refine congrArg (fun step => claims.foldl step []) (funext fun answers => funext fun claim => ?_)
  exact prefetchSubjects_answers claim

/-- Whether the authorities are asked depends on the name and the source. -/
theorem AsksLive.congr {call call' : NameCall} (hasks : AsksLive env authorities r call)
    (hname : call'.name = call.name) (hsource : call'.source = call.source) :
    AsksLive env authorities r call' where
  unfolded := by rw [hname, hsource]; exact hasks.unfolded
  uncached := by rw [hname]; exact hasks.uncached
  missing := by rw [hname, hsource]; exact hasks.missing
  unrecognized := by rw [hname]; exact hasks.unrecognized
  searched := by
    unfold skipsLive
    rw [hname, hsource]
    exact hasks.searched

theorem folded_of_unfolded {call : NameCall}
    (hunfolded : personaFold env call.name call.source = none) : call.folded env = call := by
  unfold NameCall.folded personaCanonical
  rw [hunfolded]
  rfl

theorem dryCall_of_asks {call : NameCall × Stamp} (hasks : AsksLive env authorities r call.1) :
    dryCall env authorities r answers call =
      (prefetchPass env r.store call.1 authorities answers).1 := by
  unfold dryCall resolveDry
  rw [folded_of_unfolded hasks.unfolded, hasks.unfolded, hasks.uncached]
  simp [hasks.missing, hasks.unrecognized, hasks.searched]

theorem dryCall_of_not_asks {call : NameCall × Stamp} (hasks : ¬ AsksLive env authorities r call.1) :
    dryCall env authorities r answers call = answers := by
  unfold dryCall resolveDry
  cases hcached : r.cache.get? (makeKey env (call.1.folded env).name) with
  | some subject => rfl
  | none =>
      dsimp only
      cases hlocal : findLocal env r.store (call.1.folded env).name (call.1.folded env).source with
      | some existing => rfl
      | none =>
          dsimp only
          cases hrecognized : findRecognized authorities r.store (call.1.folded env).name with
          | some byRef => rfl
          | none =>
              dsimp only
              cases hfold : personaFold env call.1.name call.1.source with
              | some persona =>
                  -- a folded name goes to no authority
                  rw [if_pos (by simp [skipsLive])]
              | none =>
                  rw [folded_of_unfolded hfold] at hcached hlocal hrecognized ⊢
                  by_cases hskip : skipsLive env r.cache call.1 true = true
                  · rw [Option.isNone_none, if_pos hskip]
                  · exact absurd ⟨hfold, hcached, hlocal, hrecognized, by simpa using hskip⟩ hasks

/-- What the first calls of a prefetch have recorded. -/
structure RecordedUpTo (env : ResolverEnv) (authorities : List Authority) (source : NameSource)
    (r : Resolver) (calls before : List (NameCall × Stamp)) (answers : LiveAnswers) : Prop where
  recorded : ∀ call ∈ before, AsksLive env authorities r call.1 →
    AnswersRecorded env r.store ((calls.find? fun other => other.1.name = call.1.name).bind fun other =>
      other.1.content) call.1.name (domainOf env source) answers authorities
  untouched : ∀ name, (∀ call ∈ before, call.1.name ≠ name) → ∀ namespc,
    answers.get? (name, namespc) = none

theorem RecordedUpTo.step {calls before after : List (NameCall × Stamp)} {call : NameCall × Stamp}
    (h : RecordedUpTo env authorities source r calls before answers)
    (hdistinct : DistinctNamespaces (domainOf env source) authorities)
    (hcalls : calls = before ++ call :: after) (hsource : ∀ call ∈ calls, call.1.source = source) :
    RecordedUpTo env authorities source r calls (before ++ [call])
      (dryCall env authorities r answers call) := by
  have hcall : call.1.source = source := hsource call (by rw [hcalls]; simp)
  by_cases hasks : AsksLive env authorities r call.1
  · rw [dryCall_of_asks hasks]
    obtain ⟨extra, hextra, hnames⟩ := prefetchPass_extends env r.store call.1 authorities answers
    constructor
    · intro other hother hasksOther
      rcases List.mem_append.1 hother with hbefore | hlast
      · rw [hextra]
        exact (h.recorded other hbefore hasksOther).append extra
      · obtain rfl := List.mem_singleton.1 hlast
        by_cases hnew : ∀ earlier ∈ before, earlier.1.name ≠ other.1.name
        · -- the first call of the name
          have hfirst : calls.find? (fun earlier => earlier.1.name = other.1.name) = some other := by
            rw [hcalls, List.find?_append, List.find?_eq_none.2 (by simpa using hnew)]
            simp
          rw [hfirst, ← hcall]
          exact recorded_prefetchPass (by rw [hcall]; exact hdistinct)
            fun auth _ _ => h.untouched _ hnew _
        · simp only [not_forall, not_not] at hnew
          obtain ⟨earlier, hearlier, hname⟩ := hnew
          have hsame : earlier.1.source = other.1.source := by
            rw [hcall]
            exact hsource earlier (by rw [hcalls]; exact List.mem_append_left _ hearlier)
          have hrecorded := h.recorded earlier hearlier (hasks.congr hname hsame)
          rw [hname, ← hcall] at hrecorded
          rw [prefetchPass_again hrecorded, ← hcall]
          exact hrecorded
    · intro name hname namespc
      have hne : call.1.name ≠ name := hname call (by simp)
      rw [hextra, LiveAnswers.get?_append,
        h.untouched name (fun other hother => hname other (List.mem_append_left _ hother)),
        Option.none_or, LiveAnswers.get?, Option.map_eq_none_iff, List.find?_eq_none]
      intro entry hentry
      have hentryName := hnames entry hentry
      simp only [decide_eq_true_eq]
      intro heq
      exact hne (by rw [← hentryName, heq])
  · rw [dryCall_of_not_asks hasks]
    constructor
    · intro other hother hasksOther
      rcases List.mem_append.1 hother with hbefore | hlast
      · exact h.recorded other hbefore hasksOther
      · obtain rfl := List.mem_singleton.1 hlast
        exact absurd hasksOther hasks
    · exact fun name hname => h.untouched name fun other hother =>
        hname other (List.mem_append_left _ hother)

theorem RecordedUpTo.fold {calls : List (NameCall × Stamp)}
    (hdistinct : DistinctNamespaces (domainOf env source) authorities)
    (hsource : ∀ call ∈ calls, call.1.source = source) :
    ∀ {after before : List (NameCall × Stamp)} {answers : LiveAnswers},
      RecordedUpTo env authorities source r calls before answers → calls = before ++ after →
      RecordedUpTo env authorities source r calls calls
        (after.foldl (dryCall env authorities r) answers) := by
  intro after
  induction after with
  | nil =>
      intro before answers h hcalls
      rw [List.append_nil] at hcalls
      rw [hcalls] at h ⊢
      exact h
  | cons call after ih =>
      intro before answers h hcalls
      rw [List.foldl_cons]
      exact ih (h.step hdistinct hcalls hsource) (by rw [hcalls, List.append_assoc]; rfl)

/-- **A prefetch records, for each name that is asked for, the answers to the first claim with it.** -/
theorem recorded_prefetchClaims (hdistinct : DistinctNamespaces (domainOf env source) authorities)
    {claims : List ClaimNames} {call : NameCall × Stamp}
    (hcall : call ∈ claimsCalls env source "" claims) (hasks : AsksLive env authorities r call.1) :
    AnswersRecorded env r.store (firstContent env source claims call.1.name) call.1.name
      (domainOf env source) (prefetchClaims env authorities source r claims) authorities := by
  have hsource : ∀ call ∈ claimsCalls env source "" claims, call.1.source = source := by
    intro call hcall
    obtain ⟨claim, -, hmem⟩ := List.mem_flatMap.1 hcall
    obtain ⟨name, -, rfl⟩ := List.mem_map.1 hmem
    rfl
  have hstart : RecordedUpTo env authorities source r (claimsCalls env source "" claims) [] [] :=
    ⟨by simp, fun name _ namespc => rfl⟩
  have hall := hstart.fold hdistinct hsource (List.nil_append _).symm
  rw [prefetchClaims_eq]
  exact hall.recorded call hcall hasks

end Names

/-! ### What a live run keeps -/

section Growth

variable {env : ResolverEnv} {authorities : List Authority} {before store store' : Store}

/-- What was found before is found still; a ref finds the same row. -/
structure Grows (env : ResolverEnv) (before store : Store) : Prop where
  indexed : AliasIndexed env.toSubjectEnv store
  names : ∀ text skip row, findByName env.toNameEnv before text skip = some row →
    ∃ row', findByName env.toNameEnv store text skip = some row'
  refs : ∀ namespc id row, findByExternalRef before namespc id = some row →
    ∃ row', findByExternalRef store namespc id = some row' ∧ row'.id = row.id

theorem Grows.refl (hindexed : AliasIndexed env.toSubjectEnv store) : Grows env store store :=
  ⟨hindexed, fun _ _ row h => ⟨row, h⟩, fun _ _ row h => ⟨row, h, rfl⟩⟩

/-- New aliases leave what a ref finds, but for the aliases. -/
theorem findByExternalRef_addAliases {id : String} {names added : List String} {updated : Subject}
    (hok : addAliases env.toSubjectEnv store id names = .ok (store', updated, added))
    {namespc refId : String} {row : Subject} (hrow : findByExternalRef store namespc refId = some row) :
    ∃ row', findByExternalRef store' namespc refId = some row' ∧ row'.id = row.id := by
  simp only [addAliases, bind_eq_ok, orRaise_eq_ok] at hok
  obtain ⟨found, hfound, written, hwritten, hresult⟩ := hok
  obtain ⟨rfl, -, -⟩ : written = store' ∧ _ = updated ∧ _ := by
    simpa only [pure, Except.pure, Except.ok.injEq, Prod.mk.injEq] using hresult
  split_ifs at hwritten
  · cases hwritten
    exact ⟨row, hrow, rfl⟩
  · generalize found.aliases ++ _ = aliases at hwritten
    have hframe := (indexAliases_spec hwritten).2
    have hrows : written.subjects.rows = store.subjects.rows.map fun subject =>
        if subject.id = id then subject.withAliases aliases else subject := by
      rw [hframe]
      rfl
    unfold findByExternalRef at hrow ⊢
    have htest : ((fun subject : Subject => subject.externalIds.any fun ref =>
        decide (ref.ns = namespc ∧ ref.id = refId)) ∘ fun subject =>
          if subject.id = id then subject.withAliases aliases else subject) =
        fun subject => subject.externalIds.any fun ref =>
          decide (ref.ns = namespc ∧ ref.id = refId) := by
      funext subject
      rw [Function.comp_apply]
      split_ifs <;> rfl
    rw [hrows, List.find?_map, htest, hrow]
    refine ⟨if row.id = id then row.withAliases aliases else row, rfl, ?_⟩
    split_ifs <;> rfl

theorem Grows.insertSubject {subject : Subject} (h : Grows env before store)
    (hok : insertSubject env.toSubjectEnv store subject = .ok store') : Grows env before store' where
  indexed := h.indexed.insertSubject hok
  names text skip row hrow := by
    obtain ⟨row', hrow'⟩ := h.names text skip row hrow
    rcases findByName_insert h.indexed hok with hnew | hsame
    · exact ⟨subject, hnew⟩
    · exact ⟨row', hsame.trans hrow'⟩
  refs namespc id row hrow := by
    obtain ⟨row', hrow', hid⟩ := h.refs namespc id row hrow
    simp only [ParticlesEngine.insertSubject, bind_eq_ok, orRaise_eq_ok] at hok
    obtain ⟨subjects, hsubjects, hindex⟩ := hok
    have hframe := (indexAliases_spec hindex).2
    have hrows : store'.subjects.rows = store.subjects.rows ++ [subject] := by
      rw [hframe]
      exact (Table.insert?_eq_some.1 hsubjects).2
    refine ⟨row', ?_, hid⟩
    unfold findByExternalRef at hrow' ⊢
    rw [hrows, List.find?_append, hrow', Option.some_or]

theorem Grows.addAliases {id : String} {names added : List String} {updated : Subject}
    (h : Grows env before store)
    (hok : addAliases env.toSubjectEnv store id names = .ok (store', updated, added)) :
    Grows env before store' where
  indexed := h.indexed.addAliases hok
  names text skip row hrow := by
    obtain ⟨row', hrow'⟩ := h.names text skip row hrow
    exact findByName_isSome_addAliases h.indexed hok hrow'
  refs namespc refId row hrow := by
    obtain ⟨row', hrow', hid⟩ := h.refs namespc refId row hrow
    obtain ⟨row'', hrow'', hid'⟩ := findByExternalRef_addAliases hok hrow'
    exact ⟨row'', hrow'', hid'.trans hid⟩

/-- **A resolution keeps what is found.** -/
theorem Grows.resolve {asking : Asking} {r r' : Resolver} {call : NameCall} {live : Bool}
    {stamp : Stamp} {subject : Subject} (h : Grows env before r.store)
    (hok : resolve env authorities asking r call live stamp = .ok (r', subject)) :
    Grows env before r'.store := by
  cases resolve_cases h.indexed hok with
  | cached hget => exact h
  | found hget hmem hlocal => exact h
  | attached hget hmem hlocal hattach =>
      obtain ⟨⟨attachedTo, attached⟩, halias, hresult⟩ := bind_eq_ok.1 hattach
      cases hresult
      unfold attachAlias at halias
      split_ifs at halias
      · cases halias
        exact h
      · obtain ⟨⟨store', updated, added⟩, hadd, hresult⟩ := bind_eq_ok.1 halias
        cases hresult
        exact h.addAliases hadd
  | inserted negative hget hlocal hmintable hinsert => exact h.insertSubject hinsert

theorem Grows.resolveSubject {asking : Asking} {r r' : Resolver} {call : NameCall} {stamp : Stamp}
    {subject : Subject} (h : Grows env before r.store)
    (hok : resolveSubject env authorities asking r call stamp = .ok (r', subject)) :
    Grows env before r'.store := by
  obtain ⟨⟨resolved, found⟩, hresolve, hok⟩ := bind_eq_ok.1 hok
  have hresolved := h.resolve hresolve
  dsimp only at hok
  split_ifs at hok
  · cases hok
    exact hresolved
  · obtain ⟨⟨recordedIn, recorded⟩, hrecord, hok⟩ := bind_eq_ok.1 hok
    have hrecorded : Grows env before recordedIn.store := by
      unfold recordPersonaAlias at hrecord
      dsimp only at hrecord
      split_ifs at hrecord
      · cases hrecord
        exact hresolved
      · cases hrecord
        exact hresolved
      · cases hrecord
        exact hresolved
      · obtain ⟨⟨store', updated, added⟩, hadd, hresult⟩ := bind_eq_ok.1 hrecord
        cases hresult
        exact hresolved.addAliases hadd
    cases recorded with
    | none =>
        cases hok
        exact hrecorded
    | some recorded =>
        cases hok
        exact hrecorded

/-- A name that is asked for in a live run was asked for in the prefetch. -/
theorem AsksLive.atStart {r : Resolver} {call : NameCall} (h : Grows env before r.store)
    (hasks : AsksLive env authorities r call) :
    AsksLive env authorities { store := before } call where
  unfolded := hasks.unfolded
  uncached := rfl
  missing := by
    by_contra hne
    obtain ⟨row, hrow⟩ := Option.ne_none_iff_exists'.1 hne
    obtain ⟨row', hrow'⟩ := h.names _ _ row hrow
    cases hasks.missing.symm.trans hrow'
  unrecognized := by
    by_contra hne
    obtain ⟨row, hrow⟩ := Option.ne_none_iff_exists'.1 hne
    have hnone := hasks.unrecognized
    unfold findRecognized at hrow hnone
    cases hfirst : firstRecognized authorities call.name with
    | none =>
        rw [hfirst] at hrow
        cases hrow
    | some found =>
        rw [hfirst] at hrow hnone
        obtain ⟨row', hrow', -⟩ := h.refs _ _ row hrow
        cases hnone.symm.trans hrow'
  searched := by
    have hsearched := hasks.searched
    unfold skipsLive at hsearched ⊢
    simp only [Bool.not_true, Bool.false_or, Bool.or_eq_false_iff] at hsearched ⊢
    exact ⟨hsearched.1, by simp⟩

end Growth

/-! ### The replay is the live run -/

section Replay

variable {env : ResolverEnv} {authorities : List Authority} {source : NameSource}
  {assertedBy : String} {before : Store} {answers : LiveAnswers} {claims : List ClaimNames}

/-- **A resolution whose answers carry over is replayed.** -/
theorem resolve_replay {r : Resolver} {call : NameCall} (stamp : Stamp) {content : Option String}
    (hrecorded : AsksLive env authorities r call →
      AnswersRecorded env before content call.name (domainOf env call.source) answers authorities)
    (hcarries : AsksLive env authorities r call →
      PassCarries env before content r.store call authorities) :
    resolve env authorities (.replay answers) r (call.folded env)
        (personaFold env call.name call.source).isNone stamp =
      resolve env authorities .live r (call.folded env)
        (personaFold env call.name call.source).isNone stamp := by
  unfold resolve
  cases hcached : r.cache.get? (makeKey env (call.folded env).name) with
  | some subject => rfl
  | none =>
      dsimp only
      cases hlocal : findLocal env r.store (call.folded env).name (call.folded env).source with
      | some existing => rfl
      | none =>
          dsimp only
          cases hrecognized : findRecognized authorities r.store (call.folded env).name with
          | some byRef => rfl
          | none =>
              dsimp only
              cases hfold : personaFold env call.name call.source with
              | some persona =>
                  rw [if_pos (by simp [skipsLive]), if_pos (by simp [skipsLive])]
              | none =>
                  rw [folded_of_unfolded hfold] at hcached hlocal hrecognized ⊢
                  by_cases hskip : skipsLive env r.cache call true = true
                  · rw [Option.isNone_none, if_pos hskip, if_pos hskip]
                  · have hasks : AsksLive env authorities r call :=
                      ⟨hfold, hcached, hlocal, hrecognized, by simpa using hskip⟩
                    rw [Option.isNone_none, if_neg hskip, if_neg hskip,
                      livePass_replay (hrecorded hasks) (hcarries hasks)]

/-- One name of a claim. -/
def nameStep (env : ResolverEnv) (authorities : List Authority) (asking : Asking)
    (acc : Resolver × List String) (call : NameCall × Stamp) :
    Except StoreError (Resolver × List String) := do
  let (r, subject) ← resolveSubject env authorities asking acc.1 call.1 call.2
  return (r, acc.2 ++ [subject.id])

theorem resolveSubjects_eq {asking : Asking} {r : Resolver} (claim : ClaimNames) :
    resolveSubjects env authorities asking source assertedBy r claim =
      (claimCalls env source assertedBy claim).foldlM (nameStep env authorities asking) (r, []) := by
  have hfold : ∀ (names : List (String × Stamp)) (acc : Resolver × List String),
      names.foldlM (fun (acc : Resolver × List String) (name : String × Stamp) =>
        if env.strip name.1 = "" then .ok acc
        else do
          let (r, subject) ← resolveSubject env authorities asking acc.1
            (claimCall env source assertedBy claim.content name.1) name.2
          return (r, acc.2 ++ [subject.id])) acc =
        ((names.filter fun name => env.strip name.1 ≠ "").map fun name =>
          (claimCall env source assertedBy claim.content name.1, name.2)).foldlM
          (nameStep env authorities asking) acc := by
    intro names
    induction names with
    | nil => intro acc; rfl
    | cons name rest ih =>
        intro acc
        rw [List.foldlM_cons]
        by_cases hblank : env.strip name.1 = ""
        · rw [if_pos hblank, List.filter_cons_of_neg (by simp [hblank])]
          exact ih acc
        · rw [if_neg hblank, List.filter_cons_of_pos (by simp [hblank]), List.map_cons,
            List.foldlM_cons]
          exact bind_congr fun acc => ih acc
  exact hfold claim.names (r, [])

/-- The state after the names of a live run. -/
theorem run_of_foldlM : ∀ {calls : List (NameCall × Stamp)} {acc acc' : Resolver × List String},
    calls.foldlM (nameStep env authorities .live) acc = .ok acc' →
      run (liveStep env authorities) acc.1 calls = some acc'.1 := by
  intro calls
  induction calls with
  | nil =>
      intro acc acc' hok
      cases hok
      rfl
  | cons call rest ih =>
      intro acc acc' hok
      rw [List.foldlM_cons] at hok
      obtain ⟨next, hnext, hrest⟩ := bind_eq_ok.1 hok
      obtain ⟨⟨r, subject⟩, hresolve, hresult⟩ := bind_eq_ok.1 hnext
      cases hresult
      refine run_cons_eq_some.2 ⟨r, ?_, ih hrest⟩
      unfold liveStep
      rw [hresolve]
      rfl

theorem Grows.run : ∀ {calls : List (NameCall × Stamp)} {r r' : Resolver},
    Grows env before r.store → Runs.run (liveStep env authorities) r calls = some r' →
      Grows env before r'.store := by
  intro calls r r' hgrows hrun
  refine run_invariant (fun r : Resolver => Grows env before r.store) ?_ hgrows hrun
  intro r call r' h hstep
  obtain ⟨⟨resolved, subject⟩, hok, rfl⟩ := Option.map_eq_some_iff.1 hstep
  exact h.resolveSubject (toOption_eq_some.1 hok)

/-- **The names of a claim are replayed**, where the answers to each carry over. -/
theorem names_replay
    (hrecorded : ∀ call r, call ∈ claimsCalls env source assertedBy claims →
      Grows env before r.store → AsksLive env authorities r call.1 →
      AnswersRecorded env before (firstContent env source claims call.1.name) call.1.name
        (domainOf env call.1.source) answers authorities) :
    ∀ {calls : List (NameCall × Stamp)} {acc : Resolver × List String},
      calls ⊆ claimsCalls env source assertedBy claims → Grows env before acc.1.store →
      StepsMeet (liveStep env authorities) (AnswersCarry env authorities source before claims) acc.1
        calls →
      calls.foldlM (nameStep env authorities (.replay answers)) acc =
        calls.foldlM (nameStep env authorities .live) acc := by
  intro calls
  induction calls with
  | nil => intros; rfl
  | cons call rest ih =>
      intro acc hsubset hgrows hmeets
      obtain ⟨hfirst, hrest⟩ := stepsMeet_cons.1 hmeets
      have hcall : call ∈ claimsCalls env source assertedBy claims := hsubset List.mem_cons_self
      have hsame : resolveSubject env authorities (.replay answers) acc.1 call.1 call.2 =
          resolveSubject env authorities .live acc.1 call.1 call.2 := by
        have hresolve := resolve_replay call.2
          (fun hasks => hrecorded call acc.1 hcall hgrows hasks) hfirst
        unfold NameCall.folded at hresolve
        unfold resolveSubject
        dsimp only
        rw [hresolve]
      have hstep : nameStep env authorities (.replay answers) acc call =
          nameStep env authorities .live acc call := by
        unfold nameStep
        rw [hsame]
      rw [List.foldlM_cons, List.foldlM_cons, hstep]
      cases hnext : nameStep env authorities .live acc call with
      | error e => rfl
      | ok next =>
          obtain ⟨⟨r, subject⟩, hok, hresult⟩ := bind_eq_ok.1 hnext
          cases hresult
          have hlive : liveStep env authorities acc.1 call = some r := by
            unfold liveStep
            rw [hok]
            rfl
          exact ih (fun other hother => hsubset (List.mem_cons_of_mem _ hother))
            (hgrows.resolveSubject hok) (hrest r hlive)

/-- **Where the answers carry over the replay is the live run**: the same ids for every claim, and the
same store. -/
theorem replay_eq_live (env : ResolverEnv) (authorities : List Authority) (source : NameSource)
    (assertedBy : String) (contentHash : String → String) (modelId : String)
    {calls : List SubjectCall} {store : Store}
    (hstore : run (applySubjectCall env.toSubjectEnv contentHash modelId) .empty calls = some store)
    (claims : List ClaimNames)
    (hdistinct : DistinctNamespaces (domainOf env source) authorities)
    (hcarry : StepsMeet (liveStep env authorities)
      (AnswersCarry env authorities source store claims) { store := store }
      (claimsCalls env source assertedBy claims)) :
    resolveClaims env authorities source
        (.replay (prefetchClaims env authorities source { store := store } claims)) assertedBy
        { store := store } claims =
      resolveClaims env authorities source .live assertedBy { store := store } claims := by
  have hindexed : AliasIndexed env.toSubjectEnv store := (AliasIndexed.empty _).run hstore
  set answers := prefetchClaims env authorities source { store := store } claims with hanswers
  have hrecorded : ∀ call r, call ∈ claimsCalls env source assertedBy claims →
      Grows env store r.store → AsksLive env authorities r call.1 →
      AnswersRecorded env store (firstContent env source claims call.1.name) call.1.name
        (domainOf env call.1.source) answers authorities := by
    intro call r hcall hgrows hasks
    obtain ⟨claim, hclaim, hmem⟩ := List.mem_flatMap.1 hcall
    obtain ⟨name, hname, rfl⟩ := List.mem_map.1 hmem
    -- the prefetch makes the same call, for no asserter
    have hdry : (claimCall env source "" claim.content name.1, name.2) ∈
        claimsCalls env source "" claims :=
      List.mem_flatMap.2 ⟨claim, hclaim, List.mem_map.2 ⟨name, hname, rfl⟩⟩
    exact recorded_prefetchClaims hdistinct hdry ((hasks.atStart hgrows).congr rfl rfl)
  have hfold : ∀ (rest : List ClaimNames) (acc : Resolver × List (List String)),
      rest ⊆ claims → Grows env store acc.1.store →
      StepsMeet (liveStep env authorities) (AnswersCarry env authorities source store claims) acc.1
        (claimsCalls env source assertedBy rest) →
      rest.foldlM (fun (acc : Resolver × List (List String)) (claim : ClaimNames) => do
        let (r, ids) ← resolveSubjects env authorities (.replay answers) source assertedBy acc.1 claim
        return (r, acc.2 ++ [ids])) acc =
      rest.foldlM (fun (acc : Resolver × List (List String)) (claim : ClaimNames) => do
        let (r, ids) ← resolveSubjects env authorities .live source assertedBy acc.1 claim
        return (r, acc.2 ++ [ids])) acc := by
    intro rest
    induction rest with
    | nil => intros; rfl
    | cons claim rest ih =>
        intro acc hsubset hgrows hmeets
        have hcalls : claimCalls env source assertedBy claim ⊆
            claimsCalls env source assertedBy claims := by
          intro call hcall
          exact List.mem_flatMap.2 ⟨claim, hsubset List.mem_cons_self, hcall⟩
        have hsplit : claimsCalls env source assertedBy (claim :: rest) =
            claimCalls env source assertedBy claim ++ claimsCalls env source assertedBy rest :=
          List.flatMap_cons
        rw [hsplit] at hmeets
        have hnames : (claimCalls env source assertedBy claim).foldlM
            (nameStep env authorities (.replay answers)) (acc.1, []) =
            (claimCalls env source assertedBy claim).foldlM (nameStep env authorities .live)
              (acc.1, []) :=
          names_replay hrecorded hcalls hgrows hmeets.left
        rw [List.foldlM_cons, List.foldlM_cons, resolveSubjects_eq, resolveSubjects_eq, hnames]
        cases hok : (claimCalls env source assertedBy claim).foldlM
          (nameStep env authorities .live) (acc.1, []) with
        | error e => rfl
        | ok result =>
            have hrun := run_of_foldlM hok
            exact ih (result.1, acc.2 ++ [result.2])
              (fun other hother => hsubset (List.mem_cons_of_mem _ hother)) (hgrows.run hrun)
              (hmeets.right hrun)
  exact hfold claims _ (List.Subset.refl _) (Grows.refl hindexed) hcarry

end Replay

/-! ### Wikidata -/

/-- The candidate that Wikidata's search and selection chose for a name and a claim. -/
structure WikidataChoice where
  qid : String
  uri : Option String := none
  confidence : ℚ
  /-- whether the identity of the candidate is adopted -/
  resolve : Bool := true
  /-- the aliases that are fetched, the canonical name first -/
  aliases : List String := []
  description : String := ""
  deriving DecidableEq, Repr

/-- What the search and the selection come to. -/
inductive WikidataSearch where
  | missed
  | unreachable
  | abstained
  | chosen (choice : WikidataChoice)
  deriving DecidableEq, Repr

def WIKIDATA : String := "wikidata"

/-- The new subject of a choice; one too weak to adopt carries its ref only. -/
def WikidataChoice.answer (choice : WikidataChoice) (name : String) : AuthorityResolution :=
  let ref : ExternalRef := ⟨WIKIDATA, choice.qid, choice.uri, choice.confidence⟩
  if choice.resolve = false then .new ref none [] none
  else
    let aliases := if name ∈ choice.aliases then choice.aliases else choice.aliases ++ [name]
    .new ref aliases.head? aliases.tail (if choice.description = "" then none else some choice.description)

/-- **`WikidataAuthority.resolve`**: the row that has the chosen ref, else a new subject. -/
def wikidataResolve (search : String → Option String → WikidataSearch)
    (find : String → String → Option Subject) (name : String) (content : Option String) :
    Option AuthorityResolution :=
  match search name content with
  | .missed => none
  | .unreachable => some .unreachable
  | .abstained => some .abstained
  | .chosen choice =>
      match find WIKIDATA choice.qid with
      | some row => some (.existing row)
      | none => some (choice.answer name)

/-- The authority over a search, its pattern and its label cache. -/
def wikidataAuthority (search : String → Option String → WikidataSearch)
    (recognize : String → Option ExternalRef) (canonicalNameFor : String → Option String)
    (allowed : Bool) : Authority where
  NAMESPACE := WIKIDATA
  LIVE := true
  isApplicable _ := true
  allowed := allowed
  recognize := recognize
  resolve find name content _ := wikidataResolve search find name content
  canonicalNameFor := canonicalNameFor
  existing_found := by
    intro find name content domain subject hanswer
    unfold wikidataResolve at hanswer
    split at hanswer
    · cases hanswer
    · cases hanswer
    · cases hanswer
    · rename_i choice _
      cases hfind : find WIKIDATA choice.qid with
      | none =>
          rw [hfind] at hanswer
          unfold WikidataChoice.answer at hanswer
          dsimp only at hanswer
          split_ifs at hanswer <;> cases hanswer
      | some row =>
          rw [hfind] at hanswer
          cases hanswer
          exact ⟨WIKIDATA, choice.qid, hfind⟩

section Wikidata

variable {env : ResolverEnv} {search : String → Option String → WikidataSearch}
  {before store : Store} {name : String} {content content' : Option String}

theorem WikidataChoice.answer_eq_new (choice : WikidataChoice) (name : String) :
    ∃ canonicalName aliases description, choice.answer name =
      .new ⟨WIKIDATA, choice.qid, choice.uri, choice.confidence⟩ canonicalName aliases
        description := by
  unfold WikidataChoice.answer
  dsimp only
  by_cases hresolve : choice.resolve = false
  · rw [if_pos hresolve]
    exact ⟨none, [], none, rfl⟩
  · rw [if_neg hresolve]
    exact ⟨_, _, _, rfl⟩

/-- **An answer of Wikidata carries over** exactly when no row has gained the ref of a choice below the
floor, where both claims make the same choice. -/
theorem wikidata_carriesOver_iff (h : Grows env before store)
    (hsearch : search name content = search name content') :
    CarriesOver env store (wikidataResolve search (findByExternalRef before) name content)
        (wikidataResolve search (findByExternalRef store) name content') ↔
      ∀ choice, search name content' = .chosen choice →
        choice.confidence < env.externalLinkAbstainThreshold →
        findByExternalRef before WIKIDATA choice.qid = none →
        findByExternalRef store WIKIDATA choice.qid = none := by
  unfold wikidataResolve
  rw [hsearch]
  cases hchosen : search name content' with
  | missed => exact ⟨fun _ _ h => (nomatch h), fun _ => .same _⟩
  | unreachable => exact ⟨fun _ _ h => (nomatch h), fun _ => .same _⟩
  | abstained => exact ⟨fun _ _ h => (nomatch h), fun _ => .same _⟩
  | chosen choice =>
      simp only [WikidataSearch.chosen.injEq, forall_eq']
      cases hbefore : findByExternalRef before WIKIDATA choice.qid with
      | some row =>
          obtain ⟨row', hrow', hid⟩ := h.refs _ _ row hbefore
          rw [hrow']
          exact ⟨fun _ _ h => (nomatch h), fun _ => .row hid⟩
      | none =>
          obtain ⟨canonicalName, aliases, description, hanswer⟩ := choice.answer_eq_new name
          cases hstore : findByExternalRef store WIKIDATA choice.qid with
          | none => exact ⟨fun _ _ _ => rfl, fun _ => .same _⟩
          | some row =>
              simp only [hanswer]
              constructor
              · intro hcarries hfloor
                cases hcarries with
                | linked _ hfloor' => exact absurd hfloor (not_lt.2 hfloor')
              · intro hfloor
                refine .linked hstore (not_lt.1 fun hlt => ?_)
                cases hfloor hlt trivial

end Wikidata

/-! ### Two names of one city -/

/-- A search that knows two names of one city; a claim that does not fit its description is scored
low. -/
def citySearch (name : String) (content : Option String) : WikidataSearch :=
  if name = "NYC" ∨ name = "Big Apple" then
    .chosen
      { qid := "Q60"
        confidence := if content = some "it has five boroughs" then 9 / 10 else 3 / 10
        aliases := ["New York City", "NYC"] }
  else .missed

def cityAuthority : Authority := wikidataAuthority citySearch (fun _ => none) (fun _ => none) true

/-- Both names in claims that fit. -/
def cityTwice : List ClaimNames :=
  [{ names := [("NYC", ⟨"s1", 0⟩)], content := some "it has five boroughs" },
    { names := [("Big Apple", ⟨"s2", 1⟩)], content := some "it has five boroughs" }]

theorem cityTwice_carries :
    StepsMeet (liveStep asciiResolver [cityAuthority])
      (AnswersCarry asciiResolver [cityAuthority] {} .empty cityTwice) { store := .empty }
      (claimsCalls asciiResolver {} "agent" cityTwice) := by
  have hcalls : claimsCalls asciiResolver {} "agent" cityTwice =
      [(claimCall asciiResolver {} "agent" (some "it has five boroughs") "NYC", ⟨"s1", 0⟩),
        (claimCall asciiResolver {} "agent" (some "it has five boroughs") "Big Apple",
          ⟨"s2", 1⟩)] := by
    decide +kernel
  have hfirst : ∀ name ∈ ["NYC", "Big Apple"],
      firstContent asciiResolver {} cityTwice name = some "it has five boroughs" := by
    decide +kernel
  have hcarry : ∀ (r : Resolver) name content, name ∈ ["NYC", "Big Apple"] →
      content = some "it has five boroughs" → Grows asciiResolver .empty r.store →
      PassCarries asciiResolver .empty content r.store
        (claimCall asciiResolver {} "agent" (some "it has five boroughs") name) [cityAuthority] := by
    rintro r name content hname rfl hgrows
    rw [PassCarries, if_neg (by simp [Authority.asks, cityAuthority, wikidataAuthority])]
    refine ⟨(wikidata_carriesOver_iff hgrows rfl).2 ?_, fun _ => trivial⟩
    intro choice hchosen hfloor
    have hhigh : ∀ name ∈ ["NYC", "Big Apple"], ∀ choice,
        citySearch name (some "it has five boroughs") = .chosen choice →
          choice.confidence = 9 / 10 := by
      intro name hname choice hchosen
      unfold citySearch at hchosen
      split_ifs at hchosen with _ hcontent
      · cases hchosen
        rfl
      · exact absurd rfl hcontent
    rw [hhigh name hname choice hchosen] at hfloor
    exact absurd hfloor (by decide +kernel)
  rw [hcalls]
  have hempty : Grows asciiResolver .empty .empty := Grows.refl (AliasIndexed.empty _)
  refine stepsMeet_cons.2 ⟨?_, fun r hr => stepsMeet_cons.2 ⟨?_, fun _ _ => stepsMeet_nil⟩⟩
  · exact fun _ => hcarry _ "NYC" _ (by decide) (hfirst "NYC" (by decide)) hempty
  · exact fun _ => hcarry r "Big Apple" _ (by decide) (hfirst "Big Apple" (by decide))
      (hempty.run (run_cons_eq_some.2 ⟨r, hr, run_nil r⟩))

theorem replay_eq_live_cityTwice :
    (resolveClaims asciiResolver [cityAuthority] {} .live "agent" { store := .empty } cityTwice).map
        Prod.snd = .ok [["s1"], ["s1"]] ∧
      resolveClaims asciiResolver [cityAuthority] {}
        (.replay (prefetchClaims asciiResolver [cityAuthority] {} { store := .empty } cityTwice))
        "agent" { store := .empty } cityTwice =
      resolveClaims asciiResolver [cityAuthority] {} .live "agent" { store := .empty } cityTwice := by
  refine ⟨by decide +kernel, ?_⟩
  have hstore : run (applySubjectCall asciiResolver.toSubjectEnv id "model") .empty [] =
      some .empty := rfl
  exact replay_eq_live asciiResolver [cityAuthority] {} "agent" id "model" hstore cityTwice
    (by unfold DistinctNamespaces; decide +kernel) cityTwice_carries

/-- The second name in a claim that does not fit. -/
def bigApple : List ClaimNames :=
  [{ names := [("NYC", ⟨"s1", 0⟩)], content := some "it has five boroughs" },
    { names := [("Big Apple", ⟨"s2", 1⟩)], content := some "it never sleeps" }]

/-- **Two names of one entity are resolved to two subjects** where they are replayed, and to one where
the authority is asked live: the prefetch recorded a link below the floor, and not the row that the
first name inserted. -/
theorem replay_differs_bigApple :
    ∃ live replayed : List (List String),
      (resolveClaims asciiResolver [cityAuthority] {} .live "agent" { store := .empty }
        bigApple).map Prod.snd = .ok live ∧
      (resolveClaims asciiResolver [cityAuthority] {}
        (.replay (prefetchClaims asciiResolver [cityAuthority] {} { store := .empty } bigApple))
        "agent" { store := .empty } bigApple).map Prod.snd = .ok replayed ∧
      live = [["s1"], ["s1"]] ∧ replayed = [["s1"], ["s2"]] ∧
      ¬ ∃ rename : String → String, live.map (List.map rename) = replayed := by
  refine ⟨[["s1"], ["s1"]], [["s1"], ["s2"]], by decide +kernel, by decide +kernel, rfl, rfl, ?_⟩
  rintro ⟨rename, hrename⟩
  simp only [List.map_cons, List.map_nil, List.cons.injEq, and_true] at hrename
  have hsame : "s1" = "s2" := hrename.1.symm.trans hrename.2
  revert hsame
  decide

end ParticlesEngine
