/-
**Sessions that share the resolution cache.**

Any number of sessions of one process resolve names and write subjects in one store: each reads its own
snapshot, one of them at a time writes, and a transaction ends in a commit or a rollback.  What a
resolution found or inserted is cached when it is found or inserted, for every session; most writes
clear the cache, an insert does not.

Main definitions:

* `SubjectSystem`, `SubjectAction` — the store, the snapshots and the cache, and what can happen;
* `CachedSound` — a cached subject is a row, and the only one that its key finds;
* `Undisturbed` — a resolution is made in the newest snapshot, a rollback leaves nothing cached, and no
  inserted subject hides a cached one.

Main results:

* `resolveSubject_sound` — what a resolution caches is sound in the store that it leaves;
* `resolutions_agree` — **in every undisturbed run each resolution agrees with the store**;
* `rolled_back_mint_is_returned` — a subject whose insert was rolled back is returned.
-/

import ParticlesEngine.SubjectResolution

set_option relaxedAutoImplicit false
set_option autoImplicit false

open Runs

namespace ParticlesEngine

/-! ### The system -/

/-- A resolution that returned: the caller's snapshot before and after, and the subject. -/
structure ResolvedName where
  before : Store
  after : Store
  call : NameCall
  subject : Subject

/-- The store, the snapshots of the sessions `S`, and the cache of the process. -/
structure SubjectSystem (S : Type) where
  committed : Store
  /-- the session that holds the writer lock -/
  writer : Option S := none
  /-- the snapshot of an open transaction, with its own writes -/
  views : S → Option Store := fun _ => none
  cache : SubjectCache := {}
  returned : List ResolvedName := []

/-- What can happen. -/
inductive SubjectAction (S : Type) where
  | begin (i : S)
  /-- take the writer lock, over an up-to-date snapshot -/
  | lock (i : S)
  | resolve (i : S) (authorities : List Authority) (asking : Asking) (call : NameCall) (stamp : Stamp)
  | write (i : S) (call : SubjectCall)
  | commit (i : S)
  | rollback (i : S)

/-- The writes that clear the cache. -/
def SubjectCall.clears : SubjectCall → Bool
  | .addAliases _ _ => true
  | .merge _ _ _ => true
  | .restore _ _ _ _ _ _ => true
  | .split _ _ _ => true
  | .delete _ => true
  | .insertSubject _ => false
  | .insertParticle _ _ => false
  | .attach _ _ => false

/-- A name under its folded form. -/
def NameCall.folded (env : ResolverEnv) (call : NameCall) : NameCall :=
  { call with name := personaCanonical env call.name call.source }

namespace SubjectSystem

variable {S : Type} [DecidableEq S] (env : ResolverEnv) (contentHash : String → String)
  (modelId : String)

/-- The newest subjects: those of the transaction that writes, if there is one. -/
def current (sys : SubjectSystem S) : Store :=
  match sys.writer with
  | none => sys.committed
  | some i => (sys.views i).getD sys.committed

/-- A call in the snapshot of a session; to change the snapshot takes the writer lock. -/
def setView (sys : SubjectSystem S) (i : S) (view store : Store) : Option (SubjectSystem S) :=
  if store = view ∨ sys.writer = some i then
    some { sys with views := Function.update sys.views i (some store) }
  else none

/-- **One step.**  A resolution that raises after the cascade has cached what the cascade found. -/
def step (sys : SubjectSystem S) : SubjectAction S → Option (SubjectSystem S)
  | .begin i =>
      match sys.views i with
      | some _ => none
      | none => some { sys with views := Function.update sys.views i (some sys.committed) }
  | .lock i =>
      if sys.writer = none ∧ sys.views i = some sys.committed then some { sys with writer := some i }
      else none
  | .resolve i authorities asking call stamp =>
      match sys.views i with
      | none => none
      | some view =>
          match resolveSubject env authorities asking ⟨view, sys.cache⟩ call stamp with
          | .ok (r, subject) =>
              (sys.setView i view r.store).map fun sys => { sys with
                cache := r.cache
                returned := sys.returned ++ [⟨view, r.store, call, subject⟩] }
          | .error _ =>
              match resolve env authorities asking ⟨view, sys.cache⟩ (call.folded env)
                (personaFold env call.name call.source).isNone stamp with
              | .ok (r, _) => (sys.setView i view r.store).map fun sys => { sys with cache := r.cache }
              | .error _ => some sys
  | .write i call =>
      match sys.views i with
      | none => none
      | some view =>
          if sys.writer = some i then
            match subjectWrite env.toSubjectEnv contentHash modelId view call with
            | .error _ => some sys
            | .ok store => some { sys with
                views := Function.update sys.views i (some store)
                cache := if call.clears then sys.cache.clear else sys.cache }
          else none
  | .commit i =>
      match sys.views i with
      | none => none
      | some view =>
          let sys := { sys with views := Function.update sys.views i none }
          if sys.writer = some i then some { sys with committed := view, writer := none } else some sys
  | .rollback i =>
      let sys := { sys with views := Function.update sys.views i none }
      if sys.writer = some i then some { sys with writer := none } else some sys

end SubjectSystem

/-! ### Agreement -/

section Agreement

variable (env : ResolverEnv)

/-- **A resolution agrees with the store**: its subject is a row of the caller's snapshot, and the one
that `find_existing_subject` finds there, if it finds one. -/
structure ResolvedName.Agrees (r : ResolvedName) : Prop where
  row : (r.after.subjects.get? r.subject.id).isSome = true
  existing : ∀ row, findExistingSubject env r.before r.call.name r.call.source = some row →
    r.subject.id = row.id

/-- The cache key of a name. -/
def callKey (name : String) (source : NameSource) : String :=
  makeKey env (personaCanonical env name source)

/-- **A cached subject is a row, and the only one that a name with its key finds.** -/
structure CachedSound (store : Store) (key : String) (subject : Subject) : Prop where
  row : (store.subjects.get? subject.id).isSome = true
  existing : ∀ name source, callKey env name source = key → ∀ row,
    findExistingSubject env store name source = some row → subject.id = row.id

/-- Every cached subject is sound. -/
def SubjectCache.Sound (store : Store) (cache : SubjectCache) : Prop :=
  ∀ key subject, cache.get? key = some subject → CachedSound env store key subject

/-- Two stores have the same subjects and aliases. -/
def SameSubjects (a b : Store) : Prop := a.subjects = b.subjects ∧ a.aliasRows = b.aliasRows

/-- What a name finds does not depend on which source asks, nor on how the name is spelled. -/
def OneAnswer (store : Store) (name : String) (source : NameSource) : Prop :=
  ∀ name' source', callKey env name' source' = callKey env name source →
    findExistingSubject env store name' source' = findExistingSubject env store name source

/-- A new subject is not found under a name that is cached as another. -/
def HidesNone (store : Store) (cache : SubjectCache) (subject : Subject) : Prop :=
  ∀ store', insertSubject env.toSubjectEnv store subject = .ok store' →
    ∀ name source cached, cache.get? (callKey env name source) = some cached →
      ∀ row, findExistingSubject env store' name source = some row → cached.id = row.id

/-- **The steps that keep the cache.** -/
def Undisturbed {S : Type} (sys : SubjectSystem S) : SubjectAction S → Prop
  | .resolve i authorities asking call stamp => ∀ view, sys.views i = some view →
      SameSubjects view sys.current ∧
        (sys.cache.get? (callKey env call.name call.source) = none →
          OneAnswer env view call.name call.source ∧
          (findExistingSubject env view call.name call.source = none → ∀ subject,
            Mintable env authorities asking view (call.folded env) stamp subject →
              HidesNone env view sys.cache subject))
  | .write i (.insertSubject subject) => ∀ view, sys.views i = some view →
      HidesNone env view sys.cache subject
  | .rollback i => sys.writer = some i → ∀ view, sys.views i = some view →
      SameSubjects view sys.committed ∨ sys.cache.positive = []
  | _ => True

end Agreement

/-! ### The cache -/

section Cache

variable {env : ResolverEnv} {store store' : Store} {cache : SubjectCache} {subject : Subject}

theorem SubjectCache.get?_set (cache : SubjectCache) (key : String) (subject : Subject) (k : String) :
    (cache.set key subject).get? k = if k = key then some subject else cache.get? k := by
  unfold SubjectCache.get? SubjectCache.set
  rw [List.find?_cons, List.find?_filter]
  by_cases hk : k = key
  · simp [hk]
  · have hne : ¬ key = k := fun heq => hk heq.symm
    simp only [hne, hk, decide_false, if_false]
    refine congrArg (Option.map Prod.snd ∘ (List.find? · cache.positive)) (funext fun entry => ?_)
    by_cases he : entry.1 = k <;> simp [he, hk]

@[simp] theorem SubjectCache.get?_clear (cache : SubjectCache) (k : String) :
    cache.clear.get? k = none := rfl

theorem sound_clear (env : ResolverEnv) (store : Store) (cache : SubjectCache) :
    cache.clear.Sound env store := by
  intro key subject hget
  cases hget

theorem sound_of_positive_eq_nil (hnil : cache.positive = []) : cache.Sound env store := by
  intro key subject hget
  rw [SubjectCache.get?, hnil] at hget
  cases hget

theorem sound_set {key : String} (hsound : cache.Sound env store)
    (hnew : CachedSound env store key subject) : (cache.set key subject).Sound env store := by
  intro k cached hget
  rw [SubjectCache.get?_set] at hget
  split_ifs at hget with hk
  · obtain rfl := Option.some.inj hget
    rwa [hk]
  · exact hsound k cached hget

/-- A lookup depends on the subjects and the aliases alone. -/
theorem findExistingSubject_congr (hsame : SameSubjects store store') (name : String)
    (source : NameSource) :
    findExistingSubject env store name source = findExistingSubject env store' name source := by
  unfold findExistingSubject findLocal findByName findByAlias rowsByCanonical rowsWithAlias
  rw [hsame.1, hsame.2]

theorem CachedSound.congr {key : String} (hcached : CachedSound env store key subject)
    (hsame : SameSubjects store store') : CachedSound env store' key subject where
  row := by rw [← hsame.1]; exact hcached.row
  existing name source hkey row hrow :=
    hcached.existing name source hkey row (by rw [findExistingSubject_congr hsame]; exact hrow)

theorem SubjectCache.Sound.congr (hsound : cache.Sound env store) (hsame : SameSubjects store store') :
    cache.Sound env store' :=
  fun key subject hget => (hsound key subject hget).congr hsame

theorem SameSubjects.symm (hsame : SameSubjects store store') : SameSubjects store' store :=
  ⟨hsame.1.symm, hsame.2.symm⟩

/-- The subject that new aliases return is the one that gained them. -/
theorem updated_addAliases {id : String} {names added : List String} {updated : Subject}
    (hok : addAliases env.toSubjectEnv store id names = .ok (store', updated, added)) :
    updated.id = id ∧ (store'.subjects.get? id).isSome = true := by
  have hspec := addAliases_spec hok
  obtain ⟨found, hfound, hsubjects, -, -⟩ := hspec
  refine ⟨?_, by rw [hsubjects, if_pos rfl]; rfl⟩
  simp only [addAliases, bind_eq_ok, orRaise_eq_ok] at hok
  obtain ⟨subject, hsubject, written, -, hresult⟩ := hok
  obtain ⟨-, hupdated, -⟩ : written = store' ∧ _ = updated ∧ _ := by
    simpa only [pure, Except.pure, Except.ok.injEq, Prod.mk.injEq] using hresult
  rw [← hupdated, Subject.id_withAliases]
  exact Table.key_of_get? hsubject

end Cache

/-! ### One resolution -/

section Resolution

variable {env : ResolverEnv} {authorities : List Authority} {asking : Asking} {r r' : Resolver}
  {call : NameCall} {live : Bool} {stamp : Stamp} {subject : Subject}

/-- The conditions under which a resolution in a snapshot keeps the cache sound. -/
structure ResolvesAlone (env : ResolverEnv) (authorities : List Authority) (asking : Asking)
    (r : Resolver) (call : NameCall) (stamp : Stamp) : Prop where
  indexed : AliasIndexed env.toSubjectEnv r.store
  sound : r.cache.Sound env r.store
  alone : r.cache.get? (callKey env call.name call.source) = none →
    OneAnswer env r.store call.name call.source ∧
      (findExistingSubject env r.store call.name call.source = none → ∀ subject,
        Mintable env authorities asking r.store (call.folded env) stamp subject →
          HidesNone env r.store r.cache subject)

/-- What a resolution leaves. -/
structure ResolvedSound (env : ResolverEnv) (call : NameCall) (before : Store) (r : Resolver)
    (subject : Subject) : Prop where
  indexed : AliasIndexed env.toSubjectEnv r.store
  sound : r.cache.Sound env r.store
  cached : CachedSound env r.store (callKey env call.name call.source) subject
  existing : ∀ row, findExistingSubject env before call.name call.source = some row →
    subject.id = row.id

/-- **The cascade leaves a sound cache**, with its subject in it. -/
theorem resolve_sound (halone : ResolvesAlone env authorities asking r call stamp)
    (hok : resolve env authorities asking r (call.folded env) live stamp = .ok (r', subject)) :
    ResolvedSound env call r.store r' subject := by
  have hkey : makeKey env (call.folded env).name = callKey env call.name call.source := rfl
  have hfind : findLocal env r.store (call.folded env).name (call.folded env).source =
      findExistingSubject env r.store call.name call.source := rfl
  cases resolve_cases halone.indexed hok with
  | cached hget =>
      have hcached := halone.sound _ _ hget
      exact ⟨halone.indexed, halone.sound, hcached, hcached.existing _ _ rfl⟩
  | found hget hmem hlocal =>
      rw [hkey] at hget
      rw [hfind] at hlocal
      have hnew : CachedSound env r.store (callKey env call.name call.source) subject := by
        refine ⟨by rw [Table.get?_key hmem]; rfl, fun name source hname row hrow => ?_⟩
        rw [(halone.alone hget).1 name source hname] at hrow
        rw [hlocal row hrow]
      exact ⟨halone.indexed, sound_set halone.sound hnew, hnew, hnew.existing _ _ rfl⟩
  | attached hget hmem hlocal hattach =>
      rename_i row
      rw [hkey] at hget hattach
      rw [hfind] at hlocal
      have hnone : ∀ name source, callKey env name source = callKey env call.name call.source →
          findExistingSubject env r.store name source = none := by
        intro name source hname
        rw [(halone.alone hget).1 name source hname, hlocal]
      obtain ⟨⟨attachedTo, attached⟩, halias, hresult⟩ := bind_eq_ok.1 hattach
      cases hresult
      unfold attachAlias at halias
      split_ifs at halias with hnamed
      · cases halias
        have hnew : CachedSound env r.store (callKey env call.name call.source) subject := by
          refine ⟨by rw [Table.get?_key hmem]; rfl, fun name source hname found hfound => ?_⟩
          rw [hnone name source hname] at hfound
          cases hfound
        exact ⟨halone.indexed, sound_set halone.sound hnew, hnew, hnew.existing _ _ rfl⟩
      · obtain ⟨⟨store', updated, added⟩, hadd, hresult⟩ := bind_eq_ok.1 halias
        cases hresult
        obtain ⟨hid, hrow⟩ := updated_addAliases hadd
        have hnew : CachedSound env store' (callKey env call.name call.source) subject := by
          refine ⟨by rw [hid]; exact hrow, fun name source hname found hfound => ?_⟩
          rcases findByName_addAliases halone.indexed hadd hfound with hfirst | hbefore
          · rw [hid, hfirst]
          · cases (hnone name source hname).symm.trans hbefore
        refine ⟨halone.indexed.addAliases hadd, sound_set (sound_clear env store' _) hnew, hnew, ?_⟩
        intro found hfound
        rw [hlocal] at hfound
        cases hfound
  | inserted negative hget hlocal hmintable hinsert =>
      rename_i store'
      rw [hkey] at hget
      rw [hfind] at hlocal
      obtain ⟨honce, hhides⟩ := halone.alone hget
      obtain ⟨-, hsubjects, -, -⟩ := insertSubject_spec hinsert
      have hnew : CachedSound env store' (callKey env call.name call.source) subject := by
        refine ⟨by rw [hsubjects, if_pos rfl]; rfl, fun name source hname row hrow => ?_⟩
        rcases findByName_insert halone.indexed hinsert with hfirst | hbefore
        · rw [Option.some.inj (hfirst.symm.trans hrow)]
        · have hnone := (honce name source hname).trans hlocal
          cases (hnone.symm.trans hbefore.symm).trans hrow
      have hold : r.cache.Sound env store' := by
        intro key cached hcached
        refine ⟨?_, fun name source hname row hrow => ?_⟩
        · rw [hsubjects]
          split_ifs
          · rfl
          · exact (halone.sound key cached hcached).row
        · rw [← hname] at hcached
          exact hhides hlocal subject hmintable store' hinsert name source cached hcached row hrow
      refine ⟨halone.indexed.insertSubject hinsert, sound_set ?_ hnew, hnew, ?_⟩
      · exact hold
      · intro row hrow
        rw [hlocal] at hrow
        cases hrow

/-- **The record of a persona form keeps the subject** under its key. -/
theorem recordPersonaAlias_sound {key form : String} {recorded : Option Subject}
    (hindexed : AliasIndexed env.toSubjectEnv r.store) (hsound : r.cache.Sound env r.store)
    (hcached : CachedSound env r.store key subject)
    (hok : recordPersonaAlias env r subject form = .ok (r', recorded)) :
    AliasIndexed env.toSubjectEnv r'.store ∧ r'.cache.Sound env r'.store ∧
      CachedSound env r'.store key (recorded.getD subject) ∧
      (recorded.getD subject).id = subject.id := by
  unfold recordPersonaAlias at hok
  dsimp only at hok
  split_ifs at hok with hnamed hheld hother
  · cases hok
    exact ⟨hindexed, hsound, hcached, rfl⟩
  · cases hok
    exact ⟨hindexed, hsound, hcached, rfl⟩
  · cases hok
    exact ⟨hindexed, hsound, hcached, rfl⟩
  · obtain ⟨⟨store', updated, added⟩, hadd, hresult⟩ := bind_eq_ok.1 hok
    cases hresult
    obtain ⟨hid, hrow⟩ := updated_addAliases hadd
    refine ⟨hindexed.addAliases hadd, sound_clear env store' _, ?_, hid⟩
    refine ⟨by rw [Option.getD_some, hid]; exact hrow, fun name source hname row hfound => ?_⟩
    rw [Option.getD_some, hid]
    rcases findByName_addAliases hindexed hadd hfound with hfirst | hbefore
    · exact hfirst.symm
    · exact hcached.existing name source hname row hbefore

/-- **What a resolution caches is sound in the store that it leaves.** -/
theorem resolveSubject_sound (halone : ResolvesAlone env authorities asking r call stamp)
    (hok : resolveSubject env authorities asking r call stamp = .ok (r', subject)) :
    AliasIndexed env.toSubjectEnv r'.store ∧ r'.cache.Sound env r'.store ∧
      ResolvedName.Agrees env ⟨r.store, r'.store, call, subject⟩ := by
  obtain ⟨⟨resolved, found⟩, hresolve, hok⟩ := bind_eq_ok.1 hok
  have hsound := resolve_sound halone hresolve
  dsimp only at hok
  split_ifs at hok with hfolded
  · cases hok
    exact ⟨hsound.indexed, hsound.sound, hsound.cached.row, hsound.existing⟩
  · obtain ⟨⟨recordedIn, recorded⟩, hrecord, hok⟩ := bind_eq_ok.1 hok
    obtain ⟨hindexed, hcache, hcached, hid⟩ :=
      recordPersonaAlias_sound hsound.indexed hsound.sound hsound.cached hrecord
    cases recorded with
    | none =>
        cases hok
        exact ⟨hindexed, hcache, hcached.row, hsound.existing⟩
    | some recorded =>
        cases hok
        refine ⟨hindexed, sound_set hcache hcached, hcached.row, fun row hrow => ?_⟩
        exact Eq.trans hid (hsound.existing row hrow)

end Resolution

/-! ### Every step -/

namespace SubjectSystem

variable {S : Type} [DecidableEq S] {env : ResolverEnv} {contentHash : String → String}
  {modelId : String} {sys sys' : SubjectSystem S}

/-- **The cache is sound in the newest subjects, and every resolution so far agreed.** -/
structure Inv (env : ResolverEnv) (sys : SubjectSystem S) : Prop where
  committed : AliasIndexed env.toSubjectEnv sys.committed
  views : ∀ i view, sys.views i = some view → AliasIndexed env.toSubjectEnv view
  sound : sys.cache.Sound env sys.current
  returned : ∀ r ∈ sys.returned, r.Agrees env

omit [DecidableEq S] in
theorem current_of_writer {i : S} {view : Store} (hwriter : sys.writer = some i)
    (hview : sys.views i = some view) : sys.current = view := by
  unfold current
  rw [hwriter]
  simp only [hview, Option.getD_some]

/-- What the writer leaves in its snapshot are the newest subjects. -/
theorem current_update_self {i : S} (hwriter : sys.writer = some i) (store : Store) :
    ({ sys with views := Function.update sys.views i (some store) } : SubjectSystem S).current =
      store := by
  refine current_of_writer hwriter ?_
  simp

/-- A session that does not hold the writer lock does not change the newest subjects. -/
theorem current_update {i : S} (hwriter : sys.writer ≠ some i) (view : Option Store) :
    ({ sys with views := Function.update sys.views i view } : SubjectSystem S).current =
      sys.current := by
  unfold current
  cases hw : sys.writer with
  | none => rfl
  | some j =>
      have hne : j ≠ i := fun heq => hwriter (heq ▸ hw)
      simp only [Function.update_of_ne hne]

/-- The views after the one of a session is set. -/
theorem indexed_update {i : S} {store : Store} (hindexed : AliasIndexed env.toSubjectEnv store)
    (hviews : ∀ i view, sys.views i = some view → AliasIndexed env.toSubjectEnv view) :
    ∀ j view, Function.update sys.views i (some store) j = some view →
      AliasIndexed env.toSubjectEnv view := by
  intro j view hview
  by_cases hj : j = i
  · rw [hj, Function.update_self] at hview
    obtain rfl := Option.some.inj hview
    exact hindexed
  · rw [Function.update_of_ne hj] at hview
    exact hviews j view hview

/-- The views after a transaction ends. -/
theorem indexed_ended {i : S}
    (hviews : ∀ i view, sys.views i = some view → AliasIndexed env.toSubjectEnv view) :
    ∀ j view, Function.update sys.views i none j = some view →
      AliasIndexed env.toSubjectEnv view := by
  intro j view hview
  by_cases hj : j = i
  · rw [hj, Function.update_self] at hview
    cases hview
  · rw [Function.update_of_ne hj] at hview
    exact hviews j view hview

theorem returned_setView {i : S} {view store : Store} (hset : sys.setView i view store = some sys') :
    sys'.returned = sys.returned := by
  unfold SubjectSystem.setView at hset
  split_ifs at hset
  cases hset
  rfl

/-- A call in the newest snapshot keeps the cache, where it leaves a sound one. -/
theorem Inv.setView (h : Inv env sys) {i : S} {view : Store} {r : Resolver}
    (hcurrent : SameSubjects view sys.current)
    (hindexed : AliasIndexed env.toSubjectEnv r.store) (hsound : r.cache.Sound env r.store)
    {returned : List ResolvedName} (hreturned : ∀ r ∈ returned, r.Agrees env)
    (hset : sys.setView i view r.store = some sys') :
    Inv env { sys' with cache := r.cache, returned := returned } := by
  unfold SubjectSystem.setView at hset
  split_ifs at hset with hallowed
  obtain rfl := Option.some.inj hset
  refine ⟨h.committed, indexed_update hindexed h.views, ?_, hreturned⟩
  by_cases hwriter : sys.writer = some i
  · rw [← current_update_self hwriter r.store] at hsound
    exact hsound
  · have hstore : r.store = view := hallowed.resolve_right hwriter
    rw [hstore] at hsound
    have hafter := hsound.congr hcurrent
    rw [← current_update hwriter (some r.store)] at hafter
    exact hafter

/-- **A write that clears nothing keeps the cache sound**, where it hides none. -/
theorem sound_write {store store' : Store} {cache : SubjectCache} {call : SubjectCall}
    (hsound : cache.Sound env store)
    (hhides : ∀ subject, call = .insertSubject subject → HidesNone env store cache subject)
    (hok : subjectWrite env.toSubjectEnv contentHash modelId store call = .ok store') :
    (if call.clears then cache.clear else cache).Sound env store' := by
  cases call with
  | insertParticle p embedding =>
      obtain ⟨-, -, hsubjects, hrows⟩ := insertParticle_links hok
      exact hsound.congr ⟨hsubjects.symm, hrows.symm⟩
  | attach particleId subjectIds =>
      obtain ⟨ids, hok⟩ := fst_map_eq_ok.1 hok
      obtain ⟨-, -, -, -, -, hsubjects, hrows⟩ := attachSubjectsInPlace_spec hok
      exact hsound.congr ⟨hsubjects.symm, hrows.symm⟩
  | insertSubject subject =>
      obtain ⟨-, hsubjects, -, -⟩ := insertSubject_spec hok
      intro key cached hget
      refine ⟨?_, fun name source hname row hrow => ?_⟩
      · rw [hsubjects]
        split_ifs
        · rfl
        · exact (hsound key cached hget).row
      · rw [← hname] at hget
        exact hhides subject rfl store' hok name source cached hget row hrow
  | addAliases subjectId newAliases => exact sound_clear env store' cache
  | merge sourceIds targetId record => exact sound_clear env store' cache
  | restore source targetId pids keep aliasesAdded refsCarried => exact sound_clear env store' cache
  | split sourceId newSubjectId pids => exact sound_clear env store' cache
  | delete subjectId => exact sound_clear env store' cache

omit [DecidableEq S] in
/-- The cache is sound in the writer's snapshot. -/
theorem Inv.sound_view (h : Inv env sys) {i : S} {view : Store} (hwriter : sys.writer = some i)
    (hview : sys.views i = some view) : sys.cache.Sound env view := by
  rw [← current_of_writer hwriter hview]
  exact h.sound

omit [DecidableEq S] in
/-- A writer whose transaction has ended has left the committed subjects. -/
theorem current_of_ended {i : S} (hwriter : sys.writer = some i) (hview : sys.views i = none) :
    sys.current = sys.committed := by
  unfold current
  rw [hwriter]
  simp [hview]

/-- A transaction begins from the committed subjects. -/
theorem Inv.begin {i : S} (h : Inv env sys)
    (hstep : sys.step env contentHash modelId (.begin i) = some sys') : Inv env sys' := by
  simp only [SubjectSystem.step] at hstep
  cases hview : sys.views i with
  | some view =>
      rw [hview] at hstep
      cases hstep
  | none =>
      rw [hview] at hstep
      cases hstep
      refine ⟨h.committed, indexed_update h.committed h.views, ?_, h.returned⟩
      by_cases hwriter : sys.writer = some i
      · rw [current_update_self hwriter, ← current_of_ended hwriter hview]
        exact h.sound
      · rw [current_update hwriter _]
        exact h.sound

/-- The lock is taken in the newest snapshot. -/
theorem Inv.lock {i : S} (h : Inv env sys)
    (hstep : sys.step env contentHash modelId (.lock i) = some sys') : Inv env sys' := by
  simp only [SubjectSystem.step] at hstep
  split_ifs at hstep with hfree
  cases hstep
  refine ⟨h.committed, h.views, ?_, h.returned⟩
  have hbefore : sys.current = sys.committed := by
    unfold current
    rw [hfree.1]
  have hafter : ({ sys with writer := some i } : SubjectSystem S).current = sys.committed :=
    current_of_writer rfl hfree.2
  rw [hafter, ← hbefore]
  exact h.sound

/-- **A resolution caches what is sound**, and so does one that raises after the cascade. -/
theorem Inv.resolve {i : S} {authorities : List Authority} {asking : Asking} {call : NameCall} {stamp : Stamp}
    (h : Inv env sys)
    (hmeets : Undisturbed env sys (.resolve i authorities asking call stamp))
    (hstep : sys.step env contentHash modelId (.resolve i authorities asking call stamp) = some sys') : Inv env sys' := by
  simp only [SubjectSystem.step] at hstep
  cases hview : sys.views i with
  | none =>
      rw [hview] at hstep
      cases hstep
  | some view =>
      rw [hview] at hstep
      obtain ⟨hcurrent, hmiss⟩ := hmeets view hview
      have halone : ResolvesAlone env authorities asking ⟨view, sys.cache⟩ call stamp :=
        ⟨h.views i view hview, h.sound.congr hcurrent.symm, hmiss⟩
      cases hresolve : resolveSubject env authorities asking ⟨view, sys.cache⟩ call stamp with
      | ok result =>
          obtain ⟨r, subject⟩ := result
          simp only [hresolve] at hstep
          obtain ⟨set, hset, rfl⟩ := Option.map_eq_some_iff.1 hstep
          obtain ⟨hindexed, hsound, hagrees⟩ := resolveSubject_sound halone hresolve
          have hsame : set.returned = sys.returned := returned_setView hset
          refine h.setView hcurrent hindexed hsound ?_ hset
          intro other hother
          rw [hsame] at hother
          rcases List.mem_append.1 hother with hold | hnew
          · exact h.returned other hold
          · rw [List.mem_singleton.1 hnew]
            exact hagrees
      | error e =>
          simp only [hresolve] at hstep
          cases hcascade : ParticlesEngine.resolve env authorities asking ⟨view, sys.cache⟩
            (call.folded env) (personaFold env call.name call.source).isNone stamp with
          | error e =>
              simp only [hcascade] at hstep
              cases hstep
              exact h
          | ok result =>
              obtain ⟨r, subject⟩ := result
              simp only [hcascade] at hstep
              obtain ⟨set, hset, rfl⟩ := Option.map_eq_some_iff.1 hstep
              have hsound := resolve_sound halone hcascade
              have hsame : set.returned = sys.returned := returned_setView hset
              refine h.setView hcurrent hsound.indexed hsound.sound ?_ hset
              rw [hsame]
              exact h.returned

/-- **A write of the writer** clears the cache, or hides nothing that it holds. -/
theorem Inv.write {i : S} {call : SubjectCall} (h : Inv env sys)
    (hmeets : Undisturbed env sys (.write i call))
    (hstep : sys.step env contentHash modelId (.write i call) = some sys') : Inv env sys' := by
  simp only [SubjectSystem.step] at hstep
  cases hview : sys.views i with
  | none =>
      rw [hview] at hstep
      cases hstep
  | some view =>
      simp only [hview] at hstep
      by_cases hwriter : sys.writer = some i
      · rw [if_pos hwriter] at hstep
        cases hwrite : subjectWrite env.toSubjectEnv contentHash modelId view call with
        | error e =>
            rw [hwrite] at hstep
            cases hstep
            exact h
        | ok store =>
            rw [hwrite] at hstep
            obtain rfl := Option.some.inj hstep
            have happlied : applySubjectCall env.toSubjectEnv contentHash modelId view call =
                some store := by
              rw [applySubjectCall, hwrite]
              rfl
            have hindexed := (h.views i view hview).step happlied
            refine ⟨h.committed, indexed_update hindexed h.views, ?_, h.returned⟩
            have hafter : (if call.clears then sys.cache.clear else sys.cache).Sound env store := by
              refine sound_write (h.sound_view hwriter hview) ?_ hwrite
              rintro subject rfl
              exact hmeets view hview
            rw [← current_update_self hwriter store] at hafter
            exact hafter
      · rw [if_neg hwriter] at hstep
        cases hstep

/-- What the writer commits are the newest subjects already. -/
theorem Inv.commit {i : S} (h : Inv env sys)
    (hstep : sys.step env contentHash modelId (.commit i) = some sys') : Inv env sys' := by
  simp only [SubjectSystem.step] at hstep
  cases hview : sys.views i with
  | none =>
      rw [hview] at hstep
      cases hstep
  | some view =>
      simp only [hview] at hstep
      split_ifs at hstep with hwriter
      · cases hstep
        refine ⟨h.views i view hview, indexed_ended h.views, ?_, h.returned⟩
        exact h.sound_view hwriter hview
      · cases hstep
        refine ⟨h.committed, indexed_ended h.views, ?_, h.returned⟩
        rw [current_update hwriter _]
        exact h.sound

/-- **A rollback** gives up what nothing in the cache came from. -/
theorem Inv.rollback {i : S} (h : Inv env sys)
    (hmeets : Undisturbed env sys (.rollback i))
    (hstep : sys.step env contentHash modelId (.rollback i) = some sys') : Inv env sys' := by
  simp only [SubjectSystem.step] at hstep
  split_ifs at hstep with hwriter
  · cases hstep
    refine ⟨h.committed, indexed_ended h.views, ?_, h.returned⟩
    change sys.cache.Sound env sys.committed
    cases hview : sys.views i with
    | none =>
        rw [← current_of_ended hwriter hview]
        exact h.sound
    | some view =>
        rcases hmeets hwriter view hview with hsame | hnil
        · exact (h.sound_view hwriter hview).congr hsame
        · exact sound_of_positive_eq_nil hnil
  · cases hstep
    refine ⟨h.committed, indexed_ended h.views, ?_, h.returned⟩
    rw [current_update hwriter _]
    exact h.sound

/-- **Every undisturbed step keeps the invariant.** -/
theorem Inv.step {action : SubjectAction S} (h : Inv env sys) (hmeets : Undisturbed env sys action)
    (hstep : sys.step env contentHash modelId action = some sys') : Inv env sys' := by
  cases action with
  | begin i => exact h.begin hstep
  | lock i => exact h.lock hstep
  | resolve i authorities asking call stamp => exact h.resolve hmeets hstep
  | write i call => exact h.write hmeets hstep
  | commit i => exact h.commit hstep
  | rollback i => exact h.rollback hmeets hstep

end SubjectSystem

/-! ### Every run -/

/-- **In every undisturbed run each resolution agrees with the store**, from any store that the
repository writes. -/
theorem resolutions_agree {S : Type} [DecidableEq S] (env : ResolverEnv)
    (contentHash : String → String) (modelId : String) {calls : List SubjectCall} {store : Store}
    (hstore : run (applySubjectCall env.toSubjectEnv contentHash modelId) .empty calls = some store)
    {actions : List (SubjectAction S)} {sys : SubjectSystem S}
    (hmeets : StepsMeet (SubjectSystem.step env contentHash modelId) (Undisturbed env)
      { committed := store } actions)
    (hrun : run (SubjectSystem.step env contentHash modelId) { committed := store } actions =
      some sys) : ∀ r ∈ sys.returned, r.Agrees env := by
  have hstart : SubjectSystem.Inv env ({ committed := store } : SubjectSystem S) := by
    refine ⟨(AliasIndexed.empty _).run hstore, ?_, ?_, ?_⟩
    · intro i view hview
      cases hview
    · exact sound_of_positive_eq_nil rfl
    · intro r hr
      cases hr
  have hinv : SubjectSystem.Inv env sys :=
    hmeets.invariant (SubjectSystem.Inv env) (fun _ _ _ h hmeets hstep => h.step hmeets hstep) hstart
      (List.append_nil actions).symm hrun
  exact hinv.returned

/-- A configuration whose texts have ASCII letters only, with one persona. -/
def asciiResolver : ResolverEnv where
  toNameEnv := elanEnv
  casefold := elanLower
  inferDomain _ := none
  personaCanonicalName := "Speaker"
  personaAliases := ["user", "I"]
  personaSourceTypes := ["CHAT_TRANSCRIPT"]
  personaSourceTags := ["memory-file"]
  skipLiveAuthoritiesSourceTypes := ["CHAT_TRANSCRIPT"]
  externalLinkAbstainThreshold := 2 / 5
  strip_strip _ := rfl

/-- One session inserts a subject for a name and resolves the name again, in other letters. -/
def appleTwice : List (SubjectAction Unit) :=
  [.begin (), .lock (), .resolve () [] .live { name := "Apple" } { id := "s1" },
    .resolve () [] .live { name := "APPLE" } { id := "s2" }, .commit ()]

theorem appleTwice_undisturbed :
    StepsMeet (SubjectSystem.step asciiResolver id "model") (Undisturbed asciiResolver)
      ({ committed := .empty } : SubjectSystem Unit) appleTwice := by
  have hopened : ∀ sys, run (SubjectSystem.step asciiResolver id "model")
      ({ committed := .empty } : SubjectSystem Unit) (appleTwice.take 2) = some sys →
      sys.views () = some .empty ∧ sys.current = .empty ∧ sys.cache = {} := by
    intro sys hrun
    have hall : (run (SubjectSystem.step asciiResolver id "model")
        ({ committed := .empty } : SubjectSystem Unit) (appleTwice.take 2)).all
        (fun sys => sys.views () = some .empty ∧ sys.current = .empty ∧ sys.cache = {}) = true := by
      decide +kernel
    rw [hrun] at hall
    simpa using hall
  have hresolved : ∀ sys, run (SubjectSystem.step asciiResolver id "model")
      ({ committed := .empty } : SubjectSystem Unit) (appleTwice.take 3) = some sys →
      sys.views () = some sys.current ∧
        (sys.cache.get? (callKey asciiResolver "APPLE" {})).isSome = true := by
    intro sys hrun
    have hall : (run (SubjectSystem.step asciiResolver id "model")
        ({ committed := .empty } : SubjectSystem Unit) (appleTwice.take 3)).all
        (fun sys => sys.views () = some sys.current ∧
          (sys.cache.get? (callKey asciiResolver "APPLE" {})).isSome = true) = true := by
      decide +kernel
    rw [hrun] at hall
    simpa using hall
  refine stepsMeet_cons.2 ⟨trivial, fun s₁ h₁ => stepsMeet_cons.2 ⟨trivial, fun s₂ h₂ =>
    stepsMeet_cons.2 ⟨?first, fun s₃ h₃ => stepsMeet_cons.2 ⟨?second, fun s₄ h₄ =>
      stepsMeet_cons.2 ⟨trivial, fun s₅ h₅ => stepsMeet_nil⟩⟩⟩⟩⟩
  case first =>
    obtain ⟨hview, hcurrent, hcache⟩ :=
      hopened s₂ (run_cons_eq_some.2 ⟨s₁, h₁, run_cons_eq_some.2 ⟨s₂, h₂, rfl⟩⟩)
    intro view hview'
    obtain rfl := Option.some.inj (hview.symm.trans hview')
    refine ⟨by rw [hcurrent]; exact ⟨rfl, rfl⟩, fun _ => ⟨fun name source _ => rfl, ?_⟩⟩
    intro _ subject _ store' _ name source cached hget
    rw [hcache] at hget
    cases hget
  case second =>
    obtain ⟨hview, hcached⟩ := hresolved s₃ (run_cons_eq_some.2 ⟨s₁, h₁,
      run_cons_eq_some.2 ⟨s₂, h₂, run_cons_eq_some.2 ⟨s₃, h₃, rfl⟩⟩⟩)
    intro view hview'
    obtain rfl := Option.some.inj (hview.symm.trans hview')
    refine ⟨⟨rfl, rfl⟩, fun hnone => ?_⟩
    rw [hnone] at hcached
    cases hcached

theorem resolutions_agree_appleTwice :
    ∃ sys : SubjectSystem Unit,
      run (SubjectSystem.step asciiResolver id "model") { committed := .empty } appleTwice = some sys ∧
      sys.returned.map (·.subject.id) = ["s1", "s1"] ∧ ∀ r ∈ sys.returned, r.Agrees asciiResolver := by
  have hran : ((run (SubjectSystem.step asciiResolver id "model") { committed := .empty }
      appleTwice).map fun sys : SubjectSystem Unit => sys.returned.map (·.subject.id)) =
      some ["s1", "s1"] := by
    decide +kernel
  obtain ⟨sys, hrun, hids⟩ := Option.map_eq_some_iff.1 hran
  have hstore : run (applySubjectCall asciiResolver.toSubjectEnv id "model") .empty [] =
      some .empty := rfl
  exact ⟨sys, hrun, hids, resolutions_agree asciiResolver id "model" hstore appleTwice_undisturbed hrun⟩

/-- A session inserts a subject for a name and rolls back, and another resolves the name. -/
def appleRolledBack : List (SubjectAction Unit) :=
  [.begin (), .lock (), .resolve () [] .live { name := "Apple" } { id := "s1" }, .rollback (),
    .begin (), .resolve () [] .live { name := "Apple" } { id := "s2" }]

/-- **A subject whose insert was rolled back is returned**, since the cache kept it. -/
theorem rolled_back_mint_is_returned :
    ∃ sys : SubjectSystem Unit,
      run (SubjectSystem.step asciiResolver id "model") { committed := .empty } appleRolledBack =
        some sys ∧
      ∃ r ∈ sys.returned, r.subject.id = "s1" ∧ r.after.subjects.rows = [] ∧
        ¬ r.Agrees asciiResolver := by
  have hran : ((run (SubjectSystem.step asciiResolver id "model") { committed := .empty }
      appleRolledBack).map fun sys : SubjectSystem Unit =>
        sys.returned.any fun r => r.subject.id = "s1" ∧ r.after.subjects.rows = []) = some true := by
    decide +kernel
  obtain ⟨sys, hrun, hany⟩ := Option.map_eq_some_iff.1 hran
  obtain ⟨r, hr, hempty⟩ := List.any_eq_true.1 hany
  simp only [decide_eq_true_eq] at hempty
  refine ⟨sys, hrun, r, hr, hempty.1, hempty.2, fun hagrees => ?_⟩
  have hrow := hagrees.row
  rw [Table.get?, hempty.2] at hrow
  cases hrow

end ParticlesEngine
