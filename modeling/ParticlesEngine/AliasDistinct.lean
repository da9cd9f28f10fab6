/-
**The aliases of a subject are distinct.**

Two names are one alias when they fold alike.  Each write of the aliases decides for itself which
names are new: an insert takes the list it is given, a merge drops a name that repeats one before it,
and an undo only takes names away.  `add_aliases` compares each name with the aliases that were there
before the call, never with the other names of the call.

Main definitions:

* `MergedRepo`, `applyMergedCall` — a run that keeps, beside the store, the subjects that its merges
  removed: an undo recreates one of those;
* `AliasesDistinct` — no two aliases of a subject fold alike;
* `FreshOnce` — a name that is new to the subject is given once;
* `ReportsNew` — what `add_aliases` reports is the names that are new to the subject.

Main results:

* `AliasesDistinct.step` — every write keeps the aliases distinct, `add_aliases` when its new names
  are;
* `aliasesDistinct_iff` — **the aliases stay distinct through a run, and each report is right, exactly
  when no call gives two spellings of a new name**.
-/

import ParticlesEngine.AliasIndex
import ParticlesEngine.ArtifactFold

set_option relaxedAutoImplicit false
set_option autoImplicit false

open FirstByKey Runs

namespace ParticlesEngine

/-! ### Runs -/

/-- A store, and the subjects that its merges removed, as they were. -/
structure MergedRepo where
  store : Store
  merged : List Subject

/-- The repository before its first write. -/
def MergedRepo.empty : MergedRepo := ⟨.empty, []⟩

/-- An undo recreates a subject that a merge removed, from what its event records of it. -/
def MergedRepo.canTake (repo : MergedRepo) : SubjectCall → Bool
  | .restore source _ _ _ _ _ =>
    repo.merged.any fun subject => source = (sourceRecordOf subject).toSubject source.assertedBy
  | _ => true

theorem MergedRepo.exists_of_canTake_restore {repo : MergedRepo} {source : Subject} {targetId : String}
    {pids keep aliasesAdded refsCarried : List String}
    (h : repo.canTake (.restore source targetId pids keep aliasesAdded refsCarried) = true) :
    ∃ subject ∈ repo.merged, source.aliases = subject.aliases := by
  obtain ⟨subject, hsubject, heq⟩ := List.any_eq_true.1 h
  have haliases := congrArg Subject.aliases (of_decide_eq_true heq)
  exact ⟨subject, hsubject, haliases⟩

/-- The subjects that a merge removed. -/
def mergedAway (store store' : Store) : SubjectCall → List Subject
  | .merge _ _ _ => store.subjects.rows.filter fun subject =>
      (store'.subjects.get? subject.id).isNone
  | _ => []

section Steps

variable (env : SubjectEnv) (contentHash : String → String) (modelId : String)

/-- One step of a run. -/
def applyMergedCall (repo : MergedRepo) (call : SubjectCall) : Option MergedRepo :=
  if repo.canTake call then
    (applySubjectCall env contentHash modelId repo.store call).map fun store =>
      ⟨store, repo.merged ++ mergedAway repo.store store call⟩
  else none

end Steps

/-! ### Distinct aliases -/

section Distinct

variable (env : SubjectEnv)

/-- No two aliases of the subject fold alike. -/
def Subject.AliasesDistinct (subject : Subject) : Prop :=
  (subject.aliases.map (aliasKey env)).Nodup

/-- A name folds to the canonical name of the subject, or to one of its aliases. -/
def Subject.Holds (subject : Subject) (name : String) : Prop :=
  aliasKey env name ∈ aliasKey env subject.canonicalName :: subject.aliases.map (aliasKey env)

instance (subject : Subject) : DecidablePred (subject.Holds env) := fun _ =>
  inferInstanceAs (Decidable (_ ∈ _))

/-- The aliases of every subject are distinct, and those of the subjects merged away were. -/
structure AliasesDistinct (repo : MergedRepo) : Prop where
  stored : ∀ x subject, repo.store.subjects.get? x = some subject → subject.AliasesDistinct env
  merged : ∀ subject ∈ repo.merged, subject.AliasesDistinct env

instance (subject : Subject) : Decidable (subject.AliasesDistinct env) :=
  inferInstanceAs (Decidable (List.Nodup _))

/-- An inserted subject has distinct aliases. -/
def InsertsDistinct : SubjectCall → Prop
  | .insertSubject subject => subject.AliasesDistinct env
  | _ => True

instance : DecidablePred (InsertsDistinct env) := fun call => by
  cases call <;> unfold InsertsDistinct <;> infer_instance

/-- The names given for a subject are spelled once, unless the subject has the name. -/
def FreshOnce (store : Store) : SubjectCall → Prop
  | .addAliases subjectId newAliases => ∀ subject ∈ store.subjects.get? subjectId,
      newAliases.Pairwise fun name name' =>
        aliasKey env name = aliasKey env name' → subject.Holds env name
  | _ => True

instance (store : Store) : DecidablePred (FreshOnce env store) := fun call => by
  cases call <;> unfold FreshOnce <;> infer_instance

/-- `add_aliases` reports the names that are new to the subject, each once, and the same names in any
spelling are no longer new. -/
def ReportsNew (store : Store) : SubjectCall → Prop
  | .addAliases subjectId newAliases => ∀ subject, store.subjects.get? subjectId = some subject →
      ∃ store' subject' added,
        addAliases env store subjectId newAliases = .ok (store', subject', added) ∧
        (∀ name ∈ added, name ∈ newAliases) ∧
        (∀ name ∈ newAliases, ¬ subject.Holds env name → aliasKey env name ∈ added.map (aliasKey env)) ∧
        (∀ name ∈ added, ¬ subject.Holds env name) ∧
        (added.map (aliasKey env)).Nodup ∧
        ∀ again : List String,
          (∀ name ∈ again, aliasKey env name ∈ newAliases.map (aliasKey env)) →
          ∃ unchanged, addAliases env store' subjectId again = .ok (store', unchanged, [])
  | _ => True

end Distinct

/-! ### One write -/

section Writes

variable {env : SubjectEnv} {contentHash : String → String} {modelId : String}
  {store store' : Store} {subject : Subject}

/-- The names of a batch that are new to a subject are distinct exactly when each is spelled once. -/
theorem nodup_fresh_iff (newAliases : List String) :
    ((newAliases.filter fun name => ¬ subject.Holds env name).map (aliasKey env)).Nodup ↔
      newAliases.Pairwise fun name name' =>
        aliasKey env name = aliasKey env name' → subject.Holds env name := by
  induction newAliases with
  | nil => simp
  | cons name newAliases ih =>
      rw [List.pairwise_cons, ← ih, List.filter_cons]
      by_cases hholds : subject.Holds env name
      · simp [hholds]
      · have hfold : ∀ name', aliasKey env name = aliasKey env name' →
            ¬ subject.Holds env name' := by
          intro name' heq
          unfold Subject.Holds at hholds ⊢
          rwa [← heq]
        rw [if_pos (by simpa using hholds), List.map_cons, List.nodup_cons]
        refine and_congr_left fun _ => ?_
        constructor
        · intro hnew name' hname' heq
          refine absurd (List.mem_map.2 ⟨name', List.mem_filter.2 ⟨hname', ?_⟩, heq.symm⟩) hnew
          simpa using hfold name' heq
        · intro hall hmem
          obtain ⟨name', hname', heq⟩ := List.mem_map.1 hmem
          exact hholds (hall name' (List.mem_filter.1 hname').1 heq.symm)

/-- The names of a call that a subject does not have. -/
def Subject.fresh (env : SubjectEnv) (subject : Subject) (newAliases : List String) : List String :=
  newAliases.filter fun name => ¬ subject.Holds env name

theorem addAliases_eq {subjectId : String} (newAliases : List String)
    (hsubject : store.subjects.get? subjectId = some subject) :
    addAliases env store subjectId newAliases =
      (if subject.fresh env newAliases = [] then .ok store
        else setAliases env store subjectId (subject.aliases ++ subject.fresh env newAliases)) >>=
      fun store' => .ok (store', subject.withAliases (subject.aliases ++ subject.fresh env newAliases),
        subject.fresh env newAliases) := by
  unfold addAliases
  rw [hsubject]
  rfl

/-- **What `add_aliases` adds** is the names that the subject does not have. -/
theorem addAliases_ok (env : SubjectEnv) {subjectId : String} (newAliases : List String)
    (hsubject : store.subjects.get? subjectId = some subject) :
    ∃ store', addAliases env store subjectId newAliases = .ok (store',
      subject.withAliases (subject.aliases ++ subject.fresh env newAliases),
      subject.fresh env newAliases) ∧ (subject.fresh env newAliases = [] → store' = store) := by
  rw [addAliases_eq newAliases hsubject]
  split_ifs with hnone
  · exact ⟨store, rfl, fun _ => rfl⟩
  · obtain ⟨store', hset⟩ := indexAliases_isOk env (store.modifySubject subjectId
      (·.withAliases (subject.aliases ++ subject.fresh env newAliases))
      (Subject.id_withAliases _)) subjectId (subject.aliases ++ subject.fresh env newAliases)
    refine ⟨store', ?_, fun h => absurd h hnone⟩
    rw [setAliases, hset]
    rfl

theorem mem_fresh {newAliases : List String} {name : String} :
    name ∈ subject.fresh env newAliases ↔ name ∈ newAliases ∧ ¬ subject.Holds env name := by
  simp [Subject.fresh]

/-- **The report of a call is right exactly when its new names are given once.** -/
theorem reportsNew_iff (call : SubjectCall) :
    ReportsNew env store call ↔ FreshOnce env store call := by
  cases call with
  | addAliases subjectId newAliases =>
      refine forall_congr' fun subject => ?_
      constructor
      · intro hreport hsubject
        obtain ⟨store', subject', added, hok, -, -, -, hnodup, -⟩ := hreport hsubject
        obtain ⟨store'', hok', -⟩ := addAliases_ok env newAliases hsubject
        rw [hok] at hok'
        obtain ⟨-, -, rfl⟩ : _ ∧ _ ∧ added = _ := by simpa using hok'
        exact (nodup_fresh_iff newAliases).1 hnodup
      · intro hfresh hsubject
        obtain ⟨store', hok, -⟩ := addAliases_ok env newAliases hsubject
        refine ⟨store', _, _, hok, fun name hname => (mem_fresh.1 hname).1, fun name hname hnew => ?_,
          fun name hname => (mem_fresh.1 hname).2, (nodup_fresh_iff newAliases).2 (hfresh hsubject),
          fun again hagain => ?_⟩
        · exact List.mem_map.2 ⟨name, mem_fresh.2 ⟨hname, hnew⟩, rfl⟩
        · -- the subject has every name of the call by now
          obtain ⟨found, hfound, hsubjects, -⟩ := addAliases_spec hok
          obtain rfl := Option.some.inj (hsubject.symm.trans hfound)
          have hnow := hsubjects subjectId
          rw [if_pos rfl] at hnow
          have hnone : (subject.withAliases (subject.aliases ++
              subject.fresh env newAliases)).fresh env again = [] := by
            refine List.eq_nil_iff_forall_not_mem.2 fun name hname => ?_
            obtain ⟨hmem, hnew⟩ := mem_fresh.1 hname
            obtain ⟨given, hgiven, hfold⟩ := List.mem_map.1 (hagain name hmem)
            refine hnew ?_
            unfold Subject.Holds
            rw [← hfold, Subject.withAliases, List.map_append, ← List.cons_append, List.mem_append]
            by_cases hholds : subject.Holds env given
            · exact Or.inl hholds
            · exact Or.inr (List.mem_map.2 ⟨given, mem_fresh.2 ⟨hgiven, hholds⟩, rfl⟩)
          obtain ⟨store'', hok', hsame⟩ := addAliases_ok env again hnow
          rw [hnone] at hok' hsame
          obtain rfl := hsame rfl
          exact ⟨_, hok'⟩
  | _ => exact Iff.rfl

/-- New names that are distinct, and that the subject does not have, keep its aliases distinct. -/
theorem Subject.AliasesDistinct.append {added : List String} (h : subject.AliasesDistinct env)
    (hadded : (added.map (aliasKey env)).Nodup) (hnew : ∀ name ∈ added, ¬ subject.Holds env name) :
    ((subject.aliases ++ added).map (aliasKey env)).Nodup := by
  rw [List.map_append, List.nodup_append']
  refine ⟨h, hadded, fun key hkey hkey' => ?_⟩
  obtain ⟨name, hname, rfl⟩ := List.mem_map.1 hkey'
  exact hnew name hname (List.mem_cons_of_mem _ hkey)

theorem stored_insertSubject (h : ∀ x s, store.subjects.get? x = some s → s.AliasesDistinct env)
    (hsubject : subject.AliasesDistinct env) (hok : insertSubject env store subject = .ok store') :
    ∀ x s, store'.subjects.get? x = some s → s.AliasesDistinct env := by
  obtain ⟨-, hsubjects, -⟩ := insertSubject_spec hok
  intro x s hs
  rw [hsubjects] at hs
  split_ifs at hs
  · obtain rfl := Option.some.inj hs
    exact hsubject
  · exact h x s hs

theorem stored_addAliases (h : ∀ x s, store.subjects.get? x = some s → s.AliasesDistinct env)
    {subjectId : String} {newAliases added : List String} {subject' : Subject}
    (hfresh : FreshOnce env store (.addAliases subjectId newAliases))
    (hok : addAliases env store subjectId newAliases = .ok (store', subject', added)) :
    ∀ x s, store'.subjects.get? x = some s → s.AliasesDistinct env := by
  obtain ⟨found, hfound, hsubjects, -⟩ := addAliases_spec hok
  obtain ⟨store'', hok', -⟩ := addAliases_ok env newAliases hfound
  rw [hok] at hok'
  obtain ⟨-, -, rfl⟩ : _ ∧ _ ∧ added = found.fresh env newAliases := by simpa using hok'
  intro x s hs
  rw [hsubjects] at hs
  split_ifs at hs
  · obtain rfl := Option.some.inj hs
    exact (h _ found hfound).append ((nodup_fresh_iff newAliases).2 (hfresh found hfound))
      fun name hname => (mem_fresh.1 hname).2
  · exact h x s hs

/-- A merge plan adds each name once, and none that the target has. -/
theorem aliasesAdded_of_plan {sourceIds : List String} {targetId : String} {plan : SubjectMergePlan}
    (hplan : planSubjectMerge env store sourceIds targetId = .ok plan) :
    (plan.aliasesAdded.map (aliasKey env)).Nodup ∧
      ∀ name ∈ plan.aliasesAdded, ¬ plan.target.Holds env name := by
  simp only [planSubjectMerge, bind_eq_ok, orRaise_eq_ok] at hplan
  obtain ⟨-, -, _, -, target, rfl, resolved, -, hplan⟩ := hplan
  obtain rfl := Except.ok.inj hplan
  simp only [missingNames_eq]
  refine ⟨nodup_map_firstByKey, fun name hname => ?_⟩
  exact (mem_firstByKey.1 hname).1

theorem stored_merge (h : ∀ x s, store.subjects.get? x = some s → s.AliasesDistinct env)
    {sourceIds : List String} {targetId : String} {record : Option SourceRecord}
    {result : MergeResult}
    (hok : mergeSubjectsMany env store sourceIds targetId record = .ok (store', result)) :
    ∀ x s, store'.subjects.get? x = some s → s.AliasesDistinct env := by
  obtain ⟨hplan, heffect⟩ := mergeSubjectsMany_spec hok
  obtain ⟨hadded, hnew⟩ := aliasesAdded_of_plan hplan
  intro x s hs
  rw [heffect.subjects] at hs
  split_ifs at hs
  · obtain rfl := Option.some.inj hs
    exact (h _ _ (planSubjectMerge_spec hplan).target).append hadded hnew
  · exact h x s hs

theorem stored_restore (h : ∀ x s, store.subjects.get? x = some s → s.AliasesDistinct env)
    {source : Subject} {targetId : String}
    {particleIds keepOnTarget aliasesAdded refsCarried relinked : List String}
    (hsource : source.AliasesDistinct env)
    (hok : restoreMergedSource env store source targetId particleIds keepOnTarget aliasesAdded
      refsCarried = .ok (store', relinked)) :
    ∀ x s, store'.subjects.get? x = some s → s.AliasesDistinct env := by
  obtain ⟨-, target, htarget, hsubjects, -⟩ := restoreMergedSource_spec hok
  intro x s hs
  rw [hsubjects] at hs
  split_ifs at hs
  · obtain rfl := Option.some.inj hs
    exact hsource
  · obtain rfl := Option.some.inj hs
    -- the target keeps some of its aliases
    exact (h _ target htarget).sublist (List.filter_sublist.map _)
  · exact h x s hs

/-- **Every write keeps the aliases distinct**, `add_aliases` when its new names are. -/
theorem AliasesDistinct.step {repo repo' : MergedRepo} {call : SubjectCall}
    (h : AliasesDistinct env repo) (hinsert : InsertsDistinct env call)
    (hfresh : FreshOnce env repo.store call)
    (hstep : applyMergedCall env contentHash modelId repo call = some repo') :
    AliasesDistinct env repo' := by
  unfold applyMergedCall at hstep
  split_ifs at hstep with htake
  obtain ⟨store', happly, rfl⟩ := Option.map_eq_some_iff.1 hstep
  refine ⟨?_, fun s hs => ?_⟩
  · rw [applySubjectCall, toOption_eq_some] at happly
    have hsame : store'.subjects = repo.store.subjects →
        ∀ x s, store'.subjects.get? x = some s → s.AliasesDistinct env := by
      intro heq x s hs
      exact h.stored x s (heq ▸ hs)
    cases call with
    | insertParticle p embedding => exact hsame (insertParticle_links happly).2.2.1
    | insertSubject s => exact stored_insertSubject h.stored hinsert happly
    | addAliases subjectId newAliases =>
        obtain ⟨⟨s, added⟩, hok⟩ := fst_map_eq_ok.1 happly
        exact stored_addAliases h.stored hfresh hok
    | attach particleId subjectIds =>
        obtain ⟨ids, hok⟩ := fst_map_eq_ok.1 happly
        obtain ⟨-, -, -, -, -, hsubjects, -⟩ := attachSubjectsInPlace_spec hok
        exact hsame hsubjects
    | merge sourceIds targetId record =>
        obtain ⟨result, hok⟩ := fst_map_eq_ok.1 happly
        exact stored_merge h.stored hok
    | restore source targetId pids keep aliasesAdded refsCarried =>
        obtain ⟨relinked, hok⟩ := fst_map_eq_ok.1 happly
        obtain ⟨subject, hsubject, haliases⟩ := MergedRepo.exists_of_canTake_restore htake
        have hdistinct : source.AliasesDistinct env := by
          unfold Subject.AliasesDistinct
          rw [haliases]
          exact h.merged subject hsubject
        exact stored_restore h.stored hdistinct hok
    | split sourceId newSubjectId pids =>
        obtain ⟨⟨relinked, notBound⟩, hok⟩ := fst_map_eq_ok.1 happly
        obtain ⟨-, hfold⟩ := splitSubject_spec hok
        obtain ⟨hsubjects, -⟩ := foldl_splitParticle_frame pids (repo.store, [], [])
        rw [hfold] at hsubjects
        exact hsame hsubjects
    | delete subjectId =>
        obtain ⟨⟨s, count⟩, hok⟩ := fst_map_eq_ok.1 happly
        intro x s hs
        rw [(deleteSubject_spec hok).subjects] at hs
        split_ifs at hs
        exact h.stored x s hs
  · rcases List.mem_append.1 hs with hs | hs
    · exact h.merged s hs
    · cases call with
      | merge sourceIds targetId record =>
          exact h.stored s.id s (Table.get?_key (List.mem_filter.1 hs).1)
      | _ => cases hs

/-- **The aliases of every subject stay distinct, and every report of `add_aliases` is right, exactly
when no call gives two spellings of a name that is new to the subject.** -/
theorem aliasesDistinct_iff (calls : List SubjectCall)
    (hinserts : ∀ call ∈ calls, InsertsDistinct env call) :
    (∀ before after repo, calls = before ++ after →
      run (applyMergedCall env contentHash modelId) .empty before = some repo →
      (∀ x subject, repo.store.subjects.get? x = some subject → subject.AliasesDistinct env) ∧
        ∀ call rest, after = call :: rest → ReportsNew env repo.store call) ↔
    StepsMeet (applyMergedCall env contentHash modelId)
      (fun repo call => FreshOnce env repo.store call) .empty calls := by
  constructor
  · intro hall before call after repo hcalls hrun
    exact (reportsNew_iff call).1 ((hall before (call :: after) repo hcalls hrun).2 call after rfl)
  · intro hmeets before after repo hcalls hrun
    refine ⟨?_, fun call rest hafter => ?_⟩
    · have hboth : StepsMeet (applyMergedCall env contentHash modelId)
          (fun repo call => InsertsDistinct env call ∧ FreshOnce env repo.store call) .empty calls := by
        intro before' call after' repo' hcalls' hrun'
        exact ⟨hinserts call (hcalls' ▸ List.mem_append_right _ List.mem_cons_self),
          hmeets before' call after' repo' hcalls' hrun'⟩
      exact (hboth.invariant (AliasesDistinct env)
        (fun repo call repo' hinv hmeet hstep => hinv.step hmeet.1 hmeet.2 hstep)
        ⟨fun x subject hsubject => absurd hsubject (by rw [show Table.get? _ x = none from rfl]; simp),
          fun subject hsubject => absurd hsubject List.not_mem_nil⟩ hcalls hrun).stored
    · exact (reportsNew_iff call).2 (hmeets before call rest repo (by rw [hcalls, hafter]) hrun)

end Writes

/-- A subject, and two spellings of one new name for it. -/
def nasaTwice : List SubjectCall :=
  [.insertSubject { id := "s1", canonicalName := "agency" },
    .addAliases "s1" ["NASA", "nasa"]]

theorem aliases_repeat_nasaTwice :
    (∀ call ∈ nasaTwice, InsertsDistinct nasaEnv call) ∧
    ∃ repo ∈ run (applyMergedCall nasaEnv id "model") .empty nasaTwice,
      ∃ subject ∈ repo.store.subjects.get? "s1", subject.aliases = ["NASA", "nasa"] ∧
        ¬ subject.AliasesDistinct nasaEnv := by
  decide +kernel

/-- The same name given in two calls is added once. -/
def nasaTwiceApart : List SubjectCall :=
  [.insertSubject { id := "s1", canonicalName := "agency" },
    .addAliases "s1" ["NASA"], .addAliases "s1" ["nasa"]]

theorem aliasesDistinct_iff_nasaTwiceApart :
    StepsMeet (applyMergedCall nasaEnv id "model")
      (fun repo call => FreshOnce nasaEnv repo.store call) .empty nasaTwiceApart ∧
    ∀ before after repo, nasaTwiceApart = before ++ after →
      run (applyMergedCall nasaEnv id "model") .empty before = some repo →
      ∀ x subject, repo.store.subjects.get? x = some subject → subject.AliasesDistinct nasaEnv := by
  have hmeets : StepsMeet (applyMergedCall nasaEnv id "model")
      (fun repo call => FreshOnce nasaEnv repo.store call) .empty nasaTwiceApart := by
    decide +kernel
  refine ⟨hmeets, fun before after repo hcalls hrun => ?_⟩
  exact ((aliasesDistinct_iff nasaTwiceApart (by decide +kernel)).2 hmeets before after repo hcalls
    hrun).1

end ParticlesEngine
