/-
**Artifact folds.**

A fold merges another spelling of a file into the file's subject, and its event records what the
merge did: the source as it was, the names and refs that the target gained, the particles that were
relinked and those of them that the target had already.  An undo recreates the source from the
event and takes back from the target what it gained.

Main definitions:

* `applyFold`, `undoFold` — the folds of a plan in order, and the undo of one fold from its event;
* `foldSpared`, `foldsSpared` — the folds whose source the event records in full, and which carry no
  ref that reads as another of the target's.

Main results:

* `mergeSubjectsMany_event` — **what the event of a merge records**;
* `planSubjectMerge_one`, `applyFoldStep_spec` — the plan of a merge of one source, and what a fold
  does;
* `toSubject_sourceRecordOf` — a source that is recorded in full is recreated as it was.
-/

import ParticlesEngine.SubjectLinks

set_option relaxedAutoImplicit false
set_option autoImplicit false

open FirstByKey

namespace ParticlesEngine

/-! ### Folds and their undo -/

/-- One fold of a plan: a source merged into the subject of a file. -/
structure Fold where
  sourceId : String
  targetId : String
  deriving DecidableEq, Repr

/-- `_source_record`: the source as it was, its contributors left out. -/
def sourceRecordOf (subject : Subject) : SourceRecord where
  id := subject.id
  canonicalName := subject.canonicalName
  description := subject.description
  aliases := subject.aliases
  externalIds := subject.externalIds
  subjectClass := subject.subjectClass
  assertedBy := subject.assertedBy
  createdAt := subject.createdAt

/-- The subject that an undo recreates from a record. -/
def SourceRecord.toSubject (actor : String) (record : SourceRecord) : Subject where
  id := record.id
  canonicalName := record.canonicalName
  description := record.description
  aliases := record.aliases
  externalIds := record.externalIds
  subjectClass := record.subjectClass
  -- Python's `or`: an empty name gives way to the actor of the undo
  assertedBy := if record.assertedBy = "" then actor else record.assertedBy
  createdAt := record.createdAt

section Folds

variable (env : SubjectEnv) (actor : String)

/-- One fold of `apply_fold`, with the event it records; a fold whose source or target is gone is
skipped. -/
def applyFoldStep (acc : Store × List SubjectsMerged) (fold : Fold) :
    Except StoreError (Store × List SubjectsMerged) := do
  let found ← getSubject env acc.1 fold.sourceId
  match found with
  | none => return acc
  | some source =>
      let target ← getSubject env acc.1 fold.targetId
      match target with
      | none => return acc
      | some _ =>
          let merged ← mergeSubjectsMany env acc.1 [fold.sourceId] fold.targetId
            (some (sourceRecordOf source))
          return (merged.1, acc.2 ++ [merged.2.event])

/-- **`apply_fold`**: the store, and the events that the folds recorded. -/
def applyFold (store : Store) (folds : List Fold) :
    Except StoreError (Store × List SubjectsMerged) :=
  folds.foldlM (applyFoldStep env) (store, [])

/-- **`undo_fold`**: the store, and the particles moved back onto the recreated source. -/
def undoFold (store : Store) (event : SubjectsMerged) :
    Except StoreError (Store × List String) := do
  let record ← orRaise event.sourceRecord .notAFold
  restoreMergedSource env store (record.toSubject actor) event.target event.particleRefs
    event.alreadyOnTarget event.aliasesAdded event.refsCarried

/-- Some folds undone, one after the other. -/
def undoFolds (store : Store) (events : List SubjectsMerged) : Except StoreError Store :=
  events.foldlM (fun store event => Prod.fst <$> undoFold env actor store event) store

/-- A merge into `target` gives it the ref. -/
def carriesRef (target : Subject) (ref : ExternalRef) : Bool :=
  ref.ns = env.ARTIFACT_REF_NAMESPACE ∧ ref.key ∉ target.externalIds.map ExternalRef.key ∧
    env.artifactRefProject ref.id ∈ (target.externalIds.filter (·.ns =
      env.ARTIFACT_REF_NAMESPACE)).map (env.artifactRefProject ·.id)

/-- The event of a fold records all of the source, and the target holds no ref that reads as one it
gains. -/
def sparesMerge (source target : Subject) : Bool :=
  source.contributors = none ∧ source.assertedBy ≠ "" ∧
    ∀ ref ∈ source.externalIds, carriesRef env target ref →
      ∀ held ∈ target.externalIds, held.text ≠ ref.text

/-- The subjects that a fold finds spare its merge; a fold that is skipped merges nothing. -/
def foldSpared (store : Store) (fold : Fold) : Bool :=
  match getSubject env store fold.sourceId, getSubject env store fold.targetId with
  | .ok (some source), .ok (some target) => sparesMerge env source target
  | _, _ => true

/-- Every fold of a plan is spared in the store it finds. -/
def foldsSpared : Store × List SubjectsMerged → List Fold → Bool
  | _, [] => true
  | acc, fold :: folds =>
      foldSpared env acc.1 fold &&
        match applyFoldStep env acc fold with
        | .ok next => foldsSpared next folds
        | .error _ => true

end Folds

/-- A source that is recorded in full is recreated as it was. -/
theorem toSubject_sourceRecordOf {subject : Subject} (actor : String)
    (hcontributors : subject.contributors = none) (hasserted : subject.assertedBy ≠ "") :
    (sourceRecordOf subject).toSubject actor = subject := by
  obtain ⟨_, _, _, _, _, _, asserted, _, contributors⟩ := subject
  simp_all [sourceRecordOf, SourceRecord.toSubject]

/-! ### What a merge records -/

section Records

variable {env : SubjectEnv} {store store' : Store}

/-- **What the event of a merge records**: what the target gained, the particles of the sources, and
those of them that the target had. -/
theorem mergeSubjectsMany_event {sourceIds : List String} {targetId : String}
    {record : Option SourceRecord} {result : MergeResult}
    (h : mergeSubjectsMany env store sourceIds targetId record = .ok (store', result)) :
    result.event.sourceRecord = record ∧ result.event.target = result.plan.target.id ∧
      result.event.aliasesAdded = result.plan.aliasesAdded ∧
      result.event.refsCarried = result.plan.carried.map ExternalRef.text ∧
      (∀ p, p ∈ result.event.particleRefs ↔ ∃ s ∈ result.plan.sourceIds, store.Linked p s) ∧
      ∀ p, p ∈ result.event.alreadyOnTarget ↔
        store.Linked p result.plan.target.id ∧ ∃ s ∈ result.plan.sourceIds, store.Linked p s := by
  simp only [mergeSubjectsMany, bind_eq_ok] at h
  obtain ⟨plan, hplan, written, hwritten, hresult⟩ := h
  obtain ⟨-, rfl⟩ : _ = store' ∧ _ = result := by
    simpa only [pure, Except.pure, Except.ok.injEq, Prod.mk.injEq] using hresult
  have hlinks : written.subjectLinks = store.subjectLinks := by
    split_ifs at hwritten
    · rw [Except.ok.inj hwritten]
    · rw [(setAliases_spec hwritten).2.2]
  have hne := (planSubjectMerge_spec hplan).sources
  have hrows : ∀ p, (∃ row ∈ written.subjectLinks.rows.filter fun row =>
      row.subjectId ∈ plan.sourceIds, row.particleId = p) ↔
      ∃ s ∈ plan.sourceIds, store.Linked p s := by
    intro p
    rw [hlinks]
    simp only [List.mem_filter, decide_eq_true_eq]
    constructor
    · rintro ⟨⟨q, s⟩, ⟨hlink, hs⟩, rfl⟩
      exact ⟨s, hs, hlink⟩
    · rintro ⟨s, hs, hlink⟩
      exact ⟨⟨p, s⟩, ⟨hlink, hs⟩, rfl⟩
  refine ⟨rfl, rfl, rfl, rfl, fun p => ?_, fun p => ?_⟩
  · rw [← hrows]
    refine mem_rebound.trans ?_
    have hpids := relinkedPids_relinkRow plan.target.id
      (written.subjectLinks.rows.filter fun row => row.subjectId ∈ plan.sourceIds)
      ⟨written.subjectLinks, [], []⟩
    refine Iff.trans (exists_congr fun i => and_congr_left fun _ =>
      Eq.to_iff (congrArg (i ∈ ·) hpids)) ?_
    simp
  · have halready := mem_alreadyOnTarget_relinkRow
      (written.subjectLinks.rows.filter fun row => row.subjectId ∈ plan.sourceIds)
      (fun row hrow => (hne _ (by simpa using (List.mem_filter.1 hrow).2)).2)
      ⟨written.subjectLinks, [], []⟩ p
    refine Iff.trans halready ?_
    rw [hrows, hlinks]
    simp [Store.Linked]

theorem fst_splitRefs (projects : List (Option String)) (held : List (String × String))
    (refs : List ExternalRef) :
    (splitRefs env projects held refs).1 = firstByKey ExternalRef.key held (refs.filter fun ref =>
      ref.ns = env.ARTIFACT_REF_NAMESPACE ∧ env.artifactRefProject ref.id ∈ projects) := by
  suffices hfold : ∀ (refs carried withheld : List ExternalRef),
      (refs.foldl (fun acc ref =>
        if ref.ns ≠ env.ARTIFACT_REF_NAMESPACE ∨ ref.key ∈ held ++ acc.1.map ExternalRef.key then acc
        else if env.artifactRefProject ref.id ∈ projects then (acc.1 ++ [ref], acc.2)
        else (acc.1, acc.2 ++ [ref])) (carried, withheld)).1 =
      carried ++ firstByKey ExternalRef.key (held ++ carried.map ExternalRef.key)
        (refs.filter fun ref => ref.ns = env.ARTIFACT_REF_NAMESPACE ∧
          env.artifactRefProject ref.id ∈ projects) by
    have h := hfold refs [] []
    simpa [splitRefs] using h
  intro refs
  induction refs with
  | nil =>
      intro carried withheld
      simp
  | cons ref refs ih =>
      intro carried withheld
      rw [List.foldl_cons, List.filter_cons]
      by_cases hns : ref.ns = env.ARTIFACT_REF_NAMESPACE
      · by_cases hproject : env.artifactRefProject ref.id ∈ projects
        · by_cases hheld : ref.key ∈ held ++ carried.map ExternalRef.key
          · rw [if_pos (Or.inr hheld), if_pos (by simp [hns, hproject]), firstByKey_cons,
              if_pos hheld]
            exact ih carried withheld
          · rw [if_neg (by simp only [not_or, not_not]; exact ⟨hns, hheld⟩), if_pos hproject,
              if_pos (by simp [hns, hproject]), firstByKey_cons, if_neg hheld, ih]
            simp
        · rw [if_neg (by simp [hproject]) (c := decide _ = true)]
          split_ifs
          · exact ih carried withheld
          · exact ih carried _
      · rw [if_pos (Or.inl hns), if_neg (by simp [hns])]
        exact ih carried withheld

/-- **The plan of a merge of one source.** -/
theorem planSubjectMerge_one {sourceId targetId : String} {plan : SubjectMergePlan}
    (h : planSubjectMerge env store [sourceId] targetId = .ok plan) :
    ∃ source, getSubject env store sourceId = .ok (some source) ∧
      getSubject env store targetId = .ok (some plan.target) ∧ source.id ≠ plan.target.id ∧
      plan.sourceIds = [source.id] ∧
      (∀ name ∈ plan.aliasesAdded,
        env.lower name ∉ plan.target.aliases.map env.lower) ∧
      ∀ ref ∈ plan.carried, ref ∈ source.externalIds ∧ carriesRef env plan.target ref := by
  simp only [planSubjectMerge, bind_eq_ok, orRaise_eq_ok] at h
  obtain ⟨-, -, _, htarget, target, rfl, resolved, hresolved, hplan⟩ := h
  obtain rfl := Except.ok.inj hplan
  simp only [resolveSources, List.foldlM_cons, List.foldlM_nil, bind_eq_ok, orRaise_eq_ok,
    require_eq_ok, decide_eq_true_eq] at hresolved
  obtain ⟨_, ⟨_, hsource, source, rfl, -, hne, -, -, hone⟩, hlist⟩ := hresolved
  obtain rfl := Except.ok.inj hone
  obtain rfl := Except.ok.inj hlist
  refine ⟨source, hsource, htarget, hne, rfl, ?_, ?_⟩
  · intro name hname
    rw [missingNames_eq] at hname
    have hheld := (mem_firstByKey.1 hname).1
    exact fun hmem => hheld (List.mem_cons_of_mem _ hmem)
  · intro ref hcarried
    simp only [SubjectMergePlan.carried, List.nil_append, List.foldl_cons, List.foldl_nil,
      List.flatMap_cons, List.flatMap_nil, List.append_nil, fst_splitRefs] at hcarried
    obtain ⟨hheld, hfind⟩ := mem_firstByKey.1 hcarried
    have hmem := List.mem_filter.1 (List.mem_of_find?_eq_some hfind)
    obtain ⟨hns, hproject⟩ : ref.ns = env.ARTIFACT_REF_NAMESPACE ∧ _ := by simpa using hmem.2
    refine ⟨hmem.1, ?_⟩
    unfold carriesRef
    rw [decide_eq_true_eq]
    exact ⟨hns, hheld, by simpa using hproject⟩

/-- **A fold** is skipped, or merges the source it found and records it. -/
theorem applyFoldStep_spec {acc acc' : Store × List SubjectsMerged} {fold : Fold}
    (h : applyFoldStep env acc fold = .ok acc') :
    acc' = acc ∨ ∃ source target, getSubject env acc.1 fold.sourceId = .ok (some source) ∧
      getSubject env acc.1 fold.targetId = .ok (some target) ∧
      ∃ result, mergeSubjectsMany env acc.1 [fold.sourceId] fold.targetId
          (some (sourceRecordOf source)) = .ok (acc'.1, result) ∧
        acc'.2 = acc.2 ++ [result.event] := by
  simp only [applyFoldStep, bind_eq_ok] at h
  obtain ⟨found, hfound, h⟩ := h
  cases found with
  | none => exact Or.inl (Except.ok.inj h).symm
  | some source =>
      simp only [bind_eq_ok] at h
      obtain ⟨found, htarget, h⟩ := h
      cases found with
      | none => exact Or.inl (Except.ok.inj h).symm
      | some target =>
          simp only [bind_eq_ok] at h
          obtain ⟨⟨merged, result⟩, hmerged, h⟩ := h
          obtain rfl := Except.ok.inj h
          exact Or.inr ⟨source, target, hfound, htarget, result, hmerged, rfl⟩

end Records

end ParticlesEngine
