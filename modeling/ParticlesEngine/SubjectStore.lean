/-
**The subject repository.**

The writes of `store/subject_store.py` that change a subject, its aliases or its particle links.
Two tables repeat what a row already says: `subject_aliases` is an index over the aliases of the
subjects, and `particle_subjects` holds the pairs that the `subject_ids_json` of the particles
list.  Each write maintains both by hand, and within a write each statement sees the ones before.

Main definitions:

* `indexAliases`, `setAliases`, `dropAliases` — the index rows of one subject;
* `insertSubject`, `addAliases`, `deleteSubject`, `attachSubjectsInPlace`, `splitSubject` — the
  writes about one subject or one particle;
* `matchesText` — the test by which a write that takes subjects away looks for their particles;
* `planSubjectMerge`, `mergeSubjectsMany`, `restoreMergedSource` — the N→1 merge, and the undo of a
  merge of one source;
* `findByAlias`, `checkAliasIndex` — the alias lookup through the index, and its audit.
-/

import Mathlib.Data.Prod.Lex
import Mathlib.Data.String.Basic
import ParticlesEngine.JsonText
import ParticlesEngine.ParticleStore
import ParticlesEngine.SortBy

set_option relaxedAutoImplicit false
set_option autoImplicit false

open SortBy

namespace ParticlesEngine

/-- What the subject store takes from the language, the core package and the database. -/
structure SubjectEnv where
  /-- `str.lower` -/
  lower : String → String
  /-- the `LIKE` test of an id against an escaped prefix -/
  hasPrefix : String → String → Bool
  /-- the `LIKE` test that a stored text contains an escaped part -/
  contains : List Char → String → Bool
  ARTIFACT_REF_NAMESPACE : String
  artifactRefProject : String → Option String

/-! ### Rows -/

/-- Update in place the row of a subject, keeping its id. -/
def Store.modifySubject (store : Store) (subjectId : String) (f : Subject → Subject)
    (hid : ∀ subject, (f subject).id = subject.id) : Store :=
  { store with subjects := store.subjects.modify subjectId f hid }

/-- The row of a subject with other aliases. -/
def Subject.withAliases (aliases : List String) (subject : Subject) : Subject :=
  { subject with aliases := aliases }

theorem Subject.id_withAliases (aliases : List String) (subject : Subject) :
    (subject.withAliases aliases).id = subject.id := rfl

/-- The row of a subject with other external refs. -/
def Subject.withRefs (f : List ExternalRef → List ExternalRef) (subject : Subject) : Subject :=
  { subject with externalIds := f subject.externalIds }

theorem Subject.id_withRefs (f : List ExternalRef → List ExternalRef) (subject : Subject) :
    (subject.withRefs f).id = subject.id := rfl

/-- The row of a particle with other subject ids. -/
def ParticleRow.withSubjectIds (f : List String → List String) (row : ParticleRow) : ParticleRow :=
  { row with model := { row.model with subjectIds := f row.model.subjectIds } }

theorem ParticleRow.id_withSubjectIds (f : List String → List String) (row : ParticleRow) :
    (row.withSubjectIds f).id = row.id := rfl

theorem ParticleRow.rowid_withSubjectIds (f : List String → List String) (row : ParticleRow) :
    (row.withSubjectIds f).rowid = row.rowid := rfl

/-- Rewrite the subject ids of one particle. -/
def Store.modifySubjectIds (store : Store) (particleId : String)
    (f : List String → List String) : Store :=
  store.modifyParticle particleId (·.withSubjectIds f) (ParticleRow.id_withSubjectIds f)
    (ParticleRow.rowid_withSubjectIds f)

/-- Rewrite the subject ids of every particle. -/
def Store.modifyAllSubjectIds (store : Store) (f : List String → List String) : Store :=
  let particles := store.particles.modifyAll (·.withSubjectIds f)
    (ParticleRow.id_withSubjectIds f) (ParticleRow.rowid_withSubjectIds f)
  { store with particles := particles }

/-- The subject ids of a particle, each renamed, the first of two equal ones kept. -/
def rebound (rename : String → String) (ids : List String) : List String :=
  ids.foldl (fun new i => if rename i ∈ new then new else new ++ [rename i]) []

/-- A subject id appended to the ids of a particle, unless it is there. -/
def appendMissing (subjectId : String) (ids : List String) : List String :=
  if subjectId ∈ ids then ids else ids ++ [subjectId]

/-- One subject of a particle replaced by another. -/
def replaceId (old new : String) (ids : List String) : List String :=
  rebound (fun i => if i = old then new else i) ids

/-- A link between a particle and a subject, unless there is one. -/
def linkParticle (links : Table ParticleSubjectRow.key) (particleId subjectId : String) :
    Table ParticleSubjectRow.key :=
  links.insertIfAbsent ⟨particleId, subjectId⟩

/-- The deletion of a link. -/
def unlinkParticle (links : Table ParticleSubjectRow.key) (particleId subjectId : String) :
    Table ParticleSubjectRow.key :=
  links.filter fun link => link ≠ ⟨particleId, subjectId⟩

/-- `session.get` of a link. -/
def isLinked (links : Table ParticleSubjectRow.key) (particleId subjectId : String) : Bool :=
  (links.get? (particleId, subjectId)).isSome

section Env

variable (env : SubjectEnv)

/-! ### The alias index -/

/-- `alias_key`. -/
def aliasKey (name : String) : String := env.lower name

/-- `_alias_index_rows`: one row per key, the first spelling kept. -/
def aliasIndexRows (subjectId : String) (aliases : List String) : List SubjectAliasRow :=
  aliases.foldl (fun rows spelling =>
    if aliasKey env spelling ∈ rows.map SubjectAliasRow.aliasKey then rows
    else rows ++ [⟨subjectId, aliasKey env spelling, spelling⟩]) []

/-- `_index_aliases`: replace the index rows of one subject. -/
def indexAliases (store : Store) (subjectId : String) (aliases : List String) :
    Except StoreError Store := do
  let kept := store.aliasRows.filter fun row => row.subjectId ≠ subjectId
  let aliasRows ← insertAll kept (aliasIndexRows env subjectId aliases)
  return { store with aliasRows := aliasRows }

/-- `_set_aliases`: write the aliases of a subject and its index rows together. -/
def setAliases (store : Store) (subjectId : String) (aliases : List String) :
    Except StoreError Store :=
  let store := store.modifySubject subjectId (·.withAliases aliases)
    (Subject.id_withAliases aliases)
  indexAliases env store subjectId aliases

/-- `drop_aliases`: delete the index rows of subjects that are deleted. -/
def dropAliases (store : Store) (subjectIds : List String) : Store :=
  { store with aliasRows := store.aliasRows.filter fun row => row.subjectId ∉ subjectIds }

/-- The order in which subjects with one name are tried: earliest first. -/
def subjectOrder (subject : Subject) : Instant ×ₗ String := toLex (subject.createdAt, subject.id)

/-- `_rows_with_alias`: the subjects joined to the index rows of a folded name, earliest first. -/
def rowsWithAlias (store : Store) (name : String) : List Subject :=
  sortBy subjectOrder <| store.subjects.rows.flatMap fun subject =>
    (store.aliasRows.rows.filter fun row =>
      row.subjectId = subject.id ∧ row.aliasKey = aliasKey env name).map fun _ => subject

/-- The alias tier of `find_by_name`: the first subject with the alias, those whose canonical name
is in `skip_aliases_of` passed over. -/
def findByAlias (store : Store) (name : String) (skipAliasesOf : List String) : Option Subject :=
  (rowsWithAlias env store name).find? fun subject =>
    env.lower subject.canonicalName ∉ skipAliasesOf.map env.lower

/-- The index rows that the aliases of the subjects derive, as `_expected_alias_rows` collects
them. -/
def expectedAliasRows (store : Store) : List SubjectAliasRow :=
  store.subjects.rows.flatMap fun subject => aliasIndexRows env subject.id subject.aliases

/-- How the alias index differs from what the aliases derive. -/
structure AliasIndexDrift where
  missing : ℕ
  extra : ℕ
  orphaned : ℕ
  deriving DecidableEq, Repr

/-- `AliasIndexDrift.clean`. -/
def AliasIndexDrift.clean (drift : AliasIndexDrift) : Bool :=
  drift.missing = 0 ∧ drift.extra = 0 ∧ drift.orphaned = 0

/-- `check_alias_index`. -/
def checkAliasIndex (store : Store) : AliasIndexDrift :=
  let expected := expectedAliasRows env store
  let surplus := store.aliasRows.rows.filter (· ∉ expected)
  let orphaned := surplus.filter fun row => row.subjectId ∉ store.subjects.rows.map Subject.id
  { missing := (expected.filter (· ∉ store.aliasRows.rows)).length
    extra := surplus.length - orphaned.length
    orphaned := orphaned.length }

/-! ### One subject -/

/-- **`insert_subject`.** -/
def insertSubject (store : Store) (subject : Subject) : Except StoreError Store := do
  let subjects ← orRaise (store.subjects.insert? subject) .integrity
  indexAliases env { store with subjects := subjects } subject.id subject.aliases

/-- The subject that a prefix matched, when it matched one only. -/
def onlyMatch (subjectId : String) : List Subject → Except StoreError (Option Subject)
  | [] => .ok none
  | [subject] => .ok (some subject)
  | _ => .error (.ambiguousSubject subjectId)

/-- `get_subject`: by full id, or by a prefix of one id only. -/
def getSubject (store : Store) (subjectId : String) : Except StoreError (Option Subject) :=
  match store.subjects.get? subjectId with
  | some subject => .ok (some subject)
  | none => onlyMatch subjectId (store.subjects.rows.filter (env.hasPrefix subjectId ·.id))

/-- **`add_aliases`**: the store, the updated subject and the names that were added. -/
def addAliases (store : Store) (subjectId : String) (newAliases : List String) :
    Except StoreError (Store × Subject × List String) := do
  let subject ← orRaise (store.subjects.get? subjectId) (.subjectNotFound subjectId)
  let existingLower := env.lower subject.canonicalName :: subject.aliases.map env.lower
  let added := newAliases.filter fun name => env.lower name ∉ existingLower
  let aliases := subject.aliases ++ added
  let store ← (if added = [] then .ok store else setAliases env store subjectId aliases)
  return (store, subject.withAliases aliases, added)

/-- The rows that a write which takes subjects away reads: the test is on the JSON text of
`subject_ids_json`, in which an id may be spelled otherwise. -/
def matchesText (subjectIds ids : List String) : Bool :=
  subjectIds.any (env.contains (JsonText.dumpTexts ids))

/-- The subject ids of a particle after the deletion of a subject. -/
def detachedIds (subjectId : String) (ids : List String) : List String :=
  if matchesText env [subjectId] ids then ids.filter (· ≠ subjectId) else ids

/-- **`delete_subject`**: the store, the deleted subject and how many particles it left. -/
def deleteSubject (store : Store) (subjectId : String) :
    Except StoreError (Store × Subject × ℕ) := do
  let subject ← orRaise (store.subjects.get? subjectId) (.subjectNotFound subjectId)
  let detached := store.getParticlesForSubject subjectId
  let links := store.subjectLinks.filter fun link => link.subjectId ≠ subjectId
  let store := { store with subjectLinks := links }
  let store := store.modifyAllSubjectIds (detachedIds env subjectId)
  let subjects := store.subjects.filter fun other => other.id ≠ subjectId
  let store := dropAliases { store with subjects := subjects } [subjectId]
  return (store, subject, detached.length)

/-! ### The links of a particle -/

/-- **`attach_subjects_in_place`**: the store and the subjects linked to a particle without any. -/
def attachSubjectsInPlace (store : Store) (particleId : String) (subjectIds : List String) :
    Except StoreError (Store × List String) := do
  let ids := rebound id subjectIds
  require (ids ≠ []) .noSubjects
  let row ← orRaise (store.get? particleId) (.notFound particleId)
  require (store.subjectLinks.rows.all (·.particleId ≠ particleId) ∧ row.model.subjectIds = [])
    (.alreadyLinked particleId)
  let links ← ids.foldlM (fun links sid => do
    require (store.subjects.get? sid).isSome (.subjectNotFound sid)
    orRaise (links.insert? ⟨particleId, sid⟩) .integrity) store.subjectLinks
  let store := { store with subjectLinks := links }
  return (store.modifySubjectIds particleId fun _ => ids, ids)

/-- One particle of `split_subject`, bound to the source or not. -/
def splitParticle (sourceId newSubjectId : String) (acc : Store × List String × List String)
    (particleId : String) : Store × List String × List String :=
  let (store, relinked, notBound) := acc
  if isLinked store.subjectLinks particleId sourceId then
    let links := unlinkParticle store.subjectLinks particleId sourceId
    let store := { store with subjectLinks := linkParticle links particleId newSubjectId }
    (store.modifySubjectIds particleId (replaceId sourceId newSubjectId),
      relinked ++ [particleId], notBound)
  else (store, relinked, notBound ++ [particleId])

/-- **`split_subject`**: the store, the particles relinked and those not bound to the source. -/
def splitSubject (store : Store) (sourceId newSubjectId : String) (particleIds : List String) :
    Except StoreError (Store × List String × List String) := do
  require (sourceId ≠ newSubjectId) (.sameSubject sourceId)
  let _ ← orRaise (store.subjects.get? sourceId) (.subjectNotFound sourceId)
  let _ ← orRaise (store.subjects.get? newSubjectId) (.subjectNotFound newSubjectId)
  return particleIds.foldl (splitParticle sourceId newSubjectId) (store, [], [])

/-! ### Merges -/

/-- One source of a merge. -/
structure MergeSourcePlan where
  subjectId : String
  canonicalName : String
  particleIds : List String
  /-- the artifact refs the target gains -/
  refsCarried : List ExternalRef
  /-- the artifact refs of another project -/
  refsWithheld : List ExternalRef
  deriving DecidableEq, Repr

/-- What an N→1 merge will do. -/
structure SubjectMergePlan where
  target : Subject
  sources : List MergeSourcePlan
  aliasesAdded : List String
  deriving DecidableEq, Repr

/-- The identity of a ref. -/
def ExternalRef.key (ref : ExternalRef) : String × String := (ref.ns, ref.id)

/-- The identity of a ref as the text that an event records. -/
def ExternalRef.text (ref : ExternalRef) : String := ref.ns ++ ":" ++ ref.id

/-- The sources of a merge, each checked before anything is written. -/
def resolveSources (store : Store) (target : Subject) (sourceIds : List String) :
    Except StoreError (List Subject) :=
  sourceIds.foldlM (fun resolved sid => do
    let source ← getSubject env store sid
    let source ← orRaise source (.subjectNotFound sid)
    require (source.id ≠ target.id) (.sourceIsTarget source.id)
    require (source.id ∉ resolved.map Subject.id) (.repeatedSource source.id)
    return resolved ++ [source]) []

/-- The names that none of `held` folds to, the first of two that fold alike. -/
def missingNames (held : List String) (names : List String) : List String :=
  names.foldl (fun added name =>
    if env.lower name ∈ held ++ added.map env.lower then added else added ++ [name]) []

/-- The artifact refs of a source: those the target gains, and those of another project. -/
def splitRefs (projects : List (Option String)) (held : List (String × String))
    (refs : List ExternalRef) : List ExternalRef × List ExternalRef :=
  refs.foldl (fun acc ref =>
    if ref.ns ≠ env.ARTIFACT_REF_NAMESPACE ∨ ref.key ∈ held ++ acc.1.map ExternalRef.key then acc
    else if env.artifactRefProject ref.id ∈ projects then (acc.1 ++ [ref], acc.2)
    else (acc.1, acc.2 ++ [ref])) ([], [])

/-- **`plan_subject_merge`.** -/
def planSubjectMerge (store : Store) (sourceIds : List String) (targetId : String) :
    Except StoreError SubjectMergePlan := do
  require (sourceIds ≠ []) .noSources
  let target ← getSubject env store targetId
  let target ← orRaise target (.subjectNotFound targetId)
  let resolved ← resolveSources env store target sourceIds
  let held := env.lower target.canonicalName :: target.aliases.map env.lower
  let names := resolved.flatMap fun source => source.canonicalName :: source.aliases
  let heldRefs := target.externalIds.map ExternalRef.key
  let artifactRefs := target.externalIds.filter (·.ns = env.ARTIFACT_REF_NAMESPACE)
  let projects := artifactRefs.map (env.artifactRefProject ·.id)
  let plans := resolved.foldl (fun plans source =>
    let carriedSoFar := plans.flatMap fun plan => plan.refsCarried.map ExternalRef.key
    let split := splitRefs env projects (heldRefs ++ carriedSoFar) source.externalIds
    plans ++ [⟨source.id, source.canonicalName, store.getParticlesForSubject source.id,
      split.1, split.2⟩]) []
  return ⟨target, plans, missingNames env held names⟩

/-- A source of a fold, as its event records it. -/
structure SourceRecord where
  id : String
  canonicalName : String
  description : Option String
  aliases : List String
  externalIds : List ExternalRef
  subjectClass : Option String
  assertedBy : String
  createdAt : Instant
  deriving DecidableEq, Repr

/-- The `SUBJECTS_MERGED` event of a merge. -/
structure SubjectsMerged where
  /-- the PARTICLE refs, each once -/
  particleRefs : List String
  aliasesAdded : List String
  relinked : ℕ
  sources : List String
  sourceNames : List String
  target : String
  refsCarried : List String
  alreadyOnTarget : List String
  /-- an artifact fold records its source -/
  sourceRecord : Option SourceRecord
  deriving DecidableEq, Repr

/-- The join rows while the sources of a merge are relinked. -/
structure Relinking where
  links : Table ParticleSubjectRow.key
  relinkedPids : List String
  alreadyOnTarget : List String

/-- One join row of a source, re-pointed to the target. -/
def relinkRow (targetId : String) (acc : Relinking) (row : ParticleSubjectRow) : Relinking where
  links := unlinkParticle (linkParticle acc.links row.particleId targetId) row.particleId
    row.subjectId
  relinkedPids := acc.relinkedPids ++ [row.particleId]
  alreadyOnTarget :=
    if isLinked acc.links row.particleId targetId ∧ row.particleId ∉ acc.relinkedPids then
      acc.alreadyOnTarget ++ [row.particleId]
    else acc.alreadyOnTarget

/-- The join rows of the sources re-pointed to the target. -/
def relinkSources (links : Table ParticleSubjectRow.key) (sourceSet : List String)
    (targetId : String) : Relinking :=
  (links.rows.filter (·.subjectId ∈ sourceSet)).foldl (relinkRow targetId) ⟨links, [], []⟩

/-- The subject ids of a particle after a merge: one that named two merged subjects names the target
once, and one that named none is left. -/
def mergedIds (sourceSet : List String) (targetId : String) (ids : List String) : List String :=
  if matchesText env sourceSet ids = true ∧ ∃ i ∈ ids, i ∈ sourceSet then
    rebound (fun i => if i ∈ sourceSet then targetId else i) ids
  else ids

/-- What a merge returns, and the event that records it. -/
structure MergeResult where
  subject : Subject
  plan : SubjectMergePlan
  event : SubjectsMerged
  deriving DecidableEq, Repr

/-- **`merge_subjects_many`.** -/
def mergeSubjectsMany (store : Store) (sourceIds : List String) (targetId : String)
    (sourceRecord : Option SourceRecord) : Except StoreError (Store × MergeResult) := do
  let plan ← planSubjectMerge env store sourceIds targetId
  let targetId := plan.target.id
  let sourceSet := plan.sources.map MergeSourcePlan.subjectId
  let aliases := plan.target.aliases ++ plan.aliasesAdded
  let store ← (if plan.aliasesAdded = [] then .ok store
    else setAliases env store targetId aliases)
  let carried := plan.sources.flatMap MergeSourcePlan.refsCarried
  let store := store.modifySubject targetId (·.withRefs (· ++ carried))
    (Subject.id_withRefs (· ++ carried))
  let relinking := relinkSources store.subjectLinks sourceSet targetId
  let store := { store with subjectLinks := relinking.links }
  let store := store.modifyAllSubjectIds (mergedIds env sourceSet targetId)
  let store := { store with subjects := store.subjects.filter fun other => other.id ∉ sourceSet }
  let event : SubjectsMerged := {
    particleRefs := rebound id relinking.relinkedPids
    aliasesAdded := plan.aliasesAdded
    relinked := (plan.sources.map fun source => source.particleIds.length).sum
    sources := sourceSet
    sourceNames := plan.sources.map MergeSourcePlan.canonicalName
    target := targetId
    refsCarried := carried.map ExternalRef.text
    alreadyOnTarget := relinking.alreadyOnTarget
    sourceRecord := sourceRecord }
  let target := (plan.target.withAliases aliases).withRefs (· ++ carried)
  return (dropAliases store sourceSet, ⟨target, plan, event⟩)

/-- One particle of `restore_merged_source`, moved back onto the source. -/
def restoreParticle (sourceId targetId : String) (keep : List String) (acc : Store × List String)
    (particleId : String) : Store × List String :=
  let (store, relinked) := acc
  match store.get? particleId with
  | none => acc
  | some _ =>
      let links := linkParticle store.subjectLinks particleId sourceId
      if particleId ∈ keep then
        let store := { store with subjectLinks := links }
        (store.modifySubjectIds particleId (appendMissing sourceId), relinked ++ [particleId])
      else
        let store := { store with subjectLinks := unlinkParticle links particleId targetId }
        (store.modifySubjectIds particleId fun ids =>
          appendMissing sourceId (replaceId targetId sourceId ids), relinked ++ [particleId])

/-- **`restore_merged_source`**: the store, and the particles relinked to the source. -/
def restoreMergedSource (store : Store) (source : Subject) (targetId : String)
    (particleIds keepOnTarget aliasesAdded refsCarried : List String) :
    Except StoreError (Store × List String) := do
  require (store.subjects.get? source.id).isNone (.subjectExists source.id)
  let target ← orRaise (store.subjects.get? targetId) (.subjectNotFound targetId)
  let store ← insertSubject env store source
  let dropLower := aliasesAdded.map env.lower
  let store ← setAliases env store targetId
    (target.aliases.filter fun name => env.lower name ∉ dropLower)
  let keepRefs (refs : List ExternalRef) := refs.filter (·.text ∉ refsCarried)
  let store := store.modifySubject targetId (·.withRefs keepRefs) (Subject.id_withRefs keepRefs)
  return particleIds.foldl (restoreParticle source.id targetId keepOnTarget) (store, [])

end Env

end ParticlesEngine
