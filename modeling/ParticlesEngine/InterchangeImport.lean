/-
**Importing an untrusted bundle.**

A bundle is bytes its author chose, and a reader takes authority from many fields of a particle: its
asserter, its contributors, its tags, its calibration, its modality and routing properties, and the
ids of entries, snapshots and predecessors.  The import rewrites each of them to a claimed form before
the particle is reconciled with the store.

Main definitions:

* `BundleParticle` — a particle as a bundle gives it;
* `targetRecords`, `neutraliseParticle` — the ids that are this store's, and the rewrite;
* `resolveSnapshotForBlob`, `passageSource` — what the passage behind a particle is read from;
* `BorrowsNothing`, `StaysReadable` — no authority is left, and each claimed value is still there;
* `Unborrowed` — what the fields of a bundle must not already name.

Main results:

* `neutraliseParticle_again` — a second rewrite changes nothing;
* `borrowsNothing_iff` — **an import borrows no authority exactly when no kept id resolves here and no
  calibration is claimed**.
-/

import ParticlesEngine.DuplicateSuppression
import ParticlesEngine.SortBy

set_option relaxedAutoImplicit false
set_option autoImplicit false

open SortBy

namespace ParticlesEngine

/-! ### Bundles -/

/-- How the confidence of a particle was set. -/
inductive CalibrationSource where
  | EXTRACTOR_DIRECT
  | HUMAN_REVIEW
  | AGENT_ASSERTED
  | IMPORTED
  | DERIVED
  | CALIBRATED_BENCHMARK
  deriving DecidableEq, Repr

/-- The JSON text of a calibration source. -/
def CalibrationSource.json : CalibrationSource → String
  | EXTRACTOR_DIRECT => "\"EXTRACTOR_DIRECT\""
  | HUMAN_REVIEW => "\"HUMAN_REVIEW\""
  | AGENT_ASSERTED => "\"AGENT_ASSERTED\""
  | IMPORTED => "\"IMPORTED\""
  | DERIVED => "\"DERIVED\""
  | CALIBRATED_BENCHMARK => "\"CALIBRATED_BENCHMARK\""

/-- The JSON text of a modality. -/
def AssertionModality.json : AssertionModality → String
  | FALSIFIABLE => "\"FALSIFIABLE\""
  | EVALUATIVE => "\"EVALUATIVE\""
  | EXPERIENTIAL => "\"EXPERIENTIAL\""
  | CONSTITUTIVE => "\"CONSTITUTIVE\""

/-- A particle as the codec decodes it from a unit. -/
structure BundleParticle extends Particle where
  calibrationSource : CalibrationSource := .EXTRACTOR_DIRECT
  contributors : Option (List ContributorRef) := none
  deriving DecidableEq

/-- What the import reads of the configuration and of other packages.  The routing readers look at one
property each. -/
structure ImportEnv where
  /-- `mcp.write.asserter_identity` -/
  writeAsserter : String
  /-- `mcp.memory_compat.asserter_identity` -/
  compatAsserter : String
  MIGRATION_TAG : String
  REANCHOR_ACTOR : String
  /-- whether the value of the scope property puts a claim off the conflict surface -/
  isExcludedDocumentMeta : Option String → Bool
  /-- whether the value of the polarity property does -/
  isNonAsserted : Option String → Bool
  /-- the `LIKE` test of an id against an escaped prefix -/
  hasPrefix : String → String → Bool
  meta_none : isExcludedDocumentMeta none = false
  asserted_none : isNonAsserted none = false

def IMPORT_ASSERTER : String := "interchange-import"

def CLAIMED_TAG_PREFIX : String := "interchange-claimed:"

def ORIGIN_REF_PREFIX : String := "interchange-origin:"

def MCP_ASSERTER_PREFIX : String := "mcp:"

def SCOPE_KEY : String := "extraction:scope"

def POLARITY_KEY : String := "extraction:polarity"

def CLAIMED_MODALITY_KEY : String := CLAIMED_TAG_PREFIX ++ "assertion_modality"

def ROUTING_PROPERTY_KEYS : List String := [SCOPE_KEY, POLARITY_KEY]

def RESERVED_CALIBRATIONS : List CalibrationSource := [.HUMAN_REVIEW, .AGENT_ASSERTED]

/-- `properties.get(key)`. -/
def property? (properties : Properties) (key : String) : Option String :=
  (properties.find? fun entry => entry.1 = key).map Prod.snd

/-- A property moved under its claimed key. -/
def claimProperty (properties : Properties) (key : String) : Properties :=
  match property? properties key with
  | none => properties
  | some value =>
      setProperty (properties.filter fun entry => entry.1 ≠ key) (CLAIMED_TAG_PREFIX ++ key) value

/-! ### The rewrites -/

section Env

variable (env : ImportEnv)

namespace ImportEnv

/-- `_reserved_asserters`. -/
def reservedAsserters : List String := [env.writeAsserter, env.compatAsserter]

/-- `_is_reserved_asserter`. -/
def isReservedAsserter (assertedBy : String) : Bool :=
  assertedBy ∈ env.reservedAsserters || assertedBy.startsWith MCP_ASSERTER_PREFIX

/-- `RESERVED_TAGS`. -/
def reservedTags : List String := [env.MIGRATION_TAG]

/-- `skips_conflict_resolution`. -/
def skipsConflictResolution (properties : Properties) : Bool :=
  env.isExcludedDocumentMeta (property? properties SCOPE_KEY) ||
    env.isNonAsserted (property? properties POLARITY_KEY)

end ImportEnv

/-- `_restamp_asserter`: the claimed asserter becomes an author. -/
def restampAsserter (assertedBy : String) (contributors : Option (List ContributorRef))
    (assertedAt : Instant) : String × Option (List ContributorRef) :=
  if assertedBy = IMPORT_ASSERTER then (IMPORT_ASSERTER, contributors)
  else (IMPORT_ASSERTER, some (contributors.getD [] ++ [⟨assertedBy, "author", some assertedAt⟩]))

/-- A reserved tag under its claimed form. -/
def claimTag (t : String) : String := if t ∈ env.reservedTags then CLAIMED_TAG_PREFIX ++ t else t

/-- `_restamp_reserved_tags`. -/
def restampReservedTags (tags : List String) : Option (List String) :=
  if tags.any (· ∈ env.reservedTags) then some (tags.map (claimTag env)) else none

/-- The re-anchor contributor under its claimed form. -/
def claimContributor (c : ContributorRef) : ContributorRef :=
  if c.id = env.REANCHOR_ACTOR then { c with id := CLAIMED_TAG_PREFIX ++ c.id } else c

/-- `_restamp_reserved_contributors`. -/
def restampReservedContributors (contributors : Option (List ContributorRef)) :
    Option (List ContributorRef) :=
  if (contributors.getD []).any (·.id = env.REANCHOR_ACTOR) then
    some ((contributors.getD []).map (claimContributor env))
  else none

/-- `_claimed_routing`. -/
def claimedRouting (p : BundleParticle) : Option Properties :=
  let exempt := env.skipsConflictResolution p.properties
  let modal := p.assertionModality ≠ .FALSIFIABLE
  if ¬ exempt ∧ ¬ modal then none
  else
    let properties :=
      if exempt then ROUTING_PROPERTY_KEYS.foldl claimProperty p.properties else p.properties
    some (if modal then setProperty properties CLAIMED_MODALITY_KEY p.assertionModality.json
      else properties)

end Env

/-- The ids of a batch that are records of the target store. -/
structure TargetRecords where
  entryIds : List String
  particleIds : List String

/-- An id that an import prefixed before is not looked up. -/
def isOrigin (id : String) : Bool := id.startsWith ORIGIN_REF_PREFIX

/-- **`_target_records`.** -/
def targetRecords (store : Store) (particles : List BundleParticle) : TargetRecords :=
  let refs := (particles.flatMap fun p => p.provenance).filter fun ref => !isOrigin ref.corpusEntryId
  let predecessors := (particles.filterMap fun p => p.supersedes).filter fun id => !isOrigin id
  let particleIds := predecessors ++
    (refs.filter fun ref => ref.type = .PARTICLE).map ProvenanceRef.corpusEntryId
  let entryIds := (refs.filter fun ref => ref.type ≠ .PARTICLE).map ProvenanceRef.corpusEntryId
  { entryIds := entryIds.filter fun id => (store.entries.get? id).isSome
    particleIds := particleIds.filter fun id => (store.get? id).isSome }

/-- A ref under its origin form. -/
def ProvenanceRef.asOrigin (ref : ProvenanceRef) : ProvenanceRef :=
  { ref with
    corpusEntryId := ORIGIN_REF_PREFIX ++ ref.corpusEntryId
    snapshotId := (ref.snapshotId.filter (· ≠ "")).map (ORIGIN_REF_PREFIX ++ ·) }

namespace TargetRecords

variable (targets : TargetRecords)

/-- `_names_target`. -/
def namesTarget (ref : ProvenanceRef) : Bool :=
  ref.corpusEntryId ∈ if ref.type = .PARTICLE then targets.particleIds else targets.entryIds

/-- `_reanchor_refs`. -/
def reanchorRefs (provenance : List ProvenanceRef) : Option (List ProvenanceRef) :=
  if provenance.any targets.namesTarget then
    some (provenance.map fun ref => if targets.namesTarget ref then ref.asOrigin else ref)
  else none

end TargetRecords

/-- What the rewrite changed on one particle. -/
structure Neutralised where
  restamped : Bool := false
  retagged : Bool := false
  reanchored : Bool := false
  recalibrated : Bool := false
  deriving DecidableEq, Repr

/-- **`_neutralise_particle`.** -/
def neutraliseParticle (env : ImportEnv) (particle : BundleParticle) (targets : TargetRecords) :
    BundleParticle × Neutralised :=
  let (assertedBy, contributors) :=
    restampAsserter particle.assertedBy particle.contributors particle.assertedAt
  let restamped := restampReservedContributors env contributors
  let retagged := restampReservedTags env particle.tags
  let reanchored := targets.reanchorRefs particle.provenance
  -- a predecessor of this store
  let successor := particle.supersedes.any (· ∈ targets.particleIds)
  let claimed := claimedRouting env particle
  let recalibrated := particle.calibrationSource ∈ RESERVED_CALIBRATIONS
  ({ particle with
      assertedBy := assertedBy
      contributors := restamped.or contributors
      tags := retagged.getD particle.tags
      provenance := reanchored.getD particle.provenance
      supersedes :=
        if successor then particle.supersedes.map (ORIGIN_REF_PREFIX ++ ·) else particle.supersedes
      properties := claimed.getD particle.properties
      assertionModality := if claimed.isSome then .FALSIFIABLE else particle.assertionModality
      calibrationSource := if recalibrated then .IMPORTED else particle.calibrationSource },
    { restamped := (particle.assertedBy ≠ IMPORT_ASSERTER ∧
        env.isReservedAsserter particle.assertedBy) ∨ restamped.isSome
      retagged := retagged.isSome
      reanchored := reanchored.isSome || successor
      recalibrated := recalibrated })

/-! ### What a passage is read from -/

/-- More than one record has the prefix. -/
inductive SelectorError where
  | ambiguousSnapshot (selector : String) (snapshots : ℕ)
  | ambiguousEntry (selector : String) (entries : ℕ)
  deriving DecidableEq, Repr

/-- The newest snapshot of an entry. -/
def latestSnapshot (store : Store) (entryId : String) : Option SnapshotRow :=
  (sortBy (fun row => OrderDual.toDual row.capturedAt)
    (store.snapshots.rows.filter fun row => row.entryId = entryId)).head?

/-- `resolve_snapshot_for_blob`: a snapshot id or a prefix of one, else an entry id or a prefix of one
and that entry's newest snapshot. -/
def resolveSnapshotForBlob (env : ImportEnv) (store : Store) (selector : String) :
    Except SelectorError (Option SnapshotRow) :=
  match store.snapshots.get? selector with
  | some snapshot => .ok (some snapshot)
  | none =>
      match store.snapshots.rows.filter fun row => env.hasPrefix selector row.snapshotId with
      | [snapshot] => .ok (some snapshot)
      | [] =>
          match store.entries.get? selector with
          | some entry => .ok (latestSnapshot store entry.entryId)
          | none =>
              match store.entries.rows.filter fun row => env.hasPrefix selector row.entryId with
              | [] => .ok none
              | [entry] => .ok (latestSnapshot store entry.entryId)
              | entries => .error (.ambiguousEntry selector entries.length)
      | snapshots => .error (.ambiguousSnapshot selector snapshots.length)

/-- `_source_ref`: the first SOURCE ref that names something. -/
def BundleParticle.passageRef (p : BundleParticle) : Option ProvenanceRef :=
  p.provenance.find? fun ref => ref.type = .SOURCE && ref.corpusEntryId ≠ ""

/-- The entry and the snapshot that `hydrate_source_passage` reads. -/
def passageSource (env : ImportEnv) (store : Store) (p : BundleParticle) :
    Except SelectorError (Option CorpusEntryRow × Option SnapshotRow) :=
  match p.passageRef with
  | none => .ok (none, none)
  | some ref => do
      let snapshot ← match ref.snapshotId.filter (· ≠ "") with
        | some snapshotId => .ok (store.snapshots.get? snapshotId)
        | none => resolveSnapshotForBlob env store ref.corpusEntryId
      return (store.entries.get? ref.corpusEntryId, snapshot)

/-! ### What an import must leave -/

/-- The id of the ref, read as what its kind names, or its snapshot id is a record of the store. -/
def ProvenanceRef.Resolves (store : Store) (ref : ProvenanceRef) : Prop :=
  (if ref.type = .PARTICLE then (store.get? ref.corpusEntryId).isSome
    else (store.entries.get? ref.corpusEntryId).isSome) ∨
  ∃ snapshotId ∈ ref.snapshotId, snapshotId ≠ "" ∧ (store.snapshots.get? snapshotId).isSome

/-- **No authority is left** on a particle that came in. -/
structure BorrowsNothing (env : ImportEnv) (store : Store) (p : BundleParticle) : Prop where
  asserter : env.isReservedAsserter p.assertedBy = false
  tags : ∀ t ∈ p.tags, t ∉ env.reservedTags
  contributors : ∀ c ∈ p.contributors.getD [], c.id ≠ env.REANCHOR_ACTOR
  calibration : p.calibrationSource ∉ RESERVED_CALIBRATIONS
  modality : p.assertionModality = .FALSIFIABLE
  properties : env.skipsConflictResolution p.properties = false
  refs : ∀ ref ∈ p.provenance, ¬ ref.Resolves store
  predecessor : ∀ id, p.supersedes = some id → store.get? id = none
  passage : ∀ shown, passageSource env store p = .ok shown → shown = (none, none)

/-- The key of a claimed calibration, as the key of a claimed modality is made. -/
def CLAIMED_CALIBRATION_KEY : String := CLAIMED_TAG_PREFIX ++ "calibration_source"

/-- An id is kept, or kept under its origin form. -/
def KeptId (id kept : String) : Prop := kept = id ∨ kept = ORIGIN_REF_PREFIX ++ id

/-- **Each claimed value is still there**, as it was or under its claimed form. -/
structure StaysReadable (env : ImportEnv) (p q : BundleParticle) : Prop where
  asserter : p.assertedBy = IMPORT_ASSERTER ∨ ∃ c ∈ q.contributors.getD [],
    c.role = "author" ∧ (c.id = p.assertedBy ∨ c.id = CLAIMED_TAG_PREFIX ++ p.assertedBy)
  contributors : ∀ c ∈ p.contributors.getD [], ∃ c' ∈ q.contributors.getD [],
    c'.role = c.role ∧ c'.addedAt = c.addedAt ∧ (c'.id = c.id ∨ c'.id = CLAIMED_TAG_PREFIX ++ c.id)
  tags : q.tags = p.tags.map (claimTag env)
  modality : q.assertionModality = p.assertionModality ∨
    property? q.properties CLAIMED_MODALITY_KEY = some p.assertionModality.json
  routing : ∀ key ∈ ROUTING_PROPERTY_KEYS, ∀ value, property? p.properties key = some value →
    property? q.properties key = some value ∨
      property? q.properties (CLAIMED_TAG_PREFIX ++ key) = some value
  calibration : q.calibrationSource = p.calibrationSource ∨
    property? q.properties CLAIMED_CALIBRATION_KEY = some p.calibrationSource.json
  refs : List.Forall₂ (fun ref kept => kept.type = ref.type ∧ KeptId ref.corpusEntryId kept.corpusEntryId ∧
    ∀ snapshotId ∈ ref.snapshotId, snapshotId ≠ "" →
      ∃ kept' ∈ kept.snapshotId, KeptId snapshotId kept') p.provenance q.provenance
  predecessor : ∀ id, p.supersedes = some id → ∃ kept, q.supersedes = some kept ∧ KeptId id kept

/-- The id of a ref names a record of the store, and was not prefixed before. -/
def ProvenanceRef.namesRecord (store : Store) (ref : ProvenanceRef) : Bool :=
  !isOrigin ref.corpusEntryId &&
    if ref.type = .PARTICLE then (store.get? ref.corpusEntryId).isSome
    else (store.entries.get? ref.corpusEntryId).isSome

/-- **What a bundle must not already name.** -/
structure Unborrowed (env : ImportEnv) (store : Store) (p : BundleParticle) : Prop where
  /-- the identity that the import writes under is not reserved -/
  asserter : IMPORT_ASSERTER ∉ env.reservedAsserters
  /-- no operator's or agent's calibration is claimed, unless a claimed property says it too -/
  calibration : p.calibrationSource ∈ RESERVED_CALIBRATIONS →
    property? p.properties CLAIMED_CALIBRATION_KEY = some p.calibrationSource.json
  /-- a ref that names no record here has no snapshot of this store and is not prefixed to one -/
  kept : ∀ ref ∈ p.provenance, ref.namesRecord store = false → ¬ ref.Resolves store
  /-- what an id of this store is prefixed to is not another id of it -/
  origin : ∀ ref ∈ p.provenance, ref.namesRecord store = true → ¬ ref.asOrigin.Resolves store
  predecessor : ∀ id, p.supersedes = some id →
    if isOrigin id then store.get? id = none
    else (store.get? id).isSome → store.get? (ORIGIN_REF_PREFIX ++ id) = none
  /-- the first SOURCE id, where it has no snapshot, is not the start of an id of this store -/
  passage : ∀ ref, p.passageRef = some ref → ref.snapshotId.filter (· ≠ "") = none →
    ∀ snapshot, resolveSnapshotForBlob env store
      (if ref.namesRecord store then ORIGIN_REF_PREFIX ++ ref.corpusEntryId
        else ref.corpusEntryId) ≠ .ok (some snapshot)

/-! ### The target records -/

section Targets

variable {store : Store} {batch : List BundleParticle} {p : BundleParticle}

theorem isOrigin_append (id : String) : isOrigin (ORIGIN_REF_PREFIX ++ id) = true := by
  simp [isOrigin]

/-- **A ref of the batch names a target record** exactly when its id is one and was not prefixed
before. -/
theorem namesTarget_eq (hp : p ∈ batch) {ref : ProvenanceRef} (href : ref ∈ p.provenance) :
    (targetRecords store batch).namesTarget ref = ref.namesRecord store := by
  rw [Bool.eq_iff_iff]
  simp only [TargetRecords.namesTarget, targetRecords, ProvenanceRef.namesRecord, Bool.and_eq_true,
    Bool.not_eq_true']
  have hmem : ref ∈ batch.flatMap fun p => p.provenance := List.mem_flatMap.2 ⟨p, hp, href⟩
  split_ifs with htype
  · simp only [List.mem_filter, List.mem_append, List.mem_map, Bool.not_eq_true', decide_eq_true_eq]
    constructor
    · rintro ⟨⟨-, horigin⟩ | ⟨other, ⟨⟨-, horigin⟩, -⟩, hid⟩, hrecord⟩
      · exact ⟨horigin, hrecord⟩
      · exact ⟨hid ▸ horigin, hrecord⟩
    · rintro ⟨horigin, hrecord⟩
      exact ⟨Or.inr ⟨ref, ⟨⟨hmem, horigin⟩, htype⟩, rfl⟩, hrecord⟩
  · simp only [List.mem_filter, List.mem_map, Bool.not_eq_true', decide_eq_true_eq]
    constructor
    · rintro ⟨⟨other, ⟨⟨-, horigin⟩, -⟩, hid⟩, hrecord⟩
      exact ⟨hid ▸ horigin, hrecord⟩
    · rintro ⟨horigin, hrecord⟩
      exact ⟨⟨ref, ⟨⟨hmem, horigin⟩, htype⟩, rfl⟩, hrecord⟩

/-- The same of a predecessor. -/
theorem mem_particleIds (hp : p ∈ batch) {id : String} (hid : p.supersedes = some id) :
    id ∈ (targetRecords store batch).particleIds ↔
      isOrigin id = false ∧ (store.get? id).isSome = true := by
  have hmem : id ∈ batch.filterMap fun p => p.supersedes := List.mem_filterMap.2 ⟨p, hp, hid⟩
  simp only [targetRecords, List.mem_filter, List.mem_append, List.mem_map, Bool.not_eq_true',
    decide_eq_true_eq]
  constructor
  · rintro ⟨⟨-, horigin⟩ | ⟨other, ⟨⟨-, horigin⟩, -⟩, rfl⟩, hrecord⟩ <;> exact ⟨horigin, hrecord⟩
  · rintro ⟨horigin, hrecord⟩
    exact ⟨Or.inl ⟨hmem, horigin⟩, hrecord⟩

end Targets

/-! ### The fields of the result -/

section Fields

variable {env : ImportEnv} {store : Store} {batch : List BundleParticle} {p : BundleParticle}

theorem map_eq_self {α : Type} {f : α → α} {l : List α} (h : ∀ a ∈ l, f a = a) : l.map f = l := by
  rw [List.map_congr_left h]
  exact List.map_id' l

/-- A ref as the import leaves it. -/
def ProvenanceRef.imported (store : Store) (ref : ProvenanceRef) : ProvenanceRef :=
  if ref.namesRecord store then ref.asOrigin else ref

/-- A predecessor as the import leaves it. -/
def importedId (store : Store) (id : String) : String :=
  if isOrigin id = false ∧ (store.get? id).isSome = true then ORIGIN_REF_PREFIX ++ id else id

theorem provenance_neutralise (hp : p ∈ batch) :
    (neutraliseParticle env p (targetRecords store batch)).1.provenance =
      p.provenance.map (·.imported store) := by
  change ((targetRecords store batch).reanchorRefs p.provenance).getD p.provenance = _
  have hmap : (p.provenance.map fun ref =>
      if (targetRecords store batch).namesTarget ref then ref.asOrigin else ref) =
      p.provenance.map (·.imported store) :=
    List.map_congr_left fun ref href => by rw [namesTarget_eq hp href]; rfl
  unfold TargetRecords.reanchorRefs
  split_ifs with hany
  · rw [hmap, Option.getD_some]
  · -- no ref is rewritten
    rw [Option.getD_none, map_eq_self]
    intro ref href
    refine if_neg fun hnames => hany (List.any_eq_true.2 ⟨ref, href, ?_⟩)
    rw [namesTarget_eq hp href]
    exact hnames

theorem supersedes_neutralise (hp : p ∈ batch) :
    (neutraliseParticle env p (targetRecords store batch)).1.supersedes =
      p.supersedes.map (importedId store) := by
  change (if p.supersedes.any (· ∈ (targetRecords store batch).particleIds) then
    p.supersedes.map (ORIGIN_REF_PREFIX ++ ·) else p.supersedes) = _
  cases hid : p.supersedes with
  | none => simp
  | some id =>
      simp only [Option.any_some, decide_eq_true_eq, mem_particleIds hp hid, Option.map_some,
        importedId]
      split_ifs <;> rfl

theorem tags_neutralise {targets : TargetRecords} :
    (neutraliseParticle env p targets).1.tags = p.tags.map (claimTag env) := by
  change (restampReservedTags env p.tags).getD p.tags = _
  unfold restampReservedTags
  split_ifs with hany
  · rfl
  · rw [Option.getD_none, map_eq_self]
    intro t ht
    refine if_neg fun hreserved => hany (List.any_eq_true.2 ⟨t, ht, by simpa using hreserved⟩)

theorem assertedBy_neutralise {targets : TargetRecords} :
    (neutraliseParticle env p targets).1.assertedBy = IMPORT_ASSERTER := by
  change (restampAsserter p.assertedBy p.contributors p.assertedAt).1 = IMPORT_ASSERTER
  unfold restampAsserter
  split_ifs <;> rfl

/-- The contributors before those that are reserved are claimed. -/
def withAuthor (p : BundleParticle) : List ContributorRef :=
  if p.assertedBy = IMPORT_ASSERTER then p.contributors.getD []
  else p.contributors.getD [] ++ [⟨p.assertedBy, "author", some p.assertedAt⟩]

theorem contributors_neutralise {targets : TargetRecords} :
    (neutraliseParticle env p targets).1.contributors.getD [] =
      (withAuthor p).map (claimContributor env) := by
  have hauthor : (restampAsserter p.assertedBy p.contributors p.assertedAt).2.getD [] =
      withAuthor p := by
    unfold restampAsserter withAuthor
    split_ifs <;> rfl
  change ((restampReservedContributors env
    (restampAsserter p.assertedBy p.contributors p.assertedAt).2).or
      (restampAsserter p.assertedBy p.contributors p.assertedAt).2).getD [] = _
  unfold restampReservedContributors
  rw [hauthor]
  split_ifs with hany
  · rfl
  · rw [Option.none_or, hauthor, map_eq_self]
    intro c hc
    refine if_neg fun hid => hany (List.any_eq_true.2 ⟨c, hc, by simpa using hid⟩)

theorem calibration_neutralise {targets : TargetRecords} :
    (neutraliseParticle env p targets).1.calibrationSource =
      if p.calibrationSource ∈ RESERVED_CALIBRATIONS then .IMPORTED else p.calibrationSource := by
  change (if _ then _ else _) = _
  split_ifs <;> rfl

end Fields

/-! ### The properties of the result -/

section Properties

variable {properties : Properties} {key value : String}

theorem property?_setProperty (k : String) :
    property? (setProperty properties key value) k =
      if k = key then some value else property? properties k := by
  unfold setProperty
  split_ifs with hany hk hk
  · obtain ⟨entry, hentry, hkey⟩ := List.any_eq_true.1 hany
    rw [property?, List.find?_map, Option.map_map]
    have hsome : (properties.find? fun entry => entry.1 = key).isSome = true :=
      List.find?_isSome.2 ⟨entry, hentry, hkey⟩
    obtain ⟨found, hfound⟩ := Option.isSome_iff_exists.1 hsome
    have hcomp : ((fun entry : String × String => decide (entry.1 = k)) ∘ fun entry =>
        if entry.1 = key then (key, value) else entry) = fun entry => decide (entry.1 = key) := by
      funext entry
      by_cases he : entry.1 = key <;> simp [he, hk]
    have hfoundkey : found.1 = key := by simpa using List.find?_some hfound
    rw [hcomp, hfound]
    simp [hfoundkey]
  · rw [property?, property?, List.find?_map, Option.map_map]
    have hcomp : ((fun entry : String × String => decide (entry.1 = k)) ∘ fun entry =>
        if entry.1 = key then (key, value) else entry) = fun entry => decide (entry.1 = k) := by
      funext entry
      by_cases he : entry.1 = key <;> simp [he, Ne.symm hk]
    rw [hcomp]
    cases hfound : properties.find? fun entry => decide (entry.1 = k) with
    | none => rfl
    | some found =>
        have hfoundkey : found.1 = k := by simpa using List.find?_some hfound
        simp [hfoundkey, hk]
  · have hnone : property? properties key = none := by
      rw [property?, Option.map_eq_none_iff, List.find?_eq_none]
      intro entry hentry he
      exact hany (List.any_eq_true.2 ⟨entry, hentry, he⟩)
    rw [property?, List.find?_append, Option.map_or, hk, ← property?, hnone]
    simp
  · rw [property?, List.find?_append, Option.map_or, ← property?]
    simp [Ne.symm hk]

theorem property?_filter (k : String) :
    property? (properties.filter fun entry => entry.1 ≠ key) k =
      if k = key then none else property? properties k := by
  rw [property?, List.find?_filter]
  split_ifs with hk
  · rw [Option.map_eq_none_iff, List.find?_eq_none]
    intro entry _
    simp [hk]
  · refine congrArg (Option.map Prod.snd ∘ (List.find? · properties)) (funext fun entry => ?_)
    by_cases he : entry.1 = k
    · simp [he, hk]
    · simp [he]

/-- A claimed property is under its claimed key, and no longer under its own. -/
theorem property?_claimProperty (k : String) :
    property? (claimProperty properties key) k =
      if k = key then none
      else if k = CLAIMED_TAG_PREFIX ++ key ∧ (property? properties key).isSome = true then
        property? properties key
      else property? properties k := by
  unfold claimProperty
  cases hvalue : property? properties key with
  | none =>
      split_ifs with hk hclaimed
      · rw [hk, hvalue]
      · cases hclaimed.2
      · rfl
  | some value =>
      simp only [property?_setProperty, property?_filter, Option.isSome_some, and_true]
      have hne : ∀ key : String, CLAIMED_TAG_PREFIX ++ key ≠ key := by
        intro key heq
        have hlength := congrArg String.length heq
        simp [CLAIMED_TAG_PREFIX] at hlength
      by_cases hk : k = key
      · have hk' : k ≠ CLAIMED_TAG_PREFIX ++ key := fun heq => hne key (heq ▸ hk)
        rw [if_neg hk', if_pos hk, if_pos hk]
      · rw [if_neg hk, if_neg hk]

end Properties

section Routing

variable {env : ImportEnv} {p : BundleParticle}

/-- The properties without the exemptions of the bundle. -/
def movedProperties (env : ImportEnv) (p : BundleParticle) : Properties :=
  if env.skipsConflictResolution p.properties then
    ROUTING_PROPERTY_KEYS.foldl claimProperty p.properties
  else p.properties

theorem property?_moved (k : String) : property? (movedProperties env p) k =
    if env.skipsConflictResolution p.properties = true then
      if k = POLARITY_KEY ∨ k = SCOPE_KEY then none
      else if k = CLAIMED_TAG_PREFIX ++ POLARITY_KEY ∧
          (property? p.properties POLARITY_KEY).isSome = true then
        property? p.properties POLARITY_KEY
      else if k = CLAIMED_TAG_PREFIX ++ SCOPE_KEY ∧
          (property? p.properties SCOPE_KEY).isSome = true then property? p.properties SCOPE_KEY
      else property? p.properties k
    else property? p.properties k := by
  have hkeys : POLARITY_KEY ≠ SCOPE_KEY ∧ POLARITY_KEY ≠ CLAIMED_TAG_PREFIX ++ SCOPE_KEY ∧
      SCOPE_KEY ≠ CLAIMED_TAG_PREFIX ++ POLARITY_KEY := by decide
  unfold movedProperties
  by_cases hskip : env.skipsConflictResolution p.properties = true
  · rw [if_pos hskip, if_pos hskip]
    change property? (claimProperty (claimProperty p.properties SCOPE_KEY) POLARITY_KEY) k = _
    have hpolarity : property? (claimProperty p.properties SCOPE_KEY) POLARITY_KEY =
        property? p.properties POLARITY_KEY := by
      rw [property?_claimProperty, if_neg hkeys.1, if_neg fun h => hkeys.2.1 h.1]
    rw [property?_claimProperty, hpolarity, property?_claimProperty]
    by_cases hk : k = POLARITY_KEY
    · rw [if_pos hk, if_pos (Or.inl hk)]
    · by_cases hk' : k = SCOPE_KEY
      · rw [if_neg hk, if_pos (Or.inr hk'), if_pos hk', if_neg fun h => hkeys.2.2 (hk' ▸ h.1)]
      · rw [if_neg hk, if_neg (not_or.2 ⟨hk, hk'⟩), if_neg hk']
  · rw [if_neg hskip, if_neg hskip]

/-- The modality of the result, and its properties, key by key. -/
theorem routing_neutralise {targets : TargetRecords} :
    (neutraliseParticle env p targets).1.assertionModality = .FALSIFIABLE ∧
      ∀ k, property? (neutraliseParticle env p targets).1.properties k =
        if p.assertionModality ≠ .FALSIFIABLE ∧ k = CLAIMED_MODALITY_KEY then
          some p.assertionModality.json
        else property? (movedProperties env p) k := by
  change (if (claimedRouting env p).isSome then AssertionModality.FALSIFIABLE
      else p.assertionModality) = .FALSIFIABLE ∧
    ∀ k, property? ((claimedRouting env p).getD p.properties) k = _
  unfold claimedRouting movedProperties
  by_cases hmodal : p.assertionModality = .FALSIFIABLE
  · by_cases hskip : env.skipsConflictResolution p.properties = true <;> simp [hmodal, hskip]
  · by_cases hskip : env.skipsConflictResolution p.properties = true <;>
      simp [hmodal, hskip, property?_setProperty]

/-- A claim that came in is on the conflict surface. -/
theorem skips_neutralise {targets : TargetRecords} :
    env.skipsConflictResolution (neutraliseParticle env p targets).1.properties = false := by
  have hkeys : SCOPE_KEY ≠ CLAIMED_MODALITY_KEY ∧ POLARITY_KEY ≠ CLAIMED_MODALITY_KEY := by decide
  unfold ImportEnv.skipsConflictResolution
  rw [routing_neutralise.2, routing_neutralise.2, if_neg (fun h => hkeys.1 h.2),
    if_neg (fun h => hkeys.2 h.2), property?_moved, property?_moved]
  by_cases hskip : env.skipsConflictResolution p.properties = true
  · simp [hskip, env.meta_none, env.asserted_none]
  · rw [if_neg hskip, if_neg hskip]
    simpa [ImportEnv.skipsConflictResolution] using hskip

end Routing

/-! ### A second rewrite -/

section Again

variable {env : ImportEnv} {store : Store} {batch : List BundleParticle} {p q : BundleParticle}

theorem claimed_ne (x : String) : CLAIMED_TAG_PREFIX ++ x ≠ x := by
  intro heq
  have hlength := congrArg String.length heq
  simp [CLAIMED_TAG_PREFIX] at hlength

theorem claimTag_notReserved (t : String) : claimTag env t ∉ env.reservedTags := by
  unfold claimTag
  split_ifs with ht
  · have ht' : t = env.MIGRATION_TAG := by simpa [ImportEnv.reservedTags] using ht
    simpa [ImportEnv.reservedTags, ht'] using claimed_ne env.MIGRATION_TAG
  · exact ht

theorem claimContributor_ne (c : ContributorRef) :
    (claimContributor env c).id ≠ env.REANCHOR_ACTOR := by
  unfold claimContributor
  split_ifs with hc
  · change CLAIMED_TAG_PREFIX ++ c.id ≠ env.REANCHOR_ACTOR
    rw [hc]
    exact claimed_ne _
  · exact hc

theorem imported_namesRecord (ref : ProvenanceRef) :
    (ref.imported store).namesRecord store = false := by
  unfold ProvenanceRef.imported
  split_ifs with hnames
  · rw [ProvenanceRef.namesRecord]
    change (!isOrigin (ORIGIN_REF_PREFIX ++ ref.corpusEntryId) && _) = false
    rw [isOrigin_append]
    rfl
  · exact Bool.eq_false_iff.2 hnames

theorem importedId_foreign (id : String) :
    ¬ (isOrigin (importedId store id) = false ∧
      (store.get? (importedId store id)).isSome = true) := by
  unfold importedId
  split_ifs with hid
  · rintro ⟨horigin, -⟩
    rw [isOrigin_append] at horigin
    cases horigin
  · exact hid

/-- A particle with nothing to rewrite. -/
theorem neutraliseParticle_fixed {targets : TargetRecords} (hasserter : q.assertedBy = IMPORT_ASSERTER)
    (hcontributors : ∀ c ∈ q.contributors.getD [], c.id ≠ env.REANCHOR_ACTOR)
    (htags : ∀ t ∈ q.tags, t ∉ env.reservedTags)
    (hrefs : ∀ ref ∈ q.provenance, targets.namesTarget ref = false)
    (hpredecessor : q.supersedes.any (· ∈ targets.particleIds) = false)
    (hskips : env.skipsConflictResolution q.properties = false)
    (hmodality : q.assertionModality = .FALSIFIABLE)
    (hcalibration : q.calibrationSource ∉ RESERVED_CALIBRATIONS) :
    neutraliseParticle env q targets = (q, {}) := by
  have hauthor : restampAsserter q.assertedBy q.contributors q.assertedAt =
      (IMPORT_ASSERTER, q.contributors) := if_pos hasserter
  have hrestamped : restampReservedContributors env q.contributors = none := by
    refine if_neg fun hany => ?_
    obtain ⟨c, hc, hid⟩ := List.any_eq_true.1 hany
    exact hcontributors c hc (by simpa using hid)
  have hretagged : restampReservedTags env q.tags = none := by
    refine if_neg fun hany => ?_
    obtain ⟨t, ht, hreserved⟩ := List.any_eq_true.1 hany
    exact htags t ht (by simpa using hreserved)
  have hreanchored : targets.reanchorRefs q.provenance = none := by
    refine if_neg fun hany => ?_
    obtain ⟨ref, href, hnames⟩ := List.any_eq_true.1 hany
    rw [hrefs ref href] at hnames
    cases hnames
  have hclaimed : claimedRouting env q = none := by
    unfold claimedRouting
    simp [hskips, hmodality]
  unfold neutraliseParticle
  simp only [hauthor, hrestamped, hretagged, hreanchored, hclaimed, hpredecessor, hcalibration]
  obtain ⟨⟨⟩⟩ := q
  simp_all

/-- **A second rewrite changes nothing**, with whatever batch the result comes in again. -/
theorem neutraliseParticle_again (hp : p ∈ batch)
    (hq : q = (neutraliseParticle env p (targetRecords store batch)).1)
    {batch' : List BundleParticle} (hq' : q ∈ batch') :
    neutraliseParticle env q (targetRecords store batch') = (q, {}) := by
  refine neutraliseParticle_fixed ?asserter ?contributors ?tags ?refs ?predecessor ?skips ?modality
    ?calibration
  case asserter => rw [hq, assertedBy_neutralise]
  case contributors =>
    rw [hq, contributors_neutralise]
    intro c hc
    obtain ⟨c, -, rfl⟩ := List.mem_map.1 hc
    exact claimContributor_ne c
  case tags =>
    rw [hq, tags_neutralise]
    intro t ht
    obtain ⟨t, -, rfl⟩ := List.mem_map.1 ht
    exact claimTag_notReserved t
  case refs =>
    intro ref href
    rw [namesTarget_eq hq' href]
    rw [hq, provenance_neutralise hp] at href
    obtain ⟨ref, -, rfl⟩ := List.mem_map.1 href
    exact imported_namesRecord ref
  case predecessor =>
    rw [Option.any_eq_false]
    intro id hid
    refine Bool.eq_false_iff.2 fun hmem => ?_
    have htarget := (mem_particleIds hq' hid).1 (by simpa using hmem)
    rw [hq, supersedes_neutralise hp] at hid
    obtain ⟨id, -, rfl⟩ := Option.map_eq_some_iff.1 hid
    exact importedId_foreign id htarget
  case skips => rw [hq, skips_neutralise]
  case modality => rw [hq, routing_neutralise.1]
  case calibration =>
    rw [hq, calibration_neutralise]
    split_ifs with hreserved
    · decide
    · exact hreserved

end Again

/-! ### What is kept, and what it borrows -/

section Borrowed

variable {env : ImportEnv} {store : Store} {batch : List BundleParticle} {p q : BundleParticle}

theorem importAsserter_reserved :
    env.isReservedAsserter IMPORT_ASSERTER = false ↔ IMPORT_ASSERTER ∉ env.reservedAsserters := by
  have hmcp : IMPORT_ASSERTER.startsWith MCP_ASSERTER_PREFIX = false := by decide +kernel
  simp [ImportEnv.isReservedAsserter, hmcp]

theorem importedRef_resolves (ref : ProvenanceRef) : ¬ (ref.imported store).Resolves store ↔
    (ref.namesRecord store = false → ¬ ref.Resolves store) ∧
      (ref.namesRecord store = true → ¬ ref.asOrigin.Resolves store) := by
  unfold ProvenanceRef.imported
  cases ref.namesRecord store <;> simp

theorem importedId_resolves (id : String) : store.get? (importedId store id) = none ↔
    if isOrigin id then store.get? id = none
    else (store.get? id).isSome → store.get? (ORIGIN_REF_PREFIX ++ id) = none := by
  unfold importedId
  cases horigin : isOrigin id with
  | true => simp
  | false =>
      cases hrecord : store.get? id with
      | none => simp [hrecord]
      | some row => simp

theorem keptId_importedId (id : String) : KeptId id (importedId store id) := by
  unfold importedId
  split_ifs
  · exact Or.inr rfl
  · exact Or.inl rfl

theorem imported_type (ref : ProvenanceRef) : (ref.imported store).type = ref.type := by
  unfold ProvenanceRef.imported
  split_ifs <;> rfl

theorem imported_corpusEntryId (ref : ProvenanceRef) : (ref.imported store).corpusEntryId =
    if ref.namesRecord store then ORIGIN_REF_PREFIX ++ ref.corpusEntryId
    else ref.corpusEntryId := by
  unfold ProvenanceRef.imported
  split_ifs <;> rfl

/-- A ref has a snapshot after the import exactly when it had one. -/
theorem imported_snapshotId (store : Store) (ref : ProvenanceRef) :
    (ref.imported store).snapshotId.filter (· ≠ "") = none ↔
      ref.snapshotId.filter (· ≠ "") = none := by
  unfold ProvenanceRef.imported
  split_ifs
  · change Option.filter _ ((ref.snapshotId.filter (· ≠ "")).map (ORIGIN_REF_PREFIX ++ ·)) = none ↔ _
    cases ref.snapshotId.filter (· ≠ "") with
    | none => simp
    | some snapshotId => simp [ORIGIN_REF_PREFIX]
  · rfl

theorem imported_readable (ref : ProvenanceRef) :
    (ref.imported store).type = ref.type ∧
      KeptId ref.corpusEntryId (ref.imported store).corpusEntryId ∧
      ∀ snapshotId ∈ ref.snapshotId, snapshotId ≠ "" →
        ∃ kept ∈ (ref.imported store).snapshotId, KeptId snapshotId kept := by
  refine ⟨imported_type ref, ?_, ?_⟩
  · rw [imported_corpusEntryId]
    split_ifs
    · exact Or.inr rfl
    · exact Or.inl rfl
  · intro snapshotId hsnapshot hne
    unfold ProvenanceRef.imported
    split_ifs
    · refine ⟨ORIGIN_REF_PREFIX ++ snapshotId, ?_, Or.inr rfl⟩
      change ((ref.snapshotId.filter (· ≠ "")).map (ORIGIN_REF_PREFIX ++ ·)) = _
      rw [Option.mem_def.1 hsnapshot]
      simp [Option.filter, hne]
    · exact ⟨snapshotId, hsnapshot, Or.inl rfl⟩

/-- The ref that a passage is read from is still the first. -/
theorem passageRef_neutralise (hp : p ∈ batch)
    (hq : q = (neutraliseParticle env p (targetRecords store batch)).1) :
    q.passageRef = p.passageRef.map (·.imported store) := by
  unfold BundleParticle.passageRef
  rw [hq, provenance_neutralise hp, List.find?_map]
  refine congrArg (fun test => (p.provenance.find? test).map (·.imported store)) (funext fun ref => ?_)
  rw [Function.comp_apply, imported_type, imported_corpusEntryId]
  split_ifs with hnames
  · -- an id of this store is not empty
    by_cases htype : ref.type = .SOURCE
    · have hentry : ref.corpusEntryId ≠ "" := by
        rintro hempty
        rw [ProvenanceRef.namesRecord, if_neg (by rw [htype]; decide), hempty, store.entryIds] at hnames
        simp at hnames
      simp [htype, hentry, ORIGIN_REF_PREFIX]
    · simp [htype]
  · rfl

theorem passageSource_named (env : ImportEnv) (store : Store) {ref : ProvenanceRef}
    {snapshotId : String} (href : q.passageRef = some ref)
    (hsnapshot : ref.snapshotId.filter (· ≠ "") = some snapshotId) : passageSource env store q =
      .ok (store.entries.get? ref.corpusEntryId, store.snapshots.get? snapshotId) := by
  unfold passageSource
  simp only [href]
  rw [hsnapshot]
  rfl

theorem passageSource_resolved {ref : ProvenanceRef} (href : q.passageRef = some ref)
    (hsnapshot : ref.snapshotId.filter (· ≠ "") = none) : passageSource env store q =
      (resolveSnapshotForBlob env store ref.corpusEntryId).map
        fun snapshot => (store.entries.get? ref.corpusEntryId, snapshot) := by
  unfold passageSource
  simp only [href]
  rw [hsnapshot]
  cases resolveSnapshotForBlob env store ref.corpusEntryId <;> rfl

/-- **What the passage of the result shows**, where none of its refs resolves here. -/
theorem passage_neutralise (hp : p ∈ batch)
    (hq : q = (neutraliseParticle env p (targetRecords store batch)).1)
    (hrefs : ∀ ref ∈ q.provenance, ¬ ref.Resolves store) :
    (∀ shown, passageSource env store q = .ok shown → shown = (none, none)) ↔
      ∀ ref, p.passageRef = some ref → ref.snapshotId.filter (· ≠ "") = none →
        ∀ snapshot, resolveSnapshotForBlob env store
          (if ref.namesRecord store then ORIGIN_REF_PREFIX ++ ref.corpusEntryId
            else ref.corpusEntryId) ≠ .ok (some snapshot) := by
  have himported := passageRef_neutralise hp hq
  cases href : p.passageRef with
  | none =>
      rw [href, Option.map_none] at himported
      simp [passageSource, himported]
  | some ref =>
      rw [href, Option.map_some] at himported
      have hmem : ref.imported store ∈ q.provenance := List.mem_of_find?_eq_some himported
      have htype : ref.type = .SOURCE := by
        have hfound := List.find?_some href
        simp only [Bool.and_eq_true, decide_eq_true_eq] at hfound
        exact hfound.1
      have hnone := hrefs _ hmem
      rw [ProvenanceRef.Resolves, if_neg (by rw [imported_type, htype]; decide), not_or] at hnone
      have hentry : store.entries.get? (ref.imported store).corpusEntryId = none := by
        simpa using hnone.1
      cases hsnapshot : (ref.imported store).snapshotId.filter (· ≠ "") with
      | some snapshotId =>
          -- a snapshot is named, and it is not one of this store
          have hsome := Option.filter_eq_some_iff.1 hsnapshot
          have hmissing : store.snapshots.get? snapshotId = none := by
            by_contra hget
            exact hnone.2 ⟨snapshotId, hsome.1, by simpa using hsome.2,
              Option.isSome_iff_ne_none.2 hget⟩
          have hnamed : ref.snapshotId.filter (· ≠ "") ≠ none := by
            rw [Ne, ← imported_snapshotId store, hsnapshot]
            exact Option.some_ne_none _
          rw [passageSource_named env store himported hsnapshot, hentry, hmissing]
          constructor
          · rintro - _ heq hfilter
            cases heq
            exact absurd hfilter hnamed
          · intro _ shown hshown
            cases hshown
            rfl
      | none =>
          have hfilter := (imported_snapshotId store ref).1 hsnapshot
          rw [passageSource_resolved himported hsnapshot, hentry]
          constructor
          · rintro hshown _ heq - snapshot hresolve
            cases heq
            rw [imported_corpusEntryId, hresolve] at hshown
            cases hshown _ rfl
          · intro hresolve shown hshown
            have hmissed := hresolve ref rfl hfilter
            rw [← imported_corpusEntryId] at hmissed
            cases hresult : resolveSnapshotForBlob env store (ref.imported store).corpusEntryId with
            | error e =>
                rw [hresult] at hshown
                cases hshown
            | ok found =>
                cases found with
                | some snapshot => exact absurd hresult (hmissed snapshot)
                | none =>
                    rw [hresult] at hshown
                    cases hshown
                    rfl

/-- A claimed calibration is readable where the bundle says it a second time. -/
theorem calibration_readable (env : ImportEnv) (p : BundleParticle) (targets : TargetRecords) :
    ((neutraliseParticle env p targets).1.calibrationSource = p.calibrationSource ∨
      property? (neutraliseParticle env p targets).1.properties CLAIMED_CALIBRATION_KEY =
        some p.calibrationSource.json) ↔
    (p.calibrationSource ∈ RESERVED_CALIBRATIONS →
      property? p.properties CLAIMED_CALIBRATION_KEY = some p.calibrationSource.json) := by
  have hkeys : CLAIMED_CALIBRATION_KEY ∉ [CLAIMED_MODALITY_KEY, POLARITY_KEY, SCOPE_KEY,
      CLAIMED_TAG_PREFIX ++ POLARITY_KEY, CLAIMED_TAG_PREFIX ++ SCOPE_KEY] := by decide
  simp only [List.mem_cons, List.not_mem_nil, or_false, not_or] at hkeys
  obtain ⟨hmodality, hpolarity, hscope, hpolarity', hscope'⟩ := hkeys
  have hproperty : property? (neutraliseParticle env p targets).1.properties CLAIMED_CALIBRATION_KEY =
      property? p.properties CLAIMED_CALIBRATION_KEY := by
    rw [routing_neutralise.2, if_neg fun h => hmodality h.2, property?_moved]
    simp only [hpolarity, hscope, hpolarity', hscope', false_and, or_self, if_false, ite_self]
  rw [hproperty, calibration_neutralise]
  split_ifs with hreserved
  · have hne : CalibrationSource.IMPORTED ≠ p.calibrationSource := by
      intro heq
      rw [← heq] at hreserved
      revert hreserved
      decide
    simp [hne, hreserved]
  · simp [hreserved]

/-- The routing properties of the bundle, as they were or under their claimed keys. -/
theorem routing_readable {targets : TargetRecords} {key value : String}
    (hkey : key ∈ ROUTING_PROPERTY_KEYS) (hvalue : property? p.properties key = some value) :
    property? (neutraliseParticle env p targets).1.properties key = some value ∨
      property? (neutraliseParticle env p targets).1.properties (CLAIMED_TAG_PREFIX ++ key) =
        some value := by
  have hkeys : ∀ key ∈ ROUTING_PROPERTY_KEYS, key ≠ CLAIMED_MODALITY_KEY ∧
      CLAIMED_TAG_PREFIX ++ key ≠ CLAIMED_MODALITY_KEY ∧
      CLAIMED_TAG_PREFIX ++ key ≠ POLARITY_KEY ∧ CLAIMED_TAG_PREFIX ++ key ≠ SCOPE_KEY := by
    decide
  obtain ⟨hmodality, hclaimed, hpolarity, hscope⟩ := hkeys key hkey
  by_cases hskip : env.skipsConflictResolution p.properties = true
  · right
    rw [routing_neutralise.2, if_neg fun h => hclaimed h.2, property?_moved, if_pos hskip,
      if_neg (not_or.2 ⟨hpolarity, hscope⟩)]
    simp only [ROUTING_PROPERTY_KEYS, List.mem_cons, List.not_mem_nil, or_false] at hkey
    obtain rfl | rfl := hkey
    · have hne : CLAIMED_TAG_PREFIX ++ SCOPE_KEY ≠ CLAIMED_TAG_PREFIX ++ POLARITY_KEY := by decide
      simp [hne, hvalue]
    · simp [hvalue]
  · left
    rw [routing_neutralise.2, if_neg fun h => hmodality h.2, property?_moved, if_neg hskip, hvalue]

/-- **Each claimed value is readable** after the import, but for a claimed calibration. -/
theorem staysReadable_iff (hp : p ∈ batch)
    (hq : q = (neutraliseParticle env p (targetRecords store batch)).1) :
    StaysReadable env p q ↔ (p.calibrationSource ∈ RESERVED_CALIBRATIONS →
      property? p.properties CLAIMED_CALIBRATION_KEY = some p.calibrationSource.json) := by
  have hcalibration := calibration_readable env p (targetRecords store batch)
  rw [← hq] at hcalibration
  refine ⟨fun hreadable => hcalibration.1 hreadable.calibration, fun hclaimed => ?_⟩
  have hclaim : ∀ c ∈ withAuthor p, ∃ c' ∈ q.contributors.getD [], c'.role = c.role ∧
      c'.addedAt = c.addedAt ∧ (c'.id = c.id ∨ c'.id = CLAIMED_TAG_PREFIX ++ c.id) := by
    intro c hc
    refine ⟨claimContributor env c, ?_, ?_⟩
    · rw [hq, contributors_neutralise]
      exact List.mem_map_of_mem hc
    · unfold claimContributor
      split_ifs
      · exact ⟨rfl, rfl, Or.inr rfl⟩
      · exact ⟨rfl, rfl, Or.inl rfl⟩
  constructor
  case asserter =>
    by_cases hasserter : p.assertedBy = IMPORT_ASSERTER
    · exact Or.inl hasserter
    · right
      have hmem : (⟨p.assertedBy, "author", some p.assertedAt⟩ : ContributorRef) ∈ withAuthor p := by
        simp [withAuthor, hasserter]
      obtain ⟨c, hc, hrole, -, hid⟩ := hclaim _ hmem
      exact ⟨c, hc, hrole, hid⟩
  case contributors =>
    intro c hc
    refine hclaim c ?_
    unfold withAuthor
    split_ifs
    · exact hc
    · exact List.mem_append_left _ hc
  case tags => rw [hq, tags_neutralise]
  case modality =>
    rw [hq, routing_neutralise.1, routing_neutralise.2]
    by_cases hmodality : p.assertionModality = .FALSIFIABLE
    · exact Or.inl hmodality.symm
    · exact Or.inr (if_pos ⟨hmodality, rfl⟩)
  case routing =>
    intro key hkey value hvalue
    rw [hq]
    exact routing_readable hkey hvalue
  case calibration => exact hcalibration.2 hclaimed
  case refs =>
    rw [hq, provenance_neutralise hp, List.forall₂_map_right_iff, List.forall₂_same]
    exact fun ref _ => imported_readable ref
  case predecessor =>
    intro id hid
    refine ⟨importedId store id, ?_, keptId_importedId id⟩
    rw [hq, supersedes_neutralise hp, hid, Option.map_some]

end Borrowed

/-- **An import borrows no authority, keeps each claim readable and is stable** exactly when the bundle
names nothing that the rewrite keeps. -/
theorem borrowsNothing_iff (env : ImportEnv) (store : Store) (p : BundleParticle) :
    (∀ batch : List BundleParticle, p ∈ batch →
      BorrowsNothing env store (neutraliseParticle env p (targetRecords store batch)).1 ∧
      StaysReadable env p (neutraliseParticle env p (targetRecords store batch)).1 ∧
      ∀ batch' : List BundleParticle,
        (neutraliseParticle env p (targetRecords store batch)).1 ∈ batch' →
        neutraliseParticle env (neutraliseParticle env p (targetRecords store batch)).1
            (targetRecords store batch') =
          ((neutraliseParticle env p (targetRecords store batch)).1, {})) ↔
    Unborrowed env store p := by
  constructor
  · intro himport
    have hp : p ∈ [p] := List.mem_singleton_self p
    obtain ⟨hnothing, hreadable, -⟩ := himport [p] hp
    have hrefs : ∀ ref ∈ p.provenance, ¬ (ref.imported store).Resolves store := by
      intro ref href
      refine hnothing.refs _ ?_
      rw [provenance_neutralise hp]
      exact List.mem_map_of_mem href
    constructor
    case asserter =>
      have hasserter := hnothing.asserter
      rwa [assertedBy_neutralise, importAsserter_reserved] at hasserter
    case calibration => exact (staysReadable_iff hp rfl).1 hreadable
    case kept => exact fun ref href => ((importedRef_resolves ref).1 (hrefs ref href)).1
    case origin => exact fun ref href => ((importedRef_resolves ref).1 (hrefs ref href)).2
    case predecessor =>
      intro id hid
      refine (importedId_resolves id).1 (hnothing.predecessor _ ?_)
      rw [supersedes_neutralise hp, hid, Option.map_some]
    case passage => exact (passage_neutralise hp rfl hnothing.refs).1 hnothing.passage
  · intro hunborrowed batch hp
    refine ⟨?_, (staysReadable_iff hp rfl).2 hunborrowed.calibration,
      fun batch' hq' => neutraliseParticle_again hp rfl hq'⟩
    have hrefs : ∀ ref ∈ (neutraliseParticle env p (targetRecords store batch)).1.provenance,
        ¬ ref.Resolves store := by
      rw [provenance_neutralise hp]
      intro ref href
      obtain ⟨ref, hmem, rfl⟩ := List.mem_map.1 href
      exact (importedRef_resolves ref).2 ⟨hunborrowed.kept ref hmem, hunborrowed.origin ref hmem⟩
    constructor
    case asserter =>
      rw [assertedBy_neutralise]
      exact importAsserter_reserved.2 hunborrowed.asserter
    case tags =>
      rw [tags_neutralise]
      intro t ht
      obtain ⟨t, -, rfl⟩ := List.mem_map.1 ht
      exact claimTag_notReserved t
    case contributors =>
      rw [contributors_neutralise]
      intro c hc
      obtain ⟨c, -, rfl⟩ := List.mem_map.1 hc
      exact claimContributor_ne c
    case calibration =>
      rw [calibration_neutralise]
      split_ifs with hreserved
      · decide
      · exact hreserved
    case modality => exact routing_neutralise.1
    case properties => exact skips_neutralise
    case refs => exact hrefs
    case predecessor =>
      rw [supersedes_neutralise hp]
      intro id hid
      obtain ⟨id, hsupersedes, rfl⟩ := Option.map_eq_some_iff.1 hid
      exact (importedId_resolves id).2 (hunborrowed.predecessor id hsupersedes)
    case passage => exact (passage_neutralise hp rfl hrefs).2 hunborrowed.passage

/-- A configuration with its defaults. -/
def plainImports : ImportEnv where
  writeAsserter := "mcp-agent"
  compatAsserter := "mcp-memory"
  MIGRATION_TAG := "memory-migration"
  REANCHOR_ACTOR := "consolidation:reanchor"
  isExcludedDocumentMeta value := value == some "\"document_meta\""
  isNonAsserted value := value == some "\"denied\""
  hasPrefix selector id := id.startsWith selector
  meta_none := rfl
  asserted_none := rfl

/-- A store with one source. -/
def ownSource : Store where
  entries := Table.empty.insertIfAbsent { entryId := "entry-1" }
  snapshots := Table.empty.insertIfAbsent
    { snapshotId := "snap-1"
      entryId := "entry-1"
      capturedAt := 1 }

/-- A claim of an entry that is not here, read off the snapshot of this store. -/
def borrowedSnapshot : BundleParticle where
  id := "p-1"
  content := "the moon is made of rock"
  assertedBy := "alice"
  provenance := [⟨.SOURCE, "entry-x", some "snap-1", none, none⟩]

/-- **A foreign entry with a snapshot of this store shows that snapshot**: the ref is not rewritten,
since its entry id names no record here. -/
theorem foreign_entry_shows_own_snapshot :
    passageSource plainImports ownSource
        (neutraliseParticle plainImports borrowedSnapshot
          (targetRecords ownSource [borrowedSnapshot])).1 =
      .ok (none, ownSource.snapshots.get? "snap-1") ∧
    ¬ BorrowsNothing plainImports ownSource
      (neutraliseParticle plainImports borrowedSnapshot
        (targetRecords ownSource [borrowedSnapshot])).1 := by
  have href : (neutraliseParticle plainImports borrowedSnapshot
      (targetRecords ownSource [borrowedSnapshot])).1.passageRef =
      some ⟨.SOURCE, "entry-x", some "snap-1", none, none⟩ := by
    decide +kernel
  have hshown := passageSource_named plainImports ownSource href rfl
  refine ⟨hshown, fun hnothing => ?_⟩
  have hnone := hnothing.passage _ hshown
  revert hnone
  decide

end ParticlesEngine
