/-
**The particle schema.**

The types of the data that the store keeps, with the fields its operations read or write: a
particle is a claim with its provenance, its status and the instant it was asserted.  Instants are
integers, and a confidence, of which only the order and the lower bound matter, is a non-negative
rational.  The fields that no modelled operation reads (calibration, the rest of a structured claim,
a particle's contributors and the like) are left out.

Main definitions:

* `ProvenanceRef`, `Particle`, `Subject` — the pydantic models;
* `ParticleRow` — a row of the `particles` table: the model and the storage columns beside it;
* `ProvenanceEdgeRow`, `ParticleSubjectRow`, `ParticleTagEdgeRow` — the denormalised indexes of a
  particle;
* `SubjectAliasRow` — the index over the aliases of the subjects;
* `ParticleRelationRow` — a typed edge between two particles;
* `DocumentRelation`, `CorpusEntryRow`, `SnapshotRow` — a source document, what it says about
  others, and its captured records;
* `TrustStatementRow`, `SourceTrustRow` — the two halves of the operator's source-trust policy;
* `ObserverScopeStatementRow` — a widening of a particle or of a source.
-/

import Mathlib.Algebra.Field.Rat
import Mathlib.Data.NNRat.Defs
import ParticlesEngine.Status

set_option relaxedAutoImplicit false
set_option autoImplicit false

namespace ParticlesEngine

/-- An instant, in UTC. -/
abbrev Instant := ℤ

/-- A pair of ids is looked up by equality. -/
instance lawfulBEq_idPair : LawfulBEq (String × String) := inferInstance

/-- So is an id that may be absent. -/
instance lawfulBEq_idOption : LawfulBEq (Option String) := inferInstance

/-! ### Models -/

/-- What a provenance reference points at. -/
inductive ProvenanceRefType where
  | SOURCE
  | PARTICLE
  | AGENT
  deriving DecidableEq, Repr

/-- One reference to what a particle rests on. -/
structure ProvenanceRef where
  type : ProvenanceRefType
  /-- a corpus entry, or a particle for a PARTICLE ref -/
  corpusEntryId : String
  snapshotId : Option String := none
  location : Option String := none
  chunkHash : Option String := none
  deriving DecidableEq, Repr

/-- The kind of a particle. -/
inductive ParticleType where
  | CLAIM
  | REVIEW
  | NARRATIVE
  | ACTION
  | ANNOTATION
  deriving DecidableEq, Repr

/-- The truth-aptness axis. -/
inductive AssertionModality where
  | FALSIFIABLE
  | EVALUATIVE
  | EXPERIENTIAL
  | CONSTITUTIVE
  deriving DecidableEq, Repr

/-- The extractor that minted a claim, at a version. -/
structure ExtractorRef where
  name : String
  version : String
  deriving DecidableEq, Repr

/-- A claim, as the core package's `Particle` model holds it. -/
structure Particle where
  /-- a UUID -/
  id : String
  content : String
  /-- in `[0, 1]` -/
  confidence : NNRat := 1
  assertedBy : String := ""
  assertedAt : Instant := 0
  status : Status := .ACTIVE
  statusReason : Option StatusReason := none
  particleType : ParticleType := .CLAIM
  assertionModality : AssertionModality := .FALSIFIABLE
  validUntil : Option Instant := none
  /-- the predecessor this particle replaces -/
  supersedes : Option String := none
  provenance : List ProvenanceRef := []
  subjectIds : List String := []
  /-- the subject its structured claim is bound to -/
  structuredSubjectId : Option String := none
  /-- the structured properties, as key and JSON text -/
  properties : List (String × String) := []
  extractorRef : Option ExtractorRef := none
  tags : List String := []
  /-- the schema version the record was written under -/
  schemaVersion : String := ""
  deriving DecidableEq

/-- Who contributed to a record, and how. -/
structure ContributorRef where
  id : String
  role : String
  addedAt : Option Instant := none
  deriving DecidableEq, Repr

/-- The identity of a subject in an external vocabulary. -/
structure ExternalRef where
  ns : String
  id : String
  uri : Option String := none
  confidence : ℚ := 1
  deriving DecidableEq, Repr

/-- A canonical entity that particles are statements about. -/
structure Subject where
  /-- a UUID -/
  id : String
  canonicalName : String
  description : Option String := none
  aliases : List String := []
  externalIds : List ExternalRef := []
  createdAt : Instant := 0
  assertedBy : String := ""
  subjectClass : Option String := none
  contributors : Option (List ContributorRef) := none
  deriving DecidableEq, Repr

/-! ### Rows -/

/-- An embedding vector, as the list of floats its JSON text encodes. -/
abbrev EmbeddingJson := List ℚ

/-- A row of the `particles` table. -/
structure ParticleRow where
  /-- the columns `to_model` reads -/
  model : Particle
  rowid : ℕ
  /-- the hash of the normalised content; NULL on rows older than the column -/
  contentNormHash : Option String := none
  embeddingJson : Option EmbeddingJson := none
  embeddingModelId : Option String := none
  /-- the instant the particle first left ACTIVE -/
  retiredAt : Option Instant := none
  /-- stamped at insert on the two non-ACTIVE births of the table -/
  bornRetired : Bool := false
  deriving DecidableEq

/-- The primary key of `particles`. -/
def ParticleRow.id (row : ParticleRow) : String := row.model.id

/-- The row moved to another rowid. -/
def ParticleRow.atRowid (row : ParticleRow) (rowid : ℕ) : ParticleRow :=
  { row with rowid := rowid }

@[simp] theorem ParticleRow.id_atRowid (row : ParticleRow) (n : ℕ) :
    (row.atRowid n).id = row.id := rfl

@[simp] theorem ParticleRow.rowid_atRowid (row : ParticleRow) (n : ℕ) :
    (row.atRowid n).rowid = n := rfl

/-- The model of a row. -/
def ParticleRow.toModel (row : ParticleRow) : Particle := row.model

/-- One row per (particle, corpus entry): the index from an entry to its particles. -/
structure ProvenanceEdgeRow where
  particleId : String
  corpusEntryId : String
  snapshotId : Option String := none
  chunkHash : Option String := none
  deriving DecidableEq, Repr

/-- The primary key of `particle_provenance_edges`. -/
def ProvenanceEdgeRow.key (edge : ProvenanceEdgeRow) : String × String :=
  (edge.particleId, edge.corpusEntryId)

/-- One row per (particle, subject). -/
structure ParticleSubjectRow where
  particleId : String
  subjectId : String
  deriving DecidableEq, Repr

/-- The primary key of `particle_subjects`. -/
def ParticleSubjectRow.key (link : ParticleSubjectRow) : String × String :=
  (link.particleId, link.subjectId)

/-- One row per (particle, tag). -/
structure ParticleTagEdgeRow where
  particleId : String
  tag : String
  deriving DecidableEq, Repr

/-- The primary key of `particle_tag_edges`. -/
def ParticleTagEdgeRow.key (edge : ParticleTagEdgeRow) : String × String :=
  (edge.particleId, edge.tag)

/-- One cached article about a subject. -/
structure SynthesisCacheRow where
  subjectId : String
  inputHash : String
  promptVersion : String
  articleBody : String := ""
  deriving DecidableEq, Repr

/-- The primary key of `synthesis_cache`. -/
def SynthesisCacheRow.key (row : SynthesisCacheRow) : String × String × String :=
  (row.subjectId, row.inputHash, row.promptVersion)

/-- One recorded alias of a subject, under its folded form. -/
structure SubjectAliasRow where
  subjectId : String
  aliasKey : String
  /-- the column `alias` -/
  spelling : String
  deriving DecidableEq, Repr

/-- The primary key of `subject_aliases`. -/
def SubjectAliasRow.key (row : SubjectAliasRow) : String × String := (row.subjectId, row.aliasKey)

/-! ### Relations -/

/-- The kinds of typed edges between particles. -/
inductive RelationType where
  | CO_EVIDENTIAL
  | PART_OF
  | SEQUENCE_IN
  | ENDORSES
  | DISPUTES
  | CONTRADICTS
  | BOOSTS
  | QUOTES
  | REPLIES_TO
  | MENTIONS
  deriving DecidableEq, Repr

/-- How a relation came to exist. -/
inductive RelationCreatedBy where
  | EXTRACTOR_DIRECT
  | HUMAN_REVIEW
  | AUTO_CLUSTER_V1
  | MANUAL_CLI
  | LLM_JUDGE
  | EXACT_DUPLICATE
  | REREAD_DUPLICATE
  | OBSERVER_DIVERGENCE
  | AGENT_ASSERTED
  deriving DecidableEq, Repr

/-- A typed edge between two particles. -/
structure ParticleRelationRow where
  particleA : String
  particleB : String
  relationType : RelationType
  createdBy : RelationCreatedBy
  deriving DecidableEq, Repr

/-- The primary key of `particle_relations`. -/
def ParticleRelationRow.key (rel : ParticleRelationRow) : String × String × RelationType :=
  (rel.particleA, rel.particleB, rel.relationType)

/-! ### Corpus -/

/-- How a source's content may change. -/
inductive Mutability where
  | APPEND_ONLY
  | MUTABLE
  | STABLE
  | EPHEMERAL
  deriving DecidableEq, Repr

/-- A document's canonical key, and the keys on its direct supersession edges. -/
structure DocumentRelation where
  key : String
  supersedes : List String := []
  supersededBy : List String := []
  deriving DecidableEq, Repr

/-- A source document. -/
structure CorpusEntryRow where
  entryId : String
  uriR : Option String := none
  sourceType : String := ""
  mutability : Mutability := .MUTABLE
  tags : List String := []
  depositedBy : String := ""
  /-- the column `document_supersession_json`, decoded -/
  documentSupersession : Option DocumentRelation := none
  deriving DecidableEq, Repr

/-- What a capture found. -/
inductive WarcRecordType where
  | RESPONSE
  | REVISIT
  | ABSENT
  deriving DecidableEq, Repr

/-- How far a captured record has been processed. -/
inductive ExtractionStatus where
  | PENDING
  | IN_PROGRESS
  | COMPLETE
  | FAILED
  deriving DecidableEq, Repr

/-- One captured record of a corpus entry. -/
structure SnapshotRow where
  snapshotId : String
  entryId : String
  capturedAt : Instant
  warcRecordType : WarcRecordType := .RESPONSE
  extractionStatus : ExtractionStatus := .PENDING
  /-- set when the bulk paths skipped this record for a newer one -/
  supersededBySnapshotId : Option String := none
  archivePath : Option String := none
  contentPublishedAt : Option Instant := none
  deriving DecidableEq, Repr

/-! ### Source trust -/

/-- What a trust statement is about. -/
inductive SourceRefType where
  | CORPUS_ENTRY
  | AUTHOR
  | SOURCE_TYPE
  deriving DecidableEq, Repr

/-- Who stands behind a trust statement. -/
inductive PolicyProvenance where
  | OPERATOR_DIRECT
  | REGISTRY_ENDORSED
  | REVIEWER_DERIVED
  deriving DecidableEq, Repr

/-- A statement that a source has a rank within a knowledge domain. -/
structure TrustStatementRow where
  statementId : String
  domain : String
  sourceRefType : SourceRefType
  sourceRefValue : String
  trustRank : ℚ
  policyProvenance : PolicyProvenance
  assertedBy : String
  assertedAt : Instant
  basis : Option String := none
  reviewId : Option String := none
  deriving DecidableEq, Repr

/-- What a trust rule matches. -/
inductive TrustRuleScope where
  | domain
  | url_pattern
  deriving DecidableEq, Repr

/-- One trust rule: either a domain baseline score or a URL-pattern modifier. -/
structure SourceTrustRow where
  scope : TrustRuleScope
  pattern : String
  /-- domain rows only -/
  score : Option ℚ := none
  /-- url_pattern rows only -/
  modifier : Option ℚ := none
  deriving DecidableEq, Repr

/-- `upsert_trust_rule` keeps one rule for each scope and pattern. -/
def SourceTrustRow.key (row : SourceTrustRow) : TrustRuleScope × String :=
  (row.scope, row.pattern)

/-! ### Observer scope -/

/-- What a widening is about. -/
inductive ScopeTarget where
  | PARTICLE
  | CORPUS_ENTRY
  deriving DecidableEq, Repr

/-- An operator's statement that a particle, or everything from a source, is in view everywhere. -/
structure ObserverScopeStatementRow where
  targetKind : ScopeTarget
  targetId : String
  deriving DecidableEq, Repr

/-- The primary key of `observer_scope_statements`. -/
def ObserverScopeStatementRow.key (row : ObserverScopeStatementRow) : ScopeTarget × String :=
  (row.targetKind, row.targetId)

end ParticlesEngine
