/-
**Trust lenses.**

A lens bundles portable trust policy: it is deposited as a document, kept once for each name, and
adopted by stores.  Its layers are statements about source types, URL rules, extractor weights, and
rules for decay, utility and modality.

Main definitions:

* `TrustLensStatement`, `TrustLensUrlRule`, `TrustLensDecayRule`, `TrustLensUtilityRule`,
  `TrustLensModalityRule` — the rules of the layers;
* `TrustLensDefinition` — a lens;
* `TrustLensDefinition.SamePolicy` — two lenses with the same rules, in some order.
-/

import Mathlib.Algebra.Order.Ring.Rat
import ParticlesEngine.Schema
import ParticlesEngine.Table

set_option relaxedAutoImplicit false
set_option autoImplicit false

namespace ParticlesEngine

/-- One portable SOURCE_TYPE-scoped trust statement. -/
structure TrustLensStatement where
  domain : String
  sourceType : String
  trustRank : ℚ
  basis : Option String := none
  deriving DecidableEq, Repr

/-- One portable URL trust rule. -/
structure TrustLensUrlRule where
  scope : TrustRuleScope
  pattern : String
  score : Option ℚ := none
  modifier : Option ℚ := none
  deriving DecidableEq, Repr

/-- What a decay rule matches. -/
inductive DecayRuleScope where
  | source_type
  | url_pattern
  deriving DecidableEq, Repr

/-- One portable content-age decay rule. -/
structure TrustLensDecayRule where
  scope : DecayRuleScope
  pattern : String
  halfLifeDays : ℚ
  floor : ℚ
  deriving DecidableEq, Repr

/-- What a utility rule matches. -/
inductive UtilityRuleScope where
  | default
  | source_type
  | url_pattern
  deriving DecidableEq, Repr

/-- One portable usefulness rule. -/
structure TrustLensUtilityRule where
  scope : UtilityRuleScope := .default
  pattern : Option String := none
  halfLifeUsesDays : ℚ
  rankLift : ℚ
  deriving DecidableEq, Repr

/-- What a modality rule selects. -/
inductive ModalityRuleScope where
  | particle
  | subject
  | url_pattern
  | source_type
  deriving DecidableEq, Repr

/-- One portable override of the adjudicability default. -/
structure TrustLensModalityRule where
  scope : ModalityRuleScope
  pattern : String
  modality : AssertionModality
  when : Option AssertionModality := none
  deriving DecidableEq, Repr

/-- The extractor weights of a lens, by extractor id. -/
abbrev ExtractorWeights := Table (Prod.fst : String × ℚ → String)

/-- A depositable document bundling portable trust policy. -/
structure TrustLensDefinition where
  lensId : String
  name : String
  version : ℕ
  publisher : Option String := none
  description : Option String := none
  statements : List TrustLensStatement := []
  urlRules : List TrustLensUrlRule := []
  extractorWeights : ExtractorWeights := .empty
  decayRules : List TrustLensDecayRule := []
  utilityRules : List TrustLensUtilityRule := []
  modalityRules : List TrustLensModalityRule := []
  corpusEntryId : Option String := none
  deriving DecidableEq

/-- Two lenses are equal up to the order of the rules in each layer. -/
structure TrustLensDefinition.SamePolicy (a b : TrustLensDefinition) : Prop where
  lensId : a.lensId = b.lensId
  name : a.name = b.name
  version : a.version = b.version
  publisher : a.publisher = b.publisher
  description : a.description = b.description
  statements : a.statements.Perm b.statements
  urlRules : a.urlRules.Perm b.urlRules
  extractorWeights : a.extractorWeights.rows.Perm b.extractorWeights.rows
  decayRules : a.decayRules.Perm b.decayRules
  utilityRules : a.utilityRules.Perm b.utilityRules
  modalityRules : a.modalityRules.Perm b.modalityRules
  corpusEntryId : a.corpusEntryId = b.corpusEntryId

end ParticlesEngine
