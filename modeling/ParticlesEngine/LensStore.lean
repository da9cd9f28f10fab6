/-
**The store of trust lenses.**

A lens is kept once for each name, in its highest version.  Its layers are flattened into rows of one
nullable type and read back by a chain of guards, in whatever order the database yields the rows.

Main definitions:

* `LensRule`, `encodeRule`, `decodeEntry` — one rule of any layer, as a row and from a row;
* `entryRows`, `toDefinition` — the rows of a lens, and the lens of some rows;
* `LensStore`, `materialiseLens`, `getLens` — the store, its writer and its reader;
* `Current` — of the lenses deposited under a name, the one with the highest version.

Main results:

* `decodeEntry_encodeRule` — **every rule is read back from its row**;
* `toDefinition_entryRows` — a lens is read back up to the order of its rules;
* `materialiseLens_below`, `materialiseLens_above` — what one deposit does;
* `materialise_faithful` — **after any deposits a name has its highest version, and only the rows of
  current lenses are left**.
-/

import ParticlesEngine.MergedDict
import ParticlesEngine.TrustLens

set_option relaxedAutoImplicit false
set_option autoImplicit false

namespace ParticlesEngine

open MergedDict

/-! ### Values of the enumerations -/

def TrustRuleScope.value : TrustRuleScope → String
  | .domain => "domain"
  | .url_pattern => "url_pattern"

def DecayRuleScope.value : DecayRuleScope → String
  | .source_type => "source_type"
  | .url_pattern => "url_pattern"

def UtilityRuleScope.value : UtilityRuleScope → String
  | .default => "default"
  | .source_type => "source_type"
  | .url_pattern => "url_pattern"

def ModalityRuleScope.value : ModalityRuleScope → String
  | .particle => "particle"
  | .subject => "subject"
  | .url_pattern => "url_pattern"
  | .source_type => "source_type"

def AssertionModality.value : AssertionModality → String
  | .FALSIFIABLE => "FALSIFIABLE"
  | .EVALUATIVE => "EVALUATIVE"
  | .EXPERIENTIAL => "EXPERIENTIAL"
  | .CONSTITUTIVE => "CONSTITUTIVE"

/-- The member of an enumeration with a value. -/
def ofValue {α : Type} (members : List α) (value : α → String) (text : String) : Option α :=
  members.find? fun member => value member = text

def TRUST_RULE_SCOPES : List TrustRuleScope := [.domain, .url_pattern]

def UTILITY_RULE_SCOPES : List UtilityRuleScope := [.default, .source_type, .url_pattern]

def MODALITY_RULE_SCOPES : List ModalityRuleScope := [.particle, .subject, .url_pattern, .source_type]

def ASSERTION_MODALITIES : List AssertionModality :=
  [.FALSIFIABLE, .EVALUATIVE, .EXPERIENTIAL, .CONSTITUTIVE]

/-! ### Rows -/

/-- One materialised lens. -/
structure TrustLensRow where
  lensId : String
  name : String
  version : ℕ
  publisher : Option String := none
  description : Option String := none
  corpusEntryId : Option String := none
  materialisedAt : Instant
  deriving DecidableEq, Repr

/-- One policy entry of a lens, polymorphic by `entryKind`. -/
structure TrustLensEntryRow where
  lensId : String
  entryKind : String
  domain : Option String := none
  sourceType : Option String := none
  trustRank : Option ℚ := none
  basis : Option String := none
  pattern : Option String := none
  score : Option ℚ := none
  modifier : Option ℚ := none
  extractorId : Option String := none
  weight : Option ℚ := none
  halfLifeDays : Option ℚ := none
  floor : Option ℚ := none
  halfLifeUsesDays : Option ℚ := none
  rankLift : Option ℚ := none
  modality : Option String := none
  modalityWhen : Option String := none
  deriving DecidableEq, Repr

/-- One rule of any layer. -/
inductive LensRule where
  | statement (s : TrustLensStatement)
  | urlRule (r : TrustLensUrlRule)
  | extractorWeight (extractorId : String) (weight : ℚ)
  | decayRule (d : TrustLensDecayRule)
  | utilityRule (u : TrustLensUtilityRule)
  | modalityRule (m : TrustLensModalityRule)
  deriving DecidableEq

/-- The row of a rule. -/
def encodeRule (lensId : String) : LensRule → TrustLensEntryRow
  | .statement s =>
      { lensId, entryKind := "statement", domain := some s.domain, sourceType := some s.sourceType,
        trustRank := some s.trustRank, basis := s.basis }
  | .urlRule r =>
      { lensId, entryKind := r.scope.value, pattern := some r.pattern, score := r.score,
        modifier := r.modifier }
  | .extractorWeight extractorId weight =>
      { lensId, entryKind := "extractor_weight", extractorId := some extractorId,
        weight := some weight }
  | .decayRule d =>
      { lensId, entryKind := "decay_" ++ d.scope.value, pattern := some d.pattern,
        halfLifeDays := some d.halfLifeDays, floor := some d.floor }
  | .utilityRule u =>
      { lensId, entryKind := "utility_" ++ u.scope.value, pattern := u.pattern,
        halfLifeUsesDays := some u.halfLifeUsesDays, rankLift := some u.rankLift }
  | .modalityRule m =>
      { lensId, entryKind := "modality_" ++ m.scope.value, pattern := some m.pattern,
        modality := some m.modality.value, modalityWhen := m.when.map AssertionModality.value }

/-- The rules of a lens, layer after layer. -/
def TrustLensDefinition.rules (lens : TrustLensDefinition) : List LensRule :=
  lens.statements.map .statement ++ lens.urlRules.map .urlRule ++
    lens.extractorWeights.rows.map (fun item => .extractorWeight item.1 item.2) ++
    lens.decayRules.map .decayRule ++ lens.utilityRules.map .utilityRule ++
    lens.modalityRules.map .modalityRule

/-- **`_entry_rows`.** -/
def entryRows (lens : TrustLensDefinition) : List TrustLensEntryRow :=
  lens.rules.map (encodeRule lens.lensId)

/-! ### Reading rows -/

/-- What a read or a write of the store can raise. -/
inductive LensError where
  | ValueError
  | IntegrityError
  deriving DecidableEq, Repr

/-- A string that is present and not empty. -/
def truthy (text : Option String) : Option String := text.filter (· ≠ "")

/-- What stands behind the lead of an entry kind. -/
def behind (lead kind : String) : String := String.ofList (kind.toList.drop lead.length)

def decodeStatement (e : TrustLensEntryRow) : Option LensRule :=
  if e.entryKind = "statement" then do
    let domain ← truthy e.domain
    let sourceType ← truthy e.sourceType
    let trustRank ← e.trustRank
    return .statement { domain, sourceType, trustRank, basis := e.basis }
  else none

def decodeUrlRule (e : TrustLensEntryRow) : Option LensRule :=
  if e.entryKind ∈ ["domain", "url_pattern"] then do
    let pattern ← truthy e.pattern
    let scope ← ofValue TRUST_RULE_SCOPES TrustRuleScope.value e.entryKind
    return .urlRule { scope, pattern, score := e.score, modifier := e.modifier }
  else none

def decodeExtractorWeight (e : TrustLensEntryRow) : Option LensRule :=
  if e.entryKind = "extractor_weight" then do
    let extractorId ← truthy e.extractorId
    let weight ← e.weight
    return .extractorWeight extractorId weight
  else none

def decodeDecayRule (e : TrustLensEntryRow) : Option LensRule :=
  if e.entryKind ∈ ["decay_source_type", "decay_url_pattern"] then do
    let pattern ← truthy e.pattern
    let halfLifeDays ← e.halfLifeDays
    let floor ← e.floor
    let scope := if e.entryKind = "decay_source_type" then .source_type else .url_pattern
    return .decayRule { scope, pattern, halfLifeDays, floor }
  else none

/-- A row of the superseded vocabulary carries no `rank_lift`, so it is skipped. -/
def decodeUtilityRule (e : TrustLensEntryRow) : Option LensRule :=
  if e.entryKind ∈ ["utility_default", "utility_source_type", "utility_url_pattern"] then do
    let halfLifeUsesDays ← e.halfLifeUsesDays
    let rankLift ← e.rankLift
    let scope ← ofValue UTILITY_RULE_SCOPES UtilityRuleScope.value (behind "utility_" e.entryKind)
    return .utilityRule { scope, pattern := e.pattern, halfLifeUsesDays, rankLift }
  else none

/-- Entry kinds of the modality layer, one per rule scope. -/
def MODALITY_ENTRY_KINDS : List String :=
  ["modality_particle", "modality_subject", "modality_url_pattern", "modality_source_type"]

/-- `AssertionModality(text)`: a text that is no modality raises. -/
def parseModality (text : String) : Except LensError AssertionModality :=
  match ofValue ASSERTION_MODALITIES AssertionModality.value text with
  | some modality => .ok modality
  | none => .error .ValueError

def decodeModalityRule (e : TrustLensEntryRow) : Except LensError (Option LensRule) :=
  if e.entryKind ∈ MODALITY_ENTRY_KINDS then
    match truthy e.pattern, truthy e.modality,
      ofValue MODALITY_RULE_SCOPES ModalityRuleScope.value (behind "modality_" e.entryKind) with
    | some pattern, some text, some scope => do
        let modality ← parseModality text
        let when ← (truthy e.modalityWhen).mapM parseModality
        return some (.modalityRule { scope, pattern, modality, when })
    | _, _, _ => .ok none
  else .ok none

/-- The chain of guards: the first layer that takes the row. -/
def decodeEntry (e : TrustLensEntryRow) : Except LensError (Option LensRule) :=
  match (decodeStatement e).or <| (decodeUrlRule e).or <| (decodeExtractorWeight e).or <|
      (decodeDecayRule e).or (decodeUtilityRule e) with
  | some rule => .ok (some rule)
  | none => decodeModalityRule e

/-- The dict of the extractor weights; the last row of an extractor is kept. -/
def weightDict (items : List (String × ℚ)) : ExtractorWeights :=
  ⟨combine (fun _ weight => weight) items, nodup_keys_combine _ items⟩

/-- **`_to_definition`.** -/
def toDefinition (row : TrustLensRow) (entries : List TrustLensEntryRow) :
    Except LensError TrustLensDefinition := do
  let decoded ← entries.mapM decodeEntry
  let rules := decoded.filterMap id
  return {
    lensId := row.lensId
    name := row.name
    version := row.version
    publisher := row.publisher
    description := row.description
    statements := rules.filterMap fun | .statement s => some s | _ => none
    urlRules := rules.filterMap fun | .urlRule r => some r | _ => none
    extractorWeights := weightDict <| rules.filterMap fun
      | .extractorWeight extractorId weight => some (extractorId, weight)
      | _ => none
    decayRules := rules.filterMap fun | .decayRule d => some d | _ => none
    utilityRules := rules.filterMap fun | .utilityRule u => some u | _ => none
    modalityRules := rules.filterMap fun | .modalityRule m => some m | _ => none
    corpusEntryId := row.corpusEntryId }

/-! ### The store -/

/-- The event that a materialisation records. -/
structure LensMaterialised where
  name : String
  version : ℕ
  replacedVersion : Option ℕ
  deriving DecidableEq, Repr

/-- The tables of the lenses; a name is unique among them. -/
structure LensStore where
  lenses : Table TrustLensRow.lensId := .empty
  names : (lenses.rows.map TrustLensRow.name).Nodup := by exact List.nodup_nil
  entries : List TrustLensEntryRow := []
  events : List LensMaterialised := []

/-- What the store reads of its process. -/
structure LensEnv where
  /-- Python's `repr` of a string -/
  repr : String → String
  /-- the order in which the database yields rows, which the query leaves open -/
  yields : List TrustLensEntryRow → List TrustLensEntryRow
  yields_perm : ∀ rows, (yields rows).Perm rows

namespace LensStore

/-- The row of a name. -/
def lensNamed (st : LensStore) (name : String) : Option TrustLensRow :=
  st.lenses.rows.find? fun row => row.name = name

/-- Delete a lens and its entry rows. -/
def delete (st : LensStore) (lensId : String) : LensStore :=
  { st with
    lenses := st.lenses.filter fun row => row.lensId ≠ lensId
    names := st.names.sublist ((List.filter_sublist).map TrustLensRow.name)
    entries := st.entries.filter fun e => e.lensId ≠ lensId }

/-- Insert the row of a lens; both constraints of the table must hold. -/
def insertRow (st : LensStore) (row : TrustLensRow) : Option LensStore :=
  if h : row.name ∉ st.lenses.rows.map TrustLensRow.name ∧
      row.lensId ∉ st.lenses.rows.map TrustLensRow.lensId then
    some { st with
      lenses := ⟨st.lenses.rows ++ [row], by
        rw [List.map_append, List.nodup_append]
        refine ⟨st.lenses.nodup, List.nodup_singleton _, ?_⟩
        rintro id hid _ hid' rfl
        exact h.2 (List.mem_singleton.1 hid' ▸ hid)⟩
      names := by
        show ((st.lenses.rows ++ [row]).map TrustLensRow.name).Nodup
        rw [List.map_append, List.nodup_append]
        refine ⟨st.names, List.nodup_singleton _, ?_⟩
        rintro name hname _ hname' rfl
        exact h.1 (List.mem_singleton.1 hname' ▸ hname) }
  else none

end LensStore

/-- The reason a version is rejected for. -/
def rejection (env : LensEnv) (lens : TrustLensDefinition) (existing : TrustLensRow) : String :=
  "TrustLensDefinition " ++ env.repr lens.name ++ " v" ++ toString lens.version ++
    " not materialised: v" ++ toString existing.version ++
    " is already current (versions are monotonic)."

def TrustLensDefinition.row (lens : TrustLensDefinition) (now : Instant) : TrustLensRow where
  lensId := lens.lensId
  name := lens.name
  version := lens.version
  publisher := lens.publisher
  description := lens.description
  corpusEntryId := lens.corpusEntryId
  materialisedAt := now

/-- Write a lens whose name is free. -/
def writeLens (st : LensStore) (now : Instant) (lens : TrustLensDefinition)
    (replacedVersion : Option ℕ) : Except LensError LensStore :=
  match st.insertRow (lens.row now) with
  | none => .error .IntegrityError
  | some st => .ok { st with
      entries := st.entries ++ entryRows lens
      events := st.events ++ [⟨lens.name, lens.version, replacedVersion⟩] }

/-- **`materialise_lens`**: the reason of a rejection, if the version is not above the current one. -/
def materialiseLens (env : LensEnv) (now : Instant) (st : LensStore) (lens : TrustLensDefinition) :
    Except LensError (LensStore × Option String) :=
  match st.lensNamed lens.name with
  | some existing =>
      if lens.version ≤ existing.version then .ok (st, some (rejection env lens existing))
      else (writeLens (st.delete existing.lensId) now lens (some existing.version)).map (·, none)
  | none => (writeLens st now lens none).map (·, none)

/-- **`get_lens`.** -/
def getLens (env : LensEnv) (st : LensStore) (name : String) :
    Except LensError (Option TrustLensDefinition) :=
  match st.lensNamed name with
  | none => .ok none
  | some row => (toDefinition row (env.yields (st.entries.filter fun e =>
      e.lensId = row.lensId))).map some

/-! ### Every rule is read back -/

/-- The required fields of a rule are not empty. -/
def LensRule.Required : LensRule → Prop
  | .statement s => s.domain ≠ "" ∧ s.sourceType ≠ ""
  | .urlRule r => r.pattern ≠ ""
  | .extractorWeight extractorId _ => extractorId ≠ ""
  | .decayRule d => d.pattern ≠ ""
  | .utilityRule _ => True
  | .modalityRule m => m.pattern ≠ ""

theorem truthy_some {text : String} (h : text ≠ "") : truthy (some text) = some text := by
  simp [truthy, Option.filter, h]

@[simp] theorem parseModality_value (modality : AssertionModality) :
    parseModality modality.value = .ok modality := by
  cases modality <;> rfl

theorem AssertionModality.value_ne_empty (modality : AssertionModality) : modality.value ≠ "" := by
  cases modality <;> decide

/-- The entry kinds of one layer are not those of another. -/
theorem decodeStatement_of_ne {e : TrustLensEntryRow} (h : e.entryKind ≠ "statement") :
    decodeStatement e = none := if_neg h

theorem decodeUrlRule_of_not_mem {e : TrustLensEntryRow}
    (h : e.entryKind ∉ ["domain", "url_pattern"]) : decodeUrlRule e = none := if_neg h

theorem decodeExtractorWeight_of_ne {e : TrustLensEntryRow}
    (h : e.entryKind ≠ "extractor_weight") : decodeExtractorWeight e = none := if_neg h

theorem decodeDecayRule_of_not_mem {e : TrustLensEntryRow}
    (h : e.entryKind ∉ ["decay_source_type", "decay_url_pattern"]) : decodeDecayRule e = none :=
  if_neg h

theorem decodeUtilityRule_of_not_mem {e : TrustLensEntryRow}
    (h : e.entryKind ∉ ["utility_default", "utility_source_type", "utility_url_pattern"]) :
    decodeUtilityRule e = none := if_neg h

theorem decodeStatement_encode (lensId : String) {s : TrustLensStatement} (hdomain : s.domain ≠ "")
    (hsource : s.sourceType ≠ "") :
    decodeStatement (encodeRule lensId (.statement s)) = some (.statement s) := by
  rw [decodeStatement, if_pos (by exact rfl)]
  simp only [encodeRule, truthy_some hdomain, truthy_some hsource]
  rfl

theorem decodeUrlRule_encode (lensId : String) {r : TrustLensUrlRule} (h : r.pattern ≠ "") :
    decodeUrlRule (encodeRule lensId (.urlRule r)) = some (.urlRule r) := by
  obtain ⟨scope, pattern, score, modifier⟩ := r
  have hkind : scope.value ∈ ["domain", "url_pattern"] := by cases scope <;> decide
  have hscope : ofValue TRUST_RULE_SCOPES TrustRuleScope.value scope.value = some scope := by
    cases scope <;> decide
  rw [decodeUrlRule, if_pos (by exact hkind)]
  simp only [encodeRule, truthy_some h, hscope]
  rfl

theorem decodeExtractorWeight_encode {lensId extractorId : String} (h : extractorId ≠ "")
    (weight : ℚ) : decodeExtractorWeight (encodeRule lensId (.extractorWeight extractorId weight)) =
      some (.extractorWeight extractorId weight) := by
  rw [decodeExtractorWeight, if_pos (by exact rfl)]
  simp only [encodeRule, truthy_some h]
  rfl

theorem decodeDecayRule_encode (lensId : String) {d : TrustLensDecayRule} (h : d.pattern ≠ "") :
    decodeDecayRule (encodeRule lensId (.decayRule d)) = some (.decayRule d) := by
  obtain ⟨scope, pattern, halfLifeDays, floor⟩ := d
  cases scope with
  | source_type =>
      have hkind : "decay_" ++ DecayRuleScope.source_type.value = "decay_source_type" := by decide
      simp only [decodeDecayRule, encodeRule, hkind, truthy_some h, List.mem_cons, true_or, if_true]
      rfl
  | url_pattern =>
      have hkind : "decay_" ++ DecayRuleScope.url_pattern.value = "decay_url_pattern" := by decide
      have hother : "decay_url_pattern" ≠ "decay_source_type" := by decide
      simp only [decodeDecayRule, encodeRule, hkind, truthy_some h, List.mem_cons, true_or, or_true,
        if_true, if_neg hother]
      rfl

theorem decodeUtilityRule_encode (lensId : String) (u : TrustLensUtilityRule) :
    decodeUtilityRule (encodeRule lensId (.utilityRule u)) = some (.utilityRule u) := by
  obtain ⟨scope, pattern, halfLifeUsesDays, rankLift⟩ := u
  have hkind : "utility_" ++ scope.value ∈
      ["utility_default", "utility_source_type", "utility_url_pattern"] := by
    cases scope <;> decide
  have hscope : ofValue UTILITY_RULE_SCOPES UtilityRuleScope.value
      (behind "utility_" ("utility_" ++ scope.value)) = some scope := by
    cases scope <;> decide
  rw [decodeUtilityRule, if_pos (by exact hkind)]
  simp only [encodeRule, hscope]
  rfl

theorem decodeModalityRule_encode (lensId : String) {m : TrustLensModalityRule}
    (h : m.pattern ≠ "") :
    decodeModalityRule (encodeRule lensId (.modalityRule m)) = .ok (some (.modalityRule m)) := by
  obtain ⟨scope, pattern, modality, when⟩ := m
  have hkind : "modality_" ++ scope.value ∈ MODALITY_ENTRY_KINDS := by cases scope <;> decide
  have hscope : ofValue MODALITY_RULE_SCOPES ModalityRuleScope.value
      (behind "modality_" ("modality_" ++ scope.value)) = some scope := by
    cases scope <;> decide
  rw [decodeModalityRule, if_pos (by exact hkind)]
  simp only [encodeRule, truthy_some h, truthy_some modality.value_ne_empty, hscope,
    parseModality_value]
  cases when with
  | none => rfl
  | some when =>
      simp only [Option.map_some, truthy_some when.value_ne_empty, Option.mapM_some,
        parseModality_value]
      rfl

/-- **Every rule is read back from its row**: its layer takes the row, and no layer before it does. -/
theorem decodeEntry_encodeRule (lensId : String) {rule : LensRule} (h : rule.Required) :
    decodeEntry (encodeRule lensId rule) = .ok (some rule) := by
  cases rule with
  | statement s => rw [decodeEntry, decodeStatement_encode lensId h.1 h.2, Option.some_or]
  | urlRule r =>
      have hstatement : r.scope.value ≠ "statement" := by cases r.scope <;> decide
      rw [decodeEntry, decodeStatement_of_ne (by exact hstatement), decodeUrlRule_encode lensId h,
        Option.none_or, Option.some_or]
  | extractorWeight extractorId weight =>
      have hkind : "extractor_weight" ≠ "statement" ∧
          "extractor_weight" ∉ ["domain", "url_pattern"] := by decide
      rw [decodeEntry, decodeStatement_of_ne (by exact hkind.1),
        decodeUrlRule_of_not_mem (by exact hkind.2), decodeExtractorWeight_encode h,
        Option.none_or, Option.none_or, Option.some_or]
  | decayRule d =>
      have hkind : "decay_" ++ d.scope.value ≠ "statement" ∧
          "decay_" ++ d.scope.value ∉ ["domain", "url_pattern"] ∧
          "decay_" ++ d.scope.value ≠ "extractor_weight" := by
        cases d.scope <;> decide
      rw [decodeEntry, decodeStatement_of_ne (by exact hkind.1),
        decodeUrlRule_of_not_mem (by exact hkind.2.1),
        decodeExtractorWeight_of_ne (by exact hkind.2.2), decodeDecayRule_encode lensId h,
        Option.none_or, Option.none_or, Option.none_or, Option.some_or]
  | utilityRule u =>
      have hkind : "utility_" ++ u.scope.value ≠ "statement" ∧
          "utility_" ++ u.scope.value ∉ ["domain", "url_pattern"] ∧
          "utility_" ++ u.scope.value ≠ "extractor_weight" ∧
          "utility_" ++ u.scope.value ∉ ["decay_source_type", "decay_url_pattern"] := by
        cases u.scope <;> decide
      rw [decodeEntry, decodeStatement_of_ne (by exact hkind.1),
        decodeUrlRule_of_not_mem (by exact hkind.2.1),
        decodeExtractorWeight_of_ne (by exact hkind.2.2.1),
        decodeDecayRule_of_not_mem (by exact hkind.2.2.2), decodeUtilityRule_encode lensId u,
        Option.none_or, Option.none_or, Option.none_or, Option.none_or]
  | modalityRule m =>
      have hkind : "modality_" ++ m.scope.value ≠ "statement" ∧
          "modality_" ++ m.scope.value ∉ ["domain", "url_pattern"] ∧
          "modality_" ++ m.scope.value ≠ "extractor_weight" ∧
          "modality_" ++ m.scope.value ∉ ["decay_source_type", "decay_url_pattern"] ∧
          "modality_" ++ m.scope.value ∉
            ["utility_default", "utility_source_type", "utility_url_pattern"] := by
        cases m.scope <;> decide
      rw [decodeEntry, decodeStatement_of_ne (by exact hkind.1),
        decodeUrlRule_of_not_mem (by exact hkind.2.1),
        decodeExtractorWeight_of_ne (by exact hkind.2.2.1),
        decodeDecayRule_of_not_mem (by exact hkind.2.2.2.1),
        decodeUtilityRule_of_not_mem (by exact hkind.2.2.2.2),
        Option.none_or, Option.none_or, Option.none_or, Option.none_or]
      exact decodeModalityRule_encode lensId h

/-- The rows of some rules, in any order, are read back as the rules in some order. -/
theorem mapM_decodeEntry {lensId : String} {rules : List LensRule} {entries : List TrustLensEntryRow}
    (hrules : ∀ rule ∈ rules, rule.Required)
    (hperm : entries.Perm (rules.map (encodeRule lensId))) :
    ∃ read : List LensRule, entries.mapM decodeEntry = .ok (read.map some) ∧ read.Perm rules := by
  have hrows : List.Forall₂ (fun e rule => e = encodeRule lensId rule)
      (rules.map (encodeRule lensId)) rules :=
    List.forall₂_map_left_iff.2 (List.forall₂_same.2 fun _ _ => rfl)
  obtain ⟨read, hread, hread'⟩ := List.perm_comp_forall₂ hperm hrows
  refine ⟨read, ?_, hread'⟩
  have hrequired : ∀ rule ∈ read, rule.Required := fun rule hrule =>
    hrules rule (hread'.mem_iff.1 hrule)
  clear hread' hperm hrows
  induction hread with
  | nil => rfl
  | @cons e rule entries read he _ ih =>
      subst he
      rw [List.mapM_cons, decodeEntry_encodeRule lensId (hrequired rule List.mem_cons_self),
        ih fun r hr => hrequired r (List.mem_cons_of_mem _ hr)]
      rfl

/-- The required fields of all rules of a lens are not empty. -/
def TrustLensDefinition.Required (lens : TrustLensDefinition) : Prop :=
  ∀ rule ∈ lens.rules, rule.Required

/-- Weights with extractors of their own are kept by the dict. -/
theorem weightDict_perm {items : List (String × ℚ)} {weights : ExtractorWeights}
    (h : items.Perm weights.rows) : (weightDict items).rows.Perm weights.rows := by
  have hkeys : (items.map Prod.fst).Nodup := (h.map Prod.fst).nodup_iff.2 weights.nodup
  show (combine (fun _ weight => weight) items).Perm weights.rows
  rw [combine_of_nodup _ hkeys]
  exact h

/-- **A lens is read back from its rows up to the order of its rules.** -/
theorem toDefinition_entryRows {lens : TrustLensDefinition} (hrequired : lens.Required)
    (now : Instant) {entries : List TrustLensEntryRow} (hperm : entries.Perm (entryRows lens)) :
    ∃ definition, toDefinition (lens.row now) entries = .ok definition ∧
      definition.SamePolicy lens := by
  obtain ⟨read, hmapM, hread⟩ := mapM_decodeEntry hrequired hperm
  have hlayer : ∀ {β : Type} {f : LensRule → Option β} {layer : List β},
      lens.rules.filterMap f = layer → (((read.map some).filterMap id).filterMap f).Perm layer := by
    rintro β f _ rfl
    rw [List.filterMap_map, Function.id_comp, List.filterMap_some]
    exact hread.filterMap f
  refine ⟨_, by rw [toDefinition, hmapM]; rfl, ?_⟩
  exact {
    lensId := rfl
    name := rfl
    version := rfl
    publisher := rfl
    description := rfl
    statements := hlayer (by simp [TrustLensDefinition.rules])
    urlRules := hlayer (by simp [TrustLensDefinition.rules])
    extractorWeights := weightDict_perm (hlayer (by simp [TrustLensDefinition.rules]))
    decayRules := hlayer (by simp [TrustLensDefinition.rules])
    utilityRules := hlayer (by simp [TrustLensDefinition.rules])
    modalityRules := hlayer (by simp [TrustLensDefinition.rules])
    corpusEntryId := rfl }

/-! ### One deposit -/

theorem LensStore.lensNamed_eq_none {st : LensStore} {name : String} :
    st.lensNamed name = none ↔ ∀ row ∈ st.lenses.rows, row.name ≠ name := by
  simp [LensStore.lensNamed]

theorem LensStore.lensNamed_eq_some {st : LensStore} {name : String} {row : TrustLensRow} :
    st.lensNamed name = some row ↔ row ∈ st.lenses.rows ∧ row.name = name := by
  have hnamed : ∀ found, st.lensNamed name = some found →
      found ∈ st.lenses.rows ∧ found.name = name := by
    intro found hfound
    have hmem := List.mem_of_find?_eq_some hfound
    have hname := List.find?_some hfound
    exact ⟨hmem, by simpa using hname⟩
  refine ⟨hnamed row, fun ⟨hrow, hname⟩ => ?_⟩
  cases hfound : st.lensNamed name with
  | none => exact absurd hname (LensStore.lensNamed_eq_none.1 hfound row hrow)
  | some found =>
      obtain ⟨hmem, hsame⟩ := hnamed found hfound
      rw [List.inj_on_of_nodup_map st.names hmem hrow (hsame.trans hname.symm)]

/-- **A deposit that is not above the current version is rejected, and changes nothing.** -/
theorem materialiseLens_below (env : LensEnv) (now : Instant) {st : LensStore}
    {lens : TrustLensDefinition} {existing : TrustLensRow}
    (hexisting : st.lensNamed lens.name = some existing) (h : lens.version ≤ existing.version) :
    materialiseLens env now st lens = .ok (st, some (rejection env lens existing)) := by
  rw [materialiseLens, hexisting]
  exact if_pos h

/-- A lens is written where its name and its id are free. -/
theorem writeLens_of_free {st : LensStore} (now : Instant) {lens : TrustLensDefinition}
    (replacedVersion : Option ℕ) (hname : ∀ row ∈ st.lenses.rows, row.name ≠ lens.name)
    (hid : ∀ row ∈ st.lenses.rows, row.lensId ≠ lens.lensId) :
    ∃ st', writeLens st now lens replacedVersion = .ok st' ∧
      st'.lenses.rows = st.lenses.rows ++ [lens.row now] ∧
      st'.entries = st.entries ++ entryRows lens := by
  have hfree : (lens.row now).name ∉ st.lenses.rows.map TrustLensRow.name ∧
      (lens.row now).lensId ∉ st.lenses.rows.map TrustLensRow.lensId := by
    simpa [TrustLensDefinition.row] using ⟨hname, hid⟩
  rw [writeLens, LensStore.insertRow, dif_pos hfree]
  exact ⟨_, rfl, rfl, rfl⟩

/-- **A deposit above the current version replaces the row of the name, and its entry rows.** -/
theorem materialiseLens_above (env : LensEnv) (now : Instant) {st : LensStore}
    {lens : TrustLensDefinition} (hid : ∀ row ∈ st.lenses.rows, row.lensId ≠ lens.lensId)
    (h : ∀ existing, st.lensNamed lens.name = some existing → existing.version < lens.version) :
    ∃ st', materialiseLens env now st lens = .ok (st', none) ∧
      st'.lenses.rows = (st.lenses.rows.filter fun row => row.name ≠ lens.name) ++ [lens.row now] ∧
      st'.entries = (st.entries.filter fun e =>
        some e.lensId ≠ (st.lensNamed lens.name).map TrustLensRow.lensId) ++ entryRows lens := by
  cases hexisting : st.lensNamed lens.name with
  | none =>
      have hname := LensStore.lensNamed_eq_none.1 hexisting
      obtain ⟨st', hwrite, hrows, hentries⟩ := writeLens_of_free now none hname hid
      refine ⟨st', by simp only [materialiseLens, hexisting, hwrite]; rfl, ?_, ?_⟩
      · rw [hrows, List.filter_eq_self.2 fun row hrow => decide_eq_true (hname row hrow)]
      · rw [hentries]
        simp
  | some existing =>
      obtain ⟨hmem, hname⟩ := LensStore.lensNamed_eq_some.1 hexisting
      -- both constraints of the table make the row of the id the row of the name
      have hsame : ∀ row ∈ st.lenses.rows, row.lensId ≠ existing.lensId ↔ row.name ≠ lens.name := by
        intro row hrow
        rw [← hname, not_iff_not]
        exact ⟨fun hsame => congrArg _ (List.inj_on_of_nodup_map st.lenses.nodup hrow hmem hsame),
          fun hsame => congrArg _ (List.inj_on_of_nodup_map st.names hrow hmem hsame)⟩
      have hdelete : (st.delete existing.lensId).lenses.rows =
          st.lenses.rows.filter fun row => row.name ≠ lens.name :=
        List.filter_congr fun row hrow => decide_eq_decide.2 (hsame row hrow)
      have hname : ∀ row ∈ (st.delete existing.lensId).lenses.rows, row.name ≠ lens.name := by
        intro row hrow
        rw [hdelete, List.mem_filter] at hrow
        exact of_decide_eq_true hrow.2
      have hfree : ∀ row ∈ (st.delete existing.lensId).lenses.rows, row.lensId ≠ lens.lensId :=
        fun row hrow => hid row (List.mem_filter.1 hrow).1
      obtain ⟨st', hwrite, hrows, hentries⟩ :=
        writeLens_of_free now (some existing.version) hname hfree
      have hversion : ¬ lens.version ≤ existing.version := not_le.2 (h existing hexisting)
      refine ⟨st', ?_, ?_, ?_⟩
      · simp only [materialiseLens, hexisting, if_neg hversion, hwrite]
        rfl
      · rw [hrows, hdelete]
      · rw [hentries]
        simp [LensStore.delete]

/-! ### Every sequence of deposits -/

/-- A call of `materialise_lens`: when, and the lens. -/
abbrev LensDeposit := Instant × TrustLensDefinition

/-- Deposit after deposit, into a store without lenses. -/
def materialiseAll (env : LensEnv) (calls : List LensDeposit) : Except LensError LensStore :=
  calls.foldlM (fun st call => (materialiseLens env call.1 st call.2).map Prod.fst) {}

theorem materialiseAll_concat (env : LensEnv) (calls : List LensDeposit) (last : LensDeposit) :
    materialiseAll env (calls ++ [last]) = (materialiseAll env calls).bind fun st =>
      (materialiseLens env last.1 st last.2).map Prod.fst := by
  simp only [materialiseAll, List.foldlM_append, List.foldlM_cons, List.foldlM_nil, bind_pure]
  rfl

/-- The deposit that is the first in the highest version among those under its name. -/
def Current (calls : List LensDeposit) (call : LensDeposit) : Prop :=
  ∃ before after, calls = before ++ call :: after ∧
    (∀ earlier ∈ before, earlier.2.name = call.2.name → earlier.2.version < call.2.version) ∧
    ∀ later ∈ after, later.2.name = call.2.name → later.2.version ≤ call.2.version

theorem Current.mem {calls : List LensDeposit} {call : LensDeposit} (h : Current calls call) :
    call ∈ calls := by
  obtain ⟨before, after, rfl, -, -⟩ := h
  simp

/-- No deposit under the name is in a higher version. -/
theorem Current.version_le {calls : List LensDeposit} {call other : LensDeposit}
    (h : Current calls call) (hother : other ∈ calls) (hname : other.2.name = call.2.name) :
    other.2.version ≤ call.2.version := by
  obtain ⟨before, after, rfl, hbefore, hafter⟩ := h
  rcases List.mem_append.1 hother with hin | hin
  · exact (hbefore other hin hname).le
  · rcases List.mem_cons.1 hin with rfl | hin
    · exact le_rfl
    · exact hafter other hin hname

/-- What is current after one more deposit. -/
theorem current_concat {calls : List LensDeposit} {last call : LensDeposit} :
    Current (calls ++ [last]) call ↔
      (call = last ∧ ∀ earlier ∈ calls, earlier.2.name = last.2.name →
        earlier.2.version < last.2.version) ∨
      (Current calls call ∧ (last.2.name = call.2.name → last.2.version ≤ call.2.version)) := by
  constructor
  · rintro ⟨before, after, hsplit, hbefore, hafter⟩
    rcases List.eq_nil_or_concat after with rfl | ⟨front, final, rfl⟩
    · obtain ⟨rfl, hlast⟩ := List.append_inj' hsplit rfl
      obtain rfl : last = call := by simpa using hlast
      exact .inl ⟨rfl, hbefore⟩
    · rw [List.concat_eq_append] at hsplit hafter
      rw [← List.cons_append, ← List.append_assoc] at hsplit
      obtain ⟨rfl, hlast⟩ := List.append_inj' hsplit rfl
      obtain rfl : last = final := by simpa using hlast
      exact .inr ⟨⟨before, front, rfl, hbefore, fun later hlater =>
        hafter later (List.mem_append_left _ hlater)⟩, hafter last (by simp)⟩
  · rintro (⟨rfl, hearlier⟩ | ⟨⟨before, after, rfl, hbefore, hafter⟩, hlast⟩)
    · exact ⟨calls, [], rfl, hearlier, fun _ hlater => nomatch hlater⟩
    · refine ⟨before, after ++ [last], by simp, hbefore, fun later hlater => ?_⟩
      rcases List.mem_append.1 hlater with hin | hin
      · exact hafter later hin
      · exact List.mem_singleton.1 hin ▸ hlast

/-- A name that has a deposit has a current one. -/
theorem exists_current {calls : List LensDeposit} {call : LensDeposit} (h : call ∈ calls) :
    ∃ current, Current calls current ∧ current.2.name = call.2.name := by
  induction calls using List.reverseRecOn generalizing call with
  | nil => exact nomatch h
  | append_singleton calls last ih =>
      by_cases hlast : ∀ earlier ∈ calls, earlier.2.name = last.2.name →
          earlier.2.version < last.2.version
      · by_cases hname : call.2.name = last.2.name
        · exact ⟨last, current_concat.2 (.inl ⟨rfl, hlast⟩), hname.symm⟩
        · have hin : call ∈ calls := by
            rcases List.mem_append.1 h with hin | hin
            · exact hin
            · exact absurd (congrArg (·.2.name) (List.mem_singleton.1 hin)) hname
          obtain ⟨current, hcurrent, hsame⟩ := ih hin
          exact ⟨current, current_concat.2 (.inr ⟨hcurrent, fun hother =>
            absurd (hsame.symm.trans hother.symm) hname⟩), hsame⟩
      · push Not at hlast
        obtain ⟨earlier, hearlier, hsameName, hversion⟩ := hlast
        have hin : ∃ other ∈ calls, other.2.name = call.2.name := by
          rcases List.mem_append.1 h with hin | hin
          · exact ⟨call, hin, rfl⟩
          · exact ⟨earlier, hearlier, List.mem_singleton.1 hin ▸ hsameName⟩
        obtain ⟨other, hother, hotherName⟩ := hin
        obtain ⟨current, hcurrent, hsame⟩ := ih hother
        refine ⟨current, current_concat.2 (.inr ⟨hcurrent, fun hlastName => ?_⟩),
          hsame.trans hotherName⟩
        exact hversion.trans (hcurrent.version_le hearlier (hsameName.trans hlastName))

theorem lensId_of_mem_entryRows {lens : TrustLensDefinition} {e : TrustLensEntryRow}
    (h : e ∈ entryRows lens) : e.lensId = lens.lensId := by
  obtain ⟨rule, -, rfl⟩ := List.mem_map.1 h
  cases rule <;> rfl

/-- What the store holds after some deposits: for each name the row and the entry rows of its current
deposit, and nothing else. -/
structure LensStore.Holds (calls : List LensDeposit) (st : LensStore) : Prop where
  mem_lenses : ∀ row, row ∈ st.lenses.rows ↔
    ∃ call, Current calls call ∧ row = call.2.row call.1
  entries_of : ∀ call, Current calls call →
    st.entries.filter (fun e => e.lensId = call.2.lensId) = entryRows call.2
  owned : ∀ e ∈ st.entries, ∃ call, Current calls call ∧ e.lensId = call.2.lensId

namespace LensStore.Holds

variable {calls : List LensDeposit} {st : LensStore}

theorem lensNamed_eq_some (h : Holds calls st) {name : String} {row : TrustLensRow} :
    st.lensNamed name = some row ↔
      ∃ call, Current calls call ∧ call.2.name = name ∧ row = call.2.row call.1 := by
  rw [LensStore.lensNamed_eq_some, h.mem_lenses]
  constructor
  · rintro ⟨⟨call, hcall, rfl⟩, hname⟩
    exact ⟨call, hcall, hname, rfl⟩
  · rintro ⟨call, hcall, hname, rfl⟩
    exact ⟨⟨call, hcall, rfl⟩, hname⟩

/-- A deposit that is not above the current one of its name leaves every current deposit current. -/
theorem reject (h : Holds calls st) {last : LensDeposit} {existing : TrustLensRow}
    (hexisting : st.lensNamed last.2.name = some existing)
    (hversion : last.2.version ≤ existing.version) : Holds (calls ++ [last]) st := by
  obtain ⟨kept, hkept, hname, rfl⟩ := h.lensNamed_eq_some.1 hexisting
  have hcurrent : ∀ call, Current (calls ++ [last]) call ↔ Current calls call := by
    intro call
    rw [current_concat]
    constructor
    · rintro (⟨-, hearlier⟩ | ⟨hcall, -⟩)
      · exact absurd (hearlier kept hkept.mem hname) (not_lt.2 hversion)
      · exact hcall
    · refine fun hcall => .inr ⟨hcall, fun hsame => ?_⟩
      exact hversion.trans (hcall.version_le hkept.mem (hname.trans hsame))
  exact {
    mem_lenses := fun row => by simp only [hcurrent, h.mem_lenses]
    entries_of := fun call hcall => h.entries_of call ((hcurrent call).1 hcall)
    owned := fun e he => by
      obtain ⟨call, hcall, hid⟩ := h.owned e he
      exact ⟨call, (hcurrent call).2 hcall, hid⟩ }

/-- A deposit above the current one of its name is current in its stead. -/
theorem current_replaced (h : Holds calls st) {last : LensDeposit}
    (habove : ∀ existing, st.lensNamed last.2.name = some existing →
      existing.version < last.2.version) (call : LensDeposit) :
    Current (calls ++ [last]) call ↔
      call = last ∨ (Current calls call ∧ call.2.name ≠ last.2.name) := by
  have hbelow : ∀ current, Current calls current → current.2.name = last.2.name →
      current.2.version < last.2.version := fun current hcurrent hname =>
    habove (current.2.row current.1) (h.lensNamed_eq_some.2 ⟨current, hcurrent, hname, rfl⟩)
  rw [current_concat]
  constructor
  · rintro (⟨rfl, -⟩ | ⟨hcall, hversion⟩)
    · exact .inl rfl
    · refine .inr ⟨hcall, fun hname => ?_⟩
      exact absurd (hversion hname.symm) (not_le.2 (hbelow call hcall hname))
  · rintro (rfl | ⟨hcall, hname⟩)
    · refine .inl ⟨rfl, fun earlier hearlier hsame => ?_⟩
      obtain ⟨current, hcurrent, hcurrentName⟩ := exists_current hearlier
      exact (hcurrent.version_le hearlier hcurrentName.symm).trans_lt
        (hbelow current hcurrent (hcurrentName.trans hsame))
    · exact .inr ⟨hcall, fun hsame => absurd hsame.symm hname⟩

/-- The entry rows of the replaced lens go, those of the others stay. -/
theorem replace (h : Holds calls st) {last : LensDeposit}
    (hids : ((calls ++ [last]).map fun call => call.2.lensId).Nodup)
    (habove : ∀ existing, st.lensNamed last.2.name = some existing →
      existing.version < last.2.version) {st' : LensStore}
    (hrows : st'.lenses.rows =
      (st.lenses.rows.filter fun row => row.name ≠ last.2.name) ++ [last.2.row last.1])
    (hentries : st'.entries = (st.entries.filter fun e =>
      some e.lensId ≠ (st.lensNamed last.2.name).map TrustLensRow.lensId) ++ entryRows last.2) :
    Holds (calls ++ [last]) st' := by
  have hcurrent := h.current_replaced habove
  have hnew : ∀ call ∈ calls, call.2.lensId ≠ last.2.lensId := by
    intro call hcall hsame
    rw [List.map_append, List.nodup_append] at hids
    exact hids.2.2 _ (List.mem_map_of_mem hcall) last.2.lensId (by simp) hsame
  refine ⟨fun row => ?_, fun call hcall => ?_, fun e he => ?_⟩
  · rw [hrows, List.mem_append, List.mem_filter, List.mem_singleton, h.mem_lenses]
    constructor
    · rintro (⟨⟨call, hcall, rfl⟩, hname⟩ | rfl)
      · exact ⟨call, (hcurrent call).2 (.inr ⟨hcall, of_decide_eq_true hname⟩), rfl⟩
      · exact ⟨last, (hcurrent last).2 (.inl rfl), rfl⟩
    · rintro ⟨call, hcall, rfl⟩
      rcases (hcurrent call).1 hcall with rfl | ⟨hcall, hname⟩
      · exact .inr rfl
      · exact .inl ⟨⟨call, hcall, rfl⟩, decide_eq_true hname⟩
  · rw [hentries, List.filter_append]
    rcases (hcurrent call).1 hcall with rfl | ⟨hcall, hname⟩
    · -- no entry row of the store has the new id
      have hold : (st.entries.filter fun e => some e.lensId ≠
          (st.lensNamed call.2.name).map TrustLensRow.lensId).filter
            (fun e => e.lensId = call.2.lensId) = [] := by
        rw [List.filter_eq_nil_iff]
        intro e he
        obtain ⟨owner, howner, hid⟩ := h.owned e (List.mem_filter.1 he).1
        simpa [hid] using hnew owner howner.mem
      have hown : (entryRows call.2).filter (fun e => e.lensId = call.2.lensId) =
          entryRows call.2 :=
        List.filter_eq_self.2 fun e he => decide_eq_true (lensId_of_mem_entryRows he)
      rw [hold, hown, List.nil_append]
    · have hother : (entryRows last.2).filter (fun e => e.lensId = call.2.lensId) = [] := by
        rw [List.filter_eq_nil_iff]
        intro e he
        simpa [lensId_of_mem_entryRows he] using (hnew call hcall.mem).symm
      -- the id of the replaced lens is another one, since the rows have other names
      have hkept : ∀ e : TrustLensEntryRow, e.lensId = call.2.lensId →
          some e.lensId ≠ (st.lensNamed last.2.name).map TrustLensRow.lensId := by
        intro e he hsame
        obtain ⟨existing, hexisting, hid⟩ := Option.map_eq_some_iff.1 hsame.symm
        obtain ⟨hmem, hexistingName⟩ := LensStore.lensNamed_eq_some.1 hexisting
        have hrow : call.2.row call.1 ∈ st.lenses.rows := (h.mem_lenses _).2 ⟨call, hcall, rfl⟩
        have hequal := List.inj_on_of_nodup_map st.lenses.nodup hmem hrow (hid.trans he)
        exact hname ((congrArg TrustLensRow.name hequal).symm.trans hexistingName)
      have hstays : (st.entries.filter fun e => some e.lensId ≠
          (st.lensNamed last.2.name).map TrustLensRow.lensId).filter
            (fun e => e.lensId = call.2.lensId) =
          st.entries.filter fun e => e.lensId = call.2.lensId := by
        rw [List.filter_filter]
        refine List.filter_congr fun e _ => ?_
        by_cases hid : e.lensId = call.2.lensId
        · simp only [hid, decide_true, Bool.true_and]
          exact decide_eq_true (hid ▸ hkept e hid)
        · simp [hid]
      rw [hother, hstays, List.append_nil, h.entries_of call hcall]
  · rw [hentries, List.mem_append, List.mem_filter] at he
    rcases he with ⟨he, hkept⟩ | he
    · obtain ⟨owner, howner, hid⟩ := h.owned e he
      refine ⟨owner, (hcurrent owner).2 (.inr ⟨howner, fun hname => ?_⟩), hid⟩
      have hnamed : st.lensNamed last.2.name = some (owner.2.row owner.1) :=
        h.lensNamed_eq_some.2 ⟨owner, howner, hname, rfl⟩
      rw [hnamed] at hkept
      exact of_decide_eq_true hkept (congrArg some hid)
    · exact ⟨last, (hcurrent last).2 (.inl rfl), lensId_of_mem_entryRows he⟩

end LensStore.Holds

/-- **Deposits under ids of their own never fail, and the store holds the current ones.** -/
theorem materialiseAll_holds (env : LensEnv) {calls : List LensDeposit}
    (hids : (calls.map fun call => call.2.lensId).Nodup) :
    ∃ st, materialiseAll env calls = .ok st ∧ LensStore.Holds calls st := by
  induction calls using List.reverseRecOn with
  | nil =>
      have hnone : ∀ call, ¬ Current [] call := fun call hcall => nomatch hcall.mem
      refine ⟨{}, rfl, fun row => ⟨fun h => (nomatch h), ?_⟩, ?_, fun e he => (nomatch he)⟩
      · rintro ⟨call, hcall, -⟩
        exact absurd hcall (hnone call)
      · exact fun call hcall => absurd hcall (hnone call)
  | append_singleton calls last ih =>
      have hfront : (calls.map fun call => call.2.lensId).Nodup := by
        rw [List.map_append] at hids
        exact hids.of_append_left
      obtain ⟨st, hst, hholds⟩ := ih hfront
      rw [materialiseAll_concat, hst]
      by_cases habove : ∀ existing, st.lensNamed last.2.name = some existing →
          existing.version < last.2.version
      · have hid : ∀ row ∈ st.lenses.rows, row.lensId ≠ last.2.lensId := by
          intro row hrow hsame
          obtain ⟨call, hcall, rfl⟩ := (hholds.mem_lenses row).1 hrow
          rw [List.map_append, List.nodup_append] at hids
          exact hids.2.2 _ (List.mem_map_of_mem hcall.mem) last.2.lensId (by simp) hsame
        obtain ⟨st', hstep, hrows, hentries⟩ := materialiseLens_above env last.1 hid habove
        refine ⟨st', ?_, hholds.replace hids habove hrows hentries⟩
        show (materialiseLens env last.1 st last.2).map Prod.fst = .ok st'
        rw [hstep]
        rfl
      · push Not at habove
        obtain ⟨existing, hexisting, hversion⟩ := habove
        refine ⟨st, ?_, hholds.reject hexisting hversion⟩
        show (materialiseLens env last.1 st last.2).map Prod.fst = .ok st
        rw [materialiseLens_below env last.1 hexisting hversion]
        rfl

/-- A current lens is read back. -/
theorem getLens_of_current (env : LensEnv) {calls : List LensDeposit} {st : LensStore}
    (h : LensStore.Holds calls st) {call : LensDeposit} (hcall : Current calls call)
    (hrequired : call.2.Required) :
    ∃ definition, getLens env st call.2.name = .ok (some definition) ∧
      definition.SamePolicy call.2 := by
  have hnamed : st.lensNamed call.2.name = some (call.2.row call.1) :=
    h.lensNamed_eq_some.2 ⟨call, hcall, rfl, rfl⟩
  have hperm : (env.yields (st.entries.filter fun e => e.lensId = call.2.lensId)).Perm
      (entryRows call.2) := h.entries_of call hcall ▸ env.yields_perm _
  obtain ⟨definition, hread, hsame⟩ := toDefinition_entryRows hrequired call.1 hperm
  refine ⟨definition, ?_, hsame⟩
  rw [getLens, hnamed]
  show (toDefinition _ _).map some = _
  rw [show (call.2.row call.1).lensId = call.2.lensId from rfl, hread]
  rfl

/-- **Materialisation is monotone and faithful.**  After any deposits under ids of their own, every
name has the lens deposited under it in the highest version, read back up to the order of its rules; a
further deposit that is not above it changes nothing; and every entry row is one of a current lens. -/
theorem materialise_faithful (env : LensEnv) (calls : List LensDeposit)
    (hids : (calls.map fun call => call.2.lensId).Nodup) :
    ∃ st, materialiseAll env calls = .ok st ∧
      (∀ name, ((∀ call ∈ calls, call.2.name ≠ name) ∧ getLens env st name = .ok none) ∨
        ∃ call, Current calls call ∧ call.2.name = name) ∧
      (∀ call, Current calls call →
        (call.2.Required → ∃ definition, getLens env st call.2.name = .ok (some definition) ∧
          definition.SamePolicy call.2) ∧
        (∀ now lens, lens.name = call.2.name → lens.version ≤ call.2.version →
          ∃ reason, materialiseLens env now st lens = .ok (st, some reason))) ∧
      ∀ e ∈ st.entries, ∃ call, Current calls call ∧ e ∈ entryRows call.2 := by
  obtain ⟨st, hst, h⟩ := materialiseAll_holds env hids
  refine ⟨st, hst, fun name => ?_, fun call hcall => ⟨getLens_of_current env h hcall, ?_⟩, ?_⟩
  · by_cases hname : ∀ call ∈ calls, call.2.name ≠ name
    · refine .inl ⟨hname, ?_⟩
      have hnone : st.lensNamed name = none := LensStore.lensNamed_eq_none.2 fun row hrow => by
        obtain ⟨call, hcall, rfl⟩ := (h.mem_lenses row).1 hrow
        exact hname call hcall.mem
      rw [getLens, hnone]
    · push Not at hname
      obtain ⟨call, hcall, rfl⟩ := hname
      exact .inr (exists_current hcall)
  · intro now lens hname hversion
    have hnamed : st.lensNamed lens.name = some (call.2.row call.1) :=
      h.lensNamed_eq_some.2 ⟨call, hcall, hname.symm, rfl⟩
    exact ⟨_, materialiseLens_below env now hnamed hversion⟩
  · intro e he
    obtain ⟨call, hcall, hid⟩ := h.owned e he
    refine ⟨call, hcall, ?_⟩
    rw [← h.entries_of call hcall]
    exact List.mem_filter.2 ⟨he, decide_eq_true hid⟩

/-- A lens with a rule in every layer. -/
def peerLens (lensId : String) (version : ℕ) : TrustLensDefinition where
  lensId := lensId
  name := "peer"
  version := version
  statements := [⟨"sports", "news", 7 / 10, none⟩]
  urlRules := [⟨.domain, "example.org", some (4 / 5), none⟩]
  extractorWeights := ⟨[("claude", 9 / 10)], List.nodup_singleton _⟩
  decayRules := [⟨.url_pattern, "*/archive/*", 30, 1 / 10⟩]
  utilityRules := [⟨.default, none, 14, 1 / 20⟩]
  modalityRules := [⟨.source_type, "review", .EVALUATIVE, some .FALSIFIABLE⟩]

/-- The third version arrives before the second, which is then rejected. -/
theorem materialise_faithful_peer :
    let calls : List LensDeposit := [(0, peerLens "l1" 1), (1, peerLens "l3" 3), (2, peerLens "l2" 2)]
    let env : LensEnv := ⟨id, List.reverse, List.reverse_perm⟩
    ∃ st, materialiseAll env calls = .ok st ∧
      ∃ definition, getLens env st "peer" = .ok (some definition) ∧
        definition.SamePolicy (peerLens "l3" 3) := by
  intro calls env
  have hcurrent : Current calls (1, peerLens "l3" 3) :=
    ⟨[(0, peerLens "l1" 1)], [(2, peerLens "l2" 2)], rfl, by decide, by decide⟩
  have hrequired : (peerLens "l3" 3).Required := by
    simp [TrustLensDefinition.Required, TrustLensDefinition.rules, peerLens, LensRule.Required]
  obtain ⟨st, hst, -, hread, -⟩ := materialise_faithful env calls (by decide)
  exact ⟨st, hst, (hread _ hcurrent).1 hrequired⟩

end ParticlesEngine
