/-
**Trust composed over adopted lenses.**

The policy of a query is the store's own, with what the adopted lenses assert under it.  A key that the
store asserts keeps the store's value; of the lenses the most sceptical one counts, where the modifiers
that one lens gives a URL pattern are summed first.  Extractor weights compose by another rule: the
store's own weight is one of the values that the least is taken of.

Main definitions:

* `loadTrustPolicy` — the policy composed over the adopted lenses;
* `getTrustWeightMap` — the extractor weights, composed and capped;
* `Reordered` — the lenses in another order, and the rules inside each;
* `ComposedFrom` — the local value, and without one the least that a lens asserts;
* `TrustLaw`, `WeightLaw` — the composition of every key of the policy, and of every weight.

Main results:

* `loadTrustPolicy_law`, `getTrustWeightMap_law` — **what every key has**;
* `evaluate_reordered` — **no order of the lenses or of their rules changes a rank**;
* `trust_composition` — the two together, with the weights;
* `local_weight_lowered` — a lens lowers a weight that the store asserts.
-/

import ParticlesEngine.MergedDict
import ParticlesEngine.SourceTrust
import ParticlesEngine.TrustLens

set_option relaxedAutoImplicit false
set_option autoImplicit false

namespace ParticlesEngine

open MergedDict

/-! ### The policy -/

abbrev StatementKey := String × SourceRefType × String

/-- The statements of a lens: they key on SOURCE_TYPE. -/
def TrustLensDefinition.statementPairs (lens : TrustLensDefinition) : List (StatementKey × ℚ) :=
  lens.statements.map fun s => ((s.domain, .SOURCE_TYPE, s.sourceType), s.trustRank)

/-- The domain scores of a lens. -/
def TrustLensDefinition.domainPairs (lens : TrustLensDefinition) : List (String × ℚ) :=
  lens.urlRules.filterMap fun r =>
    if r.scope = .domain then r.score.map fun score => (r.pattern, score) else none

/-- The URL-pattern modifiers of a lens. -/
def TrustLensDefinition.modifierPairs (lens : TrustLensDefinition) : List (String × ℚ) :=
  lens.urlRules.filterMap fun r =>
    if r.scope = .url_pattern then r.modifier.map fun modifier => (r.pattern, modifier) else none

/-- Modifiers sum within a lens. -/
def TrustLensDefinition.modifierSums (lens : TrustLensDefinition) : List (String × ℚ) :=
  combine (· + ·) lens.modifierPairs

/-- **`load_trust_policy`**: the local policy, and under it the adopted lenses, most sceptical wins. -/
def loadTrustPolicy (lib : UriLibrary) (store : Store) (lenses : List TrustLensDefinition) :
    TrustPolicy :=
  let parts := loadLocalTrustPolicy lib store
  let lensStatements := combine min (lenses.flatMap TrustLensDefinition.statementPairs)
  let lensDomains := combine min (lenses.flatMap TrustLensDefinition.domainPairs)
  let lensModifierSums := combine min (lenses.flatMap TrustLensDefinition.modifierSums)
  { statements := fun key => (parts.statements key).or (get lensStatements key)
    domainScores := fun pattern => (parts.domainScores pattern).or (get lensDomains pattern)
    urlPatterns := parts.urlPatterns ++ lensModifierSums.filter fun rule =>
      rule.1 ∉ parts.urlPatterns.map Prod.fst && lib.compiles rule.1 }

/-! ### The extractor weights -/

/-- A registered extractor. -/
structure ExtractorRow where
  extractorId : String
  trustWeight : ℚ := 7 / 10
  /-- set when the last conformance run showed an evaluable REQUIRED failure -/
  conformanceRequiredFailure : Option Bool := none
  deriving DecidableEq, Repr

/-- The conformance trust cap. -/
structure TrustCapConfig where
  enabled : Bool := false
  exempt : List String := []
  capValue : ℚ

/-- The cap applies to an extractor. -/
def TrustCapConfig.caps (cfg : TrustCapConfig) (row : ExtractorRow) : Bool :=
  cfg.enabled && row.conformanceRequiredFailure = some true && row.extractorId ∉ cfg.exempt

/-- `get_adopted_lens_extractor_weights`. -/
def getAdoptedLensExtractorWeights (lenses : List TrustLensDefinition) : List (String × ℚ) :=
  combine min (lenses.flatMap fun lens => lens.extractorWeights.rows)

/-- **`get_trust_weight_map`**: lens overrides and the cap compose in by minimum. -/
def getTrustWeightMap (records : Table ExtractorRow.extractorId) (cfg : TrustCapConfig)
    (lenses : List TrustLensDefinition) : List (String × ℚ) :=
  let weights := combineInto min (records.rows.map fun r => (r.extractorId, r.trustWeight))
    (getAdoptedLensExtractorWeights lenses)
  records.rows.foldl (fun weights r =>
    if cfg.caps r then
      upsert (fun current => min (current.getD r.trustWeight) cfg.capValue) r.extractorId weights
    else weights) weights

/-! ### The law -/

/-- The local value of a key, or else the least of the values that lenses assert. -/
structure ComposedFrom (localValue : Option ℚ) (asserted : Set ℚ) (value : Option ℚ) : Prop where
  keeps : ∀ rank, localValue = some rank → value = some rank
  least : localValue = none → ∀ rank, value = some rank ↔ IsLeast asserted rank
  silent : localValue = none → asserted = ∅ → value = none

/-- The values that some lens asserts for a key. -/
def assertedBy {κ : Type*} (lenses : List TrustLensDefinition)
    (pairs : TrustLensDefinition → List (κ × ℚ)) (key : κ) : Set ℚ :=
  {rank | ∃ lens ∈ lenses, (key, rank) ∈ pairs lens}

/-- The sums that lenses give a URL pattern, for each lens that gives it a modifier. -/
def summedBy (lenses : List TrustLensDefinition) (pattern : String) : Set ℚ :=
  {total | ∃ lens ∈ lenses, valuesOf lens.modifierPairs pattern ≠ [] ∧
    (valuesOf lens.modifierPairs pattern).sum = total}

/-- **The policy is local first and then most sceptical**, key by key; a pattern that does not compile
has no modifier, and no pattern has two. -/
structure TrustLaw (lib : UriLibrary) (store : Store) (lenses : List TrustLensDefinition) : Prop where
  statements : ∀ key, ComposedFrom ((loadLocalTrustPolicy lib store).statements key)
    (assertedBy lenses TrustLensDefinition.statementPairs key)
    ((loadTrustPolicy lib store lenses).statements key)
  domainScores : ∀ pattern, ComposedFrom ((loadLocalTrustPolicy lib store).domainScores pattern)
    (assertedBy lenses TrustLensDefinition.domainPairs pattern)
    ((loadTrustPolicy lib store lenses).domainScores pattern)
  urlPatterns : ∀ pattern, lib.compiles pattern = true →
    ComposedFrom (get (loadLocalTrustPolicy lib store).urlPatterns pattern)
      (summedBy lenses pattern) (get (loadTrustPolicy lib store lenses).urlPatterns pattern)
  invalid : ∀ pattern, lib.compiles pattern = false →
    get (loadTrustPolicy lib store lenses).urlPatterns pattern = none
  nodup : ((loadTrustPolicy lib store lenses).urlPatterns.map Prod.fst).Nodup

/-- The values that the least weight of an extractor is taken of: its own, those of the lenses, and the
cap where it applies. -/
def weightsOf (records : Table ExtractorRow.extractorId) (cfg : TrustCapConfig)
    (lenses : List TrustLensDefinition) (extractorId : String) : Set ℚ :=
  {weight | (∃ row ∈ records.rows, row.extractorId = extractorId ∧
      (row.trustWeight = weight ∨ cfg.caps row = true ∧ cfg.capValue = weight)) ∨
    ∃ lens ∈ lenses, (extractorId, weight) ∈ lens.extractorWeights.rows}

/-- **The weight of an extractor is the least of all that bear on it.** -/
def WeightLaw (records : Table ExtractorRow.extractorId) (cfg : TrustCapConfig)
    (lenses : List TrustLensDefinition) : Prop :=
  ∀ extractorId, (∀ weight, get (getTrustWeightMap records cfg lenses) extractorId = some weight ↔
      IsLeast (weightsOf records cfg lenses extractorId) weight) ∧
    (weightsOf records cfg lenses extractorId = ∅ →
      get (getTrustWeightMap records cfg lenses) extractorId = none)

/-- Two lenses assert the same, in some order of their rules. -/
structure SameRules (a b : TrustLensDefinition) : Prop where
  statements : a.statements.Perm b.statements
  urlRules : a.urlRules.Perm b.urlRules
  extractorWeights : a.extractorWeights.rows.Perm b.extractorWeights.rows

/-- **The lenses in another order**, the rules inside each in another order too. -/
def Reordered (lenses lenses' : List TrustLensDefinition) : Prop :=
  ∃ mid, lenses.Perm mid ∧ List.Forall₂ SameRules mid lenses'

/-! ### What every key has -/

section Law

variable {lib : UriLibrary} {store : Store} {lenses : List TrustLensDefinition}

/-- The least of the values that lenses give a key, under a local value. -/
theorem composedFrom_or {κ : Type*} [DecidableEq κ] {pairs : List (κ × ℚ)} {key : κ}
    {asserted : Set ℚ} (hmem : ∀ v, (key, v) ∈ pairs ↔ v ∈ asserted) (localValue : Option ℚ) :
    ComposedFrom localValue asserted (localValue.or (get (combine min pairs) key)) := by
  have hset : {v | v ∈ valuesOf pairs key} = asserted := by
    ext v
    exact mem_valuesOf.trans (hmem v)
  refine ⟨fun rank hrank => by rw [hrank, Option.some_or], fun hnone rank => ?_,
    fun hnone hempty => ?_⟩
  · rw [hnone, Option.none_or, get_combine, ← hset]
    exact reduce_eq_some_iff
  · rw [hnone, Option.none_or, get_combine_eq_none]
    intro v hv
    have hin := (hmem v).1 hv
    rw [hempty] at hin
    exact hin

theorem mem_flatMap_pairs {κ : Type*} {pairs : TrustLensDefinition → List (κ × ℚ)} {key : κ} (v : ℚ) :
    (key, v) ∈ lenses.flatMap pairs ↔ v ∈ assertedBy lenses pairs key :=
  List.mem_flatMap

/-- A lens gives a URL pattern the sum of its modifiers. -/
theorem mem_modifierSums {lens : TrustLensDefinition} {pattern : String} {total : ℚ} :
    (pattern, total) ∈ lens.modifierSums ↔ valuesOf lens.modifierPairs pattern ≠ [] ∧
      (valuesOf lens.modifierPairs pattern).sum = total := by
  rw [TrustLensDefinition.modifierSums, mem_combine_iff, reduce_add]
  split_ifs with hnil
  · simp [hnil]
  · simp [hnil]

theorem mem_flatMap_sums {pattern : String} (total : ℚ) :
    (pattern, total) ∈ lenses.flatMap TrustLensDefinition.modifierSums ↔
      total ∈ summedBy lenses pattern := by
  rw [List.mem_flatMap]
  exact exists_congr fun lens => and_congr_right fun _ => mem_modifierSums

/-- The local patterns compile, and each has one modifier. -/
theorem nodup_local_urlPatterns (lib : UriLibrary) (store : Store) :
    ((loadLocalTrustPolicy lib store).urlPatterns.map Prod.fst).Nodup := by
  have hrows : store.sourceTrust.rows.Pairwise fun a b => a.key ≠ b.key :=
    List.pairwise_map.1 store.sourceTrust.nodup
  rw [List.Nodup, List.pairwise_map]
  refine List.Pairwise.filterMap _ ?_ hrows
  intro a b hne pair hpair pair' hpair' hsame
  simp only [Option.ite_none_right_eq_some, Option.map_eq_some_iff] at hpair hpair'
  obtain ⟨⟨hscope, -⟩, modifier, -, rfl⟩ := hpair
  obtain ⟨⟨hscope', -⟩, modifier', -, rfl⟩ := hpair'
  exact hne (Prod.ext (hscope.trans hscope'.symm) hsame)

theorem compiles_of_mem_local {rule : String × ℚ}
    (h : rule ∈ (loadLocalTrustPolicy lib store).urlPatterns) : lib.compiles rule.1 = true := by
  obtain ⟨row, -, hrow⟩ := List.mem_filterMap.1 h
  simp only [Option.ite_none_right_eq_some, Option.map_eq_some_iff] at hrow
  obtain ⟨⟨-, hcompiles⟩, modifier, -, rfl⟩ := hrow
  exact hcompiles

/-- The modifier of a pattern that compiles: the local one, or else that of the lenses. -/
theorem get_urlPatterns (pattern : String) :
    get (loadTrustPolicy lib store lenses).urlPatterns pattern =
      (get (loadLocalTrustPolicy lib store).urlPatterns pattern).or
        (if lib.compiles pattern then
          get (combine min (lenses.flatMap TrustLensDefinition.modifierSums)) pattern else none) := by
  have hlocal := nodup_local_urlPatterns lib store
  rw [loadTrustPolicy, get_append, get_filter fun pattern =>
    pattern ∉ (loadLocalTrustPolicy lib store).urlPatterns.map Prod.fst && lib.compiles pattern]
  cases hget : get (loadLocalTrustPolicy lib store).urlPatterns pattern with
  | some modifier => rfl
  | none =>
      have hnew : pattern ∉ (loadLocalTrustPolicy lib store).urlPatterns.map Prod.fst := by
        intro hin
        obtain ⟨rule, hrule, rfl⟩ := List.mem_map.1 hin
        exact nomatch hget.symm.trans ((mem_iff_get hlocal).1 hrule)
      simp [hnew]

/-- **What every key of the policy has.** -/
theorem loadTrustPolicy_law (lib : UriLibrary) (store : Store) (lenses : List TrustLensDefinition) :
    TrustLaw lib store lenses where
  statements key := composedFrom_or mem_flatMap_pairs _
  domainScores pattern := composedFrom_or mem_flatMap_pairs _
  urlPatterns pattern hcompiles := by
    rw [get_urlPatterns, if_pos hcompiles]
    exact composedFrom_or mem_flatMap_sums _
  invalid pattern hcompiles := by
    rw [get_urlPatterns, if_neg (by simp [hcompiles]), Option.or_none]
    rw [Option.eq_none_iff_forall_ne_some]
    intro modifier hget
    have hmem := (mem_iff_get (nodup_local_urlPatterns lib store)).2 hget
    exact absurd (compiles_of_mem_local hmem) (by simp [hcompiles])
  nodup := by
    rw [loadTrustPolicy, List.map_append, List.nodup_append]
    refine ⟨nodup_local_urlPatterns lib store, ?_, ?_⟩
    · exact (nodup_keys_combine _ _).sublist ((List.filter_sublist).map Prod.fst)
    · rintro pattern hin _ hnew rfl
      obtain ⟨rule, hrule, rfl⟩ := List.mem_map.1 hnew
      have htest := (List.mem_filter.1 hrule).2
      simp only [Bool.and_eq_true, decide_eq_true_eq] at htest
      exact htest.1 hin

end Law

/-! ### Any order -/

section Order

variable {lib : UriLibrary} {store : Store} {lenses lenses' : List TrustLensDefinition}

theorem exists_of_forall₂ {α β : Type*} {R : α → β → Prop} {l : List α} {l' : List β}
    (h : List.Forall₂ R l l') {a : α} (ha : a ∈ l) : ∃ b ∈ l', R a b := by
  induction h with
  | nil => simp at ha
  | cons hfirst _ ih =>
      rcases List.mem_cons.1 ha with rfl | ha
      · exact ⟨_, List.mem_cons_self, hfirst⟩
      · obtain ⟨b, hb, hab⟩ := ih ha
        exact ⟨b, List.mem_cons_of_mem _ hb, hab⟩

/-- What holds of some lens holds of one in the other order, when the rules alone decide it. -/
theorem Reordered.exists_iff (h : Reordered lenses lenses') {P : TrustLensDefinition → Prop}
    (hP : ∀ a b, SameRules a b → (P a ↔ P b)) : (∃ a ∈ lenses, P a) ↔ ∃ b ∈ lenses', P b := by
  obtain ⟨mid, hperm, hrules⟩ := h
  constructor
  · rintro ⟨a, ha, hPa⟩
    obtain ⟨b, hb, hsame⟩ := exists_of_forall₂ hrules (hperm.mem_iff.1 ha)
    exact ⟨b, hb, (hP a b hsame).1 hPa⟩
  · rintro ⟨b, hb, hPb⟩
    obtain ⟨a, ha, hsame⟩ := exists_of_forall₂ hrules.flip hb
    exact ⟨a, hperm.mem_iff.2 ha, (hP a b hsame).2 hPb⟩

theorem SameRules.statementPairs {a b : TrustLensDefinition} (h : SameRules a b) :
    a.statementPairs.Perm b.statementPairs := h.statements.map _

theorem SameRules.domainPairs {a b : TrustLensDefinition} (h : SameRules a b) :
    a.domainPairs.Perm b.domainPairs := h.urlRules.filterMap _

theorem SameRules.modifierPairs {a b : TrustLensDefinition} (h : SameRules a b) :
    a.modifierPairs.Perm b.modifierPairs := h.urlRules.filterMap _

theorem Reordered.assertedBy_eq (h : Reordered lenses lenses') {κ : Type*}
    {pairs : TrustLensDefinition → List (κ × ℚ)} (hpairs : ∀ a b, SameRules a b → (pairs a).Perm (pairs b))
    (key : κ) : assertedBy lenses pairs key = assertedBy lenses' pairs key := by
  ext rank
  exact h.exists_iff fun a b hsame => (hpairs a b hsame).mem_iff

theorem Reordered.summedBy_eq (h : Reordered lenses lenses') (pattern : String) :
    summedBy lenses pattern = summedBy lenses' pattern := by
  ext total
  refine h.exists_iff fun a b hsame => ?_
  have hvalues : (valuesOf a.modifierPairs pattern).Perm (valuesOf b.modifierPairs pattern) :=
    (hsame.modifierPairs.filter _).map _
  rw [hvalues.sum_eq, Ne, Ne, ← List.length_eq_zero_iff, ← List.length_eq_zero_iff,
    hvalues.length_eq]

/-- The composition decides the value. -/
theorem ComposedFrom.unique {localValue value value' : Option ℚ} {asserted : Set ℚ}
    (h : ComposedFrom localValue asserted value) (h' : ComposedFrom localValue asserted value') :
    value = value' := by
  cases hlocal : localValue with
  | some rank => rw [h.keeps rank hlocal, h'.keeps rank hlocal]
  | none =>
      ext rank
      rw [h.least hlocal, h'.least hlocal]

variable (lib store) in
/-- **The keys of the policy have the same values in any order.** -/
theorem loadTrustPolicy_reordered (h : Reordered lenses lenses') :
    (loadTrustPolicy lib store lenses).statements = (loadTrustPolicy lib store lenses').statements ∧
    (loadTrustPolicy lib store lenses).domainScores =
      (loadTrustPolicy lib store lenses').domainScores ∧
    (loadTrustPolicy lib store lenses).urlPatterns.Perm
      (loadTrustPolicy lib store lenses').urlPatterns := by
  have hlaw := loadTrustPolicy_law lib store lenses
  have hlaw' := loadTrustPolicy_law lib store lenses'
  refine ⟨?_, ?_, perm_of_get_eq hlaw.nodup hlaw'.nodup fun pattern => ?_⟩
  · funext key
    have hkey := hlaw.statements key
    rw [h.assertedBy_eq fun _ _ => SameRules.statementPairs] at hkey
    exact hkey.unique (hlaw'.statements key)
  · funext pattern
    have hpattern := hlaw.domainScores pattern
    rw [h.assertedBy_eq fun _ _ => SameRules.domainPairs] at hpattern
    exact hpattern.unique (hlaw'.domainScores pattern)
  · cases hcompiles : lib.compiles pattern with
    | true =>
        have hpattern := hlaw.urlPatterns pattern hcompiles
        rw [h.summedBy_eq] at hpattern
        exact hpattern.unique (hlaw'.urlPatterns pattern hcompiles)
    | false => rw [hlaw.invalid pattern hcompiles, hlaw'.invalid pattern hcompiles]

/-- The URL layer sums the modifiers, in whatever order they stand. -/
theorem urlRank_congr {policy policy' : TrustPolicy}
    (hdomain : policy.domainScores = policy'.domainScores)
    (hperm : policy.urlPatterns.Perm policy'.urlPatterns) (uri : Option String) :
    urlRank lib policy uri = urlRank lib policy' uri := by
  cases uri with
  | none => rfl
  | some uri =>
      have hfold := hperm.foldl_eq' (f := fun (held : ℚ × Bool) rule =>
        if lib.search rule.1 uri then (held.1 + rule.2, true) else held) (by
          intro a _ b _ held
          split_ifs <;> simp [add_right_comm]) (0, false)
      simp only [urlRank, hdomain]
      rw [hfold]

/-- **No order of the lenses or of their rules changes a rank.** -/
theorem evaluate_reordered (h : Reordered lenses lenses') (inferDomain : String → Option String)
    (entryId : Option String) (sourceType : String) (uri authorId : Option String) :
    evaluate lib inferDomain (loadTrustPolicy lib store lenses) entryId sourceType uri authorId =
      evaluate lib inferDomain (loadTrustPolicy lib store lenses') entryId sourceType uri authorId := by
  obtain ⟨hstatements, hdomain, hperm⟩ := loadTrustPolicy_reordered lib store h
  rw [evaluate, evaluate, statementRank, statementRank, hstatements, urlRank_congr hdomain hperm]

/-- **A URL rank lies in the unit interval.** -/
theorem urlRank_mem_unit {policy : TrustPolicy} {uri : Option String} {rank : ℚ}
    (h : urlRank lib policy uri = .ok (some rank)) : 0 ≤ rank ∧ rank ≤ 1 := by
  have hclamp : ∀ score, 0 ≤ clampScore score ∧ clampScore score ≤ 1 := fun score =>
    ⟨le_max_left _ _, max_le zero_le_one (min_le_left _ _)⟩
  cases uri with
  | none => exact nomatch h
  | some uri =>
      have hscore : ∃ score, clampScore score = rank := by
        by_cases hfile : isFileUri uri = true
        · simp [urlRank, hfile] at h
        · cases hrows : domainRowsApply lib uri with
          | error err => simp [urlRank, hfile, hrows, bind, Except.bind] at h
          | ok applies =>
              cases applies with
              | false =>
                  simp only [urlRank, hfile, hrows, bind, Except.bind, pure, Except.pure,
                    Bool.false_eq_true, if_false, Except.ok.injEq,
                    Option.ite_none_left_eq_some, Option.some.injEq] at h
                  exact ⟨_, h.2⟩
              | true =>
                  cases hdomain : extractDomain lib uri with
                  | error err =>
                      simp [urlRank, hfile, hrows, hdomain, bind, Except.bind] at h
                  | ok domain =>
                      simp only [urlRank, hfile, hrows, hdomain, bind, Except.bind, pure,
                        Except.pure, Bool.false_eq_true, if_false, if_true, Except.ok.injEq,
                        Option.ite_none_left_eq_some, Option.some.injEq] at h
                      exact ⟨_, h.2⟩
      obtain ⟨score, rfl⟩ := hscore
      exact hclamp score

end Order

/-! ### Weights -/

section Weights

variable {records : Table ExtractorRow.extractorId} {cfg : TrustCapConfig}
  {lenses lenses' : List TrustLensDefinition}

/-- The cap lowers the weights of the extractors it applies to. -/
theorem get_capped (cfg : TrustCapConfig) (rows : List ExtractorRow) (weights : List (String × ℚ))
    (hheld : ∀ r ∈ rows, get weights r.extractorId ≠ none) (extractorId : String) :
    get (rows.foldl (fun weights r =>
      if cfg.caps r then
        upsert (fun current => min (current.getD r.trustWeight) cfg.capValue) r.extractorId weights
      else weights) weights) extractorId =
      if ∃ r ∈ rows, r.extractorId = extractorId ∧ cfg.caps r = true then
        (get weights extractorId).map (min · cfg.capValue)
      else get weights extractorId := by
  induction rows using List.reverseRecOn with
  | nil => simp
  | append_singleton rows last ih =>
      have hexists : (∃ r ∈ rows ++ [last], r.extractorId = extractorId ∧ cfg.caps r = true) ↔
          (∃ r ∈ rows, r.extractorId = extractorId ∧ cfg.caps r = true) ∨
            (last.extractorId = extractorId ∧ cfg.caps last = true) := by
        simp [or_and_right, exists_or]
      have ih := ih fun r hr => hheld r (List.mem_append_left _ hr)
      rw [List.foldl_append, List.foldl_cons, List.foldl_nil]
      by_cases hcaps : cfg.caps last = true
      · rw [if_pos hcaps, get_upsert]
        by_cases hid : last.extractorId = extractorId
        · subst hid
          obtain ⟨weight, hweight⟩ := Option.ne_none_iff_exists'.1
            (hheld last (List.mem_append_right _ List.mem_cons_self))
          rw [if_pos rfl, if_pos (hexists.2 (Or.inr ⟨rfl, hcaps⟩)), ih, hweight]
          -- a second cap changes nothing
          split_ifs <;> simp
        · rw [if_neg hid, ih]
          simp [hid]
      · rw [if_neg hcaps, ih]
        simp [hcaps]

/-- The dict of the stored weights. -/
theorem nodup_recordWeights (records : Table ExtractorRow.extractorId) :
    ((records.rows.map fun r => (r.extractorId, r.trustWeight)).map Prod.fst).Nodup := by
  simpa [List.map_map, Function.comp_def] using records.nodup

theorem mem_recordWeights {extractorId : String} {weight : ℚ} :
    weight ∈ (get (records.rows.map fun r => (r.extractorId, r.trustWeight)) extractorId).toList ↔
      ∃ r ∈ records.rows, r.extractorId = extractorId ∧ r.trustWeight = weight := by
  rw [← valuesOf_eq_toList (nodup_recordWeights records), mem_valuesOf, List.mem_map]
  simp only [Prod.mk.injEq]

/-- The weights before the cap. -/
theorem get_uncapped (extractorId : String) :
    get (combineInto min (records.rows.map fun r => (r.extractorId, r.trustWeight))
      (getAdoptedLensExtractorWeights lenses)) extractorId =
      reduce (· ⊓ ·) ((get (records.rows.map fun r => (r.extractorId, r.trustWeight))
        extractorId).toList ++
          valuesOf (lenses.flatMap fun lens => lens.extractorWeights.rows) extractorId) := by
  rw [getAdoptedLensExtractorWeights, get_combineInto_combine min_assoc, get_combineInto]

/-- A weight reduced from the values that bear on it is the least of them. -/
theorem weight_of_values {extractorId : String} {values : List ℚ}
    (hget : get (getTrustWeightMap records cfg lenses) extractorId = reduce (· ⊓ ·) values)
    (hmem : ∀ weight, weight ∈ values ↔ weight ∈ weightsOf records cfg lenses extractorId) :
    (∀ weight, get (getTrustWeightMap records cfg lenses) extractorId = some weight ↔
      IsLeast (weightsOf records cfg lenses extractorId) weight) ∧
    (weightsOf records cfg lenses extractorId = ∅ →
      get (getTrustWeightMap records cfg lenses) extractorId = none) := by
  have hset : {weight | weight ∈ values} = weightsOf records cfg lenses extractorId := Set.ext hmem
  refine ⟨fun weight => ?_, fun hempty => ?_⟩
  · rw [hget, ← hset]
    exact reduce_eq_some_iff
  · rw [hget, reduce_eq_none, List.eq_nil_iff_forall_not_mem]
    intro weight hweight
    have hin := (hmem weight).1 hweight
    rw [hempty] at hin
    exact hin

/-- **The weight of an extractor is the least of all that bear on it.** -/
theorem getTrustWeightMap_law (records : Table ExtractorRow.extractorId) (cfg : TrustCapConfig)
    (lenses : List TrustLensDefinition) : WeightLaw records cfg lenses := by
  intro extractorId
  have hheld : ∀ r ∈ records.rows, get (combineInto min
      (records.rows.map fun r => (r.extractorId, r.trustWeight))
      (getAdoptedLensExtractorWeights lenses)) r.extractorId ≠ none := by
    intro r hr hnone
    rw [get_uncapped, reduce_eq_none] at hnone
    have hmem := mem_recordWeights.2 ⟨r, hr, rfl, rfl⟩
    rw [(List.append_eq_nil_iff.1 hnone).1] at hmem
    simp at hmem
  have hlens : ∀ weight, weight ∈ valuesOf (lenses.flatMap fun lens => lens.extractorWeights.rows)
      extractorId ↔ ∃ lens ∈ lenses, (extractorId, weight) ∈ lens.extractorWeights.rows :=
    fun weight => mem_valuesOf.trans List.mem_flatMap
  have hget := get_capped cfg records.rows _ hheld extractorId
  rw [← getTrustWeightMap, get_uncapped] at hget
  by_cases hcapped : ∃ r ∈ records.rows, r.extractorId = extractorId ∧ cfg.caps r = true
  · obtain ⟨r, hr, hid, hcaps⟩ := hcapped
    rw [if_pos ⟨r, hr, hid, hcaps⟩] at hget
    obtain ⟨weight, hweight⟩ := Option.ne_none_iff_exists'.1 (hheld r hr)
    rw [hid, get_uncapped] at hweight
    have hvalues : get (getTrustWeightMap records cfg lenses) extractorId = reduce (· ⊓ ·)
        ((get (records.rows.map fun r => (r.extractorId, r.trustWeight)) extractorId).toList ++
          valuesOf (lenses.flatMap fun lens => lens.extractorWeights.rows) extractorId ++
            [cfg.capValue]) := by
      rw [hget, reduce_concat, hweight]
      rfl
    refine weight_of_values hvalues fun weight => ?_
    rw [List.mem_append, List.mem_append, mem_recordWeights, hlens, List.mem_singleton]
    constructor
    · rintro ((⟨row, hrow, hid', hw⟩ | hw) | rfl)
      · exact Or.inl ⟨row, hrow, hid', Or.inl hw⟩
      · exact Or.inr hw
      · exact Or.inl ⟨r, hr, hid, Or.inr ⟨hcaps, rfl⟩⟩
    · rintro (⟨row, hrow, hid', hw | ⟨-, hw⟩⟩ | hw)
      · exact Or.inl (Or.inl ⟨row, hrow, hid', hw⟩)
      · exact Or.inr hw.symm
      · exact Or.inl (Or.inr hw)
  · rw [if_neg hcapped] at hget
    refine weight_of_values hget fun weight => ?_
    rw [List.mem_append, mem_recordWeights, hlens]
    constructor
    · rintro (⟨row, hrow, hid', hw⟩ | hw)
      · exact Or.inl ⟨row, hrow, hid', Or.inl hw⟩
      · exact Or.inr hw
    · rintro (⟨row, hrow, hid', hw | ⟨hcaps, -⟩⟩ | hw)
      · exact Or.inl ⟨row, hrow, hid', hw⟩
      · exact absurd ⟨row, hrow, hid', hcaps⟩ hcapped
      · exact Or.inr hw

theorem weightsOf_reordered (h : Reordered lenses lenses') (extractorId : String) :
    weightsOf records cfg lenses extractorId = weightsOf records cfg lenses' extractorId := by
  ext weight
  refine or_congr_right (h.exists_iff fun a b hsame => ?_)
  exact hsame.extractorWeights.mem_iff

/-- **No order of the lenses changes a weight.** -/
theorem getTrustWeightMap_reordered (h : Reordered lenses lenses') (extractorId : String) :
    get (getTrustWeightMap records cfg lenses) extractorId =
      get (getTrustWeightMap records cfg lenses') extractorId := by
  ext weight
  rw [(getTrustWeightMap_law records cfg lenses extractorId).1,
    (getTrustWeightMap_law records cfg lenses' extractorId).1, weightsOf_reordered h]

end Weights

/-! ### The composition -/

/-- **Trust composition is order-independent and local-first.**  Any order of the lenses and of their
rules gives every source the same rank and every extractor the same weight; the policy keeps the local
values and takes the least of the lenses' elsewhere, a URL rank lies in the unit interval, and a weight is
the least of the stored one, those of the lenses and the cap. -/
theorem trust_composition (lib : UriLibrary) (inferDomain : String → Option String) (store : Store)
    (records : Table ExtractorRow.extractorId) (cfg : TrustCapConfig)
    {lenses lenses' : List TrustLensDefinition} (h : Reordered lenses lenses') :
    (∀ entryId sourceType uri authorId,
      evaluate lib inferDomain (loadTrustPolicy lib store lenses) entryId sourceType uri authorId =
        evaluate lib inferDomain (loadTrustPolicy lib store lenses') entryId sourceType uri
          authorId) ∧
    TrustLaw lib store lenses ∧
    (∀ uri rank, urlRank lib (loadTrustPolicy lib store lenses) uri = .ok (some rank) →
      0 ≤ rank ∧ rank ≤ 1) ∧
    (∀ extractorId, get (getTrustWeightMap records cfg lenses) extractorId =
      get (getTrustWeightMap records cfg lenses') extractorId) ∧
    WeightLaw records cfg lenses :=
  ⟨evaluate_reordered h inferDomain, loadTrustPolicy_law lib store lenses,
    fun _ _ => urlRank_mem_unit, getTrustWeightMap_reordered h,
    getTrustWeightMap_law records cfg lenses⟩

/-- A lens that rates a domain, a URL pattern twice, and an extractor. -/
def strictLens : TrustLensDefinition where
  lensId := "l1"
  name := "strict"
  version := 1
  urlRules := [{ scope := .domain, pattern := "a.org", score := some (2 / 10) },
    { scope := .url_pattern, pattern := "/x", modifier := some (-1 / 10) },
    { scope := .url_pattern, pattern := "/x", modifier := some (-2 / 10) }]
  extractorWeights := ⟨[("general", 3 / 10)], by decide⟩

/-- A lens that rates the same domain. -/
def mildLens : TrustLensDefinition where
  lensId := "l2"
  name := "mild"
  version := 1
  urlRules := [{ scope := .domain, pattern := "a.org", score := some (6 / 10) }]

/-- The strict lens with its rules in the opposite order. -/
def strictLensReversed : TrustLensDefinition :=
  { strictLens with urlRules := strictLens.urlRules.reverse }

theorem trust_composition_two :
    (∀ uri, evaluate exampleUris (fun _ => none) (loadTrustPolicy exampleUris {} [strictLens, mildLens])
        none "WEB_PAGE" uri none =
      evaluate exampleUris (fun _ => none)
        (loadTrustPolicy exampleUris {} [mildLens, strictLensReversed]) none "WEB_PAGE" uri none) ∧
    evaluate exampleUris (fun _ => none) (loadTrustPolicy exampleUris {} [strictLens, mildLens]) none
      "WEB_PAGE" (some "https://a.org/x") none = .ok (some (2 / 10)) := by
  have hreordered : Reordered [strictLens, mildLens] [mildLens, strictLensReversed] := by
    refine ⟨[mildLens, strictLens], List.Perm.swap _ _ _, ?_⟩
    refine .cons ⟨.refl _, .refl _, .refl _⟩ (.cons ⟨.refl _, ?_, .refl _⟩ .nil)
    exact (List.reverse_perm _).symm
  have h := trust_composition exampleUris (fun _ => none) {} .empty { capValue := 1 / 2 } hreordered
  exact ⟨fun uri => h.1 none "WEB_PAGE" uri none, by decide +kernel⟩

/-- **A weight that the store asserts is lowered by a lens.** -/
theorem local_weight_lowered : ¬ ∀ (records : Table ExtractorRow.extractorId) (cfg : TrustCapConfig)
    (lenses : List TrustLensDefinition), ∀ row ∈ records.rows,
      get (getTrustWeightMap records cfg lenses) row.extractorId = some row.trustWeight := by
  intro hlocal
  have hkept := hlocal ⟨[{ extractorId := "general" }], by decide⟩ { capValue := 1 / 2 } [strictLens]
    { extractorId := "general" } List.mem_cons_self
  exact absurd hkept (by decide +kernel)

end ParticlesEngine
