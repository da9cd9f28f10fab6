/-
**The utility lens layer.**

A belief that has been of use is lifted in the projection order.  How far is decided by the store's own
configuration and by the lenses it has adopted: within a scope the least promotion wins, and a more
specific scope overrides a more general one.  So a lens with a rule for the source type or the URI of a
belief takes the place of the rules that covered it so far, the store's own base included.

Main definitions:

* `loadUtilityPolicy` — the policy composed of the configuration and the adopted lenses;
* `UtilityPolicy.resolve`, `UtilityPolicy.bonus` — the parameters and the lift of a belief;
* `coveringLifts`, `topScope` — the rules that cover a belief in a scope, and the most specific scope
  with one;
* `PromotesLess` — the lift does not grow when one more lens is adopted, nor against the configuration
  alone;
* `OverridesNoStricter` — no rule that takes the place of others promotes more.

Main results:

* `isLeast_resolve` — **the lift is the least of the rules of the most specific scope**;
* `promotesLess_iff` — **a further lens promotes only less exactly when no rule overrides a stricter
  one**;
* `url_rule_overrides` — a rule for the URI of a belief can promote it more.
-/

import Mathlib.Algebra.Order.Ring.Rat
import ParticlesEngine.MergedDict
import ParticlesEngine.TrustLens
import ParticlesEngine.TrustStore

set_option relaxedAutoImplicit false
set_option autoImplicit false

namespace ParticlesEngine

open MergedDict

/-! ### The policy -/

/-- A resolved utility rule: `(half_life_uses_days, rank_lift)`. -/
abbrev UtilityParams := ℚ × ℚ

/-- `_more_skeptical`: the least of each parameter. -/
def moreSkeptical (a b : UtilityParams) : UtilityParams := (min a.1 b.1, min a.2 b.2)

/-- The store's local `utility` configuration. -/
structure UtilityConfig where
  enabled : Bool := true
  default : UtilityParams

/-- One store's usefulness policy. -/
structure UtilityPolicy where
  default : Option UtilityParams
  sourceTypeRules : List (String × UtilityParams)
  /-- the rules whose pattern compiles -/
  urlRules : List (String × UtilityParams)

/-- Neutral policy: utility disabled. -/
def EMPTY_UTILITY_POLICY : UtilityPolicy := ⟨none, [], []⟩

/-- The rank bonus of the scoring library, `λ·ln(1+R)`: it grows with the rank lift, and vanishes where
the lift is zero. -/
structure UtilityScoring where
  utilityRankBonus : ℚ≥0 → ℚ → ℚ
  monotone : ∀ reinforcement, Monotone (utilityRankBonus reinforcement)
  zero : ∀ reinforcement, utilityRankBonus reinforcement 0 = 0

def TrustLensUtilityRule.params (rule : TrustLensUtilityRule) : UtilityParams :=
  (rule.halfLifeUsesDays, rule.rankLift)

/-- The patterns of the rules of one scope, with their parameters; an empty pattern is none. -/
def patternParams (scope : UtilityRuleScope) (rules : List TrustLensUtilityRule) :
    List (String × UtilityParams) :=
  rules.filterMap fun rule =>
    if rule.scope = scope then
      (rule.pattern.filter (· ≠ "")).map fun pattern => (pattern, rule.params)
    else none

/-- **`load_utility_policy`**: the configuration composed over the adopted lenses. -/
def loadUtilityPolicy (lib : UriLibrary) (cfg : UtilityConfig) (lenses : List TrustLensDefinition) :
    UtilityPolicy :=
  if !cfg.enabled then EMPTY_UTILITY_POLICY
  else
    let rules := lenses.flatMap TrustLensDefinition.utilityRules
    let lensDefault := reduce moreSkeptical
      ((rules.filter fun rule => rule.scope = .default).map TrustLensUtilityRule.params)
    { default := some (lensDefault.elim cfg.default (moreSkeptical cfg.default))
      sourceTypeRules := combine moreSkeptical (patternParams .source_type rules)
      urlRules := (combine moreSkeptical (patternParams .url_pattern rules)).filter fun rule =>
        lib.compiles rule.1 }

namespace UtilityPolicy

/-- **`resolve`**: most specific wins. -/
def resolve (lib : UriLibrary) (policy : UtilityPolicy) (sourceType : String)
    (uri : Option String) : Option UtilityParams :=
  let best := (uri.filter fun uri => !isFileUri uri).bind fun uri =>
    reduce moreSkeptical ((policy.urlRules.filter fun rule => lib.search rule.1 uri).map Prod.snd)
  best.or ((get policy.sourceTypeRules sourceType).or policy.default)

/-- **`bonus`**: additive rank lift for one belief. -/
def bonus (scoring : UtilityScoring) (lib : UriLibrary) (policy : UtilityPolicy)
    (reinforcement : ℚ≥0) (sourceType : String) (uri : Option String) : ℚ :=
  match policy.resolve lib sourceType uri with
  | none => 0
  | some params => scoring.utilityRankBonus reinforcement params.2

end UtilityPolicy

/-! ### The rules that cover a belief -/

/-- A rule covers a belief in its scope. -/
def TrustLensUtilityRule.covers (lib : UriLibrary) (sourceType : String) (uri : Option String)
    (rule : TrustLensUtilityRule) : Bool :=
  match rule.scope with
  | .default => true
  | .source_type => rule.pattern = some sourceType && sourceType ≠ ""
  | .url_pattern => rule.pattern.any fun pattern =>
      pattern ≠ "" && lib.compiles pattern &&
        uri.any fun uri => !isFileUri uri && lib.search pattern uri

section Cover

variable (lib : UriLibrary) (sourceType : String) (uri : Option String)

/-- The lifts of the rules of some lenses that cover a belief in a scope. -/
def lensLifts (lenses : List TrustLensDefinition) (scope : UtilityRuleScope) : List ℚ :=
  ((lenses.flatMap TrustLensDefinition.utilityRules).filter fun rule =>
    rule.scope = scope && rule.covers lib sourceType uri).map TrustLensUtilityRule.rankLift

/-- The lifts that cover a belief in a scope; the configuration is a rule of the default scope. -/
def coveringLifts (cfg : UtilityConfig) (lenses : List TrustLensDefinition)
    (scope : UtilityRuleScope) : List ℚ :=
  (if scope = .default then [cfg.default.2] else []) ++ lensLifts lib sourceType uri lenses scope

/-- The most specific scope with a rule that covers a belief. -/
def topScope (lenses : List TrustLensDefinition) : UtilityRuleScope :=
  if lensLifts lib sourceType uri lenses .url_pattern ≠ [] then .url_pattern
  else if lensLifts lib sourceType uri lenses .source_type ≠ [] then .source_type
  else .default

end Cover

/-! ### The lift of a belief -/

theorem moreSkeptical_eq : moreSkeptical = (· ⊓ ·) := rfl

/-- The lifts of the rules of a scope whose pattern passes a test. -/
theorem patternParams_lifts (scope : UtilityRuleScope) (test : String → Bool)
    (rules : List TrustLensUtilityRule) :
    (((patternParams scope rules).filter fun pair => test pair.1).map Prod.snd).map Prod.snd =
      (rules.filter fun rule => rule.scope = scope &&
        rule.pattern.any fun pattern => pattern ≠ "" && test pattern).map
          TrustLensUtilityRule.rankLift := by
  induction rules with
  | nil => rfl
  | cons rule rules ih =>
      rw [patternParams, List.filterMap_cons, List.filter_cons]
      by_cases hscope : rule.scope = scope
      · cases hpattern : rule.pattern with
        | none => simpa [hscope, hpattern, patternParams] using ih
        | some pattern =>
            by_cases hempty : pattern = ""
            · simpa [hscope, hpattern, hempty, Option.filter, patternParams] using ih
            · by_cases htest : test pattern = true
              · simpa [hscope, hpattern, hempty, htest, Option.filter, patternParams,
                  TrustLensUtilityRule.params] using ih
              · simpa [hscope, hpattern, hempty, htest, Option.filter, patternParams,
                  TrustLensUtilityRule.params] using ih
      · simpa [hscope, patternParams] using ih

/-- The lift of composed parameters is the least of their lifts. -/
theorem reduce_lifts (params : List UtilityParams) :
    (reduce moreSkeptical params).map Prod.snd = reduce (· ⊓ ·) (params.map Prod.snd) :=
  (reduce_map (fun _ _ => rfl) params).symm

section Resolve

variable (lib : UriLibrary) (sourceType : String) (uri : Option String) (cfg : UtilityConfig)
  (lenses : List TrustLensDefinition)

/-- The URI layer of the policy. -/
theorem urlLift_eq (henabled : cfg.enabled = true) :
    ((uri.filter fun uri => !isFileUri uri).bind fun uri =>
      reduce moreSkeptical (((loadUtilityPolicy lib cfg lenses).urlRules.filter fun rule =>
        lib.search rule.1 uri).map Prod.snd)).map Prod.snd =
      reduce (· ⊓ ·) (lensLifts lib sourceType uri lenses .url_pattern) := by
  have hrules : (loadUtilityPolicy lib cfg lenses).urlRules =
      (combine moreSkeptical (patternParams .url_pattern
        (lenses.flatMap TrustLensDefinition.utilityRules))).filter fun rule =>
          lib.compiles rule.1 := by
    simp [loadUtilityPolicy, henabled]
  have hlifts : ∀ u, isFileUri u = false → lensLifts lib sourceType (some u) lenses .url_pattern =
      ((((patternParams .url_pattern (lenses.flatMap TrustLensDefinition.utilityRules)).filter
        fun pair => lib.compiles pair.1 && lib.search pair.1 u).map Prod.snd).map Prod.snd) := by
    intro u hfile
    rw [patternParams_lifts .url_pattern fun pattern => lib.compiles pattern && lib.search pattern u,
      lensLifts]
    congr 1
    refine List.filter_congr fun rule _ => ?_
    by_cases hscope : rule.scope = .url_pattern
    · cases hpattern : rule.pattern with
      | none => simp [TrustLensUtilityRule.covers, hscope, hpattern]
      | some pattern =>
          simp [TrustLensUtilityRule.covers, hscope, hpattern, hfile, Bool.and_assoc]
    · simp [hscope]
  have hnone : (∀ u, uri = some u → isFileUri u = true) →
      lensLifts lib sourceType uri lenses .url_pattern = [] := by
    intro hfile
    rw [lensLifts, List.map_eq_nil_iff, List.filter_eq_nil_iff]
    intro rule _ hcovers
    simp only [Bool.and_eq_true, decide_eq_true_eq] at hcovers
    obtain ⟨hscope, hcovers⟩ := hcovers
    cases uri with
    | none => simp [TrustLensUtilityRule.covers, hscope] at hcovers
    | some u => simp [TrustLensUtilityRule.covers, hscope, hfile u rfl] at hcovers
  cases uri with
  | none =>
      rw [hnone nofun]
      rfl
  | some u =>
      by_cases hfile : isFileUri u = true
      · rw [hnone fun v hv => Option.some.inj hv ▸ hfile]
        simp [hfile]
      · have hfile' : isFileUri u = false := by simpa using hfile
        rw [hlifts u hfile', ← reduce_lifts]
        simp only [Option.filter, hfile', Bool.not_false, if_true, Option.bind_some, hrules,
          List.filter_filter]
        rw [moreSkeptical_eq, ← reduce_combine _ fun pattern =>
          lib.compiles pattern && lib.search pattern u]
        simp only [Bool.and_comm (lib.compiles _)]

/-- The source-type layer of the policy. -/
theorem sourceTypeLift_eq (henabled : cfg.enabled = true) :
    (get (loadUtilityPolicy lib cfg lenses).sourceTypeRules sourceType).map Prod.snd =
      reduce (· ⊓ ·) (lensLifts lib sourceType uri lenses .source_type) := by
  have hrules : (loadUtilityPolicy lib cfg lenses).sourceTypeRules =
      combine moreSkeptical (patternParams .source_type
        (lenses.flatMap TrustLensDefinition.utilityRules)) := by
    simp [loadUtilityPolicy, henabled]
  have hlifts : lensLifts lib sourceType uri lenses .source_type =
      (valuesOf (patternParams .source_type
        (lenses.flatMap TrustLensDefinition.utilityRules)) sourceType).map Prod.snd := by
    rw [valuesOf, patternParams_lifts .source_type fun pattern => pattern = sourceType, lensLifts]
    congr 1
    refine List.filter_congr fun rule _ => ?_
    by_cases hscope : rule.scope = .source_type
    · cases hpattern : rule.pattern with
      | none => simp [TrustLensUtilityRule.covers, hscope, hpattern]
      | some pattern =>
          by_cases hsame : pattern = sourceType
          · simp [TrustLensUtilityRule.covers, hscope, hpattern, hsame]
          · simp [TrustLensUtilityRule.covers, hscope, hpattern, hsame]
    · simp [hscope]
  rw [hrules, get_combine, hlifts, reduce_lifts]

/-- The default layer of the policy. -/
theorem isLeast_default (henabled : cfg.enabled = true) :
    ∃ params, (loadUtilityPolicy lib cfg lenses).default = some params ∧
      IsLeast {lift | lift ∈ coveringLifts lib sourceType uri cfg lenses .default} params.2 := by
  have hdefault : (loadUtilityPolicy lib cfg lenses).default = reduce moreSkeptical
      (cfg.default :: ((lenses.flatMap TrustLensDefinition.utilityRules).filter fun rule =>
        rule.scope = .default).map TrustLensUtilityRule.params) := by
    simp only [loadUtilityPolicy, henabled, Bool.not_true, Bool.false_eq_true, if_false]
    exact (reduce_cons_inf _ _).symm
  have hlifts : coveringLifts lib sourceType uri cfg lenses .default =
      (cfg.default :: ((lenses.flatMap TrustLensDefinition.utilityRules).filter fun rule =>
        rule.scope = .default).map TrustLensUtilityRule.params).map Prod.snd := by
    rw [coveringLifts, if_pos rfl, List.singleton_append, List.map_cons, List.map_map, lensLifts]
    congr 2
    refine List.filter_congr fun rule _ => ?_
    by_cases hscope : rule.scope = .default
    · simp [TrustLensUtilityRule.covers, hscope]
    · simp [hscope]
  cases hreduce : reduce moreSkeptical
      (cfg.default :: ((lenses.flatMap TrustLensDefinition.utilityRules).filter fun rule =>
        rule.scope = .default).map TrustLensUtilityRule.params) with
  | none => exact nomatch reduce_eq_none.1 hreduce
  | some params =>
      refine ⟨params, hdefault.trans hreduce, isLeast_of_reduce ?_⟩
      rw [hlifts, ← reduce_lifts, hreduce]
      rfl

/-- **The lift of a belief is the least of the rules of the most specific scope.** -/
theorem isLeast_resolve (henabled : cfg.enabled = true) :
    ∃ params, (loadUtilityPolicy lib cfg lenses).resolve lib sourceType uri = some params ∧
      IsLeast {lift | lift ∈ coveringLifts lib sourceType uri cfg lenses
        (topScope lib sourceType uri lenses)} params.2 := by
  have hurl := urlLift_eq lib sourceType uri cfg lenses henabled
  have htype := sourceTypeLift_eq lib sourceType uri cfg lenses henabled
  rw [UtilityPolicy.resolve, topScope]
  split_ifs with hurls htypes
  · obtain ⟨lift, hlift⟩ := Option.ne_none_iff_exists'.1 (mt reduce_eq_none.1 hurls)
    obtain ⟨params, hparams, rfl⟩ := Option.map_eq_some_iff.1 (hurl.trans hlift)
    exact ⟨params, by rw [hparams, Option.some_or], isLeast_of_reduce hlift⟩
  · rw [reduce_eq_none.2 (not_not.1 hurls), Option.map_eq_none_iff] at hurl
    obtain ⟨lift, hlift⟩ := Option.ne_none_iff_exists'.1 (mt reduce_eq_none.1 htypes)
    obtain ⟨params, hparams, rfl⟩ := Option.map_eq_some_iff.1 (htype.trans hlift)
    exact ⟨params, by rw [hurl, hparams, Option.none_or, Option.some_or], isLeast_of_reduce hlift⟩
  · rw [reduce_eq_none.2 (not_not.1 hurls), Option.map_eq_none_iff] at hurl
    rw [reduce_eq_none.2 (not_not.1 htypes), Option.map_eq_none_iff] at htype
    obtain ⟨params, hparams, hleast⟩ := isLeast_default lib sourceType uri cfg lenses henabled
    exact ⟨params, by rw [hurl, htype, hparams, Option.none_or, Option.none_or], hleast⟩

end Resolve

/-! ### One more lens -/

section Adopt

variable (scoring : UtilityScoring) (lib : UriLibrary) (cfg : UtilityConfig)
  (before : List TrustLensDefinition) (lens : TrustLensDefinition)
  (after : List TrustLensDefinition) (reinforcement : ℚ≥0) (sourceType : String)
  (uri : Option String)

/-- **Adopting a further lens promotes a belief no more**, neither against the lenses adopted so far nor
against the configuration alone. -/
def PromotesLess : Prop :=
  let bonus lenses :=
    (loadUtilityPolicy lib cfg lenses).bonus scoring lib reinforcement sourceType uri
  bonus (before ++ lens :: after) ≤ bonus (before ++ after) ∧
    bonus (before ++ lens :: after) ≤ bonus []

/-- **No rule that overrides others promotes more**: the further lens covers the belief in no scope more
specific than before, or some rule of it there promotes no more than every rule overridden; and where a
lens overrides the configuration, some rule there promotes no more than the configuration does. -/
def OverridesNoStricter : Prop :=
  let top := topScope lib sourceType uri (before ++ lens :: after)
  let held := topScope lib sourceType uri (before ++ after)
  (top = held ∨ ∃ lift ∈ lensLifts lib sourceType uri [lens] top,
    ∀ lift' ∈ coveringLifts lib sourceType uri cfg (before ++ after) held,
      scoring.utilityRankBonus reinforcement lift ≤ scoring.utilityRankBonus reinforcement lift') ∧
  (top = .default ∨ ∃ lift ∈ lensLifts lib sourceType uri (before ++ lens :: after) top,
    scoring.utilityRankBonus reinforcement lift ≤
      scoring.utilityRankBonus reinforcement cfg.default.2)

variable {scoring lib cfg before lens after reinforcement sourceType uri}

theorem lensLifts_append (lenses lenses' : List TrustLensDefinition) (scope : UtilityRuleScope) :
    lensLifts lib sourceType uri (lenses ++ lenses') scope =
      lensLifts lib sourceType uri lenses scope ++ lensLifts lib sourceType uri lenses' scope := by
  simp [lensLifts]

/-- The further lens adds its rules to those of a scope. -/
theorem mem_lensLifts_adopt {scope : UtilityRuleScope} {lift : ℚ} :
    lift ∈ lensLifts lib sourceType uri (before ++ lens :: after) scope ↔
      lift ∈ lensLifts lib sourceType uri (before ++ after) scope ∨
        lift ∈ lensLifts lib sourceType uri [lens] scope := by
  rw [← List.singleton_append, lensLifts_append, lensLifts_append, lensLifts_append,
    List.mem_append, List.mem_append, List.mem_append]
  tauto

/-- In a scope with rules before, the further lens overrides nothing. -/
theorem lensLifts_adopt_ne_nil {scope : UtilityRuleScope}
    (h : lensLifts lib sourceType uri (before ++ after) scope ≠ []) :
    lensLifts lib sourceType uri (before ++ lens :: after) scope ≠ [] := by
  obtain ⟨lift, hlift⟩ := List.exists_mem_of_ne_nil _ h
  exact List.ne_nil_of_mem (mem_lensLifts_adopt.2 (Or.inl hlift))

/-- Where the most specific scope changes, the rules of the new one are those of the further lens. -/
theorem coveringLifts_of_override
    (h : topScope lib sourceType uri (before ++ lens :: after) ≠
      topScope lib sourceType uri (before ++ after)) {lift : ℚ} :
    lift ∈ coveringLifts lib sourceType uri cfg (before ++ lens :: after)
        (topScope lib sourceType uri (before ++ lens :: after)) ↔
      lift ∈ lensLifts lib sourceType uri [lens]
        (topScope lib sourceType uri (before ++ lens :: after)) := by
  have hnew : ∀ scope, scope ≠ .default →
      lensLifts lib sourceType uri (before ++ after) scope = [] →
      (lift ∈ coveringLifts lib sourceType uri cfg (before ++ lens :: after) scope ↔
        lift ∈ lensLifts lib sourceType uri [lens] scope) := by
    intro scope hscope hnil
    rw [coveringLifts, if_neg hscope, List.nil_append, mem_lensLifts_adopt, hnil]
    simp
  by_cases hurl : lensLifts lib sourceType uri (before ++ lens :: after) .url_pattern = []
  · have hurl' : lensLifts lib sourceType uri (before ++ after) .url_pattern = [] :=
      not_not.1 fun hne => lensLifts_adopt_ne_nil hne hurl
    by_cases htype : lensLifts lib sourceType uri (before ++ lens :: after) .source_type = []
    · have htype' : lensLifts lib sourceType uri (before ++ after) .source_type = [] :=
        not_not.1 fun hne => lensLifts_adopt_ne_nil hne htype
      exact absurd (by simp [topScope, hurl, hurl', htype, htype']) h
    · have htype' : lensLifts lib sourceType uri (before ++ after) .source_type = [] := by
        by_contra hne
        exact h (by simp [topScope, hurl, hurl', htype, hne])
      have htop : topScope lib sourceType uri (before ++ lens :: after) = .source_type := by
        simp [topScope, hurl, htype]
      rw [htop]
      exact hnew _ nofun htype'
  · have hurl' : lensLifts lib sourceType uri (before ++ after) .url_pattern = [] := by
      by_contra hne
      exact h (by simp [topScope, hurl, hne])
    have htop : topScope lib sourceType uri (before ++ lens :: after) = .url_pattern := by
      simp [topScope, hurl]
    rw [htop]
    exact hnew _ nofun hurl'

variable (scoring reinforcement lib sourceType uri) in
/-- The bonus is that of the least lift. -/
theorem bonus_eq (henabled : cfg.enabled = true) (lenses : List TrustLensDefinition) :
    ∃ lift, IsLeast {lift | lift ∈ coveringLifts lib sourceType uri cfg lenses
        (topScope lib sourceType uri lenses)} lift ∧
      (loadUtilityPolicy lib cfg lenses).bonus scoring lib reinforcement sourceType uri =
        scoring.utilityRankBonus reinforcement lift := by
  obtain ⟨params, hresolve, hleast⟩ := isLeast_resolve lib sourceType uri cfg lenses henabled
  exact ⟨params.2, hleast, by rw [UtilityPolicy.bonus, hresolve]⟩

/-- The least lift promotes no more than a bound exactly when some lift does not. -/
theorem bonus_least_le_iff {lifts : List ℚ} {lift : ℚ} (hleast : IsLeast {l | l ∈ lifts} lift)
    {bound : ℚ} : scoring.utilityRankBonus reinforcement lift ≤ bound ↔
      ∃ l ∈ lifts, scoring.utilityRankBonus reinforcement l ≤ bound := by
  constructor
  · exact fun hle => ⟨lift, hleast.1, hle⟩
  · rintro ⟨l, hl, hle⟩
    exact (scoring.monotone reinforcement (hleast.2 hl)).trans hle

/-- A bound promotes no more than the least lift exactly when it promotes no more than any. -/
theorem le_bonus_least_iff {lifts : List ℚ} {lift : ℚ} (hleast : IsLeast {l | l ∈ lifts} lift)
    {bound : ℚ} : bound ≤ scoring.utilityRankBonus reinforcement lift ↔
      ∀ l ∈ lifts, bound ≤ scoring.utilityRankBonus reinforcement l := by
  constructor
  · exact fun hle l hl => hle.trans (scoring.monotone reinforcement (hleast.2 hl))
  · exact fun hle => hle lift hleast.1

/-- **A further lens promotes only less exactly when utility is off or no rule overrides a stricter
one.** -/
theorem promotesLess_iff :
    PromotesLess scoring lib cfg before lens after reinforcement sourceType uri ↔
      cfg.enabled = false ∨
        OverridesNoStricter scoring lib cfg before lens after reinforcement sourceType uri := by
  cases henabled : cfg.enabled with
  | false =>
      have hzero : ∀ lenses, (loadUtilityPolicy lib cfg lenses).bonus scoring lib reinforcement
          sourceType uri = 0 := by
        intro lenses
        cases uri <;>
          simp [loadUtilityPolicy, henabled, EMPTY_UTILITY_POLICY, UtilityPolicy.bonus,
            UtilityPolicy.resolve, Option.filter]
      simp [PromotesLess, hzero]
  | true =>
      obtain ⟨lift, hlift, hbonus⟩ := bonus_eq scoring lib reinforcement sourceType uri henabled
        (before ++ lens :: after)
      obtain ⟨held, hheld, hbonus'⟩ := bonus_eq scoring lib reinforcement sourceType uri henabled
        (before ++ after)
      obtain ⟨base, hbase, hbonus''⟩ := bonus_eq scoring lib reinforcement sourceType uri henabled []
      -- the configuration alone
      obtain rfl : base = cfg.default.2 := by
        have hmem := hbase.1
        simpa [topScope, coveringLifts, lensLifts] using hmem
      rw [PromotesLess]
      simp only [hbonus, hbonus', hbonus'', Bool.true_eq_false, false_or, OverridesNoStricter]
      refine and_congr ?_ ?_
      · rw [bonus_least_le_iff hlift]
        by_cases hsame : topScope lib sourceType uri (before ++ lens :: after) =
            topScope lib sourceType uri (before ++ after)
        · refine iff_of_true ⟨held, ?_, le_refl _⟩ (Or.inl hsame)
          rw [hsame]
          have hmem : held ∈ coveringLifts lib sourceType uri cfg (before ++ after)
            (topScope lib sourceType uri (before ++ after)) := hheld.1
          rw [coveringLifts, List.mem_append] at hmem ⊢
          exact hmem.imp_right fun hmem => mem_lensLifts_adopt.2 (Or.inl hmem)
        · rw [or_iff_right hsame]
          simp only [coveringLifts_of_override hsame, le_bonus_least_iff hheld]
      · rw [bonus_least_le_iff hlift]
        by_cases htop : topScope lib sourceType uri (before ++ lens :: after) = .default
        · refine iff_of_true ⟨cfg.default.2, ?_, le_refl _⟩ (Or.inl htop)
          rw [htop, coveringLifts, if_pos rfl]
          exact List.mem_append_left _ List.mem_cons_self
        · rw [or_iff_right htop]
          simp only [coveringLifts, if_neg htop, List.nil_append]

end Adopt

/-- A bonus that grows in proportion to the reinforcement. -/
def linearScoring : UtilityScoring where
  utilityRankBonus reinforcement lift := reinforcement * lift
  monotone reinforcement _ _ hle := mul_le_mul_of_nonneg_left hle reinforcement.2
  zero _ := mul_zero _

/-- A library for which every pattern compiles and is found in every URI. -/
def matchingUris : UriLibrary where
  urlparse _ := none
  compiles _ := true
  search _ _ := true

/-- A lens that lifts what a harness's sessions state. -/
def sessionLens : TrustLensDefinition where
  lensId := "l1"
  name := "acme"
  version := 1
  utilityRules := [{ scope := .url_pattern, pattern := some "claude-code://",
                     halfLifeUsesDays := 10, rankLift := 9 / 100 }]

/-- **A lens can promote more**: its rule for a URI overrides the configuration's lower lift. -/
theorem url_rule_overrides : ¬ ∀ (scoring : UtilityScoring) (lib : UriLibrary) (cfg : UtilityConfig)
    (before : List TrustLensDefinition) (lens : TrustLensDefinition)
    (after : List TrustLensDefinition) (reinforcement : ℚ≥0) (sourceType : String)
    (uri : Option String),
    PromotesLess scoring lib cfg before lens after reinforcement sourceType uri := by
  intro hless
  have hmore := (hless linearScoring matchingUris { default := (30, 3 / 200) } [] sessionLens [] 1
    "CONVERSATION" (some "claude-code://session/1")).2
  exact absurd hmore (by decide +kernel)

end ParticlesEngine
