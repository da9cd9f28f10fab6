/-
**Query-time source trust.**

`operations/query/source_trust.py` loads the same two tables into a `TrustPolicy` once per query and
evaluates it in process, layer by layer.  For a key with several statements the most recently
asserted one wins.

Main definitions:

* `loadLocalTrustPolicy`, `evaluate` — the snapshot and its evaluation;
* `FirstLevel` — the rank that the first level with a statement gives;
* `LadderAgrees` — the ladder returns, gives that rank, and the query policy gives it too.

Main results:

* `evaluate_firstLevel` — **the query policy gives the rank of the first level**, for any rows;
* `ladderAgrees_iff` — **the ladder does so exactly when the key it stops at has one statement**.
-/

import ParticlesEngine.Dict
import ParticlesEngine.TrustStore

set_option relaxedAutoImplicit false
set_option autoImplicit false

open SortBy Dict

namespace ParticlesEngine

/-! ### The policy -/

/-- One store's source-trust policy, snapshotted for in-process evaluation. -/
structure TrustPolicy where
  statements : String × SourceRefType × String → Option ℚ
  domainScores : String → Option ℚ
  urlPatterns : List (String × ℚ)

/-- **`load_local_trust_policy`**: statements in ascending order, so the last asserted overwrites. -/
def loadLocalTrustPolicy (lib : UriLibrary) (store : Store) : TrustPolicy :=
  { statements := dictOf ((sortBy TrustStatementRow.assertedAt store.trustStatements.rows).map
      fun row => ((row.domain, row.sourceRefType, row.sourceRefValue), row.trustRank))
    domainScores := dictOf (store.sourceTrust.rows.filterMap fun rule =>
      if rule.scope = .domain then rule.score.map fun score => (rule.pattern, score) else none)
    urlPatterns := store.sourceTrust.rows.filterMap fun rule =>
      if rule.scope = .url_pattern ∧ lib.compiles rule.pattern then
        rule.modifier.map fun modifier => (rule.pattern, modifier)
      else none }

/-- `_url_rank`: the URL layer, explicit rules only. -/
def urlRank (lib : UriLibrary) (policy : TrustPolicy) :
    Option String → Except TrustError (Option ℚ)
  | none => .ok none
  | some uri =>
      if isFileUri uri then .ok none
      else do
        let base ←
          if ← domainRowsApply lib uri then do
            let domain ← extractDomain lib uri
            pure ((policy.domainScores domain).or (policy.domainScores "*"))
          else pure none
        let (total, matched) := policy.urlPatterns.foldl (fun (total, matched) rule =>
          if lib.search rule.1 uri then (total + rule.2, true) else (total, matched)) (0, false)
        return if base.isNone && !matched then none else some (clampScore (base.getD 1 + total))

/-- The statement layers; a source type with no knowledge domain skips them. -/
def statementRank (inferDomain : String → Option String) (policy : TrustPolicy)
    (entryId : Option String) (sourceType : String) (authorId : Option String) : Option ℚ :=
  (inferDomain sourceType).bind fun domain =>
    (entryId.bind fun entry => policy.statements (domain, .CORPUS_ENTRY, entry)).or <|
    (authorId.bind fun author => policy.statements (domain, .AUTHOR, author)).or <|
    policy.statements (domain, .SOURCE_TYPE, sourceType)

/-- **`evaluate`**: the asserted rank of one candidate, if any layer has one. -/
def evaluate (lib : UriLibrary) (inferDomain : String → Option String) (policy : TrustPolicy)
    (entryId : Option String) (sourceType : String) (uri authorId : Option String) :
    Except TrustError (Option ℚ) :=
  match statementRank inferDomain policy entryId sourceType authorId with
  | some rank => .ok (some rank)
  | none => urlRank lib policy uri

/-! ### The levels -/

/-- The rank of a most recently asserted statement. -/
def IsLatest (rows : List TrustStatementRow) (rank : ℚ) : Prop :=
  ∃ row ∈ rows, row.trustRank = rank ∧ ∀ other ∈ rows, other.assertedAt ≤ row.assertedAt

/-- The score of the domain row that covers a URI. -/
def domainBaseline (lib : UriLibrary) (store : Store) (uri : Option String) : Option ℚ :=
  uri.bind fun uri =>
    if isFileUri uri then none
    else (lib.urlparse uri).bind fun (scheme, netloc) =>
      if scheme ∈ HARNESS_URI_SCHEMES then none
      else (domainRow store (if netloc = "" then uri else netloc)).or (domainRow store "*")

/-- **The rank that the first level with a statement gives**: entry, then source type, then domain.
A domain row counts with the modifiers that the URI matches. -/
inductive FirstLevel (lib : UriLibrary) (store : Store) (domain entryId sourceType : String)
    (uri : Option String) : ℚ → Prop
  | entry {rank : ℚ} (h : IsLatest (statementsFor store domain .CORPUS_ENTRY entryId) rank) :
      FirstLevel lib store domain entryId sourceType uri rank
  | sourceType {rank : ℚ} (hentry : statementsFor store domain .CORPUS_ENTRY entryId = [])
      (h : IsLatest (statementsFor store domain .SOURCE_TYPE sourceType) rank) :
      FirstLevel lib store domain entryId sourceType uri rank
  | domain {base : ℚ} (hentry : statementsFor store domain .CORPUS_ENTRY entryId = [])
      (htype : statementsFor store domain .SOURCE_TYPE sourceType = [])
      (h : domainBaseline lib store uri = some base) :
      FirstLevel lib store domain entryId sourceType uri
        (clampScore (base + (uri.map (lookupUrlModifier lib store)).getD 0))

/-- The ladder returns, its rank is that of the first level with a statement, and the query policy
gives the same rank. -/
def LadderAgrees (lib : UriLibrary) (inferDomain : String → Option String) (store : Store)
    (domain entryId sourceType : String) (uri : Option String) : Prop :=
  ∃ rank, getLayeredTrustRank lib store domain entryId sourceType uri none = .ok rank ∧
    ((∃ r, FirstLevel lib store domain entryId sourceType uri r) →
      FirstLevel lib store domain entryId sourceType uri rank ∧
      evaluate lib inferDomain (loadLocalTrustPolicy lib store) (some entryId) sourceType uri none =
        .ok (some rank))

/-! ### The policy reads what the ladder reads -/

section Policy

variable (lib : UriLibrary) (store : Store)

theorem mem_statementsFor {domain value : String} {type : SourceRefType} {row : TrustStatementRow} :
    row ∈ statementsFor store domain type value ↔ row ∈ store.trustStatements.rows ∧
      (row.domain, row.sourceRefType, row.sourceRefValue) = (domain, type, value) := by
  simp [statementsFor]

/-- **The policy keeps the most recently asserted statement of every key.** -/
theorem isLatest_of_statements {domain value : String} {type : SourceRefType} {rank : ℚ}
    (h : (loadLocalTrustPolicy lib store).statements (domain, type, value) = some rank) :
    IsLatest (statementsFor store domain type value) rank := by
  obtain ⟨row, hrow, hkey, hrank, hlatest⟩ := dictOf_sortBy h
  refine ⟨row, (mem_statementsFor store).2 ⟨hrow, hkey⟩, hrank, fun other hother => ?_⟩
  obtain ⟨hmem, hok⟩ := (mem_statementsFor store).1 hother
  exact hlatest other hmem hok

theorem statements_eq_none {domain value : String} {type : SourceRefType} :
    (loadLocalTrustPolicy lib store).statements (domain, type, value) = none ↔
      statementsFor store domain type value = [] := by
  rw [List.eq_nil_iff_forall_not_mem]
  refine dictOf_eq_none.trans ⟨fun h row hrow => ?_, fun h pair hpair hkey => ?_⟩
  · obtain ⟨hmem, hkey⟩ := (mem_statementsFor store).1 hrow
    exact h _ (List.mem_map.2 ⟨row, mem_sortBy.2 hmem, rfl⟩) hkey
  · obtain ⟨row, hrow, rfl⟩ := List.mem_map.1 hpair
    exact h row ((mem_statementsFor store).2 ⟨mem_sortBy.1 hrow, hkey⟩)

theorem domainScores_eq (pattern : String) :
    (loadLocalTrustPolicy lib store).domainScores pattern = domainRow store pattern := by
  have hmem : ∀ p score, (p, score) ∈ (store.sourceTrust.rows.filterMap fun rule =>
      if rule.scope = .domain then rule.score.map fun score => (rule.pattern, score) else none) ↔
        domainRow store p = some score := by
    intro p score
    rw [List.mem_filterMap, domainRow, Option.bind_eq_some_iff]
    constructor
    · rintro ⟨rule, hrule, hpair⟩
      split_ifs at hpair with hscope
      obtain ⟨s, hs, hpair⟩ := Option.map_eq_some_iff.1 hpair
      obtain ⟨rfl, rfl⟩ := Prod.mk.inj hpair
      exact ⟨rule, Table.get?_eq_some.2 ⟨hrule, by rw [SourceTrustRow.key, hscope]⟩, hs⟩
    · rintro ⟨rule, hrule, hscore⟩
      obtain ⟨hmem, hkey⟩ := Table.get?_eq_some.1 hrule
      obtain ⟨hscope, hpattern⟩ := Prod.mk.inj hkey
      exact ⟨rule, hmem, by rw [if_pos hscope, hscore, hpattern, Option.map_some]⟩
  cases hrow : domainRow store pattern with
  | none =>
      refine dictOf_eq_none.2 fun pair hpair hp => ?_
      obtain ⟨p, score⟩ := pair
      have hsome := (hmem p score).1 hpair
      obtain rfl : p = pattern := hp
      rw [hrow] at hsome
      cases hsome
  | some score =>
      refine dictOf_eq_some ((hmem pattern score).2 hrow) fun v hv => ?_
      exact Option.some.inj (((hmem pattern v).1 hv).symm.trans hrow)

/-- Both sides sum the modifiers of the same patterns. -/
theorem foldl_urlPatterns (uri : String) :
    ((loadLocalTrustPolicy lib store).urlPatterns.foldl (fun (total, matched) rule =>
      if lib.search rule.1 uri then (total + rule.2, true) else (total, matched))
        ((0 : ℚ), false)).1 = lookupUrlModifier lib store uri := by
  have hfold : ∀ (rules : List SourceTrustRow) (total : ℚ) (found : Bool),
      ((rules.filterMap fun rule =>
          if rule.scope = .url_pattern ∧ lib.compiles rule.pattern then
            rule.modifier.map fun modifier => (rule.pattern, modifier)
          else none).foldl (fun (total, matched) rule =>
        if lib.search rule.1 uri then (total + rule.2, true) else (total, matched))
          (total, found)).1 =
      (rules.filter fun row => row.scope = .url_pattern).foldl (fun total row =>
        if lib.compiles row.pattern && lib.search row.pattern uri then
          match row.modifier with
          | some modifier => total + modifier
          | none => total
        else total) total := by
    intro rules
    induction rules with
    | nil => intro total found; rfl
    | cons rule rules ih =>
        intro total found
        by_cases hscope : rule.scope = .url_pattern
        · by_cases hcompiles : lib.compiles rule.pattern = true
          · cases hmod : rule.modifier with
            | none => simp [hscope, hcompiles, hmod, ih]
            | some modifier =>
                by_cases hsearch : lib.search rule.pattern uri = true
                · simp [hscope, hcompiles, hmod, hsearch, ih]
                · simp [hscope, hcompiles, hmod, hsearch, ih]
          · simp [hscope, hcompiles, ih]
        · simp [hscope, ih]
  exact hfold store.sourceTrust.rows 0 false

end Policy

/-! ### The URL layer -/

section Url

variable {lib : UriLibrary} {store : Store} {uri : Option String}

/-- A URI that is not of the local file system can be parsed. -/
def UriParses (lib : UriLibrary) (uri : Option String) : Prop :=
  ∀ u, uri = some u → isFileUri u = false → (lib.urlparse u).isSome

theorem domainBaseline_eq_some {base : ℚ} (h : domainBaseline lib store uri = some base) :
    ∃ u scheme netloc, uri = some u ∧ isFileUri u = false ∧
      lib.urlparse u = some (scheme, netloc) ∧ scheme ∉ HARNESS_URI_SCHEMES ∧
      (domainRow store (if netloc = "" then u else netloc)).or (domainRow store "*") = some base := by
  obtain ⟨u, rfl, hu⟩ := Option.bind_eq_some_iff.1 h
  split_ifs at hu with hfile
  obtain ⟨⟨scheme, netloc⟩, hparts, hrow⟩ := Option.bind_eq_some_iff.1 hu
  by_cases hharness : scheme ∈ HARNESS_URI_SCHEMES
  · simp [hharness] at hrow
  · exact ⟨u, scheme, netloc, rfl, by simpa using hfile, hparts, hharness,
      by simpa [hharness] using hrow⟩

/-- The URL baseline of a URI that a domain row covers. -/
theorem resolveTrustScore_of_baseline {base : ℚ} (h : domainBaseline lib store uri = some base) :
    resolveTrustScore lib store uri = .ok
      (clampScore (base + (uri.map (lookupUrlModifier lib store)).getD 0)) := by
  obtain ⟨u, scheme, netloc, rfl, hfile, hparts, hharness, hrow⟩ := domainBaseline_eq_some h
  have hscore : lookupDomainScore store (if netloc = "" then u else netloc) = base := by
    rw [lookupDomainScore_eq, hrow, Option.getD_some]
  simp only [resolveTrustScore, hfile, domainRowsApply, extractDomain, urlparse, hparts]
  simp only [bind, Except.bind, pure, Except.pure, hharness, not_false_eq_true, decide_true, if_true,
    hscore, Option.map_some, Option.getD_some, Bool.false_eq_true, if_false]

/-- A URI that parses has a URL baseline. -/
theorem resolveTrustScore_of_parses (h : UriParses lib uri) :
    ∃ rank, resolveTrustScore lib store uri = .ok rank := by
  cases uri with
  | none => exact ⟨_, rfl⟩
  | some u =>
      by_cases hfile : isFileUri u
      · exact ⟨1 / 2, by simp [resolveTrustScore, hfile]⟩
      · obtain ⟨⟨scheme, netloc⟩, hparts⟩ :=
          Option.isSome_iff_exists.1 (h u rfl (by simpa using hfile))
        by_cases hharness : scheme ∈ HARNESS_URI_SCHEMES
        · simp [resolveTrustScore, hfile, domainRowsApply, urlparse, hparts, hharness, bind,
            Except.bind, pure, Except.pure]
        · simp [resolveTrustScore, hfile, domainRowsApply, extractDomain, urlparse, hparts, hharness,
            bind, Except.bind, pure, Except.pure]

theorem resolveTrustScore_of_not_parses (h : ¬ UriParses lib uri) :
    resolveTrustScore lib store uri = .error .ValueError := by
  simp only [UriParses, not_forall] at h
  obtain ⟨u, rfl, hfile, hparts⟩ := h
  have hnone : lib.urlparse u = none := by simpa using hparts
  simp [resolveTrustScore, hfile, domainRowsApply, urlparse, hnone, bind, Except.bind]

/-- **A URI that a domain row covers has the same rank in the policy.** -/
theorem urlRank_of_baseline {base : ℚ} (h : domainBaseline lib store uri = some base) :
    urlRank lib (loadLocalTrustPolicy lib store) uri = .ok (some
      (clampScore (base + (uri.map (lookupUrlModifier lib store)).getD 0))) := by
  obtain ⟨u, scheme, netloc, rfl, hfile, hparts, hharness, hrow⟩ := domainBaseline_eq_some h
  have hfold := foldl_urlPatterns lib store u
  simp only [urlRank, hfile, domainRowsApply, extractDomain, urlparse, hparts, domainScores_eq]
  simp only [bind, Except.bind, pure, Except.pure, hharness, not_false_eq_true, decide_true, if_true,
    Option.map_some, Option.getD_some, Bool.false_eq_true, if_false, hrow, Option.isNone_some,
    Bool.false_and, hfold]

end Url

/-! ### The ladder and the policy -/

section Ladder

variable {lib : UriLibrary} {inferDomain : String → Option String} {store : Store}
  {domain entryId sourceType : String} {uri : Option String} {rank : ℚ}

theorem IsLatest.ne_nil {rows : List TrustStatementRow} (h : IsLatest rows rank) : rows ≠ [] := by
  obtain ⟨row, hrow, -⟩ := h
  exact List.ne_nil_of_mem hrow

theorem IsLatest.eq_singleton {row : TrustStatementRow} (h : IsLatest [row] rank) :
    row.trustRank = rank := by
  obtain ⟨row', hrow, hrank, -⟩ := h
  obtain rfl := List.mem_singleton.1 hrow
  exact hrank

/-- The policy's rank of a key with statements is that of a most recently asserted one. -/
theorem exists_latest (lib : UriLibrary) {value : String} {type : SourceRefType}
    (h : statementsFor store domain type value ≠ []) :
    ∃ rank, (loadLocalTrustPolicy lib store).statements (domain, type, value) = some rank ∧
      IsLatest (statementsFor store domain type value) rank := by
  obtain ⟨rank, hrank⟩ := Option.ne_none_iff_exists'.1
    (mt (statements_eq_none lib store).1 h)
  exact ⟨rank, hrank, isLatest_of_statements lib store hrank⟩

/-- **The query policy gives the rank of the first level with a statement**, whatever the number of
statements of a key. -/
theorem evaluate_firstLevel (hdomain : inferDomain sourceType = some domain)
    (h : ∃ r, FirstLevel lib store domain entryId sourceType uri r) :
    ∃ rank, evaluate lib inferDomain (loadLocalTrustPolicy lib store) (some entryId) sourceType uri
        none = .ok (some rank) ∧ FirstLevel lib store domain entryId sourceType uri rank := by
  by_cases hentry : statementsFor store domain .CORPUS_ENTRY entryId = []
  · have hnone := (statements_eq_none lib store).2 hentry
    by_cases htype : statementsFor store domain .SOURCE_TYPE sourceType = []
    · have hnone' := (statements_eq_none lib store).2 htype
      obtain ⟨r, hr⟩ := h
      cases hr with
      | entry hlatest => exact absurd hentry hlatest.ne_nil
      | sourceType _ hlatest => exact absurd htype hlatest.ne_nil
      | domain _ _ hbase =>
          refine ⟨_, ?_, FirstLevel.domain hentry htype hbase⟩
          simp only [evaluate, statementRank, hdomain, Option.bind_some, hnone, hnone',
            Option.bind_none, Option.none_or]
          exact urlRank_of_baseline hbase
    · obtain ⟨rank, hrank, hlatest⟩ := exists_latest lib htype
      refine ⟨rank, ?_, FirstLevel.sourceType hentry hlatest⟩
      simp only [evaluate, statementRank, hdomain, Option.bind_some, hnone, hrank,
        Option.bind_none, Option.none_or]
  · obtain ⟨rank, hrank, hlatest⟩ := exists_latest lib hentry
    refine ⟨rank, ?_, FirstLevel.entry hlatest⟩
    simp only [evaluate, statementRank, hdomain, Option.bind_some, hrank, Option.some_or]

theorem getLayeredTrustRank_of_entry {row : TrustStatementRow}
    (h : statementsFor store domain .CORPUS_ENTRY entryId = [row]) :
    getLayeredTrustRank lib store domain entryId sourceType uri none = .ok row.trustRank := by
  simp only [getLayeredTrustRank, getTrustRank_of_singleton h, orNext]

theorem getLayeredTrustRank_of_type (hentry : statementsFor store domain .CORPUS_ENTRY entryId = [])
    {row : TrustStatementRow} (h : statementsFor store domain .SOURCE_TYPE sourceType = [row]) :
    getLayeredTrustRank lib store domain entryId sourceType uri none = .ok row.trustRank := by
  simp only [getLayeredTrustRank, getTrustRank_of_nil hentry, getTrustRank_of_singleton h, orNext]

theorem getLayeredTrustRank_of_nil (hentry : statementsFor store domain .CORPUS_ENTRY entryId = [])
    (htype : statementsFor store domain .SOURCE_TYPE sourceType = []) :
    getLayeredTrustRank lib store domain entryId sourceType uri none =
      resolveTrustScore lib store uri := by
  simp only [getLayeredTrustRank, getTrustRank_of_nil hentry, getTrustRank_of_nil htype, orNext]

/-- Whether the ladder can rank a source: the key it stops at has one statement, and the URI that it
falls back to parses. -/
def LadderCanRank (lib : UriLibrary) (store : Store) (domain entryId sourceType : String)
    (uri : Option String) : Prop :=
  (statementsFor store domain .CORPUS_ENTRY entryId).length ≤ 1 ∧
    (statementsFor store domain .CORPUS_ENTRY entryId = [] →
      (statementsFor store domain .SOURCE_TYPE sourceType).length ≤ 1 ∧
        (statementsFor store domain .SOURCE_TYPE sourceType = [] → UriParses lib uri))

/-- The ladder returns only for a source that it can rank. -/
theorem ladderCanRank_of_ok
    (h : getLayeredTrustRank lib store domain entryId sourceType uri none = .ok rank) :
    LadderCanRank lib store domain entryId sourceType uri := by
  refine ⟨?_, fun hentry => ⟨?_, fun htype => ?_⟩⟩
  · by_contra hmany
    simp [getLayeredTrustRank, getTrustRank_of_two (Nat.lt_of_not_le hmany), orNext] at h
  · by_contra hmany
    simp [getLayeredTrustRank, getTrustRank_of_nil hentry,
      getTrustRank_of_two (Nat.lt_of_not_le hmany), orNext] at h
  · by_contra hparses
    rw [getLayeredTrustRank_of_nil hentry htype, resolveTrustScore_of_not_parses hparses] at h
    cases h

/-- A source that the ladder can rank gets the rank of the first level with a statement. -/
theorem exists_ok_of_ladderCanRank (h : LadderCanRank lib store domain entryId sourceType uri) :
    ∃ rank, getLayeredTrustRank lib store domain entryId sourceType uri none = .ok rank ∧
      ∀ r, FirstLevel lib store domain entryId sourceType uri r → r = rank := by
  obtain ⟨hone, hrest⟩ := h
  by_cases hentry : statementsFor store domain .CORPUS_ENTRY entryId = []
  · obtain ⟨htypeOne, hparses⟩ := hrest hentry
    by_cases htype : statementsFor store domain .SOURCE_TYPE sourceType = []
    · obtain ⟨rank, hrank⟩ := resolveTrustScore_of_parses (hparses htype)
      refine ⟨rank, (getLayeredTrustRank_of_nil hentry htype).trans hrank, fun r hr => ?_⟩
      cases hr with
      | entry hlatest => exact absurd hentry hlatest.ne_nil
      | sourceType _ hlatest => exact absurd htype hlatest.ne_nil
      | domain _ _ hbase =>
          exact Except.ok.inj ((resolveTrustScore_of_baseline hbase).symm.trans hrank)
    · obtain ⟨row, hrow⟩ := List.length_eq_one_iff.1
        (le_antisymm htypeOne (List.length_pos_iff.2 htype))
      refine ⟨row.trustRank, getLayeredTrustRank_of_type hentry hrow, fun r hr => ?_⟩
      cases hr with
      | entry hlatest => exact absurd hentry hlatest.ne_nil
      | sourceType _ hlatest => exact (IsLatest.eq_singleton (hrow ▸ hlatest)).symm
      | domain _ htype' _ => exact absurd htype' htype
  · obtain ⟨row, hrow⟩ := List.length_eq_one_iff.1 (le_antisymm hone (List.length_pos_iff.2 hentry))
    refine ⟨row.trustRank, getLayeredTrustRank_of_entry hrow, fun r hr => ?_⟩
    cases hr with
    | entry hlatest => exact (IsLatest.eq_singleton (hrow ▸ hlatest)).symm
    | sourceType hentry' _ => exact absurd hentry' hentry
    | domain hentry' _ _ => exact absurd hentry' hentry

/-- **When the ladder agrees with the query policy**: exactly when the first of the keys of the entry
and of the source type that has a statement has one only, and, where neither has one, the URI
parses. -/
theorem ladderAgrees_iff (lib : UriLibrary) (inferDomain : String → Option String) (store : Store)
    (domain entryId sourceType : String) (uri : Option String)
    (hdomain : inferDomain sourceType = some domain) :
    LadderAgrees lib inferDomain store domain entryId sourceType uri ↔
      LadderCanRank lib store domain entryId sourceType uri := by
  constructor
  · rintro ⟨rank, hrank, -⟩
    exact ladderCanRank_of_ok hrank
  · intro hcan
    obtain ⟨rank, hrank, honly⟩ := exists_ok_of_ladderCanRank hcan
    refine ⟨rank, hrank, fun hlevel => ?_⟩
    obtain ⟨r, heval, hr⟩ := evaluate_firstLevel hdomain hlevel
    obtain rfl := honly r hr
    exact ⟨hr, heval⟩

/-- A URI library that knows the one URI of the example. -/
def exampleUris : UriLibrary where
  urlparse uri := if uri = "https://a.org/x" then some ("https", "a.org") else none
  compiles _ := true
  search _ _ := false

/-- One statement about the entry, one about its source type, and a row for its domain. -/
def rankedStore : Store :=
  { trustStatements := ⟨[⟨"s1", "news", .CORPUS_ENTRY, "e", 9 / 10, .REVIEWER_DERIVED, "r", 1, none,
      none⟩, ⟨"s2", "news", .SOURCE_TYPE, "RSS", 3 / 10, .OPERATOR_DIRECT, "o", 2, none, none⟩],
      by decide⟩
    sourceTrust := ⟨[{ scope := .domain, pattern := "a.org", score := some (7 / 10) }], by decide⟩ }

theorem ladderAgrees_iff_ranked :
    LadderAgrees exampleUris (fun _ => some "news") rankedStore "news" "e" "RSS"
      (some "https://a.org/x") :=
  (ladderAgrees_iff exampleUris (fun _ => some "news") rankedStore "news" "e" "RSS"
    (some "https://a.org/x") rfl).2 ⟨by decide, fun h => absurd h (by decide)⟩

/-- Two reviews prefer the same entry. -/
def reviewedTwice : Store :=
  ((insertTrustStatement {} ⟨"s1", "news", .CORPUS_ENTRY, "e", 9 / 10, .REVIEWER_DERIVED, "r", 1, none,
    none⟩).bind fun store => insertTrustStatement store
      ⟨"s2", "news", .CORPUS_ENTRY, "e", 9 / 10, .REVIEWER_DERIVED, "r", 2, none, none⟩).getD {}

/-- **A second confirmation makes the ladder raise**; the query policy takes the later one. -/
theorem not_ladderAgrees_reviewedTwice :
    ¬ LadderAgrees exampleUris (fun _ => some "news") reviewedTwice "news" "e" "RSS" none ∧
      getLayeredTrustRank exampleUris reviewedTwice "news" "e" "RSS" none none =
        .error .MultipleResultsFound ∧
      evaluate exampleUris (fun _ => some "news") (loadLocalTrustPolicy exampleUris reviewedTwice)
        (some "e") "RSS" none none = .ok (some (9 / 10)) := by
  have hraise : getLayeredTrustRank exampleUris reviewedTwice "news" "e" "RSS" none none =
      .error .MultipleResultsFound := rfl
  refine ⟨?_, hraise, rfl⟩
  rintro ⟨rank, hrank, -⟩
  rw [hraise] at hrank
  cases hrank

end Ladder

end ParticlesEngine
