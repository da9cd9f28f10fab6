/-
**The ingest-time trust ladder.**

`store/trust_store.py` keeps the operator's source-trust policy in two tables: append-only
statements that rank an entry, an author or a source type within a knowledge domain, and rules that
score the URIs of a web domain.  The §6.6 ladder reads them in layers, first match wins.

Main definitions:

* `UriLibrary` — the standard library's URL parser and regular expressions;
* `getTrustRank`, `getLayeredTrustRank` — the lookups;
* `resolveTrustScore` — the URL baseline;
* `insertTrustStatement`, `countReviewerConfirmations` — the writer and the cascade's count.

Main results:

* `getTrustRank_of_two`, `getTrustRank_eq_ok` — **a lookup answers for at most one statement**, and
  raises for more;
* `lookupDomainScore_eq` — the baseline of a domain is its own row's, or that of the wildcard.
-/

import Mathlib.Algebra.Order.Ring.Rat
import Mathlib.Algebra.Order.Group.Int
import ParticlesEngine.SortBy
import ParticlesEngine.Store

set_option relaxedAutoImplicit false
set_option autoImplicit false

open SortBy

namespace ParticlesEngine

/-- What a trust lookup can raise. -/
inductive TrustError where
  | MultipleResultsFound
  | ValueError
  deriving DecidableEq, Repr

/-! ### Statements -/

/-- `insert_trust_statement`: the table is append-only. -/
def insertTrustStatement (store : Store) (stmt : TrustStatementRow) : Option Store :=
  (store.trustStatements.insert? stmt).map fun statements =>
    { store with trustStatements := statements }

/-- The statements about one source within a domain. -/
def statementsFor (store : Store) (domain : String) (sourceRefType : SourceRefType)
    (sourceRefValue : String) : List TrustStatementRow :=
  store.trustStatements.rows.filter fun row =>
    row.domain = domain ∧ row.sourceRefType = sourceRefType ∧ row.sourceRefValue = sourceRefValue

/-- `scalar_one_or_none`: at most one row may be left. -/
def scalarOneOrNone {α : Type*} : List α → Except TrustError (Option α)
  | [] => .ok none
  | [row] => .ok (some row)
  | _ :: _ :: _ => .error .MultipleResultsFound

/-- **`get_trust_rank`**. -/
def getTrustRank (store : Store) (domain : String) (sourceRefType : SourceRefType)
    (sourceRefValue : String) : Except TrustError (Option ℚ) := do
  let row ← scalarOneOrNone (sortBy (fun row : TrustStatementRow => -row.assertedAt)
    (statementsFor store domain sourceRefType sourceRefValue))
  return row.map TrustStatementRow.trustRank

/-- `count_reviewer_confirmations`, which the cascade's gate compares with its minimum. -/
def countReviewerConfirmations (store : Store) (domain : String) (sourceRefType : SourceRefType)
    (sourceRefValue : String) : ℕ :=
  ((statementsFor store domain sourceRefType sourceRefValue).filter fun row =>
    row.policyProvenance = .REVIEWER_DERIVED).length

/-! ### Rules -/

/-- The standard library's URL parser and regular expressions. -/
structure UriLibrary where
  /-- the scheme and the netloc; nothing where `urlparse` raises `ValueError` -/
  urlparse : String → Option (String × String)
  /-- whether a pattern compiles; `re.error` otherwise -/
  compiles : String → Bool
  /-- whether a pattern that compiles is found in a URI -/
  search : String → String → Bool

/-- The URI schemes that a harness's own deposits use. -/
def HARNESS_URI_SCHEMES : List String := ["claude-code"]

/-- The parts of a URI. -/
def urlparse (lib : UriLibrary) (uri : String) : Except TrustError (String × String) :=
  match lib.urlparse uri with
  | some parts => .ok parts
  | none => .error .ValueError

/-- Whether the domain rows score a URI. -/
def domainRowsApply (lib : UriLibrary) (uri : String) : Except TrustError Bool := do
  let (scheme, _) ← urlparse lib uri
  return scheme ∉ HARNESS_URI_SCHEMES

/-- The domain of a URI; a URI with no netloc is its own domain. -/
def extractDomain (lib : UriLibrary) (uri : String) : Except TrustError String := do
  let (_, netloc) ← urlparse lib uri
  return if netloc = "" then uri else netloc

/-- `_lookup_domain_score`: the domain's own row, or the wildcard row, or 0.50. -/
def lookupDomainScore (store : Store) (domain : String) : ℚ :=
  let rows := store.sourceTrust.rows.filter fun row =>
    row.scope = .domain ∧ row.pattern ∈ [domain, "*"]
  match rows.findSome? fun row => if row.pattern = domain then row.score else none with
  | some score => score
  | none =>
      match rows.findSome? fun row => if row.pattern = "*" then row.score else none with
      | some score => score
      | none => 1 / 2

/-- `_lookup_url_modifier`: the sum of the modifiers whose pattern is found in the URI. -/
def lookupUrlModifier (lib : UriLibrary) (store : Store) (uri : String) : ℚ :=
  (store.sourceTrust.rows.filter fun row => row.scope = .url_pattern).foldl (fun total row =>
    if lib.compiles row.pattern && lib.search row.pattern uri then
      match row.modifier with
      | some modifier => total + modifier
      | none => total
    else total) 0

/-- A URI of the local file system. -/
def isFileUri (uri : String) : Bool := "file://".toList.isPrefixOf uri.toList

/-- Bound a score to [0, 1]. -/
def clampScore (score : ℚ) : ℚ := max 0 (min 1 score)

/-- **`resolve_trust_score`**: the URL baseline of a corpus entry. -/
def resolveTrustScore (lib : UriLibrary) (store : Store) : Option String → Except TrustError ℚ
  | none => .ok (1 / 2)
  | some uri =>
      if isFileUri uri then .ok (1 / 2)
      else do
        let base ←
          if ← domainRowsApply lib uri then do
            let domain ← extractDomain lib uri
            pure (lookupDomainScore store domain)
          else pure (1 / 2)
        return clampScore (base + lookupUrlModifier lib store uri)

/-- First match wins: a rank is returned, and without one the next layer is asked. -/
def orNext {α : Type*} (rank : Except TrustError (Option α)) (next : Except TrustError α) :
    Except TrustError α :=
  match rank with
  | .ok (some rank) => .ok rank
  | .ok none => next
  | .error error => .error error

/-- **`get_layered_trust_rank`**: entry, then author, then source type, then the URL baseline. -/
def getLayeredTrustRank (lib : UriLibrary) (store : Store) (domain entryId sourceType : String)
    (uri authorId : Option String) : Except TrustError ℚ :=
  orNext (getTrustRank store domain .CORPUS_ENTRY entryId) <|
  orNext (match authorId with
    | some author => getTrustRank store domain .AUTHOR author
    | none => .ok none) <|
  orNext (getTrustRank store domain .SOURCE_TYPE sourceType) <|
  resolveTrustScore lib store uri

/-! ### What the lookups answer -/

section Lookups

variable {store : Store} {domain value : String} {type : SourceRefType}

/-- No statement: no rank. -/
theorem getTrustRank_of_nil (h : statementsFor store domain type value = []) :
    getTrustRank store domain type value = .ok none := by
  rw [getTrustRank, h]
  rfl

/-- One statement: its rank. -/
theorem getTrustRank_of_singleton {row : TrustStatementRow}
    (h : statementsFor store domain type value = [row]) :
    getTrustRank store domain type value = .ok (some row.trustRank) := by
  rw [getTrustRank, h]
  rfl

/-- **More than one statement: the lookup raises**, whichever was asserted last. -/
theorem getTrustRank_of_two (h : 2 ≤ (statementsFor store domain type value).length) :
    getTrustRank store domain type value = .error .MultipleResultsFound := by
  have hlen := (sortBy_perm (fun row : TrustStatementRow => -row.assertedAt)
    (statementsFor store domain type value)).length_eq
  unfold getTrustRank
  cases hrows : sortBy (fun row : TrustStatementRow => -row.assertedAt)
      (statementsFor store domain type value) with
  | nil => simp only [hrows, List.length_nil] at hlen; omega
  | cons first rest =>
      cases rest with
      | nil => simp only [hrows, List.length_cons, List.length_nil] at hlen; omega
      | cons second rest => rfl

/-- A lookup that raises nothing found at most one statement. -/
theorem getTrustRank_eq_ok {rank : Option ℚ} (h : getTrustRank store domain type value = .ok rank) :
    (statementsFor store domain type value = [] ∧ rank = none) ∨
      ∃ row, statementsFor store domain type value = [row] ∧ rank = some row.trustRank := by
  cases hrows : statementsFor store domain type value with
  | nil =>
      rw [getTrustRank_of_nil hrows] at h
      exact Or.inl ⟨rfl, (Except.ok.inj h).symm⟩
  | cons row rest =>
      cases rest with
      | nil =>
          rw [getTrustRank_of_singleton hrows] at h
          exact Or.inr ⟨row, rfl, (Except.ok.inj h).symm⟩
      | cons second rest =>
          rw [getTrustRank_of_two (by simp [hrows])] at h
          cases h

/-- **The gate and the ladder read one key differently**: an entry with the two confirmations that a
gate of two or more asks for is an entry that the ladder cannot rank. -/
theorem getLayeredTrustRank_of_confirmations (lib : UriLibrary) (sourceType : String)
    (uri authorId : Option String)
    (h : 2 ≤ countReviewerConfirmations store domain .CORPUS_ENTRY value) :
    getLayeredTrustRank lib store domain value sourceType uri authorId =
      .error .MultipleResultsFound := by
  have hrows : 2 ≤ (statementsFor store domain .CORPUS_ENTRY value).length :=
    le_trans h (List.length_filter_le _ _)
  simp only [getLayeredTrustRank, getTrustRank_of_two hrows, orNext]

/-- The score of the row of one domain, or of the wildcard. -/
def domainRow (store : Store) (pattern : String) : Option ℚ :=
  (store.sourceTrust.get? (.domain, pattern)).bind SourceTrustRow.score

theorem findSome?_filter {α β : Type*} (p : α → Bool) (f : α → Option β) (l : List α) :
    (l.filter p).findSome? f = l.findSome? fun a => if p a then f a else none := by
  induction l with
  | nil => rfl
  | cons a l ih =>
      by_cases hp : p a
      · rw [List.filter_cons_of_pos hp, List.findSome?_cons, List.findSome?_cons, if_pos hp, ih]
      · rw [List.filter_cons_of_neg hp, List.findSome?_cons, if_neg hp, ih]

/-- The first score that a scan finds for a pattern is that of the row with the pattern. -/
theorem findSome?_domainRow (store : Store) {patterns : List String} {pattern : String}
    (hpattern : pattern ∈ patterns) :
    ((store.sourceTrust.rows.filter fun row => row.scope = .domain ∧
        row.pattern ∈ patterns).findSome? fun row =>
          if row.pattern = pattern then row.score else none) = domainRow store pattern := by
  rw [domainRow, ← Table.findSome?_key, findSome?_filter]
  congr 1
  funext row
  by_cases hscope : row.scope = .domain
  · by_cases hrow : row.pattern = pattern
    · simp [SourceTrustRow.key, hscope, hrow, hpattern]
    · simp [SourceTrustRow.key, hrow]
  · simp [SourceTrustRow.key, hscope]

/-- **The baseline of a domain is its own row's, or that of the wildcard.** -/
theorem lookupDomainScore_eq (store : Store) (domain : String) : lookupDomainScore store domain =
    ((domainRow store domain).or (domainRow store "*")).getD (1 / 2) := by
  have hown := findSome?_domainRow store (List.mem_cons_self : domain ∈ [domain, "*"])
  have hwild := findSome?_domainRow store (List.mem_cons_of_mem domain (List.mem_singleton_self "*"))
  simp only [lookupDomainScore, hown, hwild]
  cases domainRow store domain with
  | some score => rfl
  | none => cases domainRow store "*" <;> rfl

end Lookups

end ParticlesEngine
