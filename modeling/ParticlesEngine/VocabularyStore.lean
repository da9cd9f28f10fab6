/-
**Vocabulary documents.**

A vocabulary document holds a store's reviewed rulings on its predicates.  Every revision is a new
version, and a version once written is never replaced.  A later version keeps the name's namespace and
prefix and every minted term with its form and class, so that an address which another store cites keeps
its meaning.

Main definitions:

* `VocabularyTerm`, `VocabularyDocument` — a term and a version of a document;
* `revisionRefusal`, `materialiseDocument` — why a version may not follow another, and the append;
* `getDocument`, `publishVersion` — the version of a name, and a deposit of one;
* `Keeps` — what a later version must keep;
* `Chained` — the versions of a name, each keeping what those before it said.

Main results:

* `keeps_of_revisionRefusal`, `revisionRefusal_eq_none` — a version may follow those that it keeps;
* `Chained.materialise` — **an append keeps the chain**;
* `publishVersion_spec` — a version that is published was there, or is appended;
* `Chained.publish` — **and so publishing keeps the chain**.
-/

import Mathlib.Data.List.MinMax
import ParticlesEngine.Dict

set_option relaxedAutoImplicit false
set_option autoImplicit false

open Dict

namespace ParticlesEngine

namespace Vocabulary

/-- One canonical predicate of a document. -/
structure VocabularyTerm where
  localName : String
  form : String
  subjectClass : String
  /-- its aliases, alignments and profile -/
  rulings : List String := []
  deriving DecidableEq, Repr

/-- One version of a vocabulary document.  A row of the versions repeats its name, version, prefix and
namespace in columns of their own, and holds the rest as text. -/
structure VocabularyDocument where
  name : String
  version : ℕ
  iriPrefix : String
  namespaceIri : String
  publisher : Option String := none
  terms : List VocabularyTerm := []
  deriving DecidableEq, Repr

/-- What publishing takes from elsewhere. -/
structure PublishEnv where
  /-- Python's `repr` of a string -/
  repr : String → String
  /-- the canonical serialisation -/
  dumps : VocabularyDocument → String
  /-- the corpus entry of the deposit of a version -/
  entryId : VocabularyDocument → String
  /-- whether the extraction of the deposit hands the document to the store -/
  extracts : VocabularyDocument → Bool

/-- The row of a name with the highest version. -/
def latestRow (versions : List VocabularyDocument) (name : String) : Option VocabularyDocument :=
  (versions.filter fun row => row.name = name).argmax VocabularyDocument.version

/-- `get_document`: a version of a document, the current one by default. -/
def getDocument (versions : List VocabularyDocument) (name : String) :
    Option ℕ → Option VocabularyDocument
  | none => latestRow versions name
  | some version => versions.find? fun row => row.name = name ∧ row.version = version

section Publish

variable (env : PublishEnv)

/-- How a refusal begins. -/
def notMaterialised (doc : VocabularyDocument) : String :=
  "vocabulary " ++ env.repr doc.name ++ " v" ++ toString doc.version ++ " not materialised: "

/-- Why a term that was minted may not stand in a later version as it does. -/
def termRefusal (doc : VocabularyDocument) (term : VocabularyTerm) : Option String :=
  match dictOf (doc.terms.map fun t => (t.localName, t)) term.localName with
  | none =>
      some (notMaterialised env doc ++ "it drops term " ++ env.repr term.localName ++
        ". A minted term is never removed; map it outward instead.")
  | some kept =>
      if (kept.form, kept.subjectClass) ≠ (term.form, term.subjectClass) then
        some (notMaterialised env doc ++ "it renames term " ++ env.repr term.localName ++
          ". A minted term keeps its form and class.")
      else none

/-- **`_revision_refusal`: why a version may not follow another, if it may not.** -/
def revisionRefusal (previous doc : VocabularyDocument) : Option String :=
  if doc.version ≤ previous.version then
    some (notMaterialised env doc ++ "v" ++ toString previous.version ++
      " is already current (versions are monotonic).")
  else if (doc.namespaceIri, doc.iriPrefix) ≠ (previous.namespaceIri, previous.iriPrefix) then
    some (notMaterialised env doc ++ "it changes the namespace or prefix of v" ++
      toString previous.version ++ " (" ++ previous.iriPrefix ++ ": " ++ previous.namespaceIri ++
        "), which would move every published term IRI.")
  else previous.terms.findSome? (termRefusal env doc)

/-- `revision_refusal`. -/
def storeRefusal (versions : List VocabularyDocument) (doc : VocabularyDocument) : Option String :=
  (latestRow versions doc.name).bind fun latest => revisionRefusal env latest doc

/-- **`materialise_document`: append one version, or the reason it is rejected for.** -/
def materialiseDocument (versions : List VocabularyDocument) (doc : VocabularyDocument) :
    Except String (List VocabularyDocument) :=
  match storeRefusal env versions doc with
  | some refusal => .error refusal
  | none => .ok (versions ++ [doc])

/-- **`publish_version`**: the versions, and the version as it is stored. -/
def publishVersion (versions : List VocabularyDocument) (doc : VocabularyDocument) :
    Except String (List VocabularyDocument × VocabularyDocument) :=
  match getDocument versions doc.name (some doc.version) with
  | some existing =>
      if env.dumps existing = env.dumps doc then .ok (versions, existing)
      else
        .error ("vocabulary " ++ env.repr doc.name ++ " already has a different v" ++
          toString doc.version ++ "; versions are monotonic and a published version is never replaced.")
  | none =>
      match storeRefusal env versions doc with
      | some refusal => .error refusal
      | none =>
          if env.extracts doc then
            (materialiseDocument env versions doc).map fun versions' => (versions', doc)
          else
            .error ("vocabulary " ++ env.repr doc.name ++ " v" ++ toString doc.version ++
              " was deposited (corpus entry " ++ env.entryId doc ++
                ") but not materialised; see the snapshot's quality notes.")

end Publish

/-! ### What a later version keeps -/

/-- A document has the namespace and prefix of another, and each of its terms with its form and class. -/
structure KeepsTerms (earlier later : VocabularyDocument) : Prop where
  namespaceIri : later.namespaceIri = earlier.namespaceIri
  iriPrefix : later.iriPrefix = earlier.iriPrefix
  terms : ∀ term ∈ earlier.terms, ∃ kept ∈ later.terms, kept.localName = term.localName ∧
    kept.form = term.form ∧ kept.subjectClass = term.subjectClass

/-- **What a later version of a document keeps of an earlier one.** -/
structure Keeps (earlier later : VocabularyDocument) : Prop extends KeepsTerms earlier later where
  version : earlier.version < later.version

theorem KeepsTerms.refl (doc : VocabularyDocument) : KeepsTerms doc doc :=
  ⟨rfl, rfl, fun term hterm => ⟨term, hterm, rfl, rfl, rfl⟩⟩

theorem KeepsTerms.trans {a b c : VocabularyDocument} (h : KeepsTerms a b) (h' : KeepsTerms b c) :
    KeepsTerms a c := by
  refine ⟨h'.namespaceIri.trans h.namespaceIri, h'.iriPrefix.trans h.iriPrefix, ?_⟩
  intro term hterm
  obtain ⟨kept, hkept, hname, hform, hclass⟩ := h.terms term hterm
  obtain ⟨kept', hkept', hname', hform', hclass'⟩ := h'.terms kept hkept
  exact ⟨kept', hkept', hname'.trans hname, hform'.trans hform, hclass'.trans hclass⟩

theorem Keeps.trans {a b c : VocabularyDocument} (h : Keeps a b) (h' : Keeps b c) : Keeps a c :=
  ⟨h.toKeepsTerms.trans h'.toKeepsTerms, h.version.trans h'.version⟩

/-- The local names tell the terms of a document apart. -/
def TermsApart (doc : VocabularyDocument) : Prop :=
  ∀ term ∈ doc.terms, ∀ other ∈ doc.terms, term.localName = other.localName → term = other

section Refusal

variable {env : PublishEnv} {previous doc : VocabularyDocument}

theorem termRefusal_eq_none {term : VocabularyTerm} (h : termRefusal env doc term = none) :
    ∃ kept ∈ doc.terms, kept.localName = term.localName ∧ kept.form = term.form ∧
      kept.subjectClass = term.subjectClass := by
  unfold termRefusal at h
  rcases hkept : dictOf (doc.terms.map fun t => (t.localName, t)) term.localName with _ | kept
  · rw [hkept] at h
    cases h
  · simp only [hkept] at h
    split_ifs at h with hsame
    obtain ⟨t, ht, heq⟩ := List.mem_map.1 (mem_of_dictOf hkept)
    obtain ⟨hname, rfl⟩ := Prod.mk.inj heq
    obtain ⟨hform, hclass⟩ := Prod.mk.inj (not_not.1 hsame)
    exact ⟨t, ht, hname, hform, hclass⟩

/-- What follows another without a refusal keeps it. -/
theorem keeps_of_revisionRefusal (h : revisionRefusal env previous doc = none) :
    Keeps previous doc := by
  unfold revisionRefusal at h
  split_ifs at h with hversion hnamespace
  obtain ⟨hiri, hprefix⟩ := Prod.mk.inj (not_not.1 hnamespace)
  refine ⟨⟨hiri, hprefix, ?_⟩, not_le.1 hversion⟩
  intro term hterm
  exact termRefusal_eq_none (List.findSome?_eq_none_iff.1 h term hterm)

/-- And what keeps another may follow it, when its terms are told apart. -/
theorem revisionRefusal_eq_none (hkeeps : Keeps previous doc) (hapart : TermsApart doc) :
    revisionRefusal env previous doc = none := by
  unfold revisionRefusal
  rw [if_neg (not_le.2 hkeeps.version), if_neg (by simp [hkeeps.namespaceIri, hkeeps.iriPrefix]),
    List.findSome?_eq_none_iff]
  intro term hterm
  obtain ⟨kept, hkept, hname, hform, hclass⟩ := hkeeps.terms term hterm
  have hdict : dictOf (doc.terms.map fun t => (t.localName, t)) term.localName = some kept := by
    refine dictOf_eq_some (List.mem_map.2 ⟨kept, hkept, by rw [hname]⟩) ?_
    intro other hother
    obtain ⟨t, ht, heq⟩ := List.mem_map.1 hother
    obtain ⟨hother', rfl⟩ := Prod.mk.inj heq
    exact hapart t ht kept hkept (hother'.trans hname.symm)
  unfold termRefusal
  rw [hdict]
  simp [hform, hclass]

end Refusal

/-! ### The chain of versions -/

/-- Of two versions of a name, the later one in the table keeps the earlier one. -/
def Chained (versions : List VocabularyDocument) : Prop :=
  versions.Pairwise fun earlier later => earlier.name = later.name → Keeps earlier later

section Chain

variable {env : PublishEnv} {versions versions' : List VocabularyDocument}
  {doc latest : VocabularyDocument} {name : String}

theorem mem_of_latestRow (h : latestRow versions name = some latest) :
    latest ∈ versions ∧ latest.name = name := by
  obtain ⟨hmem, hname⟩ := List.mem_filter.1 (List.argmax_mem h)
  exact ⟨hmem, of_decide_eq_true hname⟩

theorem latestRow_eq_none : latestRow versions name = none ↔ ∀ row ∈ versions, row.name ≠ name := by
  unfold latestRow
  rw [List.argmax_eq_none, List.filter_eq_nil_iff]
  simp

theorem version_le_latestRow (h : latestRow versions name = some latest) {row : VocabularyDocument}
    (hrow : row ∈ versions) (hname : row.name = name) : row.version ≤ latest.version :=
  List.le_of_mem_argmax (List.mem_filter.2 ⟨hrow, decide_eq_true hname⟩) h

/-- Two versions of a name are one, or one keeps the other. -/
theorem Chained.cases (h : Chained versions) {a b : VocabularyDocument} (ha : a ∈ versions)
    (hb : b ∈ versions) (hname : a.name = b.name) : a = b ∨ Keeps a b ∨ Keeps b a := by
  induction h with
  | nil => cases ha
  | cons hhead _ ih =>
      rcases List.mem_cons.1 ha with rfl | ha'
      · rcases List.mem_cons.1 hb with rfl | hb'
        · exact Or.inl rfl
        · exact Or.inr (Or.inl (hhead b hb' hname))
      · rcases List.mem_cons.1 hb with rfl | hb'
        · exact Or.inr (Or.inr (hhead a ha' hname.symm))
        · exact ih ha' hb'

/-- **A later version of a document keeps every earlier one.** -/
theorem Chained.keeps (h : Chained versions) {a b : VocabularyDocument} (ha : a ∈ versions)
    (hb : b ∈ versions) (hname : a.name = b.name) (hversion : a.version < b.version) :
    Keeps a b := by
  rcases h.cases ha hb hname with rfl | hkeeps | hkeeps
  · exact absurd hversion (lt_irrefl _)
  · exact hkeeps
  · exact absurd hversion (not_lt.2 hkeeps.version.le)

/-- The latest version is one, or keeps what the row says. -/
theorem Chained.keeps_latest (h : Chained versions) (hlatest : latestRow versions name = some latest)
    {row : VocabularyDocument} (hrow : row ∈ versions) (hname : row.name = name) :
    row = latest ∨ Keeps row latest := by
  obtain ⟨hmem, hname'⟩ := mem_of_latestRow hlatest
  rcases h.cases hrow hmem (hname.trans hname'.symm) with heq | hkeeps | hkeeps
  · exact Or.inl heq
  · exact Or.inr hkeeps
  · exact absurd (version_le_latestRow hlatest hrow hname) (not_le.2 hkeeps.version)

/-- **An append keeps the chain.** -/
theorem Chained.materialise (h : Chained versions) (hrefusal : storeRefusal env versions doc = none) :
    Chained (versions ++ [doc]) := by
  refine List.pairwise_append.2 ⟨h, List.pairwise_singleton _ _, ?_⟩
  intro row hrow doc' hdoc' hname
  obtain rfl := List.mem_singleton.1 hdoc'
  unfold storeRefusal at hrefusal
  rcases hlatest : latestRow versions doc'.name with _ | latest
  · exact absurd hname (latestRow_eq_none.1 hlatest row hrow)
  · rw [hlatest, Option.bind_some] at hrefusal
    have hfollows := keeps_of_revisionRefusal hrefusal
    rcases h.keeps_latest hlatest hrow hname with rfl | hkeeps
    · exact hfollows
    · exact hkeeps.trans hfollows

/-- **A version that is published was there, or is appended.** -/
theorem publishVersion_spec {stored : VocabularyDocument}
    (h : publishVersion env versions doc = .ok (versions', stored)) :
    (versions' = versions ∧ stored ∈ versions) ∨
      (versions' = versions ++ [doc] ∧ stored = doc ∧ storeRefusal env versions doc = none) := by
  unfold publishVersion at h
  rcases hexisting : getDocument versions doc.name (some doc.version) with _ | existing
  · simp only [hexisting] at h
    rcases hrefusal : storeRefusal env versions doc with _ | refusal
    · simp only [hrefusal, materialiseDocument] at h
      split_ifs at h
      obtain ⟨rfl, rfl⟩ := Prod.mk.inj (Except.ok.inj h)
      exact Or.inr ⟨rfl, rfl, rfl⟩
    · simp only [hrefusal] at h
      cases h
  · simp only [hexisting] at h
    split_ifs at h
    obtain ⟨rfl, rfl⟩ := Prod.mk.inj (Except.ok.inj h)
    exact Or.inl ⟨rfl, List.mem_of_find?_eq_some hexisting⟩

/-- Publishing loses no version. -/
theorem subset_of_publishVersion {stored : VocabularyDocument}
    (h : publishVersion env versions doc = .ok (versions', stored)) : versions ⊆ versions' := by
  rcases publishVersion_spec h with ⟨rfl, -⟩ | ⟨rfl, -, -⟩
  · exact List.Subset.refl _
  · exact List.subset_append_left _ _

/-- **Publishing keeps the chain.** -/
theorem Chained.publish (hchained : Chained versions) {stored : VocabularyDocument}
    (h : publishVersion env versions doc = .ok (versions', stored)) : Chained versions' := by
  rcases publishVersion_spec h with ⟨rfl, -⟩ | ⟨rfl, -, hrefusal⟩
  · exact hchained
  · exact hchained.materialise hrefusal

/-- A version is appended when it is new and keeps the latest, and its extraction goes through. -/
theorem publishVersion_append (hnew : ∀ row ∈ versions, row.name = doc.name → row.version < doc.version)
    (hrefusal : storeRefusal env versions doc = none) (hextracts : env.extracts doc = true) :
    publishVersion env versions doc = .ok (versions ++ [doc], doc) := by
  have hnone : getDocument versions doc.name (some doc.version) = none := by
    refine List.find?_eq_none.2 ?_
    intro row hrow
    rw [decide_eq_true_eq]
    rintro ⟨hname, hversion⟩
    exact absurd (hnew row hrow hname) (not_lt.2 hversion.ge)
  unfold publishVersion materialiseDocument
  simp only [hnone, hrefusal, hextracts, if_true]
  rfl

end Chain

end Vocabulary

end ParticlesEngine
