/-
**A subject answers to its own name.**

A name is looked up among the canonical names first and among the aliases after.  The canonical names
are folded by the database and the name by Python; SQLite folds the ASCII letters only, so a name with
another capital letter is not found, and a second subject is made for it.

Main definitions:

* `sqlLower` — the folding of the database;
* `findByName`, `lookupSubject` — the lookup of a name, and of what an operator types;
* `resolveLocal` — the resolution of a name that no authority knows;
* `AnswersToName` — a subject is found by its name, and no second one is made;
* `NameFolds` — when the foldings agree far enough for it.

Main results:

* `lookupSubject_eq` — the answer of a lookup is its only match;
* `answersToName_iff` — **a subject answers to its name exactly when the foldings agree**;
* `elan_minted_twice` — a name that begins with an accent is resolved to two subjects.
-/

import ParticlesEngine.AliasIndex

set_option relaxedAutoImplicit false
set_option autoImplicit false

open Runs SortBy

namespace ParticlesEngine

/-- SQLite's `lower()`: the ASCII letters are folded, and no other. -/
def sqlLower (text : String) : String := String.ofList (text.toList.map Char.toLower)

/-- What `str.lower` keeps of a text that was folded before. -/
structure LowerLaws (lower : String → String) : Prop where
  lower_lower : ∀ text, lower (lower text) = lower text
  lower_sqlLower : ∀ text, lower (sqlLower text) = lower text

/-- What the lookups take from the language, besides the writes. -/
structure NameEnv extends SubjectEnv where
  /-- `str.strip` -/
  strip : String → String
  /-- Python's `repr` of a string -/
  repr : String → String

section Lookups

variable (env : NameEnv) (store : Store)

/-- The subjects whose canonical name the database folds to the folded name, earliest first. -/
def rowsByCanonical (name : String) : List Subject :=
  sortBy subjectOrder <| store.subjects.rows.filter fun subject =>
    sqlLower subject.canonicalName = env.lower name

/-- **`find_by_name`.** -/
def findByName (name : String) (skipAliasesOf : List String) : Option Subject :=
  match rowsByCanonical env store name with
  | subject :: _ => some subject
  | [] => findByAlias env.toSubjectEnv store name skipAliasesOf

/-- Candidates a refused ambiguous reference names before eliding the rest. -/
def AMBIGUOUS_SHOWN : ℕ := 5

/-- The first subjects whose id begins with a reference. -/
def rowsByPrefix (ref : String) : List Subject :=
  (sortBy Subject.id (store.subjects.rows.filter (env.hasPrefix ref ·.id))).take
    (AMBIGUOUS_SHOWN + 1)

/-- The subjects that a reference names, and how; aliases answer when no canonical name does. -/
def nameRows (ref : String) : List (Subject × String) :=
  match rowsByCanonical env store ref with
  | [] => (rowsWithAlias env.toSubjectEnv store ref).map (·, "alias")
  | rows => rows.map (·, "name")

/-- A dict's `setdefault`, by the id of the subject. -/
def setDefault (pool : List (Subject × String)) (item : Subject × String) :
    List (Subject × String) :=
  if item.1.id ∈ pool.map (·.1.id) then pool else pool ++ [item]

/-- The subjects that a reference matches by a prefix or by name, each with how it matched. -/
def lookupPool (ref : String) : List (Subject × String) :=
  (nameRows env store ref).foldl setDefault ((rowsByPrefix env store ref).map (·, "ID prefix"))

/-- What a refused reference is refused with. -/
def ambiguousText (ref : String) (pool : List (Subject × String)) : String :=
  let shown := (pool.take AMBIGUOUS_SHOWN).map fun item =>
    (item.1.id.take 8).toString ++ "… " ++ item.1.canonicalName ++ " (by " ++ item.2 ++ ")"
  "Subject " ++ env.repr ref ++ " is ambiguous: it matches " ++ "; ".intercalate shown ++
    (if pool.length > AMBIGUOUS_SHOWN then ", and more" else "") ++
    ". Pass more characters of the ID you mean."

/-- **`lookup_subject`.** -/
def lookupSubject (typed : String) : Except String (Option Subject) :=
  let ref := env.strip typed
  if ref = "" then .ok none
  else match store.subjects.get? ref with
    | some subject => .ok (some subject)
    | none =>
        match lookupPool env store ref with
        | [] => .ok none
        | [item] => .ok (some item.1)
        | pool => .error (ambiguousText env ref pool)

/-- The subjects that a reference matches. -/
def lookupMatches (typed : String) : List Subject :=
  let ref := env.strip typed
  if ref = "" then []
  else match store.subjects.get? ref with
    | some subject => [subject]
    | none => (lookupPool env store ref).map Prod.fst

/-- `_resolve` of a name that is not cached and that no authority knows: the subject that has it, or a
new one. -/
def resolveLocal (name id : String) (createdAt : Instant) (assertedBy : String) :
    Except StoreError (Store × Subject) :=
  match findByName env store name [] with
  | some existing => .ok (store, existing)
  | none => do
      let subject : Subject := { id, canonicalName := name, createdAt, assertedBy }
      let store ← insertSubject env.toSubjectEnv store subject
      return (store, subject)

end Lookups

/-! ### What each tier finds -/

/-- The earliest-created of the subjects with a property. -/
structure Earliest (store : Store) (Holds : Subject → Prop) (first : Subject) : Prop where
  mem : first ∈ store.subjects.rows
  holds : Holds first
  le : ∀ other ∈ store.subjects.rows, Holds other → subjectOrder first ≤ subjectOrder other

section Tiers

variable (env : NameEnv) (store : Store)

/-- The name of a subject is a text, up to the folding of Python. -/
def NamedAs (text : String) (subject : Subject) : Prop :=
  env.lower subject.canonicalName = env.lower text

/-- The database folds the name of a subject as Python folds a text. -/
def FoldsTo (text : String) (subject : Subject) : Prop :=
  sqlLower subject.canonicalName = env.lower text

/-- A subject has a text among its aliases, up to folding. -/
def Aliased (text : String) (subject : Subject) : Prop :=
  ∃ spelling ∈ subject.aliases, env.lower spelling = env.lower text

/-- No canonical name answers a text, so the aliases do. -/
def AliasesAnswer (text : String) : Prop := ∀ other ∈ store.subjects.rows, ¬ FoldsTo env text other

variable {env store} {text : String} {first subject : Subject}

theorem subjectOrder_inj : ∀ a ∈ store.subjects.rows, ∀ b ∈ store.subjects.rows,
    subjectOrder a = subjectOrder b → a = b := by
  intro a ha b hb hsame
  exact Table.eq_of_key_eq ha hb (Prod.mk.inj (toLex.injective hsame)).2

theorem head?_rowsByCanonical :
    (rowsByCanonical env store text).head? = some first ↔
      Earliest store (FoldsTo env text) first := by
  rw [rowsByCanonical, head?_sortBy_filter _ subjectOrder_inj]
  simp only [decide_eq_true_eq]
  exact ⟨fun ⟨hmem, hfolds, hle⟩ => ⟨hmem, hfolds, hle⟩, fun h => ⟨h.mem, h.holds, h.le⟩⟩

theorem rowsByCanonical_eq_nil : rowsByCanonical env store text = [] ↔ AliasesAnswer env store text := by
  rw [List.eq_nil_iff_forall_not_mem]
  simp only [rowsByCanonical, mem_sortBy, List.mem_filter, decide_eq_true_eq, not_and]
  exact Iff.rfl

theorem mem_rowsWithAlias (h : AliasIndexed env.toSubjectEnv store) :
    subject ∈ rowsWithAlias env.toSubjectEnv store text ↔
      subject ∈ store.subjects.rows ∧ Aliased env text subject := by
  rw [h.rowsWithAlias_eq, rowsByScan, mem_sortBy, List.mem_filter]
  simp only [List.any_eq_true, decide_eq_true_eq]
  exact Iff.rfl

theorem head?_rowsWithAlias (h : AliasIndexed env.toSubjectEnv store) :
    (rowsWithAlias env.toSubjectEnv store text).head? = some first ↔
      Earliest store (Aliased env text) first := by
  rw [h.rowsWithAlias_eq, rowsByScan, head?_sortBy_filter _ subjectOrder_inj]
  simp only [List.any_eq_true, decide_eq_true_eq]
  exact ⟨fun ⟨hmem, haliased, hle⟩ => ⟨hmem, haliased, hle⟩, fun h => ⟨h.mem, h.holds, h.le⟩⟩

/-- With no name to pass over, the first subject with the alias is found. -/
theorem findByAlias_nil (name : String) :
    findByAlias env.toSubjectEnv store name [] =
      (rowsWithAlias env.toSubjectEnv store name).head? := by
  rw [findByAlias]
  cases rowsWithAlias env.toSubjectEnv store name with
  | nil => rfl
  | cons subject rest => simp

/-- **What `find_by_name` finds**: the earliest whose name the database folds to the folded name, else
the earliest with the alias. -/
theorem findByName_eq_some (h : AliasIndexed env.toSubjectEnv store) :
    findByName env store text [] = some first ↔
      Earliest store (FoldsTo env text) first ∨
        (AliasesAnswer env store text ∧ Earliest store (Aliased env text) first) := by
  rw [← head?_rowsByCanonical, ← rowsByCanonical_eq_nil, ← head?_rowsWithAlias h, findByName]
  cases rowsByCanonical env store text with
  | nil => simp [findByAlias_nil]
  | cons subject rest => simp

/-- A reference reaches a subject by its name. -/
def NameReaches (env : NameEnv) (store : Store) (text : String) (subject : Subject) : Prop :=
  FoldsTo env text subject ∨ (AliasesAnswer env store text ∧ Aliased env text subject)

theorem mem_nameRows (h : AliasIndexed env.toSubjectEnv store)
    (hsubject : subject ∈ store.subjects.rows) :
    subject ∈ (nameRows env store text).map Prod.fst ↔ NameReaches env store text subject := by
  have hcanonical : subject ∈ rowsByCanonical env store text ↔ FoldsTo env text subject := by
    simp only [rowsByCanonical, mem_sortBy, List.mem_filter, hsubject, true_and, decide_eq_true_eq]
    exact Iff.rfl
  have haliased : subject ∈ rowsWithAlias env.toSubjectEnv store text ↔ _ := mem_rowsWithAlias h
  rw [NameReaches, ← rowsByCanonical_eq_nil, ← hcanonical, nameRows]
  cases rowsByCanonical env store text with
  | nil => simpa [Function.comp_def, hsubject] using haliased
  | cons found rest => simp [Function.comp_def]

theorem mem_rows_of_mem_nameRows (h : AliasIndexed env.toSubjectEnv store) :
    ∀ item ∈ nameRows env store text, item.1 ∈ store.subjects.rows := by
  intro item hitem
  rw [nameRows] at hitem
  cases hrows : rowsByCanonical env store text with
  | nil =>
      rw [hrows] at hitem
      obtain ⟨found, hfound, rfl⟩ := List.mem_map.1 hitem
      exact ((mem_rowsWithAlias h).1 hfound).1
  | cons first rest =>
      have hmem : ∀ found ∈ first :: rest, found ∈ store.subjects.rows := by
        rw [← hrows]
        exact fun found hfound => (List.mem_filter.1 (mem_sortBy.1 hfound)).1
      rw [hrows] at hitem
      obtain ⟨found, hfound, rfl⟩ := List.mem_map.1 hitem
      exact hmem found hfound

theorem mem_foldl_setDefault (items : List (Subject × String))
    (hitems : ∀ item ∈ items, item.1 ∈ store.subjects.rows) :
    ∀ pool : List (Subject × String), (∀ item ∈ pool, item.1 ∈ store.subjects.rows) →
      (subject ∈ (items.foldl setDefault pool).map Prod.fst ↔
        subject ∈ pool.map Prod.fst ∨ subject ∈ items.map Prod.fst) := by
  induction items with
  | nil => simp
  | cons item items ih =>
      intro pool hpool
      have hitem := hitems item List.mem_cons_self
      have hrest := fun other hother => hitems other (List.mem_cons_of_mem _ hother)
      rw [List.foldl_cons, setDefault]
      split_ifs with hin
      · -- the subject of the item is in the pool, since a table has one row for an id
        obtain ⟨other, hother, hid⟩ := List.mem_map.1 hin
        have hsame : other.1 = item.1 := Table.eq_of_key_eq (hpool other hother) hitem hid
        have hpooled : item.1 ∈ pool.map Prod.fst := List.mem_map.2 ⟨other, hother, hsame⟩
        rw [ih hrest pool hpool, List.map_cons, List.mem_cons]
        constructor
        · rintro (h | h)
          · exact .inl h
          · exact .inr (.inr h)
        · rintro (h | rfl | h)
          · exact .inl h
          · exact .inl hpooled
          · exact .inr h
      · have hpool' : ∀ other ∈ pool ++ [item], other.1 ∈ store.subjects.rows := by
          intro other hother
          rcases List.mem_append.1 hother with h | h
          · exact hpool other h
          · exact List.mem_singleton.1 h ▸ hitem
        rw [ih hrest _ hpool', List.map_append, List.mem_append, or_assoc]
        simp

/-- **The answer of a lookup is its only match**; several are refused. -/
theorem lookupSubject_eq (typed : String) :
    lookupSubject env store typed =
      match lookupMatches env store typed with
      | [] => .ok none
      | [subject] => .ok (some subject)
      | _ => .error (ambiguousText env (env.strip typed)
          (lookupPool env store (env.strip typed))) := by
  unfold lookupSubject lookupMatches
  by_cases hempty : env.strip typed = ""
  · rw [if_pos hempty, if_pos hempty]
  · rw [if_neg hempty, if_neg hempty]
    cases store.subjects.get? (env.strip typed) with
    | some subject => rfl
    | none =>
        cases lookupPool env store (env.strip typed) with
        | nil => rfl
        | cons item rest =>
            cases rest with
            | nil => rfl
            | cons other rest => rfl

theorem mem_of_mem_rowsByPrefix {ref : String} (h : subject ∈ rowsByPrefix env store ref) :
    subject ∈ store.subjects.rows :=
  (List.mem_filter.1 (mem_sortBy.1 (List.mem_of_mem_take h))).1

/-- **What a lookup matches**: the id itself, else the prefix and the name. -/
theorem mem_lookupMatches (h : AliasIndexed env.toSubjectEnv store)
    (hsubject : subject ∈ store.subjects.rows) (typed : String) :
    subject ∈ lookupMatches env store typed ↔
      env.strip typed ≠ "" ∧ (env.strip typed = subject.id ∨
        ((∀ other ∈ store.subjects.rows, other.id ≠ env.strip typed) ∧
          (subject ∈ rowsByPrefix env store (env.strip typed) ∨
            NameReaches env store (env.strip typed) subject))) := by
  unfold lookupMatches
  generalize env.strip typed = ref
  by_cases hempty : ref = ""
  · simp [hempty]
  · rw [if_neg hempty]
    simp only [ne_eq, hempty, not_false_eq_true, true_and]
    cases hget : store.subjects.get? ref with
    | some found =>
        obtain ⟨hfound, hid⟩ := Table.get?_eq_some.1 hget
        have hother : ¬ ∀ other ∈ store.subjects.rows, other.id ≠ ref := fun hall =>
          hall found hfound hid
        simp only [List.mem_singleton, hother, false_and, or_false]
        constructor
        · rintro rfl
          exact hid.symm
        · intro hsame
          exact Table.eq_of_key_eq hsubject hfound (hsame.symm.trans hid.symm)
    | none =>
        have hnone := Table.get?_eq_none.1 hget
        have hid : ref ≠ subject.id := fun hsame => hnone subject hsubject hsame.symm
        have hprefix : ∀ item ∈ (rowsByPrefix env store ref).map (·, "ID prefix"),
            item.1 ∈ store.subjects.rows := by
          intro item hitem
          obtain ⟨found, hfound, rfl⟩ := List.mem_map.1 hitem
          exact mem_of_mem_rowsByPrefix hfound
        simp only [hid, false_or]
        rw [lookupPool, mem_foldl_setDefault _ (mem_rows_of_mem_nameRows h) _ hprefix,
          mem_nameRows h hsubject, List.map_map]
        have hmap : (Prod.fst ∘ fun subject : Subject => (subject, "ID prefix")) = id := rfl
        rw [hmap, List.map_id]
        exact ⟨fun hin => ⟨hnone, hin⟩, fun hin => hin.2⟩

end Tiers

/-! ### Answering to a name -/

/-- A subject answers to its name: a lookup of the name finds the earliest-created subject that has it,
the subject is among the matches of the name, and its resolution makes no second subject. -/
structure AnswersToName (env : NameEnv) (store : Store) (subject : Subject) : Prop where
  found : ∃ first, findByName env store subject.canonicalName [] = some first ∧
    Earliest store (NamedAs env subject.canonicalName) first
  matched : subject ∈ lookupMatches env store subject.canonicalName
  resolved : ∀ id createdAt assertedBy, ∃ first,
    resolveLocal env store subject.canonicalName id createdAt assertedBy = .ok (store, first)

/-- When the foldings agree far enough for a subject to answer to its name.  The database folds the name
of the earliest subject that has it as Python folds the name, or no name so and that subject is the
earliest with the alias; and what the name strips to is neither empty nor the id of another subject, and
reaches the subject itself. -/
structure NameFolds (env : NameEnv) (store : Store) (subject : Subject) : Prop where
  first : ∃ first, Earliest store (NamedAs env subject.canonicalName) first ∧
    (FoldsTo env subject.canonicalName first ∨
      (AliasesAnswer env store subject.canonicalName ∧
        Earliest store (Aliased env subject.canonicalName) first))
  nonempty : env.strip subject.canonicalName ≠ ""
  reached : env.strip subject.canonicalName = subject.id ∨
    ((∀ other ∈ store.subjects.rows, other.id ≠ env.strip subject.canonicalName) ∧
      (subject ∈ rowsByPrefix env store (env.strip subject.canonicalName) ∨
        NameReaches env store (env.strip subject.canonicalName) subject))

/-- A name that the database folds as Python folds a text is that text, up to the folding of Python. -/
theorem namedAs_of_foldsTo {env : NameEnv} (hlower : LowerLaws env.lower) {text : String}
    {subject : Subject} (h : FoldsTo env text subject) : NamedAs env text subject := by
  calc env.lower subject.canonicalName
      = env.lower (sqlLower subject.canonicalName) := (hlower.lower_sqlLower _).symm
    _ = env.lower (env.lower text) := by rw [h]
    _ = env.lower text := hlower.lower_lower text

/-- **A subject answers to its name exactly when the foldings agree.**  In every store that a run of the
repository reaches, the earliest subject with the name is found, the subject is matched and no second one
is made, if and only if the database folds the names far enough as Python does. -/
theorem answersToName_iff (env : NameEnv) (hlower : LowerLaws env.lower)
    (contentHash : String → String) (modelId : String) {calls : List SubjectCall} {store : Store}
    (hrun : run (applySubjectCall env.toSubjectEnv contentHash modelId) .empty calls = some store)
    {subject : Subject} (hsubject : subject ∈ store.subjects.rows) :
    AnswersToName env store subject ↔ NameFolds env store subject := by
  have h : AliasIndexed env.toSubjectEnv store := (AliasIndexed.empty _).run hrun
  have hmatched := mem_lookupMatches h hsubject subject.canonicalName
  constructor
  · rintro ⟨⟨first, hfind, hfirst⟩, hmem, -⟩
    obtain ⟨hnonempty, hreached⟩ := hmatched.1 hmem
    refine ⟨⟨first, hfirst, ?_⟩, hnonempty, hreached⟩
    rcases (findByName_eq_some h).1 hfind with hfolds | haliased
    · exact .inl hfolds.holds
    · exact .inr haliased
  · rintro ⟨⟨first, hfirst, hreach⟩, hnonempty, hreached⟩
    have hfind : findByName env store subject.canonicalName [] = some first := by
      refine (findByName_eq_some h).2 (hreach.imp (fun hfolds => ?_) id)
      exact ⟨hfirst.mem, hfolds, fun other hother hother' =>
        hfirst.le other hother (namedAs_of_foldsTo hlower hother')⟩
    refine ⟨⟨first, hfind, hfirst⟩, hmatched.2 ⟨hnonempty, hreached⟩, ?_⟩
    intro id createdAt assertedBy
    exact ⟨first, by rw [resolveLocal, hfind]⟩

/-- Among the subjects with a property one is the earliest. -/
theorem exists_earliest {store : Store} (Holds : Subject → Prop) [DecidablePred Holds]
    {subject : Subject} (hsubject : subject ∈ store.subjects.rows) (hholds : Holds subject) :
    ∃ first, Earliest store Holds first := by
  have hne : sortBy subjectOrder (store.subjects.rows.filter fun subject => Holds subject) ≠ [] :=
    List.ne_nil_of_mem (mem_sortBy.2 (List.mem_filter.2 ⟨hsubject, decide_eq_true hholds⟩))
  obtain ⟨hmem, hfirstHolds, hle⟩ :=
    (head?_sortBy_filter _ subjectOrder_inj).1 (List.head?_eq_some_head hne)
  exact ⟨_, hmem, of_decide_eq_true hfirstHolds, fun other hother hother' =>
    hle other hother (decide_eq_true hother')⟩

/-- A lower-casing that folds the ASCII letters and one letter with an accent. -/
def elanLower (text : String) : String :=
  String.ofList (text.toList.map fun c => if c.toLower = 'É' then 'é' else c.toLower)

/-- A process whose texts have no other capital letter, and no blank at their ends. -/
def elanEnv : NameEnv where
  lower := elanLower
  hasPrefix typed id := typed.isPrefixOf id
  contains := asciiContains
  ARTIFACT_REF_NAMESPACE := "artifact"
  artifactRefProject _ := none
  strip := id
  repr := id

theorem toLower_toLower (c : Char) : c.toLower.toLower = c.toLower := by
  unfold Char.toLower
  grind

theorem elanLower_laws : LowerLaws elanLower := by
  constructor
  · intro text
    simp only [elanLower, String.toList_ofList, List.map_map]
    congr 1
    refine List.map_congr_left fun c _ => ?_
    by_cases hc : c.toLower = 'É'
    · simp only [Function.comp_apply, hc, if_true]
      decide
    · simp only [Function.comp_apply, hc, if_false, toLower_toLower]
  · intro text
    simp only [elanLower, sqlLower, String.toList_ofList, List.map_map]
    congr 1
    refine List.map_congr_left fun c _ => ?_
    simp only [Function.comp_apply, toLower_toLower]

/-- Two subjects whose names differ in the case of ASCII letters only. -/
def agencies : List SubjectCall :=
  [.insertSubject { id := "s1", canonicalName := "NASA" },
    .insertSubject { id := "s2", canonicalName := "nasa", createdAt := 1 }]

def agencyStore : Store :=
  (run (applySubjectCall elanEnv.toSubjectEnv id "model") .empty agencies).getD {}

theorem answersToName_iff_agencies :
    AnswersToName elanEnv agencyStore { id := "s2", canonicalName := "nasa", createdAt := 1 } := by
  have hrun : run (applySubjectCall elanEnv.toSubjectEnv id "model") .empty agencies =
      some agencyStore := by decide +kernel
  have hfirst : Earliest agencyStore (NamedAs elanEnv "nasa")
      { id := "s1", canonicalName := "NASA" } :=
    ⟨by decide +kernel, by unfold NamedAs; decide +kernel, by unfold NamedAs; decide +kernel⟩
  refine (answersToName_iff elanEnv elanLower_laws id "model" hrun (by decide +kernel)).2 ⟨?_, ?_, ?_⟩
  · exact ⟨_, hfirst, .inl (by unfold FoldsTo; decide +kernel)⟩
  · decide
  · exact .inr ⟨by decide +kernel, .inr (.inl (by unfold FoldsTo; decide +kernel))⟩

/-- **A name that begins with an accent is resolved to two subjects**: the store made by the first
resolution does not find the name, and the second resolution makes the subject again. -/
theorem elan_minted_twice :
    ∃ store store' first second,
      resolveLocal elanEnv .empty "Élan" "s1" 0 "" = .ok (store, first) ∧
      resolveLocal elanEnv store "Élan" "s2" 1 "" = .ok (store', second) ∧
      store'.subjects.rows = [first, second] ∧
      run (applySubjectCall elanEnv.toSubjectEnv id "model") .empty [.insertSubject first] =
        some store ∧
      first ∈ store.subjects.rows ∧ ¬ AnswersToName elanEnv store first := by
  let elan (id : String) (createdAt : Instant) : Subject :=
    { id, canonicalName := "Élan", createdAt }
  let stored (calls : List SubjectCall) : Store :=
    (run (applySubjectCall elanEnv.toSubjectEnv id "model") .empty calls).getD {}
  refine ⟨stored [.insertSubject (elan "s1" 0)],
    stored [.insertSubject (elan "s1" 0), .insertSubject (elan "s2" 1)], elan "s1" 0, elan "s2" 1,
    by decide +kernel, by decide +kernel, by decide +kernel, by decide +kernel, by decide +kernel, ?_⟩
  rintro ⟨⟨first, hfind, -⟩, -, -⟩
  have hnone : findByName elanEnv (stored [.insertSubject (elan "s1" 0)]) "Élan" [] = none := by
    decide +kernel
  exact nomatch hnone.symm.trans hfind

end ParticlesEngine
