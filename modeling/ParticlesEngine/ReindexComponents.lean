/-
**Which snapshots a component change could touch.**

An extractor is made of named components with digests, some of them on every extraction and some only
on the sources that reach them.  A snapshot keeps the record of those its extraction exercised.  After
a version bump the record is compared with the current table, and a snapshot that gives no reason is
left out of the reindex.

Main definitions:

* `ComponentTable`, `ComponentRecord` — the components of an extractor, and what one extraction used;
* `componentChangeReasons`, `selectChangedComponents` — the comparison, and the split of a scope;
* `ComponentTable.exercisedBy`, `recordOf` — what an extraction of a source exercises and records;
* `StaysExercised` — no component leaves the every-extraction set without the source reaching it.

Main results:

* `componentChangeReasons_eq_nil` — what a record that gives no reason says;
* `sameExtraction_iff` — **a snapshot that gives no reason would extract as it did exactly when no
  component left the every-extraction set unreached**, for one table and for a sequence of them.
-/

import Mathlib.Data.Finset.Sort
import Mathlib.Data.String.Basic
import ParticlesEngine.SortBy
import ParticlesEngine.Table

set_option relaxedAutoImplicit false
set_option autoImplicit false

open SortBy

namespace ParticlesEngine

/-! ### Tables and records -/

/-- Components by name, with the digest of each. -/
abbrev Digests := Table (Prod.fst : String × String → String)

/-- The names of some components. -/
def Digests.names (digests : Digests) : List String := digests.rows.map Prod.fst

/-- The digest of a component. -/
def Digests.digest? (digests : Digests) (name : String) : Option String :=
  (digests.get? name).map Prod.snd

/-- The components of an extractor. -/
structure ComponentTable where
  digests : Digests
  /-- the components on every extraction -/
  always : Finset String
  /-- an always name is one of the table -/
  listed : ∀ name ∈ always, name ∈ digests.names

/-- What the extraction of a snapshot exercised. -/
structure ComponentRecord where
  extractor : Option String
  exercised : Digests
  /-- the names that the extractor had then -/
  available : List String
  complete : Bool := true

/-- Each extractor's current table. -/
abbrev ComponentTables := Table (Prod.fst : String × ComponentTable → String)

section Comparison

-- `repr` of a text or of `None`
variable (repr : Option String → String)

/-- **`component_change_reasons`**: why a snapshot's extraction could differ under the current
components. -/
def componentChangeReasons (tables : ComponentTables) (record : Option ComponentRecord) :
    List String :=
  match record with
  | none => ["no component record"]
  | some record =>
      if record.complete = false then ["incomplete component record"]
      else
        match tables.get? (record.extractor.getD "") with
        | none => ["no component table for extractor " ++ repr record.extractor]
        | some (_, table) =>
            let exercised := record.exercised.names
            let changed := (sortBy Prod.fst record.exercised.rows).flatMap fun (name, digest) =>
              match table.digests.digest? name with
              | none => [name ++ ": no longer in the extractor's components"]
              | some current => if current ≠ digest then [name ++ ": changed"] else []
            let known := record.available ++ exercised
            changed ++
              ((table.always.filter (· ∉ exercised)).sort.map (· ++ ": now on every extraction")) ++
              (((table.digests.names.toFinset \ table.always).filter (· ∉ known)).sort.map
                (· ++ ": new since the record"))

/-- A scope split by `select_changed_components`. -/
structure ComponentSelection where
  /-- the pairs whose extraction could differ, with the reasons for each -/
  kept : Table (Prod.fst : (String × String) × List String → String × String)
  /-- the pairs whose every exercised component is unchanged -/
  skipped : List (String × String)

/-- **`select_changed_components`.**  A pair that is given twice has the same reasons both times. -/
def selectChangedComponents (pairs : List (String × String))
    (records : String → Option ComponentRecord) (tables : ComponentTables) : ComponentSelection :=
  pairs.foldl (fun selection pair =>
    let reasons := componentChangeReasons repr tables (records pair.2)
    if reasons ≠ [] then { selection with kept := selection.kept.insertIfAbsent (pair, reasons) }
    else { selection with skipped := selection.skipped ++ [pair] }) ⟨.empty, []⟩

end Comparison

/-! ### Extractions -/

/-- What an extraction exercises of a table: the components on every extraction, and those that the
source reaches. -/
def ComponentTable.exercisedBy (table : ComponentTable) (reaches : String → Bool) : Digests :=
  table.digests.filter fun component => component.1 ∈ table.always || reaches component.1

/-- The record of an extraction of a source under a table. -/
def recordOf (extractor : Option String) (table : ComponentTable) (reaches : String → Bool) :
    ComponentRecord where
  extractor := extractor
  exercised := table.exercisedBy reaches
  available := table.digests.names

/-- Two extractions exercise the same components with the same digests. -/
def SameExtraction (digests digests' : Digests) : Prop :=
  ∀ name, digests.digest? name = digests'.digest? name

/-- A component that left the every-extraction set is one that the source reaches. -/
def StaysExercised (recorded current : ComponentTable) (reaches : String → Bool) : Prop :=
  ∀ name ∈ recorded.always, name ∉ current.always → reaches name = true

section Laws

variable {repr : Option String → String} {tables : ComponentTables} {record : ComponentRecord}
  {table recorded current : ComponentTable} {reaches : String → Bool}

theorem Digests.mem_names {digests : Digests} {name : String} :
    name ∈ digests.names ↔ ∃ digest, digests.digest? name = some digest := by
  simp only [Digests.names, List.mem_map, Digests.digest?, Option.map_eq_some_iff]
  constructor
  · rintro ⟨component, hmem, rfl⟩
    exact ⟨component.2, component, Table.get?_key hmem, rfl⟩
  · rintro ⟨digest, component, hget, -⟩
    exact ⟨component, Table.mem_of_get? hget, Table.key_of_get? hget⟩

theorem Digests.mem_rows {digests : Digests} {name digest : String} :
    (name, digest) ∈ digests.rows ↔ digests.digest? name = some digest := by
  rw [Digests.digest?, Option.map_eq_some_iff]
  constructor
  · intro hmem
    exact ⟨(name, digest), Table.get?_key hmem, rfl⟩
  · rintro ⟨component, hget, rfl⟩
    obtain rfl := Table.key_of_get? hget
    exact Table.mem_of_get? hget

theorem map_sort_eq_nil {names : Finset String} {f : String → String} :
    names.sort.map f = [] ↔ names = ∅ := by
  rw [List.map_eq_nil_iff, ← List.length_eq_zero_iff, Finset.length_sort, Finset.card_eq_zero]

/-- **A record gives no reason** exactly when its components are unchanged and nothing that the table
puts on every extraction, or adds, is new to it. -/
theorem componentChangeReasons_eq_nil : componentChangeReasons repr tables (some record) = [] ↔
    record.complete = true ∧ ∃ table,
      tables.get? (record.extractor.getD "") = some (record.extractor.getD "", table) ∧
      (∀ name digest, record.exercised.digest? name = some digest →
        table.digests.digest? name = some digest) ∧
      (∀ name ∈ table.always, name ∈ record.exercised.names) ∧
      ∀ name ∈ table.digests.names, name ∉ table.always →
        name ∈ record.available ∨ name ∈ record.exercised.names := by
  have hchanged : ∀ table : ComponentTable,
      ((sortBy Prod.fst record.exercised.rows).flatMap fun (name, digest) =>
        match table.digests.digest? name with
        | none => [name ++ ": no longer in the extractor's components"]
        | some current => if current ≠ digest then [name ++ ": changed"] else []) = [] ↔
      ∀ name digest, record.exercised.digest? name = some digest →
        table.digests.digest? name = some digest := by
    intro table
    simp only [List.flatMap_eq_nil_iff, mem_sortBy, Prod.forall, Digests.mem_rows]
    refine forall₃_congr fun name digest _ => ?_
    cases table.digests.digest? name with
    | none => simp
    | some now => simp [eq_comm]
  unfold componentChangeReasons
  simp only
  split_ifs with hcomplete
  · simp [hcomplete]
  · rw [Bool.not_eq_false] at hcomplete
    cases htable : tables.get? (record.extractor.getD "") with
    | none => simp
    | some found =>
        obtain ⟨extractor, table⟩ := found
        obtain rfl : extractor = record.extractor.getD "" := Table.key_of_get? htable
        simp only [List.append_eq_nil_iff, hchanged, map_sort_eq_nil, Finset.filter_eq_empty_iff,
          not_not, Finset.mem_sdiff, List.mem_toFinset, List.mem_append, and_imp, and_assoc,
          hcomplete, true_and, Option.some.injEq, Prod.mk.injEq, exists_eq_left']

/-! ### What an extraction exercises -/

theorem digest?_exercisedBy (name : String) :
    (table.exercisedBy reaches).digest? name =
      if name ∈ table.always ∨ reaches name = true then table.digests.digest? name else none := by
  rw [Digests.digest?, ComponentTable.exercisedBy, Table.get?_filter_key table.digests
    (fun name => decide (name ∈ table.always) || reaches name)]
  simp only [Bool.or_eq_true, decide_eq_true_eq]
  split_ifs <;> rfl

theorem mem_names_exercisedBy {name : String} :
    name ∈ (table.exercisedBy reaches).names ↔
      (name ∈ table.always ∨ reaches name = true) ∧ name ∈ table.digests.names := by
  simp only [Digests.mem_names, digest?_exercisedBy]
  split_ifs with hex <;> simp [hex]

/-- **A snapshot that gives no reason would extract as it did exactly when no component that left the
every-extraction set is out of the source's reach.** -/
theorem sameExtraction_of_unchanged {extractor : Option String}
    (hcurrent : tables.get? (extractor.getD "") = some (extractor.getD "", current))
    (hempty : componentChangeReasons repr tables (some (recordOf extractor recorded reaches)) = []) :
    SameExtraction (current.exercisedBy reaches) (recordOf extractor recorded reaches).exercised ↔
      StaysExercised recorded current reaches := by
  obtain ⟨-, table, htable, hsame, halways, hknown⟩ := componentChangeReasons_eq_nil.1 hempty
  obtain rfl : table = current := (Prod.mk.inj (Option.some.inj (htable.symm.trans hcurrent))).2
  change ∀ name digest, (recorded.exercisedBy reaches).digest? name = some digest →
    table.digests.digest? name = some digest at hsame
  change ∀ name ∈ table.always, name ∈ (recorded.exercisedBy reaches).names at halways
  change ∀ name ∈ table.digests.names, name ∉ table.always →
    name ∈ recorded.digests.names ∨ name ∈ (recorded.exercisedBy reaches).names at hknown
  change (∀ name, (table.exercisedBy reaches).digest? name =
    (recorded.exercisedBy reaches).digest? name) ↔ _
  constructor
  · intro hall name halways' hnot
    by_contra hreaches
    -- the component was exercised, and is not exercised now
    obtain ⟨digest, hdigest⟩ := Digests.mem_names.1 (mem_names_exercisedBy.2
      ⟨Or.inl halways', recorded.listed name halways'⟩ : name ∈ (recorded.exercisedBy reaches).names)
    have hnow := hall name
    rw [hdigest, digest?_exercisedBy, if_neg (by tauto)] at hnow
    cases hnow
  · intro hstays name
    cases hdigest : (recorded.exercisedBy reaches).digest? name with
    | some digest =>
        rw [digest?_exercisedBy, if_pos, hsame name digest hdigest]
        by_contra hneither
        rw [not_or] at hneither
        have hmem := mem_names_exercisedBy.1 (Digests.mem_names.2 ⟨digest, hdigest⟩)
        rcases hmem.1 with halways' | hreaches
        · exact hneither.2 (hstays name halways' hneither.1)
        · exact hneither.2 hreaches
    | none =>
        have hnot : name ∉ (recorded.exercisedBy reaches).names := by
          intro hmem
          obtain ⟨digest, hd⟩ := Digests.mem_names.1 hmem
          rw [hdigest] at hd
          cases hd
        rw [digest?_exercisedBy, ite_eq_right_iff]
        rintro (halways' | hreaches)
        · exact absurd (halways name halways') hnot
        · by_contra hne
          obtain ⟨digest, hd⟩ := Option.ne_none_iff_exists'.1 hne
          have hlisted := Digests.mem_names.2 ⟨digest, hd⟩
          by_cases halways' : name ∈ table.always
          · exact hnot (halways name halways')
          · rcases hknown name hlisted halways' with hold | hold
            · exact hnot (mem_names_exercisedBy.2 ⟨Or.inr hreaches, hold⟩)
            · exact hnot hold

/-! ### A scope -/

/-- **A pair is skipped when its record gives no reason.** -/
theorem mem_skipped {records : String → Option ComponentRecord} {pair : String × String}
    (pairs : List (String × String)) :
    pair ∈ (selectChangedComponents repr pairs records tables).skipped ↔
      pair ∈ pairs ∧ componentChangeReasons repr tables (records pair.2) = [] := by
  unfold selectChangedComponents
  induction pairs using List.reverseRecOn with
  | nil => simp
  | append_singleton pairs last ih =>
      rw [List.foldl_append, List.foldl_cons, List.foldl_nil, List.mem_append, List.mem_singleton,
        or_and_right]
      simp only
      split_ifs with hreasons
      · rw [ih]
        refine (or_iff_left ?_).symm
        rintro ⟨rfl, hnone⟩
        exact hreasons hnone
      · rw [List.mem_append, ih, List.mem_singleton]
        refine or_congr_right ⟨fun heq => ⟨heq, ?_⟩, And.left⟩
        rw [heq]
        exact not_not.1 hreasons

/-- **A snapshot that the comparison passes over would extract as it did exactly when no component
that left the every-extraction set is out of its source's reach**, under one current table and under
each of a sequence of them. -/
theorem sameExtraction_iff (repr : Option String → String) (extractor : Option String)
    (recorded : ComponentTable) (reaches : String → Bool) :
    (∀ (tables : ComponentTables) (current : ComponentTable),
      tables.get? (extractor.getD "") = some (extractor.getD "", current) →
      componentChangeReasons repr tables (some (recordOf extractor recorded reaches)) = [] →
      (SameExtraction (current.exercisedBy reaches)
          (recordOf extractor recorded reaches).exercised ↔
        StaysExercised recorded current reaches)) ∧
    ∀ (versions : List (List (String × String) × ComponentTables))
      (records : String → Option ComponentRecord) (pair : String × String),
      records pair.2 = some (recordOf extractor recorded reaches) →
      (∀ version ∈ versions,
        pair ∈ (selectChangedComponents repr version.1 records version.2).skipped) →
      ((∀ version ∈ versions, ∀ current,
          version.2.get? (extractor.getD "") = some (extractor.getD "", current) →
          SameExtraction (current.exercisedBy reaches)
            (recordOf extractor recorded reaches).exercised) ↔
        ∀ version ∈ versions, ∀ current,
          version.2.get? (extractor.getD "") = some (extractor.getD "", current) →
          StaysExercised recorded current reaches) := by
  refine ⟨fun tables current hcurrent hempty => sameExtraction_of_unchanged hcurrent hempty,
    fun versions records pair hrecord hskipped => ?_⟩
  refine forall₂_congr fun version hversion => forall₂_congr fun current hcurrent => ?_
  have hempty := ((mem_skipped version.1).1 (hskipped version hversion)).2
  rw [hrecord] at hempty
  exact sameExtraction_of_unchanged hcurrent hempty

end Laws

/-- A rule on every extraction, and the same rule on the sources that reach it. -/
def ruleTable (always : Bool) : ComponentTable where
  digests := ⟨[("prompt.rules", "r1"), ("prompt.tool_turns", "t1")], by decide⟩
  always := if always then {"prompt.rules", "prompt.tool_turns"} else {"prompt.rules"}
  listed := by cases always <;> decide

/-- The current table of the one extractor. -/
def ruleTables (always : Bool) : ComponentTables :=
  ⟨[("general-extractor", ruleTable always)], by simp⟩

theorem withdrawn_rule_gives_no_reason :
    componentChangeReasons (·.getD "None") (ruleTables false)
        (some (recordOf (some "general-extractor") (ruleTable true) fun _ => false)) = [] ∧
      ¬ SameExtraction ((ruleTable false).exercisedBy fun _ => false)
        (recordOf (some "general-extractor") (ruleTable true) fun _ => false).exercised :=
  ⟨by decide +kernel, fun hsame => absurd (hsame "prompt.tool_turns") (by decide +kernel)⟩

theorem sameExtraction_iff_reached_rule :
    SameExtraction ((ruleTable false).exercisedBy fun _ => true)
      (recordOf (some "general-extractor") (ruleTable true) fun _ => true).exercised :=
  ((sameExtraction_iff (·.getD "None") (some "general-extractor") (ruleTable true) fun _ => true).1
    (ruleTables false) (ruleTable false) rfl (by decide +kernel)).2 fun _ _ _ => rfl

end ParticlesEngine
