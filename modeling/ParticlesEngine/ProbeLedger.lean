/-
**The probe-verdict ledger.**

`store/probe_verdict_store.py` keeps every pairwise probe answer as a row of an append-only table.
A probe asked again that gives the same answer adds nothing; one that gives a different answer adds
a row, and the newest row is the one read.

Main definitions:

* `ProbeVerdictRow`, `ProbeLedger` — the rows and their ids, each greater than those before it;
* `lookupVerdicts`, `lookupStampedVerdicts`, `newestRungVerdicts` — the reads;
* `recordVerdicts`, `recordStampedVerdicts`, `recordRungVerdicts` — the writers, one row for each
  verdict that differs from the newest one of its key;
* `VerdictCall` — a call of one of them, `recordAll` a sequence of calls.

Main results:

* `newest_appendChanged` — **after a writer every key it was given has the verdict it was given**;
* `VerdictCall.newest_run` and the like — what one call does to a read;
* `remembered_recordAll` — **a read returns the last verdict recorded for its key**, and a call
  repeated at once adds no row.
-/

import Mathlib.Data.List.AList
import ParticlesEngine.NewestRows

set_option relaxedAutoImplicit false
set_option autoImplicit false

namespace ParticlesEngine

/-! ### The table -/

/-- The content hashes of the two claims a probe compares. -/
abbrev VerdictKey := String × String

/-- The stamp of a ladder rung. -/
structure RungStamp where
  name : String
  version : String
  deriving DecidableEq

/-- `particles.core.probe_verdict`, `particles.core.rung_ladder` and `particles.llm.usage`. -/
structure ProbeCore (Kind : Type) where
  /-- the member's value -/
  value : Kind → String
  /-- members of an enumeration have different values -/
  value_injective : Function.Injective value
  /-- the kind a rung's own rows sit under -/
  rungKind : String → String
  /-- rung rows sit under a kind of their own -/
  rungKind_ne : ∀ name kind, rungKind name ≠ value kind
  /-- `str(stamp)`, the text `name@version` -/
  stampText : RungStamp → String
  NO_SAMPLING : String

/-- The ladder verdicts a row's `verdict` reads as true. -/
def POSITIVE_VERDICTS : List String := ["yes", "changes", "fixed", "same", "entailed"]

/-- One recorded answer to one pairwise probe, apart from its id. -/
structure ProbeVerdictRow where
  probeKind : String
  promptHash : String
  hashA : String
  hashB : String
  verdict : Bool
  answer : Option String := none
  model : String
  recordedAt : ℤ
  rung : Option String := none
  rungVerdict : Option String := none
  shadow : Bool := false
  temperature : Option String := none
  deriving DecidableEq

/-- The content hashes a row is keyed on. -/
def ProbeVerdictRow.key (row : ProbeVerdictRow) : VerdictKey := (row.hashA, row.hashB)

/-- The table with its autoincremented ids. -/
structure ProbeLedger where
  rows : List (ℕ × ProbeVerdictRow)
  ordered : rows.Pairwise fun a b => a.1 < b.1

namespace ProbeLedger

/-- The rows from old to new. -/
def verdicts (ledger : ProbeLedger) : List ProbeVerdictRow := ledger.rows.map Prod.snd

/-- No probe has been recorded. -/
def empty : ProbeLedger := ⟨[], List.Pairwise.nil⟩

@[simp] theorem verdicts_empty : empty.verdicts = [] := rfl

/-- The id the next row gets. -/
def nextId (rows : List (ℕ × ProbeVerdictRow)) : ℕ := (rows.getLast?.elim 0 Prod.fst) + 1

theorem lt_nextId {rows : List (ℕ × ProbeVerdictRow)} (hordered : rows.Pairwise fun a b => a.1 < b.1) :
    ∀ row ∈ rows, row.1 < nextId rows := by
  intro row hrow
  rcases List.eq_nil_or_concat' rows with rfl | ⟨front, last, rfl⟩
  · cases hrow
  · have hlast : row.1 ≤ last.1 := by
      rcases List.mem_append.1 hrow with hfront | hlast
      · exact ((List.pairwise_append.1 hordered).2.2 row hfront last (by simp)).le
      · rw [List.mem_singleton.1 hlast]
    simp only [nextId, List.getLast?_append, List.getLast?_singleton, Option.some_or,
      Option.elim_some]
    omega

/-- `session.add` and `flush` of one row. -/
def add (ledger : ProbeLedger) (row : ProbeVerdictRow) : ProbeLedger where
  rows := ledger.rows ++ [(nextId ledger.rows, row)]
  ordered := by
    refine List.pairwise_append.2 ⟨ledger.ordered, by simp, fun old hold new hnew => ?_⟩
    obtain rfl := List.mem_singleton.1 hnew
    exact lt_nextId ledger.ordered old hold

/-- `session.add_all` and `flush`. -/
def addAll (ledger : ProbeLedger) (rows : List ProbeVerdictRow) : ProbeLedger :=
  rows.foldl add ledger

@[simp] theorem verdicts_add (ledger : ProbeLedger) (row : ProbeVerdictRow) :
    (ledger.add row).verdicts = ledger.verdicts ++ [row] := by simp [verdicts, add]

@[simp] theorem verdicts_addAll (ledger : ProbeLedger) (rows : List ProbeVerdictRow) :
    (ledger.addAll rows).verdicts = ledger.verdicts ++ rows := by
  induction rows generalizing ledger with
  | nil => simp [addAll]
  | cons row rows ih => simpa [addAll] using ih (ledger.add row)

@[simp] theorem addAll_nil (ledger : ProbeLedger) : ledger.addAll [] = ledger := rfl

/-! ### Reading -/

variable {α β : Type}

/-- What the newest row of `key` that `read` reads is read as. -/
def newest (ledger : ProbeLedger) (read : ProbeVerdictRow → Option α) (key : VerdictKey) : Option α :=
  NewestRows.newest ProbeVerdictRow.key read ledger.verdicts key

/-- Pairs per `IN` clause. -/
def CHUNK : ℕ := 400

/-- The newest row of each of `keys`, as `read` reads it, a chunk of keys for each query. -/
def lookupNewest (ledger : ProbeLedger) (read : ProbeVerdictRow → Option α)
    (keys : List VerdictKey) : VerdictKey → Option α :=
  NewestRows.lookupNewest CHUNK Prod.fst (fun row => row.2.key) (fun row => read row.2) ledger.rows
    keys

theorem lookupNewest_eq (ledger : ProbeLedger) (read : ProbeVerdictRow → Option α)
    (keys : List VerdictKey) (key : VerdictKey) :
    ledger.lookupNewest read keys key = if key ∈ keys then ledger.newest read key else none := by
  have hmap : NewestRows.newest (fun row => row.2.key) (fun row => read row.2) ledger.rows key =
      ledger.newest read key := by
    simp [newest, NewestRows.newest, verdicts, List.filter_map, List.filterMap_map,
      Function.comp_def]
  rw [lookupNewest, NewestRows.lookupNewest_eq (by decide) ledger.ordered, hmap]
  by_cases hkey : key ∈ keys <;> simp [hkey]

theorem newest_map (ledger : ProbeLedger) (read : ProbeVerdictRow → Option α) (f : α → β)
    (key : VerdictKey) :
    ledger.newest (fun row => (read row).map f) key = (ledger.newest read key).map f := by
  simp [newest, NewestRows.newest, List.getLast?_map, ← List.map_filterMap]

/-! ### Appending what differs -/

/-- Append the row of each verdict whose key has no record, or whose newest record differs. -/
def appendChanged [DecidableEq α] (ledger : ProbeLedger) (known : VerdictKey → Option α)
    (recorded : β → α) (row : VerdictKey → β → ProbeVerdictRow)
    (verdicts : AList fun _ : VerdictKey => β) : ProbeLedger × ℕ :=
  let rows := verdicts.entries.filterMap fun entry =>
    if known entry.1 = some (recorded entry.2) then none else some (row entry.1 entry.2)
  (ledger.addAll rows, rows.length)

variable [DecidableEq α] {ledger : ProbeLedger} {known : VerdictKey → Option α} {recorded : β → α}
  {row : VerdictKey → β → ProbeVerdictRow} {verdicts : AList fun _ : VerdictKey => β}
  {key : VerdictKey}

/-- A row appended is that of one of the verdicts. -/
theorem exists_of_mem_appended {fresh : ProbeVerdictRow}
    (h : fresh ∈ verdicts.entries.filterMap fun entry =>
      if known entry.1 = some (recorded entry.2) then none else some (row entry.1 entry.2)) :
    ∃ key value, verdicts.lookup key = some value ∧ known key ≠ some (recorded value) ∧
      fresh = row key value := by
  obtain ⟨⟨key, value⟩, hentry, hrow⟩ := List.mem_filterMap.1 h
  split_ifs at hrow with hknown
  exact ⟨key, value, AList.mem_lookup_iff.2 hentry, hknown, (Option.some.inj hrow).symm⟩

/-- A read of other keys, or one that skips the rows appended, is as before. -/
theorem newest_appendChanged_of_forall {γ : Type} {read : ProbeVerdictRow → Option γ}
    (h : ∀ other value, verdicts.lookup other = some value → (row other value).key = key →
      read (row other value) = none) :
    (ledger.appendChanged known recorded row verdicts).1.newest read key = ledger.newest read key := by
  rw [appendChanged, newest, verdicts_addAll]
  refine NewestRows.newest_append_of_forall fun fresh hfresh hkey => ?_
  obtain ⟨other, value, hlookup, -, rfl⟩ := exists_of_mem_appended hfresh
  exact h other value hlookup hkey

/-- **After a writer every key it was given has the verdict it was given.** -/
theorem newest_appendChanged {read : ProbeVerdictRow → Option α}
    (hkey : ∀ key value, (row key value).key = key)
    (hread : ∀ key value, read (row key value) = some (recorded value))
    (hknown : ∀ value, verdicts.lookup key = some value → known key = ledger.newest read key) :
    (ledger.appendChanged known recorded row verdicts).1.newest read key =
      ((verdicts.lookup key).map recorded).or (ledger.newest read key) := by
  -- of the rows appended only the one of `key` itself is a row of `key`
  have hof : ∀ other value, verdicts.lookup other = some value → (row other value).key = key →
      verdicts.lookup key = some value := by
    intro other value hlookup hrow
    rw [hkey] at hrow
    rw [← hrow, hlookup]
  cases hlookup : verdicts.lookup key with
  | none =>
      rw [Option.map_none, Option.none_or]
      refine newest_appendChanged_of_forall fun other value hother hrow => ?_
      rw [hof other value hother hrow] at hlookup
      cases hlookup
  | some value =>
      rw [Option.map_some, Option.some_or]
      by_cases hsame : known key = some (recorded value)
      · -- nothing is appended for `key`
        rw [← hsame, hknown value hlookup, appendChanged, newest, verdicts_addAll]
        refine NewestRows.newest_append_of_forall fun fresh hfresh hrow => ?_
        obtain ⟨other, value', hother, hdiffers, rfl⟩ := exists_of_mem_appended hfresh
        obtain rfl : other = key := (hkey other value').symm.trans hrow
        rw [hlookup] at hother
        cases hother
        exact absurd hsame hdiffers
      · rw [appendChanged, newest, verdicts_addAll]
        have hread' : read (row key value) = some (recorded value) := hread key value
        refine NewestRows.newest_append_of_mem ?_ (hkey key value) hread' fun fresh hfresh hrow => ?_
        · exact List.mem_filterMap.2 ⟨⟨key, value⟩, AList.mem_lookup_iff.1 hlookup, if_neg hsame⟩
        · obtain ⟨other, value', hother, -, rfl⟩ := exists_of_mem_appended hfresh
          have hvalue := hof other value' hother hrow
          rw [hlookup] at hvalue
          cases hvalue
          exact hread other value

/-- Verdicts that are all the newest of their keys add no row. -/
theorem appendChanged_eq_self
    (h : ∀ key value, verdicts.lookup key = some value → known key = some (recorded value)) :
    ledger.appendChanged known recorded row verdicts = (ledger, 0) := by
  have hnil : (verdicts.entries.filterMap fun entry =>
      if known entry.1 = some (recorded entry.2) then none else some (row entry.1 entry.2)) = [] := by
    rw [List.filterMap_eq_nil_iff]
    intro entry hentry
    rw [if_pos (h entry.1 entry.2 (AList.mem_lookup_iff.2 hentry))]
  rw [appendChanged, hnil]
  rfl

/-- A writer given nothing writes nothing, so its early return needs no case of its own. -/
theorem appendChanged_isEmpty :
    (if verdicts.entries.isEmpty then (ledger, 0)
      else ledger.appendChanged known recorded row verdicts) =
      ledger.appendChanged known recorded row verdicts := by
  split_ifs with hempty
  · rw [List.isEmpty_iff] at hempty
    simp [appendChanged, hempty]
  · rfl

end ProbeLedger

/-! ### The reads of a row -/

/-- A row of `kind` under `promptHash` gives its verdict. -/
def readVerdict (kind promptHash : String) (row : ProbeVerdictRow) : Option Bool :=
  if row.probeKind = kind ∧ row.promptHash = promptHash then some row.verdict else none

/-- Such a row gives its verdict and the stamp of its rung. -/
def readStamped (kind promptHash : String) (row : ProbeVerdictRow) :
    Option (Bool × Option String) :=
  if row.probeKind = kind ∧ row.promptHash = promptHash then some (row.verdict, row.rung) else none

/-- A row of a rung's kind under its version gives the verdict in the ladder's vocabulary. -/
def readRung (kind version : String) (shadow : Bool) (row : ProbeVerdictRow) : Option String :=
  if row.probeKind = kind ∧ row.promptHash = version ∧ row.shadow = shadow then row.rungVerdict
  else none

theorem readVerdict_eq (kind promptHash : String) :
    readVerdict kind promptHash = fun row => (readStamped kind promptHash row).map Prod.fst := by
  funext row
  rw [readVerdict, readStamped]
  split_ifs <;> rfl

section Verdicts

variable {Kind : Type} (core : ProbeCore Kind)

/-! ### Lookups and writers -/

/-- `lookup_verdicts`. -/
def lookupVerdicts (ledger : ProbeLedger) (kind : Kind) (promptHash : String)
    (keys : List VerdictKey) : VerdictKey → Option Bool :=
  ledger.lookupNewest (readVerdict (core.value kind) promptHash) keys.eraseDups

/-- `lookup_stamped_verdicts`. -/
def lookupStampedVerdicts (ledger : ProbeLedger) (kind : Kind) (promptHash : String)
    (keys : List VerdictKey) : VerdictKey → Option (Bool × Option String) :=
  ledger.lookupNewest (readStamped (core.value kind) promptHash) keys.eraseDups

/-- `_newest_rung_verdicts`. -/
def newestRungVerdicts (ledger : ProbeLedger) (kind version : String) (shadow : Bool)
    (keys : List VerdictKey) : VerdictKey → Option String :=
  ledger.lookupNewest (readRung kind version shadow) keys

/-- The row a probe's verdict is written as. -/
def verdictRow (kind : Kind) (promptHash model : String) (now : ℤ)
    (rung temperature : Option String) (key : VerdictKey) (verdict : Bool) : ProbeVerdictRow where
  probeKind := core.value kind
  promptHash := promptHash
  hashA := key.1
  hashB := key.2
  verdict := verdict
  model := model
  recordedAt := now
  rung := rung
  temperature := temperature

/-- The row a rung's own verdict is written as. -/
def rungRow (stamp : RungStamp) (shadow : Bool) (now : ℤ) (key : VerdictKey) (value : String) :
    ProbeVerdictRow where
  probeKind := core.rungKind stamp.name
  promptHash := stamp.version
  hashA := key.1
  hashB := key.2
  verdict := decide (value ∈ POSITIVE_VERDICTS)
  model := core.stampText stamp
  recordedAt := now
  rung := some (core.stampText stamp)
  rungVerdict := some value
  shadow := shadow
  temperature := some core.NO_SAMPLING

/-- `record_verdicts`: the ledger after it and the number of rows written. -/
def recordVerdicts (ledger : ProbeLedger) (kind : Kind) (promptHash : String)
    (verdicts : AList fun _ : VerdictKey => Bool) (model : String) (now : ℤ)
    (rung : Option RungStamp) (temperature : Option String) : ProbeLedger × ℕ :=
  if verdicts.entries.isEmpty then (ledger, 0)
  else
    let known := lookupVerdicts core ledger kind promptHash verdicts.keys
    ledger.appendChanged known id
      (verdictRow core kind promptHash model now (rung.map core.stampText) temperature) verdicts

/-- A verdict with the stamp of its rung. -/
def stamped (verdict : Bool × Option RungStamp) : Bool × Option String :=
  (verdict.1, verdict.2.map core.stampText)

/-- `record_stamped_verdicts`. -/
def recordStampedVerdicts (ledger : ProbeLedger) (kind : Kind) (promptHash : String)
    (verdicts : AList fun _ : VerdictKey => Bool × Option RungStamp) (model : String) (now : ℤ) :
    ProbeLedger × ℕ :=
  if verdicts.entries.isEmpty then (ledger, 0)
  else
    let known := lookupStampedVerdicts core ledger kind promptHash verdicts.keys
    ledger.appendChanged known (stamped core)
      (fun key verdict =>
        let (value, stamp) := stamped core verdict
        verdictRow core kind promptHash model now stamp none key value)
      verdicts

/-- `record_rung_verdicts`. -/
def recordRungVerdicts (ledger : ProbeLedger) (stamp : RungStamp)
    (verdicts : AList fun _ : VerdictKey => String) (shadow : Bool) (now : ℤ) : ProbeLedger × ℕ :=
  if verdicts.entries.isEmpty then (ledger, 0)
  else
    let kind := core.rungKind stamp.name
    let wanted := verdicts.keys.eraseDups
    let known := newestRungVerdicts ledger kind stamp.version shadow wanted
    ledger.appendChanged known id (rungRow core stamp shadow now) verdicts

variable {ledger : ProbeLedger} {kind : Kind} {promptHash : String} {key : VerdictKey}

theorem recordVerdicts_eq (verdicts : AList fun _ : VerdictKey => Bool) (model : String) (now : ℤ)
    (rung : Option RungStamp) (temperature : Option String) :
    recordVerdicts core ledger kind promptHash verdicts model now rung temperature =
      ledger.appendChanged (lookupVerdicts core ledger kind promptHash verdicts.keys) id
        (verdictRow core kind promptHash model now (rung.map core.stampText) temperature) verdicts :=
  ProbeLedger.appendChanged_isEmpty

theorem recordStampedVerdicts_eq (verdicts : AList fun _ : VerdictKey => Bool × Option RungStamp)
    (model : String) (now : ℤ) :
    recordStampedVerdicts core ledger kind promptHash verdicts model now =
      ledger.appendChanged (lookupStampedVerdicts core ledger kind promptHash verdicts.keys)
        (stamped core)
        (fun key verdict => verdictRow core kind promptHash model now (stamped core verdict).2 none
          key (stamped core verdict).1) verdicts :=
  ProbeLedger.appendChanged_isEmpty

theorem recordRungVerdicts_eq (stamp : RungStamp) (verdicts : AList fun _ : VerdictKey => String)
    (shadow : Bool) (now : ℤ) :
    recordRungVerdicts core ledger stamp verdicts shadow now =
      ledger.appendChanged
        (newestRungVerdicts ledger (core.rungKind stamp.name) stamp.version shadow
          verdicts.keys.eraseDups) id
        (rungRow core stamp shadow now) verdicts :=
  ProbeLedger.appendChanged_isEmpty

/-- A lookup gives the newest verdict of a key it is asked for. -/
theorem lookupNewest_of_mem {α : Type} {read : ProbeVerdictRow → Option α} {keys : List VerdictKey}
    (hkey : key ∈ keys) : ledger.lookupNewest read keys.eraseDups key = ledger.newest read key := by
  rw [ProbeLedger.lookupNewest_eq, if_pos (List.mem_eraseDups.2 hkey)]

/-- What a writer looks up before it writes is the newest verdict of each key it was given. -/
theorem lookupNewest_keys {α β : Type} {read : ProbeVerdictRow → Option α}
    {verdicts : AList fun _ : VerdictKey => β} {value : β} (h : verdicts.lookup key = some value) :
    ledger.lookupNewest read verdicts.keys.eraseDups key = ledger.newest read key := by
  refine lookupNewest_of_mem (AList.mem_keys.1 (AList.lookup_isSome.1 ?_))
  rw [h, Option.isSome_some]

/-- A call of one of the writers. -/
inductive VerdictCall (Kind : Type) where
  | plain (kind : Kind) (promptHash : String) (verdicts : AList fun _ : VerdictKey => Bool)
      (model : String) (now : ℤ) (rung : Option RungStamp) (temperature : Option String)
  | withStamps (kind : Kind) (promptHash : String)
      (verdicts : AList fun _ : VerdictKey => Bool × Option RungStamp) (model : String) (now : ℤ)
  | ofRung (stamp : RungStamp) (verdicts : AList fun _ : VerdictKey => String) (shadow : Bool)
      (now : ℤ)

/-- The ledger after one call and the number of rows it wrote. -/
def VerdictCall.run (ledger : ProbeLedger) : VerdictCall Kind → ProbeLedger × ℕ
  | plain kind promptHash verdicts model now rung temperature =>
      recordVerdicts core ledger kind promptHash verdicts model now rung temperature
  | withStamps kind promptHash verdicts model now =>
      recordStampedVerdicts core ledger kind promptHash verdicts model now
  | ofRung stamp verdicts shadow now => recordRungVerdicts core ledger stamp verdicts shadow now

/-- The ledger after a sequence of calls. -/
def recordAll (ledger : ProbeLedger) (calls : List (VerdictCall Kind)) : ProbeLedger :=
  calls.foldl (fun ledger call => (call.run core ledger).1) ledger

theorem recordAll_concat (ledger : ProbeLedger) (calls : List (VerdictCall Kind))
    (call : VerdictCall Kind) :
    recordAll core ledger (calls ++ [call]) = (call.run core (recordAll core ledger calls)).1 := by
  simp [recordAll]

/-! ### What a call records -/

variable [DecidableEq Kind]

/-- The verdict a call records for `key`, with or without a stamp. -/
def VerdictCall.verdictFor (kind : Kind) (promptHash : String) (key : VerdictKey) :
    VerdictCall Kind → Option Bool
  | plain kind' promptHash' verdicts _ _ _ _ =>
      if kind' = kind ∧ promptHash' = promptHash then verdicts.lookup key else none
  | withStamps kind' promptHash' verdicts _ _ =>
      if kind' = kind ∧ promptHash' = promptHash then (verdicts.lookup key).map Prod.fst else none
  | ofRung _ _ _ _ => none

/-- The verdict and the stamp that `record_stamped_verdicts` records for `key`. -/
def VerdictCall.stampedFor (kind : Kind) (promptHash : String) (key : VerdictKey) :
    VerdictCall Kind → Option (Bool × Option String)
  | plain _ _ _ _ _ _ _ => none
  | withStamps kind' promptHash' verdicts _ _ =>
      if kind' = kind ∧ promptHash' = promptHash then (verdicts.lookup key).map (stamped core)
      else none
  | ofRung _ _ _ _ => none

/-- The verdict a call records for `key` under a rung's kind and version. -/
def VerdictCall.rungFor (kind version : String) (shadow : Bool) (key : VerdictKey) :
    VerdictCall Kind → Option String
  | plain _ _ _ _ _ _ _ => none
  | withStamps _ _ _ _ _ => none
  | ofRung stamp verdicts shadow' _ =>
      if core.rungKind stamp.name = kind ∧ stamp.version = version ∧ shadow' = shadow then
        verdicts.lookup key
      else none

/-- What the last call of a sequence that records anything records. -/
def lastRecorded {α : Type} (recorded : VerdictCall Kind → Option α)
    (calls : List (VerdictCall Kind)) : Option α := (calls.filterMap recorded).getLast?

/-! ### One call -/

variable {core}

theorem readStamped_verdictRow {kind' : Kind} {promptHash' model : String} {now : ℤ}
    {rung temperature : Option String} {verdict : Bool} :
    readStamped (core.value kind) promptHash
        (verdictRow core kind' promptHash' model now rung temperature key verdict) =
      if kind' = kind ∧ promptHash' = promptHash then some (verdict, rung) else none := by
  simp only [readStamped, verdictRow, core.value_injective.eq_iff]

omit [DecidableEq Kind] in
theorem readStamped_rungRow {stamp : RungStamp} {shadow : Bool} {now : ℤ} {value : String} :
    readStamped (core.value kind) promptHash (rungRow core stamp shadow now key value) = none := by
  simp [readStamped, rungRow, core.rungKind_ne]

/-- **One call leaves for a key the verdict it records**, and otherwise what was there. -/
theorem VerdictCall.newest_run (call : VerdictCall Kind) :
    (call.run core ledger).1.newest (readVerdict (core.value kind) promptHash) key =
      (call.verdictFor kind promptHash key).or
        (ledger.newest (readVerdict (core.value kind) promptHash) key) := by
  cases call with
  | plain kind' promptHash' verdicts model now rung temperature =>
      rw [run, recordVerdicts_eq, verdictFor]
      split_ifs with hsame
      · obtain ⟨rfl, rfl⟩ := hsame
        refine (ProbeLedger.newest_appendChanged (fun _ _ => rfl)
          (fun _ _ => by simp [readVerdict, verdictRow])
          fun value hvalue => lookupNewest_keys hvalue).trans ?_
        rw [Option.map_id, id]
      · refine ProbeLedger.newest_appendChanged_of_forall fun other value _ _ => ?_
        simp only [readVerdict_eq, readStamped_verdictRow, if_neg hsame, Option.map_none]
  | withStamps kind' promptHash' verdicts model now =>
      rw [run, recordStampedVerdicts_eq, verdictFor, readVerdict_eq, ProbeLedger.newest_map,
        ProbeLedger.newest_map]
      split_ifs with hsame
      · obtain ⟨rfl, rfl⟩ := hsame
        refine (congrArg _ (ProbeLedger.newest_appendChanged (fun _ _ => rfl)
          (fun _ _ => by simp [readStamped_verdictRow])
          fun value hvalue => lookupNewest_keys hvalue)).trans ?_
        cases verdicts.lookup key <;> simp [stamped]
      · rw [Option.none_or]
        refine congrArg _ (ProbeLedger.newest_appendChanged_of_forall fun other value _ _ => ?_)
        rw [readStamped_verdictRow, if_neg hsame]
  | ofRung stamp verdicts shadow now =>
      rw [run, recordRungVerdicts_eq, verdictFor, Option.none_or]
      refine ProbeLedger.newest_appendChanged_of_forall fun other value _ _ => ?_
      simp only [readVerdict_eq, readStamped_rungRow, Option.map_none]

/-- A call with a stamp leaves the verdict and the stamp. -/
theorem VerdictCall.newest_run_of_stampedFor {call : VerdictCall Kind}
    {value : Bool × Option String} (h : call.stampedFor core kind promptHash key = some value) :
    (call.run core ledger).1.newest (readStamped (core.value kind) promptHash) key = some value := by
  cases call with
  | withStamps kind' promptHash' verdicts model now =>
      rw [stampedFor] at h
      split_ifs at h with hsame
      obtain ⟨rfl, rfl⟩ := hsame
      rw [run, recordStampedVerdicts_eq]
      refine (ProbeLedger.newest_appendChanged (fun _ _ => rfl)
        (fun _ _ => by simp [readStamped_verdictRow])
        fun value hvalue => lookupNewest_keys hvalue).trans ?_
      rw [h, Option.some_or]
  | plain => cases h
  | ofRung => cases h

/-- A call that records nothing for a key leaves its verdict and its stamp. -/
theorem VerdictCall.newest_run_of_verdictFor {call : VerdictCall Kind}
    (h : call.verdictFor kind promptHash key = none) :
    (call.run core ledger).1.newest (readStamped (core.value kind) promptHash) key =
      ledger.newest (readStamped (core.value kind) promptHash) key := by
  cases call with
  | plain kind' promptHash' verdicts model now rung temperature =>
      rw [run, recordVerdicts_eq]
      refine ProbeLedger.newest_appendChanged_of_forall fun other value hother hkey => ?_
      obtain rfl : other = key := hkey
      rw [readStamped_verdictRow]
      split_ifs with hsame
      · rw [verdictFor, if_pos hsame, hother] at h
        cases h
      · rfl
  | withStamps kind' promptHash' verdicts model now =>
      rw [run, recordStampedVerdicts_eq]
      refine ProbeLedger.newest_appendChanged_of_forall fun other value hother hkey => ?_
      obtain rfl : other = key := hkey
      rw [readStamped_verdictRow]
      split_ifs with hsame
      · rw [verdictFor, if_pos hsame, hother] at h
        cases h
      · rfl
  | ofRung stamp verdicts shadow now =>
      rw [run, recordRungVerdicts_eq]
      exact ProbeLedger.newest_appendChanged_of_forall fun other value _ _ => readStamped_rungRow

omit [DecidableEq Kind] in
/-- A call leaves for a key the verdict of a rung it records, and otherwise what was there. -/
theorem VerdictCall.newestRung_run (call : VerdictCall Kind) {rungKind version : String}
    {shadow : Bool} :
    (call.run core ledger).1.newest (readRung rungKind version shadow) key =
      (call.rungFor core rungKind version shadow key).or
        (ledger.newest (readRung rungKind version shadow) key) := by
  cases call with
  | plain kind' promptHash' verdicts model now rung temperature =>
      rw [run, recordVerdicts_eq, rungFor, Option.none_or]
      exact ProbeLedger.newest_appendChanged_of_forall fun other value _ _ => by
        simp [readRung, verdictRow]
  | withStamps kind' promptHash' verdicts model now =>
      rw [run, recordStampedVerdicts_eq, rungFor, Option.none_or]
      exact ProbeLedger.newest_appendChanged_of_forall fun other value _ _ => by
        simp [readRung, verdictRow]
  | ofRung stamp verdicts shadow' now =>
      rw [run, recordRungVerdicts_eq, rungFor]
      split_ifs with hsame
      · obtain ⟨rfl, rfl, rfl⟩ := hsame
        refine (ProbeLedger.newest_appendChanged (fun _ _ => rfl)
          (fun _ _ => by simp [readRung, rungRow])
          fun value hvalue => lookupNewest_keys hvalue).trans ?_
        rw [Option.map_id, id]
      · exact ProbeLedger.newest_appendChanged_of_forall fun other value _ _ => if_neg hsame

/-- **A call repeated at once adds no row.** -/
theorem VerdictCall.run_run (call : VerdictCall Kind) :
    call.run core (call.run core ledger).1 = ((call.run core ledger).1, 0) := by
  cases hcall : call with
  | plain kind promptHash verdicts model now rung temperature =>
      refine (recordVerdicts_eq core verdicts model now rung temperature).trans
        (ProbeLedger.appendChanged_eq_self fun key value hvalue => ?_)
      refine (lookupNewest_keys hvalue).trans ((VerdictCall.newest_run _).trans ?_)
      rw [verdictFor, if_pos ⟨rfl, rfl⟩, hvalue, Option.some_or, id]
  | withStamps kind promptHash verdicts model now =>
      refine (recordStampedVerdicts_eq core verdicts model now).trans
        (ProbeLedger.appendChanged_eq_self fun key value hvalue => ?_)
      refine (lookupNewest_keys hvalue).trans (VerdictCall.newest_run_of_stampedFor ?_)
      rw [stampedFor, if_pos ⟨rfl, rfl⟩, hvalue, Option.map_some]
  | ofRung stamp verdicts shadow now =>
      refine (recordRungVerdicts_eq core stamp verdicts shadow now).trans
        (ProbeLedger.appendChanged_eq_self fun key value hvalue => ?_)
      refine (lookupNewest_keys hvalue).trans ((VerdictCall.newestRung_run _).trans ?_)
      rw [rungFor, if_pos ⟨rfl, rfl, rfl⟩, hvalue, Option.some_or, id]

/-! ### A sequence of calls -/

omit [DecidableEq Kind] in
/-- What a step keeps or sets, a sequence of steps has as its last step set it. -/
theorem newest_recordAll {α : Type} {read : ProbeVerdictRow → Option α}
    {recorded : VerdictCall Kind → Option α}
    (hstep : ∀ (ledger : ProbeLedger) (call : VerdictCall Kind),
      (call.run core ledger).1.newest read key = (recorded call).or (ledger.newest read key))
    (calls : List (VerdictCall Kind)) :
    (recordAll core ledger calls).newest read key =
      (lastRecorded recorded calls).or (ledger.newest read key) := by
  induction calls using List.reverseRecOn with
  | nil => simp [recordAll, lastRecorded]
  | append_singleton calls call ih =>
      rw [recordAll_concat, hstep, ih]
      cases hcall : recorded call <;>
        simp [lastRecorded, List.filterMap_append, hcall, List.getLast?_append]

/-- What reads give after `calls`: `ledger` is the table before them. -/
structure Remembered (core : ProbeCore Kind) (ledger : ProbeLedger)
    (calls : List (VerdictCall Kind)) : Prop where
  /-- `lookup_verdicts` gives the last verdict recorded, with or without a stamp -/
  verdicts : ∀ kind promptHash keys, ∀ key ∈ keys,
    lookupVerdicts core (recordAll core ledger calls) kind promptHash keys key =
      (lastRecorded (VerdictCall.verdictFor kind promptHash key) calls).or
        (lookupVerdicts core ledger kind promptHash keys key)
  /-- and so does `lookup_stamped_verdicts` -/
  stampedVerdicts : ∀ kind promptHash keys, ∀ key ∈ keys,
    (lookupStampedVerdicts core (recordAll core ledger calls) kind promptHash keys key).map Prod.fst =
      (lastRecorded (VerdictCall.verdictFor kind promptHash key) calls).or
        ((lookupStampedVerdicts core ledger kind promptHash keys key).map Prod.fst)
  /-- with its stamp, when the last call for the key records one -/
  stamps : ∀ kind promptHash keys, ∀ key ∈ keys, ∀ before call after value,
    calls = before ++ call :: after → call.stampedFor core kind promptHash key = some value →
    (∀ later ∈ after, later.verdictFor kind promptHash key = none) →
    lookupStampedVerdicts core (recordAll core ledger calls) kind promptHash keys key = some value
  /-- `_newest_rung_verdicts` gives the last verdict recorded for the rung's kind and version -/
  rungVerdicts : ∀ kind version shadow keys, ∀ key ∈ keys,
    newestRungVerdicts (recordAll core ledger calls) kind version shadow keys key =
      (lastRecorded (VerdictCall.rungFor core kind version shadow key) calls).or
        (newestRungVerdicts ledger kind version shadow keys key)
  /-- the last call made again adds no row -/
  again : ∀ before call, calls = before ++ [call] →
    call.run core (recordAll core ledger calls) = (recordAll core ledger calls, 0)

/-- **A read returns the last verdict recorded for its key**, after every sequence of calls. -/
theorem remembered_recordAll (core : ProbeCore Kind) (ledger : ProbeLedger)
    (calls : List (VerdictCall Kind)) : Remembered core ledger calls where
  verdicts kind promptHash keys key hkey := by
    rw [lookupVerdicts, lookupVerdicts, lookupNewest_of_mem hkey, lookupNewest_of_mem hkey]
    exact newest_recordAll (fun _ call => call.newest_run) calls
  stampedVerdicts kind promptHash keys key hkey := by
    rw [lookupStampedVerdicts, lookupStampedVerdicts, lookupNewest_of_mem hkey,
      lookupNewest_of_mem hkey, ← ProbeLedger.newest_map, ← ProbeLedger.newest_map,
      ← readVerdict_eq]
    exact newest_recordAll (fun _ call => call.newest_run) calls
  stamps kind promptHash keys key hkey before call after value hcalls hvalue hafter := by
    subst hcalls
    rw [lookupStampedVerdicts, lookupNewest_of_mem hkey]
    induction after using List.reverseRecOn with
    | nil => rw [recordAll_concat, VerdictCall.newest_run_of_stampedFor hvalue]
    | append_singleton after last ih =>
        rw [← List.cons_append, ← List.append_assoc, recordAll_concat,
          VerdictCall.newest_run_of_verdictFor (hafter last (by simp)),
          ih fun later hlater => hafter later (by simp [hlater])]
  rungVerdicts kind version shadow keys key hkey := by
    rw [newestRungVerdicts, newestRungVerdicts, ProbeLedger.lookupNewest_eq,
      ProbeLedger.lookupNewest_eq, if_pos hkey, if_pos hkey]
    exact newest_recordAll (fun _ call => call.newestRung_run) calls
  again before call hcalls := by
    rw [hcalls, recordAll_concat, VerdictCall.run_run]

end Verdicts

end ParticlesEngine
