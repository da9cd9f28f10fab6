/-
**The newest row of a key.**

An append-only log gives every row an id greater than those before it, and what a key has is read
from its newest row.  A reader that asks for many keys does so a chunk of keys at a time and keeps,
for each key, the row with the greatest id it has met.  This module names nothing of a particular
program.

Main definitions:

* `newest` — what the newest row of a key that can be read at all is read as;
* `chunks` — a list cut into pieces of one length, the last one possibly shorter;
* `scan`, `metRows`, `lookupNewest` — the reader.

Main results:

* `newest_append`, `newest_append_of_mem` — what appending rows does to a key;
* `lookupNewest_eq` — **the reader finds the newest row of every key it is asked for, however the
  keys are cut into chunks**.
-/

import Mathlib.Data.List.Induction
import Mathlib.Data.List.Range
import Mathlib.Data.List.Nodup

set_option relaxedAutoImplicit false
set_option autoImplicit false

namespace NewestRows

variable {ρ κ α : Type*}

/-! ### Chunks -/

/-- A list cut into pieces of length `size`. -/
def chunks (size : ℕ) (l : List κ) : List (List κ) :=
  (List.range' 0 ((l.length + size - 1) / size) size).map fun start => (l.drop start).take size

/-- Nothing is lost or added by cutting. -/
theorem exists_mem_chunks {size : ℕ} (hsize : 0 < size) {l : List κ} {k : κ} :
    (∃ chunk ∈ chunks size l, k ∈ chunk) ↔ k ∈ l := by
  constructor
  · rintro ⟨chunk, hchunk, hk⟩
    obtain ⟨start, -, rfl⟩ := List.mem_map.1 hchunk
    exact List.mem_of_mem_drop (List.mem_of_mem_take hk)
  · intro hk
    obtain ⟨i, hi, rfl⟩ := List.mem_iff_getElem.1 hk
    have hmod : i % size < size := Nat.mod_lt i hsize
    have hsplit : size * (i / size) + i % size = i := Nat.div_add_mod i size
    refine ⟨(l.drop (size * (i / size))).take size, List.mem_map.2 ⟨size * (i / size), ?_, rfl⟩, ?_⟩
    · refine List.mem_range'.2 ⟨i / size, ?_, by omega⟩
      have hlast : i / size ≤ (l.length - 1) / size := Nat.div_le_div_right (by omega)
      have hcount : (l.length + size - 1) / size = (l.length - 1) / size + 1 := by
        rw [show l.length + size - 1 = l.length - 1 + size by omega, Nat.add_div_right _ hsize]
      omega
    · refine List.mem_iff_getElem.2 ⟨i % size, ?_, ?_⟩
      · rw [List.length_take, List.length_drop]
        omega
      · simp only [List.getElem_take, List.getElem_drop, hsplit]

/-! ### Appending -/

section Newest

variable [DecidableEq κ] {key : ρ → κ} {read : ρ → Option α} {rows : List ρ} {k : κ}

/-- What the newest row of `k` that can be read is read as, in a list of rows from old to new. -/
def newest (key : ρ → κ) (read : ρ → Option α) (rows : List ρ) (k : κ) : Option α :=
  ((rows.filter fun row => key row = k).filterMap read).getLast?

@[simp] theorem newest_nil : newest key read [] k = none := rfl

theorem newest_append (rows : List ρ) (row : ρ) :
    newest key read (rows ++ [row]) k =
      (if key row = k then read row else none).or (newest key read rows k) := by
  by_cases hkey : key row = k
  · cases hread : read row <;> simp [newest, hkey, hread, List.getLast?_append]
  · simp [newest, hkey]

/-- Rows that cannot be read, or are of other keys, change nothing. -/
theorem newest_append_of_forall {fresh : List ρ}
    (h : ∀ row ∈ fresh, key row = k → read row = none) :
    newest key read (rows ++ fresh) k = newest key read rows k := by
  have hnone : (fresh.filter fun row => key row = k).filterMap read = [] := by
    rw [List.filterMap_eq_nil_iff]
    intro row hrow
    exact h row (List.mem_of_mem_filter hrow) (by simpa using List.of_mem_filter hrow)
  rw [newest, List.filter_append, List.filterMap_append, hnone, List.append_nil, newest]

/-- Of several rows that all read the same for `k`, and of which there is one, the newest is one. -/
theorem newest_append_of_mem {fresh : List ρ} {row : ρ} {value : α} (hrow : row ∈ fresh)
    (hkey : key row = k) (hread : read row = some value)
    (hone : ∀ other ∈ fresh, key other = k → read other = some value) :
    newest key read (rows ++ fresh) k = some value := by
  obtain ⟨before, after, rfl⟩ := List.append_of_mem hrow
  -- the last of the values read is one of those read from `row` and what follows it
  have hlast : ∀ v ∈ ((row :: after).filter fun r => key r = k).filterMap read, v = value := by
    intro v hv
    obtain ⟨other, hother, hv⟩ := List.mem_filterMap.1 hv
    have hkeyed : key other = k := by simpa using List.of_mem_filter hother
    have hsame := hone other (List.mem_append_right _ (List.mem_of_mem_filter hother)) hkeyed
    exact Option.some.inj (hv.symm.trans hsame)
  have hne : ((row :: after).filter fun r => key r = k).filterMap read ≠ [] := by
    simp [hkey, hread]
  rw [newest, ← List.append_assoc, List.filter_append, List.filterMap_append,
    List.getLast?_append_of_ne_nil _ hne, List.getLast?_eq_some_getLast hne]
  exact congrArg some (hlast _ (List.getLast_mem hne))

end Newest

/-! ### Reading by chunks of keys -/

section Scan

variable [DecidableEq κ] {id : ρ → ℕ} {key : ρ → κ} {read : ρ → Option α} {rows : List ρ} {k : κ}

/-- One row of the scan: it replaces what its key has when that is older. -/
def keepNewer (id : ρ → ℕ) (key : ρ → κ) (found : κ → Option ρ) (row : ρ) : κ → Option ρ :=
  fun k => if key row = k ∧ ∀ held ∈ found k, id held < id row then some row else found k

/-- The row with the greatest id of each key. -/
def scan (id : ρ → ℕ) (key : ρ → κ) (rows : List ρ) : κ → Option ρ :=
  rows.foldl (keepNewer id key) fun _ => none

theorem scan_concat (rows : List ρ) (row : ρ) :
    scan id key (rows ++ [row]) = keepNewer id key (scan id key rows) row := by
  simp [scan]

theorem scan_eq_none : scan id key rows k = none ↔ ∀ row ∈ rows, key row ≠ k := by
  induction rows using List.reverseRecOn with
  | nil => simp [scan]
  | append_singleton rows row ih =>
      rw [scan_concat, keepNewer]
      split_ifs with hnewer
      · simp [hnewer.1]
      · refine ⟨fun hnone other hother => ?_, fun h => ih.2 fun other hother => h other (by simp [hother])⟩
        rcases List.mem_append.1 hother with hother | hother
        · exact ih.1 hnone other hother
        · obtain rfl := List.mem_singleton.1 hother
          exact fun hkey => hnewer ⟨hkey, by simp [hnone]⟩

/-- What the scan holds of a key is one of its rows, and none of them is newer. -/
theorem scan_eq_some {row : ρ} (h : scan id key rows k = some row) :
    row ∈ rows ∧ key row = k ∧ ∀ other ∈ rows, key other = k → id other ≤ id row := by
  induction rows using List.reverseRecOn generalizing row with
  | nil => cases h
  | append_singleton rows last ih =>
      rw [scan_concat, keepNewer] at h
      split_ifs at h with hnewer
      · obtain rfl := Option.some.inj h
        refine ⟨by simp, hnewer.1, fun other hother hkey => ?_⟩
        rcases List.mem_append.1 hother with hother | hother
        · cases hheld : scan id key rows k with
          | none => exact absurd hkey (scan_eq_none.1 hheld other hother)
          | some held => exact ((ih hheld).2.2 other hother hkey).trans (hnewer.2 held hheld).le
        · exact (List.mem_singleton.1 hother ▸ le_refl _)
      · obtain ⟨hmem, hkey, hmax⟩ := ih h
        refine ⟨List.mem_append_left _ hmem, hkey, fun other hother hother' => ?_⟩
        rcases List.mem_append.1 hother with hother | hother
        · exact hmax other hother hother'
        · obtain rfl := List.mem_singleton.1 hother
          by_contra hlt
          exact hnewer ⟨hother', fun held hheld => by rw [h] at hheld; cases hheld; omega⟩

/-- The rows met for `keys`, read a chunk of keys at a time. -/
def metRows (size : ℕ) (key : ρ → κ) (read : ρ → Option α) (rows : List ρ) (keys : List κ) :
    List ρ :=
  (chunks size keys).flatMap fun chunk =>
    rows.filter fun row => (read row).isSome && decide (key row ∈ chunk)

theorem mem_metRows {size : ℕ} (hsize : 0 < size) {keys : List κ} {row : ρ} :
    row ∈ metRows size key read rows keys ↔ row ∈ rows ∧ (read row).isSome ∧ key row ∈ keys := by
  rw [← exists_mem_chunks (l := keys) hsize]
  simp only [metRows, List.mem_flatMap, List.mem_filter, Bool.and_eq_true, decide_eq_true_eq]
  constructor
  · rintro ⟨chunk, hchunk, hrow, hread, hin⟩
    exact ⟨hrow, hread, chunk, hchunk, hin⟩
  · rintro ⟨hrow, hread, chunk, hchunk, hin⟩
    exact ⟨chunk, hchunk, hrow, hread, hin⟩

/-- What each of `keys` is read as. -/
def lookupNewest (size : ℕ) (id : ρ → ℕ) (key : ρ → κ) (read : ρ → Option α) (rows : List ρ)
    (keys : List κ) (k : κ) : Option α :=
  (scan id key (metRows size key read rows keys) k).bind read

/-- **The reader finds the newest row of every key it is asked for**, however the keys are cut. -/
theorem lookupNewest_eq {size : ℕ} (hsize : 0 < size)
    (hordered : rows.Pairwise fun a b => id a < id b) (keys : List κ) :
    lookupNewest size id key read rows keys k =
      if k ∈ keys then newest key read rows k else none := by
  rw [lookupNewest]
  cases hscan : scan id key (metRows size key read rows keys) k with
  | none =>
      have hnone := scan_eq_none.1 hscan
      split_ifs with hk
      · rw [newest, eq_comm, Option.bind_none, List.getLast?_eq_none_iff, List.filterMap_eq_nil_iff]
        intro row hrow
        rw [List.mem_filter, decide_eq_true_eq] at hrow
        by_contra hread
        refine hnone row ((mem_metRows hsize).2 ⟨hrow.1, ?_, hrow.2 ▸ hk⟩) hrow.2
        exact Option.isSome_iff_ne_none.2 hread
      · rfl
  | some row =>
      obtain ⟨hmem, hkey, hmax⟩ := scan_eq_some hscan
      obtain ⟨hrow, hread, hin⟩ := (mem_metRows hsize).1 hmem
      obtain ⟨value, hvalue⟩ := Option.isSome_iff_exists.1 hread
      rw [if_pos (hkey ▸ hin), Option.bind_some, hvalue]
      -- every row after `row` that could be read for the key would have a greater id
      obtain ⟨before, after, rfl⟩ := List.append_of_mem hrow
      have hafter : ∀ other ∈ after, key other = k → read other = none := by
        intro other hother hkey'
        by_contra hsome
        have hle := hmax other ((mem_metRows hsize).2 ⟨by simp [hother],
          Option.isSome_iff_ne_none.2 hsome, hkey'.trans hkey.symm ▸ hin⟩) hkey'
        have hlt := (List.pairwise_cons.1 (List.pairwise_append.1 hordered).2.1).1 other hother
        omega
      rw [show before ++ row :: after = (before ++ [row]) ++ after by simp,
        newest_append_of_forall hafter, newest_append, if_pos hkey, hvalue, Option.some_or]

end Scan

end NewestRows
