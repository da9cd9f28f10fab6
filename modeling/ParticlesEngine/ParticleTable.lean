/-
**The `particles` table.**

The rows of the `particles` table with what its schema guarantees: the id is a primary key, and two
rows never share their rowid.  That no id is empty the schema does not guarantee; it is assumed here,
for the ids are UUIDs and the empty id stands for the first entry of the change journal.  Every write of
a single row is one of three: an insert, an update (which may change any column, the id included, but not
the rowid) and a deletion.

Main definitions:

* `ParticleTable` — the rows and their constraints;
* `ParticleTable.insert?`, `ParticleTable.update?`, `ParticleTable.delete` — the writes, refused
  when they would break a constraint;
* `ParticleTable.modify` — an update that keeps the id.

Main results:

* `ParticleTable.get?_insert?`, `ParticleTable.get?_update?`, `ParticleTable.get?_delete` — a
  write changes the row of the ids it names and no other.
-/

import ParticlesEngine.Table
import ParticlesEngine.Schema

set_option relaxedAutoImplicit false
set_option autoImplicit false

namespace ParticlesEngine

/-- The rows of `particles`. -/
structure ParticleTable where
  table : Table ParticleRow.id
  /-- a rowid names one row -/
  rowids : (table.rows.map ParticleRow.rowid).Nodup
  /-- an assumption about the ids, which are UUIDs -/
  ids : ∀ row ∈ table.rows, row.id ≠ ""

namespace ParticleTable

/-- The rows, in rowid order. -/
def rows (t : ParticleTable) : List ParticleRow := t.table.rows

/-- The row with a given id. -/
def get? (t : ParticleTable) (id : String) : Option ParticleRow := t.table.get? id

@[ext] theorem ext {t u : ParticleTable} (h : t.rows = u.rows) : t = u := by
  cases t; cases u
  simp only [mk.injEq]
  exact Table.ext h

instance : DecidableEq ParticleTable := fun t u =>
  decidable_of_iff (t.rows = u.rows) ⟨ext, fun h => h ▸ rfl⟩

/-- The empty table. -/
def empty : ParticleTable := ⟨.empty, List.nodup_nil, by simp⟩

@[simp] theorem rows_empty : empty.rows = [] := rfl

@[simp] theorem get?_empty (id : String) : empty.get? id = none := rfl

theorem get?_eq_some {t : ParticleTable} {id : String} {row : ParticleRow} :
    t.get? id = some row ↔ row ∈ t.rows ∧ row.id = id := Table.get?_eq_some

theorem get?_eq_none {t : ParticleTable} {id : String} :
    t.get? id = none ↔ ∀ row ∈ t.rows, row.id ≠ id := Table.get?_eq_none

theorem get?_id {t : ParticleTable} {row : ParticleRow} (h : row ∈ t.rows) :
    t.get? row.id = some row := Table.get?_key h

theorem id_of_get? {t : ParticleTable} {id : String} {row : ParticleRow}
    (h : t.get? id = some row) : row.id = id := Table.key_of_get? h

theorem ne_empty_of_get? {t : ParticleTable} {id : String} {row : ParticleRow}
    (h : t.get? id = some row) : id ≠ "" := by
  obtain ⟨hmem, rfl⟩ := get?_eq_some.1 h
  exact t.ids row hmem

@[simp] theorem get?_empty_id (t : ParticleTable) : t.get? "" = none := by
  cases h : t.get? "" with
  | none => rfl
  | some row => exact absurd rfl (ne_empty_of_get? h)

theorem eq_of_rowid_eq {t : ParticleTable} {row row' : ParticleRow} (h : row ∈ t.rows)
    (h' : row' ∈ t.rows) (heq : row.rowid = row'.rowid) : row = row' :=
  List.inj_on_of_nodup_map t.rowids h h' heq

/-! ### Insertion -/

/-- Insert a row under its own id and rowid. -/
def insert? (t : ParticleTable) (row : ParticleRow) : Option ParticleTable :=
  if h : row.id ∉ t.rows.map ParticleRow.id ∧ row.rowid ∉ t.rows.map ParticleRow.rowid ∧
      row.id ≠ "" then
    some {
      table := ⟨t.rows ++ [row], by
        rw [List.map_append, List.nodup_append']
        exact ⟨t.table.nodup, by simp, by simpa [List.disjoint_singleton] using h.1⟩⟩
      rowids := by
        rw [List.map_append, List.nodup_append']
        exact ⟨t.rowids, by simp, by simpa [List.disjoint_singleton] using h.2.1⟩
      ids := by
        intro r hr
        rcases List.mem_append.1 hr with hr | hr
        · exact t.ids r hr
        · obtain rfl := List.mem_singleton.1 hr
          exact h.2.2 }
  else none

theorem insert?_eq_some {t u : ParticleTable} {row : ParticleRow} (h : t.insert? row = some u) :
    t.get? row.id = none ∧ row.id ≠ "" ∧ u.rows = t.rows ++ [row] := by
  unfold insert? at h
  split_ifs at h with hc
  obtain rfl := Option.some.inj h
  refine ⟨get?_eq_none.2 fun r hr heq => hc.1 (List.mem_map.2 ⟨r, hr, heq⟩), hc.2.2, rfl⟩

/-- The rowid SQLite gives the next row. -/
def nextRowid (t : ParticleTable) : ℕ := (t.rows.map ParticleRow.rowid).foldr max 0 + 1

/-- **After an insert the new id reads the new row, and every other id reads as before.** -/
theorem get?_insert? {t u : ParticleTable} {row : ParticleRow} (h : t.insert? row = some u)
    (id : String) : u.get? id = if row.id = id then some row else t.get? id := by
  obtain ⟨hnone, -, hrows⟩ := insert?_eq_some h
  exact Table.get?_insert? (Table.insert?_eq_some.2 ⟨hnone, hrows⟩) id

/-! ### Update -/

/-- Rewrite the row with id `id` as `new`, under the rowid the row has. -/
def update? (t : ParticleTable) (id : String) (new : ParticleRow) : Option ParticleTable :=
  if h : (∀ row ∈ t.rows, row.id = new.id → row.id = id) ∧ new.id ≠ "" then
    some {
      table := ⟨t.rows.map fun row => if row.id = id then new.atRowid row.rowid else row,
        by
          rw [List.map_map]
          refine List.Nodup.map_on ?_ t.table.nodup.of_map
          intro r hr r' hr' heq
          by_cases h1 : r.id = id <;> by_cases h2 : r'.id = id
          · exact Table.eq_of_key_eq hr hr' (h1.trans h2.symm)
          · have : r'.id = new.id := by simpa [h1, h2] using heq.symm
            exact absurd (h.1 r' hr' this) h2
          · have : r.id = new.id := by simpa [h1, h2] using heq
            exact absurd (h.1 r hr this) h1
          · exact Table.eq_of_key_eq hr hr' (by simpa [h1, h2] using heq)⟩
      rowids := by
        have hrowids : (t.rows.map fun row =>
            if row.id = id then new.atRowid row.rowid else row).map ParticleRow.rowid
              = t.rows.map ParticleRow.rowid := by
          rw [List.map_map]
          refine List.map_congr_left fun r _ => ?_
          by_cases hr : r.id = id <;> simp [hr]
        rw [hrowids]
        exact t.rowids
      ids := by
        intro r hr
        obtain ⟨r₀, hr₀, rfl⟩ := List.mem_map.1 hr
        by_cases h1 : r₀.id = id
        · simpa [h1] using h.2
        · simpa [h1] using t.ids r₀ hr₀ }
  else none

theorem mem_rows_update? {t u : ParticleTable} {id : String} {new : ParticleRow}
    (h : t.update? id new = some u) {row : ParticleRow} :
    row ∈ u.rows ↔ ∃ r₀ ∈ t.rows,
      (if r₀.id = id then new.atRowid r₀.rowid else r₀) = row := by
  unfold update? at h
  split_ifs at h
  obtain rfl := Option.some.inj h
  simp [rows]

/-- An update may not take the id of another row. -/
theorem id_of_update? {t u : ParticleTable} {id : String} {new row : ParticleRow}
    (h : t.update? id new = some u) (hrow : row ∈ t.rows) (hnew : row.id = new.id) :
    row.id = id := by
  unfold update? at h
  split_ifs at h with hc
  exact hc.1 row hrow hnew

/-- **An update changes nothing at an id other than the old and the new one.** -/
theorem get?_update?_ne {t u : ParticleTable} {id : String} {new : ParticleRow}
    (h : t.update? id new = some u) {k : String} (hold : k ≠ id) (hnew : k ≠ new.id) :
    u.get? k = t.get? k := by
  cases hget : t.get? k with
  | none =>
      rw [get?_eq_none] at hget ⊢
      intro r hr
      obtain ⟨r₀, hr₀, rfl⟩ := (mem_rows_update? h).1 hr
      by_cases hr₀' : r₀.id = id
      · simpa [hr₀'] using hnew.symm
      · simpa [hr₀'] using hget r₀ hr₀
  | some r₀ =>
      obtain ⟨hmem, rfl⟩ := get?_eq_some.1 hget
      rw [get?_eq_some]
      exact ⟨(mem_rows_update? h).2 ⟨r₀, hmem, by simp [hold]⟩, rfl⟩

/-! ### Deletion -/

/-- Delete the row with id `id`. -/
def delete (t : ParticleTable) (id : String) : ParticleTable where
  table := t.table.filter fun row => row.id ≠ id
  rowids := (List.filter_sublist.map _).nodup t.rowids
  ids := fun row hrow => t.ids row (List.mem_filter.1 hrow).1

theorem get?_delete (t : ParticleTable) (id k : String) :
    (t.delete id).get? k = if id = k then none else t.get? k :=
  Table.get?_filter_key_ne t.table id k

/-- Delete the rows with the given ids. -/
def deleteAll (t : ParticleTable) (ids : List String) : ParticleTable where
  table := t.table.filter fun row => row.id ∉ ids
  rowids := (List.filter_sublist.map _).nodup t.rowids
  ids := fun row hrow => t.ids row (List.mem_filter.1 hrow).1

theorem get?_deleteAll (t : ParticleTable) (ids : List String) (k : String) :
    (t.deleteAll ids).get? k = if k ∈ ids then none else t.get? k := by
  have hget : (t.deleteAll ids).get? k = if decide (k ∉ ids) then t.get? k else none :=
    Table.get?_filter_key t.table (fun id => decide (id ∉ ids)) k
  rw [hget]
  by_cases hk : k ∈ ids <;> simp [hk]

/-! ### In-place updates -/

/-- Update in place the row with id `id`, keeping its id and rowid. -/
def modify (t : ParticleTable) (id : String) (f : ParticleRow → ParticleRow)
    (hid : ∀ row, (f row).id = row.id) (hrowid : ∀ row, (f row).rowid = row.rowid) :
    ParticleTable where
  table := t.table.modify id f hid
  rowids := by
    have h : (t.table.modify id f hid).rows.map ParticleRow.rowid
        = t.table.rows.map ParticleRow.rowid := by
      simp only [Table.modify, List.map_map]
      refine List.map_congr_left fun r _ => ?_
      by_cases hr : r.id = id <;> simp [hr, hrowid]
    rw [h]
    exact t.rowids
  ids := by
    intro row hrow
    obtain ⟨r₀, hr₀, rfl⟩ := Table.mem_rows_modify.1 hrow
    by_cases h : r₀.id = id <;> simp only [h, if_true, if_false, hid] <;>
      exact fun heq => t.ids r₀ hr₀ (by simpa [h] using heq)

/-- **An in-place update changes the row with its id and no other.** -/
theorem get?_modify (t : ParticleTable) (id : String) (f : ParticleRow → ParticleRow)
    (hid : ∀ row, (f row).id = row.id) (hrowid : ∀ row, (f row).rowid = row.rowid) (k : String) :
    (t.modify id f hid hrowid).get? k = if id = k then (t.get? k).map f else t.get? k :=
  Table.get?_modify t.table id f hid k

/-- Update in place every row, keeping its id and rowid. -/
def modifyAll (t : ParticleTable) (f : ParticleRow → ParticleRow)
    (hid : ∀ row, (f row).id = row.id) (hrowid : ∀ row, (f row).rowid = row.rowid) :
    ParticleTable where
  table := t.table.mapRows f hid
  rowids := by
    have h : (t.table.rows.map f).map ParticleRow.rowid = t.table.rows.map ParticleRow.rowid := by
      rw [List.map_map]
      exact List.map_congr_left fun row _ => hrowid row
    rw [Table.rows_mapRows, h]
    exact t.rowids
  ids := by
    intro row hrow
    obtain ⟨r₀, hr₀, rfl⟩ := List.mem_map.1 hrow
    rw [hid]
    exact t.ids r₀ hr₀

theorem get?_modifyAll (t : ParticleTable) (f : ParticleRow → ParticleRow)
    (hid : ∀ row, (f row).id = row.id) (hrowid : ∀ row, (f row).rowid = row.rowid) (k : String) :
    (t.modifyAll f hid hrowid).get? k = (t.get? k).map f :=
  Table.get?_mapRows t.table f hid k

end ParticleTable

end ParticlesEngine
