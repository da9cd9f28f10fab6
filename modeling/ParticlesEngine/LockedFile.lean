/-
**A lock file and its advisory lock.**

A path names a file, or none.  Whoever opens the path gets the file that it names then, and keeps that
file when the path is unlinked or replaced.  A file has one advisory lock, which the kernel gives to
one holder at a time, and takes back when the holder closes the file or dies.  This module names
nothing of a particular program.

Main definitions:

* `Disk` — the path, the files, and who holds which lock; `Disk.NamedLt`, what keeps new files new;
* `Disk.openPath`, `Disk.lock`, `Disk.release`, `Disk.setContent`, `Disk.replace`, `Disk.unlink` — the
  system calls;
* `resize`, `overlay` — what a cut, and a write at an offset, leave.

Main results:

* `Disk.content_openPath` — opening the path changes no file that there was;
* `overlay_step` — **a longer text written over a shorter one, in pieces of any lengths, is at each
  point the new text up to there and the old one from there**.
-/

import Mathlib.Logic.Function.Basic
import Mathlib.Data.List.Basic

set_option relaxedAutoImplicit false
set_option autoImplicit false

namespace LockedFile

/-! ### Files -/

/-- One path, the files it has named, and the holders `ι` of their locks. -/
structure Disk (ι β : Type) where
  /-- the file that the path names -/
  named : Option ℕ
  /-- the number of the next file to be created -/
  next : ℕ
  content : ℕ → List β
  owner : ℕ → Option ι

namespace Disk

variable {ι β : Type}

/-- No file that is yet to be created is named. -/
def NamedLt (disk : Disk ι β) : Prop := ∀ file, disk.named = some file → file < disk.next

/-- Create a file under the path, in the place of the one that it names. -/
def replace (disk : Disk ι β) (bytes : List β) : Disk ι β where
  named := some disk.next
  next := disk.next + 1
  content := Function.update disk.content disk.next bytes
  owner := disk.owner

/-- Remove the name; whoever has the file open keeps it. -/
def unlink (disk : Disk ι β) : Disk ι β := { disk with named := none }

/-- Open the path, and create an empty file when there is none. -/
def openPath (disk : Disk ι β) : ℕ × Disk ι β :=
  match disk.named with
  | some file => (file, disk)
  | none => (disk.next, disk.replace [])

/-- The holder is given the lock of a file. -/
def lock (disk : Disk ι β) (file : ℕ) (holder : ι) : Disk ι β :=
  { disk with owner := Function.update disk.owner file (some holder) }

/-- The lock of a file is given back. -/
def unlock (disk : Disk ι β) (file : ℕ) : Disk ι β :=
  { disk with owner := Function.update disk.owner file none }

/-- Whatever locks a holder has are taken back. -/
def release [DecidableEq ι] (disk : Disk ι β) (holder : ι) : Disk ι β :=
  { disk with owner := fun file => if disk.owner file = some holder then none else disk.owner file }

/-- What a file holds becomes `bytes`. -/
def setContent (disk : Disk ι β) (file : ℕ) (bytes : List β) : Disk ι β :=
  { disk with content := Function.update disk.content file bytes }

/-- The bytes that the path reads as. -/
def read (disk : Disk ι β) : Option (List β) := disk.named.map disk.content

@[simp] theorem named_setContent (disk : Disk ι β) (file : ℕ) (bytes : List β) :
    (disk.setContent file bytes).named = disk.named := rfl

@[simp] theorem owner_setContent (disk : Disk ι β) (file : ℕ) (bytes : List β) :
    (disk.setContent file bytes).owner = disk.owner := rfl

@[simp] theorem content_setContent (disk : Disk ι β) (file : ℕ) (bytes : List β) :
    (disk.setContent file bytes).content file = bytes := Function.update_self ..

@[simp] theorem named_lock (disk : Disk ι β) (file : ℕ) (holder : ι) :
    (disk.lock file holder).named = disk.named := rfl

@[simp] theorem owner_lock (disk : Disk ι β) (file : ℕ) (holder : ι) :
    (disk.lock file holder).owner file = some holder := Function.update_self ..

@[simp] theorem named_unlock (disk : Disk ι β) (file : ℕ) :
    (disk.unlock file).named = disk.named := rfl

@[simp] theorem owner_unlock (disk : Disk ι β) (file : ℕ) : (disk.unlock file).owner file = none :=
  Function.update_self ..

theorem owner_lock_ne (disk : Disk ι β) {file other : ℕ} (holder : ι) (h : other ≠ file) :
    (disk.lock file holder).owner other = disk.owner other := Function.update_of_ne h ..

theorem owner_unlock_ne (disk : Disk ι β) {file other : ℕ} (h : other ≠ file) :
    (disk.unlock file).owner other = disk.owner other := Function.update_of_ne h ..

theorem owner_release_of_ne [DecidableEq ι] (disk : Disk ι β) {holder other : ι} {file : ℕ}
    (h : other ≠ holder) (howner : disk.owner file = some other) :
    (disk.release holder).owner file = some other := by
  have hne : disk.owner file ≠ some holder := fun heq => h (Option.some.inj (howner.symm.trans heq))
  exact (if_neg hne).trans howner

theorem owner_of_release [DecidableEq ι] (disk : Disk ι β) {holder other : ι} {file : ℕ}
    (h : (disk.release holder).owner file = some other) :
    disk.owner file = some other ∧ other ≠ holder := by
  unfold release at h
  dsimp only at h
  split_ifs at h with howner
  refine ⟨h, fun heq => howner ?_⟩
  rw [h, heq]

/-! ### Opening -/

theorem NamedLt.openPath {disk : Disk ι β} (h : disk.NamedLt) :
    disk.openPath.2.NamedLt := by
  unfold Disk.openPath
  cases hnamed : disk.named with
  | some file => exact h
  | none =>
      intro file hfile
      obtain rfl := Option.some.inj hfile
      exact Nat.lt_succ_self _

@[simp] theorem named_openPath (disk : Disk ι β) :
    disk.openPath.2.named = some disk.openPath.1 := by
  unfold openPath
  cases hnamed : disk.named with
  | some file => exact hnamed
  | none => rfl

@[simp] theorem owner_openPath (disk : Disk ι β) : disk.openPath.2.owner = disk.owner := by
  unfold openPath
  cases disk.named <;> rfl

theorem named_openPath_of_some {disk : Disk ι β} {file : ℕ} (h : disk.named = some file) :
    disk.openPath.2.named = some file := by
  unfold openPath
  rw [h]
  exact h

/-- Opening changes no file that there was. -/
theorem content_openPath {disk : Disk ι β} {file : ℕ} (h : file < disk.next) :
    disk.openPath.2.content file = disk.content file := by
  unfold openPath
  cases disk.named with
  | some named => rfl
  | none => exact Function.update_of_ne (Nat.ne_of_lt h) ..

end Disk

/-! ### Writing over a text -/

variable {β : Type}

/-- A text that is cut, or filled up with zeros, to a length. -/
def resize (zero : β) (text : List β) (length : ℕ) : List β :=
  text.take length ++ List.replicate (length - text.length) zero

/-- What a write of `piece` at an offset leaves of a file. -/
def overlay (zero : β) (old : List β) (offset : ℕ) (piece : List β) : List β :=
  resize zero old offset ++ piece ++ old.drop (offset + piece.length)

/-- No zeros are filled in where the text is long enough. -/
theorem resize_of_le (zero : β) {text : List β} {length : ℕ} (h : length ≤ text.length) :
    resize zero text length = text.take length := by
  rw [resize, Nat.sub_eq_zero_of_le h, List.replicate_zero, List.append_nil]

/-- A text, after it was written over an old one up to an offset. -/
def mixed (new old : List β) (offset : ℕ) : List β := new.take offset ++ old.drop offset

@[simp] theorem mixed_zero (new old : List β) : mixed new old 0 = old := rfl

/-- **A write goes on from where the last one stopped, whatever its length.** -/
theorem overlay_step (zero : β) {new old : List β} {offset count : ℕ}
    (hcount : offset + count ≤ new.length) :
    overlay zero (mixed new old offset) offset ((new.drop offset).take count) =
      mixed new old (offset + count) := by
  have hoffset : (new.take offset).length = offset := by
    rw [List.length_take]
    omega
  have hpiece : ((new.drop offset).take count).length = count := by
    rw [List.length_take, List.length_drop]
    omega
  have hbefore : resize zero (mixed new old offset) offset = new.take offset := by
    have hle : offset ≤ (mixed new old offset).length := by
      rw [mixed, List.length_append]
      omega
    rw [resize_of_le zero hle, mixed, List.take_append_of_le_length (by omega),
      List.take_of_length_le (by omega)]
  have hafter : (mixed new old offset).drop (offset + count) = old.drop (offset + count) := by
    rw [mixed, List.drop_append, hoffset, List.drop_eq_nil_of_le (by omega), List.nil_append,
      List.drop_drop]
    congr 1
    omega
  rw [overlay, hpiece, hbefore, hafter, mixed, List.take_add]

/-- The new text is there once it is written to its end, if it covers the old one. -/
theorem mixed_length {new old : List β} (hlength : old.length ≤ new.length) :
    mixed new old new.length = new := by
  rw [mixed, List.take_length, List.drop_eq_nil_of_le hlength, List.append_nil]

/-- A file that is written over never gets shorter. -/
theorem length_mixed {new old : List β} {offset : ℕ} (hoffset : offset ≤ new.length) : old.length ≤ (mixed new old offset).length := by
  rw [mixed, List.length_append, List.length_take, List.length_drop]
  omega

/-- The first byte of a file that is written over is the first of one of the two texts. -/
theorem head?_mixed {new old : List β} {offset : ℕ} (hnew : new ≠ []) :
    (mixed new old offset).head? = if offset = 0 then old.head? else new.head? := by
  cases offset with
  | zero => rfl
  | succ offset =>
      cases new with
      | nil => exact absurd rfl hnew
      | cons b new => rfl

end LockedFile
