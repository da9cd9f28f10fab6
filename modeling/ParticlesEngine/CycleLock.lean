/-
**The lock of the consolidation cycle.**

One cycle runs at a time.  A caller opens the lock file without truncating it, takes the kernel's lock
on it, confirms that the path still names that file, reads the description that the last holder left
in it, and only then writes its own.  While it holds the lock it rewrites the description in place, a
few bytes at a time as the kernel takes them, from the cycle and from a heartbeat thread; at the end it
cuts the file to nothing and gives the lock back.  Any number of callers take these steps in any order,
any of them may die anywhere, and others may edit, replace or remove the file.

Main definitions:

* `Description`, `dumps`, `newDescription` — the JSON object that names the holder;
* `blocks` — the description of a holder that is to be taken as live although the lock was free;
* `Rewrite`, `OnTheWay` — an `_overwrite_description` that has begun, and the file that it has got to;
* `Phase`, `Move`, `callerStep` — a call of `acquire_cycle_lock`, the cycle under it, and
  `release_cycle_lock`, one system call after another;
* `step` — any caller moves, or the file is changed from outside.

Main results:

* `OnTheWay.write`, `OnTheWay.finish` — a write goes on, and what stands there at the end.
-/

import ParticlesEngine.JsonText
import ParticlesEngine.LockedFile
import ParticlesEngine.Runs
import Mathlib.Data.Int.Notation

set_option relaxedAutoImplicit false
set_option autoImplicit false

namespace ParticlesEngine
namespace CycleLock

open JsonText LockedFile

/-! ### The description of the holder -/

/-- The JSON object in the lock file, as the members that `acquire_cycle_lock` reads and writes. -/
structure Description where
  pid : Option ℤ
  startedAt : Option String
  host : Option String
  heartbeatAt : Option String
  lock : Option String
  pass : Option String
  passStartedAt : Option String
  deriving DecidableEq, Repr

/-- A member of a JSON object, when it is there. -/
def member (name : String) (value : Option (List Char)) : List (List Char) :=
  (value.map fun value => jsonString name ++ ": ".toList ++ value).toList

/-- `json.dumps(self.info)`: the members in the order in which the dictionary got them. -/
def dumps (info : Description) : List Char :=
  '{' :: (", ".toList).intercalate (
    member "pid" (info.pid.map fun pid => (toString pid).toList) ++
    member "started_at" (info.startedAt.map jsonString) ++
    member "host" (info.host.map jsonString) ++
    member "heartbeat_at" (info.heartbeatAt.map jsonString) ++
    member "lock" (info.lock.map jsonString) ++
    member "pass" (info.pass.map jsonString) ++
    member "pass_started_at" (info.passStartedAt.map jsonString)) ++ ['}']

/-- What a caller is given, and what it asks of Python: its process and host, the clock's texts, and
`json.loads`, where `none` is `ValueError` and `some none` is a value that is not an object. -/
structure Settings (ι : Type) where
  pid : ι → ℤ
  host : ι → String
  isoformat : ℤ → String
  fromisoformat : String → Option ℤ
  loads : List Char → Option (Option Description)
  /-- `timeout_minutes` -/
  timeout : ℤ
  /-- `heartbeat_stale_minutes` -/
  heartbeatStale : ℤ

/-- `_KERNEL_MARK`. -/
def kernelMark : String := "kernel"

/-- `_DESCRIPTION_READ_ATTEMPTS`. -/
def descriptionReadAttempts : ℕ := 5

/-- The passes of the loop in `acquire_cycle_lock`. -/
def acquireAttempts : ℕ := 2

/-- The characters that `bytes.strip` takes off. -/
def isSpace (c : Char) : Bool := c.toNat = 32 || (9 ≤ c.toNat && c.toNat ≤ 13)

section Judging

variable {ι : Type} (cfg : Settings ι)

/-- `_new_description(_KERNEL_MARK)`. -/
def newDescription (a : ι) (now : ℤ) : Description where
  pid := some (cfg.pid a)
  startedAt := some (cfg.isoformat now)
  host := some (cfg.host a)
  heartbeatAt := some (cfg.isoformat now)
  lock := some kernelMark
  pass := none
  passStartedAt := none

/-- `_legacy_live`: the process is alive and younger than the timeout. -/
def legacyLive (alive : ℤ → Bool) (now : ℤ) (data : Description) : Bool :=
  match data.pid with
  | none => false
  | some pid =>
    alive pid &&
      match data.startedAt.bind cfg.fromisoformat with
      | none => false
      | some started => decide (now - started ≤ cfg.timeout)

/-- A description for which the caller gives the lock back that it was given: of a holder that takes
no kernel lock and is live, or of one on another host whose heart still beats. -/
def blocks (a : ι) (alive : ℤ → Bool) (now : ℤ) (existing : Description) : Bool :=
  match existing.lock with
  | none => legacyLive cfg alive now existing
  | some _ =>
    existing.host ≠ none && existing.host ≠ some (cfg.host a) &&
      match existing.heartbeatAt.bind cfg.fromisoformat with
      | none => false
      | some beat => decide (now - beat ≤ cfg.heartbeatStale)

/-- What one pass of the loop of `_read_description` comes to. -/
inductive Reading where
  | settled (found : Option Description)
  | torn
  deriving DecidableEq

/-- One pass of the loop of `_read_description`. -/
def readOnce (raw : Option (List Char)) : Reading :=
  match raw with
  | none => .settled none
  | some raw =>
    if raw.all isSpace then .settled none
    else
      match cfg.loads raw with
      | none => .torn
      | some data => .settled data

/-- `_read_description` over a file that does not change: a text that stays malformed is none. -/
def readDescription (raw : Option (List Char)) : Option Description :=
  match readOnce cfg raw with
  | .settled found => found
  | .torn => none

end Judging

/-! ### Rewriting the description -/

/-- An `_overwrite_description` on its way: the new description, the size of the file when it began,
and how much of the padded text is written. -/
structure Rewrite where
  data : List Char
  size : ℕ
  offset : ℕ

namespace Rewrite

/-- `data.ljust(size)`. -/
def text (rewrite : Rewrite) : List Char :=
  rewrite.data ++ List.replicate (rewrite.size - rewrite.data.length) ' '

variable {ι : Type}

/-- One `os.write`, which takes as many bytes as it likes, but one at least. -/
def write (rewrite : Rewrite) (disk : Disk ι Char) (file count : ℕ) :
    Option (Disk ι Char × Rewrite) :=
  if 0 < count ∧ rewrite.offset + count ≤ rewrite.text.length then
    some (disk.setContent file (overlay (Char.ofNat 0) (disk.content file) rewrite.offset
        ((rewrite.text.drop rewrite.offset).take count)),
      { rewrite with offset := rewrite.offset + count })
  else none

/-- Once all is written, the file is cut to the size of the description. -/
def finish (rewrite : Rewrite) (disk : Disk ι Char) (file : ℕ) : Option (Disk ι Char) :=
  if rewrite.offset = rewrite.text.length then
    some (if rewrite.data.length < rewrite.size then
        disk.setContent file (resize (Char.ofNat 0) (disk.content file) rewrite.data.length)
      else disk)
  else none

end Rewrite

/-- `_overwrite_description` begins: it asks for the size, and goes to the start. -/
def startRewrite (content data : List Char) : Rewrite := ⟨data, content.length, 0⟩

section Rewriting

variable {ι : Type} {Old : List Char → Prop} {rewrite rewrite' : Rewrite} {disk disk' : Disk ι Char}
  {file count : ℕ}

/-- The path and the locks are those of another disk; only what the files hold may differ. -/
structure SameFiles (disk disk' : Disk ι Char) : Prop where
  named : disk'.named = disk.named
  next : disk'.next = disk.next
  owner : disk'.owner = disk.owner

theorem sameFiles_write (h : rewrite.write disk file count = some (disk', rewrite')) :
    SameFiles disk disk' := by
  unfold Rewrite.write at h
  split_ifs at h
  obtain ⟨rfl, rfl⟩ := Prod.mk.inj (Option.some.inj h)
  exact ⟨rfl, rfl, rfl⟩

theorem sameFiles_finish (h : rewrite.finish disk file = some disk') : SameFiles disk disk' := by
  unfold Rewrite.finish at h
  split_ifs at h <;> obtain rfl := Option.some.inj h <;> exact ⟨rfl, rfl, rfl⟩

/-- The file is the padded new text up to the offset, and an old text from there. -/
def OnTheWay (Old : List Char → Prop) (content : List Char) (rewrite : Rewrite) : Prop :=
  ∃ old, Old old ∧ rewrite.size = old.length ∧ rewrite.offset ≤ rewrite.text.length ∧
    content = mixed rewrite.text old rewrite.offset

theorem onTheWay_start {content data : List Char} (h : Old content) :
    OnTheWay Old content (startRewrite content data) :=
  ⟨content, h, rfl, Nat.zero_le _, rfl⟩

theorem size_le_length_text (rewrite : Rewrite) : rewrite.size ≤ rewrite.text.length := by
  rw [Rewrite.text, List.length_append, List.length_replicate]
  omega

theorem content_write_ne {other : ℕ} (h : rewrite.write disk file count = some (disk', rewrite'))
    (hother : other ≠ file) :
    disk'.content other = disk.content other := by
  unfold Rewrite.write at h
  split_ifs at h
  obtain ⟨rfl, rfl⟩ := Prod.mk.inj (Option.some.inj h)
  exact Function.update_of_ne hother ..

theorem content_finish_ne {other : ℕ} (h : rewrite.finish disk file = some disk')
    (hother : other ≠ file) : disk'.content other = disk.content other := by
  unfold Rewrite.finish at h
  split_ifs at h <;> obtain rfl := Option.some.inj h
  · exact Function.update_of_ne hother ..
  · rfl

/-- A write takes the rewrite further, with the data it had. -/
theorem OnTheWay.write (hway : OnTheWay Old (disk.content file) rewrite)
    (h : rewrite.write disk file count = some (disk', rewrite')) :
    rewrite'.data = rewrite.data ∧ OnTheWay Old (disk'.content file) rewrite' := by
  obtain ⟨old, hold, hsize, -, hcontent⟩ := hway
  unfold Rewrite.write at h
  split_ifs at h with hcount
  obtain ⟨rfl, rfl⟩ := Prod.mk.inj (Option.some.inj h)
  refine ⟨rfl, old, hold, hsize, hcount.2, ?_⟩
  rw [Disk.content_setContent, hcontent]
  exact overlay_step _ hcount.2

/-- **At the end the new description stands there, and nothing else.** -/
theorem OnTheWay.finish (hway : OnTheWay Old (disk.content file) rewrite)
    (h : rewrite.finish disk file = some disk') : disk'.content file = rewrite.data := by
  obtain ⟨old, hold, hsize, -, hcontent⟩ := hway
  have hwhole : mixed rewrite.text old rewrite.text.length = rewrite.text :=
    mixed_length (hsize ▸ size_le_length_text rewrite)
  unfold Rewrite.finish at h
  split_ifs at h with hoffset hsmaller <;> obtain rfl := Option.some.inj h
  · rw [Disk.content_setContent, hcontent, hoffset, hwhole, Rewrite.text, resize_of_le, List.take_left]
    rw [List.length_append]
    omega
  · rw [hcontent, hoffset, hwhole, Rewrite.text, Nat.sub_eq_zero_of_le (by omega)]
    exact List.append_nil _

end Rewriting

/-! ### One caller -/

/-- Where a caller stands. -/
inductive Phase where
  /-- at the top of the loop of `acquire_cycle_lock` -/
  | opening (attempt : ℕ)
  | opened (attempt file : ℕ)
  /-- the kernel gave it the lock, and `_fd_names_path` comes next -/
  | locked (attempt file : ℕ)
  /-- in `_read_description`, after so many torn reads -/
  | reading (file tries : ℕ)
  /-- in the first `write_description` -/
  | describing (file : ℕ) (info : Description) (rewrite : Rewrite)
  /-- the cycle runs: the texts that wait for the mutex of `write_description`, and the rewrite that
  has it -/
  | holding (file : ℕ) (info : Description) (waiting : List (List Char)) (rewrite : Option Rewrite)
  /-- in `release_cycle_lock`, after `os.ftruncate(fd, 0)` -/
  | emptied (file : ℕ) (waiting : List (List Char))
  /-- the lock is given back; a heartbeat that outlived the join goes by the path -/
  | released (waiting : List (List Char)) (late : Option (ℕ × Rewrite))
  /-- reading the description for the skip message -/
  | reporting (tries : ℕ)
  /-- `LockHeld`, with what the message is made of -/
  | skipped (data : Option Description)
  | crashed

/-- The steps of a caller. -/
inductive Move where
  | openFile
  | flock
  | confirm
  /-- a pass of `_read_description`, with the processes that are alive and the time for the judgement -/
  | read (alive : ℤ → Bool) (now : ℤ)
  | write (count : ℕ)
  | finish
  | setPass (name : String) (now : ℤ)
  | beat (now : ℤ)
  /-- a thread that waits gets the mutex -/
  | takeMutex (index : ℕ)
  | release
  | unlock
  | crash

section Steps

variable {ι : Type} [DecidableEq ι] (cfg : Settings ι)

/-- `set_pass`: the members of `info` that it assigns. -/
def withPass (info : Description) (name : String) (now : ℤ) : Description :=
  { info with
    pass := some name
    passStartedAt := some (cfg.isoformat now)
    heartbeatAt := some (cfg.isoformat now) }

/-- `beat`: the member of `info` that it assigns. -/
def withBeat (info : Description) (now : ℤ) : Description :=
  { info with heartbeatAt := some (cfg.isoformat now) }

/-- One step of the caller `a`; none where it does not have that step to take. -/
def callerStep (a : ι) (disk : Disk ι Char) : Phase → Move → Option (Disk ι Char × Phase)
  | .opening attempt, .openFile => some (disk.openPath.2, .opened attempt disk.openPath.1)
  | .opened attempt file, .flock =>
    match disk.owner file with
    | some _ => some (disk, .reporting 0)
    | none => some (disk.lock file a, .locked attempt file)
  | .locked attempt file, .confirm =>
    if disk.named = some file then some (disk, .reading file 0)
    else
      -- a rival replaced or removed the file between the open and the lock
      some (disk.unlock file,
        if attempt + 1 < acquireAttempts then .opening (attempt + 1) else .reporting 0)
  | .reading file tries, .read alive now =>
    if readOnce cfg disk.read = .torn ∧ tries + 1 < descriptionReadAttempts then
      some (disk, .reading file (tries + 1))
    else
      let existing := readDescription cfg disk.read
      if existing.any (blocks cfg a alive now) then some (disk.unlock file, .skipped existing)
      else
        let info := newDescription cfg a now
        some (disk, .describing file info (startRewrite (disk.content file) (dumps info)))
  | .describing file info rewrite, .write count =>
    (rewrite.write disk file count).map fun (disk, rewrite) => (disk, .describing file info rewrite)
  | .describing file info rewrite, .finish =>
    (rewrite.finish disk file).map fun disk => (disk, .holding file info [] none)
  | .holding file info waiting rewrite, .setPass name now =>
    let info := withPass cfg info name now
    some (disk, .holding file info (waiting ++ [dumps info]) rewrite)
  | .holding file info waiting rewrite, .beat now =>
    let info := withBeat cfg info now
    some (disk, .holding file info (waiting ++ [dumps info]) rewrite)
  | .holding file info waiting none, .takeMutex index =>
    waiting[index]?.map fun data =>
      (disk, .holding file info (waiting.eraseIdx index)
        (some (startRewrite (disk.content file) data)))
  | .holding file info waiting (some rewrite), .write count =>
    (rewrite.write disk file count).map fun (disk, rewrite) =>
      (disk, .holding file info waiting (some rewrite))
  | .holding file info waiting (some rewrite), .finish =>
    (rewrite.finish disk file).map fun disk => (disk, .holding file info waiting none)
  -- `release_cycle_lock` takes the mutex too
  | .holding file _ waiting none, .release => some (disk.setContent file [], .emptied file waiting)
  | .emptied file waiting, .unlock => some (disk.unlock file, .released waiting none)
  -- `write_description` without a descriptor opens the path
  | .released waiting none, .takeMutex index =>
    waiting[index]?.map fun data =>
      (disk.openPath.2, .released (waiting.eraseIdx index)
        (some (disk.openPath.1, startRewrite (disk.openPath.2.content disk.openPath.1) data)))
  | .released waiting (some (file, rewrite)), .write count =>
    (rewrite.write disk file count).map fun (disk, rewrite) =>
      (disk, .released waiting (some (file, rewrite)))
  | .released waiting (some (file, rewrite)), .finish =>
    (rewrite.finish disk file).map fun disk => (disk, .released waiting none)
  | .reporting tries, .read _ _ =>
    if readOnce cfg disk.read = .torn ∧ tries + 1 < descriptionReadAttempts then
      some (disk, .reporting (tries + 1))
    else some (disk, .skipped (readDescription cfg disk.read))
  | _, .crash => some (disk.release a, .crashed)
  | _, _ => none

/-! ### All callers -/

/-- The disk, and where every caller stands. -/
structure State (ι : Type) where
  disk : Disk ι Char
  phase : ι → Phase

/-- What others do to the path. -/
inductive World where
  | unlink
  | replace (bytes : List Char)
  | edit (bytes : List Char)

/-- What happens next. -/
inductive Action (ι : Type) where
  | caller (a : ι) (move : Move)
  | world (change : World)

/-- What becomes of the disk when it is changed from outside. -/
def worldStep (disk : Disk ι Char) : World → Disk ι Char
  | .unlink => disk.unlink
  | .replace bytes => disk.replace bytes
  | .edit bytes =>
    match disk.named with
    | some file => disk.setContent file bytes
    | none => disk

/-- One step of the whole. -/
def step (s : State ι) : Action ι → Option (State ι)
  | .caller a move =>
    (callerStep cfg a s.disk (s.phase a) move).map fun (disk, phase) =>
      ⟨disk, Function.update s.phase a phase⟩
  | .world change => some { s with disk := worldStep s.disk change }

end Steps

end CycleLock
end ParticlesEngine
