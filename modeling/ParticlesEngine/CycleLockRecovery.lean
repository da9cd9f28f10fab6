/-
**A free lock is taken.**

The kernel gives a lock back when its holder dies, wherever that was: before the description was
written, in the middle of a rewrite, or after the file was cut to nothing.  So from any state that a run
comes to, whatever the callers in it did and however they ended, a caller that finds no lock taken and
is left alone enters, and leaves its own description in the file.  Only a description of a holder that
takes no kernel lock and is live, or of one on another host whose heart still beats, sends it away.

Main definitions:

* `Acquires` — the moves of `acquire_cycle_lock`, the description written in pieces of any size;
* `OnCourse` — where a caller is that found no lock taken, and what the disk is then;
* `movesLeft` — how many moves it has left at most.

Main results:

* `OnCourse.step`, `OnCourse.next` — each move goes on, and there is one until it has come to an end;
* `free_lock_is_taken` — **what a caller comes to that finds no lock taken**, whatever was before.
-/

import ParticlesEngine.CycleLockSafety

set_option relaxedAutoImplicit false
set_option autoImplicit false

namespace ParticlesEngine
namespace CycleLock

open LockedFile Runs

variable {ι : Type} [DecidableEq ι]

/-! ### A caller that acquires the lock -/

/-- The moves of a call of `acquire_cycle_lock`, for the processes that are alive and the time. -/
def Acquires (alive : ℤ → Bool) (now : ℤ) : Move → Prop
  | .openFile | .flock | .confirm | .write _ | .finish => True
  | .read alive' now' => alive' = alive ∧ now' = now
  | _ => False

section Course

variable (cfg : Settings ι) (a : ι) (alive : ℤ → Bool) (now : ℤ) (disk : Disk ι Char)

/-- The disk once the caller has the lock of the file that it opened. -/
def taken : Disk ι Char := disk.openPath.2.lock disk.openPath.1 a

/-- The description that it finds sends it away. -/
def blocked : Bool := (readDescription cfg disk.read).any (blocks cfg a alive now)

/-- The rewrite of the description that it begins. -/
def firstRewrite : Rewrite :=
  startRewrite ((taken a disk).content disk.openPath.1) (dumps (newDescription cfg a now))

/-- Where a caller is that found no lock taken and that nobody disturbs, and what the disk is then. -/
inductive OnCourse : Disk ι Char → Phase → Prop
  | opening : OnCourse disk (.opening 0)
  | opened : OnCourse disk.openPath.2 (.opened 0 disk.openPath.1)
  | locked : OnCourse (taken a disk) (.locked 0 disk.openPath.1)
  | reading (tries : ℕ) (htries : tries < descriptionReadAttempts) :
      OnCourse (taken a disk) (.reading disk.openPath.1 tries)
  | describing (disk' : Disk ι Char) (rewrite : Rewrite) (hblocked : blocked cfg a alive now disk = false)
      (hnamed : disk'.named = some disk.openPath.1)
      (hway : OnTheWay (fun _ => True) (disk'.content disk.openPath.1) rewrite)
      (hdata : rewrite.data = dumps (newDescription cfg a now)) :
      OnCourse disk' (.describing disk.openPath.1 (newDescription cfg a now) rewrite)
  | holding (disk' : Disk ι Char) (hblocked : blocked cfg a alive now disk = false)
      (hread : disk'.read = some (dumps (newDescription cfg a now))) :
      OnCourse disk' (.holding disk.openPath.1 (newDescription cfg a now) [] none)
  | skipped (hblocked : blocked cfg a alive now disk = true) :
      OnCourse ((taken a disk).unlock disk.openPath.1) (.skipped (readDescription cfg disk.read))

/-- How many moves the caller has left at most, when it writes a text of a given length. -/
def movesLeft (length : ℕ) : Phase → ℕ
  | .opening _ => length + 9
  | .opened .. => length + 8
  | .locked .. => length + 7
  | .reading _ tries => length + 6 - tries
  | .describing _ _ rewrite => rewrite.text.length - rewrite.offset + 1
  | _ => 0

end Course

variable {cfg : Settings ι} {a : ι} {alive : ℤ → Bool} {now : ℤ} {disk disk' disk'' : Disk ι Char}
  {phase phase' : Phase}

omit [DecidableEq ι] in
/-- The path reads the same after it was opened, but that no file has become an empty one. -/
theorem readDescription_openPath (disk : Disk ι Char) :
    readDescription cfg disk.openPath.2.read = readDescription cfg disk.read := by
  unfold Disk.openPath
  cases hnamed : disk.named with
  | some file => rfl
  | none =>
      have hbefore : disk.read = none := by rw [Disk.read, hnamed]; rfl
      have hafter : (disk.replace []).read = some [] := by
        rw [Disk.read]
        exact congrArg some (Function.update_self ..)
      rw [hbefore, hafter]
      rfl

omit [DecidableEq ι] in
/-- What it reads under the lock is what was there. -/
theorem readDescription_taken (disk : Disk ι Char) :
    readDescription cfg (taken a disk).read = readDescription cfg disk.read :=
  readDescription_openPath disk

/-- The read under the lock: it tries again, is sent away, or begins to describe itself. -/
theorem OnCourse.read {tries : ℕ} (htries : tries < descriptionReadAttempts)
    (hstep : callerStep cfg a (taken a disk) (.reading disk.openPath.1 tries) (.read alive now) =
      some (disk', phase')) :
    OnCourse cfg a alive now disk disk' phase' ∧
      movesLeft (firstRewrite cfg a now disk).text.length phase' <
        movesLeft (firstRewrite cfg a now disk).text.length (.reading disk.openPath.1 tries) := by
  have hlt : tries < 5 := htries
  unfold callerStep at hstep
  dsimp only at hstep
  rw [readDescription_taken] at hstep
  split_ifs at hstep with hagain hblocks <;> obtain ⟨rfl, rfl⟩ := Prod.mk.inj (Option.some.inj hstep)
  · refine ⟨.reading _ hagain.2, ?_⟩
    simp only [movesLeft]
    omega
  · refine ⟨.skipped hblocks, ?_⟩
    simp only [movesLeft]
    omega
  · refine ⟨.describing _ _ (Bool.eq_false_iff.2 hblocks) (Disk.named_openPath disk)
      (onTheWay_start trivial) rfl, ?_⟩
    change (firstRewrite cfg a now disk).text.length - 0 + 1 < _
    simp only [movesLeft]
    omega

/-- A piece of the description that is written. -/
theorem OnCourse.write {rewrite : Rewrite} {count : ℕ} (hblocked : blocked cfg a alive now disk = false)
    (hnamed : disk'.named = some disk.openPath.1)
    (hway : OnTheWay (fun _ => True) (disk'.content disk.openPath.1) rewrite)
    (hdata : rewrite.data = dumps (newDescription cfg a now))
    (hstep : callerStep cfg a disk' (.describing disk.openPath.1 (newDescription cfg a now) rewrite)
      (.write count) = some (disk'', phase')) :
    OnCourse cfg a alive now disk disk'' phase' ∧ ∀ length, movesLeft length phase' <
      movesLeft length (.describing disk.openPath.1 (newDescription cfg a now) rewrite) := by
  obtain ⟨⟨disk₁, rewrite₁⟩, hwrite, heq⟩ := Option.map_eq_some_iff.1 hstep
  obtain ⟨rfl, rfl⟩ := Prod.mk.inj heq
  obtain ⟨hsame, hway'⟩ := hway.write hwrite
  refine ⟨.describing _ _ hblocked ((sameFiles_write hwrite).named.trans hnamed) hway'
    (hsame.trans hdata), fun length => ?_⟩
  unfold Rewrite.write at hwrite
  split_ifs at hwrite with hcount
  obtain ⟨-, rfl⟩ := Prod.mk.inj (Option.some.inj hwrite)
  change rewrite.text.length - (rewrite.offset + count) + 1 < rewrite.text.length - rewrite.offset + 1
  omega

/-- **Each move goes on.** -/
theorem OnCourse.step (h : OnCourse cfg a alive now disk disk' phase)
    (hfree : ∀ file, disk.owner file = none) {move : Move} (hmove : Acquires alive now move)
    (hstep : callerStep cfg a disk' phase move = some (disk'', phase')) :
    OnCourse cfg a alive now disk disk'' phase' ∧
      movesLeft (firstRewrite cfg a now disk).text.length phase' <
        movesLeft (firstRewrite cfg a now disk).text.length phase := by
  cases h with
  | opening =>
      cases move with
      | openFile =>
          obtain ⟨rfl, rfl⟩ := Prod.mk.inj (Option.some.inj hstep)
          exact ⟨.opened, Nat.lt_succ_self _⟩
      | crash => exact hmove.elim
      | _ => simp [callerStep] at hstep
  | opened =>
      cases move with
      | flock =>
          have howner : disk.openPath.2.owner disk.openPath.1 = none := by
            rw [Disk.owner_openPath]
            exact hfree _
          unfold callerStep at hstep
          dsimp only at hstep
          rw [howner] at hstep
          obtain ⟨rfl, rfl⟩ := Prod.mk.inj (Option.some.inj hstep)
          exact ⟨.locked, Nat.lt_succ_self _⟩
      | crash => exact hmove.elim
      | _ => simp [callerStep] at hstep
  | locked =>
      cases move with
      | confirm =>
          have hnamed : (taken a disk).named = some disk.openPath.1 := Disk.named_openPath disk
          unfold callerStep at hstep
          dsimp only at hstep
          rw [if_pos hnamed] at hstep
          obtain ⟨rfl, rfl⟩ := Prod.mk.inj (Option.some.inj hstep)
          exact ⟨.reading 0 (by decide), Nat.lt_succ_self _⟩
      | crash => exact hmove.elim
      | _ => simp [callerStep] at hstep
  | reading tries htries =>
      cases move with
      | read alive' now' =>
          obtain ⟨rfl, rfl⟩ := hmove
          exact OnCourse.read htries hstep
      | crash => exact hmove.elim
      | _ => simp [callerStep] at hstep
  | describing _ rewrite hblocked hnamed hway hdata =>
      cases move with
      | write count =>
          obtain ⟨hcourse, hlt⟩ := OnCourse.write hblocked hnamed hway hdata hstep
          exact ⟨hcourse, hlt _⟩
      | finish =>
          obtain ⟨disk₁, hfinish, heq⟩ := Option.map_eq_some_iff.1 hstep
          obtain ⟨rfl, rfl⟩ := Prod.mk.inj heq
          refine ⟨.holding _ hblocked ?_, Nat.succ_pos _⟩
          rw [Disk.read, (sameFiles_finish hfinish).named, hnamed, Option.map_some, hway.finish hfinish,
            hdata]
      | crash => exact hmove.elim
      | _ => simp [callerStep] at hstep
  | holding =>
      cases move with
      | setPass => exact hmove.elim
      | beat => exact hmove.elim
      | takeMutex => exact hmove.elim
      | release => exact hmove.elim
      | crash => exact hmove.elim
      | _ => simp [callerStep] at hstep
  | skipped =>
      cases move with
      | crash => exact hmove.elim
      | _ => simp [callerStep] at hstep

/-- **And there is one, until the caller has come to an end.** -/
theorem OnCourse.next (h : OnCourse cfg a alive now disk disk' phase)
    (hleft : movesLeft (firstRewrite cfg a now disk).text.length phase ≠ 0) :
    ∃ move, Acquires alive now move ∧ (callerStep cfg a disk' phase move).isSome = true := by
  cases h with
  | opening => exact ⟨.openFile, trivial, rfl⟩
  | opened =>
      refine ⟨.flock, trivial, ?_⟩
      unfold callerStep
      dsimp only
      split <;> rfl
  | locked =>
      refine ⟨.confirm, trivial, ?_⟩
      unfold callerStep
      dsimp only
      split_ifs <;> rfl
  | reading tries =>
      refine ⟨.read alive now, ⟨rfl, rfl⟩, ?_⟩
      unfold callerStep
      dsimp only
      split_ifs <;> rfl
  | describing _ rewrite _ _ hway =>
      obtain ⟨-, -, -, hoffset, -⟩ := hway
      rcases Nat.eq_or_lt_of_le hoffset with hall | hmore
      · refine ⟨.finish, trivial, ?_⟩
        simp [callerStep, Rewrite.finish, hall]
      · refine ⟨.write 1, trivial, ?_⟩
        have hone : 0 < 1 ∧ rewrite.offset + 1 ≤ rewrite.text.length := ⟨Nat.one_pos, hmore⟩
        simp [callerStep, Rewrite.write, hone]
  | holding => exact absurd rfl hleft
  | skipped => exact absurd rfl hleft

/-! ### Taking a free lock -/

/-- The caller goes on acquiring the lock, and nothing else moves. -/
def AcquiresAlone (a : ι) (alive : ℤ → Bool) (now : ℤ) : Action ι → Prop
  | .caller b move => b = a ∧ Acquires alive now move
  | .world _ => False

/-- A step of the whole in which the caller goes on acquiring the lock. -/
theorem OnCourse.step_alone {v v' : State ι} {action : Action ι}
    (h : OnCourse cfg a alive now disk v.disk (v.phase a)) (hfree : ∀ file, disk.owner file = none)
    (haction : AcquiresAlone a alive now action) (hstep : CycleLock.step cfg v action = some v') :
    OnCourse cfg a alive now disk v'.disk (v'.phase a) ∧
      movesLeft (firstRewrite cfg a now disk).text.length (v'.phase a) <
        movesLeft (firstRewrite cfg a now disk).text.length (v.phase a) := by
  cases action with
  | world => exact haction.elim
  | caller b move =>
      obtain ⟨rfl, hmove⟩ := haction
      obtain ⟨⟨disk', phase'⟩, hcaller, rfl⟩ := Option.map_eq_some_iff.1 hstep
      dsimp only
      rw [Function.update_self]
      exact h.step hfree hmove hcaller

/-- There is one, until the caller has come to an end. -/
theorem OnCourse.next_alone {v : State ι} (h : OnCourse cfg a alive now disk v.disk (v.phase a))
    (hleft : movesLeft (firstRewrite cfg a now disk).text.length (v.phase a) ≠ 0) :
    ∃ action v', AcquiresAlone a alive now action ∧ CycleLock.step cfg v action = some v' := by
  obtain ⟨move, hmove, hsome⟩ := h.next hleft
  obtain ⟨result, hcaller⟩ := Option.isSome_iff_exists.1 hsome
  exact ⟨.caller a move, _, ⟨rfl, hmove⟩, Option.map_eq_some_iff.2 ⟨result, hcaller, rfl⟩⟩

/-- What a caller comes to: it is sent away and the lock is free, or it has the lock and is described. -/
def Settled (cfg : Settings ι) (a : ι) (alive : ℤ → Bool) (now : ℤ) (disk : Disk ι Char) (u : State ι) :
    Prop :=
  if blocked cfg a alive now disk then
    u.phase a = .skipped (readDescription cfg disk.read) ∧ ∀ file, u.disk.owner file = none
  else
    (∃ file, u.phase a = .holding file (newDescription cfg a now) [] none) ∧
      u.disk.read = some (dumps (newDescription cfg a now))

omit [DecidableEq ι] in
/-- With no moves left the caller has come to it. -/
theorem OnCourse.settled {u : State ι} (h : OnCourse cfg a alive now disk u.disk (u.phase a))
    (hfree : ∀ file, disk.owner file = none)
    (hleft : movesLeft (firstRewrite cfg a now disk).text.length (u.phase a) = 0) :
    Settled cfg a alive now disk u := by
  unfold Settled
  generalize u.disk = disk', u.phase a = phase at h hleft ⊢
  cases h with
  | opening => cases hleft
  | opened => cases hleft
  | locked => cases hleft
  | reading tries htries =>
      have hlt : tries < 5 := htries
      simp only [movesLeft] at hleft
      omega
  | describing => cases hleft
  | holding _ hblocked hread =>
      rw [if_neg (Bool.eq_false_iff.1 hblocked)]
      exact ⟨⟨_, rfl⟩, hread⟩
  | skipped hblocked =>
      rw [if_pos hblocked]
      refine ⟨rfl, fun other => ?_⟩
      by_cases hother : other = disk.openPath.1
      · rw [hother, Disk.owner_unlock]
      · rw [Disk.owner_unlock_ne _ hother, taken, Disk.owner_lock_ne _ a hother, Disk.owner_openPath, hfree]

omit [DecidableEq ι] in
/-- The text that is written is as long as the description, or as what was in the file. -/
theorem length_firstRewrite (disk : Disk ι Char) :
    (firstRewrite cfg a now disk).text.length =
      max (dumps (newDescription cfg a now)).length (disk.read.getD []).length := by
  have hcontent : (taken a disk).content disk.openPath.1 = disk.read.getD [] := by
    unfold taken Disk.openPath Disk.read
    cases disk.named with
    | some file => rfl
    | none => exact Function.update_self ..
  have htext : (firstRewrite cfg a now disk).text.length =
      (dumps (newDescription cfg a now)).length +
        ((disk.read.getD []).length - (dumps (newDescription cfg a now)).length) := by
    rw [← hcontent, Rewrite.text, List.length_append, List.length_replicate]
    rfl
  omega

/-- **A free lock is taken, however those who had it ended.**  In whatever pieces the caller writes its
description: its moves are bounded, and where they stop it has come to an end. -/
theorem free_lock_is_taken {s t u : State ι} (hs : Initial s) {actions : List (Action ι)}
    (hrun : run (step cfg) s actions = some t) (hfree : ∀ b, (t.phase b).lockedFile = none)
    (ha : t.phase a = .opening 0) (alive : ℤ → Bool) (now : ℤ) {moves : List (Action ι)}
    (hmoves : ∀ action ∈ moves, AcquiresAlone a alive now action) (hu : run (step cfg) t moves = some u) :
    moves.length ≤ max (dumps (newDescription cfg a now)).length (t.disk.read.getD []).length + 9 ∧
      ∃ (more : List (Action ι)) (v : State ι), (∀ action ∈ more, AcquiresAlone a alive now action) ∧
        run (step cfg) u more = some v ∧ Settled cfg a alive now t.disk v := by
  have howner : ∀ file, t.disk.owner file = none := by
    intro file
    by_contra hsome
    obtain ⟨b, hb⟩ := Option.ne_none_iff_exists'.1 hsome
    rw [(owner_along hs hrun) b file, hfree b] at hb
    cases hb
  let Course (v : State ι) : Prop := OnCourse cfg a alive now t.disk v.disk (v.phase a)
  let left (v : State ι) : ℕ := movesLeft (firstRewrite cfg a now t.disk).text.length (v.phase a)
  have hstart : Course t := by
    change OnCourse cfg a alive now t.disk t.disk (t.phase a)
    rw [ha]
    exact .opening
  have hstep : ∀ v action v', Course v → AcquiresAlone a alive now action →
      step cfg v action = some v' → Course v' ∧ left v' < left v :=
    fun _ _ _ hv haction hv' => hv.step_alone howner haction hv'
  have hnext : ∀ v, Course v → left v ≠ 0 →
      ∃ action v', AcquiresAlone a alive now action ∧ step cfg v action = some v' :=
    fun _ hv hleft => hv.next_alone hleft
  obtain ⟨hcourse, hbound⟩ := run_bounded Course _ left hstep hmoves hstart hu
  constructor
  · have htotal : left t = (firstRewrite cfg a now t.disk).text.length + 9 := by
      change movesLeft _ (t.phase a) = _
      rw [ha]
      rfl
    rw [htotal, length_firstRewrite] at hbound
    omega
  · obtain ⟨more, v, hmore, hv, hend, hzero⟩ := exists_run_down Course _ left hstep hnext hcourse
    exact ⟨more, v, hmore, hv, hend.settled howner hzero⟩

/-- The first caller dies with five bytes of its description written. -/
def diesWriting : List (Action ℕ) :=
  [.caller 0 .openFile, .caller 0 .flock, .caller 0 .confirm, .caller 0 (.read (fun _ => true) 7),
    .caller 0 (.write 5), .caller 0 .crash]

/-- The second one has taken the lock and written three bytes of its own. -/
def writesThree : List (Action ℕ) :=
  [.caller 1 .openFile, .caller 1 .flock, .caller 1 .confirm] ++
    List.replicate 5 (.caller 1 (.read (fun _ => true) 9)) ++ [.caller 1 (.write 3)]

set_option maxRecDepth 4000 in
theorem torn_description_replaced :
    ∃ t u, run (step plainSettings) noLockFile diesWriting = some t ∧
      run (step plainSettings) t writesThree = some u ∧
        ∃ (more : List (Action ℕ)) (v : State ℕ), run (step plainSettings) u more = some v ∧
          ∃ file, v.phase 1 = .holding file (newDescription plainSettings 1 9) [] none := by
  have hinitial : Initial noLockFile := ⟨fun _ => rfl, fun _ => rfl, fun file h => by cases h⟩
  obtain ⟨t, hrun⟩ : ∃ t, run (step plainSettings) noLockFile diesWriting = some t := ⟨_, rfl⟩
  have hfree : ∀ b, (t.phase b).lockedFile = none := by
    intro b
    obtain rfl := Option.some.inj hrun
    cases b <;> rfl
  have hwaits : t.phase 1 = .opening 0 := by
    obtain rfl := Option.some.inj hrun
    rfl
  have hblocked : blocked plainSettings 1 (fun _ => true) 9 t.disk = false := by
    obtain rfl := Option.some.inj hrun
    rfl
  have hmoves : ∀ action ∈ writesThree, AcquiresAlone 1 (fun _ => true) 9 action := by
    intro action haction
    simp only [writesThree, List.replicate, List.cons_append, List.nil_append, List.mem_cons,
      List.not_mem_nil, or_false] at haction
    rcases haction with rfl | rfl | rfl | rfl | rfl | rfl | rfl | rfl | rfl <;>
      simp [AcquiresAlone, Acquires]
  obtain ⟨u, hwritten⟩ : ∃ u, run (step plainSettings) t writesThree = some u := by
    obtain rfl := Option.some.inj hrun
    exact ⟨_, rfl⟩
  obtain ⟨-, more, v, -, hrun', hresult⟩ :=
    free_lock_is_taken hinitial hrun hfree hwaits (fun _ => true) 9 hmoves hwritten
  rw [Settled, hblocked] at hresult
  exact ⟨t, u, hrun, hwritten, more, v, hrun', hresult.1⟩

end CycleLock
end ParticlesEngine
