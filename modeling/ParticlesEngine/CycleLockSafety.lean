/-
**One consolidation cycle at a time.**

A caller enters once it has the kernel's lock on a file and has seen that the path still names it; it
leaves when it gives the lock back, or dies.  The kernel's lock alone does not keep two callers apart,
for the path may name another file by then.  The confirmation does: as long as nobody removes or
replaces a file while its lock is taken, every caller that has entered is under the one named file.

Main definitions:

* `Phase.lockedFile`, `Phase.entered` — the file whose lock a caller has, and the one it has confirmed;
* `Initial` — nobody has begun and no lock is taken, whatever the path names and the file holds;
* `SparesLocked` — a step that does not take a locked file from under the path.

Main results:

* `callerStep_cases` — what a step of a caller does to the locks;
* `owner_along` — **after every run the kernel's locks are those of the callers that have one**;
* `one_cycle_at_a_time` — **no two callers have entered**.
-/

import ParticlesEngine.CycleLock

set_option relaxedAutoImplicit false
set_option autoImplicit false

namespace ParticlesEngine
namespace CycleLock

open LockedFile Runs

/-! ### Who has which lock -/

/-- The file that a caller has confirmed under the path, with its lock. -/
def Phase.entered : Phase → Option ℕ
  | .reading file _ | .describing file _ _ | .holding file _ _ _ | .emptied file _ => some file
  | _ => none

/-- The file whose lock a caller has. -/
def Phase.lockedFile : Phase → Option ℕ
  | .locked _ file => some file
  | phase => phase.entered

theorem Phase.lockedFile_of_entered {phase : Phase} {file : ℕ} (h : phase.entered = some file) :
    phase.lockedFile = some file := by
  cases phase <;> first | exact h | cases h

variable {ι : Type} [DecidableEq ι] {cfg : Settings ι}

/-- What a step does to the locks: nothing, or it takes a free one, or gives its own back, or dies. -/
inductive LockStep (a : ι) (disk disk' : Disk ι Char) (phase phase' : Phase) : Prop where
  | same (howner : disk'.owner = disk.owner) (hlocked : phase'.lockedFile = phase.lockedFile)
      (hnamed : ∀ file, disk.named = some file → disk'.named = some file)
      (hlt : disk.NamedLt → disk'.NamedLt)
      (hentered : ∀ file, phase'.entered = some file →
        phase.entered = some file ∨ disk.named = some file)
  | took (file : ℕ) (hfree : disk.owner file = none) (hbefore : phase.lockedFile = none)
      (hdisk : disk' = disk.lock file a) (hafter : phase'.lockedFile = some file)
      (hentered : phase'.entered = none)
  | gave (file : ℕ) (hbefore : phase.lockedFile = some file) (hdisk : disk' = disk.unlock file)
      (hafter : phase'.lockedFile = none)
  | died (hdisk : disk' = disk.release a) (hafter : phase'.lockedFile = none)

/-- A step that leaves the locks, the path and the file that the caller has as they are. -/
theorem LockStep.of_same {a : ι} {disk disk' : Disk ι Char} {phase phase' : Phase}
    (hdisk : SameFiles disk disk') (hlocked : phase'.lockedFile = phase.lockedFile)
    (hentered : phase'.entered = phase.entered) : LockStep a disk disk' phase phase' := by
  refine .same hdisk.owner hlocked (fun _ hfile => hdisk.named.trans hfile) ?_ fun _ hfile =>
    .inl (hentered.symm.trans hfile)
  intro hlt file hfile
  rw [hdisk.next]
  exact hlt file (hdisk.named.symm.trans hfile)

/-- A step that only opens the path. -/
theorem LockStep.of_open {a : ι} {disk : Disk ι Char} {phase phase' : Phase}
    (hlocked : phase'.lockedFile = phase.lockedFile) (hentered : phase'.entered = phase.entered) :
    LockStep a disk disk.openPath.2 phase phase' :=
  .same (Disk.owner_openPath disk) hlocked (fun _ hfile => Disk.named_openPath_of_some hfile)
    Disk.NamedLt.openPath fun _ hfile => .inl (hentered.symm.trans hfile)

theorem callerStep_cases {a : ι} {disk disk' : Disk ι Char} {phase phase' : Phase} {move : Move}
    (h : callerStep cfg a disk phase move = some (disk', phase')) :
    LockStep a disk disk' phase phase' := by
  unfold callerStep at h
  split at h
  case h_1 =>
    obtain ⟨rfl, rfl⟩ := Prod.mk.inj (Option.some.inj h)
    exact .of_open rfl rfl
  case h_2 =>
    split at h <;> obtain ⟨rfl, rfl⟩ := Prod.mk.inj (Option.some.inj h)
    · exact .of_same ⟨rfl, rfl, rfl⟩ rfl rfl
    · exact .took _ ‹_› rfl rfl rfl rfl
  case h_3 =>
    split_ifs at h with hnamed hagain <;> obtain ⟨rfl, rfl⟩ := Prod.mk.inj (Option.some.inj h)
    · refine .same rfl rfl (fun _ hfile => hfile) id fun file hfile => ?_
      obtain rfl := Option.some.inj hfile
      exact .inr hnamed
    · exact .gave _ rfl rfl rfl
    · exact .gave _ rfl rfl rfl
  case h_4 =>
    dsimp only at h
    split_ifs at h <;> obtain ⟨rfl, rfl⟩ := Prod.mk.inj (Option.some.inj h)
    · exact .of_same ⟨rfl, rfl, rfl⟩ rfl rfl
    · exact .gave _ rfl rfl rfl
    · exact .of_same ⟨rfl, rfl, rfl⟩ rfl rfl
  case h_5 | h_10 | h_15 =>
    obtain ⟨⟨disk₁, rewrite₁⟩, hwrite, heq⟩ := Option.map_eq_some_iff.1 h
    obtain ⟨rfl, rfl⟩ := Prod.mk.inj heq
    exact .of_same (sameFiles_write hwrite) rfl rfl
  case h_6 | h_11 | h_16 =>
    obtain ⟨disk₁, hfinish, heq⟩ := Option.map_eq_some_iff.1 h
    obtain ⟨rfl, rfl⟩ := Prod.mk.inj heq
    exact .of_same (sameFiles_finish hfinish) rfl rfl
  case h_7 | h_8 | h_12 =>
    obtain ⟨rfl, rfl⟩ := Prod.mk.inj (Option.some.inj h)
    exact .of_same ⟨rfl, rfl, rfl⟩ rfl rfl
  case h_9 =>
    obtain ⟨data, -, heq⟩ := Option.map_eq_some_iff.1 h
    obtain ⟨rfl, rfl⟩ := Prod.mk.inj heq
    exact .of_same ⟨rfl, rfl, rfl⟩ rfl rfl
  case h_13 =>
    obtain ⟨rfl, rfl⟩ := Prod.mk.inj (Option.some.inj h)
    exact .gave _ rfl rfl rfl
  case h_14 =>
    obtain ⟨data, -, heq⟩ := Option.map_eq_some_iff.1 h
    obtain ⟨rfl, rfl⟩ := Prod.mk.inj heq
    exact .of_open rfl rfl
  case h_17 =>
    split_ifs at h <;> obtain ⟨rfl, rfl⟩ := Prod.mk.inj (Option.some.inj h) <;>
      exact .of_same ⟨rfl, rfl, rfl⟩ rfl rfl
  case h_18 =>
    obtain ⟨rfl, rfl⟩ := Prod.mk.inj (Option.some.inj h)
    exact .died rfl rfl
  case h_19 => cases h

/-! ### The kernel's account -/

/-- The kernel's locks are those of the callers that have one. -/
def OwnerIff (s : State ι) : Prop :=
  ∀ a file, s.disk.owner file = some a ↔ (s.phase a).lockedFile = some file

/-- What a step of one caller does to the locks, it does to its own. -/
theorem OwnerIff.callerStep {s : State ι} (hs : OwnerIff s) {a : ι} {disk' : Disk ι Char}
    {phase' : Phase} (h : LockStep a s.disk disk' (s.phase a) phase') :
    OwnerIff ⟨disk', Function.update s.phase a phase'⟩ := by
  intro b file
  dsimp only
  by_cases hb : b = a
  · subst hb
    rw [Function.update_self]
    cases h with
    | same howner hlocked => rw [howner, hlocked, hs b file]
    | took taken hfree hbefore hdisk hafter _ =>
        rw [hdisk, hafter]
        by_cases hfile : file = taken
        · simp [hfile]
        · rw [Disk.owner_lock_ne s.disk b hfile, hs b file, hbefore]
          simp [Ne.symm hfile]
    | gave given hbefore hdisk hafter =>
        rw [hdisk, hafter]
        by_cases hfile : file = given
        · simp [hfile]
        · rw [Disk.owner_unlock_ne s.disk hfile, hs b file, hbefore]
          simp [Ne.symm hfile]
    | died hdisk hafter =>
        rw [hdisk, hafter]
        refine iff_of_false (fun howner => (Disk.owner_of_release s.disk howner).2 rfl) ?_
        intro hfile
        cases hfile
  · rw [Function.update_of_ne hb]
    cases h with
    | same howner => rw [howner, hs b file]
    | took taken hfree hbefore hdisk hafter _ =>
        rw [hdisk]
        by_cases hfile : file = taken
        · rw [hfile, Disk.owner_lock]
          refine iff_of_false (fun heq => hb (Option.some.inj heq).symm) fun hlocked => ?_
          rw [← hs b taken, hfree] at hlocked
          cases hlocked
        · rw [Disk.owner_lock_ne s.disk a hfile, hs b file]
    | gave given hbefore hdisk _ =>
        rw [hdisk]
        by_cases hfile : file = given
        · rw [hfile, Disk.owner_unlock]
          refine iff_of_false (fun heq => by cases heq) fun hlocked => hb ?_
          rw [← hs b given, (hs a given).2 hbefore] at hlocked
          exact (Option.some.inj hlocked).symm
        · rw [Disk.owner_unlock_ne s.disk hfile, hs b file]
    | died hdisk _ =>
        rw [hdisk, ← hs b file]
        exact ⟨fun howner => (Disk.owner_of_release s.disk howner).1,
          Disk.owner_release_of_ne s.disk hb⟩

/-- A step of the whole is a step of one caller, or a change from outside. -/
theorem step_cases {s t : State ι} {action : Action ι} (h : step cfg s action = some t) :
    (∃ a move disk' phase', action = .caller a move ∧
        CycleLock.callerStep cfg a s.disk (s.phase a) move = some (disk', phase') ∧
        t = ⟨disk', Function.update s.phase a phase'⟩) ∨
      ∃ change, action = .world change ∧ t = { s with disk := worldStep s.disk change } := by
  cases action with
  | caller a move =>
      obtain ⟨⟨disk', phase'⟩, hmove, rfl⟩ := Option.map_eq_some_iff.1 h
      exact .inl ⟨a, move, disk', phase', rfl, hmove, rfl⟩
  | world change => exact .inr ⟨change, rfl, (Option.some.inj h).symm⟩

omit [DecidableEq ι] in
theorem owner_worldStep (disk : Disk ι Char) (change : World) :
    (worldStep disk change).owner = disk.owner := by
  cases change with
  | unlink => rfl
  | replace bytes => rfl
  | edit bytes =>
      unfold worldStep
      dsimp only
      cases disk.named <;> rfl

theorem OwnerIff.step {s t : State ι} {action : Action ι} (hs : OwnerIff s)
    (h : step cfg s action = some t) : OwnerIff t := by
  rcases step_cases h with ⟨a, move, disk', phase', -, hmove, rfl⟩ | ⟨change, -, rfl⟩
  · exact hs.callerStep (callerStep_cases hmove)
  · intro b file
    rw [owner_worldStep]
    exact hs b file

/-- Nobody has begun, no lock is taken, and no file that is yet to be created is named. -/
structure Initial (s : State ι) : Prop where
  phase_eq : ∀ a, s.phase a = .opening 0
  owner_eq : ∀ file, s.disk.owner file = none
  named_lt : s.disk.NamedLt

/-- **After every run the kernel's locks are those of the callers that have one.** -/
theorem owner_along {s t : State ι} (hs : Initial s) {actions : List (Action ι)}
    (hrun : run (step cfg) s actions = some t) : OwnerIff t := by
  refine run_invariant OwnerIff (fun _ _ _ hinv => hinv.step) ?_ hrun
  intro a file
  rw [hs.owner_eq, hs.phase_eq]
  exact iff_of_false (fun h => by cases h) fun h => by cases h

/-! ### One at a time -/

/-- A step that does not take a locked file from under the path. -/
def SparesLocked (s : State ι) : Action ι → Prop
  | .world .unlink | .world (.replace _) =>
    ∀ file, s.disk.named = some file → s.disk.owner file = none
  | _ => True

/-- The callers that have entered have, each of them, the file that the path names. -/
structure EnteredNamed (s : State ι) : Prop where
  owner_iff : OwnerIff s
  named : ∀ a file, (s.phase a).entered = some file → s.disk.named = some file

theorem EnteredNamed.step {s t : State ι} {action : Action ι} (hs : EnteredNamed s)
    (hspares : SparesLocked s action) (h : step cfg s action = some t) : EnteredNamed t where
  owner_iff := hs.owner_iff.step h
  named := by
    rcases step_cases h with ⟨a, move, disk', phase', -, hmove, rfl⟩ | ⟨change, rfl, rfl⟩
    · have hcases := callerStep_cases hmove
      have hkeeps : ∀ file, s.disk.named = some file → disk'.named = some file := by
        intro file hfile
        cases hcases with
        | same _ _ hnamed _ _ => exact hnamed file hfile
        | took _ _ _ hdisk _ _ => rw [hdisk]; exact hfile
        | gave _ _ hdisk _ => rw [hdisk]; exact hfile
        | died hdisk _ => rw [hdisk]; exact hfile
      intro b file hentered
      refine hkeeps file ?_
      dsimp only at hentered
      by_cases hb : b = a
      · subst hb
        rw [Function.update_self] at hentered
        cases hcases with
        | same _ _ _ _ hback => exact (hback file hentered).elim (hs.named b file) id
        | took _ _ _ _ _ hnone => exact absurd (hnone.symm.trans hentered) (by simp)
        | gave _ _ _ hafter =>
            exact absurd (hafter.symm.trans (Phase.lockedFile_of_entered hentered)) (by simp)
        | died _ hafter =>
            exact absurd (hafter.symm.trans (Phase.lockedFile_of_entered hentered)) (by simp)
      · rw [Function.update_of_ne hb] at hentered
        exact hs.named b file hentered
    · intro b file hentered
      have hnamed := hs.named b file hentered
      have howner := (hs.owner_iff b file).2 (Phase.lockedFile_of_entered hentered)
      -- the path names a locked file, which is not to be taken away
      have hlocked : ¬∀ file, s.disk.named = some file → s.disk.owner file = none := by
        intro hfree
        rw [hfree file hnamed] at howner
        cases howner
      cases change with
      | unlink => exact absurd hspares hlocked
      | replace bytes => exact absurd hspares hlocked
      | edit bytes =>
          unfold worldStep
          dsimp only
          rw [hnamed]
          exact hnamed

theorem enteredNamed_along {s t : State ι} (hs : Initial s) {actions : List (Action ι)}
    (hspares : StepsMeet (step cfg) SparesLocked s actions)
    (hrun : run (step cfg) s actions = some t) : EnteredNamed t := by
  refine hspares.invariant EnteredNamed (fun _ _ _ hinv hmeets => hinv.step hmeets) ?_
    (List.append_nil actions).symm hrun
  have hstart : run (step cfg) s [] = some s := rfl
  refine ⟨owner_along hs hstart, fun a file hentered => ?_⟩
  rw [hs.phase_eq] at hentered
  cases hentered

/-- **One cycle at a time.** -/
theorem one_cycle_at_a_time {s t : State ι} (hs : Initial s) {actions : List (Action ι)}
    (hspares : StepsMeet (step cfg) SparesLocked s actions)
    (hrun : run (step cfg) s actions = some t) {a b : ι} (hne : b ≠ a)
    (ha : (t.phase a).entered.isSome) : (t.phase b).entered = none := by
  have hinv := enteredNamed_along hs hspares hrun
  obtain ⟨file, hfile⟩ := Option.isSome_iff_exists.1 ha
  cases hother : (t.phase b).entered with
  | none => rfl
  | some other =>
      have hsame : other = file :=
        Option.some.inj ((hinv.named b other hother).symm.trans (hinv.named a file hfile))
      have howner := (hinv.owner_iff a file).2 (Phase.lockedFile_of_entered hfile)
      have howner' := (hinv.owner_iff b other).2 (Phase.lockedFile_of_entered hother)
      rw [hsame, howner] at howner'
      exact absurd (Option.some.inj howner').symm hne

/-- Settings with the process's number for the host and the clock. -/
def plainSettings : Settings ℕ where
  pid a := a
  host _ := "workstation"
  isoformat now := toString now
  fromisoformat text := text.toInt?
  loads _ := none
  timeout := 120
  heartbeatStale := 10

/-- No caller has begun, and there is no lock file. -/
def noLockFile : State ℕ := ⟨⟨none, 0, fun _ => [], fun _ => none⟩, fun _ => .opening 0⟩

/-- The first caller opens a file that is replaced before it is locked; the second enters. -/
def replacedUnderneath : List (Action ℕ) :=
  [.caller 0 .openFile, .world (.replace []), .caller 0 .flock, .caller 1 .openFile,
    .caller 1 .flock, .caller 0 .confirm, .caller 1 .confirm, .caller 0 .openFile, .caller 0 .flock]

theorem rival_kept_out :
    ∃ t, run (step plainSettings) noLockFile replacedUnderneath = some t ∧
      (t.phase 1).entered.isSome ∧ (t.phase 0).entered = none := by
  have hinitial : Initial noLockFile := ⟨fun _ => rfl, fun _ => rfl, fun file h => by cases h⟩
  have hspares : StepsMeet (step plainSettings) SparesLocked noLockFile replacedUnderneath := by
    refine stepsMeet_cons.2 ⟨trivial, fun s hs => ?_⟩
    obtain rfl := Option.some.inj hs
    refine stepsMeet_cons.2 ⟨fun file _ => rfl, fun s hs => ?_⟩
    intro before action after s' hactions _
    have hcaller : ∀ action ∈ replacedUnderneath.drop 2, ∃ a move, action = .caller a move := by
      simp [replacedUnderneath]
    obtain ⟨a, move, rfl⟩ := hcaller action (by
      rw [show replacedUnderneath.drop 2 = before ++ action :: after from hactions]
      simp)
    trivial
  exact ⟨_, rfl, rfl, one_cycle_at_a_time hinitial hspares rfl Nat.zero_ne_one rfl⟩

end CycleLock
end ParticlesEngine
