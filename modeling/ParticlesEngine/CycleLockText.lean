/-
**A held lock file always reads as its holder's.**

The holder rewrites its description in place while others read the file, and a file that reads as empty
is an unheld lock.  So the new text goes over the old one from the front, padded to its length, and the
file is cut only when all of it is there.  At each point the file is the front of one description of
the holder and the rest of another: it is never empty, never shorter than a whole description, and
between two rewrites it is exactly one.

Main definitions:

* `Describes` — a description that names a caller as holder;
* `Undisturbed` — a step that does not touch a locked file from outside, and does not give the lock
  back while the heartbeat still has something to write.

Main results:

* `Legible.step` — what the description in memory and the file of every caller are, step after step;
* `description_whole` — **while a caller holds the lock, the path reads as its description**.
-/

import ParticlesEngine.CycleLockSafety

set_option relaxedAutoImplicit false
set_option autoImplicit false

namespace ParticlesEngine
namespace CycleLock

open LockedFile Runs

/-! ### What the file of a holder reads as -/

variable {ι : Type} [DecidableEq ι] {cfg : Settings ι}

/-- A description that names the caller as the holder of the kernel's lock. -/
def Describes (cfg : Settings ι) (a : ι) (info : Description) : Prop :=
  info.pid = some (cfg.pid a) ∧ info.host = some (cfg.host a) ∧ info.lock = some kernelMark

/-- The text of a description that names the caller. -/
def Mine (cfg : Settings ι) (a : ι) (data : List Char) : Prop :=
  ∃ info, Describes cfg a info ∧ data = dumps info

/-- The file of a holder is one description, or on its way from one to another. -/
def FileText (cfg : Settings ι) (a : ι) (content : List Char) : Option Rewrite → Prop
  | none => Mine cfg a content
  | some rewrite => Mine cfg a rewrite.data ∧ OnTheWay (Mine cfg a) content rewrite

/-- What the description in memory and the file of a caller are, phase by phase. -/
def PhaseText (cfg : Settings ι) (a : ι) (disk : Disk ι Char) : Phase → Prop
  | .describing file info rewrite =>
    Describes cfg a info ∧ rewrite.data = dumps info ∧
      OnTheWay (fun _ => True) (disk.content file) rewrite
  | .holding file info waiting rewrite =>
    Describes cfg a info ∧ (∀ data ∈ waiting, Mine cfg a data) ∧
      FileText cfg a (disk.content file) rewrite
  | .emptied _ waiting => waiting = []
  | .released waiting late => waiting = [] ∧ late = none
  | _ => True

omit [DecidableEq ι] in
theorem describes_newDescription (a : ι) (now : ℤ) : Describes cfg a (newDescription cfg a now) :=
  ⟨rfl, rfl, rfl⟩

omit [DecidableEq ι] in
/-- The phase of a caller is only about the file that it has entered. -/
theorem PhaseText.congr {a : ι} {disk disk' : Disk ι Char} {phase : Phase}
    (h : PhaseText cfg a disk phase)
    (hsame : ∀ file, phase.entered = some file → disk'.content file = disk.content file) :
    PhaseText cfg a disk' phase := by
  cases phase with
  | describing file info rewrite =>
      obtain ⟨hinfo, hdata, hway⟩ := h
      exact ⟨hinfo, hdata, (hsame file rfl).symm ▸ hway⟩
  | holding file info waiting rewrite =>
      obtain ⟨hinfo, hwaiting, hfile⟩ := h
      exact ⟨hinfo, hwaiting, (hsame file rfl).symm ▸ hfile⟩
  | _ => exact h

/-- A step of the caller changes no file but the one that it has entered, and new ones. -/
theorem content_callerStep {a : ι} {disk disk' : Disk ι Char} {phase phase' : Phase} {move : Move}
    (htext : PhaseText cfg a disk phase)
    (h : callerStep cfg a disk phase move = some (disk', phase')) {other : ℕ}
    (hother : phase.entered ≠ some other) (hlt : other < disk.next) :
    disk'.content other = disk.content other := by
  unfold callerStep at h
  split at h
  case h_1 =>
    obtain ⟨rfl, rfl⟩ := Prod.mk.inj (Option.some.inj h)
    exact Disk.content_openPath hlt
  case h_2 => split at h <;> obtain ⟨rfl, rfl⟩ := Prod.mk.inj (Option.some.inj h) <;> rfl
  case h_3 => split_ifs at h <;> obtain ⟨rfl, rfl⟩ := Prod.mk.inj (Option.some.inj h) <;> rfl
  case h_4 =>
    dsimp only at h
    split_ifs at h <;> obtain ⟨rfl, rfl⟩ := Prod.mk.inj (Option.some.inj h) <;> rfl
  case h_5 | h_10 =>
    obtain ⟨⟨disk₁, rewrite₁⟩, hwrite, heq⟩ := Option.map_eq_some_iff.1 h
    obtain ⟨rfl, rfl⟩ := Prod.mk.inj heq
    exact content_write_ne hwrite fun heq => hother (congrArg some heq.symm)
  case h_6 | h_11 =>
    obtain ⟨disk₁, hfinish, heq⟩ := Option.map_eq_some_iff.1 h
    obtain ⟨rfl, rfl⟩ := Prod.mk.inj heq
    exact content_finish_ne hfinish fun heq => hother (congrArg some heq.symm)
  case h_7 | h_8 | h_13 | h_18 =>
    obtain ⟨rfl, rfl⟩ := Prod.mk.inj (Option.some.inj h)
    rfl
  case h_9 =>
    obtain ⟨data, -, heq⟩ := Option.map_eq_some_iff.1 h
    obtain ⟨rfl, rfl⟩ := Prod.mk.inj heq
    rfl
  case h_12 =>
    obtain ⟨rfl, rfl⟩ := Prod.mk.inj (Option.some.inj h)
    exact Function.update_of_ne (fun heq => hother (congrArg some heq.symm)) ..
  case h_14 =>
    -- the heartbeat has stopped, so nobody goes by the path
    obtain ⟨data, hdata, -⟩ := Option.map_eq_some_iff.1 h
    rw [htext.1] at hdata
    cases hdata
  case h_15 | h_16 => cases htext.2
  case h_17 => split_ifs at h <;> obtain ⟨rfl, rfl⟩ := Prod.mk.inj (Option.some.inj h) <;> rfl
  case h_19 => cases h

/-- A step that does not touch a locked file from outside, and does not give the lock back while the
heartbeat still has something to write. -/
def Undisturbed (s : State ι) : Action ι → Prop
  | .world _ => ∀ file, s.disk.named = some file → s.disk.owner file = none
  | .caller a .release =>
    ∀ file info waiting rewrite, s.phase a = .holding file info waiting rewrite → waiting = []
  | _ => True

/-- A step of a caller keeps what its description and its file are. -/
theorem PhaseText.step {a : ι} {disk disk' : Disk ι Char} {phase phase' : Phase} {move : Move}
    (htext : PhaseText cfg a disk phase)
    (hjoined : ∀ file info waiting rewrite, move = .release →
      phase = .holding file info waiting rewrite → waiting = [])
    (h : callerStep cfg a disk phase move = some (disk', phase')) :
    PhaseText cfg a disk' phase' := by
  unfold callerStep at h
  split at h
  case h_1 =>
    obtain ⟨rfl, rfl⟩ := Prod.mk.inj (Option.some.inj h)
    trivial
  case h_2 => split at h <;> obtain ⟨rfl, rfl⟩ := Prod.mk.inj (Option.some.inj h) <;> trivial
  case h_3 =>
    split_ifs at h <;> obtain ⟨rfl, rfl⟩ := Prod.mk.inj (Option.some.inj h) <;> trivial
  case h_4 =>
    dsimp only at h
    split_ifs at h <;> obtain ⟨rfl, rfl⟩ := Prod.mk.inj (Option.some.inj h)
    · trivial
    · trivial
    · exact ⟨describes_newDescription a _, rfl, onTheWay_start trivial⟩
  case h_5 =>
    obtain ⟨⟨disk₁, rewrite₁⟩, hwrite, heq⟩ := Option.map_eq_some_iff.1 h
    obtain ⟨rfl, rfl⟩ := Prod.mk.inj heq
    obtain ⟨hinfo, hdata, hway⟩ := htext
    obtain ⟨hdata', hway'⟩ := hway.write hwrite
    exact ⟨hinfo, hdata'.trans hdata, hway'⟩
  case h_6 =>
    obtain ⟨disk₁, hfinish, heq⟩ := Option.map_eq_some_iff.1 h
    obtain ⟨rfl, rfl⟩ := Prod.mk.inj heq
    obtain ⟨hinfo, hdata, hway⟩ := htext
    exact ⟨hinfo, fun _ hmem => absurd hmem (by simp), _, hinfo, (hway.finish hfinish).trans hdata⟩
  case h_7 | h_8 =>
    obtain ⟨rfl, rfl⟩ := Prod.mk.inj (Option.some.inj h)
    obtain ⟨hinfo, hwaiting, hfile⟩ := htext
    refine ⟨hinfo, fun data hmem => ?_, hfile⟩
    rcases List.mem_append.1 hmem with hmem | hmem
    · exact hwaiting data hmem
    · refine ⟨_, ?_, List.mem_singleton.1 hmem⟩
      exact hinfo
  case h_9 =>
    obtain ⟨data, hdata, heq⟩ := Option.map_eq_some_iff.1 h
    obtain ⟨rfl, rfl⟩ := Prod.mk.inj heq
    obtain ⟨hinfo, hwaiting, hmine⟩ := htext
    exact ⟨hinfo, fun data hmem => hwaiting data (List.mem_of_mem_eraseIdx hmem),
      hwaiting data (List.mem_of_getElem? hdata), onTheWay_start hmine⟩
  case h_10 =>
    obtain ⟨⟨disk₁, rewrite₁⟩, hwrite, heq⟩ := Option.map_eq_some_iff.1 h
    obtain ⟨rfl, rfl⟩ := Prod.mk.inj heq
    obtain ⟨hinfo, hwaiting, hmine, hway⟩ := htext
    obtain ⟨hdata', hway'⟩ := hway.write hwrite
    exact ⟨hinfo, hwaiting, hdata' ▸ hmine, hway'⟩
  case h_11 =>
    obtain ⟨disk₁, hfinish, heq⟩ := Option.map_eq_some_iff.1 h
    obtain ⟨rfl, rfl⟩ := Prod.mk.inj heq
    obtain ⟨hinfo, hwaiting, hmine, hway⟩ := htext
    exact ⟨hinfo, hwaiting, (hway.finish hfinish).symm ▸ hmine⟩
  case h_12 =>
    obtain ⟨rfl, rfl⟩ := Prod.mk.inj (Option.some.inj h)
    exact hjoined _ _ _ _ rfl rfl
  case h_13 =>
    obtain ⟨rfl, rfl⟩ := Prod.mk.inj (Option.some.inj h)
    exact ⟨htext, rfl⟩
  case h_14 =>
    obtain ⟨data, hdata, -⟩ := Option.map_eq_some_iff.1 h
    rw [htext.1] at hdata
    cases hdata
  case h_15 | h_16 => cases htext.2
  case h_17 =>
    split_ifs at h <;> obtain ⟨rfl, rfl⟩ := Prod.mk.inj (Option.some.inj h) <;> trivial
  case h_18 =>
    obtain ⟨rfl, rfl⟩ := Prod.mk.inj (Option.some.inj h)
    trivial
  case h_19 => cases h

/-! ### Every run -/

/-- What a run whose steps are `Undisturbed` keeps. -/
structure Legible (cfg : Settings ι) (s : State ι) : Prop where
  entered_named : EnteredNamed s
  named_lt : s.disk.NamedLt
  text : ∀ a, PhaseText cfg a s.disk (s.phase a)

omit [DecidableEq ι] in
theorem Undisturbed.sparesLocked {s : State ι} {action : Action ι} (h : Undisturbed s action) :
    SparesLocked s action := by
  cases action with
  | caller a move => trivial
  | world change => cases change <;> first | exact h | trivial

omit [DecidableEq ι] in
theorem NamedLt.worldStep {disk : Disk ι Char} (h : disk.NamedLt) (change : World) :
    (worldStep disk change).NamedLt := by
  cases change with
  | unlink =>
      intro file hfile
      cases hfile
  | replace bytes =>
      intro file hfile
      obtain rfl := Option.some.inj hfile
      exact Nat.lt_succ_self _
  | edit bytes =>
      unfold CycleLock.worldStep
      dsimp only
      cases disk.named <;> exact h

theorem Legible.step {s t : State ι} {action : Action ι} (hs : Legible cfg s)
    (hmeets : Undisturbed s action) (h : step cfg s action = some t) : Legible cfg t := by
  have hnamed := hs.entered_named.step hmeets.sparesLocked h
  rcases step_cases h with ⟨a, move, disk', phase', rfl, hmove, rfl⟩ | ⟨change, rfl, rfl⟩
  · have hjoined : ∀ file info waiting rewrite, move = .release →
        s.phase a = .holding file info waiting rewrite → waiting = [] := by
      rintro file info waiting rewrite rfl hphase
      exact hmeets file info waiting rewrite hphase
    refine ⟨hnamed, ?_, fun b => ?_⟩
    · cases callerStep_cases hmove with
      | same _ _ _ hlt _ => exact hlt hs.named_lt
      | took _ _ _ hdisk _ _ => exact hdisk ▸ hs.named_lt
      | gave _ _ hdisk _ => exact hdisk ▸ hs.named_lt
      | died hdisk _ => exact hdisk ▸ hs.named_lt
    · dsimp only
      by_cases hb : b = a
      · subst hb
        rw [Function.update_self]
        exact (hs.text b).step hjoined hmove
      · rw [Function.update_of_ne hb]
        refine (hs.text b).congr fun file hfile => ?_
        have hfileNamed := hs.entered_named.named b file hfile
        refine content_callerStep (hs.text a) hmove (fun hentered => hb ?_)
          (hs.named_lt file hfileNamed)
        -- the lock of the file cannot be with both
        have hown := (hs.entered_named.owner_iff b file).2 (Phase.lockedFile_of_entered hfile)
        have hown' := (hs.entered_named.owner_iff a file).2 (Phase.lockedFile_of_entered hentered)
        exact Option.some.inj (hown.symm.trans hown')
  · refine ⟨hnamed, NamedLt.worldStep hs.named_lt change, fun b => (hs.text b).congr ?_⟩
    intro file hfile
    have hown := (hs.entered_named.owner_iff b file).2 (Phase.lockedFile_of_entered hfile)
    have hfree : s.disk.owner file = none := hmeets file (hs.entered_named.named b file hfile)
    rw [hfree] at hown
    cases hown

theorem legible_along {s t : State ι} (hs : Initial s) {actions : List (Action ι)}
    (hmeets : StepsMeet (step cfg) Undisturbed s actions)
    (hrun : run (step cfg) s actions = some t) : Legible cfg t := by
  refine hmeets.invariant (Legible cfg) (fun _ _ _ hinv hmeets => hinv.step hmeets) ?_
    (List.append_nil actions).symm hrun
  have hstart : run (CycleLock.step cfg) s [] = some s := rfl
  have hnothing : StepsMeet (CycleLock.step cfg) SparesLocked s [] := stepsMeet_nil
  refine ⟨enteredNamed_along hs hnothing hstart, hs.named_lt, fun a => ?_⟩
  rw [hs.phase_eq]
  trivial

/-! ### What others read -/

theorem head?_dumps (info : Description) : (dumps info).head? = some '{' := rfl

theorem head?_text {rewrite : Rewrite} {info : Description} (h : rewrite.data = dumps info) :
    rewrite.text.head? = some '{' := by
  rw [Rewrite.text, h]
  rfl

/-- A text that begins with a brace does not read as empty. -/
theorem not_all_isSpace {bytes : List Char} (h : bytes.head? = some '{') :
    bytes.all isSpace = false := by
  cases bytes with
  | nil => cases h
  | cons c rest =>
      obtain rfl := Option.some.inj h
      rfl

omit [DecidableEq ι] in
/-- **The file never reads as unheld, nor as less than a whole description.** -/
theorem FileText.legible {a : ι} {content : List Char} {rewrite : Option Rewrite}
    (h : FileText cfg a content rewrite) :
    content.head? = some '{' ∧
      ∃ info, Describes cfg a info ∧ (dumps info).length ≤ content.length := by
  cases rewrite with
  | none =>
      obtain ⟨info, hinfo, rfl⟩ := h
      exact ⟨rfl, info, hinfo, Nat.le_refl _⟩
  | some rewrite =>
      obtain ⟨⟨new, -, hnew⟩, old, ⟨info, hinfo, rfl⟩, -, hoffset, rfl⟩ := h
      refine ⟨?_, info, hinfo, length_mixed hoffset⟩
      have hne : rewrite.text ≠ [] := by
        intro hnil
        have hhead := head?_text hnew
        rw [hnil] at hhead
        cases hhead
      rw [head?_mixed hne, head?_text hnew, head?_dumps, ite_self]

/-- **While a caller holds the lock, the path reads as its description.** -/
theorem description_whole {s t : State ι} (hs : Initial s) {actions : List (Action ι)}
    (hmeets : StepsMeet (step cfg) Undisturbed s actions)
    (hrun : run (step cfg) s actions = some t) {a : ι} {file : ℕ} {info : Description}
    {waiting : List (List Char)} {rewrite : Option Rewrite}
    (hphase : t.phase a = .holding file info waiting rewrite) :
    ∃ bytes, t.disk.read = some bytes ∧ bytes.all isSpace = false ∧
      (∃ whole, Describes cfg a whole ∧ (dumps whole).length ≤ bytes.length) ∧
      (rewrite = none → ∃ whole, Describes cfg a whole ∧ bytes = dumps whole) := by
  have hinv := legible_along hs hmeets hrun
  have hentered : (t.phase a).entered = some file := by rw [hphase]; rfl
  have htext := hinv.text a
  rw [hphase] at htext
  obtain ⟨-, -, hfile⟩ := htext
  obtain ⟨hhead, hlength⟩ := hfile.legible
  refine ⟨t.disk.content file, ?_, not_all_isSpace hhead, hlength, ?_⟩
  · rw [Disk.read, hinv.entered_named.named a file hentered]
    rfl
  · rintro rfl
    exact hfile

/-- A caller enters, describes itself, and is forty bytes into the description of its first pass. -/
def rewritesDescription : List (Action ℕ) :=
  [.caller 0 .openFile, .caller 0 .flock, .caller 0 .confirm, .caller 0 (.read (fun _ => true) 7),
    .caller 0 (.write 91), .caller 0 .finish, .caller 0 (.setPass "audit" 9), .caller 0 (.takeMutex 0),
    .caller 0 (.write 40)]

set_option maxRecDepth 4000 in
theorem rewritten_description_whole :
    ∃ t bytes, run (step plainSettings) noLockFile rewritesDescription = some t ∧
      t.disk.read = some bytes ∧ bytes.all isSpace = false := by
  have hinitial : Initial noLockFile := ⟨fun _ => rfl, fun _ => rfl, fun file h => by cases h⟩
  have hmeets : StepsMeet (step plainSettings) Undisturbed noLockFile rewritesDescription := by
    intro before action after s hactions _
    have hmem : action ∈ rewritesDescription := by
      rw [hactions]
      simp
    simp only [rewritesDescription, List.mem_cons, List.not_mem_nil, or_false] at hmem
    rcases hmem with rfl | rfl | rfl | rfl | rfl | rfl | rfl | rfl | rfl <;> trivial
  obtain ⟨t, hrun⟩ : ∃ t, run (step plainSettings) noLockFile rewritesDescription = some t := ⟨_, rfl⟩
  have hphase : ∃ info waiting rewrite, t.phase 0 = .holding 0 info waiting rewrite := by
    obtain rfl := Option.some.inj hrun
    exact ⟨_, _, _, rfl⟩
  obtain ⟨info, waiting, rewrite, hphase⟩ := hphase
  obtain ⟨bytes, hread, hspace, -⟩ := description_whole hinitial hmeets hrun hphase
  exact ⟨t, bytes, hrun, hread, hspace⟩

end CycleLock
end ParticlesEngine
