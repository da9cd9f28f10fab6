/-
**Programs that run between other writers.**

A program shares a state with other writers.  It reads the state, asks for replies from outside,
and commits transactions; between any two of these, other writers may commit any number of changes
of their own.  A run is a list of actions, each a change of another writer or one step of the
program.  This module names nothing of a particular program; it states what a program guarantees of
each of its commits, and packages the induction over its runs.

Main definitions:

* `Prog` — a program, as the tree of what it does next;
* `Config`, `step` — a program in a world, and its interleaved steps;
* `Spec` — every commit of the program is good, whatever the others do, and its result meets a
  postcondition.

Main results:

* `Spec.bind`, `Spec.mono`, `Spec.loop` — **the rules of composition**;
* `Spec.frame` — **what every step of the others and every good commit preserves, it preserves**;
* `Spec.sound` — **in every run of such a program every commit is good**, and the invariant holds;
* `SpecWithin.sound` — the same of the runs whose steps meet a condition, where only the writes that
  meet it have to be good.
-/

import Mathlib.Logic.Relation
import ParticlesEngine.Runs

set_option relaxedAutoImplicit false
set_option autoImplicit false

open Relation Runs

namespace Interleave

/-! ### Programs -/

/-- A program with a result in `α`, by what it does next. -/
inductive Prog (σ ω ρ ε α : Type) where
  | done (a : α)
  /-- an exception, which nothing catches -/
  | raise (e : ε)
  /-- a read of the shared state -/
  | read (next : σ → Prog σ ω ρ ε α)
  /-- a question to the outside, which answers with a reply -/
  | ask (next : ρ → Prog σ ω ρ ε α)
  /-- a transaction: what it wrote, and the state it leaves; it rolls back when it raises -/
  | commit (transaction : σ → Except ε (ω × σ)) (next : ω → Prog σ ω ρ ε α)

/-- How a round of a loop ends. -/
inductive Round (β : Type) where
  | next (b : β)
  | stop (b : β)
  deriving DecidableEq, Repr

/-- What a round leaves. -/
def Round.value {β : Type} : Round β → β
  | .next b => b
  | .stop b => b

/-- What a round leaves meets `P` when the loop goes on, and `Q` when it does not. -/
def Round.Leaves {β : Type} (P Q : β → Prop) : Round β → Prop
  | .next b => P b
  | .stop b => Q b

namespace Prog

variable {σ ω ρ ε α β γ : Type}

/-- One program after another. -/
protected def bind : Prog σ ω ρ ε α → (α → Prog σ ω ρ ε β) → Prog σ ω ρ ε β
  | done a, k => k a
  | raise e, _ => raise e
  | read next, k => read fun s => (next s).bind k
  | ask next, k => ask fun r => (next r).bind k
  | commit t next, k => commit t fun w => (next w).bind k

instance : Monad (Prog σ ω ρ ε) where
  pure := done
  bind := Prog.bind

/-- Read something of the shared state. -/
def observe (f : σ → α) : Prog σ ω ρ ε α := read fun s => done (f s)

/-- Ask, and keep something of the reply. -/
def reply (f : ρ → α) : Prog σ ω ρ ε α := ask fun r => done (f r)

/-- Commit a transaction. -/
def transact (t : σ → Except ε (ω × σ)) : Prog σ ω ρ ε ω := commit t done

/-- A loop over a list, which a round may leave. -/
def loop (body : β → γ → Prog σ ω ρ ε (Round β)) : List γ → β → Prog σ ω ρ ε β
  | [], b => done b
  | c :: cs, b => (body b c).bind fun round =>
      match round with
      | .next b => loop body cs b
      | .stop b => done b

end Prog

/-! ### Interleaved runs -/

/-- One commit of a run. -/
inductive Entry (χ ω : Type) where
  | other (change : χ)
  | own (write : ω)
  deriving DecidableEq, Repr

/-- The shared state, and every commit since the program began, the newest first. -/
structure World (σ χ ω : Type) where
  shared : σ
  history : List (Entry χ ω) := []

/-- A program in a world. -/
structure Config (σ χ ω ρ ε α : Type) where
  world : World σ χ ω
  prog : Prog σ ω ρ ε α

/-- What happens next in a run. -/
inductive Action (χ ρ : Type) where
  | other (change : χ)
  /-- the program goes on; a question is given the reply -/
  | go (reply : ρ)

section Steps

variable {σ χ ω ρ ε α : Type} (apply : σ → χ → Option σ)

/-- The world after another writer's change. -/
def World.change (g : World σ χ ω) (change : χ) (s : σ) : World σ χ ω :=
  ⟨s, .other change :: g.history⟩

/-- The world after a commit of the program. -/
def World.wrote (g : World σ χ ω) (w : ω) (s : σ) : World σ χ ω := ⟨s, .own w :: g.history⟩

/-- **One step of a run**; refused when the change is, and when the program is over. -/
def step (c : Config σ χ ω ρ ε α) : Action χ ρ → Option (Config σ χ ω ρ ε α)
  | .other change =>
      (apply c.world.shared change).map fun s => { c with world := c.world.change change s }
  | .go reply =>
      match c.prog with
      | .done _ => none
      | .raise _ => none
      | .read next => some { c with prog := next c.world.shared }
      | .ask next => some { c with prog := next reply }
      | .commit t next =>
          match t c.world.shared with
          | .error e => some { c with prog := .raise e }
          | .ok (w, s) => some { world := c.world.wrote w s, prog := next w }

/-- What the next step of the program writes, and the state it leaves. -/
def Config.writes (c : Config σ χ ω ρ ε α) : Action χ ρ → Option (ω × σ)
  | .other _ => none
  | .go _ =>
      match c.prog with
      | .commit t _ => (t c.world.shared).toOption
      | _ => none

/-- Another writer moves on. -/
def OtherStep (g g' : World σ χ ω) : Prop :=
  ∃ change s, apply g.shared change = some s ∧ g' = g.change change s

/-- Other writers have moved on, any number of times. -/
def Later : World σ χ ω → World σ χ ω → Prop := ReflTransGen (OtherStep apply)

theorem Later.refl (g : World σ χ ω) : Later apply g g := ReflTransGen.refl

/-- What every change of another writer preserves, any number of them preserves. -/
theorem Later.preserves {apply : σ → χ → Option σ} {P : World σ χ ω → Prop}
    (hother : ∀ g g', P g → OtherStep apply g g' → P g') {g g' : World σ χ ω}
    (hlater : Later apply g g') (hg : P g) : P g' := by
  induction hlater with
  | refl => exact hg
  | tail _ hstep ih => exact hother _ _ ih hstep

end Steps

/-! ### Specifications -/

section Spec

variable {σ χ ω ρ ε α β γ : Type} (apply : σ → χ → Option σ)
  (inv : World σ χ ω → Prop) (good : World σ χ ω → ω → σ → Prop)

/-- From a world on, every commit of the program is good, and its result meets the postcondition.
Others may move before each read and each commit, and the invariant may be relied on there. -/
def Spec : Prog σ ω ρ ε α → (α → World σ χ ω → Prop) → World σ χ ω → Prop
  | .done a, Q, g => Q a g
  | .raise _, _, _ => True
  | .read next, Q, g => ∀ g', Later apply g g' → inv g' → Spec (next g'.shared) Q g'
  | .ask next, Q, g => ∀ r, Spec (next r) Q g
  | .commit t next, Q, g => ∀ g', Later apply g g' → inv g' → ∀ w s, t g'.shared = .ok (w, s) →
      good g' w s ∧ Spec (next w) Q (g'.wrote w s)

/-- A step of another writer, or a good commit. -/
def Moves (g g' : World σ χ ω) : Prop :=
  OtherStep apply g g' ∨ ∃ w s, good g w s ∧ g' = g.wrote w s

/-- Any number of such steps. -/
def Trail : World σ χ ω → World σ χ ω → Prop := ReflTransGen (Moves apply good)

variable {apply inv good} {Q R : α → World σ χ ω → Prop} {g g' : World σ χ ω}

theorem Later.trail (h : Later apply g g') : Trail apply good g g' := by
  induction h with
  | refl => exact ReflTransGen.refl
  | tail _ hstep ih => exact ih.tail (.inl hstep)

/-- What every move preserves, a trail preserves. -/
theorem Trail.preserves {P : World σ χ ω → Prop}
    (hmoves : ∀ g g', P g → Moves apply good g g' → P g') (htrail : Trail apply good g g')
    (hg : P g) : P g' := by
  induction htrail with
  | refl => exact hg
  | tail _ hstep ih => exact hmoves _ _ ih hstep

/-- **The rule of consequence.** -/
theorem Spec.mono {p : Prog σ ω ρ ε α} (h : Spec apply inv good p Q g)
    (hQ : ∀ a g, Q a g → R a g) : Spec apply inv good p R g := by
  induction p generalizing g with
  | done a => exact hQ a g h
  | raise e => trivial
  | read next ih => exact fun g' hlater hinv => ih g'.shared (h g' hlater hinv)
  | ask next ih => exact fun r => ih r (h r)
  | commit t next ih =>
      intro g' hlater hinv w s ht
      obtain ⟨hgood, hnext⟩ := h g' hlater hinv w s ht
      exact ⟨hgood, ih w hnext⟩

/-- **The rule of sequence.** -/
theorem Spec.bind {p : Prog σ ω ρ ε α} {k : α → Prog σ ω ρ ε β} {R : β → World σ χ ω → Prop}
    (h : Spec apply inv good p (fun a g => Spec apply inv good (k a) R g) g) :
    Spec apply inv good (p >>= k) R g := by
  change Spec apply inv good (p.bind k) R g
  induction p generalizing g with
  | done a => exact h
  | raise e => trivial
  | read next ih => exact fun g' hlater hinv => ih g'.shared (h g' hlater hinv)
  | ask next ih => exact fun r => ih r (h r)
  | commit t next ih =>
      intro g' hlater hinv w s ht
      obtain ⟨hgood, hnext⟩ := h g' hlater hinv w s ht
      exact ⟨hgood, ih w hnext⟩

theorem Spec.pure {a : α} (h : Q a g) :
    Spec apply inv good (Pure.pure a : Prog σ ω ρ ε α) Q g := h

/-- What is read holds of a world that the others reached. -/
theorem Spec.observe {f : σ → α}
    (h : ∀ g', Later apply g g' → inv g' → Q (f g'.shared) g') :
    Spec apply inv good (Prog.observe f : Prog σ ω ρ ε α) Q g := h

theorem Spec.reply {f : ρ → α} (h : ∀ r, Q (f r) g) :
    Spec apply inv good (Prog.reply f : Prog σ ω ρ ε α) Q g := h

theorem Spec.transact {t : σ → Except ε (ω × σ)} {Q : ω → World σ χ ω → Prop}
    (h : ∀ g', Later apply g g' → inv g' → ∀ w s, t g'.shared = .ok (w, s) →
      good g' w s ∧ Q w (g'.wrote w s)) :
    Spec apply inv good (Prog.transact t : Prog σ ω ρ ε ω) Q g := h

/-- **The rule of loops**: an invariant on what is left of the list. -/
theorem Spec.loop {body : β → γ → Prog σ ω ρ ε (Round β)} (P : List γ → β → World σ χ ω → Prop)
    {Q : β → World σ χ ω → Prop}
    (hbody : ∀ c cs b g, P (c :: cs) b g → Spec apply inv good (body b c)
      (fun round g => round.Leaves (P cs · g) (Q · g)) g)
    (hend : ∀ b g, P [] b g → Q b g) :
    ∀ {cs : List γ} {b : β} {g : World σ χ ω}, P cs b g →
      Spec apply inv good (Prog.loop body cs b) Q g := by
  intro cs
  induction cs with
  | nil => exact fun hb => hend _ _ hb
  | cons c cs ih =>
      intro b g hb
      refine Spec.bind (Spec.mono (hbody c cs b g hb) ?_)
      intro round g' hround
      cases round with
      | next b => exact ih hround
      | stop b => exact hround

/-- The rule of loops, with an invariant that every round preserves. -/
theorem Spec.loop_inv {body : β → γ → Prog σ ω ρ ε (Round β)} (P : β → World σ χ ω → Prop)
    {cs : List γ} {b : β}
    (hbody : ∀ c ∈ cs, ∀ b g, P b g →
      Spec apply inv good (body b c) (fun round g => P round.value g) g)
    (hb : P b g) : Spec apply inv good (Prog.loop body cs b) P g := by
  refine Spec.loop (fun rest b g => (∀ c ∈ rest, c ∈ cs) ∧ P b g) ?_ (fun _ _ h => h.2)
    ⟨fun _ hc => hc, hb⟩
  rintro c rest b g ⟨hrest, hb⟩
  refine Spec.mono (hbody c (hrest c List.mem_cons_self) b g hb) ?_
  intro round g' hround
  cases round with
  | next b => exact ⟨fun c hc => hrest c (List.mem_cons_of_mem _ hc), hround⟩
  | stop b => exact hround

/-- **What the program leaves is reached by moves of the others and good commits.** -/
theorem Spec.trail {p : Prog σ ω ρ ε α} (h : Spec apply inv good p Q g) :
    Spec apply inv good p (fun a g' => Q a g' ∧ Trail apply good g g') g := by
  -- from any world that a trail has reached
  have hfrom : ∀ (p : Prog σ ω ρ ε α) (g' : World σ χ ω), Trail apply good g g' →
      Spec apply inv good p Q g' →
      Spec apply inv good p (fun a g' => Q a g' ∧ Trail apply good g g') g' := by
    intro p
    induction p with
    | done a => exact fun g' htrail h => ⟨h, htrail⟩
    | raise e => exact fun _ _ _ => trivial
    | read next ih =>
        exact fun g' htrail h g'' hlater hinv =>
          ih g''.shared g'' (htrail.trans hlater.trail) (h g'' hlater hinv)
    | ask next ih => exact fun g' htrail h r => ih r g' htrail (h r)
    | commit t next ih =>
        intro g' htrail h g'' hlater hinv w s ht
        obtain ⟨hgood, hnext⟩ := h g'' hlater hinv w s ht
        exact ⟨hgood, ih w _ ((htrail.trans hlater.trail).tail (.inr ⟨w, s, hgood, rfl⟩)) hnext⟩
  exact hfrom p g ReflTransGen.refl h

/-- **The frame rule**: what every move preserves, the program preserves. -/
theorem Spec.frame {P : World σ χ ω → Prop} {p : Prog σ ω ρ ε α}
    (hmoves : ∀ g g', P g → Moves apply good g g' → P g') (hP : P g)
    (h : Spec apply inv good p Q g) : Spec apply inv good p (fun a g' => Q a g' ∧ P g') g :=
  h.trail.mono fun _ _ ⟨hQ, htrail⟩ => ⟨hQ, htrail.preserves hmoves hP⟩

/-! ### Soundness -/

/-- A condition on a commit, as a condition on the steps of a run. -/
def Commits (P : World σ χ ω → ω → σ → Prop) (c : Config σ χ ω ρ ε α) (a : Action χ ρ) : Prop :=
  ∀ w s, c.writes a = some (w, s) → P c.world w s

instance Commits.decidable {P : World σ χ ω → ω → σ → Prop} [∀ g w s, Decidable (P g w s)]
    (c : Config σ χ ω ρ ε α) : DecidablePred fun a : Action χ ρ => Commits P c a := fun a =>
  decidable_of_iff (∀ write ∈ c.writes a, P c.world write.1 write.2)
    ⟨fun h w s hw => h (w, s) hw, fun h write hw => h write.1 write.2 hw⟩

/-- Others may have moved since the program's specification was established. -/
structure Going (apply : σ → χ → Option σ) (inv : World σ χ ω → Prop)
    (good : World σ χ ω → ω → σ → Prop) (Q : α → World σ χ ω → Prop)
    (c : Config σ χ ω ρ ε α) : Prop where
  holds : inv c.world
  spec : ∃ g, Later apply g c.world ∧ Spec apply inv good c.prog Q g

/-- A program that meets its specification commits something good next. -/
theorem Going.commits {c : Config σ χ ω ρ ε α} (h : Going apply inv good Q c)
    (a : Action χ ρ) : Commits good c a := by
  intro w s hwrites
  obtain ⟨g, hlater, hspec⟩ := h.spec
  obtain ⟨world, prog⟩ := c
  cases a with
  | other change => cases hwrites
  | go reply =>
      cases prog with
      | done a => cases hwrites
      | raise e => cases hwrites
      | read next => cases hwrites
      | ask next => cases hwrites
      | commit t next =>
          simp only [Config.writes] at hwrites
          cases ht : t world.shared with
          | error e => simp [ht, Except.toOption] at hwrites
          | ok result =>
              simp only [ht, Except.toOption, Option.some.injEq] at hwrites
              exact (hspec world hlater h.holds w s (hwrites ▸ ht)).1

/-- And goes on meeting it. -/
theorem Going.step (hother : ∀ g g', inv g → OtherStep apply g g' → inv g')
    (hown : ∀ g w s, inv g → good g w s → inv (g.wrote w s)) {c c' : Config σ χ ω ρ ε α}
    {a : Action χ ρ} (h : Going apply inv good Q c) (hstep : step apply c a = some c') :
    Going apply inv good Q c' := by
  have hgood := h.commits a
  obtain ⟨hinv, g, hlater, hspec⟩ := h
  obtain ⟨world, prog⟩ := c
  cases a with
  | other change =>
      obtain ⟨s, hs, rfl⟩ := Option.map_eq_some_iff.1 hstep
      have hmove : OtherStep apply world (world.change change s) := ⟨change, s, hs, rfl⟩
      exact ⟨hother _ _ hinv hmove, g, hlater.tail hmove, hspec⟩
  | go reply =>
      cases prog with
      | done a => cases hstep
      | raise e => cases hstep
      | read next =>
          obtain rfl := Option.some.inj hstep
          exact ⟨hinv, world, Later.refl apply world, hspec world hlater hinv⟩
      | ask next =>
          obtain rfl := Option.some.inj hstep
          exact ⟨hinv, g, hlater, hspec reply⟩
      | commit t next =>
          simp only [Interleave.step] at hstep
          cases ht : t world.shared with
          | error e =>
              simp only [ht, Option.some.injEq] at hstep
              subst hstep
              exact ⟨hinv, world, Later.refl apply world, trivial⟩
          | ok result =>
              obtain ⟨w, s⟩ := result
              simp only [ht, Option.some.injEq] at hstep
              subst hstep
              have hws := hspec world hlater hinv w s ht
              exact ⟨hown _ _ _ hinv hws.1, _, Later.refl apply _, hws.2⟩

/-- **In every run of a program that meets its specification the invariant holds, and every commit
is good.** -/
theorem Spec.sound (hother : ∀ g g', inv g → OtherStep apply g g' → inv g')
    (hown : ∀ g w s, inv g → good g w s → inv (g.wrote w s)) {p : Prog σ ω ρ ε α}
    (hinv : inv g) (h : Spec apply inv good p Q g) (as : List (Action χ ρ)) :
    StepsMeet (step apply) (Commits good) ⟨g, p⟩ as ∧
      ∀ c, run (step apply) ⟨g, p⟩ as = some c → inv c.world := by
  have hstart : Going apply inv good Q ⟨g, p⟩ := ⟨hinv, g, Later.refl apply g, h⟩
  have hgoing : ∀ {as : List (Action χ ρ)} {c}, run (step apply) ⟨g, p⟩ as = some c →
      Going apply inv good Q c := fun hrun =>
    run_invariant (Going apply inv good Q) (fun _ _ _ hc hstep => hc.step hother hown hstep)
      hstart hrun
  refine ⟨fun before a after c _ hrun => (hgoing hrun).commits a, fun c hrun => (hgoing hrun).holds⟩

end Spec

/-! ### Steps that meet a condition -/

section Within

variable {σ χ ω ρ ε α β γ : Type}

open Classical in
/-- The program with every transaction refused whose write is not allowed; it raises `e` there. -/
noncomputable def Prog.within (allowed : σ → ω → Prop) (e : ε) :
    Prog σ ω ρ ε α → Prog σ ω ρ ε α
  | .done a => .done a
  | .raise e' => .raise e'
  | .read next => .read fun s => (next s).within allowed e
  | .ask next => .ask fun r => (next r).within allowed e
  | .commit t next =>
      .commit (fun s => (t s).bind fun write => if allowed s write.1 then .ok write else .error e)
        fun w => (next w).within allowed e

open Classical in
/-- The changes of others that meet a condition; no other is applied. -/
noncomputable def applyWithin (admitted : σ → χ → Prop) (apply : σ → χ → Option σ) (s : σ)
    (change : χ) : Option σ :=
  if admitted s change then apply s change else none

/-- A step meets a condition on the changes of others, or one on the program's writes. -/
def Within (admitted : σ → χ → Prop) (allowed : σ → ω → Prop) (c : Config σ χ ω ρ ε α) :
    Action χ ρ → Prop
  | .other change => admitted c.world.shared change
  | .go reply => ∀ w s, c.writes (.go reply) = some (w, s) → allowed c.world.shared w

instance Within.decidable {admitted : σ → χ → Prop} {allowed : σ → ω → Prop}
    [∀ s change, Decidable (admitted s change)] [∀ s w, Decidable (allowed s w)]
    (c : Config σ χ ω ρ ε α) : DecidablePred fun a : Action χ ρ => Within admitted allowed c a
  | .other change => inferInstanceAs (Decidable (admitted c.world.shared change))
  | .go reply =>
      decidable_of_iff (∀ write ∈ c.writes (.go reply), allowed c.world.shared write.1)
        ⟨fun h w s hw => h (w, s) hw, fun h write hw => h write.1 write.2 hw⟩

section Rules

variable {apply : σ → χ → Option σ} {inv : World σ χ ω → Prop}
  {good : World σ χ ω → ω → σ → Prop} {allowed : σ → ω → Prop} {e : ε}
  {Q R : α → World σ χ ω → Prop} {g : World σ χ ω}

variable (apply inv good allowed e) in
/-- A specification of the program's allowed commits. -/
def SpecWithin (p : Prog σ ω ρ ε α) (Q : α → World σ χ ω → Prop) (g : World σ χ ω) : Prop :=
  Spec apply inv good (p.within allowed e) Q g

theorem Prog.within_bind (p : Prog σ ω ρ ε α) (k : α → Prog σ ω ρ ε β) :
    (p.bind k).within allowed e = (p.within allowed e).bind fun a => (k a).within allowed e := by
  induction p with
  | done a => rfl
  | raise e' => rfl
  | read next ih => exact congrArg Prog.read (funext ih)
  | ask next ih => exact congrArg Prog.ask (funext ih)
  | commit t next ih => exact congrArg (Prog.commit _) (funext ih)

theorem Prog.within_loop (body : β → γ → Prog σ ω ρ ε (Round β)) (cs : List γ) (b : β) :
    (Prog.loop body cs b).within allowed e =
      Prog.loop (fun b c => (body b c).within allowed e) cs b := by
  induction cs generalizing b with
  | nil => rfl
  | cons c cs ih =>
      rw [Prog.loop, Prog.within_bind, Prog.loop]
      congr 1
      funext round
      cases round with
      | next b => exact ih b
      | stop b => rfl

theorem SpecWithin.mono {p : Prog σ ω ρ ε α} (h : SpecWithin apply inv good allowed e p Q g)
    (hQ : ∀ a g, Q a g → R a g) : SpecWithin apply inv good allowed e p R g := Spec.mono h hQ

theorem SpecWithin.bind {p : Prog σ ω ρ ε α} {k : α → Prog σ ω ρ ε β}
    {R : β → World σ χ ω → Prop}
    (h : SpecWithin apply inv good allowed e p
      (fun a g => SpecWithin apply inv good allowed e (k a) R g) g) :
    SpecWithin apply inv good allowed e (p >>= k) R g := by
  change Spec apply inv good ((p.bind k).within allowed e) R g
  rw [Prog.within_bind]
  exact Spec.bind h

theorem SpecWithin.pure {a : α} (h : Q a g) :
    SpecWithin apply inv good allowed e (Pure.pure a : Prog σ ω ρ ε α) Q g := h

theorem SpecWithin.raise {e' : ε} :
    SpecWithin apply inv good allowed e (.raise e' : Prog σ ω ρ ε α) Q g := trivial

theorem SpecWithin.observe {f : σ → α}
    (h : ∀ g', Later apply g g' → inv g' → Q (f g'.shared) g') :
    SpecWithin apply inv good allowed e (Prog.observe f : Prog σ ω ρ ε α) Q g := h

theorem SpecWithin.reply {f : ρ → α} (h : ∀ r, Q (f r) g) :
    SpecWithin apply inv good allowed e (Prog.reply f : Prog σ ω ρ ε α) Q g := h

/-- **The rule of transactions**: only a write that is allowed has to be good. -/
theorem SpecWithin.transact {t : σ → Except ε (ω × σ)} {Q : ω → World σ χ ω → Prop}
    (h : ∀ g', Later apply g g' → inv g' → ∀ w s, t g'.shared = .ok (w, s) →
      allowed g'.shared w → good g' w s ∧ Q w (g'.wrote w s)) :
    SpecWithin apply inv good allowed e (Prog.transact t : Prog σ ω ρ ε ω) Q g := by
  intro g' hlater hinv w s ht
  cases hwrite : t g'.shared with
  | error e' =>
      simp only [hwrite, Except.bind] at ht
      cases ht
  | ok write =>
      simp only [hwrite, Except.bind] at ht
      split_ifs at ht with hallowed
      obtain rfl := Except.ok.inj ht
      exact h g' hlater hinv w s hwrite hallowed

/-- The rule of loops, with an invariant that every round preserves. -/
theorem SpecWithin.loop_inv {body : β → γ → Prog σ ω ρ ε (Round β)} (P : β → World σ χ ω → Prop)
    {cs : List γ} {b : β}
    (hbody : ∀ c ∈ cs, ∀ b g, P b g →
      SpecWithin apply inv good allowed e (body b c) (fun round g => P round.value g) g)
    (hb : P b g) : SpecWithin apply inv good allowed e (Prog.loop body cs b) P g := by
  unfold SpecWithin
  rw [Prog.within_loop]
  exact Spec.loop_inv P hbody hb

/-- **The frame rule.** -/
theorem SpecWithin.frame {P : World σ χ ω → Prop} {p : Prog σ ω ρ ε α}
    (hmoves : ∀ g g', P g → Moves apply good g g' → P g') (hP : P g)
    (h : SpecWithin apply inv good allowed e p Q g) :
    SpecWithin apply inv good allowed e p (fun a g' => Q a g' ∧ P g') g := Spec.frame hmoves hP h

end Rules

/-- A step that meets the conditions is a step of the restricted program among restricted others. -/
theorem step_within {admitted : σ → χ → Prop} {allowed : σ → ω → Prop} {e : ε}
    {apply : σ → χ → Option σ} {c c' : Config σ χ ω ρ ε α} {a : Action χ ρ}
    (hmeets : Within admitted allowed c a) (hstep : step apply c a = some c') :
    step (applyWithin admitted apply) ⟨c.world, c.prog.within allowed e⟩ a =
      some ⟨c'.world, c'.prog.within allowed e⟩ := by
  obtain ⟨world, prog⟩ := c
  cases a with
  | other change =>
      obtain ⟨s, hs, rfl⟩ := Option.map_eq_some_iff.1 hstep
      simp only [step, applyWithin, if_pos (show admitted world.shared change from hmeets), hs,
        Option.map_some]
  | go reply =>
      cases prog with
      | done a => cases hstep
      | raise e' => cases hstep
      | read next =>
          obtain rfl := Option.some.inj hstep
          rfl
      | ask next =>
          obtain rfl := Option.some.inj hstep
          rfl
      | commit t next =>
          simp only [step] at hstep
          simp only [step, Prog.within]
          cases ht : t world.shared with
          | error e' =>
              simp only [ht, Option.some.injEq] at hstep
              subst hstep
              rfl
          | ok write =>
              obtain ⟨w, s⟩ := write
              simp only [ht, Option.some.injEq] at hstep
              subst hstep
              have hallowed : allowed world.shared w := by
                refine hmeets w s ?_
                simp [Config.writes, ht, Except.toOption]
              simp only [Except.bind, if_pos hallowed]

/-- **In every run whose steps meet the conditions the invariant holds**, where the restricted
program meets its specification. -/
theorem SpecWithin.sound {admitted : σ → χ → Prop} {allowed : σ → ω → Prop} {e : ε}
    {apply : σ → χ → Option σ} {inv : World σ χ ω → Prop} {good : World σ χ ω → ω → σ → Prop}
    {Q : α → World σ χ ω → Prop} {g : World σ χ ω} {p : Prog σ ω ρ ε α}
    (hother : ∀ g g', inv g → OtherStep (applyWithin admitted apply) g g' → inv g')
    (hown : ∀ g w s, inv g → good g w s → inv (g.wrote w s)) (hinv : inv g)
    (h : SpecWithin (applyWithin admitted apply) inv good allowed e p Q g)
    {as : List (Action χ ρ)} (hmeets : StepsMeet (step apply) (Within admitted allowed) ⟨g, p⟩ as)
    {c : Config σ χ ω ρ ε α} (hrun : run (step apply) ⟨g, p⟩ as = some c) : inv c.world := by
  have hstart : Going (applyWithin admitted apply) inv good Q ⟨g, p.within allowed e⟩ :=
    ⟨hinv, g, Later.refl _ g, h⟩
  have hgoing : Going (applyWithin admitted apply) inv good Q ⟨c.world, c.prog.within allowed e⟩ :=
    StepsMeet.invariant
      (fun c => Going (applyWithin admitted apply) inv good Q ⟨c.world, c.prog.within allowed e⟩)
      (fun _ _ _ hc hmeets hstep => hc.step hother hown (step_within hmeets hstep)) hmeets
      hstart (List.append_nil as).symm hrun
  exact hgoing.holds

end Within

end Interleave
