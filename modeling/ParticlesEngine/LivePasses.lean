/-
**What the passes over retirements act on.**

The re-anchor and the paraphrases pass read claims, ask the model about them with no lock held, and
then write.  This module puts the two passes among other writers, and asks of every write whether the
claims it rests on live at that moment.

Main definitions:

* `LivePass` — a pass and what it is started with;
* `LivePass.start`, `LivePass.step` — its runs among other writers.

Main results:

* `pass_acts_on_live_claims` — **every write acts on live claims, in a run whose other writers have
  spared them since the pass began**, and in every run a pass retires and restates a claim at most
  once;
* `retired_original_is_restated` — an original that another writer retires while the model is asked
  is restated all the same, and loses its own retirement.
-/

import ParticlesEngine.Reanchor
import ParticlesEngine.SweepWinners

set_option relaxedAutoImplicit false
set_option autoImplicit false

open Interleave Runs

namespace ParticlesEngine

/-! ### The passes among other writers -/

/-- A run of a pass. -/
inductive LivePass where
  | reanchor (env : ReanchorEnv) (cursor : Option (Instant × String))
  | paraphrases (env : ParaphraseEnv) (pages : ℕ) (cursor : Option (Instant × String))

namespace LivePass

/-- What it does. -/
def prog : LivePass → PassProg Unit
  | reanchor env cursor => runReanchor env cursor
  | paraphrases env pages cursor => runParaphrases env pages cursor

/-- What other writers' commits leave. -/
def apply : LivePass → PassStore → OtherWrite → Option PassStore
  | reanchor env _ => applyOther env.ingest env.table
  | paraphrases env _ _ => applyOther env.sweep.ingest env.sweep.table

def isReanchor : LivePass → Bool
  | reanchor _ _ => true
  | paraphrases _ _ _ => false

/-- The pass at its start on a store. -/
def start (pass : LivePass) (s : PassStore) :
    Config PassStore OtherWrite PassWrite PassReply StoreError Unit := ⟨⟨s, []⟩, pass.prog⟩

/-- One step of the pass, or one commit of another writer. -/
abbrev step (pass : LivePass) (c : Config PassStore OtherWrite PassWrite PassReply StoreError Unit) :
    Interleave.Action OtherWrite PassReply →
      Option (Config PassStore OtherWrite PassWrite PassReply StoreError Unit) :=
  Interleave.step pass.apply c

/-- **A pass meets its specification.** -/
theorem spec_prog (pass : LivePass) (s : PassStore) :
    Spec pass.apply (PassInv pass.isReanchor) (GoodWrite pass.isReanchor) pass.prog
      (fun _ _ => True) ⟨s, []⟩ := by
  cases pass with
  | reanchor env cursor => exact spec_runReanchor env cursor s
  | paraphrases env pages cursor => exact spec_runParaphrases env pages cursor s

theorem inv_other (pass : LivePass) {g g' : PassWorld} (h : PassInv pass.isReanchor g)
    (hstep : OtherStep pass.apply g g') : PassInv pass.isReanchor g' := by
  cases pass with
  | reanchor env cursor => exact h.other hstep
  | paraphrases env pages cursor => exact h.other hstep

end LivePass

/-! ### What a run acts on -/

section Run

variable (pass : LivePass) (s : PassStore) (actions : List (Interleave.Action OtherWrite PassReply))

/-- **The passes act on live claims.**  In a run whose other writers have spared what each write
rests on, every claim retired is ACTIVE when it is, the claim that a match names is too, and the
winner of an update is usable; nobody's retirement is undone or overwritten, and no claim is retired
or restated twice. -/
theorem pass_acts_on_live_claims
    (hspare : StepsMeet pass.step (Commits fun g w _ => OthersSpare g w) (pass.start s) actions) :
    StepsMeet pass.step (Commits ActsLive) (pass.start s) actions ∧
      ∀ c, run pass.step (pass.start s) actions = some c →
        (retirements c.world.history).Nodup ∧ (restated c.world.history).Nodup := by
  obtain ⟨hgood, hinv⟩ := Spec.sound (fun g g' => pass.inv_other)
    (fun g w s h hgood => h.own hgood) (PassInv.start pass.isReanchor s) (pass.spec_prog s) actions
  refine ⟨?_, fun c hrun => ?_⟩
  · intro before a after c has hrun w t hwrites
    exact (hgood before a after c has hrun w t hwrites).live
      (hspare before a after c has hrun w t hwrites)
  · have hnodup := (hinv c hrun).nodup
    exact ⟨hnodup, (restated_sublist _).nodup hnodup⟩

end Run

/-! ### A retirement while the model is asked -/

instance (fit : Status → Option StatusReason → Prop) [∀ status, DecidablePred (fit status)]
    (g : PassWorld) (id : String) : Decidable (LeftAs fit g id) :=
  inferInstanceAs (Decidable (∀ set ∈ lastSet g.history id, fit set.1 set.2))

instance (g : PassWorld) : DecidablePred (OthersSpare g)
  | .restated o _ =>
      inferInstanceAs (Decidable (LeftAs (fun status _ => status ≠ .PROVENANCE_STALE) g o))
  | .matchedExisting o d =>
      inferInstanceAs (Decidable (LeftAs (fun status _ => status ≠ .PROVENANCE_STALE) g o ∧
        LeftAs (fun status _ => status = .ACTIVE) g d))
  | .unrestated _ => isTrue trivial
  | .retiredParaphrase _ u => inferInstanceAs (Decidable (LeftAs usableAs g u))
  | .remembered => isTrue trivial

/-- The functions of the core package, as the pass's tests describe them. -/
def ReanchorPackage.documented : ReanchorPackage where
  isBeforeOrAt date retiredDate := date.all fun date => retiredDate.all fun retired => date ≤ retired
  decideAfterReading
    | none => some .UNRESTATED
    | some reading =>
        if ¬ reading.depended then some .DEPENDENCY_REJECTED
        else if reading.faithful then none else some .UNRESTATED
  decideWrite duplicate conflict :=
    if duplicate.isSome then .MATCHED_EXISTING else if conflict then .UNRESTATED else .RESTATED
  exemptsWinner _ _ := false
  buildRestatement original _ restatement uuid now :=
    { original with
      id := uuid
      content := restatement
      status := .ACTIVE
      supersedes := some original.id
      assertedAt := now }

/-- A pass over a store with no change journal. -/
def plainReanchor : ReanchorEnv where
  ingest := .verbatim
  table := .documented
  core := .documented
  maxRetirements := 10
  maxRestatements := 10
  maxCandidatesPerRetirement := 8
  candidateThreshold := 1 / 2
  maxCandidates := 8
  isExtractorAsserted _ := true
  writtenByNewerMinor _ := false
  encode _ := [1]
  passageFor _ _ _ := some ("passage", none)
  changedSince _ _ := none

/-- A residence that an update has retired, and a walk from there, from one snapshot. -/
def walkFromHome : PassStore where
  clock := 5
  store := (do
    let store ← ["home", "walk"].foldlM (fun store name =>
      insertParticle id LEGACY_EMBEDDING_MODEL_ID store (claimFrom name "E" "S") (some [1]))
      Store.empty
    updateParticleStatus .documented 1 store "home" .PROVENANCE_STALE
      (some .SUPERSEDED_BY_UPDATE)).toOption.getD .empty

/-- The walk depended on the residence, and is restated with its date. -/
def dependent : PassReply where
  probe := some [{ candidateId := "walk", depends := true, restatement := some "dated walk" }]
  reading := some { depended := true, faithful := true }
  uuid := "restatement"

/-- The steps of the pass up to the probe, and those after it. -/
def untilProbe : List (Interleave.Action OtherWrite PassReply) := List.replicate 9 (.go dependent)

def afterProbe : List (Interleave.Action OtherWrite PassReply) := List.replicate 9 (.go dependent)

/-- The walk's source has lost its trust. -/
def walkDemoted : Interleave.Action OtherWrite PassReply :=
  .other (.status "walk" .PROVENANCE_STALE (some .TRUST_DEMOTED))

/-- The status and the reason of a claim. -/
def statusIn (s : PassStore) (id : String) : Option (Status × Option StatusReason) :=
  (s.store.get? id).map fun row => (row.model.status, row.model.statusReason)

/-- What the next step of the pass writes, with the original's status before and both claims' after.
-/
def nextWrite (c : Config PassStore OtherWrite PassWrite PassReply StoreError Unit) :
    Option (PassWrite × List (Option (Status × Option StatusReason))) :=
  (c.writes (.go dependent)).map fun write => (write.1, [statusIn c.world.shared "walk",
    statusIn write.2 "walk", statusIn write.2 "restatement"])

/-- **The original of a restatement need not be ACTIVE**: it is not read again before the write, and
the table lets a stale claim be superseded.  The restatement is a new ACTIVE claim, and the reason why
the original was retired is lost. -/
theorem retired_original_is_restated :
    (run (LivePass.reanchor plainReanchor none).step
      ((LivePass.reanchor plainReanchor none).start walkFromHome)
      (untilProbe ++ walkDemoted :: afterProbe)).bind nextWrite =
        some (.restated "walk" "restatement",
          [some (.PROVENANCE_STALE, some .TRUST_DEMOTED),
            some (.SUPERSEDED, some .SUPERSEDED_BY_REANCHOR), some (.ACTIVE, none)]) ∧
      ¬ StepsMeet (LivePass.reanchor plainReanchor none).step (Commits ActsLive)
        ((LivePass.reanchor plainReanchor none).start walkFromHome)
        (untilProbe ++ walkDemoted :: afterProbe ++ [.go dependent]) := by
  have hwrite : (run (LivePass.reanchor plainReanchor none).step
      ((LivePass.reanchor plainReanchor none).start walkFromHome)
      (untilProbe ++ walkDemoted :: afterProbe)).bind nextWrite =
        some (.restated "walk" "restatement",
          [some (.PROVENANCE_STALE, some .TRUST_DEMOTED),
            some (.SUPERSEDED, some .SUPERSEDED_BY_REANCHOR), some (.ACTIVE, none)]) := by
    decide +kernel
  refine ⟨hwrite, fun hlive => ?_⟩
  obtain ⟨c, hrun, hnext⟩ := Option.bind_eq_some_iff.1 hwrite
  obtain ⟨⟨w, s⟩, hwrites, hstatuses⟩ := Option.map_eq_some_iff.1 hnext
  obtain ⟨rfl, hstatuses⟩ := Prod.mk.inj hstatuses
  obtain ⟨row, hrow, hactive⟩ := (hlive _ _ [] c rfl hrun _ _ hwrites).1 "walk" (by decide)
  have hstale := (List.cons.inj hstatuses).1
  simp [statusIn, hrow, hactive] at hstale

/-- With nobody else about, the original is ACTIVE when it is restated. -/
theorem pass_acts_on_live_claims_walk :
    StepsMeet (LivePass.reanchor plainReanchor none).step (Commits ActsLive)
        ((LivePass.reanchor plainReanchor none).start walkFromHome)
        (untilProbe ++ afterProbe ++ [.go dependent]) ∧
      ∀ c, run (LivePass.reanchor plainReanchor none).step
        ((LivePass.reanchor plainReanchor none).start walkFromHome)
        (untilProbe ++ afterProbe ++ [.go dependent]) = some c →
          (retirements c.world.history).Nodup ∧ (restated c.world.history).Nodup :=
  pass_acts_on_live_claims (.reanchor plainReanchor none) walkFromHome
    (untilProbe ++ afterProbe ++ [.go dependent]) (by decide +kernel)

end ParticlesEngine
