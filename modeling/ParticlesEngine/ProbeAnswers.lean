/-
**Deferred probe answers.**

`record_answer` of `store/probe_verdict_store.py` writes an answer unless it is the newest one
recorded for its key and model.  Inside a `deferring_answers` block it keeps the answer instead, and
`record_deferred` writes what was kept when the block ends.  The comparison inside the block is with
the newest *stored* answer, and not with one the block already keeps.

Main definitions:

* `lookupAnswer`, `recordAnswer`, `recordDeferred` — the source's functions;
* `AnswerCalls` — calls made directly and in blocks, nested in any way;
* `RemembersLast` — after some calls every lookup gives the answer of the last call for it, as it
  does when all of them are made directly;
* `AnswerCalls.NoneReturns` — no block ends on an answer that it had left in between.

Main results:

* `run_deferring` — a block keeps the answers that differ from the stored ones;
* `exists_recordDeferred` — written one after another, the last one is read;
* `ledger_remembers` — **the last answer is remembered throughout exactly when no block returns
  to the answer it started from**.
-/

import ParticlesEngine.ProbeLedger

set_option relaxedAutoImplicit false
set_option autoImplicit false

namespace ParticlesEngine

/-- What an answer is looked up by. -/
structure AnswerSlot (Kind : Type) where
  kind : Kind
  promptHash : String
  key : VerdictKey
  model : String
  deriving DecidableEq

/-- A ledger answer: a call of `record_answer`, and what a block keeps of it. -/
structure DeferredAnswer (Kind : Type) where
  kind : Kind
  promptHash : String
  key : VerdictKey
  verdict : Bool
  answer : String
  model : String
  temperature : Option String := none
  recordedAt : ℤ
  deriving DecidableEq

/-- The slot of an answer. -/
def DeferredAnswer.slot {Kind : Type} (item : DeferredAnswer Kind) : AnswerSlot Kind :=
  ⟨item.kind, item.promptHash, item.key, item.model⟩

/-- The table, and the list that the innermost `deferring_answers` block collects into. -/
structure AnswerState (Kind : Type) where
  ledger : ProbeLedger
  deferred : Option (List (DeferredAnswer Kind)) := none

/-- Calls of `record_answer`, made directly and in `deferring_answers` blocks whose answers
`record_deferred` writes when the block ends. -/
inductive AnswerCalls (Kind : Type) where
  | done
  | call (item : DeferredAnswer Kind) (rest : AnswerCalls Kind)
  | block (body rest : AnswerCalls Kind)
  deriving DecidableEq

section Answers

variable {Kind : Type} (core : ProbeCore Kind)

/-! ### The source's functions -/

/-- A row holds an answer of the slot. -/
def AnswerSlot.holds (slot : AnswerSlot Kind) (row : ProbeVerdictRow) : Bool :=
  row.probeKind = core.value slot.kind ∧ row.promptHash = slot.promptHash ∧
    row.hashA = slot.key.1 ∧ row.hashB = slot.key.2 ∧ row.model = slot.model ∧ row.answer.isSome

/-- `lookup_answer`: of the rows that match, the one with the greatest id, which is the last. -/
def lookupAnswer (ledger : ProbeLedger) (slot : AnswerSlot Kind) : Option String :=
  (ledger.verdicts.filter (slot.holds core)).getLast?.bind ProbeVerdictRow.answer

/-- The row an answer is written as. -/
def answerRow (item : DeferredAnswer Kind) : ProbeVerdictRow where
  probeKind := core.value item.kind
  promptHash := item.promptHash
  hashA := item.key.1
  hashB := item.key.2
  verdict := item.verdict
  answer := some item.answer
  model := item.model
  recordedAt := item.recordedAt
  temperature := item.temperature

/-- `record_answer`: the state after it, and whether the answer was written or kept. -/
def recordAnswer (state : AnswerState Kind) (item : DeferredAnswer Kind) : AnswerState Kind × Bool :=
  if lookupAnswer core state.ledger item.slot = some item.answer then (state, false)
  else
    match state.deferred with
    | some into => ({ state with deferred := some (into ++ [item]) }, true)
    | none => ({ state with ledger := state.ledger.add (answerRow core item) }, true)

/-- `record_deferred`. -/
def recordDeferred (state : AnswerState Kind) (answers : List (DeferredAnswer Kind)) :
    AnswerState Kind :=
  answers.foldl (fun state item => (recordAnswer core state item).1) state

namespace AnswerCalls

/-- The state after the calls.  A block collects into a list of its own, and its answers are written
in the context around it. -/
def run : AnswerCalls Kind → AnswerState Kind → AnswerState Kind
  | done, state => state
  | call item rest, state => rest.run (recordAnswer core state item).1
  | block body rest, state =>
      let inner := body.run { state with deferred := some [] }
      rest.run (recordDeferred core { inner with deferred := state.deferred }
        (inner.deferred.getD []))

/-- The calls in the order they are made. -/
def calls : AnswerCalls Kind → List (DeferredAnswer Kind)
  | done => []
  | call item rest => item :: rest.calls
  | block body rest => body.calls ++ rest.calls

/-- Some calls, then others. -/
def append : AnswerCalls Kind → AnswerCalls Kind → AnswerCalls Kind
  | done, after => after
  | call item rest, after => call item (rest.append after)
  | block body rest, after => block body (rest.append after)

/-- The same calls, all made directly. -/
def direct : List (DeferredAnswer Kind) → AnswerCalls Kind
  | [] => done
  | item :: items => call item (direct items)

end AnswerCalls

/-! ### The last answer -/

variable [DecidableEq Kind]

/-- The answers given for a slot, in the order of the calls. -/
def answersFor (slot : AnswerSlot Kind) (items : List (DeferredAnswer Kind)) : List String :=
  (items.filter fun item => item.slot = slot).map DeferredAnswer.answer

/-- The answer of the last call for each slot, or what it had before. -/
def lastAnswer (held : AnswerSlot Kind → Option String) (items : List (DeferredAnswer Kind)) :
    AnswerSlot Kind → Option String :=
  fun slot => (answersFor slot items).getLast?.or (held slot)

/-- After the calls every lookup gives the answer of the last call for it, which is what it gives
when every call is made directly. -/
def RemembersLast (ledger : ProbeLedger) (script : AnswerCalls Kind) : Prop :=
  ∀ slot,
    lookupAnswer core (script.run core ⟨ledger, none⟩).ledger slot =
        lastAnswer (lookupAnswer core ledger) script.calls slot ∧
      lookupAnswer core (script.run core ⟨ledger, none⟩).ledger slot =
        lookupAnswer core ((AnswerCalls.direct script.calls).run core ⟨ledger, none⟩).ledger slot

/-- Where the last of some calls for a slot gives the answer held before them, all of them do. -/
def KeepsLast (held : AnswerSlot Kind → Option String) (items : List (DeferredAnswer Kind)) : Prop :=
  ∀ slot, (answersFor slot items).getLast? = held slot →
    ∀ answer ∈ answersFor slot items, some answer = held slot

/-- **No block returns** to the answer that the last call before it gave, having given another. -/
def AnswerCalls.NoneReturns (held : AnswerSlot Kind → Option String) : AnswerCalls Kind → Prop
  | done => True
  | call item rest => rest.NoneReturns (lastAnswer held [item])
  | block body rest => KeepsLast held body.calls ∧ rest.NoneReturns (lastAnswer held body.calls)

theorem lastAnswer_append (held : AnswerSlot Kind → Option String)
    (items items' : List (DeferredAnswer Kind)) :
    lastAnswer held (items ++ items') = lastAnswer (lastAnswer held items) items' := by
  funext slot
  simp [lastAnswer, answersFor, List.getLast?_append, Option.or_assoc]

theorem lastAnswer_cons (held : AnswerSlot Kind → Option String) (item : DeferredAnswer Kind)
    (items : List (DeferredAnswer Kind)) :
    lastAnswer held (item :: items) = lastAnswer (lastAnswer held [item]) items :=
  lastAnswer_append held [item] items

/-- What is left of some answers without those equal to `held` ends on the last of them exactly when
the last differs from `held` or none does. -/
theorem getLast?_filter_or {answers : List String} {held : Option String} :
    (answers.filter fun answer => decide (held ≠ some answer)).getLast?.or held =
        answers.getLast?.or held ↔
      (answers.getLast? = held → ∀ answer ∈ answers, some answer = held) := by
  rcases List.eq_nil_or_concat' answers with rfl | ⟨front, last, rfl⟩
  · simp
  by_cases hlast : held = some last
  · subst hlast
    -- the last answer is left out, so that nothing may be left of those before it
    have hdrop : (front ++ [last]).filter (fun answer => decide (some last ≠ some answer)) =
        front.filter fun answer => decide (some last ≠ some answer) := by simp [List.filter_append]
    rw [hdrop, List.getLast?_concat, Option.some_or]
    rcases List.eq_nil_or_concat' (front.filter fun answer => decide (some last ≠ some answer)) with
      hkept | ⟨init, other, hkept⟩
    · refine iff_of_true (by rw [hkept, List.getLast?_nil, Option.none_or]) fun _ answer hanswer => ?_
      rcases List.mem_append.1 hanswer with hfront | hlast
      · have hsame : ¬decide (some last ≠ some answer) := List.filter_eq_nil_iff.1 hkept answer hfront
        rw [decide_eq_true_eq, not_not] at hsame
        exact hsame.symm
      · rw [List.mem_singleton.1 hlast]
    · have hother := List.mem_filter.1 (hkept ▸ List.mem_append_right init (List.mem_singleton_self other))
      have hne : some last ≠ some other := of_decide_eq_true hother.2
      refine iff_of_false ?_ fun h => hne (h rfl other (List.mem_append_left _ hother.1)).symm
      rw [hkept, List.getLast?_concat, Option.some_or]
      exact fun h => hne h.symm
  · simp [List.filter_append, hlast, List.getLast?_append, Ne.symm hlast]

/-! ### One call -/

variable {core}

theorem holds_answerRow (slot : AnswerSlot Kind) (item : DeferredAnswer Kind) :
    slot.holds core (answerRow core item) = decide (item.slot = slot) := by
  obtain ⟨kind, promptHash, ⟨hashA, hashB⟩, model⟩ := slot
  rw [AnswerSlot.holds, decide_eq_decide]
  simp only [answerRow, DeferredAnswer.slot, AnswerSlot.mk.injEq, core.value_injective.eq_iff,
    Option.isSome_some, and_true, Prod.ext_iff, and_assoc]

/-- An answer written is the one its slot has; the other slots are as they were. -/
theorem lookupAnswer_add (ledger : ProbeLedger) (item : DeferredAnswer Kind) :
    lookupAnswer core (ledger.add (answerRow core item)) =
      lastAnswer (lookupAnswer core ledger) [item] := by
  funext slot
  by_cases hslot : item.slot = slot
  · have hholds : slot.holds core (answerRow core item) = true := by simp [holds_answerRow, hslot]
    rw [lookupAnswer, ProbeLedger.verdicts_add, List.filter_append,
      List.filter_cons_of_pos hholds, List.filter_nil, List.getLast?_concat, Option.bind_some]
    simp [lastAnswer, answersFor, hslot, answerRow]
  · have hholds : ¬slot.holds core (answerRow core item) = true := by simp [holds_answerRow, hslot]
    rw [lookupAnswer, ProbeLedger.verdicts_add, List.filter_append,
      List.filter_cons_of_neg hholds, List.filter_nil, List.append_nil]
    simp [lastAnswer, answersFor, hslot, lookupAnswer]

/-- A direct call leaves its answer the newest of its slot. -/
theorem lookupAnswer_recordAnswer (ledger : ProbeLedger) (item : DeferredAnswer Kind) :
    lookupAnswer core (recordAnswer core ⟨ledger, none⟩ item).1.ledger =
      lastAnswer (lookupAnswer core ledger) [item] := by
  rw [recordAnswer]
  split_ifs with hsame
  · funext slot
    by_cases hslot : item.slot = slot
    · simp [lastAnswer, answersFor, hslot, ← hsame]
    · simp [lastAnswer, answersFor, hslot]
  · exact lookupAnswer_add ledger item

omit [DecidableEq Kind] in
/-- Outside a block nothing is deferred. -/
theorem recordAnswer_direct (ledger : ProbeLedger) (item : DeferredAnswer Kind) :
    (recordAnswer core ⟨ledger, none⟩ item).1 =
      ⟨(recordAnswer core ⟨ledger, none⟩ item).1.ledger, none⟩ := by
  rw [recordAnswer]
  split_ifs <;> rfl

/-- Written one after another, the last answer of each slot is the one it has. -/
theorem exists_recordDeferred (ledger : ProbeLedger) (items : List (DeferredAnswer Kind)) :
    ∃ after, recordDeferred core ⟨ledger, none⟩ items = ⟨after, none⟩ ∧
      lookupAnswer core after = lastAnswer (lookupAnswer core ledger) items := by
  induction items generalizing ledger with
  | nil => exact ⟨ledger, rfl, funext fun slot => by simp [lastAnswer, answersFor]⟩
  | cons item items ih =>
      have hcons : recordDeferred core ⟨ledger, none⟩ (item :: items) =
          recordDeferred core ⟨(recordAnswer core ⟨ledger, none⟩ item).1.ledger, none⟩ items := by
        rw [← recordAnswer_direct]
        rfl
      rw [hcons, lastAnswer_cons, ← lookupAnswer_recordAnswer]
      exact ih _

/-! ### Blocks -/

/-- The answers of some calls that differ from what `ledger` has. -/
def differing (core : ProbeCore Kind) (ledger : ProbeLedger) (items : List (DeferredAnswer Kind)) :
    List (DeferredAnswer Kind) :=
  items.filter fun item => decide (lookupAnswer core ledger item.slot ≠ some item.answer)

omit [DecidableEq Kind] in
/-- Inside a block the answers that differ from the stored ones are kept. -/
theorem recordDeferred_deferring (ledger : ProbeLedger) (into items : List (DeferredAnswer Kind)) :
    recordDeferred core ⟨ledger, some into⟩ items =
      ⟨ledger, some (into ++ differing core ledger items)⟩ := by
  induction items generalizing into with
  | nil => simp [recordDeferred, differing]
  | cons item items ih =>
      have hcons : recordDeferred core ⟨ledger, some into⟩ (item :: items) =
          recordDeferred core (recordAnswer core ⟨ledger, some into⟩ item).1 items := rfl
      rw [hcons, recordAnswer]
      split_ifs with hsame
      · rw [ih, differing, differing, List.filter_cons_of_neg (by simp [hsame])]
      · rw [ih, differing, differing, List.filter_cons_of_pos (by simp [hsame]), List.append_assoc,
          List.singleton_append]

omit [DecidableEq Kind] in
/-- **A block keeps the answers that differ from the stored ones**, those of the blocks inside it as
its own. -/
theorem run_deferring (script : AnswerCalls Kind) (ledger : ProbeLedger)
    (into : List (DeferredAnswer Kind)) :
    script.run core ⟨ledger, some into⟩ =
      ⟨ledger, some (into ++ differing core ledger script.calls)⟩ := by
  induction script generalizing into with
  | done => simp [AnswerCalls.run, AnswerCalls.calls, differing]
  | call item rest ih =>
      have hone : recordDeferred core ⟨ledger, some into⟩ [item] =
          ⟨ledger, some (into ++ differing core ledger [item])⟩ :=
        recordDeferred_deferring ledger into [item]
      rw [recordDeferred, List.foldl_cons, List.foldl_nil] at hone
      rw [AnswerCalls.run, hone, ih, AnswerCalls.calls, List.append_assoc, differing, differing,
        differing, ← List.filter_append, List.singleton_append]
  | block body rest ihbody ihrest =>
      have htwice : differing core ledger (differing core ledger body.calls) =
          differing core ledger body.calls := by simp [differing]
      simp only [AnswerCalls.run, ihbody, List.nil_append, Option.getD_some,
        recordDeferred_deferring, htwice, ihrest, AnswerCalls.calls, List.append_assoc]
      rw [differing, differing, differing, List.filter_append]

omit [DecidableEq Kind] in
/-- A block outside any other writes the answers that differ from those stored when it began. -/
theorem run_block (body rest : AnswerCalls Kind) (ledger : ProbeLedger) :
    (AnswerCalls.block body rest).run core ⟨ledger, none⟩ =
      rest.run core (recordDeferred core ⟨ledger, none⟩ (differing core ledger body.calls)) := by
  simp only [AnswerCalls.run, run_deferring, List.nil_append, Option.getD_some]

/-- **Nothing is forgotten by a block exactly when it does not return** to an answer it left. -/
theorem lastAnswer_differing_iff (ledger : ProbeLedger) (items : List (DeferredAnswer Kind)) :
    lastAnswer (lookupAnswer core ledger) (differing core ledger items) =
        lastAnswer (lookupAnswer core ledger) items ↔
      KeepsLast (lookupAnswer core ledger) items := by
  have hfor : ∀ slot, answersFor slot (differing core ledger items) =
      (answersFor slot items).filter fun answer =>
        decide (lookupAnswer core ledger slot ≠ some answer) := by
    intro slot
    rw [answersFor, answersFor, differing, List.filter_map, List.filter_filter, List.filter_filter]
    refine congrArg _ (List.filter_congr fun item _ => ?_)
    by_cases hslot : item.slot = slot
    · subst hslot
      simp
    · simp [hslot]
  rw [funext_iff]
  refine forall_congr' fun slot => ?_
  rw [lastAnswer, lastAnswer, hfor]
  exact getLast?_filter_or

/-! ### Every sequence of calls -/

/-- Calls made directly, one after another, leave the last answer of every slot. -/
theorem lookupAnswer_direct (items : List (DeferredAnswer Kind)) (ledger : ProbeLedger) :
    lookupAnswer core ((AnswerCalls.direct items).run core ⟨ledger, none⟩).ledger =
      lastAnswer (lookupAnswer core ledger) items := by
  have hrun : ∀ state, (AnswerCalls.direct items).run core state = recordDeferred core state items := by
    induction items with
    | nil => exact fun _ => rfl
    | cons item items ih => exact fun state => ih _
  rw [hrun]
  obtain ⟨after, hafter, hlookup⟩ : ∃ after,
      recordDeferred core ⟨ledger, none⟩ items = ⟨after, none⟩ ∧
        lookupAnswer core after = lastAnswer (lookupAnswer core ledger) items :=
    exists_recordDeferred ledger items
  rw [hafter, hlookup]

/-- The last answer is remembered exactly when every lookup gives it. -/
theorem remembersLast_iff (ledger : ProbeLedger) (script : AnswerCalls Kind) :
    RemembersLast core ledger script ↔
      lookupAnswer core (script.run core ⟨ledger, none⟩).ledger =
        lastAnswer (lookupAnswer core ledger) script.calls := by
  rw [funext_iff]
  refine forall_congr' fun slot => ?_
  rw [lookupAnswer_direct, and_self_iff]

/-- **The last answer is remembered throughout exactly when no block returns.** -/
theorem remembers_iff_noneReturns (script : AnswerCalls Kind) (ledger : ProbeLedger) :
    (∀ before after, script = before.append after → RemembersLast core ledger before) ↔
      script.NoneReturns (lookupAnswer core ledger) := by
  induction script generalizing ledger with
  | done =>
      refine iff_of_true (fun before after hsplit => ?_) trivial
      cases before with
      | done => exact (remembersLast_iff ledger _).2 (lookupAnswer_direct [] ledger)
      | call => cases hsplit
      | block => cases hsplit
  | call item rest ih =>
      rw [AnswerCalls.NoneReturns, ← lookupAnswer_recordAnswer, ← ih]
      have hrun : ∀ before : AnswerCalls Kind,
          RemembersLast core ledger (.call item before) ↔
            RemembersLast core (recordAnswer core ⟨ledger, none⟩ item).1.ledger before := by
        intro before
        rw [remembersLast_iff, remembersLast_iff, AnswerCalls.run, AnswerCalls.calls,
          recordAnswer_direct, lastAnswer_cons, lookupAnswer_recordAnswer]
      constructor
      · rintro h before after rfl
        exact (hrun before).1 (h (.call item before) after rfl)
      · intro h before after hsplit
        cases before with
        | done => exact (remembersLast_iff ledger _).2 (lookupAnswer_direct [] ledger)
        | call item' before =>
            obtain ⟨rfl, rfl⟩ := AnswerCalls.call.inj hsplit
            exact (hrun before).2 (h before after rfl)
        | block => cases hsplit
  | block body rest ihbody ih =>
      obtain ⟨ledger', hafter, hlookup⟩ : ∃ after,
          recordDeferred core ⟨ledger, none⟩ (differing core ledger body.calls) = ⟨after, none⟩ ∧
            lookupAnswer core after =
              lastAnswer (lookupAnswer core ledger) (differing core ledger body.calls) :=
        exists_recordDeferred ledger (differing core ledger body.calls)
      rw [AnswerCalls.NoneReturns, ← lastAnswer_differing_iff, ← hlookup]
      have hrun : ∀ before : AnswerCalls Kind, lookupAnswer core ledger' =
          lastAnswer (lookupAnswer core ledger) body.calls →
          (RemembersLast core ledger (.block body before) ↔ RemembersLast core ledger' before) := by
        intro before hsame
        rw [remembersLast_iff, remembersLast_iff, run_block, hafter, AnswerCalls.calls,
          lastAnswer_append, hsame]
      constructor
      · intro h
        have hsame : lookupAnswer core ledger' = lastAnswer (lookupAnswer core ledger) body.calls := by
          have hblock := (remembersLast_iff ledger _).1 (h (.block body .done) rest rfl)
          rw [run_block, hafter, AnswerCalls.calls, AnswerCalls.calls, List.append_nil] at hblock
          exact hblock
        refine ⟨hsame, ?_⟩
        rw [← hsame, ← ih]
        rintro before after rfl
        exact (hrun before hsame).1 (h (.block body before) after rfl)
      · rintro ⟨hsame, hrest⟩ before after hsplit
        rw [← hsame, ← ih] at hrest
        cases before with
        | done => exact (remembersLast_iff ledger _).2 (lookupAnswer_direct [] ledger)
        | call => cases hsplit
        | block body' before =>
            obtain ⟨rfl, rfl⟩ := AnswerCalls.block.inj hsplit
            exact (hrun before hsame).2 (hrest before after rfl)

/-- **The probe ledger.**  Over calls of `record_answer`, made directly and in blocks, the last
answer is remembered throughout exactly when no block returns to the answer it started from; over
calls of the verdict writers the last verdict is remembered always. -/
theorem ledger_remembers (core : ProbeCore Kind) (ledger : ProbeLedger) (script : AnswerCalls Kind)
    (calls : List (VerdictCall Kind)) :
    ((∀ before after, script = before.append after → RemembersLast core ledger before) ↔
        script.NoneReturns (lookupAnswer core ledger)) ∧
      Remembered core ledger calls :=
  ⟨remembers_iff_noneReturns script ledger, remembered_recordAll core ledger calls⟩

end Answers

/-! ### A block that returns -/

/-- One probe kind, with an answer of its own. -/
def linkCore : ProbeCore Unit where
  value _ := "subject_link"
  value_injective := fun _ _ _ => rfl
  rungKind name := "rung:" ++ name
  rungKind_ne name _ h := by simpa using congrArg (fun s => s.toList.head?) h
  stampText stamp := stamp.name ++ "@" ++ stamp.version
  NO_SAMPLING := "none"

/-- The judge's answer about one name. -/
def judged (answer : String) (recordedAt : ℤ) : DeferredAnswer Unit where
  kind := ()
  promptHash := "v1"
  key := ("name", "offered")
  verdict := true
  answer := answer
  model := "m"
  recordedAt := recordedAt

/-- One answer is recorded, and then a block gives another one and the first again. -/
def returning : AnswerCalls Unit :=
  .call (judged "Q1" 1) (.block (.call (judged "Q2" 2) (.call (judged "Q1" 3) .done)) .done)

/-- The last call for the slot answers `Q1`; the ledger then gives `Q2`. -/
theorem returning_forgets :
    lookupAnswer linkCore (returning.run linkCore ⟨.empty, none⟩).ledger (judged "Q1" 3).slot =
        some "Q2" ∧
      ¬RemembersLast linkCore .empty returning := by
  have hlookup : lookupAnswer linkCore (returning.run linkCore ⟨.empty, none⟩).ledger
      (judged "Q1" 3).slot = some "Q2" := by decide +kernel
  refine ⟨hlookup, fun h => ?_⟩
  have hlast := (h (judged "Q1" 3).slot).1
  rw [hlookup] at hlast
  exact absurd hlast (by decide +kernel)

end ParticlesEngine
