/-
**The paraphrases pass.**

When an update has retired a claim in favour of a winner, other phrasings of the old value may stay
ACTIVE.  `operations/paraphrases.py` walks the update retirements after its cursor, gathers for each
the ACTIVE claims that may be such phrasings, asks the model about each, and retires those whose
slot the winner changes.  The claims it offers are indexed once, at the start of the run; a winner is
read when its retirement is; and the model calls hold no lock.

Main definitions:

* `winnerOf`, `winnerUsable` — the claim that retired another, and whether it is evidence of a
  change;
* `paraphraseCandidates` — the phrasings of one retirement;
* `askParaphrase`, `examineRetirement`, `runParaphrases` — **the pass**.

Main results:

* `spec_winnerOf` — the winner is a stored claim, as it was read;
* `spec_runParaphrases` — **every write of the pass is good**: each phrasing is retired once, while
  it is ACTIVE, and for a winner that is usable unless another writer has retired it meanwhile.
-/

import Mathlib.Data.String.Basic
import ParticlesEngine.PassWrites
import ParticlesEngine.ReconcileSweeps
import ParticlesEngine.SearchUnderLock

set_option relaxedAutoImplicit false
set_option autoImplicit false

open FirstByKey Interleave SortBy

namespace ParticlesEngine

/-! ### The pass -/

/-- A verdict of the re-anchor probe on one candidate. -/
structure ProbeVerdict where
  candidateId : String
  /-- DEPENDS, else HOLDS -/
  depends : Bool
  restatement : Option String := none
  deriving DecidableEq, Repr

/-- The second reading of a restatement. -/
structure Reading where
  depended : Bool
  faithful : Bool
  deriving DecidableEq, Repr

/-- What a call to the outside returns: each question reads the part that answers it. -/
structure PassReply where
  /-- the update probe, with its second reading -/
  slot : Option SlotVerdict := none
  /-- `llm_circuit_open()` -/
  circuitOpen : Bool := false
  /-- the re-anchor probe -/
  probe : Option (List ProbeVerdict) := none
  reading : Option Reading := none
  /-- the judge reads two texts as paraphrases -/
  paraphrase : Bool := false
  contradiction : Option Bool := none
  /-- a fresh id -/
  uuid : String := ""

/-- A program of a pass. -/
abbrev PassProg (α : Type) := Prog PassStore PassWrite PassReply StoreError α

/-- What the paraphrases pass reads of its process. -/
structure ParaphraseEnv where
  /-- what it reads as the sweeps do -/
  sweep : UpdateSweep
  /-- `max_paraphrases`, `paraphrase_floor` and `max_paraphrase_probes` -/
  maxParaphrases : ℕ
  paraphraseFloor : ℚ
  probeCap : ℕ
  dryRun : Bool := false
  /-- `_PAGE` -/
  page : ℕ := 200
  /-- `newer_is_settled` of the older and the newer claim -/
  newerIsSettled : Particle → Particle → ℤ → Bool
  admitsUpdate : SlotVerdict → Bool

/-- What a run carries along. -/
structure ParaphraseState where
  index : SubjectIndex
  /-- first readings of the update probe -/
  probes : ℕ := 0
  /-- the cursor: the last retirement examined -/
  after : Option (Instant × String) := none
  stopped : Bool := false

/-- `get_update_retirements_after`: the claims retired by an update, the oldest retirement first. -/
def getUpdateRetirementsAfter (store : Store) (after : Option (Instant × String)) (limit : ℕ) :
    List (Particle × Instant) :=
  let retirements := store.particles.rows.filterMap fun row =>
    if row.model.statusReason = some .SUPERSEDED_BY_UPDATE then
      row.retiredAt.map fun retiredAt => (row.toModel, retiredAt)
    else none
  let key (r : Particle × Instant) : Instant ×ₗ String := toLex (r.2, r.1.id)
  (sortBy key (retirements.filter fun r => after.all fun at_ => toLex at_ < key r)).take limit

/-- `get_superseding_particle`: the latest of the claims whose `supersedes` names the id. -/
def getSupersedingParticle (store : Store) (supersededId : String) : Option Particle :=
  ((sortBy (fun row : ParticleRow => -row.model.assertedAt)
    (store.particles.rows.filter fun row => row.model.supersedes = some supersededId)).head?).map
      ParticleRow.toModel

/-- The winner that the newest event of a retirement names. -/
def namedWinner (events : List PassEvent) (retiredId : String) : Option String :=
  let found := events.filter fun event =>
    match event with
    | .UPDATE_SUPERSESSION retired winner => retired = retiredId ∨ winner = retiredId
    | _ => false
  (found.take 20).findSome? fun event =>
    match event with
    | .UPDATE_SUPERSESSION retired winner => if retired = retiredId then some winner else none
    | _ => none

/-- **`winner_of`.** -/
def winnerOf (retired : Particle) : PassProg (Option Particle) := do
  let named ← Prog.observe fun s => namedWinner s.events retired.id
  match named with
  | some winnerId => Prog.observe fun s => (s.store.get? winnerId).map ParticleRow.toModel
  | none => Prog.observe fun s => getSupersedingParticle s.store retired.id

/-- `_winner_usable`. -/
def winnerUsable (winner : Particle) : Bool := usableAs winner.status winner.statusReason

/-- `choose`: the candidates that go forward, highest cosine first. -/
def choose (scored : List (ℚ × Particle)) (limit : ℕ) : List (ℚ × Particle) :=
  (sortBy (fun c : ℚ × Particle => (toLex (-c.1, c.2.id) : ℚ ×ₗ String)) scored).take limit

/-- The verdict on record for a question. -/
def recalled (ledger : List ((String × String) × Bool)) (earlier later : Particle) : Option Bool :=
  (ledger.find? fun entry => entry.1 = (earlier.content, later.content)).map Prod.snd

section Pass

variable (env : ParaphraseEnv)

/-- The indexed claims at or above the floor, of the winner's kind. -/
def aboveFloor (speaker : Option SpeakerKey) (index : SubjectIndex) (retired : Particle)
    (retiredEmb : Embedding) (winner : Particle) : List (ℚ × Particle) :=
  let offered := ((particleSubjectIds env.sweep.ingest.text speaker retired).flatMap index.get).filter
    fun pair => pair.1.id ∉ index.retired
  (firstByKey (fun pair : EmbeddingPair => pair.1.id) [winner.id, retired.id] offered).filterMap
    fun pair =>
      let score := env.sweep.ingest.core.cosineSimilarity retiredEmb pair.2
      if score < env.paraphraseFloor then none
      else if env.sweep.ingest.core.isGenericClaim pair.1.content ≠
          env.sweep.ingest.core.isGenericClaim winner.content then none
      else some (score, pair.1)

/-- One claim above the floor: it qualifies when rung 2.5 could retire it for the winner. -/
def qualify (winner : Particle) (qualifying : List (ℚ × Particle)) (c : ℚ × Particle) :
    PassProg (Round (List (ℚ × Particle))) := do
  let order ← Prog.observe fun s => pairUpdateOrder env.sweep s.store winner c.2
  if order ≠ some 1 then return .next qualifying
  else if ¬ env.newerIsSettled c.2 winner 1 then return .next qualifying
  else do
    let reconciles ← Prog.observe fun s => env.sweep.observerReconciles s.store winner c.2
    if reconciles then return .next (qualifying ++ [c]) else return .next qualifying

/-- **`_candidates`** of one retirement, best first. -/
def paraphraseCandidates (speaker : Option SpeakerKey) (index : SubjectIndex) (retired : Particle)
    (retiredEmb : Embedding) (winner : Particle) : PassProg (List (ℚ × Particle)) := do
  let qualifying ← Prog.loop (qualify env winner)
    (aboveFloor env speaker index retired retiredEmb winner) []
  let kept ← Prog.observe fun s =>
    qualifying.filter fun c => recalled s.ledger c.2 winner ≠ some false
  return choose kept env.maxParaphrases

/-- `remember`, for one question. -/
def remember (earlier later : Particle) (admitted : Bool) (s : PassStore) :
    Except StoreError (PassWrite × PassStore) :=
  .ok (.remembered,
    { s with ledger := ((earlier.content, later.content), admitted) :: s.ledger })

/-- **`_retire`**, as one transaction. -/
def retireParaphrase (paraphrase winner : Particle) (s : PassStore) :
    Except StoreError (PassWrite × PassStore) := do
  let store ← updateParticleStatus env.sweep.table s.clock s.store paraphrase.id .PROVENANCE_STALE
    (some .SUPERSEDED_BY_UPDATE)
  return (.retiredParaphrase paraphrase.id winner.id,
    { s with
      store := store
      events := .UPDATE_SUPERSESSION paraphrase.id winner.id :: s.events })

/-- The state with a claim retired. -/
def ParaphraseState.retire (state : ParaphraseState) (id : String) : ParaphraseState :=
  { state with index := { state.index with retired := state.index.retired ++ [id] } }

/-- One candidate in the loop of `_ask`; beside the state, whether the model was reachable. -/
def askParaphrase (winner : Particle) (state : ParaphraseState × Bool) (c : ℚ × Particle) :
    PassProg (Round (ParaphraseState × Bool)) := do
  let answer ← Prog.reply fun r => (r.slot, r.circuitOpen)
  let asked := { state.1 with probes := state.1.probes + 1 }
  match answer.1 with
  | none => if answer.2 then return .stop (asked, false) else return .next (asked, true)
  | some verdict => do
      let _ ← Prog.transact (remember c.2 winner (env.admitsUpdate verdict))
      if verdict ≠ .CHANGES then return .next (asked, true)
      else do
        let _ ← Prog.transact (retireParaphrase env c.2 winner)
        return .next (asked.retire c.2.id, true)

/-- The candidates of a retirement, for the winner that was read. -/
def chosenFor (speaker : Option SpeakerKey) (index : SubjectIndex) (retired : Particle)
    (retiredEmb : Option Embedding) (winner : Option Particle) : PassProg (List (ℚ × Particle)) :=
  match winner, retiredEmb with
  | some winner, some retiredEmb =>
      if winnerUsable winner then
        paraphraseCandidates env speaker index retired retiredEmb winner
      else return []
  | _, _ => return []

/-- One retirement in the loop of `run_paraphrases`. -/
def examineRetirement (speaker : Option SpeakerKey) (embeddings : String → Option Embedding)
    (state : ParaphraseState) (item : Particle × Instant) : PassProg (Round ParaphraseState) := do
  let winner ← winnerOf item.1
  let chosen ← chosenFor env speaker state.index item.1 (embeddings item.1.id) winner
  let examined := some (item.2, item.1.id)
  if chosen ≠ [] ∧ (env.probeCap = 0 ∨
      0 < state.probes ∧ env.probeCap < state.probes + chosen.length) then
    return .stop { state with stopped := true }
  else if env.dryRun then
    return .next { state with probes := state.probes + chosen.length, after := examined }
  else
    match winner, chosen with
    | _, [] => return .next { state with after := examined }
    | none, _ => Prog.raise .assertion
    | some winner, chosen => do
        let asked ← Prog.loop (askParaphrase env winner) chosen (state, true)
        if asked.2 then return .next { asked.1 with after := examined }
        else return .stop { asked.1 with stopped := true }

/-- The pages of the cursor walk, at most the given number of them. -/
def paraphrasePages (speaker : Option SpeakerKey) : ℕ → ParaphraseState → PassProg ParaphraseState
  | 0, state => return state
  | pages + 1, state => do
      let page ← Prog.observe fun s => getUpdateRetirementsAfter s.store state.after env.page
      if page.isEmpty then return state
      else do
        let embeddings ← Prog.observe fun s => getEmbeddingById env.sweep.ingest s.store
        let state ← Prog.loop (examineRetirement env speaker embeddings) page state
        if state.stopped then return state else paraphrasePages speaker pages state

/-- **`run_paraphrases`** from a cursor. -/
def runParaphrases (pages : ℕ) (cursor : Option (Instant × String)) : PassProg Unit :=
  if ¬ env.sweep.enabled ∨ env.maxParaphrases = 0 then return ()
  else do
    let speaker ← Prog.observe fun s => env.sweep.speaker s.store
    let loaded ← Prog.observe fun s => env.sweep.loadActiveCandidates s.store
    let _ ← paraphrasePages env speaker pages
      { index := SubjectIndex.build env.sweep.ingest loaded speaker, after := cursor }
    return ()

end Pass

/-! ### What the pass reads -/

section Reads

variable {apply : PassStore → OtherWrite → Option PassStore} {inv : PassWorld → Prop}
  {good : PassWorld → PassWrite → PassStore → Prop} {g g' : PassWorld}

/-- The particle is stored as it was read. -/
def StoredAs (g : PassWorld) (p : Particle) : Prop := ∃ row, g.get? p.id = some row ∧ row.model = p

theorem StoredAs.heldAs {fit : Status → Option StatusReason → Prop} {p : Particle} (h : StoredAs g p)
    (hfit : fit p.status p.statusReason) : HeldAs fit g p.id := by
  obtain ⟨row, hrow, rfl⟩ := h
  exact HeldAs.of_get? hrow hfit

theorem storedAs_of_get? {id : String} {row : ParticleRow} (h : g.get? id = some row) :
    StoredAs g row.model := by
  obtain ⟨hmem, -⟩ := ParticleTable.get?_eq_some.1 h
  exact ⟨row, ParticleTable.get?_id hmem, rfl⟩

theorem storedAs_of_mem {row : ParticleRow} (h : row ∈ g.shared.store.particles.rows) :
    StoredAs g row.model :=
  ⟨row, ParticleTable.get?_id h, rfl⟩

/-- **The winner is a stored claim, as it was read.** -/
theorem spec_winnerOf {retired : Particle} {Q : Option Particle → PassWorld → Prop}
    (h : ∀ winner g', Later apply g g' → (∀ w ∈ winner, StoredAs g' w) → Q winner g') :
    Spec apply inv good (winnerOf retired) Q g := by
  refine Spec.bind (Spec.observe fun g₁ hlater₁ _ => ?_)
  split
  · refine Spec.observe fun g₂ hlater₂ _ => h _ _ (hlater₁.trans hlater₂) ?_
    intro w hw
    obtain ⟨row, hrow, rfl⟩ := Option.map_eq_some_iff.1 hw
    exact storedAs_of_get? hrow
  · refine Spec.observe fun g₂ hlater₂ _ => h _ _ (hlater₁.trans hlater₂) ?_
    intro w hw
    obtain ⟨row, hrow, rfl⟩ := Option.map_eq_some_iff.1 hw
    have hmem := mem_sortBy.1 (List.mem_of_mem_head? hrow)
    exact storedAs_of_mem (List.mem_filter.1 hmem).1

end Reads

/-! ### The candidates of a retirement -/

/-- Candidates of which none is named twice, and none is retired in this run. -/
structure Offers (index : SubjectIndex) (cs : List (ℚ × Particle)) : Prop where
  nodup : (cs.map fun c => c.2.id).Nodup
  fresh : ∀ c ∈ cs, c.2.id ∉ index.retired

section Candidates

variable {env : ParaphraseEnv} {index : SubjectIndex} {cs cs' : List (ℚ × Particle)}

theorem Offers.nil : Offers index [] := ⟨List.nodup_nil, by simp⟩

theorem Offers.sublist (h : Offers index cs) (hsub : cs'.Sublist cs) : Offers index cs' where
  nodup := (hsub.map _).nodup h.nodup
  fresh c hc := h.fresh c (hsub.subset hc)

theorem Offers.choose (h : Offers index cs) (limit : ℕ) : Offers index (choose cs limit) := by
  refine Offers.sublist ?_ (List.take_sublist _ _)
  have hperm := sortBy_perm (fun c : ℚ × Particle => (toLex (-c.1, c.2.id) : ℚ ×ₗ String)) cs
  exact ⟨((hperm.map _).nodup_iff).2 h.nodup, fun c hc => h.fresh c (hperm.mem_iff.1 hc)⟩

/-- Each claim above the floor is offered once. -/
theorem offers_aboveFloor (env : ParaphraseEnv) (speaker : Option SpeakerKey)
    (index : SubjectIndex) (retired : Particle) (retiredEmb : Embedding) (winner : Particle) :
    Offers index (aboveFloor env speaker index retired retiredEmb winner) := by
  unfold aboveFloor
  generalize hoffered : List.filter _ _ = offered
  have hfresh : ∀ pair ∈ offered, pair.1.id ∉ index.retired := by
    intro pair hpair
    rw [← hoffered] at hpair
    simpa using (List.mem_filter.1 hpair).2
  have hscored : ∀ {pair : EmbeddingPair} {c : ℚ × Particle}, (fun pair : EmbeddingPair =>
      let score := env.sweep.ingest.core.cosineSimilarity retiredEmb pair.2
      if score < env.paraphraseFloor then none
      else if env.sweep.ingest.core.isGenericClaim pair.1.content ≠
          env.sweep.ingest.core.isGenericClaim winner.content then none
      else some (score, pair.1)) pair = some c → c.2 = pair.1 := by
    intro pair c hc
    dsimp only at hc
    split_ifs at hc
    obtain rfl := Option.some.inj hc
    rfl
  have hkeys : ((firstByKey (fun pair : EmbeddingPair => pair.1.id) [winner.id, retired.id]
      offered).map fun pair => pair.1.id).Nodup := nodup_map_firstByKey
  refine ⟨?_, fun c hc => ?_⟩
  · refine hkeys.sublist (sublist_map_filterMap (fun pair c hc => ?_) _)
    rw [hscored hc]
  · obtain ⟨pair, hpair, hc⟩ := List.mem_filterMap.1 hc
    rw [hscored hc]
    exact hfresh pair (mem_of_mem_firstByKey hpair)

variable {apply : PassStore → OtherWrite → Option PassStore} {inv : PassWorld → Prop}
  {good : PassWorld → PassWrite → PassStore → Prop} {g g' : PassWorld}

/-- The candidates of a retirement are gathered by reads alone. -/
theorem spec_paraphraseCandidates {speaker : Option SpeakerKey} {retired : Particle}
    {retiredEmb : Embedding} {winner : Particle} {Q : List (ℚ × Particle) → PassWorld → Prop}
    (h : ∀ cs g', Later apply g g' → Offers index cs → Q cs g') :
    Spec apply inv good (paraphraseCandidates env speaker index retired retiredEmb winner) Q g := by
  have hoffers := offers_aboveFloor env speaker index retired retiredEmb winner
  generalize habove : aboveFloor env speaker index retired retiredEmb winner = above at hoffers
  unfold paraphraseCandidates
  rw [habove]
  -- what qualifies so far, and what is still to be tested, is part of what is above the floor
  have hloop : Spec apply inv good (Prog.loop (qualify env winner) above [])
      (fun cs g' => Offers index cs ∧ Later apply g g') g := by
    refine Spec.loop (fun rest cs g' => (cs ++ rest).Sublist above ∧ Later apply g g') ?_ ?_
      ⟨List.Sublist.refl _, Later.refl apply g⟩
    · rintro c rest cs g₁ ⟨hsub, hlater⟩
      have hskip : (cs ++ rest).Sublist above :=
        ((List.Sublist.refl cs).append (List.sublist_cons_self c rest)).trans hsub
      refine Spec.bind (Spec.observe fun g₂ hlater₂ _ => ?_)
      split_ifs
      · exact ⟨hskip, hlater.trans hlater₂⟩
      · refine Spec.bind (Spec.observe fun g₃ hlater₃ _ => ?_)
        split_ifs
        · exact ⟨by simpa using hsub, (hlater.trans hlater₂).trans hlater₃⟩
        · exact ⟨hskip, (hlater.trans hlater₂).trans hlater₃⟩
      · exact ⟨hskip, hlater.trans hlater₂⟩
    · rintro cs g₁ ⟨hsub, hlater⟩
      exact ⟨hoffers.sublist (by simpa using hsub), hlater⟩
  refine Spec.bind (Spec.mono hloop ?_)
  rintro qualifying g₁ ⟨hqualifying, hlater₁⟩
  refine Spec.bind (Spec.observe fun g₂ hlater₂ _ => ?_)
  exact h _ _ (hlater₁.trans hlater₂)
    ((hqualifying.sublist List.filter_sublist).choose env.maxParaphrases)

/-- **What is chosen for a retirement** is fresh, and there is a usable winner for it. -/
theorem spec_chosenFor {speaker : Option SpeakerKey} {retired : Particle}
    {retiredEmb : Option Embedding} {winner : Option Particle}
    {Q : List (ℚ × Particle) → PassWorld → Prop}
    (h : ∀ cs g', Later apply g g' → Offers index cs →
      (cs ≠ [] → ∀ w ∈ winner, winnerUsable w = true) → Q cs g') :
    Spec apply inv good (chosenFor env speaker index retired retiredEmb winner) Q g := by
  unfold chosenFor
  split
  · split_ifs with husable
    · refine spec_paraphraseCandidates fun cs g' hlater hoffers => h cs g' hlater hoffers ?_
      intro _ w hw
      obtain rfl := Option.some.inj hw
      exact husable
    · exact h [] g (Later.refl apply g) Offers.nil (absurd rfl)
  · exact h [] g (Later.refl apply g) Offers.nil (absurd rfl)

end Candidates

/-! ### The writes of the pass -/

section Writes

variable {env : ParaphraseEnv} {g g' : PassWorld}

/-- **A retirement is good**: the table lets only an ACTIVE claim be demoted, and the winner that
was usable when it was read is usable unless another writer has retired it. -/
theorem goodWrite_retireParaphrase {paraphrase winner : Particle} {w : PassWrite} {s : PassStore}
    (hwinner : HeldAs usableAs g winner.id) (hfresh : paraphrase.id ∉ retirements g.history)
    (hwrite : retireParaphrase env paraphrase winner g.shared = .ok (w, s)) :
    GoodWrite false g w s ∧ w = .retiredParaphrase paraphrase.id winner.id := by
  unfold retireParaphrase at hwrite
  obtain ⟨store, hstore, hresult⟩ := bind_eq_ok.1 hwrite
  obtain ⟨rfl, rfl⟩ := Prod.mk.inj (Except.ok.inj hresult)
  obtain ⟨row, hrow, hallows, hget⟩ := get?_updateParticleStatus hstore
  have hactive := env.sweep.table.to_stale hallows
  refine ⟨goodWrite_of_retires rfl rfl hfresh hrow ?_ ((hget _).trans (if_pos rfl)) rfl
    ?_ (fun _ => hactive) (fun _ o d hw => (by cases hw)) ?_, rfl⟩
  · rw [hactive]
    decide
  · intro id found hfound hid
    exact ((hget id).trans (if_neg (Ne.symm hid))).trans hfound
  · intro hspare p u hw
    obtain ⟨-, rfl⟩ := PassWrite.retiredParaphrase.inj hw
    exact hwinner.isAs hspare

/-- After a retirement the winner is still held. -/
theorem HeldAs.retireParaphrase {p u id : String} {s : PassStore}
    (hgood : GoodWrite false g (.retiredParaphrase p u) s) (h : HeldAs usableAs g id) :
    HeldAs usableAs (g.wrote (.retiredParaphrase p u) s) id := by
  by_cases hid : id = p
  · obtain ⟨row, row', -, -, hrow', hleaves⟩ := hgood.retired id (by simp [PassWrite.retires, hid])
    obtain ⟨hstatus, hreason⟩ := Prod.mk.inj hleaves
    exact HeldAs.of_get? (g := g.wrote _ s) hrow' (.inr ⟨hstatus, hreason⟩)
  · exact h.kept rfl fun row hrow => hgood.others id row hrow (by simpa [PassWrite.retires] using hid)

end Writes

/-! ### The run -/

section Run

variable {env : ParaphraseEnv} {g g' : PassWorld}

/-- The pass's own retirements are never offered again. -/
def Tracked (state : ParaphraseState) (g : PassWorld) : Prop :=
  ∀ id ∈ retirements g.history, id ∈ state.index.retired

/-- The specification of a program of the pass. -/
abbrev ParaphraseSpec (env : ParaphraseEnv) {α : Type} (p : PassProg α)
    (Q : α → PassWorld → Prop) (g : PassWorld) : Prop :=
  Spec (applyOther env.sweep.ingest env.sweep.table) (PassInv false) (GoodWrite false) p Q g

/-- What the loop of `_ask` rests on, for the candidates that are left. -/
structure AskingFor (winner : Particle) (cs : List (ℚ × Particle)) (state : ParaphraseState × Bool)
    (g : PassWorld) : Prop where
  tracked : Tracked state.1 g
  offers : Offers state.1.index cs
  winner : HeldAs usableAs g winner.id

theorem spec_askParaphrase {winner : Particle} {c : ℚ × Particle} {cs : List (ℚ × Particle)}
    {state : ParaphraseState × Bool} (h : AskingFor winner (c :: cs) state g) :
    ParaphraseSpec env (askParaphrase env winner state c)
      (fun round g => round.Leaves (AskingFor winner cs · g) (fun state => Tracked state.1 g)) g := by
  have hrest : Offers state.1.index cs := h.offers.sublist (List.sublist_cons_self c cs)
  refine Spec.bind (Spec.reply fun r => ?_)
  dsimp only
  split
  · split_ifs
    · exact h.tracked
    · exact ⟨h.tracked, hrest, h.winner⟩
  · next verdict _ =>
      refine Spec.bind (Spec.transact fun g₁ hlater₁ _ w s hwrite => ?_)
      obtain ⟨rfl, rfl⟩ := Prod.mk.inj (Except.ok.inj hwrite)
      have hgood : GoodWrite false g₁ .remembered { g₁.shared with
          ledger := ((c.2.content, winner.content), env.admitsUpdate verdict) ::
            g₁.shared.ledger } :=
        goodWrite_of_store_eq rfl rfl rfl
      refine ⟨hgood, ?_⟩
      have htracked : Tracked state.1 (g₁.wrote .remembered { g₁.shared with
          ledger := ((c.2.content, winner.content), env.admitsUpdate verdict) ::
            g₁.shared.ledger }) := by
        intro id hid
        exact h.tracked id (retirements_later hlater₁ ▸ hid)
      have hwinner : HeldAs usableAs (g₁.wrote .remembered { g₁.shared with
          ledger := ((c.2.content, winner.content), env.admitsUpdate verdict) ::
            g₁.shared.ledger }) winner.id :=
        (h.winner.later hlater₁).kept rfl fun row hrow => hrow
      split_ifs
      · exact ⟨htracked, hrest, hwinner⟩
      · refine Spec.bind (Spec.transact fun g₂ hlater₂ _ w s hwrite => ?_)
        have hretirements := retirements_later hlater₂
        have hfresh : c.2.id ∉ retirements g₂.history := by
          rw [hretirements]
          exact fun hid => h.offers.fresh c List.mem_cons_self (htracked _ hid)
        obtain ⟨hgood, rfl⟩ := goodWrite_retireParaphrase (hwinner.later hlater₂) hfresh hwrite
        refine ⟨hgood, ?_, ?_, (hwinner.later hlater₂).retireParaphrase hgood⟩
        · intro id hid
          rcases List.mem_append.1 hid with hid | hid
          · obtain rfl : id = c.2.id := by simpa [PassWrite.retires] using hid
            exact List.mem_append_right _ (List.mem_singleton.2 rfl)
          · exact List.mem_append_left _ (htracked id (hretirements ▸ hid))
        · refine ⟨hrest.nodup, fun d hd hretired => ?_⟩
          rcases List.mem_append.1 hretired with hretired | hretired
          · exact hrest.fresh d hd hretired
          · have hnodup := h.offers.nodup
            rw [List.map_cons, List.nodup_cons] at hnodup
            exact hnodup.1 (List.mem_map.2 ⟨d, hd, List.mem_singleton.1 hretired⟩)

/-- **One retirement of the walk.** -/
theorem spec_examineRetirement {speaker : Option SpeakerKey}
    {embeddings : String → Option Embedding} {state : ParaphraseState} {item : Particle × Instant}
    (h : Tracked state g) :
    ParaphraseSpec env (examineRetirement env speaker embeddings state item)
      (fun round g => Tracked round.value g) g := by
  refine Spec.bind (spec_winnerOf fun winner g₁ hlater₁ hstored => ?_)
  refine Spec.bind (spec_chosenFor fun cs g₂ hlater₂ hoffers husable => ?_)
  have htracked : Tracked state g₂ := by
    intro id hid
    exact h id (retirements_later (hlater₁.trans hlater₂) ▸ hid)
  dsimp only
  split_ifs
  · exact htracked
  · exact htracked
  · cases cs with
    | nil => exact htracked
    | cons c cs =>
        cases winner with
        | none => trivial
        | some winner =>
            have hfit := husable (by simp) winner rfl
            have hwinner : HeldAs usableAs g₂ winner.id :=
              ((hstored winner rfl).heldAs (of_decide_eq_true hfit)).later hlater₂
            refine Spec.bind (Spec.mono (Spec.loop (AskingFor winner)
              (Q := fun state g => Tracked state.1 g) (fun _ _ _ _ => spec_askParaphrase)
              (fun _ _ h => h.tracked) ⟨htracked, hoffers, hwinner⟩) ?_)
            intro asked g₃ hasked
            split_ifs
            · exact hasked
            · exact hasked

theorem spec_paraphrasePages {speaker : Option SpeakerKey} :
    ∀ {pages : ℕ} {state : ParaphraseState} {g : PassWorld}, Tracked state g →
      ParaphraseSpec env (paraphrasePages env speaker pages state) Tracked g := by
  intro pages
  induction pages with
  | zero => exact fun h => h
  | succ pages ih =>
      intro state g h
      refine Spec.bind (Spec.observe fun g₁ hlater₁ _ => ?_)
      have h₁ : Tracked state g₁ := fun id hid => h id (retirements_later hlater₁ ▸ hid)
      split_ifs
      · exact h₁
      · refine Spec.bind (Spec.observe fun g₂ hlater₂ _ => ?_)
        have h₂ : Tracked state g₂ := fun id hid => h₁ id (retirements_later hlater₂ ▸ hid)
        refine Spec.bind (Spec.mono (Spec.loop_inv Tracked
          (fun _ _ _ _ h => spec_examineRetirement h) h₂) ?_)
        intro state g₃ h₃
        split_ifs
        · exact h₃
        · exact ih h₃

/-- **Every write of the pass is good.** -/
theorem spec_runParaphrases (env : ParaphraseEnv) (pages : ℕ) (cursor : Option (Instant × String))
    (s : PassStore) :
    ParaphraseSpec env (runParaphrases env pages cursor) (fun _ _ => True) ⟨s, []⟩ := by
  unfold runParaphrases
  split_ifs
  · trivial
  · refine Spec.bind (Spec.observe fun g₁ hlater₁ _ => ?_)
    refine Spec.bind (Spec.observe fun g₂ hlater₂ _ => ?_)
    have hnone : ∀ state, Tracked state g₂ := by
      intro state id hid
      rw [retirements_later (hlater₁.trans hlater₂)] at hid
      cases hid
    exact Spec.bind (Spec.mono (spec_paraphrasePages (hnone _)) fun _ _ _ => trivial)

end Run

end ParticlesEngine
