/-
**The writes of the passes over retirements.**

The re-anchor and the paraphrases pass walk the update retirements of a store, ask the model about
other claims, and retire some of them.  Their model calls run with no lock held, so other writers
commit between any two of their reads and writes.  This module states what the two passes share with
them, what a write of a pass does to the store, and what it was to rest on.

Main definitions:

* `PassStore`, `OtherWrite`, `applyOther` — what the passes share with other writers;
* `PassWrite` — what a pass commits;
* `ActsLive` — **a write rests on claims that live at that moment**;
* `OthersSpare` — no other writer has retired those claims since the pass began.

Main results:

* `HeldAs.other` — a claim that was fit when it was read is fit until another writer changes it;
* `goodWrite_of_retires` — when a retirement is good;
* `PassInv.other`, `PassInv.own` — **a pass retires each claim at most once**, and nothing undoes what
  the re-anchor pass has superseded.
-/

import ParticlesEngine.ConflictPlan
import ParticlesEngine.ConflictSearch
import ParticlesEngine.Interleave

set_option relaxedAutoImplicit false
set_option autoImplicit false

open Interleave

namespace ParticlesEngine

/-! ### What the passes share with other writers -/

/-- What the re-anchor pass decides of a dependent claim. -/
inductive Outcome where
  | RESTATED
  | MATCHED_EXISTING
  | UNRESTATED
  | DEPENDENCY_REJECTED
  deriving DecidableEq, Repr

/-- The operator events that the passes read and record. -/
inductive PassEvent where
  | UPDATE_SUPERSESSION (retiredId winnerId : String)
  | DEPENDENT_CLAIM_EXAMINED (outcome : Outcome) (particleId retiredId : String)
      (otherId : Option String)
  deriving DecidableEq, Repr

/-- What the passes read and write. -/
structure PassStore where
  store : Store
  /-- the newest first -/
  events : List PassEvent := []
  /-- the verdicts of the update probe, by the earlier and the later content -/
  ledger : List ((String × String) × Bool) := []
  clock : Instant := 0
  deriving DecidableEq

/-- What another writer commits. -/
inductive OtherWrite where
  | status (particleId : String) (status : Status) (reason : Option StatusReason)
  | reason (particleId : String) (reason : StatusReason)
  | insert (p : Particle) (embedding : Option EmbeddingJson)
  | event (event : PassEvent)
  | clock (now : Instant)
  deriving DecidableEq

/-- What a pass commits. -/
inductive PassWrite where
  | restated (originalId restatementId : String)
  | matchedExisting (originalId existingId : String)
  /-- an event alone -/
  | unrestated (originalId : String)
  | retiredParaphrase (paraphraseId winnerId : String)
  /-- a verdict of the update probe -/
  | remembered
  deriving DecidableEq, Repr

/-- A pass's world: the store, and what it and others have committed since it began. -/
abbrev PassWorld := World PassStore OtherWrite PassWrite

/-- The row with a given id. -/
def PassWorld.get? (g : PassWorld) (id : String) : Option ParticleRow := g.shared.store.get? id

section Apply

variable (ingest : IngestEnv) (table : TransitionTable)

/-- What another writer's commit leaves. -/
def applyOther (s : PassStore) : OtherWrite → Option PassStore
  | .status id status reason =>
      (updateParticleStatus table s.clock s.store id status reason).toOption.map fun store =>
        { s with store := store }
  | .reason id reason =>
      (updateStatusReason s.store id reason).toOption.map fun store => { s with store := store }
  | .insert p embedding =>
      (insertParticle ingest.core.contentHash ingest.currentId s.store p embedding).toOption.map
        fun store => { s with store := store }
  | .event event => some { s with events := event :: s.events }
  | .clock now => some { s with clock := now }

end Apply

/-! ### What a write rests on -/

/-- The claims that a write retires. -/
def PassWrite.retires : PassWrite → List String
  | .restated o _ => [o]
  | .matchedExisting o _ => [o]
  | .unrestated _ => []
  | .retiredParaphrase p _ => [p]
  | .remembered => []

/-- The status and the reason that a write leaves the claims with. -/
def PassWrite.leaves : PassWrite → Status × Option StatusReason
  | .retiredParaphrase _ _ => (.PROVENANCE_STALE, some .SUPERSEDED_BY_UPDATE)
  | _ => (.SUPERSEDED, some .SUPERSEDED_BY_REANCHOR)

/-- The writes of the re-anchor pass. -/
def PassWrite.byReanchor : PassWrite → Bool
  | .restated _ _ => true
  | .matchedExisting _ _ => true
  | .unrestated _ => true
  | .retiredParaphrase _ _ => false
  | .remembered => false

/-- The claims retired in the course of a pass, by the pass. -/
def retirements (history : List (Entry OtherWrite PassWrite)) : List String :=
  history.flatMap fun entry =>
    match entry with
    | .own w => w.retires
    | .other _ => []

/-- The claims restated in the course of a pass. -/
def restated (history : List (Entry OtherWrite PassWrite)) : List String :=
  history.flatMap fun entry =>
    match entry with
    | .own (.restated o _) => [o]
    | _ => []

/-- `_winner_usable`, on a status and its reason. -/
def usableAs (status : Status) (reason : Option StatusReason) : Prop :=
  status = .ACTIVE ∨ (status = .PROVENANCE_STALE ∧ reason = some .SUPERSEDED_BY_UPDATE)

instance (status : Status) (reason : Option StatusReason) : Decidable (usableAs status reason) :=
  inferInstanceAs (Decidable (_ ∨ _))

/-- The claim is stored, with a status and a reason that are fit. -/
def IsAs (fit : Status → Option StatusReason → Prop) (store : Store) (id : String) : Prop :=
  ∃ row, store.get? id = some row ∧ fit row.model.status row.model.statusReason

/-- **A write rests on claims that live**: the claim it retires is ACTIVE, so is the claim that a
match names, and the winner of an update is usable; and no claim that somebody had retired changes.
-/
def ActsLive (g : PassWorld) (w : PassWrite) (s : PassStore) : Prop :=
  (∀ id ∈ w.retires, IsActive g.shared.store id) ∧
    (∀ o d, w = .matchedExisting o d → IsActive g.shared.store d) ∧
    (∀ p u, w = .retiredParaphrase p u → IsAs usableAs g.shared.store u) ∧
    ∀ id row, g.get? id = some row → row.model.status ≠ .ACTIVE → s.store.get? id = some row

/-- The status that a commit of another writer gives to a claim. -/
def setBy (id : String) : Entry OtherWrite PassWrite → Option (Status × Option StatusReason)
  | .other (.status id' status reason) => if id' = id then some (status, reason) else none
  | .other (.reason id' reason) =>
      if id' = id then some (.PROVENANCE_STALE, some reason) else none
  | _ => none

/-- The status that another writer gave to a claim last, in the course of the pass. -/
def lastSet (history : List (Entry OtherWrite PassWrite)) (id : String) :
    Option (Status × Option StatusReason) :=
  history.findSome? (setBy id)

/-- Others have left the claim fit, if they have changed its status. -/
def LeftAs (fit : Status → Option StatusReason → Prop) (g : PassWorld) (id : String) : Prop :=
  ∀ set ∈ lastSet g.history id, fit set.1 set.2

/-- **The other writers have spared what a write rests on**: since the pass began they have left the
original of a restatement or a match, if they changed its status, other than PROVENANCE_STALE, the
claim that it matches ACTIVE, and the winner of an update usable. -/
def OthersSpare (g : PassWorld) : PassWrite → Prop
  | .restated o _ => LeftAs (fun status _ => status ≠ .PROVENANCE_STALE) g o
  | .matchedExisting o d =>
      LeftAs (fun status _ => status ≠ .PROVENANCE_STALE) g o ∧
        LeftAs (fun status _ => status = .ACTIVE) g d
  | .unrestated _ => True
  | .retiredParaphrase _ u => LeftAs usableAs g u
  | .remembered => True

/-! ### Claims held since a read -/

/-- A claim that was fit when it was read: it is, unless another writer left it unfit. -/
def HeldAs (fit : Status → Option StatusReason → Prop) (g : PassWorld) (id : String) : Prop :=
  ∃ row, g.get? id = some row ∧ (fit row.model.status row.model.statusReason ∨
    ∃ set ∈ lastSet g.history id, ¬ fit set.1 set.2)

section Held

variable {fit : Status → Option StatusReason → Prop} {g g' : PassWorld} {id : String}
  {ingest : IngestEnv} {table : TransitionTable}

theorem HeldAs.of_get? {row : ParticleRow} (hrow : g.get? id = some row)
    (hfit : fit row.model.status row.model.statusReason) : HeldAs fit g id :=
  ⟨row, hrow, .inl hfit⟩

/-- What is held is fit, when the others have left it so. -/
theorem HeldAs.isAs (h : HeldAs fit g id) (hleft : LeftAs fit g id) :
    IsAs fit g.shared.store id := by
  obtain ⟨row, hrow, hfit | ⟨set, hset, hunfit⟩⟩ := h
  · exact ⟨row, hrow, hfit⟩
  · exact absurd (hleft set hset) hunfit

/-- A change that leaves the claim's status alone keeps it held. -/
theorem HeldAs.kept {entry : Entry OtherWrite PassWrite} {s : PassStore}
    (hset : setBy id entry = none) (hrow : ∀ row, g.get? id = some row → s.store.get? id = some row)
    (h : HeldAs fit g id) : HeldAs fit ⟨s, entry :: g.history⟩ id := by
  obtain ⟨row, hget, hfit⟩ := h
  refine ⟨row, hrow row hget, ?_⟩
  simpa [lastSet, hset] using hfit

/-- A change that sets the claim's status keeps it held. -/
theorem HeldAs.set {entry : Entry OtherWrite PassWrite} {s : PassStore} (row : ParticleRow)
    (hset : setBy id entry = some (row.model.status, row.model.statusReason))
    (hrow : s.store.get? id = some row) : HeldAs fit ⟨s, entry :: g.history⟩ id := by
  refine ⟨row, hrow, ?_⟩
  by_cases hfit : fit row.model.status row.model.statusReason
  · exact .inl hfit
  · exact .inr ⟨(row.model.status, row.model.statusReason), by simp [lastSet, hset], hfit⟩

/-- **What is held stays held while others move.** -/
theorem HeldAs.other (h : HeldAs fit g id) (hstep : OtherStep (applyOther ingest table) g g') :
    HeldAs fit g' id := by
  obtain ⟨change, s, happly, rfl⟩ := hstep
  cases change with
  | status particleId status reason =>
      obtain ⟨store, hstore, rfl⟩ := Option.map_eq_some_iff.1 happly
      obtain ⟨row, hrow, -, hget⟩ := get?_updateParticleStatus (toOption_eq_some.1 hstore)
      by_cases hid : particleId = id
      · refine HeldAs.set (row.withStatus g.shared.clock status reason) ?_ ?_
        · simp [setBy, hid, ParticleRow.withStatus]
        · exact (hget id).trans (if_pos hid)
      · refine h.kept ?_ fun row hrow => ?_
        · simp [setBy, hid]
        · exact ((hget id).trans (if_neg hid)).trans hrow
  | reason particleId reason =>
      obtain ⟨store, hstore, rfl⟩ := Option.map_eq_some_iff.1 happly
      obtain ⟨row, hrow, hstale, hget⟩ := get?_updateStatusReason (toOption_eq_some.1 hstore)
      by_cases hid : particleId = id
      · refine HeldAs.set (row.withReason reason) ?_ ?_
        · simp [setBy, hid, ParticleRow.withReason, hstale]
        · exact (hget id).trans (if_pos hid)
      · refine h.kept ?_ fun row hrow => ?_
        · simp [setBy, hid]
        · exact ((hget id).trans (if_neg hid)).trans hrow
  | insert p embedding =>
      obtain ⟨store, hstore, rfl⟩ := Option.map_eq_some_iff.1 happly
      refine h.kept rfl fun row hrow => ?_
      exact (get?_insertParticle_of_some (toOption_eq_some.1 hstore) hrow).2
  | event event =>
      obtain rfl := Option.some.inj happly
      exact h.kept rfl fun row hrow => hrow
  | clock now =>
      obtain rfl := Option.some.inj happly
      exact h.kept rfl fun row hrow => hrow

/-- What other writers do is none of the pass's retirements. -/
theorem retirements_later (h : Later (applyOther ingest table) g g') :
    retirements g'.history = retirements g.history := by
  refine h.preserves (P := fun g' => retirements g'.history = retirements g.history) ?_ rfl
  rintro g₁ g₂ h₁ ⟨change, s, -, rfl⟩
  exact h₁

theorem HeldAs.later (h : HeldAs fit g id) (hlater : Later (applyOther ingest table) g g') :
    HeldAs fit g' id :=
  hlater.preserves (P := fun g => HeldAs fit g id) (fun _ _ hg hstep => hg.other hstep) h

end Held

/-! ### What a write of a pass leaves -/

/-- **What a commit of a pass does**: it retires claims that it had not retired before, and that
nothing had superseded, changes no other claim, and rests on claims that live, when the other writers
have spared them. -/
structure GoodWrite (reanchor : Bool) (g : PassWorld) (w : PassWrite) (s : PassStore) : Prop where
  kind : w.byReanchor = reanchor
  once : ∀ id ∈ w.retires, id ∉ retirements g.history
  others : ∀ id row, g.get? id = some row → id ∉ w.retires → s.store.get? id = some row
  retired : ∀ id ∈ w.retires, ∃ row row', g.get? id = some row ∧
    row.model.status ≠ .SUPERSEDED ∧ s.store.get? id = some row' ∧ (row'.model.status, row'.model.statusReason) = w.leaves
  live : OthersSpare g w → ActsLive g w s

section Good

variable {g : PassWorld} {w : PassWrite} {s : PassStore} {reanchor : Bool}

/-- An event or a verdict on record changes no claim. -/
theorem goodWrite_of_store_eq (hkind : w.byReanchor = reanchor) (hretires : w.retires = [])
    (hstore : s.store = g.shared.store) : GoodWrite reanchor g w s where
  kind := hkind
  once := by simp [hretires]
  others id row hrow _ := hstore ▸ hrow
  retired := by simp [hretires]
  live _ := by
    refine ⟨by simp [hretires], ?_, ?_, fun id row hrow _ => hstore ▸ hrow⟩
    · rintro o d rfl
      cases hretires
    · rintro p u rfl
      cases hretires

/-- **A retirement is good**, when it moves a claim that nothing has superseded, and that one alone.
-/
theorem goodWrite_of_retires {p : String} {row row' : ParticleRow}
    (hkind : w.byReanchor = reanchor) (hretires : w.retires = [p])
    (honce : p ∉ retirements g.history) (hrow : g.get? p = some row)
    (hstatus : row.model.status ≠ .SUPERSEDED) (hrow' : s.store.get? p = some row')
    (hleaves : (row'.model.status, row'.model.statusReason) = w.leaves)
    (hothers : ∀ id row, g.get? id = some row → id ≠ p → s.store.get? id = some row)
    (hactive : OthersSpare g w → row.model.status = .ACTIVE)
    (hmatched : OthersSpare g w → ∀ o d, w = .matchedExisting o d → IsActive g.shared.store d)
    (hwinner : OthersSpare g w → ∀ q u, w = .retiredParaphrase q u →
      IsAs usableAs g.shared.store u) : GoodWrite reanchor g w s where
  kind := hkind
  once := by simpa [hretires] using honce
  others id row hrow hid := hothers id row hrow (by simpa [hretires] using hid)
  retired id hid := by
    obtain rfl : id = p := by simpa [hretires] using hid
    exact ⟨row, row', hrow, hstatus, hrow', hleaves⟩
  live hspare := by
    refine ⟨fun id hid => ?_, hmatched hspare, hwinner hspare, fun id found hfound hretired => ?_⟩
    · obtain rfl : id = p := by simpa [hretires] using hid
      exact ⟨row, hrow, hactive hspare⟩
    · refine hothers id found hfound ?_
      rintro rfl
      obtain rfl := Option.some.inj (hrow.symm.trans hfound)
      exact hretired (hactive hspare)

end Good

/-- What the re-anchor pass has retired stays SUPERSEDED, by it. -/
def KeepsRetired (g : PassWorld) : Prop :=
  ∀ w, .own w ∈ g.history → w.byReanchor = true → ∀ id ∈ w.retires,
    IsAs (fun status reason => (status, reason) = w.leaves) g.shared.store id

section KeepsRetired

variable {g g' : PassWorld} {w : PassWrite} {s : PassStore} {reanchor : Bool}
  {ingest : IngestEnv} {table : TransitionTable}

theorem leaves_of_byReanchor (h : w.byReanchor = true) :
    w.leaves = (.SUPERSEDED, some .SUPERSEDED_BY_REANCHOR) := by
  cases w <;> first | rfl | cases h

/-- No other writer can undo a supersession by the re-anchor pass. -/
theorem superseded_other {id : String} {row : ParticleRow} (hrow : g.get? id = some row)
    (hstatus : row.model.status = .SUPERSEDED)
    (hreason : row.model.statusReason = some .SUPERSEDED_BY_REANCHOR)
    (hstep : OtherStep (applyOther ingest table) g g') : g'.get? id = some row := by
  obtain ⟨change, s, happly, rfl⟩ := hstep
  cases change with
  | status particleId status reason =>
      obtain ⟨store, hstore, rfl⟩ := Option.map_eq_some_iff.1 happly
      obtain ⟨found, hfound, hallows, hreversible, hset⟩ :=
        updateParticleStatus_eq_ok.1 (toOption_eq_some.1 hstore)
      have hne : particleId ≠ id := by
        rintro rfl
        obtain rfl := Option.some.inj (hfound.symm.trans hrow)
        rw [hstatus] at hallows
        have hactive := (table.from_superseded status).1 hallows
        have hmerged := hreversible hstatus hactive
        rw [hreason] at hmerged
        exact absurd hmerged (by decide)
      change store.get? id = some row
      rw [← hset, get?_setStatus, if_neg hne]
      exact hrow
  | reason particleId reason =>
      obtain ⟨store, hstore, rfl⟩ := Option.map_eq_some_iff.1 happly
      obtain ⟨found, hfound, hstale, hget⟩ := get?_updateStatusReason (toOption_eq_some.1 hstore)
      have hne : particleId ≠ id := by
        rintro rfl
        obtain rfl := Option.some.inj (hfound.symm.trans hrow)
        rw [hstatus] at hstale
        cases hstale
      exact ((hget id).trans (if_neg hne)).trans hrow
  | insert p embedding =>
      obtain ⟨store, hstore, rfl⟩ := Option.map_eq_some_iff.1 happly
      exact (get?_insertParticle_of_some (toOption_eq_some.1 hstore) hrow).2
  | event event =>
      obtain rfl := Option.some.inj happly
      exact hrow
  | clock now =>
      obtain rfl := Option.some.inj happly
      exact hrow

/-- **Other writers leave what the pass has retired as it is.** -/
theorem keepsRetired_other (h : KeepsRetired g) (hstep : OtherStep (applyOther ingest table) g g') :
    KeepsRetired g' := by
  intro w hw hkind id hid
  have hw' : .own w ∈ g.history := by
    obtain ⟨change, s, -, rfl⟩ := hstep
    simpa [World.change] using hw
  obtain ⟨row, hrow, hleaves⟩ := h w hw' hkind id hid
  have hsuperseded : row.model.status = .SUPERSEDED ∧
      row.model.statusReason = some .SUPERSEDED_BY_REANCHOR := by
    simpa [leaves_of_byReanchor hkind] using hleaves
  exact ⟨row, superseded_other hrow hsuperseded.1 hsuperseded.2 hstep, hleaves⟩

/-- **And so do the pass's own writes.** -/
theorem keepsRetired_own (h : KeepsRetired g) (hgood : GoodWrite reanchor g w s) :
    KeepsRetired (g.wrote w s) := by
  intro w' hw' hkind id hid
  rcases List.mem_cons.1 hw' with hw' | hw'
  · obtain rfl := Entry.own.inj hw'
    obtain ⟨-, row', -, -, hrow', hleaves⟩ := hgood.retired id hid
    exact ⟨row', hrow', hleaves⟩
  · obtain ⟨row, hrow, hleaves⟩ := h w' hw' hkind id hid
    refine ⟨row, hgood.others id row hrow ?_, hleaves⟩
    intro hretired
    obtain ⟨found, -, hfound, hstatus, -, -⟩ := hgood.retired id hretired
    obtain rfl := Option.some.inj (hfound.symm.trans hrow)
    rw [leaves_of_byReanchor hkind, Prod.mk.injEq] at hleaves
    exact hstatus hleaves.1

/-- What holds throughout a run of a pass. -/
structure PassInv (reanchor : Bool) (g : PassWorld) : Prop where
  keeps : KeepsRetired g
  kind : ∀ w, .own w ∈ g.history → w.byReanchor = reanchor
  /-- the pass retires each claim at most once -/
  nodup : (retirements g.history).Nodup

theorem PassInv.start (reanchor : Bool) (s : PassStore) : PassInv reanchor ⟨s, []⟩ where
  keeps := by simp [KeepsRetired]
  kind := by simp
  nodup := List.nodup_nil

theorem PassInv.other (h : PassInv reanchor g) (hstep : OtherStep (applyOther ingest table) g g') :
    PassInv reanchor g' := by
  have hkeeps := keepsRetired_other h.keeps hstep
  obtain ⟨change, s, -, rfl⟩ := hstep
  exact {
    keeps := hkeeps
    kind := by simpa [World.change] using h.kind
    nodup := h.nodup }

theorem PassInv.own (h : PassInv reanchor g) (hgood : GoodWrite reanchor g w s) :
    PassInv reanchor (g.wrote w s) where
  keeps := keepsRetired_own h.keeps hgood
  kind := by
    intro w' hw'
    rcases List.mem_cons.1 hw' with hw' | hw'
    · obtain rfl := Entry.own.inj hw'
      exact hgood.kind
    · exact h.kind w' hw'
  nodup := by
    have hretires : w.retires.Nodup := by cases w <;> simp [PassWrite.retires]
    refine List.nodup_append'.2 ⟨hretires, h.nodup, ?_⟩
    exact fun id hid => hgood.once id hid

/-- What the re-anchor pass has retired is SUPERSEDED. -/
theorem PassInv.superseded (h : PassInv true g) {id : String}
    (hid : id ∈ retirements g.history) :
    IsAs (fun status _ => status = .SUPERSEDED) g.shared.store id := by
  obtain ⟨entry, hentry, hid⟩ := List.mem_flatMap.1 hid
  cases entry with
  | other change => cases hid
  | own w =>
      have hkind := h.kind w hentry
      obtain ⟨row, hrow, hleaves⟩ := h.keeps w hentry hkind id hid
      have hsuperseded : row.model.status = .SUPERSEDED ∧
          row.model.statusReason = some .SUPERSEDED_BY_REANCHOR := by
        simpa [leaves_of_byReanchor hkind] using hleaves
      exact ⟨row, hrow, hsuperseded.1⟩

/-- A claim is restated at most once when it is retired at most once. -/
theorem restated_sublist (history : List (Entry OtherWrite PassWrite)) :
    (restated history).Sublist (retirements history) := by
  induction history with
  | nil => exact List.Sublist.refl _
  | cons entry history ih =>
      refine List.Sublist.append ?_ ih
      cases entry with
      | other change => exact List.Sublist.refl _
      | own w => cases w <;> simp [PassWrite.retires]

end KeepsRetired

end ParticlesEngine
