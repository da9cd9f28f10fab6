/-
**Sessions that share a candidate cache.**

Any number of sessions work on one store: each reads its own snapshot, one of them at a time writes,
and a write transaction ends in a commit or a rollback.  Sessions of one process share the cached
state of their engine, which `load_active_candidates` reads when it is called and replaces when it
is done; other sessions take steps in between, and a session may call it inside its own write
transaction.  The random bytes of the journal's triggers are never drawn twice.

Main definitions:

* `Session`, `System` — the open transaction and the call in progress of a session, and the whole
  system;
* `Action`, `System.step` — what can happen, and when.

Main results:

* `System.Inv` — **every snapshot is recorded under one history, and every state that a process
  keeps or a call has picked up is remembered under it**;
* `System.inv_step`, `System.inv_run` — the invariant is preserved by every step and every run;
* `cachedLoad_refines_loader` — **every call returns what the uncached loader would return from
  the same reader's snapshot**.
-/

import ParticlesEngine.Runs
import ParticlesEngine.CandidateCache

set_option relaxedAutoImplicit false
set_option autoImplicit false

open Runs

namespace ParticlesEngine

/-- An open transaction: its snapshot, with its own writes, and the commits that the snapshot saw. -/
structure Txn where
  view : Database
  base : ℕ

/-- A call of `load_active_candidates` in progress, with the state it picked up. -/
structure PendingCall where
  call : LoadCall
  previous : Option CacheState

/-- One session. -/
structure Session where
  txn : Option Txn := none
  pending : Option PendingCall := none

/-- A call that has returned: the snapshot it was made in, and its result. -/
structure Returned where
  view : Database
  call : LoadCall
  result : List (Particle × Embedding)

/-- The store, its sessions `S` and the processes' engines `E`. -/
structure System (S E : Type) where
  committed : Database
  /-- how many commits there have been -/
  commits : ℕ := 0
  /-- the session that holds the writer lock -/
  writer : Option S := none
  sessions : S → Session := fun _ => {}
  /-- `_STATES` -/
  states : E → Option CacheState := fun _ => none
  /-- the tokens drawn so far -/
  drawn : List Token
  returned : List Returned := []

/-- What can happen. -/
inductive Action (S E : Type) where
  /-- open a transaction over the committed store -/
  | begin (i : S)
  /-- take the writer lock, over an up-to-date snapshot -/
  | lock (i : S)
  /-- change one row of `particles` -/
  | write (i : S) (w : RowWrite)
  /-- change the subject links, which the journal does not cover -/
  | link (i : S) (links : Table ParticleSubjectRow.key)
  | commit (i : S)
  | rollback (i : S)
  /-- call `load_active_candidates`, which picks up the engine's state -/
  | call (i : S) (c : LoadCall)
  /-- the call reads its snapshot, stores its state and returns -/
  | finish (i : S)
  /-- drop an engine's state -/
  | clear (e : E)

namespace System

variable {S E : Type}

/-- The system over a committed store, with no session and no cache. -/
def start (db : Database) : System S E where
  committed := db
  drawn := db.journal.entries.map ChangeLog.Entry.token

/-- The open transaction of a session that has no call in progress. -/
def idleTxn (sys : System S E) (i : S) : Option Txn :=
  match (sys.sessions i).pending with
  | some _ => none
  | none => (sys.sessions i).txn

/-! ### The invariant -/

/-- **Every snapshot is recorded under one history `H`, and every state that a process keeps or a
call has picked up is remembered under it; every result so far is the loader's.** -/
structure Inv (float32 : ℚ → ℚ) (H : History) (sys : System S E) : Prop where
  committed : sys.committed.RecordedBy sys.drawn H
  views : ∀ i txn, (sys.sessions i).txn = some txn → txn.view.RecordedBy sys.drawn H
  states : ∀ e state, sys.states e = some state → state.Remembered float32 sys.drawn H
  pending : ∀ i p, (sys.sessions i).pending = some p →
    ∀ state, p.previous = some state → state.Remembered float32 sys.drawn H
  returned : ∀ r ∈ sys.returned, r.result = r.call.uncached float32 r.view.store

variable {float32 : ℚ → ℚ} {H H' : History} {sys sys' : System S E}

/-- At the start every entry of the journal is at the committed rows. -/
theorem inv_start (float32 : ℚ → ℚ) (db : Database) :
    Inv float32 (fun _ => db.rows) (start db : System S E) where
  committed := ⟨fun _ _ _ => Or.inl rfl, fun entry hentry => List.mem_map_of_mem hentry⟩
  views := by intro i txn h; simp [start] at h
  states := by intro e state h; simp [start] at h
  pending := by intro i p h; simp [start] at h
  returned := by intro r hr; simp [start] at hr

theorem idleTxn_eq_some {i : S} {txn : Txn} (h : sys.idleTxn i = some txn) :
    (sys.sessions i).txn = some txn := by
  unfold idleTxn at h
  cases hp : (sys.sessions i).pending with
  | none => simpa [hp] using h
  | some p => simp [hp] at h

/-- The invariant under a longer history. -/
theorem Inv.congr_history (h : Inv float32 H sys) {drawn : List Token}
    (hsub : sys.drawn ⊆ drawn) (hH : AgreeOn sys.drawn H H') :
    Inv float32 H' { sys with drawn := drawn } where
  committed := (h.committed.congr_history hH).mono hsub
  views := fun i txn htxn => ((h.views i txn htxn).congr_history hH).mono hsub
  states := fun e state hstate => (h.states e state hstate).congr_history hsub hH
  pending := fun i p hp state hstate => (h.pending i p hp state hstate).congr_history hsub hH
  returned := h.returned

/-! ### Steps -/

variable [DecidableEq S]

/-- The system with another session record for `i`. -/
def setSession (sys : System S E) (i : S) (session : Session) : System S E :=
  { sys with sessions := Function.update sys.sessions i session }

section Step

variable [DecidableEq E] (float32 : ℚ → ℚ) (engineOf : S → E)

/-- **One step**; `none` when it is not possible in this state. -/
def step (sys : System S E) : Action S E → Option (System S E)
  | .begin i =>
      match (sys.sessions i).txn with
      | some _ => none
      | none => some (sys.setSession i { txn := some ⟨sys.committed, sys.commits⟩ })
  | .lock i =>
      match sys.idleTxn i with
      | none => none
      | some txn =>
          if sys.writer.isNone ∧ txn.base = sys.commits then some { sys with writer := some i }
          else none
  | .write i w =>
      match sys.idleTxn i with
      | none => none
      | some txn =>
          if sys.writer = some i ∧ w.tokens.Nodup ∧ ∀ token ∈ w.tokens, token ∉ sys.drawn then
            (txn.view.write w).map fun view =>
              { sys.setSession i { txn := some { txn with view := view } } with
                drawn := w.tokens ++ sys.drawn }
          else none
  | .link i links =>
      match sys.idleTxn i with
      | none => none
      | some txn =>
          if sys.writer = some i then
            let store := { txn.view.store with subjectLinks := links }
            let view := { txn.view with store := store }
            some (sys.setSession i { txn := some { txn with view := view } })
          else none
  | .commit i =>
      match sys.idleTxn i with
      | none => none
      | some txn =>
          if sys.writer = some i then
            some { sys.setSession i {} with
              committed := txn.view, commits := sys.commits + 1, writer := none }
          else some (sys.setSession i {})
  | .rollback i =>
      match sys.idleTxn i with
      | none => none
      | some _ =>
          let writer := if sys.writer = some i then none else sys.writer
          some { sys.setSession i {} with writer := writer }
  | .call i c =>
      match sys.idleTxn i with
      | none => none
      | some txn =>
          some (sys.setSession i
            { txn := some txn, pending := some ⟨c, sys.states (engineOf i)⟩ })
  | .finish i =>
      match (sys.sessions i).txn, (sys.sessions i).pending with
      | some txn, some ⟨c, previous⟩ =>
          let (result, state) := loadActiveCandidates float32 txn.view previous c
          let states :=
            match state with
            | none => sys.states
            | some state => Function.update sys.states (engineOf i) (some state)
          some { sys.setSession i { txn := some txn } with
            states := states
            returned := sys.returned ++ [⟨txn.view, c, result⟩] }
      | _, _ => none
  | .clear e => some { sys with states := Function.update sys.states e none }

end Step

/-- A session gets a recorded snapshot and a remembered state: the invariant is kept. -/
theorem Inv.setSession (h : Inv float32 H sys) {i : S} {session : Session}
    (hview : ∀ txn, session.txn = some txn → txn.view.RecordedBy sys.drawn H)
    (hpending : ∀ p, session.pending = some p →
      ∀ state, p.previous = some state → state.Remembered float32 sys.drawn H) :
    Inv float32 H (sys.setSession i session) := by
  refine ⟨h.committed, ?_, h.states, ?_, h.returned⟩
  · intro j txn htxn
    by_cases hj : j = i
    · subst hj
      simp only [System.setSession, Function.update_self] at htxn
      exact hview txn htxn
    · simp only [System.setSession, Function.update_of_ne hj] at htxn
      exact h.views j txn htxn
  · intro j p hp
    by_cases hj : j = i
    · subst hj
      simp only [System.setSession, Function.update_self] at hp
      exact hpending p hp
    · simp only [System.setSession, Function.update_of_ne hj] at hp
      exact h.pending j p hp

section Preservation

variable [DecidableEq E] {engineOf : S → E}

theorem Inv.write (h : Inv float32 H sys) {i : S} {w : RowWrite}
    (hstep : sys.step float32 engineOf (.write i w) = some sys') : ∃ H', Inv float32 H' sys' := by
  simp only [step] at hstep
  cases htxn : sys.idleTxn i with
  | none => simp [htxn] at hstep
  | some txn =>
      simp only [htxn] at hstep
      split_ifs at hstep with hguard
      obtain ⟨-, hnodup, hfresh⟩ := hguard
      obtain ⟨view, hview, rfl⟩ := Option.map_eq_some_iff.1 hstep
      obtain ⟨H', hagree, hrec⟩ := Database.recorded_write
        (h.views i txn (idleTxn_eq_some htxn)) hfresh hnodup hview
      refine ⟨H', ?_⟩
      have hlater := h.congr_history (List.subset_append_right w.tokens sys.drawn) hagree
      refine hlater.setSession ?_ (by simp)
      intro txn' htxn'
      obtain rfl := Option.some.inj htxn'
      exact hrec

theorem Inv.finish (h : Inv float32 H sys) {i : S}
    (hstep : sys.step float32 engineOf (.finish i) = some sys') : Inv float32 H sys' := by
  simp only [step] at hstep
  cases htxn : (sys.sessions i).txn with
  | none => simp [htxn] at hstep
  | some txn =>
      cases hpending : (sys.sessions i).pending with
      | none => simp [htxn, hpending] at hstep
      | some p =>
          obtain ⟨c, previous⟩ := p
          simp only [htxn, hpending, Option.some.injEq] at hstep
          subst hstep
          have hview := h.views i txn htxn
          have hprevious := h.pending i _ hpending
          have hsession : Inv float32 H (sys.setSession i { txn := some txn }) := by
            refine h.setSession (fun txn' htxn' => ?_) (by simp)
            obtain rfl := Option.some.inj htxn'
            exact hview
          refine ⟨h.committed, hsession.views, ?_, hsession.pending, ?_⟩
          · -- the state left behind is remembered, like the ones it found
            intro e state hstate
            cases hleft : (loadActiveCandidates float32 txn.view previous c).2 with
            | none =>
                simp only [hleft] at hstate
                exact h.states e state hstate
            | some left =>
                simp only [hleft] at hstate
                by_cases he : e = engineOf i
                · subst he
                  rw [Function.update_self] at hstate
                  obtain rfl := Option.some.inj hstate
                  exact remembered_loadActiveCandidates hview hprevious hleft
                · rw [Function.update_of_ne he] at hstate
                  exact h.states e state hstate
          · intro r hr
            rcases List.mem_append.1 hr with hr | hr
            · exact h.returned r hr
            · obtain rfl := List.mem_singleton.1 hr
              exact loadActiveCandidates_eq hview hprevious c

/-- **Every step keeps the invariant**, under the history that its writes extend. -/
theorem inv_step (h : Inv float32 H sys) {a : Action S E}
    (hstep : sys.step float32 engineOf a = some sys') : ∃ H', Inv float32 H' sys' := by
  cases a with
  | write i w => exact h.write hstep
  | finish i => exact ⟨H, h.finish hstep⟩
  | begin i =>
      simp only [step] at hstep
      cases htxn : (sys.sessions i).txn with
      | some txn => simp [htxn] at hstep
      | none =>
          simp only [htxn, Option.some.injEq] at hstep
          subst hstep
          refine ⟨H, h.setSession (fun txn htxn => ?_) (by simp)⟩
          obtain rfl := Option.some.inj htxn
          exact h.committed
  | lock i =>
      simp only [step] at hstep
      cases htxn : sys.idleTxn i with
      | none => simp [htxn] at hstep
      | some txn =>
          simp only [htxn] at hstep
          split_ifs at hstep with hguard
          obtain rfl := Option.some.inj hstep
          exact ⟨H, h.committed, h.views, h.states, h.pending, h.returned⟩
  | link i links =>
      simp only [step] at hstep
      cases htxn : sys.idleTxn i with
      | none => simp [htxn] at hstep
      | some txn =>
          simp only [htxn] at hstep
          split_ifs at hstep with hguard
          obtain rfl := Option.some.inj hstep
          refine ⟨H, h.setSession (fun txn' htxn' => ?_) (by simp)⟩
          -- the links are not part of what the journal records
          obtain rfl := Option.some.inj htxn'
          exact h.views i txn (idleTxn_eq_some htxn)
  | commit i =>
      simp only [step] at hstep
      cases htxn : sys.idleTxn i with
      | none => simp [htxn] at hstep
      | some txn =>
          have hclosed : Inv float32 H (sys.setSession i {}) := h.setSession (by simp) (by simp)
          simp only [htxn] at hstep
          split_ifs at hstep with hguard
          · obtain rfl := Option.some.inj hstep
            exact ⟨H, h.views i txn (idleTxn_eq_some htxn), hclosed.views, hclosed.states,
              hclosed.pending, hclosed.returned⟩
          · obtain rfl := Option.some.inj hstep
            exact ⟨H, hclosed⟩
  | rollback i =>
      simp only [step] at hstep
      cases htxn : sys.idleTxn i with
      | none => simp [htxn] at hstep
      | some txn =>
          have hclosed : Inv float32 H (sys.setSession i {}) := h.setSession (by simp) (by simp)
          simp only [htxn, Option.some.injEq] at hstep
          subst hstep
          exact ⟨H, hclosed.committed, hclosed.views, hclosed.states, hclosed.pending,
            hclosed.returned⟩
  | call i c =>
      simp only [step] at hstep
      cases htxn : sys.idleTxn i with
      | none => simp [htxn] at hstep
      | some txn =>
          simp only [htxn, Option.some.injEq] at hstep
          subst hstep
          refine ⟨H, h.setSession (fun txn' htxn' => ?_) fun p hp state hstate => ?_⟩
          · obtain rfl := Option.some.inj htxn'
            exact h.views i txn (idleTxn_eq_some htxn)
          · obtain rfl := Option.some.inj hp
            exact h.states _ state hstate
  | clear e =>
      simp only [step, Option.some.injEq] at hstep
      subst hstep
      refine ⟨H, h.committed, h.views, fun e' state hstate => ?_, h.pending, h.returned⟩
      by_cases he : e' = e
      · subst he
        simp at hstate
      · simp only [Function.update_of_ne he] at hstate
        exact h.states e' state hstate

/-- **Every run keeps the invariant.** -/
theorem inv_run {as : List (Action S E)} (h : Inv float32 H sys)
    (hrun : run (step float32 engineOf) sys as = some sys') : ∃ H', Inv float32 H' sys' :=
  run_invariant (fun sys => ∃ H, Inv float32 H sys)
    (fun _ _ _ ⟨_, hinv⟩ hstep => inv_step hinv hstep) ⟨H, h⟩ hrun

end Preservation

end System

/-- **The candidate cache refines the uncached loader.**  In every run of any number of sessions
over any store, every call of `load_active_candidates` returns, row for row and in the same order,
what `get_active_particles_with_embeddings` returns from the snapshot of the same reader. -/
theorem cachedLoad_refines_loader {S E : Type} [DecidableEq S] [DecidableEq E]
    (float32 : ℚ → ℚ) (engineOf : S → E) (db : Database) (as : List (Action S E))
    (sys : System S E) (hrun : run (System.step float32 engineOf) (System.start db) as = some sys) :
    ∀ r ∈ sys.returned, r.result = getActiveParticlesWithEmbeddings float32 r.call.currentId
      r.view.store r.call.minConfidence r.call.subjectId := by
  obtain ⟨H, hinv⟩ := System.inv_run (System.inv_start float32 db) hrun
  exact hinv.returned

/-- A writer reads through the cache inside its transaction and rolls back; the number its entry
had is drawn again for another row, and a second session reads that one. -/
def rolledBackRun : List (Action Bool Unit) :=
  let row (id : String) (rowid : ℕ) : ParticleRow :=
    { model := { id := id, content := id }, rowid := rowid, embeddingJson := some [1] }
  let call : LoadCall := { currentId := LEGACY_EMBEDDING_MODEL_ID }
  [.begin true, .lock true, .write true (.insert (row "a" 1) 11), .call true call, .finish true,
    .rollback true,
    .begin false, .lock false, .write false (.insert (row "b" 1) 12), .commit false,
    .begin false, .call false call, .finish false]

theorem cachedLoad_refines_loader_rolledBack :
    ∃ sys : System Bool Unit,
      run (System.step id fun _ => ()) (System.start {}) rolledBackRun = some sys ∧
      sys.returned.map (fun r => r.result.map fun c => c.1.id) = [["a"], ["b"]] ∧
      ∀ r ∈ sys.returned, r.result = getActiveParticlesWithEmbeddings id r.call.currentId
        r.view.store r.call.minConfidence r.call.subjectId := by
  refine ⟨_, rfl, by decide, ?_⟩
  exact cachedLoad_refines_loader id (fun _ => ()) {} rolledBackRun _ rfl

end ParticlesEngine
