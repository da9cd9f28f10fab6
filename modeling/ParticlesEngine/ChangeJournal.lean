/-
**The particle change journal.**

On SQLite, triggers append one entry to `particle_changes` for every row of `particles` that is
inserted, updated or deleted, in the transaction that changes it; an update that changes the id
names both ids.  A fourth trigger keeps the newest `JOURNAL_RETENTION` entries.  The journal is the
change log of `ChangeLog`, with ids as keys and eight random bytes as tokens.

Main definitions:

* `Database` — a store and its journal, as one snapshot sees them;
* `RowWrite`, `Database.write` — one row of `particles` changes and the triggers fire;
* `readHead`, `tokenAt`, `changedSince` — what a reader asks the journal;
* `Database.commit` — one committed change, of a row or of the other tables.

Main results:

* `Database.write_touched` — what a write changes, as entries and rows;
* `Database.recorded_write` — **a write with fresh tokens keeps the journal faithful**;
* `Database.since_run` — **what a reader of the journal knows survives every later commit**;
* `changedSince_eq_some` — a complete answer names every changed row.
-/

import Mathlib.Data.List.Dedup
import ParticlesEngine.ChangeLog
import ParticlesEngine.Runs
import ParticlesEngine.Store

set_option relaxedAutoImplicit false
set_option autoImplicit false

open ChangeLog

namespace ParticlesEngine

/-- How many journal entries are kept. -/
def JOURNAL_RETENTION : ℕ := 100000

/-- Eight random bytes, read as a number. -/
abbrev Token := ℕ

/-- The rows of `particle_changes`. -/
abbrev ChangeJournal := Log String Token

/-- A store and its journal, as one snapshot sees them. -/
structure Database where
  store : Store := {}
  journal : ChangeJournal := .empty
  deriving DecidableEq

/-- What a lookup by id reads. -/
def Database.rows (db : Database) : String → Option ParticleRow := db.store.get?

/-! ### Reading the journal -/

/-- The newest entry's number and token. -/
def readHead (journal : ChangeJournal) : Option (ℕ × Token) :=
  journal.head.map fun entry => (entry.seq, entry.token)

/-- The token of entry `seq`. -/
def tokenAt (journal : ChangeJournal) (seq : ℕ) : Option Token := journal.tokenAt seq

/-- The distinct ids changed after entry `seq`, or `none` past `limit`.  The empty id of the entry
written when the journal is installed is never returned. -/
def changedSince (journal : ChangeJournal) (seq limit : ℕ) : Option (List String) :=
  let ids := (((journal.entries.filter fun entry =>
    seq < entry.seq && entry.key ≠ "").map Entry.key).dedup).take (limit + 1)
  if limit < ids.length then none else some ids

/-- **A complete answer names every changed row**, and nothing else. -/
theorem changedSince_eq_some {journal : ChangeJournal} {seq limit : ℕ} {ids : List String}
    (h : changedSince journal seq limit = some ids) (id : String) :
    id ∈ ids ↔ NamedAfter journal seq id ∧ id ≠ "" := by
  simp only [changedSince] at h
  split_ifs at h with hlen
  obtain rfl := Option.some.inj h
  -- a list that is not longer than the limit was not cut
  rw [List.length_take] at hlen
  rw [List.take_of_length_le (by omega), List.mem_dedup]
  simp only [List.mem_map, List.mem_filter, Bool.and_eq_true, decide_eq_true_eq, NamedAfter]
  constructor
  · rintro ⟨entry, ⟨hmem, hlt, hne⟩, rfl⟩
    exact ⟨⟨entry, hmem, hlt, rfl⟩, hne⟩
  · rintro ⟨⟨entry, hmem, hlt, rfl⟩, hne⟩
    exact ⟨entry, ⟨hmem, hlt, hne⟩, rfl⟩

/-! ### Writing a row -/

/-- One row of `particles` changes; the tokens are the random bytes its triggers draw. -/
inductive RowWrite where
  | insert (row : ParticleRow) (token : Token)
  | update (id : String) (new : ParticleRow) (oldToken newToken : Token)
  | delete (id : String) (token : Token)

/-- The tokens a write may draw. -/
def RowWrite.tokens : RowWrite → List Token
  | .insert _ token => [token]
  | .update _ _ oldToken newToken => [oldToken, newToken]
  | .delete _ token => [token]

namespace Database

/-- The database with other `particles` rows and another journal. -/
def setParticles (db : Database) (particles : ParticleTable) (journal : ChangeJournal) :
    Database :=
  { store := { db.store with particles := particles }, journal := journal }

@[simp] theorem rows_setParticles (db : Database) (ps : ParticleTable) (j : ChangeJournal) :
    (db.setParticles ps j).rows = ps.get? := rfl

@[simp] theorem journal_setParticles (db : Database) (ps : ParticleTable) (j : ChangeJournal) :
    (db.setParticles ps j).journal = j := rfl

/-- Change one row and fire the triggers; `none` when a constraint refuses the write.  A statement
that matches no row changes nothing. -/
def write (db : Database) : RowWrite → Option Database
  | .insert row token =>
      (db.store.particles.insert? row).map fun particles =>
        db.setParticles particles (db.journal.touch JOURNAL_RETENTION row.id token)
  | .update id new oldToken newToken =>
      match db.rows id with
      | none => some db
      | some _ =>
          (db.store.particles.update? id new).map fun particles =>
            let journal :=
              if id ≠ new.id then db.journal.touch JOURNAL_RETENTION id oldToken else db.journal
            db.setParticles particles (journal.touch JOURNAL_RETENTION new.id newToken)
  | .delete id token =>
      match db.rows id with
      | none => some db
      | some _ =>
          some (db.setParticles (db.store.particles.delete id)
            (db.journal.touch JOURNAL_RETENTION id token))

end Database

/-! ### Faithful journals -/

/-- The history that a journal is faithful to: what every id reads right after a token was drawn. -/
abbrev History := Token → String → Option ParticleRow

/-- The journal is faithful to `H` and its tokens are among those drawn so far. -/
structure Recorded (used : List Token) (H : History) (rows : String → Option ParticleRow)
    (journal : ChangeJournal) : Prop where
  faithful : Faithful H rows journal
  tokens : ∀ entry ∈ journal.entries, entry.token ∈ used

/-- The history `H'` says what `H` says about the tokens drawn so far. -/
def AgreeOn (used : List Token) (H H' : History) : Prop := ∀ token ∈ used, H' token = H token

namespace Recorded

variable {used used' : List Token} {H H' : History} {rows rows' : String → Option ParticleRow}
  {journal : ChangeJournal}

theorem mono (h : Recorded used H rows journal) (hsub : used ⊆ used') :
    Recorded used' H rows journal :=
  ⟨h.faithful, fun entry hentry => hsub (h.tokens entry hentry)⟩

/-- What is recorded under one history is recorded under every later one. -/
theorem congr_history (h : Recorded used H rows journal) (hH : AgreeOn used H H') :
    Recorded used H' rows journal :=
  ⟨h.faithful.congr_history fun entry hentry => hH entry.token (h.tokens entry hentry), h.tokens⟩

/-- One trigger fires: the row `id` changes under a fresh token. -/
theorem touch (h : Recorded used H rows journal) {id : String} {token : Token}
    (hfresh : token ∉ used) (hrows : ∀ k, k ≠ id → rows' k = rows k) :
    Recorded (token :: used) (Function.update H token rows') rows'
      (journal.touch JOURNAL_RETENTION id token) where
  faithful := by
    refine h.faithful.touch JOURNAL_RETENTION (fun entry hentry heq => hfresh ?_) hrows
    rw [← heq]
    exact h.tokens entry hentry
  tokens := by
    intro entry hentry
    rcases (Log.mem_touch.1 hentry).1 with hmem | rfl
    · exact List.mem_cons_of_mem _ (h.tokens entry hmem)
    · exact List.mem_cons_self

end Recorded

theorem agreeOn_refl (used : List Token) (H : History) : AgreeOn used H H := fun _ _ => rfl

theorem agreeOn_update {used : List Token} {H : History} {token : Token}
    (hfresh : token ∉ used) (rows : String → Option ParticleRow) :
    AgreeOn used H (Function.update H token rows) := by
  intro t ht
  refine Function.update_of_ne ?_ _ _
  rintro rfl
  exact hfresh ht

namespace Database

/-- The journal of a database is recorded under `H`. -/
def RecordedBy (db : Database) (used : List Token) (H : History) : Prop :=
  Recorded used H db.rows db.journal

/-- **What a write changes**: the rows it touches, each recorded by one entry, and no other row. -/
theorem write_touched {db db' : Database} {w : RowWrite} (hwrite : db.write w = some db') :
    ∃ touched : List (String × Token), (touched.map Prod.snd).Sublist w.tokens ∧
      db'.journal = db.journal.touchAll JOURNAL_RETENTION touched ∧
      ∀ k, k ∉ touched.map Prod.fst → db'.rows k = db.rows k := by
  cases w with
  | insert row token =>
      obtain ⟨ps, hps, rfl⟩ := Option.map_eq_some_iff.1 hwrite
      refine ⟨[(row.id, token)], List.Sublist.refl _, rfl, fun k hk => ?_⟩
      exact (ParticleTable.get?_insert? hps k).trans (if_neg (by simpa [eq_comm] using hk))
  | delete id token =>
      cases hrow : db.rows id with
      | none =>
          simp only [write, hrow, Option.some.injEq] at hwrite
          subst hwrite
          exact ⟨[], List.nil_sublist _, rfl, fun _ _ => rfl⟩
      | some row =>
          simp only [write, hrow, Option.some.injEq] at hwrite
          subst hwrite
          refine ⟨[(id, token)], List.Sublist.refl _, rfl, fun k hk => ?_⟩
          exact (ParticleTable.get?_delete _ id k).trans (if_neg (by simpa [eq_comm] using hk))
  | update id new oldToken newToken =>
      cases hrow : db.rows id with
      | none =>
          simp only [write, hrow, Option.some.injEq] at hwrite
          subst hwrite
          exact ⟨[], List.nil_sublist _, rfl, fun _ _ => rfl⟩
      | some row =>
          simp only [write, hrow] at hwrite
          obtain ⟨ps, hps, rfl⟩ := Option.map_eq_some_iff.1 hwrite
          have hother : ∀ k, k ≠ id → k ≠ new.id → ps.get? k = db.rows k := fun k hk hk' =>
            ParticleTable.get?_update?_ne hps hk hk'
          by_cases hid : id = new.id
          · -- the id stays: one entry
            refine ⟨[(new.id, newToken)], by simp [RowWrite.tokens], ?_, fun k hk => ?_⟩
            · rw [journal_setParticles, if_neg (not_not.2 hid)]
              rfl
            · have hk : k ≠ new.id := by simpa using hk
              exact hother k (by rwa [hid]) hk
          · -- the id changes: two entries, for the old id and for the new one
            refine ⟨[(id, oldToken), (new.id, newToken)], List.Sublist.refl _, ?_, fun k hk => ?_⟩
            · rw [journal_setParticles, if_pos hid]
              rfl
            · obtain ⟨hold, hnew⟩ : k ≠ id ∧ k ≠ new.id := by simpa using hk
              exact hother k hold hnew

/-- Several changes under fresh tokens keep the journal recorded. -/
theorem recorded_touchAll {rows' : String → Option ParticleRow}
    {touched : List (String × Token)} :
    ∀ {used : List Token} {H : History} {rows : String → Option ParticleRow}
      {journal : ChangeJournal}, Recorded used H rows journal →
      (∀ token ∈ touched.map Prod.snd, token ∉ used) → (touched.map Prod.snd).Nodup →
      (∀ k, k ∉ touched.map Prod.fst → rows' k = rows k) →
      ∃ H', AgreeOn used H H' ∧ Recorded ((touched.map Prod.snd).reverse ++ used) H' rows'
        (journal.touchAll JOURNAL_RETENTION touched) := by
  induction touched with
  | nil =>
      intro used H rows journal h _ _ hrows
      obtain rfl : rows' = rows := funext fun k => hrows k List.not_mem_nil
      exact ⟨H, agreeOn_refl used H, h⟩
  | cons change touched ih =>
      intro used H rows journal h hfresh hnodup hrows
      rw [List.map_cons, List.nodup_cons] at hnodup
      obtain ⟨mid, hfirst, hrest⟩ := exists_between hrows
      have hchange : change.2 ∉ used := hfresh change.2 List.mem_cons_self
      have hlater : ∀ token ∈ touched.map Prod.snd, token ∉ change.2 :: used := by
        intro token htoken
        rw [List.mem_cons, not_or]
        exact ⟨fun heq => hnodup.1 (heq ▸ htoken), hfresh token (List.mem_cons_of_mem _ htoken)⟩
      obtain ⟨H', hagree, hrec⟩ := ih (h.touch hchange hfirst) hlater hnodup.2 hrest
      refine ⟨H', fun token htoken => ?_, ?_⟩
      · rw [hagree token (List.mem_cons_of_mem _ htoken)]
        exact agreeOn_update hchange _ token htoken
      · rw [Log.touchAll_cons]
        simpa using hrec

/-- **A write with fresh tokens keeps the journal recorded**, under a history that says about every
token drawn before what the old one said. -/
theorem recorded_write {db db' : Database} {used : List Token} {H : History} {w : RowWrite}
    (h : db.RecordedBy used H) (hfresh : ∀ token ∈ w.tokens, token ∉ used)
    (hnodup : w.tokens.Nodup) (hwrite : db.write w = some db') :
    ∃ H', AgreeOn used H H' ∧ db'.RecordedBy (w.tokens ++ used) H' := by
  obtain ⟨touched, hsub, hjournal, hrows⟩ := write_touched hwrite
  obtain ⟨H', hagree, hrec⟩ := recorded_touchAll h
    (fun token htoken => hfresh token (hsub.subset htoken)) (hnodup.sublist hsub) hrows
  refine ⟨H', hagree, ?_⟩
  rw [RecordedBy, hjournal]
  refine hrec.mono fun token htoken => ?_
  rcases List.mem_append.1 htoken with htoken | htoken
  · exact List.mem_append_left _ (hsub.subset (List.mem_reverse.1 htoken))
  · exact List.mem_append_right _ htoken

/-! ### Committed changes -/

/-- One committed change: one row of `particles`, or the other tables. -/
inductive Commit where
  | row (w : RowWrite)
  | tables (store : Store)

/-- The database after a committed change; `none` when a constraint refuses it. -/
def commit (db : Database) : Commit → Option Database
  | .row w => db.write w
  | .tables store =>
      some { db with store := { store with particles := db.store.particles } }

/-- The rows that a committed change writes. -/
def writtenRows (db : Database) : Commit → List ParticleRow
  | .row (.insert row _) => [row]
  | .row (.update id new _ _) => if (db.rows id).isSome then [new] else []
  | _ => []

/-- The ids whose rows a committed change takes away or writes. -/
def writtenIds (db : Database) : Commit → List String
  | .row (.insert row _) => [row.id]
  | .row (.update id new _ _) => if (db.rows id).isSome then [id, new.id] else []
  | .row (.delete id _) => [id]
  | .tables _ => []

/-- **What a committed change leaves**: the rows it writes, and every other row as it was. -/
theorem rows_commit {db db' : Database} {c : Commit} (hcommit : db.commit c = some db') :
    (∀ id, id ∉ db.writtenIds c → db'.rows id = db.rows id) ∧
    (∀ row ∈ db.writtenRows c, ∃ row', db'.rows row.id = some row' ∧ row'.model = row.model) ∧
    ∀ id ∈ db.writtenIds c, ∀ row', db'.rows id = some row' →
      ∃ row ∈ db.writtenRows c, row.model = row'.model := by
  cases c with
  | tables store =>
      obtain rfl := Option.some.inj hcommit
      exact ⟨fun _ _ => rfl, by simp [writtenRows], by simp [writtenIds]⟩
  | row w =>
      cases w with
      | insert row token =>
          obtain ⟨ps, hps, rfl⟩ := Option.map_eq_some_iff.1 hcommit
          have hget : ∀ id, ps.get? id = if row.id = id then some row else db.rows id :=
            ParticleTable.get?_insert? hps
          refine ⟨fun id hid => ?_, fun row' hrow' => ?_, fun id hid row' hrow' => ?_⟩
          · exact (hget id).trans (if_neg (by simpa [writtenIds, eq_comm] using hid))
          · obtain rfl := List.mem_singleton.1 hrow'
            exact ⟨row', (hget _).trans (if_pos rfl), rfl⟩
          · obtain rfl := List.mem_singleton.1 hid
            have hrow := (hget row.id).symm.trans hrow'
            rw [if_pos rfl] at hrow
            exact ⟨row, List.mem_singleton_self row, by rw [Option.some.inj hrow]⟩
      | delete id token =>
          cases hrow : db.rows id with
          | none =>
              simp only [commit, write, hrow, Option.some.injEq] at hcommit
              subst hcommit
              refine ⟨fun _ _ => rfl, by simp [writtenRows], fun k hk row' hrow' => ?_⟩
              obtain rfl := List.mem_singleton.1 hk
              exact absurd (hrow.symm.trans hrow') (by simp)
          | some row =>
              simp only [commit, write, hrow, Option.some.injEq] at hcommit
              subst hcommit
              have hget : ∀ k, (db.store.particles.delete id).get? k =
                  if id = k then none else db.rows k := ParticleTable.get?_delete _ id
              refine ⟨fun k hk => ?_, by simp [writtenRows], fun k hk row' hrow' => ?_⟩
              · exact (hget k).trans (if_neg (by simpa [writtenIds, eq_comm] using hk))
              · obtain rfl := List.mem_singleton.1 hk
                exact absurd ((hget k).symm.trans hrow') (by simp)
      | update id new oldToken newToken =>
          cases hrow : db.rows id with
          | none =>
              simp only [commit, write, hrow, Option.some.injEq] at hcommit
              subst hcommit
              exact ⟨fun _ _ => rfl, by simp [writtenRows, hrow], by simp [writtenIds, hrow]⟩
          | some row =>
              simp only [commit, write, hrow] at hcommit
              obtain ⟨ps, hps, rfl⟩ := Option.map_eq_some_iff.1 hcommit
              have hids : db.writtenIds (.row (.update id new oldToken newToken)) = [id, new.id] := by
                simp [writtenIds, hrow]
              have hrows : db.writtenRows (.row (.update id new oldToken newToken)) = [new] := by
                simp [writtenRows, hrow]
              rw [hids, hrows]
              refine ⟨fun k hk => ?_, fun row' hrow' => ?_, fun k hk row' hrow' => ?_⟩
              · obtain ⟨hold, hnew⟩ : k ≠ id ∧ k ≠ new.id := by simpa using hk
                exact ParticleTable.get?_update?_ne hps hold hnew
              · obtain rfl := List.mem_singleton.1 hrow'
                obtain ⟨hmem, hid⟩ := ParticleTable.get?_eq_some.1 hrow
                have hwritten := (ParticleTable.mem_rows_update? hps).2 ⟨row, hmem, if_pos hid⟩
                exact ⟨row'.atRowid row.rowid, ParticleTable.get?_id hwritten, rfl⟩
              · -- a row under either id is the rewritten one
                obtain ⟨hmem, rfl⟩ := ParticleTable.get?_eq_some.1 hrow'
                obtain ⟨r₀, hr₀, rfl⟩ := (ParticleTable.mem_rows_update? hps).1 hmem
                refine ⟨new, List.mem_singleton_self new, ?_⟩
                by_cases hr₀id : r₀.id = id
                · rw [if_pos hr₀id]
                  rfl
                · rw [if_neg hr₀id] at hk
                  have hnew : r₀.id = new.id := by simpa [hr₀id] using hk
                  exact absurd (ParticleTable.id_of_update? hps hr₀ hnew) hr₀id

/-- **A committed change keeps what a reader of the journal knows.** -/
theorem since_commit {db db' : Database} {n : ℕ} {rows₀ : String → Option ParticleRow} {c : Commit}
    (h : Since n rows₀ db.rows db.journal) (hcommit : db.commit c = some db') :
    Since n rows₀ db'.rows db'.journal := by
  cases c with
  | tables store =>
      obtain rfl := Option.some.inj hcommit
      exact h
  | row w =>
      obtain ⟨touched, -, hjournal, hrows⟩ := write_touched hcommit
      rw [hjournal]
      exact h.touchAll (by decide) hrows

/-- **So does every run of committed changes.** -/
theorem since_run {db db' : Database} {n : ℕ} {rows₀ : String → Option ParticleRow}
    {cs : List Commit} (h : Since n rows₀ db.rows db.journal)
    (hrun : Runs.run commit db cs = some db') : Since n rows₀ db'.rows db'.journal :=
  Runs.run_invariant (fun db : Database => Since n rows₀ db.rows db.journal)
    (fun _ _ _ h hstep => since_commit h hstep) h hrun

end Database

end ParticlesEngine
