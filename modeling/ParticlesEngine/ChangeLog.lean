/-
**Change logs with random tokens.**

A keyed collection of rows is watched through a log of its changes.  Every change of a row appends
one entry that names the row's key, numbered one past the newest entry and stamped with a fresh
token; old entries are pruned.  A reader that remembers the newest entry it saw, number and token,
and meets it again in a later log, possibly in a log that belongs to another history because the
number was handed out again after a rollback, must be able to tell which rows changed in between.

The argument is a history function `H` from tokens to rows: `H τ` is what the rows were right after
the entry with token `τ` was appended.  A log is *faithful* to a history when, seen from any of its
entries, a row either is what it was at that entry or is named by a later entry.  Nothing here
depends on a particular store.

Main definitions:

* `Entry`, `Log` — an entry and a log in increasing order of its numbers;
* `Log.head`, `Log.tokenAt`, `Log.touch` — the newest entry, the token at a number, and the append
  of one entry with the pruning that follows it;
* `NamedAfter` — some entry after a number names the key;
* `Faithful` — the invariant;
* `Log.touchAll` — several changes in turn;
* `Since` — what a reader who remembers one entry knows of the rows now.

Main results:

* `Faithful.touch` — **a change of one row, recorded by one entry, keeps the invariant**;
* `Faithful.rows_eq_of_head` — at its newest entry a log reads the rows of the history;
* `Faithful.catchUp` — **the rows not named after a remembered entry are the remembered rows**;
* `Since.touchAll` — **a reader's knowledge survives every later change**.
-/

import Mathlib.Data.List.Nodup
import Mathlib.Logic.Function.Basic

set_option relaxedAutoImplicit false
set_option autoImplicit false

namespace ChangeLog

/-- One entry: the row with key `key` changed. -/
structure Entry (κ τ : Type*) where
  seq : ℕ
  key : κ
  token : τ
  deriving DecidableEq, Repr

/-- The entries that are kept, oldest first. -/
structure Log (κ τ : Type*) where
  entries : List (Entry κ τ)
  /-- the number is a primary key, and the list is in its order -/
  ordered : entries.Pairwise fun e f => e.seq < f.seq

variable {κ ρ τ : Type*}

namespace Log

@[ext] theorem ext {log log' : Log κ τ} (h : log.entries = log'.entries) : log = log' := by
  cases log; cases log'; simp_all

instance [DecidableEq κ] [DecidableEq τ] : DecidableEq (Log κ τ) := fun log log' =>
  decidable_of_iff (log.entries = log'.entries) ⟨ext, fun h => h ▸ rfl⟩

/-- The log with no entry. -/
def empty : Log κ τ := ⟨[], List.Pairwise.nil⟩

/-- Two entries with one number are one entry. -/
theorem eq_of_seq_eq {log : Log κ τ} {e f : Entry κ τ} (he : e ∈ log.entries)
    (hf : f ∈ log.entries) (h : e.seq = f.seq) : e = f := by
  have hnodup : (log.entries.map Entry.seq).Nodup :=
    (List.pairwise_map.2 log.ordered).imp Nat.ne_of_lt
  exact List.inj_on_of_nodup_map hnodup he hf h

/-- The newest entry. -/
def head (log : Log κ τ) : Option (Entry κ τ) := log.entries.getLast?

/-- The token of the entry with number `n`. -/
def tokenAt (log : Log κ τ) (n : ℕ) : Option τ :=
  (log.entries.find? fun e => e.seq = n).map Entry.token

/-- The number of the next entry. -/
def nextSeq (log : Log κ τ) : ℕ := (log.head.map Entry.seq).getD 0 + 1

theorem head_eq_none {log : Log κ τ} : log.head = none ↔ log.entries = [] :=
  List.getLast?_eq_none_iff

theorem mem_of_head {log : Log κ τ} {e : Entry κ τ} (h : log.head = some e) :
    e ∈ log.entries := List.mem_of_getLast? h

/-- The head is the newest entry. -/
theorem seq_le_head {log : Log κ τ} {e f : Entry κ τ} (h : log.head = some e)
    (hf : f ∈ log.entries) : f.seq ≤ e.seq := by
  obtain ⟨init, hinit⟩ := List.getLast?_eq_some_iff.1 h
  have hord := log.ordered
  rw [hinit] at hf hord
  rcases List.mem_append.1 hf with hf | hf
  · exact Nat.le_of_lt ((List.pairwise_append.1 hord).2.2 f hf e List.mem_cons_self)
  · obtain rfl := List.mem_singleton.1 hf
    exact Nat.le_refl _

theorem seq_lt_nextSeq {log : Log κ τ} {f : Entry κ τ} (hf : f ∈ log.entries) :
    f.seq < log.nextSeq := by
  cases h : log.head with
  | none =>
      rw [head_eq_none.1 h] at hf
      exact absurd hf List.not_mem_nil
  | some e =>
      have := seq_le_head h hf
      simp only [nextSeq, h, Option.map_some, Option.getD_some]
      omega

theorem tokenAt_eq_some {log : Log κ τ} {n : ℕ} {t : τ} :
    log.tokenAt n = some t ↔ ∃ e ∈ log.entries, e.seq = n ∧ e.token = t := by
  constructor
  · intro h
    obtain ⟨e, he, rfl⟩ := Option.map_eq_some_iff.1 h
    exact ⟨e, List.mem_of_find?_eq_some he, by simpa using List.find?_some he, rfl⟩
  · rintro ⟨e, he, rfl, rfl⟩
    cases hfind : log.entries.find? fun f => f.seq = e.seq with
    | none => simpa using List.find?_eq_none.1 hfind e he
    | some f =>
        have hseq : f.seq = e.seq := by simpa using List.find?_some hfind
        rw [tokenAt, hfind, eq_of_seq_eq (List.mem_of_find?_eq_some hfind) he hseq]
        rfl

/-- Append the entry for one change, then drop the entries `retention` or more behind it. -/
def touch (log : Log κ τ) (retention : ℕ) (k : κ) (t : τ) : Log κ τ where
  entries := (log.entries ++ [(⟨log.nextSeq, k, t⟩ : Entry κ τ)]).filter fun e =>
    ¬ e.seq + retention ≤ log.nextSeq
  ordered := by
    refine List.Pairwise.filter _ (List.pairwise_append.2 ⟨log.ordered, by simp, ?_⟩)
    intro e he f hf
    obtain rfl := List.mem_singleton.1 hf
    exact seq_lt_nextSeq he

theorem mem_touch {log : Log κ τ} {retention : ℕ} {k : κ} {t : τ} {e : Entry κ τ} :
    e ∈ (log.touch retention k t).entries ↔
      (e ∈ log.entries ∨ e = ⟨log.nextSeq, k, t⟩) ∧ log.nextSeq < e.seq + retention := by
  simp [touch, or_and_right]

end Log

/-! ### Faithful logs -/

/-- Some entry after number `n` names the key `k`. -/
def NamedAfter (log : Log κ τ) (n : ℕ) (k : κ) : Prop :=
  ∃ e ∈ log.entries, n < e.seq ∧ e.key = k

/-- A log is faithful to a history `H` when, seen from any of its entries, a row is what the
history has there or is named by a later entry. -/
def Faithful (H : τ → κ → Option ρ) (rows : κ → Option ρ) (log : Log κ τ) : Prop :=
  ∀ e ∈ log.entries, ∀ k, rows k = H e.token k ∨ NamedAfter log e.seq k

namespace Faithful

variable {H H' : τ → κ → Option ρ} {rows rows' : κ → Option ρ} {log : Log κ τ}

/-- Only the history at the log's own tokens matters. -/
theorem congr_history (h : Faithful H rows log)
    (hH : ∀ e ∈ log.entries, H' e.token = H e.token) : Faithful H' rows log := by
  intro e he k
  rw [hH e he]
  exact h e he k

/-- **A change of the row `k`, recorded by one entry with a fresh token, keeps the invariant.** -/
theorem touch [DecidableEq τ] (h : Faithful H rows log) (retention : ℕ) {k : κ} {t : τ}
    (hfresh : ∀ e ∈ log.entries, e.token ≠ t) (hrows : ∀ k', k' ≠ k → rows' k' = rows k') :
    Faithful (Function.update H t rows') rows' (log.touch retention k t) := by
  intro e he k'
  obtain ⟨hmem, hkept⟩ := Log.mem_touch.1 he
  rcases hmem with hmem | rfl
  · -- an older entry: the new one names `k`, and every later entry is kept with it
    by_cases hk : k' = k
    · refine Or.inr ⟨⟨log.nextSeq, k, t⟩, Log.mem_touch.2 ⟨Or.inr rfl, ?_⟩, ?_, hk.symm⟩
      · have := Log.seq_lt_nextSeq hmem
        simp only
        omega
      · exact Log.seq_lt_nextSeq hmem
    · rw [Function.update_of_ne (hfresh e hmem), hrows k' hk]
      rcases h e hmem k' with hrow | ⟨f, hf, hlt, hkey⟩
      · exact Or.inl hrow
      · refine Or.inr ⟨f, Log.mem_touch.2 ⟨Or.inl hf, ?_⟩, hlt, hkey⟩
        omega
  · -- the new entry: the history at its token is the rows themselves
    exact Or.inl (by rw [Function.update_self])

/-- **At its newest entry a log reads the rows of the history.** -/
theorem rows_eq_of_head (h : Faithful H rows log) {e : Entry κ τ} (hhead : log.head = some e) :
    rows = H e.token := by
  funext k
  rcases h e (Log.mem_of_head hhead) k with hrow | ⟨f, hf, hlt, -⟩
  · exact hrow
  · have := Log.seq_le_head hhead hf
    omega

/-- **Rows not named after a remembered entry are the remembered rows.** -/
theorem catchUp (h : Faithful H rows log) {n : ℕ} {t : τ} (htoken : log.tokenAt n = some t)
    {k : κ} (hk : ¬ NamedAfter log n k) : rows k = H t k := by
  obtain ⟨e, he, rfl, rfl⟩ := Log.tokenAt_eq_some.1 htoken
  exact (h e he k).resolve_right hk

end Faithful

/-! ### Several changes -/

/-- One entry for each change, in turn. -/
def Log.touchAll (log : Log κ τ) (retention : ℕ) (touched : List (κ × τ)) : Log κ τ :=
  touched.foldl (fun log change => log.touch retention change.1 change.2) log

@[simp] theorem Log.touchAll_nil (log : Log κ τ) (retention : ℕ) :
    log.touchAll retention [] = log := rfl

theorem Log.touchAll_cons (log : Log κ τ) (retention : ℕ) (change : κ × τ)
    (touched : List (κ × τ)) :
    log.touchAll retention (change :: touched) =
      (log.touch retention change.1 change.2).touchAll retention touched := rfl

/-- The rows after the first of several changes: that change is made, the others are not. -/
theorem exists_between [DecidableEq κ] {rows rows' : κ → Option ρ} {change : κ × τ}
    {touched : List (κ × τ)}
    (hrows : ∀ k, k ∉ (change :: touched).map Prod.fst → rows' k = rows k) :
    ∃ mid : κ → Option ρ, (∀ k, k ≠ change.1 → mid k = rows k) ∧
      ∀ k, k ∉ touched.map Prod.fst → rows' k = mid k := by
  refine ⟨Function.update rows change.1 (rows' change.1), ?_, ?_⟩
  · intro k hk
    exact Function.update_of_ne hk _ _
  · intro k hk
    by_cases hfst : k = change.1
    · subst hfst
      rw [Function.update_self]
    · rw [Function.update_of_ne hfst]
      exact hrows k (by simpa [hfst] using hk)

/-! ### Following a log from one entry -/

/-- A reader who remembers entry `n` and the rows `rows₀`: the log has reached the entry, and while
it keeps it, a row is what it was or is named by a later entry. -/
structure Since (n : ℕ) (rows₀ rows : κ → Option ρ) (log : Log κ τ) : Prop where
  reached : n < log.nextSeq
  unnamed : (∃ e ∈ log.entries, e.seq = n) → ∀ k, rows k = rows₀ k ∨ NamedAfter log n k

namespace Since

variable {n : ℕ} {rows₀ rows rows' : κ → Option ρ} {log : Log κ τ} {retention : ℕ}

/-- A log that has reached the entry lets a reader remember the rows as they are. -/
theorem refl (hreached : n < log.nextSeq) (rows : κ → Option ρ) : Since n rows rows log :=
  ⟨hreached, fun _ _ => Or.inl rfl⟩

/-- A log reaches its own newest entry. -/
theorem of_head {e : Entry κ τ} (hhead : log.head = some e) (rows : κ → Option ρ) :
    Since e.seq rows rows log :=
  refl (Log.seq_lt_nextSeq (Log.mem_of_head hhead)) rows

/-- **One more change keeps what the reader knows.** -/
theorem touch (h : Since n rows₀ rows log) (hretention : 0 < retention) {k : κ} {t : τ}
    (hrows : ∀ k', k' ≠ k → rows' k' = rows k') :
    Since n rows₀ rows' (log.touch retention k t) where
  reached := by
    have hnew : (⟨log.nextSeq, k, t⟩ : Entry κ τ) ∈ (log.touch retention k t).entries :=
      Log.mem_touch.2 ⟨Or.inr rfl, by simp only; omega⟩
    exact Nat.lt_trans h.reached (Log.seq_lt_nextSeq hnew)
  unnamed := by
    rintro ⟨e, he, rfl⟩ k'
    obtain ⟨hmem, hkept⟩ := Log.mem_touch.1 he
    have hreached := h.reached
    -- the entry is an old one: the new one lies behind it
    have hold : e ∈ log.entries := by
      rcases hmem with hmem | rfl
      · exact hmem
      · exact absurd hreached (Nat.lt_irrefl _)
    by_cases hk : k' = k
    · refine Or.inr ⟨⟨log.nextSeq, k, t⟩, Log.mem_touch.2 ⟨Or.inr rfl, ?_⟩, hreached, hk.symm⟩
      simp only
      omega
    · rw [hrows k' hk]
      rcases h.unnamed ⟨e, hold, rfl⟩ k' with hrow | ⟨f, hf, hlt, hkey⟩
      · exact Or.inl hrow
      · refine Or.inr ⟨f, Log.mem_touch.2 ⟨Or.inl hf, ?_⟩, hlt, hkey⟩
        omega

/-- **Any number of changes keeps what the reader knows.** -/
theorem touchAll [DecidableEq κ] (hretention : 0 < retention) {touched : List (κ × τ)} :
    ∀ {rows : κ → Option ρ} {log : Log κ τ}, Since n rows₀ rows log →
      (∀ k, k ∉ touched.map Prod.fst → rows' k = rows k) →
      Since n rows₀ rows' (log.touchAll retention touched) := by
  induction touched with
  | nil =>
      intro rows log h hrows
      obtain rfl : rows' = rows := funext fun k => hrows k List.not_mem_nil
      exact h
  | cons change touched ih =>
      intro rows log h hrows
      obtain ⟨mid, hfirst, hrest⟩ := exists_between hrows
      exact ih (h.touch hretention hfirst) hrest

/-- **What the reader concludes**: a row not named since is the one it remembers. -/
theorem eq_of_not_named (h : Since n rows₀ rows log) {t : τ} (htoken : log.tokenAt n = some t)
    {k : κ} (hk : ¬ NamedAfter log n k) : rows k = rows₀ k := by
  obtain ⟨e, he, hseq, -⟩ := Log.tokenAt_eq_some.1 htoken
  exact (h.unnamed ⟨e, he, hseq⟩ k).resolve_right hk

end Since

end ChangeLog
