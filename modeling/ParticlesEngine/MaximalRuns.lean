/-
**The maximal runs of a text.**

A search for all matches of `[class]+` finds, from left to right, the maximal runs of characters of the
class.  This module states what a maximal run is without the search, and that the search finds exactly
these.  It names nothing of a particular program.

Main definitions:

* `Run`, `runs` — a run with its position, and the search;
* `IsRun` — a stretch of characters of the class that none stands before or behind.

Main results:

* `mem_runs` — **the search finds exactly the maximal runs**.
-/

import Mathlib.Data.List.Induction
import Mathlib.Data.List.TakeWhile

set_option relaxedAutoImplicit false
set_option autoImplicit false

namespace MaximalRuns

variable {α : Type*}

/-- A run and where it starts. -/
structure Run (α : Type*) where
  start : ℕ
  word : List α
  deriving DecidableEq, Repr

/-- Where a run ends. -/
def Run.stop (r : Run α) : ℕ := r.start + r.word.length

/-- The run that has been read, if there is one. -/
def flush (start : ℕ) (word : List α) : List (Run α) := if word.isEmpty then [] else [⟨start, word⟩]

/-- The runs of a text, after what has been read of a run. -/
def runsFrom (p : α → Bool) (start : ℕ) (word : List α) : List α → List (Run α)
  | [] => flush start word
  | c :: rest =>
      if p c then runsFrom p start (word ++ [c]) rest
      else flush start word ++ runsFrom p (start + word.length + 1) [] rest

/-- The runs of a text. -/
def runs (p : α → Bool) (text : List α) : List (Run α) := runsFrom p 0 [] text

/-- A stretch of a text that starts at a position, all of whose characters pass, and such that no
character that passes stands right before or behind it. -/
def IsRunFrom (p : α → Bool) (start : ℕ) (text : List α) (r : Run α) : Prop :=
  ∃ before after, text = before ++ (r.word ++ after) ∧ r.start = start + before.length ∧
    r.word ≠ [] ∧ (∀ c ∈ r.word, p c = true) ∧ (∀ front c, before = front ++ [c] → p c = false) ∧
      ∀ c back, after = c :: back → p c = false

/-- **A maximal run of a text.** -/
def IsRun (p : α → Bool) (text : List α) (r : Run α) : Prop := IsRunFrom p 0 text r

variable {p : α → Bool}

theorem mem_flush {start : ℕ} {word : List α} {r : Run α} :
    r ∈ flush start word ↔ word ≠ [] ∧ r = ⟨start, word⟩ := by
  unfold flush
  cases word with
  | nil => simp
  | cons c word => simp

theorem eq_nil_of_last {before : List α} (hpass : ∀ c ∈ before, p c = true)
    (hlast : ∀ front c, before = front ++ [c] → p c = false) : before = [] := by
  induction before using List.reverseRecOn with
  | nil => rfl
  | append_singleton front c _ =>
      have hc := hpass c (by simp)
      rw [hlast front c rfl] at hc
      cases hc

/-- A run is what a text begins with, up to the first character that does not pass. -/
theorem takeWhile_run {word after : List α} (hword : ∀ c ∈ word, p c = true)
    (hafter : ∀ c back, after = c :: back → p c = false) : (word ++ after).takeWhile p = word := by
  rw [List.takeWhile_append_of_pos hword]
  cases after with
  | nil => simp
  | cons c back => simp [hafter c back rfl]

/-- A run that starts where the text starts. -/
theorem isRunFrom_of_takeWhile {start : ℕ} {text : List α} {r : Run α} (hne : r.word ≠ [])
    (hstart : r.start = start) (htext : text.takeWhile p = r.word) : IsRunFrom p start text r := by
  refine ⟨[], text.dropWhile p, ?_, by simpa using hstart, hne, ?_, by simp, ?_⟩
  · rw [← htext, List.nil_append, List.takeWhile_append_dropWhile]
  · intro c hc
    rw [← htext] at hc
    exact List.mem_takeWhile_imp hc
  · intro c back hback
    have hhead := List.head?_dropWhile_not p text
    rw [hback] at hhead
    simpa using hhead

/-- Of a text of characters that pass, the whole is the only run. -/
theorem isRunFrom_of_all {start : ℕ} {word : List α} {r : Run α} (hword : ∀ c ∈ word, p c = true) :
    IsRunFrom p start word r ↔ word ≠ [] ∧ r = ⟨start, word⟩ := by
  constructor
  · rintro ⟨before, after, rfl, hstart, hne, hpass, hbefore, hafter⟩
    obtain rfl := eq_nil_of_last (fun c hc => hword c (List.mem_append_left _ hc)) hbefore
    have hwhole := takeWhile_run hpass hafter
    rw [List.nil_append] at hword ⊢
    rw [List.takeWhile_eq_self_iff.2 hword] at hwhole
    obtain ⟨rstart, rword⟩ := r
    obtain rfl : rstart = start := hstart
    exact ⟨by simp [hne], by rw [hwhole]⟩
  · rintro ⟨hne, rfl⟩
    exact isRunFrom_of_takeWhile hne rfl (List.takeWhile_eq_self_iff.2 hword)

/-- A character that does not pass ends the run before it. -/
theorem isRunFrom_append_cons {start : ℕ} {word rest : List α} {c : α} {r : Run α}
    (hword : ∀ c ∈ word, p c = true) (hc : p c = false) :
    IsRunFrom p start (word ++ c :: rest) r ↔
      (word ≠ [] ∧ r = ⟨start, word⟩) ∨ IsRunFrom p (start + word.length + 1) rest r := by
  have hhead : (word ++ c :: rest).takeWhile p = word := by
    refine takeWhile_run hword ?_
    rintro d back heq
    rwa [← (List.cons.inj heq).1]
  constructor
  · rintro ⟨before, after, htext, hstart, hne, hpass, hbefore, hafter⟩
    rcases List.append_eq_append_iff.1 htext with ⟨front, rfl, hrest⟩ | ⟨back, rfl, hrest⟩
    · cases front with
      | nil =>
          -- the run would start with the character that does not pass
          obtain ⟨d, word', hd⟩ := List.exists_cons_of_ne_nil hne
          have hpd := hpass d (hd ▸ List.mem_cons_self)
          rw [List.nil_append, hd, List.cons_append] at hrest
          rw [← (List.cons.inj hrest).1, hc] at hpd
          cases hpd
      | cons d front =>
          rw [List.cons_append] at hrest
          obtain ⟨rfl, htail⟩ := List.cons.inj hrest
          refine Or.inr ⟨front, after, htail, ?_, hne, hpass, ?_, hafter⟩
          · rw [hstart, List.length_append, List.length_cons]
            omega
          · rintro front' d rfl
            exact hbefore (word ++ c :: front') d (by simp)
    · obtain rfl := eq_nil_of_last (fun c hc => hword c (List.mem_append_left _ hc)) hbefore
      rw [List.nil_append] at htext hhead ⊢
      rw [htext, List.nil_append, takeWhile_run hpass hafter] at hhead
      subst hhead
      exact Or.inl ⟨hne, by cases r; simpa using hstart⟩
  · rintro (⟨hne, rfl⟩ | ⟨before, after, rfl, hstart, hne, hpass, hbefore, hafter⟩)
    · exact isRunFrom_of_takeWhile hne rfl hhead
    · refine ⟨word ++ c :: before, after, by simp, ?_, hne, hpass, ?_, hafter⟩
      · rw [hstart, List.length_append, List.length_cons]
        omega
      · intro front d heq
        have hlast := congrArg List.getLast? heq
        induction before using List.reverseRecOn with
        | nil =>
            obtain rfl : c = d := by simpa using hlast
            exact hc
        | append_singleton before e _ =>
            rw [← List.cons_append, ← List.append_assoc, List.getLast?_concat,
              List.getLast?_concat] at hlast
            obtain rfl := Option.some.inj hlast
            exact hbefore before e rfl

/-- The search finds the runs of what has been read and what comes. -/
theorem mem_runsFrom {r : Run α} (rest : List α) : ∀ {start : ℕ} {word : List α},
    (∀ c ∈ word, p c = true) → (r ∈ runsFrom p start word rest ↔ IsRunFrom p start (word ++ rest) r) := by
  induction rest with
  | nil =>
      intro start word hword
      rw [runsFrom, mem_flush, List.append_nil, isRunFrom_of_all hword]
  | cons c rest ih =>
      intro start word hword
      rw [runsFrom]
      split_ifs with hc
      · have hword' : ∀ d ∈ word ++ [c], p d = true := by
          intro d hd
          rcases List.mem_append.1 hd with hd | hd
          · exact hword d hd
          · rwa [List.mem_singleton.1 hd]
        rw [ih hword', List.append_assoc, List.singleton_append]
      · rw [isRunFrom_append_cons hword (by simpa using hc), List.mem_append, mem_flush,
          ih (by simp), List.nil_append]

/-- **The search finds exactly the maximal runs.** -/
theorem mem_runs {text : List α} {r : Run α} : r ∈ runs p text ↔ IsRun p text r :=
  mem_runsFrom text (by simp)

end MaximalRuns
