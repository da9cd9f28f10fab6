/-
**The focus window of a claim.**

A long passage is cut to a window that shows the claim it is read for.  Windows are anchored a little
before the claim's terms and scored by the terms they hold; the first best one wins, and its ends are
then moved inward to a blank, so that no word is cut.  The move comes after the scoring, and nothing
looks again whether a term is left.

Main definitions:

* `lowerText`, `terms` — the lower-cased copy, and the terms of a text;
* `hits`, `bestWindow` — the terms found, and the loop over the windows anchored at them;
* `focusCut`, `focusWindow` — the stretch that is cut out, and the text that is returned;
* `OwnOccurrence` — a whole word of the text that is a term of the content, at its true place;
* `Shows` — what a focus window is for;
* `FirstBest`, `MovedStart`, `MovedEnd`, `KeepsTerm` — the window that wins, where its ends go, and that a
  whole term is left.

Main results:

* `bestOf_spec` — the loop finds the first of the best windows;
* `movedStart_cutStart`, `movedEnd_cutEnd` — the ends go to the first and the last blank;
* `focusWindow_shows_iff` — **a focus window shows its claim exactly when the window that wins keeps a
  whole term**;
* `focusWindow_cuts_term` — a window whose only term is glued to the word before it loses the term.
-/

import Mathlib.Data.List.Dedup
import ParticlesEngine.MaximalRuns
import ParticlesEngine.TextCuts

set_option relaxedAutoImplicit false
set_option autoImplicit false

open MaximalRuns

namespace ParticlesEngine

namespace FocusWindow

/-! ### Terms -/

/-- `str.lower` on one character, as far as the token pattern and the positions can tell: a letter
outside ASCII stays one character outside ASCII, but for the two below. -/
def lowerChar (c : Char) : List Char :=
  if c = '\u0130' then ['i', '\u0307']
  else if c = '\u212a' then ['k']
  else [c.toLower]

def lowerText (text : List Char) : List Char := text.flatMap lowerChar

/-- The class of `_TOKEN_RE`. -/
def isTokenChar (c : Char) : Bool :=
  ('a' ≤ c ∧ c ≤ 'z') ∨ ('0' ≤ c ∧ c ≤ '9') ∨ c = '_'

/-- `_STOPWORDS`. -/
def STOPWORDS : List String :=
  ["the", "and", "for", "that", "this", "with", "from", "are", "was", "were",
    "has", "have", "had", "not", "but", "its", "into", "than", "then", "they",
    "them", "their", "will", "would", "can", "could", "should", "been", "being",
    "which", "when", "what", "where", "who", "how", "also", "such", "each",
    "other", "over", "under"]

/-- `_TOKEN_RE.finditer(text.lower())`. -/
def tokens (text : List Char) : List (Run Char) := runs isTokenChar (lowerText text)

/-- `_terms`. -/
def terms (text : List Char) : List (List Char) :=
  (((tokens text).map Run.word).filter fun t => 3 ≤ t.length ∧ String.ofList t ∉ STOPWORDS).dedup

/-! ### The windows -/

section Windows

variable (text content : List Char) (limit : ℕ) (also : Option (List Char))

/-- The terms of the partner text that the content lacks. -/
def extraTerms : List (List Char) :=
  ((also.map terms).getD []).filter fun t => t ∉ terms content

/-- The terms of either found in the text. -/
def hits : List (Run Char) :=
  (tokens text).filter fun m => m.word ∈ terms content ∨ m.word ∈ extraTerms content also

/-- Where the window of a hit starts: a little before it. -/
def anchorStart (hit : Run Char) : ℕ := min (hit.start - limit / 5) (text.length - limit)

/-- The distinct terms that a window holds. -/
def insideTerms (start : ℕ) : List (List Char) :=
  (((hits text content also).filter fun m => start ≤ m.start ∧ m.stop ≤ start + limit).map
    Run.word).dedup

def ownCount (start : ℕ) : ℕ :=
  ((insideTerms text content limit also start).filter fun t => t ∈ terms content).length

def windowScore (start : ℕ) : ℕ :=
  2 * ownCount text content limit also start +
    ((insideTerms text content limit also start).filter fun t => t ∈ extraTerms content also).length

/-- The loop over windows: where the best starts, and its score; one that counts nothing is passed
over. -/
def bestOf {α : Type*} (place : α → ℕ) (count score : ℕ → ℕ) (items : List α) : ℕ × ℤ :=
  items.foldl (fun best item =>
    let start := place item
    if count start = 0 then best
    else if best.2 < score start then (start, score start) else best) (0, -1)

/-- The window that wins. -/
def bestWindow : ℕ :=
  (bestOf (anchorStart text limit) (ownCount text content limit also)
    (windowScore text content limit also) (hits text content also)).1

end Windows

/-! ### The cut -/

/-- `text.find(" ", start)`. -/
def findBlank (text : List Char) (start : ℕ) : Option ℕ :=
  (List.range text.length).find? fun i => start ≤ i ∧ text[i]? = some ' '

/-- `text.rfind(" ", start, stop)`. -/
def rfindBlank (text : List Char) (start : ℕ) : ℕ → Option ℕ
  | 0 => none
  | stop + 1 =>
      if start ≤ stop ∧ text[stop]? = some ' ' then some stop else rfindBlank text start stop

/-- The start of a window, moved behind its first blank. -/
def cutStart (text : List Char) (start stop : ℕ) : ℕ :=
  if 0 < start then
    match findBlank text start with
    | some space => if space < stop then space + 1 else start
    | none => start
  else start

/-- The end of a window, moved to its last blank. -/
def cutEnd (text : List Char) (start stop : ℕ) : ℕ :=
  if stop < text.length then
    match rfindBlank text start stop with
    | some space => if start < space then space else stop
    | none => stop
  else stop

section Focus

variable (isspace : Char → Bool) (text content : List Char) (limit : ℕ) (also : Option (List Char))

/-- The stretch that is cut out of a text that is too long, if there is one. -/
def focusCut : Option (ℕ × ℕ) :=
  if ¬ (hits text content also).any fun m => m.word ∈ terms content then none
  else
    let start := bestWindow text content limit also
    let stop := start + limit
    let start' := cutStart text start stop
    some (start', cutEnd text start' stop)

/-- **`focus_window`.** -/
def focusWindow : List Char :=
  if text.length ≤ limit then text
  else
    match focusCut text content limit also with
    | none => []
    | some (start, stop) =>
        (if 0 < start then ['…'] else []) ++
          TextCuts.trim isspace ((text.take stop).drop start) ++
            if stop < text.length then ['…'] else []

end Focus

/-! ### What a focus window is for -/

/-- The place in the text that each character of the lower-cased copy comes from. -/
def origins (text : List Char) : List ℕ :=
  text.zipIdx.flatMap fun item => (lowerChar item.1).map fun _ => item.2

/-- **A whole word of the text that is a term of the content**, from its first character in the text to
behind its last. -/
def OwnOccurrence (text content : List Char) (s e : ℕ) : Prop :=
  ∃ m, IsRun isTokenChar (lowerText text) m ∧ m.word ∈ terms content ∧
    (origins text)[m.start]? = some s ∧ ((origins text)[m.stop - 1]?).map (· + 1) = some e

/-- **What a focus window is for**: where a whole term fits within the limit, the stretch that is cut out
is no longer than the limit and contains a whole term; else nothing is returned. -/
def Shows (isspace : Char → Bool) (text content : List Char) (limit : ℕ)
    (also : Option (List Char)) : Prop :=
  ((∃ s e, OwnOccurrence text content s e ∧ e ≤ s + limit) →
    ∃ a b, focusCut text content limit also = some (a, b) ∧ a ≤ b ∧ b ≤ text.length ∧ b ≤ a + limit ∧
      ∃ s e, OwnOccurrence text content s e ∧ a ≤ s ∧ e ≤ b) ∧
  ((¬ ∃ s e, OwnOccurrence text content s e ∧ e ≤ s + limit) →
    focusWindow isspace text content limit also = [])

/-- A window that starts at `start` is the first of the best: of those that count something it has the
highest score, and those before it have a lower one.  Where none counts anything it is the first. -/
def FirstBest {α : Type*} (place : α → ℕ) (count score : ℕ → ℕ) (items : List α) (start : ℕ) : Prop :=
  (start = 0 ∧ ∀ item ∈ items, count (place item) = 0) ∨
    ∃ before item after, items = before ++ item :: after ∧ place item = start ∧ count start ≠ 0 ∧
      (∀ other ∈ before, count (place other) ≠ 0 → score (place other) < score start) ∧
        ∀ other ∈ after, count (place other) ≠ 0 → score (place other) ≤ score start

/-- The start of a window goes behind its first blank, unless the text starts there or there is none. -/
def MovedStart (text : List Char) (start stop a : ℕ) : Prop :=
  (a = start ∧ (start = 0 ∨ ∀ i, start ≤ i → i < stop → text[i]? ≠ some ' ')) ∨
    (0 < start ∧ ∃ p, start ≤ p ∧ p < stop ∧ text[p]? = some ' ' ∧ a = p + 1 ∧
      ∀ i, start ≤ i → i < p → text[i]? ≠ some ' ')

/-- The end of a window goes to its last blank, unless the text ends there or there is none behind its
start. -/
def MovedEnd (text : List Char) (a stop b : ℕ) : Prop :=
  (b = stop ∧ (text.length ≤ stop ∨ ∀ i, a < i → i < stop → text[i]? ≠ some ' ')) ∨
    (stop < text.length ∧ a < b ∧ b < stop ∧ text[b]? = some ' ' ∧
      ∀ i, b < i → i < stop → text[i]? ≠ some ' ')

/-- **The window that wins keeps a whole term** when its ends have moved. -/
def KeepsTerm (text content : List Char) (limit : ℕ) (also : Option (List Char)) : Prop :=
  ∃ start, FirstBest (anchorStart text limit) (ownCount text content limit also)
      (windowScore text content limit also) (hits text content also) start ∧
    ∃ a b, MovedStart text start (start + limit) a ∧ MovedEnd text a (start + limit) b ∧
      ∃ s e, OwnOccurrence text content s e ∧ a ≤ s ∧ e ≤ b

/-! ### The window that wins -/

section Best

variable {α : Type*} {place : α → ℕ} {count score : ℕ → ℕ}

theorem bestOf_concat (items : List α) (item : α) :
    bestOf place count score (items ++ [item]) =
      if count (place item) = 0 then bestOf place count score items
      else if (bestOf place count score items).2 < score (place item) then
        (place item, (score (place item) : ℤ))
      else bestOf place count score items := by
  rw [bestOf, List.foldl_concat, ← bestOf]

/-- The loop holds the first of the best windows so far, with its score. -/
theorem bestOf_spec (place : α → ℕ) (count score : ℕ → ℕ) (items : List α) :
    (bestOf place count score items = (0, -1) ∧ ∀ item ∈ items, count (place item) = 0) ∨
      ∃ before item after, items = before ++ item :: after ∧
        bestOf place count score items = (place item, (score (place item) : ℤ)) ∧
        count (place item) ≠ 0 ∧
        (∀ other ∈ before, count (place other) ≠ 0 → score (place other) < score (place item)) ∧
          ∀ other ∈ after, count (place other) ≠ 0 → score (place other) ≤ score (place item) := by
  induction items using List.reverseRecOn with
  | nil => exact Or.inl ⟨rfl, by simp⟩
  | append_singleton items item ih =>
      rw [bestOf_concat]
      rcases ih with ⟨hfound, hnone⟩ | ⟨before, best, after, rfl, hfound, hsome, hbefore, hafter⟩
      · rw [hfound]
        split_ifs with hcount hbetter
        · refine Or.inl ⟨rfl, ?_⟩
          intro other hother
          rcases List.mem_append.1 hother with hmem | hmem
          · exact hnone other hmem
          · rwa [List.mem_singleton.1 hmem]
        · refine Or.inr ⟨items, item, [], rfl, rfl, hcount, ?_, by simp⟩
          intro other hother hne
          exact absurd (hnone other hother) hne
        · exact absurd (by omega : (-1 : ℤ) < score (place item)) hbetter
      · rw [hfound]
        -- a window that is no better comes behind the best one
        have hkeep : (count (place item) ≠ 0 → score (place item) ≤ score (place best)) →
            ∀ other ∈ after ++ [item], count (place other) ≠ 0 →
              score (place other) ≤ score (place best) := by
          intro hitem other hother hne
          rcases List.mem_append.1 hother with hmem | hmem
          · exact hafter other hmem hne
          · rw [List.mem_singleton.1 hmem] at hne ⊢
            exact hitem hne
        split_ifs with hcount hbetter
        · exact Or.inr ⟨before, best, after ++ [item], by simp, rfl, hsome, hbefore,
            hkeep fun hne => absurd hcount hne⟩
        · have hlt := Int.ofNat_lt.1 hbetter
          refine Or.inr ⟨_, item, [], rfl, rfl, hcount, ?_, by simp⟩
          intro other hother hne
          rcases List.mem_append.1 hother with hmem | hmem
          · exact (hbefore other hmem hne).trans hlt
          · rcases List.mem_cons.1 hmem with rfl | hmem
            · exact hlt
            · exact (hafter other hmem hne).trans_lt hlt
        · exact Or.inr ⟨before, best, after ++ [item], by simp, rfl, hsome, hbefore,
            hkeep fun _ => Int.ofNat_le.1 (Int.not_lt.1 hbetter)⟩

/-- **The loop finds the first of the best windows.** -/
theorem firstBest_bestOf (place : α → ℕ) (count score : ℕ → ℕ) (items : List α) :
    FirstBest place count score items (bestOf place count score items).1 := by
  rcases bestOf_spec place count score items with
    ⟨hfound, hnone⟩ | ⟨before, item, after, hitems, hfound, hsome, hbefore, hafter⟩
  · rw [hfound]
    exact Or.inl ⟨rfl, hnone⟩
  · rw [hfound]
    exact Or.inr ⟨before, item, after, hitems, rfl, hsome, hbefore, hafter⟩

/-- Only one window is the first of the best. -/
theorem FirstBest.unique {items : List α} {start start' : ℕ}
    (h : FirstBest place count score items start) (h' : FirstBest place count score items start') :
    start = start' := by
  rcases h with ⟨rfl, hnone⟩ | ⟨before, item, after, hitems, rfl, hsome, hbefore, hafter⟩
  · rcases h' with ⟨rfl, -⟩ | ⟨before', item', after', rfl, rfl, hsome', -, -⟩
    · rfl
    · exact absurd (hnone item' (by simp)) hsome'
  · rcases h' with ⟨-, hnone⟩ | ⟨before', item', after', hitems', rfl, hsome', hbefore', hafter'⟩
    · exact absurd (hnone item (by simp [hitems])) hsome
    · rw [hitems] at hitems'
      rcases List.append_eq_append_iff.1 hitems' with ⟨front, rfl, hrest⟩ | ⟨front, rfl, hrest⟩
      · cases front with
        | nil => rw [(List.cons.inj hrest).1]
        | cons first front =>
            -- the other stands behind it, so it scores no more, and then less
            rw [List.cons_append] at hrest
            obtain ⟨rfl, rfl⟩ := List.cons.inj hrest
            have hle := hafter item' (by simp) hsome'
            have hlt := hbefore' item (by simp) hsome
            omega
      · cases front with
        | nil => rw [(List.cons.inj hrest).1]
        | cons first front =>
            rw [List.cons_append] at hrest
            obtain ⟨rfl, rfl⟩ := List.cons.inj hrest
            have hle := hafter' item (by simp) hsome
            have hlt := hbefore item' (by simp) hsome'
            omega

end Best

/-! ### The ends of the window -/

section Ends

variable {text : List Char} {start stop : ℕ}

theorem findBlank_eq_some {p : ℕ} : findBlank text start = some p ↔
    start ≤ p ∧ text[p]? = some ' ' ∧ ∀ i, start ≤ i → i < p → text[i]? ≠ some ' ' := by
  unfold findBlank
  rw [List.find?_range_eq_some]
  simp only [decide_eq_true_eq, List.mem_range, Bool.not_eq_true', decide_eq_false_iff_not, not_and]
  constructor
  · rintro ⟨⟨hstart, hblank⟩, -, hbefore⟩
    exact ⟨hstart, hblank, fun i hi hlt => hbefore i hlt hi⟩
  · rintro ⟨hstart, hblank, hbefore⟩
    obtain ⟨hlt, -⟩ := List.getElem?_eq_some_iff.1 hblank
    exact ⟨⟨hstart, hblank⟩, hlt, fun i hi hle => hbefore i hle hi⟩

theorem findBlank_eq_none : findBlank text start = none ↔
    ∀ i, start ≤ i → text[i]? ≠ some ' ' := by
  unfold findBlank
  rw [List.find?_eq_none]
  simp only [List.mem_range, decide_eq_true_eq, not_and]
  constructor
  · intro h i hi hblank
    obtain ⟨hlt, -⟩ := List.getElem?_eq_some_iff.1 hblank
    exact h i hlt hi hblank
  · intro h i _ hi
    exact h i hi

theorem rfindBlank_eq_some {q : ℕ} : rfindBlank text start stop = some q ↔
    start ≤ q ∧ q < stop ∧ text[q]? = some ' ' ∧
      ∀ i, q < i → i < stop → text[i]? ≠ some ' ' := by
  induction stop with
  | zero => simp [rfindBlank]
  | succ stop ih =>
      rw [rfindBlank]
      split_ifs with hlast
      · constructor
        · intro h
          obtain rfl := Option.some.inj h
          exact ⟨hlast.1, Nat.lt_succ_self _, hlast.2, fun i hi hlt => by omega⟩
        · rintro ⟨-, hlt, -, hafter⟩
          by_contra hne
          have hq : q < stop := by
            rcases Nat.lt_succ_iff_lt_or_eq.1 hlt with h | rfl
            · exact h
            · exact absurd rfl hne
          exact hafter stop hq (Nat.lt_succ_self _) hlast.2
      · rw [ih]
        constructor
        · rintro ⟨hstart, hlt, hblank, hafter⟩
          refine ⟨hstart, by omega, hblank, ?_⟩
          intro i hi hlt'
          rcases Nat.lt_succ_iff_lt_or_eq.1 hlt' with h | rfl
          · exact hafter i hi h
          · exact fun h => hlast ⟨by omega, h⟩
        · rintro ⟨hstart, hlt, hblank, hafter⟩
          refine ⟨hstart, ?_, hblank, fun i hi h => hafter i hi (by omega)⟩
          rcases Nat.lt_succ_iff_lt_or_eq.1 hlt with h | rfl
          · exact h
          · exact absurd ⟨hstart, hblank⟩ hlast

theorem rfindBlank_eq_none : rfindBlank text start stop = none ↔
    ∀ i, start ≤ i → i < stop → text[i]? ≠ some ' ' := by
  induction stop with
  | zero => simp [rfindBlank]
  | succ stop ih =>
      rw [rfindBlank]
      split_ifs with hlast
      · rw [false_iff]
        intro h
        exact h stop hlast.1 (Nat.lt_succ_self _) hlast.2
      · rw [ih]
        constructor
        · intro h i hi hlt
          rcases Nat.lt_succ_iff_lt_or_eq.1 hlt with hlt' | rfl
          · exact h i hi hlt'
          · exact fun hblank => hlast ⟨hi, hblank⟩
        · intro h i hi hlt
          exact h i hi (by omega)

/-- **The start goes behind the first blank.** -/
theorem movedStart_cutStart (text : List Char) (start stop : ℕ) : MovedStart text start stop (cutStart text start stop) := by
  unfold cutStart
  split_ifs with hpos
  · rcases hfind : findBlank text start with _ | space
    · exact Or.inl ⟨rfl, Or.inr fun i hi _ => findBlank_eq_none.1 hfind i hi⟩
    · obtain ⟨hstart, hblank, hbefore⟩ := findBlank_eq_some.1 hfind
      dsimp only
      split_ifs with hlt
      · exact Or.inr ⟨hpos, space, hstart, hlt, hblank, rfl, hbefore⟩
      · exact Or.inl ⟨rfl, Or.inr fun i hi hi' => hbefore i hi (by omega)⟩
  · exact Or.inl ⟨rfl, Or.inl (by omega)⟩

theorem MovedStart.unique {a a' : ℕ} (h : MovedStart text start stop a)
    (h' : MovedStart text start stop a') : a = a' := by
  rcases h with ⟨rfl, hnone⟩ | ⟨hpos, p, hp, hlt, hblank, rfl, hbefore⟩
  · rcases h' with ⟨rfl, -⟩ | ⟨hpos, p, hp, hlt, hblank, rfl, -⟩
    · rfl
    · rcases hnone with hzero | hnone
      · omega
      · exact absurd hblank (hnone p hp hlt)
  · rcases h' with ⟨rfl, hzero | hnone⟩ | ⟨-, p', hp', hlt', hblank', rfl, hbefore'⟩
    · omega
    · exact absurd hblank (hnone p hp hlt)
    · rcases lt_trichotomy p p' with h | rfl | h
      · exact absurd hblank (hbefore' p hp h)
      · rfl
      · exact absurd hblank' (hbefore p' hp' h)

/-- **The end goes to the last blank.** -/
theorem movedEnd_cutEnd (text : List Char) (start stop : ℕ) : MovedEnd text start stop (cutEnd text start stop) := by
  unfold cutEnd
  split_ifs with hstop
  · rcases hfind : rfindBlank text start stop with _ | space
    · exact Or.inl ⟨rfl, Or.inr fun i hi hlt => rfindBlank_eq_none.1 hfind i hi.le hlt⟩
    · obtain ⟨hstart, hlt, hblank, hafter⟩ := rfindBlank_eq_some.1 hfind
      dsimp only
      split_ifs with hne
      · exact Or.inr ⟨hstop, hne, hlt, hblank, hafter⟩
      · exact Or.inl ⟨rfl, Or.inr fun i hi hlt => hafter i (by omega) hlt⟩
  · exact Or.inl ⟨rfl, Or.inl (by omega)⟩

theorem MovedEnd.unique {b b' : ℕ} (h : MovedEnd text start stop b)
    (h' : MovedEnd text start stop b') : b = b' := by
  rcases h with ⟨rfl, hnone⟩ | ⟨hstop, hstart, hlt, hblank, hafter⟩
  · rcases h' with ⟨rfl, -⟩ | ⟨hstop, hstart, hlt, hblank, -⟩
    · rfl
    · rcases hnone with hend | hnone
      · omega
      · exact absurd hblank (hnone b' hstart hlt)
  · rcases h' with ⟨rfl, hend | hnone⟩ | ⟨-, hstart', hlt', hblank', hafter'⟩
    · omega
    · exact absurd hblank (hnone b hstart hlt)
    · rcases lt_trichotomy b b' with h | rfl | h
      · exact absurd hblank' (hafter b' h hlt')
      · rfl
      · exact absurd hblank (hafter' b h hlt)

/-- The moved ends stay within the window, in their order. -/
theorem cut_bounds (text : List Char) (h : start ≤ stop) :
    start ≤ cutStart text start stop ∧
      cutStart text start stop ≤ cutEnd text (cutStart text start stop) stop ∧
        cutEnd text (cutStart text start stop) stop ≤ stop := by
  have hstart : start ≤ cutStart text start stop ∧ cutStart text start stop ≤ stop := by
    rcases movedStart_cutStart text start stop with
      ⟨heq, -⟩ | ⟨-, p, hp, hlt, -, heq, -⟩
    · omega
    · omega
  rcases movedEnd_cutEnd text (cutStart text start stop) stop with
    ⟨heq, -⟩ | ⟨-, hgt, hlt, -, -⟩
  · omega
  · omega

end Ends

/-! ### What is left of the claim -/

section Main

variable {isspace : Char → Bool} {text content : List Char} {limit : ℕ} {also : Option (List Char)}

theorem length_origins (text : List Char) : (origins text).length = (lowerText text).length := by
  have hmap := congrArg (List.map fun c => (lowerChar c).length) (List.zipIdx_map_fst 0 text)
  rw [List.map_map] at hmap
  unfold origins lowerText
  rw [List.length_flatMap, List.length_flatMap, ← hmap]
  simp only [List.length_map]
  rfl

/-- Every whole term of the lower-cased copy has its place in the text. -/
theorem exists_ownOccurrence :
    (∃ s e, OwnOccurrence text content s e) ↔
      ∃ m, IsRun isTokenChar (lowerText text) m ∧ m.word ∈ terms content := by
  constructor
  · rintro ⟨s, e, m, hrun, hterm, -⟩
    exact ⟨m, hrun, hterm⟩
  · rintro ⟨m, hrun, hterm⟩
    obtain ⟨before, after, htext, hstart, hne, -⟩ := id hrun
    have hlength := length_origins text
    have hpos := List.length_pos_iff.2 hne
    rw [htext, List.length_append, List.length_append] at hlength
    have hfirst : m.start < (origins text).length := by omega
    have hlast : m.stop - 1 < (origins text).length := by
      unfold Run.stop
      omega
    exact ⟨_, _, m, hrun, hterm, List.getElem?_eq_getElem hfirst, by
      rw [List.getElem?_eq_getElem hlast, Option.map_some]⟩

/-- The search for hits finds a term of the content exactly when the text has a whole one. -/
theorem any_own_hits (also : Option (List Char)) : ((hits text content also).any fun m => m.word ∈ terms content) = true ↔
    ∃ s e, OwnOccurrence text content s e := by
  rw [exists_ownOccurrence, List.any_eq_true]
  constructor
  · rintro ⟨m, hm, hterm⟩
    exact ⟨m, mem_runs.1 (List.mem_of_mem_filter hm), of_decide_eq_true hterm⟩
  · rintro ⟨m, hrun, hterm⟩
    refine ⟨m, List.mem_filter.2 ⟨mem_runs.2 hrun, ?_⟩, decide_eq_true hterm⟩
    exact decide_eq_true (Or.inl hterm)

/-- Every window lies within the text. -/
theorem bestWindow_le : bestWindow text content limit also ≤ text.length - limit := by
  have hbest := firstBest_bestOf (anchorStart text limit) (ownCount text content limit also)
    (windowScore text content limit also) (hits text content also)
  rw [← bestWindow] at hbest
  rcases hbest with ⟨hzero, -⟩ | ⟨-, item, -, -, hplace, -⟩
  · rw [hzero]
    exact Nat.zero_le _
  · rw [← hplace]
    exact min_le_right _ _

/-- The stretch that is cut out is the window that wins, its ends moved. -/
theorem focusCut_spec {a b : ℕ} (hown : ∃ s e, OwnOccurrence text content s e) :
    focusCut text content limit also = some (a, b) ↔
      ∃ start, FirstBest (anchorStart text limit) (ownCount text content limit also)
          (windowScore text content limit also) (hits text content also) start ∧
        MovedStart text start (start + limit) a ∧ MovedEnd text a (start + limit) b := by
  unfold focusCut
  rw [if_neg (not_not.2 ((any_own_hits also).2 hown))]
  dsimp only
  constructor
  · intro h
    obtain ⟨rfl, rfl⟩ := Prod.mk.inj (Option.some.inj h)
    exact ⟨_, firstBest_bestOf _ _ _ _, movedStart_cutStart _ _ _,
      movedEnd_cutEnd _ _ _⟩
  · rintro ⟨start, hbest, hstart, hend⟩
    obtain rfl : bestWindow text content limit also = start := (firstBest_bestOf _ _ _ _).unique hbest
    obtain rfl := hstart.unique (movedStart_cutStart _ _ _)
    rw [hend.unique (movedEnd_cutEnd _ _ _)]

theorem focusCut_eq_none (limit : ℕ) (also : Option (List Char)) : focusCut text content limit also = none ↔
    ¬ ∃ s e, OwnOccurrence text content s e := by
  unfold focusCut
  rw [← any_own_hits also]
  split_ifs with hown
  · simpa using hown
  · simpa using hown

/-- The stretch that is cut out is no longer than the limit, and lies within the text. -/
theorem focusCut_bounds {a b : ℕ} (hlimit : limit ≤ text.length)
    (h : focusCut text content limit also = some (a, b)) :
    a ≤ b ∧ b ≤ text.length ∧ b ≤ a + limit := by
  unfold focusCut at h
  split_ifs at h
  obtain ⟨rfl, rfl⟩ := Prod.mk.inj (Option.some.inj h)
  have hwindow : bestWindow text content limit also ≤ text.length - limit := bestWindow_le
  have hbounds := cut_bounds text
    (Nat.le_add_right (bestWindow text content limit also) limit)
  omega

/-- A stretch that was cut out is never returned as nothing: an end that is cut is marked. -/
theorem focusWindow_eq_nil (hlimit : limit < text.length) :
    focusWindow isspace text content limit also = [] ↔
      ¬ ∃ s e, OwnOccurrence text content s e := by
  rw [← focusCut_eq_none limit also, focusWindow, if_neg (by omega)]
  rcases hcut : focusCut text content limit also with _ | ⟨a, b⟩
  · simp
  · obtain ⟨-, hb, hlength⟩ := focusCut_bounds hlimit.le hcut
    simp only [List.append_eq_nil_iff, reduceCtorEq, iff_false]
    rintro ⟨⟨hstart, -⟩, hend⟩
    split_ifs at hstart hend
    omega

/-- **A focus window shows its claim exactly when no term of the claim stands in the text, or the window
that wins keeps a whole one.** -/
theorem focusWindow_shows_iff (hlimit : limit < text.length) :
    Shows isspace text content limit also ↔
      (¬ ∃ s e, OwnOccurrence text content s e) ∨ KeepsTerm text content limit also := by
  unfold Shows
  rw [focusWindow_eq_nil hlimit]
  constructor
  · rintro ⟨hfits, hnone⟩
    by_cases hown : ∃ s e, OwnOccurrence text content s e
    · right
      by_cases hfit : ∃ s e, OwnOccurrence text content s e ∧ e ≤ s + limit
      · obtain ⟨a, b, hcut, -, -, -, hterm⟩ := hfits hfit
        obtain ⟨start, hbest, hstart, hend⟩ := (focusCut_spec hown).1 hcut
        exact ⟨start, hbest, a, b, hstart, hend, hterm⟩
      · exact absurd hown (hnone hfit)
    · exact Or.inl hown
  · rintro (hnone | ⟨start, hbest, a, b, hstart, hend, s, e, hoccurs, hs, he⟩)
    · refine ⟨?_, fun _ => hnone⟩
      rintro ⟨s, e, hoccurs, -⟩
      exact absurd ⟨s, e, hoccurs⟩ hnone
    · have hcut := (focusCut_spec ⟨s, e, hoccurs⟩).2 ⟨start, hbest, hstart, hend⟩
      obtain ⟨hab, hb, hlength⟩ := focusCut_bounds hlimit.le hcut
      refine ⟨fun _ => ⟨a, b, hcut, hab, hb, hlength, s, e, hoccurs, hs, he⟩, fun hnot => ?_⟩
      exact absurd ⟨s, e, hoccurs, by omega⟩ hnot

end Main

/-! ### A term that is lost -/

/-- A text in which the claim's only term is glued to a long word before it. -/
def gluedText : List Char := "aaaaaaaaaaaaaaaaaaaaaaaaaaaaa-term bbbb cccc dddd eeee".toList

/-- The whole terms of a content are among the tokens. -/
theorem OwnOccurrence.mem_tokens {text content : List Char} {s e : ℕ}
    (h : OwnOccurrence text content s e) :
    ∃ m ∈ tokens text, m.word ∈ terms content ∧ (origins text)[m.start]? = some s := by
  obtain ⟨m, hrun, hterm, hs, -⟩ := h
  exact ⟨m, mem_runs.2 hrun, hterm, hs⟩

/-- **A window whose only term is glued to the word before it loses the term**: its start goes behind the
first blank, and that stands behind the term. -/
theorem focusWindow_cuts_term :
    focusWindow (· = ' ') gluedText "term".toList 20 none = "…bbbb cccc…".toList ∧
      ¬ Shows (· = ' ') gluedText "term".toList 20 none := by
  refine ⟨by decide +kernel, ?_⟩
  rintro ⟨hfits, -⟩
  have hcut : focusCut gluedText "term".toList 20 none = some (35, 44) := by decide +kernel
  have hterm : OwnOccurrence gluedText "term".toList 30 34 :=
    ⟨⟨30, "term".toList⟩, mem_runs.1 (by decide +kernel), by decide +kernel, by decide +kernel,
      by decide +kernel⟩
  have honly : ∀ m ∈ tokens gluedText, m.word ∈ terms "term".toList → m.start = 30 := by
    decide +kernel
  have hplace : (origins gluedText)[30]? = some 30 := by decide +kernel
  obtain ⟨a, b, hab, -, -, -, s, e, hoccurs, hs, -⟩ := hfits ⟨30, 34, hterm, by omega⟩
  obtain ⟨rfl, rfl⟩ := Prod.mk.inj (Option.some.inj (hcut.symm.trans hab))
  obtain ⟨m, hm, hmterm, hstart⟩ := hoccurs.mem_tokens
  rw [honly m hm hmterm, hplace] at hstart
  have hthirty := Option.some.inj hstart
  omega

/-- The term that stands between blanks is kept. -/
theorem gluedText_keepsTerm : KeepsTerm gluedText "dddd".toList 20 none := by
  have hcut : focusCut gluedText "dddd".toList 20 none = some (35, 54) := by decide +kernel
  have hterm : OwnOccurrence gluedText "dddd".toList 45 49 :=
    ⟨⟨45, "dddd".toList⟩, mem_runs.1 (by decide +kernel), by decide +kernel, by decide +kernel,
      by decide +kernel⟩
  obtain ⟨start, hbest, hstart, hend⟩ := (focusCut_spec ⟨45, 49, hterm⟩).1 hcut
  exact ⟨start, hbest, 35, 54, hstart, hend, 45, 49, hterm, by omega, by omega⟩

/-- A text shows a term that the window keeps, and of a claim whose terms it lacks it yields nothing. -/
theorem gluedText_shows :
    Shows (· = ' ') gluedText "dddd".toList 20 none ∧
      Shows (· = ' ') gluedText "zebra".toList 20 none := by
  constructor
  · exact (focusWindow_shows_iff (by decide +kernel)).2 (Or.inr gluedText_keepsTerm)
  · refine (focusWindow_shows_iff (by decide +kernel)).2 (Or.inl ?_)
    rintro ⟨s, e, hoccurs⟩
    obtain ⟨m, hm, hterm, -⟩ := hoccurs.mem_tokens
    have hnone : ∀ m ∈ tokens gluedText, m.word ∉ terms "zebra".toList := by decide +kernel
    exact hnone m hm hterm

end FocusWindow

end ParticlesEngine
