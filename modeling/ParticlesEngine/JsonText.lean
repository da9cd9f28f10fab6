/-
**JSON text as it is written.**

A writer that keeps its text in ASCII spells a character of a string as itself, or as an escape.  A
text of plain characters only is therefore found in the JSON text of every list that it is in, and one
with another character need not be.  This module names nothing of a particular program.

Main definitions:

* `escape`, `jsonString` — a character inside a string, and the string;
* `dumpTexts` — a list of texts;
* `IsPlain` — the characters that stand for themselves.

Main result:

* `infix_dumpTexts` — **a text of plain characters stands as it is in the JSON text of a list**.
-/

import Mathlib.Data.List.Infix

set_option relaxedAutoImplicit false
set_option autoImplicit false

namespace JsonText

/-- The double quote of JSON. -/
def quote : Char := Char.ofNat 34

/-- The backslash of JSON. -/
def backslash : Char := Char.ofNat 92

/-- The four hexadecimal digits of a UTF-16 code unit. -/
def codeUnit (n : ℕ) : List Char :=
  backslash :: 'u' :: [n / 4096 % 16, n / 256 % 16, n / 16 % 16, n % 16].map Nat.digitChar

/-- A character inside a JSON string, as `json.dumps` writes it. -/
def escape (c : Char) : List Char :=
  if c = quote ∨ c = backslash then [backslash, c]
  else if c.toNat = 10 then [backslash, 'n']
  else if c.toNat = 13 then [backslash, 'r']
  else if c.toNat = 9 then [backslash, 't']
  else if c.toNat = 8 then [backslash, 'b']
  else if c.toNat = 12 then [backslash, 'f']
  else if 32 ≤ c.toNat ∧ c.toNat ≤ 126 then [c]
  else if c.toNat < 65536 then codeUnit c.toNat
  -- outside the first plane, the pair of surrogates
  else codeUnit (55296 + (c.toNat - 65536) / 1024) ++ codeUnit (56320 + (c.toNat - 65536) % 1024)

/-- A JSON string. -/
def jsonString (text : String) : List Char :=
  quote :: text.toList.flatMap escape ++ [quote]

/-- A list of texts, as `json.dumps` writes it. -/
def dumpTexts (texts : List String) : List Char :=
  '[' :: (", ".toList).intercalate (texts.map jsonString) ++ [']']

/-- The character stands for itself inside a JSON string. -/
def IsPlain (c : Char) : Prop :=
  32 ≤ c.toNat ∧ c.toNat ≤ 126 ∧ c ≠ quote ∧ c ≠ backslash

theorem escape_of_isPlain {c : Char} (h : IsPlain c) : escape c = [c] := by
  obtain ⟨hlow, hhigh, hquote, hbackslash⟩ := h
  have hmark : ¬(c = quote ∨ c = backslash) := by simp [hquote, hbackslash]
  have hcontrol : ∀ n < 32, c.toNat ≠ n := fun n hn heq => absurd hlow (by omega)
  rw [escape, if_neg hmark, if_neg (hcontrol 10 (by decide)), if_neg (hcontrol 13 (by decide)),
    if_neg (hcontrol 9 (by decide)), if_neg (hcontrol 8 (by decide)),
    if_neg (hcontrol 12 (by decide)), if_pos ⟨hlow, hhigh⟩]

theorem flatMap_escape_of_isPlain {chars : List Char} (h : ∀ c ∈ chars, IsPlain c) :
    chars.flatMap escape = chars := by
  induction chars with
  | nil => rfl
  | cons c chars ih =>
      rw [List.flatMap_cons, escape_of_isPlain (h c List.mem_cons_self),
        ih fun d hd => h d (List.mem_cons_of_mem _ hd)]
      rfl

/-- An element of a list stands in the list with separators. -/
theorem infix_intercalate {α : Type*} (sep : List α) {part : List α} :
    ∀ {parts : List (List α)}, part ∈ parts → part <:+: sep.intercalate parts := by
  intro parts
  induction parts with
  | nil => intro h; cases h
  | cons first parts ih =>
      intro h
      cases parts with
      | nil =>
          obtain rfl := List.mem_singleton.1 h
          simp [List.intercalate]
      | cons second parts =>
          have hsplit : sep.intercalate (first :: second :: parts) =
              first ++ (sep ++ sep.intercalate (second :: parts)) := by
            simp [List.intercalate]
          rw [hsplit]
          rcases List.mem_cons.1 h with rfl | h
          · exact (List.prefix_append _ _).isInfix
          · exact (ih h).trans
              ((List.suffix_append sep _).trans (List.suffix_append first _)).isInfix

/-- **A text of plain characters stands as it is in the JSON text of a list.** -/
theorem infix_dumpTexts {text : String} {texts : List String} (hmem : text ∈ texts)
    (hplain : ∀ c ∈ text.toList, IsPlain c) : text.toList <:+: dumpTexts texts := by
  have hstring : text.toList <:+: jsonString text := by
    rw [jsonString, flatMap_escape_of_isPlain hplain]
    exact ((List.suffix_cons quote text.toList).isInfix).trans (List.prefix_append _ _).isInfix
  have hlist := infix_intercalate ", ".toList (List.mem_map_of_mem (f := jsonString) hmem)
  exact (hstring.trans hlist).trans
    (((List.suffix_cons '[' _).isInfix).trans (List.prefix_append _ _).isInfix)

end JsonText
