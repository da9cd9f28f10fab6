/-
**The tags of a grounded reply.**

In grounded mode the composer ends every sentence with a tag: the handles of the particles that it
rests on, or a declaration that it is an inference or background.  `operations/query/grounding.py`
finds the tags of a reply, resolves what they cite, and reads adjacent tags as one group.

Main definitions:

* `matchTag` — the pattern of a tag, at the start of a text;
* `tagResolver`, `normaliseToken` — what a citation names;
* `TagGroup`, `tagGroups` — adjacent tags read as one, each group with the text behind it;
* `cleanUnit` — the prose of a unit;
* `keptGaps` — the texts between tags, less the blanks between two of them.

Main results:

* `map_snd_tagGroups` — **a run of tags loses the blanks inside it and nothing else**;
* `cited_tagGroups` — what a group cites is in the handle map, and what it declares is a declaration.
-/

import ParticlesEngine.Dict
import ParticlesEngine.TextCuts

set_option relaxedAutoImplicit false
set_option autoImplicit false

open Dict TextCuts

namespace ParticlesEngine

/-- What Python's text methods and patterns say about characters. -/
structure ReplyText where
  isspace : Char → Bool
  isalnum : Char → Bool
  /-- a decimal digit, of any script -/
  isdecimal : Char → Bool
  lower : List Char → List Char
  /-- whether a character matches a letter of a pattern that ignores case -/
  matchesLetter : Char → Char → Bool

/-- `AttributionKind`. -/
inductive AttributionKind where
  | CITED
  | INFERENCE
  | BACKGROUND
  | UNATTRIBUTED
  deriving DecidableEq, Repr

/-- The text of a kind. -/
def AttributionKind.value : AttributionKind → List Char
  | .CITED => "cited".toList
  | .INFERENCE => "inference".toList
  | .BACKGROUND => "background".toList
  | .UNATTRIBUTED => "unattributed".toList

section Tags

variable (re : ReplyText)

/-- `str.strip`. -/
def ReplyText.strip (text : List Char) : List Char := trim re.isspace text

/-! ### One tag -/

/-- `[0-9a-f]`, in any case. -/
def isHex (c : Char) : Bool :=
  ('0' ≤ c && c ≤ '9') || "abcdef".toList.any fun letter => re.matchesLetter letter c

/-- `_CITE_TOKEN`: a handle or a UUID. -/
def citeToken (token : List Char) : Bool :=
  (match token with
    | p :: separator :: c :: rest =>
        re.matchesLetter 'p' p && (separator = '-' || separator = ':') &&
          (c :: rest).all fun d => !re.isspace d && d ≠ '[' && d ≠ ']' && d ≠ ','
    | _ => false) ||
  ((token.take 8).length = 8 && (token.take 8).all (isHex re) &&
    (token.drop 8).head? = some '-' && 27 ≤ (token.drop 9).length &&
    (token.drop 9).all fun c => isHex re c || c = '-')

/-- A word in any case. -/
def matchesWord (word : String) (text : List Char) : Bool :=
  text.length = word.length &&
    (word.toList.zip text).all fun letter => re.matchesLetter letter.1 letter.2

/-- The body of a tag: a declaration, or a list of citations. -/
def tagBody (inner : List Char) : Option (List Char) :=
  let body := re.strip inner
  if matchesWord re "inference" body || matchesWord re "background" body ||
      (body.splitOn ',').all fun token => citeToken re (re.strip token) then some body
  else none

/-- **`_TAG`**, at the start of a text: the body and the length of the match.  No character of a body is
a bracket, so a match runs to the first one. -/
def matchTag : List Char → Option (List Char × ℕ)
  | '[' :: rest =>
      let inner := rest.takeWhile fun c => c ≠ '[' && c ≠ ']'
      match rest.drop inner.length with
      | ']' :: after =>
          if after.head? = some '(' then none
          else (tagBody re inner).map fun body => (body, inner.length + 2)
      | _ => none
  | _ => none

/-- `_TAG.finditer`: the text before the first tag, and the tags with the text behind each. -/
def findTags (text : List Char) : List Char × List (Cut Char (List Char)) :=
  cut (matchTag re) 0 text

/-! ### What a tag cites -/

/-- `_resolver`: the handles without their prefix, and the ids, lower-cased. -/
def tagResolver (handles : List (String × String)) : List Char → Option String :=
  dictOf (handles.flatMap fun entry =>
    [(re.lower (entry.2.toList.drop 2), entry.1), (re.lower entry.1.toList, entry.1),
      (re.lower (entry.1.toList.filter (· ≠ '-')), entry.1)])

/-- `_normalise_token`. -/
def normaliseToken (token : List Char) : List Char :=
  match re.lower (re.strip token) with
  | 'p' :: '-' :: rest => rest
  | 'p' :: ':' :: rest => rest
  | token => token

/-- `_Group`: what the composer attached to a unit. -/
structure TagGroup where
  cited : List String := []
  invalid : List String := []
  declared : Option AttributionKind := none
  deriving DecidableEq, Repr

/-- One citation: an id that the group does not have yet, or an invalid one. -/
def TagGroup.addCitation (lookup : List Char → Option String) (group : TagGroup)
    (raw : List Char) : TagGroup :=
  match lookup (normaliseToken re raw) with
  | none => { group with invalid := group.invalid ++ [String.ofList (re.strip raw)] }
  | some pid =>
      if pid ∈ group.cited then group else { group with cited := group.cited ++ [pid] }

/-- The declaration of a tag. -/
def declaredBy (body : List Char) : Option AttributionKind :=
  let lowered := re.lower (re.strip body)
  if lowered = "inference".toList then some .INFERENCE
  else if lowered = "background".toList then some .BACKGROUND
  else none

/-- One tag of a group.  Of two declarations the stronger disclosure wins. -/
def TagGroup.addTag (lookup : List Char → Option String) (group : TagGroup) (body : List Char) :
    TagGroup :=
  match declaredBy re body with
  | some label =>
      if group.declared = some .BACKGROUND then group else { group with declared := some label }
  | none => (body.splitOn ',').foldl (TagGroup.addCitation re lookup) group

/-- The groups that begin with a group and the text behind it: a tag after a blank joins. -/
def joinTags (lookup : List Char → Option String) (group : TagGroup) (gap : List Char) :
    List (Cut Char (List Char)) → List (TagGroup × List Char)
  | [] => [(group, gap)]
  | tag :: tags =>
      if (re.strip gap).isEmpty then joinTags lookup (group.addTag re lookup tag.value) tag.gap tags
      else (group, gap) :: joinTags lookup (TagGroup.addTag re lookup {} tag.value) tag.gap tags

/-- **`_groups`**: each group with the text up to the next, in place of its offsets. -/
def tagGroups (lookup : List Char → Option String) :
    List (Cut Char (List Char)) → List (TagGroup × List Char)
  | [] => []
  | tag :: tags => joinTags re lookup (TagGroup.addTag re lookup {} tag.value) tag.gap tags

/-! ### The prose of a unit -/

/-- The mark of a list item, a numbered item, a heading or a quote: its length, or zero. -/
def markLength (text : List Char) : ℕ :=
  match text with
  | [] => 0
  | c :: _ =>
      let digits := text.takeWhile re.isdecimal
      let hashes := text.takeWhile (· = '#')
      if c ∈ ['-', '*', '+', '•', '>'] then 1
      else if hashes ≠ [] then if hashes.length ≤ 6 then hashes.length else 0
      else if 1 ≤ digits.length ∧ digits.length ≤ 3 ∧
          ((text.drop digits.length).head?.any fun next => next = '.' || next = ')') then
        digits.length + 1
      else 0

/-- `_LINE_MARK`, at the start of a line: the length of the match, or zero. -/
def lineMark (text : List Char) : ℕ :=
  let lead := (text.takeWhile re.isspace).length
  let mark := markLength re (text.drop lead)
  let space := ((text.drop (lead + mark)).takeWhile re.isspace).length
  if mark = 0 ∨ space = 0 then 0 else lead + mark + space

/-- `_LINE_MARK.sub("", unit)`; the first `skip` characters belong to a match before. -/
def removeMarks : ℕ → Bool → List Char → List Char
  | _, _, [] => []
  | skip + 1, _, c :: rest => removeMarks skip (c = '\n') rest
  | 0, atStart, c :: rest =>
      match if atStart then lineMark re (c :: rest) else 0 with
      | n + 1 => removeMarks n (c = '\n') rest
      | 0 => c :: removeMarks 0 (c = '\n') rest

/-- `replace` of a doubled character by nothing. -/
def removeDoubled (mark : Char) : List Char → List Char
  | a :: b :: rest =>
      if a = mark ∧ b = mark then removeDoubled mark rest else a :: removeDoubled mark (b :: rest)
  | text => text

/-- `" ".join(text.split())`. -/
def joinWords (text : List Char) : List Char :=
  [' '].intercalate ((text.splitOnP re.isspace).filter (· ≠ []))

/-- **`_clean`**: line markers, emphasis and spacing normalised. -/
def cleanUnit (unit : List Char) : List Char :=
  let unit := removeDoubled '_' (removeDoubled '*' (removeMarks re 0 true unit))
  (joinWords re unit).dropWhile fun c => c ∈ ",;: ".toList

/-- `_ALNUM.search`: whether a text has a letter or a digit. -/
def hasProse (text : List Char) : Bool := text.any re.isalnum

/-- `_TRAILING_PUNCT`: the punctuation, with the quotes that close on it, at the start of the text
behind a tag.  The next tag begins with a bracket, which ends it. -/
def trailingPunct (gap : List Char) : List Char :=
  let stops := gap.takeWhile (· ∈ ".!?:;".toList)
  if stops = [] then []
  else stops ++ (gap.drop stops.length).takeWhile (· ∈ "\"'”’)]".toList)

/-! ### Runs of tags -/

/-- The texts behind the tags of a reply, less the blanks between two of them. -/
def keptGaps : List (List Char) → List (List Char)
  | [] => []
  | [gap] => [gap]
  | gap :: next :: gaps =>
      if (re.strip gap).isEmpty then keptGaps (next :: gaps) else gap :: keptGaps (next :: gaps)

variable {re} {lookup : List Char → Option String} {handles : List (String × String)}

theorem ReplyText.strip_isEmpty {text : List Char} :
    (re.strip text).isEmpty = true ↔ ∀ c ∈ text, re.isspace c = true := by
  rw [List.isEmpty_iff, ReplyText.strip, trim_eq_nil_iff]

theorem map_snd_joinTags (group : TagGroup) (gap : List Char) (tags : List (Cut Char (List Char))) :
    (joinTags re lookup group gap tags).map Prod.snd = keptGaps re (gap :: tags.map Cut.gap) := by
  induction tags generalizing group gap with
  | nil => rfl
  | cons tag tags ih =>
      rw [joinTags, List.map_cons, keptGaps]
      split_ifs
      · exact ih _ _
      · rw [List.map_cons, ih]

/-- **A run of tags loses the blanks inside it and nothing else.** -/
theorem map_snd_tagGroups (tags : List (Cut Char (List Char))) :
    (tagGroups re lookup tags).map Prod.snd = keptGaps re (tags.map Cut.gap) := by
  cases tags with
  | nil => rfl
  | cons tag tags => exact map_snd_joinTags _ _ _

/-- Of the texts behind the tags every character but spaces is kept, in order. -/
theorem filter_flatten_keptGaps (gaps : List (List Char)) :
    (keptGaps re gaps).flatten.filter (fun c => !re.isspace c) =
      gaps.flatten.filter fun c => !re.isspace c := by
  induction gaps with
  | nil => rfl
  | cons gap gaps ih =>
      cases gaps with
      | nil => rfl
      | cons next gaps =>
          have hall : (gap :: next :: gaps).flatten = gap ++ (next :: gaps).flatten :=
            List.flatten_cons
          rw [keptGaps, hall, List.filter_append]
          split_ifs with hblank
          · have hnone : gap.filter (fun c => !re.isspace c) = [] := by
              rw [List.filter_eq_nil_iff]
              intro c hc
              simpa using ReplyText.strip_isEmpty.1 hblank c hc
            rw [ih, hnone, List.nil_append]
          · rw [List.flatten_cons, List.filter_append, ih]

/-! ### What a group holds -/

/-- A group cites ids of the handle map, and declares an inference or background. -/
structure TagGroup.Sound (handles : List (String × String)) (group : TagGroup) : Prop where
  cited : ∀ id ∈ group.cited, id ∈ handles.map Prod.fst
  declared : ∀ kind, group.declared = some kind → kind = .INFERENCE ∨ kind = .BACKGROUND

/-- A citation resolves to an id of the handle map. -/
theorem mem_of_tagResolver {token : List Char} {id : String}
    (h : tagResolver re handles token = some id) : id ∈ handles.map Prod.fst := by
  obtain ⟨entry, hentry, hpair⟩ := List.mem_flatMap.1 (mem_of_dictOf h)
  have hid : id = entry.1 := by
    rcases hpair with _ | ⟨_, _ | ⟨_, _ | ⟨_, ⟨⟩⟩⟩⟩ <;> rfl
  exact hid ▸ List.mem_map_of_mem hentry

theorem TagGroup.Sound.addCitation {group : TagGroup} (h : group.Sound handles) (raw : List Char) :
    (group.addCitation re (tagResolver re handles) raw).Sound handles := by
  unfold TagGroup.addCitation
  split
  · exact ⟨h.cited, h.declared⟩
  · rename_i pid hlookup
    split_ifs
    · exact h
    · refine ⟨fun id hid => ?_, h.declared⟩
      rcases List.mem_append.1 hid with hid | hid
      · exact h.cited id hid
      · exact List.mem_singleton.1 hid ▸ mem_of_tagResolver hlookup

theorem TagGroup.Sound.addTag {group : TagGroup} (h : group.Sound handles) (body : List Char) :
    (group.addTag re (tagResolver re handles) body).Sound handles := by
  unfold TagGroup.addTag
  split
  · rename_i label hlabel
    split_ifs
    · exact h
    · refine ⟨h.cited, fun kind hkind => ?_⟩
      obtain rfl := Option.some.inj hkind
      unfold declaredBy at hlabel
      dsimp only at hlabel
      split_ifs at hlabel <;> simp_all
  · exact List.foldlRecOn _ _ h fun group hgroup raw _ => hgroup.addCitation raw

theorem sound_joinTags {group : TagGroup} (h : group.Sound handles) (gap : List Char)
    (tags : List (Cut Char (List Char))) :
    ∀ entry ∈ joinTags re (tagResolver re handles) group gap tags, entry.1.Sound handles := by
  induction tags generalizing group gap with
  | nil => simpa [joinTags] using h
  | cons tag tags ih =>
      rw [joinTags]
      split_ifs
      · exact ih (h.addTag _) _
      · have hnew : TagGroup.Sound handles {} := ⟨by simp, by simp⟩
        exact List.forall_mem_cons.2 ⟨h, ih (hnew.addTag _) _⟩

/-- **What a group cites is in the handle map, and what it declares is a declaration.** -/
theorem cited_tagGroups (tags : List (Cut Char (List Char))) :
    ∀ entry ∈ tagGroups re (tagResolver re handles) tags, entry.1.Sound handles := by
  cases tags with
  | nil => simp [tagGroups]
  | cons tag tags =>
      have hnew : TagGroup.Sound handles {} := ⟨by simp, by simp⟩
      exact sound_joinTags (hnew.addTag _) _ _

end Tags

end ParticlesEngine
