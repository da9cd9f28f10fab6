/-
**Attributing the sentences of a grounded reply.**

`parse_grounded` cuts a reply at its tags.  A unit is the text up to a group of tags, with the
punctuation behind it; a unit that has prose is a sentence of the kind that the group gives it, and a
group without prose of its own joins the sentence before.  The answer is the reply with every group
rewritten to one label, and a label added where the reply ends without one.

Main definitions:

* `cutUnits` — the units of a reply and its tail;
* `ParseState.addUnit`, `ParseState.finish` — one unit, and the tail;
* `parseGrounded` — the sentences, and the answer with its labels marked;
* `untagged`, `untaggedRuns` — a reply without its tags, and without the blanks inside a run of them;
* `sentenceOf` — a unit with the bare groups behind it.

Main results:

* `unmarked_parse` — **the answer without its labels is the reply without its runs of tags**;
* `sound_parse` — a CITED sentence cites what it was given, an UNATTRIBUTED one nothing;
* `sentence_parse` — the sentences are those of the units with prose, in order;
* `parseGrounded_conserves` — **grounded parsing conserves the text and the attribution**;
* `adjacent_tags_lose_blank` — a blank between two tags is lost.
-/

import ParticlesEngine.GroundedTags

set_option relaxedAutoImplicit false
set_option autoImplicit false

open Dict TextCuts

namespace ParticlesEngine

/-- `AttributedSentence`. -/
structure AttributedSentence where
  text : List Char
  kind : AttributionKind
  citedIds : List String := []
  invalidCitations : List String := []
  deriving DecidableEq, Repr

/-- A unit: its text, the group of tags that closes it, and the punctuation behind that. -/
structure GroundedUnit where
  unit : List Char
  group : TagGroup
  punct : List Char

/-- The units of a reply and its tail, from the text before the first group and the groups. -/
def cutUnits (unit : List Char) : List (TagGroup × List Char) → List GroundedUnit × List Char
  | [] => ([], unit)
  | (group, gap) :: groups =>
      let punct := trailingPunct gap
      let (units, tail) := cutUnits (gap.drop punct.length) groups
      (⟨unit, group, punct⟩ :: units, tail)

section Parse

variable (re : ReplyText) (handles : List (String × String))

/-- `_tag`: the label of a kind. -/
def tagLabel (kind : AttributionKind) (cited : List String) : List Char :=
  if kind = .CITED then
    '[' :: ", ".toList.intercalate (cited.map fun pid =>
      ((dictOf handles pid).getD "").toList) ++ [']']
  else '[' :: kind.value ++ [']']

/-- The kind that a group gives its unit. -/
def TagGroup.kind (group : TagGroup) : AttributionKind :=
  match group.declared with
  | some declared => declared
  | none => if group.cited ≠ [] then .CITED else .UNATTRIBUTED

/-- The prose of a unit. -/
def GroundedUnit.prose (u : GroundedUnit) : List Char :=
  cleanUnit re (u.unit.rdropWhile re.isspace ++ u.punct)

/-- A unit that says something is a sentence. -/
def GroundedUnit.sentence (u : GroundedUnit) : AttributedSentence where
  text := u.prose re
  kind := u.group.kind
  citedIds := u.group.cited
  invalidCitations := u.group.invalid

/-- A group without prose of its own joins the sentence before it. -/
def AttributedSentence.join (prior : AttributedSentence) (group : TagGroup) : AttributedSentence :=
  let citedIds := prior.citedIds ++ group.cited.filter (· ∉ prior.citedIds)
  { prior with
    citedIds := citedIds
    invalidCitations := prior.invalidCitations ++ group.invalid
    kind :=
      if prior.kind = .UNATTRIBUTED then
        match group.declared with
        | some declared => declared
        | none => if citedIds ≠ [] then .CITED else .UNATTRIBUTED
      else prior.kind }

/-- The state of the parse: the sentences, and the characters of the answer, those of a label
marked. -/
structure ParseState where
  sentences : List AttributedSentence := []
  pieces : List (Char × Bool) := []

/-- Append text of the reply. -/
def ParseState.write (state : ParseState) (text : List Char) : ParseState :=
  { state with pieces := state.pieces ++ text.map (·, false) }

/-- Append a label. -/
def ParseState.writeLabel (state : ParseState) (text : List Char) : ParseState :=
  { state with pieces := state.pieces ++ text.map (·, true) }

/-- One unit of the loop. -/
def ParseState.addUnit (state : ParseState) (u : GroundedUnit) : ParseState :=
  let sentences :=
    if hasProse re (u.prose re) then state.sentences ++ [u.sentence re]
    else
      match state.sentences.getLast? with
      | none => state.sentences
      | some prior => state.sentences.dropLast ++ [prior.join u.group]
  (((({ state with sentences := sentences } : ParseState).write u.unit).writeLabel
    (tagLabel handles u.group.kind u.group.cited)).write u.punct)

/-- The text after the last tag; when it says something it is one more sentence. -/
def ParseState.finish (state : ParseState) (tail : List Char) : ParseState :=
  let prose := cleanUnit re tail
  if hasProse re prose then
    let stripped := tail.rdropWhile re.isspace
    ((({ state with sentences := state.sentences ++ [⟨prose, .UNATTRIBUTED, [], []⟩] } :
      ParseState).write stripped).writeLabel " [unattributed]".toList).write
        (tail.drop stripped.length)
  else state.write tail

/-- The units of a reply and its tail. -/
def unitsOf (text : List Char) : List GroundedUnit × List Char :=
  let (first, tags) := findTags re text
  cutUnits first (tagGroups re (tagResolver re handles) tags)

/-- The state at the end of the parse. -/
def parsePieces (text : List Char) : ParseState :=
  let (units, tail) := unitsOf re handles text
  (units.foldl (ParseState.addUnit re handles) {}).finish re tail

/-- `GroundedAnswer`. -/
structure GroundedAnswer where
  answer : List Char
  sentences : List AttributedSentence

/-- **`parse_grounded`**. -/
def parseGrounded (text : List Char) : GroundedAnswer where
  answer := re.strip ((parsePieces re handles text).pieces.map Prod.fst)
  sentences := (parsePieces re handles text).sentences

/-- The answer with the characters of its labels marked. -/
def labelledAnswer (text : List Char) : List (Char × Bool) :=
  trim (fun item => re.isspace item.1) (parsePieces re handles text).pieces

/-- A reply without its tags. -/
def untagged (text : List Char) : List Char := gapsOf (findTags re text)

/-- A reply without its tags and without the blanks between two of them. -/
def untaggedRuns (text : List Char) : List Char :=
  (findTags re text).1 ++ (keptGaps re ((findTags re text).2.map Cut.gap)).flatten

/-- A unit with the bare groups behind it. -/
def sentenceOf (u : GroundedUnit) (bares : List GroundedUnit) : AttributedSentence :=
  bares.foldl (fun prior bare => prior.join bare.group) (u.sentence re)

/-! ### The text -/

variable {re handles}

/-- The punctuation behind a tag is the start of the text there. -/
theorem trailingPunct_append (gap : List Char) :
    trailingPunct gap ++ gap.drop (trailingPunct gap).length = gap := by
  refine List.prefix_iff_eq_append.1 ?_
  unfold trailingPunct
  dsimp only
  split_ifs
  · exact List.nil_prefix
  · have hgap : gap.takeWhile (· ∈ ".!?:;".toList) ++
        gap.drop (gap.takeWhile (· ∈ ".!?:;".toList)).length = gap :=
      List.prefix_iff_eq_append.1 (List.takeWhile_prefix _)
    conv_rhs => rw [← hgap]
    exact (List.prefix_append_right_inj _).2 (List.takeWhile_prefix _)

/-- The units and the tail are the texts between the groups. -/
theorem cutUnits_join (unit : List Char) (groups : List (TagGroup × List Char)) :
    ((cutUnits unit groups).1.map fun u => u.unit ++ u.punct).flatten ++ (cutUnits unit groups).2 =
      unit ++ (groups.map Prod.snd).flatten := by
  induction groups generalizing unit with
  | nil => simp [cutUnits]
  | cons entry groups ih =>
      obtain ⟨group, gap⟩ := entry
      have hrest := ih (gap.drop (trailingPunct gap).length)
      simp only [cutUnits, List.map_cons, List.flatten_cons, List.append_assoc] at hrest ⊢
      rw [hrest, ← List.append_assoc (trailingPunct gap), trailingPunct_append]

theorem sentences_write (state : ParseState) (text : List Char) :
    (state.write text).sentences = state.sentences := rfl

theorem sentences_writeLabel (state : ParseState) (text : List Char) :
    (state.writeLabel text).sentences = state.sentences := rfl

theorem unmarked_write (state : ParseState) (text : List Char) :
    unmarked (state.write text).pieces = unmarked state.pieces ++ text := by
  simp [ParseState.write]

theorem unmarked_writeLabel (state : ParseState) (text : List Char) :
    unmarked (state.writeLabel text).pieces = unmarked state.pieces := by
  simp [ParseState.writeLabel]

theorem unmarked_addUnit (state : ParseState) (u : GroundedUnit) :
    unmarked (state.addUnit re handles u).pieces =
      unmarked state.pieces ++ (u.unit ++ u.punct) := by
  rw [ParseState.addUnit, unmarked_write, unmarked_writeLabel, unmarked_write, List.append_assoc]

theorem unmarked_finish (state : ParseState) (tail : List Char) :
    unmarked (state.finish re tail).pieces = unmarked state.pieces ++ tail := by
  rw [ParseState.finish]
  split_ifs
  · rw [unmarked_write, unmarked_writeLabel, unmarked_write, List.append_assoc]
    exact congrArg (unmarked state.pieces ++ ·)
      (List.prefix_iff_eq_append.1 (List.rdropWhile_prefix _ _))
  · exact unmarked_write state tail

/-- **The answer without its labels is the reply without its runs of tags.** -/
theorem unmarked_parse (text : List Char) :
    unmarked (parsePieces re handles text).pieces = untaggedRuns re text := by
  have hloop : ∀ (units : List GroundedUnit) (state : ParseState),
      unmarked (units.foldl (ParseState.addUnit re handles) state).pieces =
        unmarked state.pieces ++ (units.map fun u => u.unit ++ u.punct).flatten := by
    intro units
    induction units with
    | nil => simp
    | cons u units ih =>
        intro state
        rw [List.foldl_cons, ih, unmarked_addUnit, List.map_cons, List.flatten_cons,
          List.append_assoc]
  have hunits := cutUnits_join (findTags re text).1
    (tagGroups re (tagResolver re handles) (findTags re text).2)
  rw [map_snd_tagGroups] at hunits
  rw [untaggedRuns, ← hunits, parsePieces, unmarked_finish, hloop, unmarked_nil, List.nil_append]
  rfl

/-! ### What a sentence cites -/

/-- A sentence cites ids of the handle map: some when it is CITED, none when it is UNATTRIBUTED. -/
structure AttributedSentence.Sound (handles : List (String × String))
    (sentence : AttributedSentence) : Prop where
  cited : ∀ id ∈ sentence.citedIds, id ∈ handles.map Prod.fst
  some_of_cited : sentence.kind = .CITED → sentence.citedIds ≠ []
  none_of_unattributed : sentence.kind = .UNATTRIBUTED → sentence.citedIds = []

/-- A group declares neither that its unit is cited nor that it is unattributed. -/
theorem TagGroup.Sound.declared_ne {group : TagGroup} (h : group.Sound handles)
    {declared : AttributionKind} (hdeclared : group.declared = some declared) :
    declared ≠ .CITED ∧ declared ≠ .UNATTRIBUTED := by
  rcases h.declared declared hdeclared with rfl | rfl <;> decide

theorem TagGroup.kind_of_declared {group : TagGroup} {declared : AttributionKind}
    (h : group.declared = some declared) : group.kind = declared := by
  rw [TagGroup.kind, h]

theorem TagGroup.kind_of_undeclared {group : TagGroup} (h : group.declared = none) :
    group.kind = if group.cited ≠ [] then .CITED else .UNATTRIBUTED := by
  rw [TagGroup.kind, h]

/-- A sentence whose kind is that of a group with its ids cites soundly. -/
theorem AttributedSentence.Sound.of_group {sentence : AttributedSentence} {group : TagGroup}
    (hgroup : group.Sound handles) (hcited : ∀ id ∈ sentence.citedIds, id ∈ handles.map Prod.fst)
    (hkind : sentence.kind = { group with cited := sentence.citedIds }.kind) :
    sentence.Sound handles := by
  cases hdeclared : group.declared with
  | none =>
      have hnone : sentence.kind = if sentence.citedIds ≠ [] then .CITED else .UNATTRIBUTED :=
        hkind.trans (TagGroup.kind_of_undeclared hdeclared)
      refine ⟨hcited, fun h => ?_, fun h => ?_⟩
      · rw [hnone] at h
        split_ifs at h with hsome
        exact hsome
      · rw [hnone] at h
        split_ifs at h with hsome
        exact not_not.1 hsome
  | some declared =>
      have hsome : sentence.kind = declared := hkind.trans (TagGroup.kind_of_declared hdeclared)
      obtain ⟨hne, hne'⟩ := hgroup.declared_ne hdeclared
      exact ⟨hcited, fun h => absurd (hsome.symm.trans h) hne,
        fun h => absurd (hsome.symm.trans h) hne'⟩

theorem sound_sentence {u : GroundedUnit} (h : u.group.Sound handles) :
    (u.sentence re).Sound handles := .of_group h h.cited rfl

/-- A sentence that has a kind keeps it when a bare group joins. -/
theorem AttributedSentence.kind_join_of_kind {prior : AttributedSentence}
    (hprior : prior.kind ≠ .UNATTRIBUTED) (group : TagGroup) :
    (prior.join group).kind = prior.kind := if_neg hprior

/-- A sentence without a kind takes that of the group, with the ids of both. -/
theorem AttributedSentence.kind_join_of_unattributed {prior : AttributedSentence}
    (hprior : prior.kind = .UNATTRIBUTED) (group : TagGroup) :
    (prior.join group).kind = { group with cited := (prior.join group).citedIds }.kind :=
  if_pos hprior

theorem AttributedSentence.Sound.join {prior : AttributedSentence} (h : prior.Sound handles)
    {group : TagGroup} (hgroup : group.Sound handles) : (prior.join group).Sound handles := by
  have hcited : ∀ id ∈ (prior.join group).citedIds, id ∈ handles.map Prod.fst := by
    intro id hid
    rcases List.mem_append.1 hid with hid | hid
    · exact h.cited id hid
    · exact hgroup.cited id (List.mem_filter.1 hid).1
  by_cases hprior : prior.kind = .UNATTRIBUTED
  · exact .of_group hgroup hcited (kind_join_of_unattributed hprior group)
  · have hkind := kind_join_of_kind hprior group
    refine ⟨hcited, fun hcited => ?_, fun hnone => absurd (hkind.symm.trans hnone) hprior⟩
    exact List.append_ne_nil_of_left_ne_nil (h.some_of_cited (hkind.symm.trans hcited)) _

/-- One unit appends its sentence, or joins its group to the last one. -/
theorem sentences_addUnit (state : ParseState) (u : GroundedUnit) :
    (state.addUnit re handles u).sentences =
      if hasProse re (u.prose re) then state.sentences ++ [u.sentence re]
      else
        match state.sentences.getLast? with
        | none => state.sentences
        | some prior => state.sentences.dropLast ++ [prior.join u.group] := by
  rw [ParseState.addUnit, sentences_write, sentences_writeLabel, sentences_write]

theorem sound_addUnit {state : ParseState} {u : GroundedUnit}
    (h : ∀ sentence ∈ state.sentences, sentence.Sound handles) (hgroup : u.group.Sound handles) :
    ∀ sentence ∈ (state.addUnit re handles u).sentences, sentence.Sound handles := by
  rw [sentences_addUnit]
  split_ifs
  · exact List.forall_mem_append.2 ⟨h, by simpa using sound_sentence hgroup⟩
  · split
    · exact h
    · rename_i prior hprior
      have hsound : prior.Sound handles := h prior (List.mem_of_getLast? hprior)
      refine List.forall_mem_append.2 ⟨fun sentence hmem => ?_, by simpa using hsound.join hgroup⟩
      exact h sentence (List.dropLast_subset _ hmem)

theorem groups_cutUnits (unit : List Char) (groups : List (TagGroup × List Char)) :
    (cutUnits unit groups).1.map GroundedUnit.group = groups.map Prod.fst := by
  induction groups generalizing unit with
  | nil => rfl
  | cons entry groups ih =>
      obtain ⟨group, gap⟩ := entry
      rw [cutUnits, List.map_cons, List.map_cons, ih]

theorem sentences_finish (state : ParseState) (tail : List Char) :
    (state.finish re tail).sentences = state.sentences ++
      if hasProse re (cleanUnit re tail) then [⟨cleanUnit re tail, .UNATTRIBUTED, [], []⟩] else [] := by
  rw [ParseState.finish]
  split_ifs
  · rfl
  · exact (List.append_nil _).symm

/-- The sentences of a reply: those of its units, and the tail's. -/
theorem sentences_parse (text : List Char) :
    (parseGrounded re handles text).sentences =
      ((unitsOf re handles text).1.foldl (ParseState.addUnit re handles) {}).sentences ++
        if hasProse re (cleanUnit re (unitsOf re handles text).2) then
          [⟨cleanUnit re (unitsOf re handles text).2, .UNATTRIBUTED, [], []⟩] else [] :=
  sentences_finish _ _

theorem sound_unitsOf (text : List Char) :
    ∀ u ∈ (unitsOf re handles text).1, u.group.Sound handles := by
  have hunits : (unitsOf re handles text).1.map GroundedUnit.group =
      (tagGroups re (tagResolver re handles) (findTags re text).2).map Prod.fst :=
    groups_cutUnits _ _
  intro u hu
  have hgroup : u.group ∈ (unitsOf re handles text).1.map GroundedUnit.group :=
    List.mem_map_of_mem hu
  rw [hunits] at hgroup
  obtain ⟨entry, hentry, hsame⟩ := List.mem_map.1 hgroup
  exact hsame ▸ cited_tagGroups _ entry hentry

/-- **A CITED sentence cites ids of the handle map, and an UNATTRIBUTED one cites none.** -/
theorem sound_parse (text : List Char) :
    ∀ sentence ∈ (parseGrounded re handles text).sentences, sentence.Sound handles := by
  have hloop : ∀ sentence ∈ ((unitsOf re handles text).1.foldl
      (ParseState.addUnit re handles) {}).sentences, sentence.Sound handles := by
    refine List.foldlRecOn
      (motive := fun state : ParseState => ∀ sentence ∈ state.sentences, sentence.Sound handles)
      (unitsOf re handles text).1 _ (by simp) fun state hstate u hu => ?_
    exact sound_addUnit hstate (sound_unitsOf text u hu)
  rw [sentences_parse]
  refine List.forall_mem_append.2 ⟨hloop, fun sentence hsentence => ?_⟩
  split_ifs at hsentence
  · obtain rfl := List.mem_singleton.1 hsentence
    exact ⟨by simp, by simp, by simp⟩
  · cases hsentence

/-! ### Which tags a sentence has -/

/-- A unit says something of its own. -/
def GroundedUnit.isProse (re : ReplyText) (u : GroundedUnit) : Bool := hasProse re (u.prose re)

theorem sentences_addUnit_of_prose (state : ParseState) {u : GroundedUnit}
    (hu : u.isProse re = true) :
    (state.addUnit re handles u).sentences = state.sentences ++ [u.sentence re] := by
  rw [sentences_addUnit]
  exact if_pos hu

theorem not_hasProse_of_bare {u : GroundedUnit} (hu : u.isProse re = false) :
    ¬ hasProse re (u.prose re) = true := by
  simpa [GroundedUnit.isProse] using hu

theorem sentences_addUnit_of_bare {state : ParseState} {u : GroundedUnit}
    (hu : u.isProse re = false) {sentences : List AttributedSentence} {prior : AttributedSentence}
    (hstate : state.sentences = sentences ++ [prior]) :
    (state.addUnit re handles u).sentences = sentences ++ [prior.join u.group] := by
  rw [sentences_addUnit, if_neg (not_hasProse_of_bare hu), hstate, List.getLast?_concat]
  simp

/-- As many sentences as units with prose. -/
theorem length_sentences (units : List GroundedUnit) :
    (units.foldl (ParseState.addUnit re handles) {}).sentences.length =
      units.countP (GroundedUnit.isProse re) := by
  induction units using List.reverseRecOn with
  | nil => rfl
  | append_singleton units u ih =>
      rw [List.foldl_append, List.foldl_cons, List.foldl_nil, List.countP_append]
      cases hu : u.isProse re with
      | true =>
          rw [sentences_addUnit_of_prose _ hu, List.length_append, ih]
          simp [hu]
      | false =>
          rcases List.eq_nil_or_concat'
            (units.foldl (ParseState.addUnit re handles) {}).sentences with hnil | ⟨init, prior, hlast⟩
          · rw [sentences_addUnit, if_neg (not_hasProse_of_bare hu), hnil, ← ih, hnil]
            simp [hu]
          · rw [sentences_addUnit_of_bare hu hlast, ← ih, hlast]
            simp [hu]

/-- Bare units join the last sentence. -/
theorem sentences_foldl_bare {bares : List GroundedUnit} (hbares : ∀ b ∈ bares, b.isProse re = false)
    {state : ParseState} {sentences : List AttributedSentence} {prior : AttributedSentence}
    (hstate : state.sentences = sentences ++ [prior]) :
    (bares.foldl (ParseState.addUnit re handles) state).sentences =
      sentences ++ [bares.foldl (fun prior bare => prior.join bare.group) prior] := by
  induction bares generalizing state prior with
  | nil => exact hstate
  | cons b bares ih =>
      obtain ⟨hb, hrest⟩ := List.forall_mem_cons.1 hbares
      rw [List.foldl_cons, List.foldl_cons]
      exact ih hrest (sentences_addUnit_of_bare hb hstate)

/-- What stands before the last sentence stays. -/
theorem sentences_foldl_of_append (units : List GroundedUnit) {state : ParseState}
    {sentences : List AttributedSentence} {prior : AttributedSentence}
    (hstate : state.sentences = sentences ++ [prior]) :
    ∃ last later, (units.foldl (ParseState.addUnit re handles) state).sentences =
      sentences ++ (last :: later) := by
  induction units using List.reverseRecOn with
  | nil => exact ⟨prior, [], hstate⟩
  | append_singleton units u ih =>
      obtain ⟨last, later, hbefore⟩ := ih
      rw [List.foldl_append, List.foldl_cons, List.foldl_nil]
      cases hu : u.isProse re with
      | true =>
          refine ⟨last, later ++ [u.sentence re], ?_⟩
          rw [sentences_addUnit_of_prose _ hu, hbefore, List.append_assoc, List.cons_append]
      | false =>
          rcases List.eq_nil_or_concat' later with rfl | ⟨init, final, rfl⟩
          · exact ⟨last.join u.group, [], sentences_addUnit_of_bare hu hbefore⟩
          · refine ⟨last, init ++ [final.join u.group], ?_⟩
            have hlast : (units.foldl (ParseState.addUnit re handles) state).sentences =
                (sentences ++ last :: init) ++ [final] := by
              rw [hbefore]
              simp
            rw [sentences_addUnit_of_bare hu hlast]
            simp

/-- **The sentences are those of the units with prose, in order**, each joined by the bare units
behind it. -/
theorem sentence_parse {text : List Char} {before bares rest : List GroundedUnit} {u : GroundedUnit}
    (hsplit : (unitsOf re handles text).1 = before ++ u :: (bares ++ rest))
    (hu : u.isProse re = true) (hbares : ∀ b ∈ bares, b.isProse re = false)
    (hrest : ∀ next ∈ rest.head?, next.isProse re = true) :
    (parseGrounded re handles text).sentences[before.countP (GroundedUnit.isProse re)]? =
      some (sentenceOf re u bares) := by
  set first := (before.foldl (ParseState.addUnit re handles) {}).sentences with hfirst
  have hlength : first.length = before.countP (GroundedUnit.isProse re) := length_sentences before
  have hbareEnd : ((u :: bares).foldl (ParseState.addUnit re handles)
      (before.foldl (ParseState.addUnit re handles) {})).sentences =
        first ++ [sentenceOf re u bares] := by
    rw [List.foldl_cons]
    exact sentences_foldl_bare hbares (sentences_addUnit_of_prose _ hu)
  obtain ⟨later, hlater⟩ : ∃ later, ((unitsOf re handles text).1.foldl
      (ParseState.addUnit re handles) {}).sentences = first ++ sentenceOf re u bares :: later := by
    rw [hsplit, ← List.cons_append, List.foldl_append, List.foldl_append]
    cases rest with
    | nil =>
        refine ⟨[], ?_⟩
        rw [List.foldl_nil]
        exact hbareEnd
    | cons next rest =>
        have hnext : next.isProse re = true := hrest next rfl
        rw [List.foldl_cons]
        set ended := (u :: bares).foldl (ParseState.addUnit re handles)
          (before.foldl (ParseState.addUnit re handles) {})
        obtain ⟨last, later, hkept⟩ : ∃ last later,
            (rest.foldl (ParseState.addUnit re handles) (ended.addUnit re handles next)).sentences =
              ended.sentences ++ (last :: later) :=
          sentences_foldl_of_append rest (sentences_addUnit_of_prose ended hnext)
        rw [hkept, hbareEnd, List.append_assoc]
        exact ⟨last :: later, rfl⟩
  rw [sentences_parse, hlater, List.append_assoc, ← hlength]
  simp

/-! ### The kind of a sentence -/

/-- A sentence keeps its text when bare groups join. -/
theorem text_foldl_join (bares : List GroundedUnit) (prior : AttributedSentence) :
    (bares.foldl (fun prior bare => prior.join bare.group) prior).text = prior.text := by
  induction bares generalizing prior with
  | nil => rfl
  | cons b bares ih => exact ih (prior.join b.group)

/-- A sentence that has a kind keeps it when several bare groups join. -/
theorem kind_foldl_join (bares : List GroundedUnit) {prior : AttributedSentence}
    (hprior : prior.kind ≠ .UNATTRIBUTED) :
    (bares.foldl (fun prior bare => prior.join bare.group) prior).kind = prior.kind := by
  induction bares generalizing prior with
  | nil => rfl
  | cons b bares ih =>
      have hjoin := AttributedSentence.kind_join_of_kind hprior b.group
      rw [List.foldl_cons, ih (hjoin ▸ hprior), hjoin]

/-- Groups that neither declare nor cite leave a sentence as it was. -/
theorem foldl_join_of_silent {bares : List GroundedUnit}
    (hbares : ∀ b ∈ bares, b.group.declared = none ∧ b.group.cited = [])
    {prior : AttributedSentence} (hkind : prior.kind = .UNATTRIBUTED) (hcited : prior.citedIds = []) :
    (bares.foldl (fun prior bare => prior.join bare.group) prior).kind = .UNATTRIBUTED := by
  induction bares generalizing prior with
  | nil => exact hkind
  | cons b bares ih =>
      obtain ⟨⟨hdeclared, hnone⟩, hrest⟩ := List.forall_mem_cons.1 hbares
      exact ih hrest (by simp [AttributedSentence.join, hkind, hdeclared, hnone, hcited])
        (by simp [AttributedSentence.join, hnone, hcited])

/-- **A declaration on the unit itself is the kind of its sentence.** -/
theorem kind_of_declared {u : GroundedUnit} (hsound : u.group.Sound handles)
    {declared : AttributionKind} (h : u.group.declared = some declared) (bares : List GroundedUnit) :
    (sentenceOf re u bares).kind = declared := by
  have hkind : (u.sentence re).kind = declared := TagGroup.kind_of_declared h
  rw [sentenceOf, kind_foldl_join bares, hkind]
  exact hkind ▸ (hsound.declared_ne h).2

/-- **So is the declaration of a bare group, where nothing before it declared or cited.** -/
theorem kind_of_bare_declared {u b : GroundedUnit} {silent bares : List GroundedUnit}
    (hsound : b.group.Sound handles)
    (hsilent : ∀ earlier ∈ u :: silent, earlier.group.declared = none ∧ earlier.group.cited = [])
    {declared : AttributionKind} (h : b.group.declared = some declared) :
    (sentenceOf re u (silent ++ b :: bares)).kind = declared := by
  obtain ⟨⟨hdeclared, hcited⟩, hrest⟩ := List.forall_mem_cons.1 hsilent
  have hkind : (u.sentence re).kind = .UNATTRIBUTED :=
    (TagGroup.kind_of_undeclared hdeclared).trans (if_neg (not_not.2 hcited))
  have hunit : (sentenceOf re u silent).kind = .UNATTRIBUTED :=
    foldl_join_of_silent hrest hkind hcited
  have hjoin : ((sentenceOf re u silent).join b.group).kind = declared :=
    (AttributedSentence.kind_join_of_unattributed hunit b.group).trans (TagGroup.kind_of_declared h)
  have hsplit : sentenceOf re u (silent ++ b :: bares) =
      bares.foldl (fun prior bare => prior.join bare.group)
        ((sentenceOf re u silent).join b.group) := by
    simp [sentenceOf]
  rw [hsplit, kind_foldl_join bares, hjoin]
  exact hjoin ▸ (hsound.declared_ne h).2

end Parse

/-- **Grounded parsing conserves the text and the attribution**: the answer without its labels is the
reply without its tags and the blanks between adjacent ones; a CITED sentence cites ids of the handle
map, an UNATTRIBUTED one none; and a sentence is of the kind that its unit's tags declare, or else the
first bare group behind it when nothing before that cites. -/
theorem parseGrounded_conserves (re : ReplyText) (handles : List (String × String))
    (text : List Char) :
    ((findTags re text).1 ++
        ((findTags re text).2.map fun tag => tag.raw ++ tag.gap).flatten = text ∧
      (parseGrounded re handles text).answer = (labelledAnswer re handles text).map Prod.fst ∧
      re.strip (unmarked (labelledAnswer re handles text)) = re.strip (untaggedRuns re text) ∧
      (untaggedRuns re text).filter (fun c => !re.isspace c) =
        (untagged re text).filter fun c => !re.isspace c) ∧
    (∀ sentence ∈ (parseGrounded re handles text).sentences,
      (sentence.kind = .CITED → sentence.citedIds ≠ [] ∧
        ∀ id ∈ sentence.citedIds, id ∈ handles.map Prod.fst) ∧
      (sentence.kind = .UNATTRIBUTED → sentence.citedIds = [])) ∧
    (parseGrounded re handles text).sentences.length =
      (unitsOf re handles text).1.countP (GroundedUnit.isProse re) +
        (hasProse re (cleanUnit re (unitsOf re handles text).2)).toNat ∧
    ∀ before u bares rest, (unitsOf re handles text).1 = before ++ u :: (bares ++ rest) →
      u.isProse re = true → (∀ b ∈ bares, b.isProse re = false) →
      (∀ next ∈ rest.head?, next.isProse re = true) →
        ∃ sentence,
          (parseGrounded re handles text).sentences[before.countP (GroundedUnit.isProse re)]? =
            some sentence ∧ sentence.text = u.prose re ∧
          (∀ declared, u.group.declared = some declared → sentence.kind = declared) ∧
          ∀ silent b after declared, bares = silent ++ b :: after →
            (∀ earlier ∈ u :: silent, earlier.group.declared = none ∧ earlier.group.cited = []) →
              b.group.declared = some declared → sentence.kind = declared := by
  refine ⟨⟨cut_join _ 0 text, ?_, ?_, ?_⟩, fun sentence hsentence => ?_, ?_, ?_⟩
  · rw [parseGrounded, ReplyText.strip, labelledAnswer, map_fst_trim]
  · rw [labelledAnswer, ReplyText.strip, trim_unmarked_trim, unmarked_parse, ReplyText.strip]
  · rw [untaggedRuns, untagged, gapsOf, List.filter_append, List.filter_append,
      filter_flatten_keptGaps]
  · have hsound := sound_parse text sentence hsentence
    exact ⟨fun hkind => ⟨hsound.some_of_cited hkind, hsound.cited⟩, hsound.none_of_unattributed⟩
  · rw [sentences_parse, List.length_append, length_sentences]
    cases hasProse re (cleanUnit re (unitsOf re handles text).2) <;> rfl
  · intro before u bares rest hsplit hu hbares hrest
    have hsound : ∀ unit ∈ u :: bares, unit.group.Sound handles := by
      intro unit hunit
      have hmem : unit ∈ (unitsOf re handles text).1 := by
        rw [hsplit]
        rcases List.mem_cons.1 hunit with rfl | hunit
        · simp
        · simp [hunit]
      exact sound_unitsOf text unit hmem
    refine ⟨sentenceOf re u bares, sentence_parse hsplit hu hbares hrest, ?_, ?_, ?_⟩
    · exact text_foldl_join bares _
    · exact fun declared h => kind_of_declared (hsound u List.mem_cons_self) h bares
    · rintro silent b after declared rfl hsilent h
      exact kind_of_bare_declared (hsound b (by simp)) hsilent h

/-! ### A blank between two tags -/

/-- The characters of a reply, in ASCII. -/
def asciiReply : ReplyText where
  isspace := fun c => c = ' ' || c = '\n'
  isalnum := Char.isAlphanum
  isdecimal := Char.isDigit
  lower := List.map Char.toLower
  matchesLetter := fun letter c => c.toLower = letter

/-- **The blank between two tags is lost**: they are read as one group. -/
theorem adjacent_tags_lose_blank :
    asciiReply.strip (untagged asciiReply "A [p-1a] [p-2b].".toList) = "A  .".toList ∧
    unmarked (labelledAnswer asciiReply [("1a", "p-1a"), ("2b", "p-2b")] "A [p-1a] [p-2b].".toList) =
      "A .".toList ∧
    asciiReply.strip (unmarked (labelledAnswer asciiReply [("1a", "p-1a"), ("2b", "p-2b")]
        "A [p-1a] [p-2b].".toList)) ≠
      asciiReply.strip (untagged asciiReply "A [p-1a] [p-2b].".toList) := by
  refine ⟨?_, ?_, ?_⟩ <;> decide +kernel

end ParticlesEngine
