/-
**The budget of a projection.**

The body of a projected region is put together from prose and from sections of ranked bullets.  When it
has too many lines or bytes, one bullet is dropped at a time and the body is put together again.  The
bullet with the lowest effective confidence goes first, of those the one with the greatest id, whatever
section holds it; pins and prose stay.

Main definitions:

* `BulletSectionPart`, `SplicePart` — a section held un-rendered, and a part of the body;
* `assembleSpliceParts`, `overBudget` — the body, and whether it exceeds a limit;
* `droppable`, `dropEntry` — the bullets that may go, and the parts without one of them;
* `applyBudget` — the loop;
* `unpinned`, `rankOrder` — the entries that are not pinned, and the same in the order of rank;
* `TrimmedFrom` — a part with bullets missing.

Main results:

* `map_place_droppable` — the bullets that may go are those;
* `rankOrder_dropEntry` — one round takes the head of the rank order;
* `applyBudget_truncates` — **the loop drops an initial segment of the rank order, changes nothing else,
  and stops within the limits or with nothing left to drop**;
* `pin_stays` — a particle that a pin names stays in its section.
-/

import Mathlib.Algebra.Order.Ring.Rat
import Mathlib.Data.Prod.Lex
import Mathlib.Data.String.Basic
import Mathlib.Order.OrderDual
import ParticlesEngine.Schema
import ParticlesEngine.SortBy
import ParticlesEngine.TextCuts

set_option relaxedAutoImplicit false
set_option autoImplicit false

open SortBy

namespace ParticlesEngine

namespace ProjectionBudget

/-! ### The parts -/

/-- What the renderer takes from elsewhere. -/
structure RenderEnv where
  /-- `str.isspace` on one character -/
  isspace : Char → Bool
  /-- `format_memory_bullet`: content, short id, contesting inconsistency, contested bases -/
  formatMemoryBullet : String → String → Option String → List String → String
  /-- `format_sources_trailer` -/
  formatSourcesTrailer : List String → String

/-- One selected particle of a bullet section, with its contested flag. -/
structure BulletEntry where
  particle : Particle
  eff : ℚ
  contestedBy : Option String := none
  contestedBases : List String := []
  deriving DecidableEq

/-- A section of bullets held un-rendered, so that the budget can trim it. -/
structure BulletSectionPart where
  header : String
  entries : List BulletEntry
  /-- the resolved ids of the pins -/
  pinned : List String
  deriving DecidableEq

/-- One part of the body: rendered text, or a section of bullets. -/
inductive SplicePart where
  | prose (text : String)
  | bullets (part : BulletSectionPart)
  deriving DecidableEq

/-- `_short_id`. -/
def shortId (particleId : String) : String := String.ofList (particleId.toList.take 8)

section Render

variable (env : RenderEnv)

/-- `_BulletSectionPart.render`. -/
def BulletSectionPart.render (part : BulletSectionPart) : String :=
  if part.entries.isEmpty then
    part.header ++ "_No current particles match this section's binding._\n"
  else
    let lines := part.entries.map fun entry =>
      env.formatMemoryBullet entry.particle.content (shortId entry.particle.id)
        ((entry.contestedBy.filter (· ≠ "")).map shortId) entry.contestedBases
    let trailer := env.formatSourcesTrailer (part.entries.map fun entry => shortId entry.particle.id)
    part.header ++ "\n".intercalate lines ++ "\n\n" ++ trailer

def SplicePart.render : SplicePart → String
  | .prose text => text
  | .bullets part => part.render env

/-- `_strip_pin_prefix`. -/
def stripPinPrefix (pin : String) : String :=
  match TextCuts.trim env.isspace pin.toList with
  | 'p' :: '-' :: body => String.ofList body
  | 'p' :: ':' :: body => String.ofList body
  | body => String.ofList body

/-- `_bullet_section_part`. -/
def bulletSectionPart (allow : List String) (particles : List (Particle × ℚ)) (header : String)
    (backrefs : String → Option String) (badges : String → Option (List String)) :
    BulletSectionPart :=
  let pinBodies := allow.map (stripPinPrefix env)
  { header := header
    entries := particles.map fun item =>
      ⟨item.1, item.2, backrefs item.1.id, (badges item.1.id).getD []⟩
    pinned := (particles.filter fun item => pinBodies.any fun body =>
      item.1.id = body ∨ body.toList <+: item.1.id.toList).map fun item => item.1.id }

/-- `_assemble_splice_parts`. -/
def assembleSpliceParts (parts : List SplicePart) : String :=
  let rendered := parts.map fun part => (part.render env).toList.rdropWhile (· = '\n')
  String.ofList (TextCuts.trim (· = '\n') (['\n'].intercalate rendered) ++ ['\n'])

end Render

/-! ### The limits -/

/-- The characters that end a line. -/
def isLineBreak (c : Char) : Bool :=
  c ∈ ['\n', '\r', '\x0b', '\x0c', '\x1c', '\x1d', '\x1e', '\x85', '\u2028', '\u2029']

/-- `str.splitlines`, after what has been read of a line. -/
def splitlinesFrom (line : List Char) : List Char → List (List Char)
  | [] => if line = [] then [] else [line]
  | '\r' :: '\n' :: rest => line :: splitlinesFrom [] rest
  | c :: rest =>
      if isLineBreak c then line :: splitlinesFrom [] rest else splitlinesFrom (line ++ [c]) rest

/-- Whether a body exceeds a limit. -/
def overBudget (maxLines maxBytes : Option ℕ) (document : String) : Bool :=
  maxLines.any (fun limit => limit < (splitlinesFrom [] document.toList).length) ||
    maxBytes.any fun limit => limit < document.utf8ByteSize

/-- A body has no more lines and bytes than the limits allow. -/
def WithinLimits (maxLines maxBytes : Option ℕ) (document : String) : Prop :=
  (∀ limit, maxLines = some limit → (splitlinesFrom [] document.toList).length ≤ limit) ∧
    ∀ limit, maxBytes = some limit → document.utf8ByteSize ≤ limit

theorem overBudget_eq_false_iff {maxLines maxBytes : Option ℕ} {document : String} :
    overBudget maxLines maxBytes document = false ↔ WithinLimits maxLines maxBytes document := by
  unfold overBudget WithinLimits
  cases maxLines <;> cases maxBytes <;> simp

/-! ### The bullets that may go -/

/-- A bullet that may go, with its section's position and its own. -/
structure Droppable where
  part : ℕ
  idx : ℕ
  entry : BulletEntry
  deriving DecidableEq

/-- The bullets of a section that may go. -/
def sectionDroppable (i : ℕ) (pinned : List String) (entries : List BulletEntry) (start : ℕ) :
    List Droppable :=
  ((entries.zipIdx start).filter fun item => item.1.particle.id ∉ pinned).map fun item =>
    ⟨i, item.2, item.1⟩

def SplicePart.droppable (i : ℕ) : SplicePart → List Droppable
  | .prose _ => []
  | .bullets part => sectionDroppable i part.pinned part.entries 0

/-- The bullets that may go, over the parts from a position on. -/
def droppable (parts : List SplicePart) (start : ℕ) : List Droppable :=
  (parts.zipIdx start).flatMap fun item => item.1.droppable item.2

/-- `del part.entries[idx]`. -/
def SplicePart.dropEntry (idx : ℕ) : SplicePart → SplicePart
  | .prose text => .prose text
  | .bullets part => .bullets { part with entries := part.entries.eraseIdx idx }

def dropEntry (parts : List SplicePart) (part idx : ℕ) : List SplicePart :=
  parts.modify part (SplicePart.dropEntry idx)

/-- The rank of a bullet: the greatest goes first. -/
def Droppable.rank (d : Droppable) : ℚ ×ₗ String := toLex (-d.entry.eff, d.entry.particle.id)

/-- The bullet that goes: the last in rank, the first of equals. -/
def nextDrop (parts : List SplicePart) : Option Droppable := (droppable parts 0).argmax Droppable.rank

/-! ### What one round changes -/

/-- A bullet without its own position, which shifts as others go. -/
def Droppable.place (d : Droppable) : ℕ × BulletEntry := (d.part, d.entry)

section Sections

variable {i : ℕ} {pinned : List String}

theorem sectionDroppable_cons (entry : BulletEntry) (entries : List BulletEntry) (start : ℕ) :
    sectionDroppable i pinned (entry :: entries) start =
      if entry.particle.id ∈ pinned then sectionDroppable i pinned entries (start + 1)
      else ⟨i, start, entry⟩ :: sectionDroppable i pinned entries (start + 1) := by
  unfold sectionDroppable
  by_cases hpinned : entry.particle.id ∈ pinned
  · simp [List.zipIdx_cons, hpinned]
  · simp [List.zipIdx_cons, hpinned]

/-- The bullets of a section, whatever their positions. -/
theorem map_place_sectionDroppable (entries : List BulletEntry) : ∀ start : ℕ,
    (sectionDroppable i pinned entries start).map Droppable.place =
      (entries.filter fun entry => entry.particle.id ∉ pinned).map fun entry => (i, entry) := by
  induction entries with
  | nil =>
      intro start
      rfl
  | cons entry entries ih =>
      intro start
      rw [sectionDroppable_cons]
      by_cases hpinned : entry.particle.id ∈ pinned
      · simp [hpinned, ih]
      · simp [hpinned, ih, Droppable.place]

/-- A bullet that may go stands in its section, at its position. -/
theorem sectionDroppable_split {d : Droppable} {after : List Droppable}
    (entries : List BulletEntry) : ∀ {start : ℕ} {before : List Droppable},
      sectionDroppable i pinned entries start = before ++ d :: after →
        ∃ left right, entries = left ++ d.entry :: right ∧ d.idx = start + left.length ∧ d.part = i ∧
          d.entry.particle.id ∉ pinned ∧ before = sectionDroppable i pinned left start ∧
          after = sectionDroppable i pinned right (start + left.length + 1) := by
  induction entries with
  | nil =>
      intro start before h
      simp [sectionDroppable] at h
  | cons entry entries ih =>
      intro start before h
      rw [sectionDroppable_cons] at h
      split_ifs at h with hpinned
      · obtain ⟨left, right, rfl, hidx, hpart, hfree, rfl, rfl⟩ := ih h
        refine ⟨entry :: left, right, rfl, ?_, hpart, hfree, ?_, ?_⟩
        · rw [hidx, List.length_cons]
          omega
        · rw [sectionDroppable_cons, if_pos hpinned]
        · rw [List.length_cons, Nat.add_right_comm start, Nat.add_assoc start]
      · cases before with
        | nil =>
            obtain ⟨rfl, rfl⟩ := List.cons.inj h
            exact ⟨[], entries, rfl, rfl, rfl, hpinned, rfl, rfl⟩
        | cons first before =>
            rw [List.cons_append] at h
            obtain ⟨rfl, hrest⟩ := List.cons.inj h
            obtain ⟨left, right, rfl, hidx, hpart, hfree, rfl, rfl⟩ := ih hrest
            refine ⟨entry :: left, right, rfl, ?_, hpart, hfree, ?_, ?_⟩
            · rw [hidx, List.length_cons]
              omega
            · rw [sectionDroppable_cons, if_neg hpinned]
            · rw [List.length_cons, Nat.add_right_comm start, Nat.add_assoc start]

end Sections

theorem droppable_cons (part : SplicePart) (parts : List SplicePart) (start : ℕ) :
    droppable (part :: parts) start = part.droppable start ++ droppable parts (start + 1) := by
  rw [droppable, List.zipIdx_cons, List.flatMap_cons, ← droppable]

theorem dropEntry_cons_zero (part : SplicePart) (parts : List SplicePart) (idx : ℕ) :
    dropEntry (part :: parts) 0 idx = part.dropEntry idx :: parts := rfl

theorem dropEntry_cons_succ (part : SplicePart) (parts : List SplicePart) (i idx : ℕ) :
    dropEntry (part :: parts) (i + 1) idx = part :: dropEntry parts i idx := by
  unfold dropEntry
  rw [List.modify_succ_cons]

/-- A part with bullets missing that were not pinned. -/
inductive TrimmedFrom : SplicePart → SplicePart → Prop where
  | prose (text : String) : TrimmedFrom (.prose text) (.prose text)
  | bullets (header : String) (pinned : List String) {kept entries : List BulletEntry}
      (hsub : kept.Sublist entries)
      (hpinned : kept.filter (fun entry => entry.particle.id ∈ pinned) =
        entries.filter fun entry => entry.particle.id ∈ pinned) :
      TrimmedFrom (.bullets ⟨header, kept, pinned⟩) (.bullets ⟨header, entries, pinned⟩)

theorem TrimmedFrom.refl (part : SplicePart) : TrimmedFrom part part := by
  cases part with
  | prose text => exact .prose text
  | bullets part => exact .bullets part.header part.pinned (List.Sublist.refl _) rfl

theorem TrimmedFrom.trans {a b c : SplicePart} (h : TrimmedFrom a b) (h' : TrimmedFrom b c) :
    TrimmedFrom a c := by
  cases h with
  | prose text => exact h'
  | bullets header pinned hsub hpinned =>
      cases h' with
      | bullets _ _ hsub' hpinned' =>
          exact .bullets header pinned (hsub.trans hsub') (hpinned.trans hpinned')

/-- A pinned bullet stays in its section. -/
theorem TrimmedFrom.mem_of_pinned {a : SplicePart} {part : BulletSectionPart}
    (h : TrimmedFrom a (.bullets part)) {entry : BulletEntry} (hentry : entry ∈ part.entries)
    (hpinned : entry.particle.id ∈ part.pinned) :
    ∃ kept, a = .bullets kept ∧ entry ∈ kept.entries := by
  cases h with
  | bullets header pinned hsub hfilter =>
      refine ⟨_, rfl, List.mem_of_mem_filter (p := fun entry => entry.particle.id ∈ pinned) ?_⟩
      rw [hfilter]
      exact List.mem_filter.2 ⟨hentry, decide_eq_true hpinned⟩

/-- The parts of a body, each with bullets missing. -/
abbrev AllTrimmed : List SplicePart → List SplicePart → Prop := List.Forall₂ TrimmedFrom

theorem AllTrimmed.refl (parts : List SplicePart) : AllTrimmed parts parts :=
  List.forall₂_same.2 fun part _ => TrimmedFrom.refl part

theorem AllTrimmed.trans {a b c : List SplicePart} (h : AllTrimmed a b) : AllTrimmed b c →
    AllTrimmed a c := by
  induction h generalizing c with
  | nil => exact id
  | cons hhead _ ih =>
      intro h'
      cases h' with
      | cons hhead' htail' => exact .cons (hhead.trans hhead') (ih htail')

/-- A bullet of two lists stands in the one or in the other. -/
theorem append_eq_append_cons {α : Type*} {front rest before after : List α} {d : α}
    (h : front ++ rest = before ++ d :: after) :
    (∃ before', before = front ++ before' ∧ rest = before' ++ d :: after) ∨
      ∃ after', front = before ++ d :: after' ∧ after = after' ++ rest := by
  rcases List.append_eq_append_iff.1 h with ⟨before', hbefore, hrest⟩ | ⟨after', hfront, hafter⟩
  · exact Or.inl ⟨before', hbefore, hrest⟩
  · cases after' with
    | nil => exact Or.inl ⟨[], by simpa using hfront.symm, hafter.symm⟩
    | cons d' after' =>
        obtain ⟨rfl, rfl⟩ := List.cons.inj hafter
        exact Or.inr ⟨after', hfront, rfl⟩

/-- A section without a bullet that may go. -/
theorem section_dropEntry {i : ℕ} {part : BulletSectionPart} {d : Droppable}
    {before after : List Droppable}
    (h : sectionDroppable i part.pinned part.entries 0 = before ++ d :: after) :
    d.part = i ∧ TrimmedFrom ((SplicePart.bullets part).dropEntry d.idx) (.bullets part) ∧
      (((SplicePart.bullets part).dropEntry d.idx).droppable i).map Droppable.place =
        before.map Droppable.place ++ after.map Droppable.place := by
  obtain ⟨header, entries, pinned⟩ := part
  obtain ⟨left, right, rfl, hidx, hpart, hfree, rfl, rfl⟩ := sectionDroppable_split _ h
  have herase : (left ++ d.entry :: right).eraseIdx d.idx = left ++ right := by
    rw [hidx, Nat.zero_add, List.eraseIdx_append_of_length_le le_rfl, Nat.sub_self,
      List.eraseIdx_cons_zero]
  refine ⟨hpart, ?_, ?_⟩
  · rw [SplicePart.dropEntry, herase]
    refine .bullets header pinned (List.Sublist.append_left (List.sublist_cons_self _ _) _) ?_
    simp [hfree]
  · rw [SplicePart.dropEntry, SplicePart.droppable, herase]
    simp only [map_place_sectionDroppable, List.filter_append, List.map_append]

/-- **One round takes one bullet away**, and leaves all else in its place. -/
theorem droppable_dropEntry {d : Droppable} {after : List Droppable} (parts : List SplicePart) :
    ∀ {start : ℕ} {before : List Droppable}, droppable parts start = before ++ d :: after →
      start ≤ d.part ∧ AllTrimmed (dropEntry parts (d.part - start) d.idx) parts ∧
        (droppable (dropEntry parts (d.part - start) d.idx) start).map Droppable.place =
          before.map Droppable.place ++ after.map Droppable.place := by
  induction parts with
  | nil =>
      intro start before h
      simp [droppable] at h
  | cons part parts ih =>
      intro start before h
      rw [droppable_cons] at h
      rcases append_eq_append_cons h with ⟨before', rfl, hrest⟩ | ⟨after', hsection, rfl⟩
      · -- the bullet stands in a later part
        obtain ⟨hle, htrimmed, hplaces⟩ := ih hrest
        have hpos : d.part - start = d.part - (start + 1) + 1 := by omega
        rw [hpos, dropEntry_cons_succ, droppable_cons, List.map_append, hplaces, List.map_append,
          List.append_assoc]
        exact ⟨by omega, .cons (TrimmedFrom.refl part) htrimmed, rfl⟩
      · cases part with
        | prose text => simp [SplicePart.droppable] at hsection
        | bullets part =>
            obtain ⟨rfl, htrimmed, hplaces⟩ := section_dropEntry hsection
            rw [Nat.sub_self, dropEntry_cons_zero, droppable_cons, List.map_append, hplaces,
              List.map_append, List.append_assoc]
            exact ⟨le_rfl, .cons htrimmed (AllTrimmed.refl parts), rfl⟩

/-! ### The rank order -/

/-- The place of a bullet in the order in which bullets go: from the lowest effective confidence, and
of those from the greatest id. -/
def dropKey (place : ℕ × BulletEntry) : ℚ ×ₗ Stringᵒᵈ :=
  toLex (place.2.eff, OrderDual.toDual place.2.particle.id)

/-- The entries of a part that are not pinned. -/
def SplicePart.unpinned : SplicePart → List BulletEntry
  | .prose _ => []
  | .bullets part => part.entries.filter fun entry => entry.particle.id ∉ part.pinned

/-- The entries of all parts that are not pinned, each with the position of its part. -/
def unpinned (parts : List SplicePart) : List (ℕ × BulletEntry) :=
  parts.zipIdx.flatMap fun item => item.1.unpinned.map fun entry => (item.2, entry)

/-- The entries that are not pinned, of all sections, in the order of rank. -/
def rankOrder (parts : List SplicePart) : List (ℕ × BulletEntry) := sortBy dropKey (unpinned parts)

/-- **The bullets that may go are the entries that are not pinned.** -/
theorem map_place_droppable (parts : List SplicePart) :
    (droppable parts 0).map Droppable.place = unpinned parts := by
  unfold droppable unpinned
  rw [List.map_flatMap]
  refine List.flatMap_congr fun item _ => ?_
  cases item.1 with
  | prose text => rfl
  | bullets part => exact map_place_sectionDroppable part.entries 0

theorem dropKey_le_iff {d d' : Droppable} : dropKey d.place ≤ dropKey d'.place ↔ d'.rank ≤ d.rank := by
  unfold dropKey Droppable.rank Droppable.place
  rw [Prod.Lex.toLex_le_toLex, Prod.Lex.toLex_le_toLex, OrderDual.toDual_le_toDual, neg_lt_neg_iff,
    neg_inj, eq_comm (a := d.entry.eff)]

/-- The bullet that goes is the head of the rank order, and what is left is its tail. -/
theorem rankOrder_dropEntry {parts : List SplicePart} {d : Droppable} (h : nextDrop parts = some d) :
    rankOrder parts = d.place :: rankOrder (dropEntry parts d.part d.idx) ∧
      AllTrimmed (dropEntry parts d.part d.idx) parts := by
  obtain ⟨before, after, hsplit, hbefore, hafter⟩ := argmax_split h
  obtain ⟨-, htrimmed, hplaces⟩ := droppable_dropEntry parts hsplit
  rw [Nat.sub_zero] at htrimmed hplaces
  refine ⟨?_, htrimmed⟩
  unfold rankOrder
  rw [← map_place_droppable, ← map_place_droppable, hplaces, hsplit, List.map_append, List.map_cons]
  refine sortBy_erase_first ?_ ?_
  · rw [List.forall_mem_map]
    intro b hb
    exact not_le.1 fun hle => absurd (dropKey_le_iff.1 hle) (not_le.2 (hbefore b hb))
  · rw [List.forall_mem_map]
    intro b hb
    exact dropKey_le_iff.2 (hafter b hb)

theorem rankOrder_eq_nil {parts : List SplicePart} (h : nextDrop parts = none) :
    rankOrder parts = [] := by
  rw [rankOrder, ← map_place_droppable, List.argmax_eq_none.1 h, List.map_nil, sortBy_nil]

/-! ### The loop -/

/-- What the loop returns, the parts it leaves, and whether it warns that the budget cannot be met. -/
structure BudgetResult where
  document : String
  parts : List SplicePart
  warned : Bool := false

section Loop

variable (env : RenderEnv) (maxLines maxBytes : Option ℕ)

/-- The rounds, until the body fits or nothing is left to drop. -/
def budgetLoop (parts : List SplicePart) : BudgetResult :=
  let document := assembleSpliceParts env parts
  if overBudget maxLines maxBytes document then
    match _hnext : nextDrop parts with
    | none => ⟨document, parts, true⟩
    | some d => budgetLoop (dropEntry parts d.part d.idx)
  else ⟨document, parts, false⟩
termination_by (rankOrder parts).length
decreasing_by
  rw [(rankOrder_dropEntry _hnext).1, List.length_cons]
  exact Nat.lt_succ_self _

/-- **`_apply_budget`.** -/
def applyBudget (parts : List SplicePart) : BudgetResult :=
  if maxLines = none ∧ maxBytes = none then ⟨assembleSpliceParts env parts, parts, false⟩
  else budgetLoop env maxLines maxBytes parts

end Loop

/-- **What the loop has done when it stops.** -/
structure Truncates (env : RenderEnv) (maxLines maxBytes : Option ℕ) (parts : List SplicePart)
    (result : BudgetResult) : Prop where
  /-- prose, headers and pinned bullets stay, and the bullets left keep their order -/
  trimmed : AllTrimmed result.parts parts
  /-- what is left of the entries that are not pinned is what an initial segment of them leaves -/
  initialSegment : ∃ k ≤ (rankOrder parts).length, rankOrder result.parts = (rankOrder parts).drop k
  document_eq : result.document = assembleSpliceParts env result.parts
  within : WithinLimits maxLines maxBytes result.document ∨ rankOrder result.parts = []
  warned_iff : result.warned = true ↔ ¬ WithinLimits maxLines maxBytes result.document

section Spec

variable {env : RenderEnv} {maxLines maxBytes : Option ℕ}

theorem budgetLoop_truncates (parts : List SplicePart) :
    Truncates env maxLines maxBytes parts (budgetLoop env maxLines maxBytes parts) := by
  fun_induction budgetLoop env maxLines maxBytes parts with
  | case1 parts document hover hnone =>
      exact ⟨AllTrimmed.refl parts, ⟨0, Nat.zero_le _, rfl⟩, rfl, Or.inr (rankOrder_eq_nil hnone),
        by simpa [← overBudget_eq_false_iff] using hover⟩
  | case2 parts document hover d hnext ih =>
      obtain ⟨horder, htrimmed⟩ := rankOrder_dropEntry hnext
      obtain ⟨k, hk, hsegment⟩ := ih.initialSegment
      refine ⟨ih.trimmed.trans htrimmed, ⟨k + 1, ?_, ?_⟩, ih.document_eq, ih.within, ih.warned_iff⟩
      · rw [horder, List.length_cons]
        omega
      · rw [horder, List.drop_succ_cons, hsegment]
  | case3 parts document hfits =>
      have hwithin : WithinLimits maxLines maxBytes document :=
        overBudget_eq_false_iff.1 (by simpa using hfits)
      exact ⟨AllTrimmed.refl parts, ⟨0, Nat.zero_le _, rfl⟩, rfl, Or.inl hwithin, by simp [hwithin]⟩

/-- **`_apply_budget` drops an initial segment of the rank order and nothing else, and stops within both
limits or with nothing left that may go.** -/
theorem applyBudget_truncates (env : RenderEnv) (maxLines maxBytes : Option ℕ)
    (parts : List SplicePart) :
    Truncates env maxLines maxBytes parts (applyBudget env maxLines maxBytes parts) := by
  unfold applyBudget
  split_ifs with hnone
  · obtain ⟨rfl, rfl⟩ := hnone
    have hwithin : WithinLimits none none (assembleSpliceParts env parts) :=
      overBudget_eq_false_iff.1 rfl
    exact ⟨AllTrimmed.refl parts, ⟨0, Nat.zero_le _, rfl⟩, rfl, Or.inl hwithin, by simp [hwithin]⟩
  · exact budgetLoop_truncates parts

/-- A particle that a pin names stays in its section, whatever the limits. -/
theorem pin_stays {parts : List SplicePart} {i : ℕ} {allow : List String}
    {particles : List (Particle × ℚ)} {header : String} {backrefs : String → Option String}
    {badges : String → Option (List String)} (hpart : parts[i]? =
      some (.bullets (bulletSectionPart env allow particles header backrefs badges)))
    {p : Particle} {eff : ℚ} (hp : (p, eff) ∈ particles) {pin : String} (hpin : pin ∈ allow)
    (hnamed : (stripPinPrefix env pin).toList <+: p.id.toList) :
    ∃ part, (applyBudget env maxLines maxBytes parts).parts[i]? = some (.bullets part) ∧
      ∃ entry ∈ part.entries, entry.particle = p := by
  obtain ⟨hlength, hat⟩ := List.forall₂_iff_get.1
    (applyBudget_truncates env maxLines maxBytes parts).trimmed
  obtain ⟨hi, hget⟩ := List.getElem?_eq_some_iff.1 hpart
  have hi' : i < (applyBudget env maxLines maxBytes parts).parts.length := by omega
  have htrimmed := hat i hi' hi
  rw [List.get_eq_getElem, List.get_eq_getElem, hget] at htrimmed
  have hentry : (⟨p, eff, backrefs p.id, (badges p.id).getD []⟩ : BulletEntry) ∈
      (bulletSectionPart env allow particles header backrefs badges).entries :=
    List.mem_map.2 ⟨(p, eff), hp, rfl⟩
  have hpinned : p.id ∈ (bulletSectionPart env allow particles header backrefs badges).pinned := by
    refine List.mem_map.2 ⟨(p, eff), List.mem_filter.2 ⟨hp, ?_⟩, rfl⟩
    rw [List.any_eq_true]
    exact ⟨stripPinPrefix env pin, List.mem_map_of_mem hpin, decide_eq_true (Or.inr hnamed)⟩
  obtain ⟨kept, hkept, hmem⟩ := htrimmed.mem_of_pinned hentry hpinned
  exact ⟨kept, by rw [List.getElem?_eq_getElem hi', hkept], _, hmem, rfl⟩

end Spec

end ProjectionBudget

end ParticlesEngine
