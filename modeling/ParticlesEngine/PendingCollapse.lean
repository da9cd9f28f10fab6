/-
**Collapsed generations lead forward.**

A collapse marks the snapshots of a MUTABLE entry that still owe an extraction and that a newer one
replaces.  The marks of one entry are made at different times, each against the newest generation of
its time: an operator's claim takes a mark away, and a later collapse marks what an earlier one
followed.  Whatever the order, a mark names a later generation of the same entry, so that following
the marks comes to a generation that is not collapsed.

Main definitions:

* `ExtractionRow.position` — the order of the generations of an entry;
* `IsSuperseder` — the newest generation that may supersede;
* `DepositAction`, `depositStep` — the interleavings of the writers with deposits;
* `MarksForward` — every mark, made or planned, names a later generation of its entry.

Main results:

* `mem_planCollapse` — **what a collapse marks**;
* `planCollapse_again`, `plannedCollapses_again` — **a collapse leaves nothing to collapse**;
* `MarksForward.step`, `exists_end` — every writer keeps the marks forward, and a forward chain ends;
* `collapse_leads_forward` — the three together, over every run.
-/

import Mathlib.Data.Finset.Max
import ParticlesEngine.ExtractionClaims

set_option relaxedAutoImplicit false
set_option autoImplicit false

open FirstByKey Runs SortBy

namespace ParticlesEngine

/-! ### What a plan marks -/

namespace ExtractionRow

/-- The order of the generations of an entry: by capture, then by id. -/
def position (row : ExtractionRow) : Instant ×ₗ String := toLex (row.capturedAt, row.snapshotId)

/-- Work is owed and the row is not collapsed. -/
def isCollapsible (row : ExtractionRow) : Bool :=
  row.owesWork && row.supersededBySnapshotId = none

/-- The row may supersede older ones: it is absent, or its blob is there. -/
def canSupersede (presentBlobs : List String) (row : ExtractionRow) : Bool :=
  isEligibleSuperseder row && (row.warcRecordType = .ABSENT || row.contentHash ∈ presentBlobs)

end ExtractionRow

/-- The generations of an entry, oldest first. -/
def OldestFirst (generations : List ExtractionRow) : Prop :=
  generations.Pairwise fun row row' => row.position < row'.position

/-- The newest generation that may supersede. -/
structure IsSuperseder (generations : List ExtractionRow) (presentBlobs : List String)
    (superseder : ExtractionRow) : Prop where
  mem : superseder ∈ generations
  canSupersede : superseder.canSupersede presentBlobs = true
  newest : ∀ row ∈ generations, row.canSupersede presentBlobs = true →
    row.position ≤ superseder.position

section Plan

variable {generations : List ExtractionRow} {presentBlobs : List String}

theorem OldestFirst.eq_of_position (h : OldestFirst generations) {row row' : ExtractionRow}
    (hrow : row ∈ generations) (hrow' : row' ∈ generations)
    (hposition : row.position = row'.position) : row = row' := by
  have hnodup : (generations.map ExtractionRow.position).Nodup :=
    List.pairwise_map.2 (h.imp fun hlt => ne_of_lt hlt)
  exact List.inj_on_of_nodup_map hnodup hrow hrow' hposition

/-- What stands before a generation in the list is what is older. -/
theorem OldestFirst.mem_take (h : OldestFirst generations) {superseder row : ExtractionRow}
    (hmem : superseder ∈ generations) :
    row ∈ generations.take (generations.idxOf superseder) ↔
      row ∈ generations ∧ row.position < superseder.position := by
  obtain ⟨older, newer, rfl, hnot⟩ := List.eq_append_cons_of_mem hmem
  have hidx : (older ++ superseder :: newer).idxOf superseder = older.length := by
    rw [List.idxOf_append, if_neg hnot, List.idxOf_cons_self, Nat.zero_add]
  rw [hidx, List.take_left]
  obtain ⟨-, hnewer, hacross⟩ := List.pairwise_append.1 h
  constructor
  · intro hrow
    exact ⟨List.mem_append_left _ hrow, hacross row hrow superseder List.mem_cons_self⟩
  · rintro ⟨hrow, hlt⟩
    rcases List.mem_append.1 hrow with hrow | hrow
    · exact hrow
    · rcases List.mem_cons.1 hrow with rfl | hrow
      · exact absurd hlt (lt_irrefl _)
      · exact absurd hlt (not_lt_of_gt ((List.pairwise_cons.1 hnewer).1 row hrow))

/-- The search from the newest end finds a superseder. -/
theorem OldestFirst.isSuperseder_of_find? (h : OldestFirst generations) {superseder : ExtractionRow}
    (hfind : generations.reverse.find? (·.canSupersede presentBlobs) = some superseder) :
    IsSuperseder generations presentBlobs superseder := by
  obtain ⟨hcan, newer, older, hlist, hnone⟩ := List.find?_eq_some_iff_append.1 hfind
  have hlist' : generations = older.reverse ++ superseder :: newer.reverse := by
    rw [← List.reverse_reverse generations, hlist]
    simp
  refine ⟨hlist' ▸ by simp, hcan, fun row hrow hrowcan => ?_⟩
  rw [hlist'] at h hrow
  rcases List.mem_append.1 hrow with hrow | hrow
  · exact le_of_lt ((List.pairwise_append.1 h).2.2 row hrow superseder List.mem_cons_self)
  · rcases List.mem_cons.1 hrow with rfl | hrow
    · exact le_rfl
    · -- nothing newer may supersede
      have hno := hnone row (List.mem_reverse.1 hrow)
      simp [hrowcan] at hno

/-- An entry has one superseder. -/
theorem OldestFirst.isSuperseder_unique (h : OldestFirst generations) {a b : ExtractionRow}
    (ha : IsSuperseder generations presentBlobs a) (hb : IsSuperseder generations presentBlobs b) :
    a = b :=
  h.eq_of_position ha.mem hb.mem
    (le_antisymm (hb.newest a ha.mem ha.canSupersede) (ha.newest b hb.mem hb.canSupersede))

theorem OldestFirst.find?_eq_some (h : OldestFirst generations) {superseder : ExtractionRow} :
    generations.reverse.find? (·.canSupersede presentBlobs) = some superseder ↔
      IsSuperseder generations presentBlobs superseder := by
  refine ⟨h.isSuperseder_of_find?, fun hsup => ?_⟩
  obtain ⟨found, hfind⟩ : ∃ found,
      generations.reverse.find? (·.canSupersede presentBlobs) = some found :=
    Option.isSome_iff_exists.1 (List.find?_isSome.2
      ⟨superseder, List.mem_reverse.2 hsup.mem, hsup.canSupersede⟩)
  rw [hfind, h.isSuperseder_unique (h.isSuperseder_of_find? hfind) hsup]

/-- **What a collapse marks**: the uncollapsed PENDING and FAILED rows older than the superseder. -/
theorem mem_planCollapse (h : OldestFirst generations) {mark : String × String} :
    mark ∈ planCollapse generations presentBlobs ↔
      ∃ superseder row, IsSuperseder generations presentBlobs superseder ∧ row ∈ generations ∧
        row.isCollapsible = true ∧ row.position < superseder.position ∧
        mark = (row.snapshotId, superseder.snapshotId) := by
  unfold planCollapse
  simp only
  split
  · rename_i hfind
    change generations.reverse.find? (·.canSupersede presentBlobs) = none at hfind
    refine iff_of_false List.not_mem_nil ?_
    rintro ⟨superseder, row, hsup, -⟩
    rw [h.find?_eq_some.2 hsup] at hfind
    cases hfind
  · rename_i superseder hfind
    change generations.reverse.find? (·.canSupersede presentBlobs) = some superseder at hfind
    change mark ∈ ((generations.take (generations.idxOf superseder)).filter (·.isCollapsible)).map
      (fun row => (row.snapshotId, superseder.snapshotId)) ↔ _
    have hsup := h.find?_eq_some.1 hfind
    simp only [List.mem_map, List.mem_filter, h.mem_take hsup.mem]
    constructor
    · rintro ⟨row, ⟨⟨hrow, hlt⟩, hcollapsible⟩, rfl⟩
      exact ⟨superseder, row, hsup, hrow, hcollapsible, hlt, rfl⟩
    · rintro ⟨superseder', row, hsup', hrow, hcollapsible, hlt, rfl⟩
      have hfind' := h.find?_eq_some.2 hsup'
      obtain rfl := Option.some.inj (hfind.symm.trans hfind')
      exact ⟨row, ⟨⟨hrow, hlt⟩, hcollapsible⟩, rfl⟩

end Plan

/-! ### A second collapse -/

/-- What the marks of a pass make of a row. -/
def applyMarks (marks : List (String × String)) (row : ExtractionRow) : ExtractionRow :=
  marks.foldl (fun row mark =>
    if row.snapshotId = mark.1 then row.markSuperseded mark.2 else row) row

/-- The marks of a pass, written one after the other. -/
def ExtractionTable.collapse (t : ExtractionTable) (marks : List (String × String)) :
    ExtractionTable :=
  marks.foldl (fun t mark => t.markSnapshotSuperseded mark.1 mark.2) t

section Marks

variable {marks : List (String × String)} {row : ExtractionRow}

theorem markSuperseded_of_not_collapsible (hno : row.isCollapsible = false) (by' : String) :
    row.markSuperseded by' = row := by
  unfold ExtractionRow.markSuperseded
  exact if_neg (by simpa [ExtractionRow.isCollapsible] using hno)

theorem markSuperseded_of_collapsible (hrow : row.isCollapsible = true) (by' : String) :
    row.markSuperseded by' = { row with
      extractionStatus := .COMPLETE
      extractionStartedAt := none
      supersededBySnapshotId := some by' } := by
  unfold ExtractionRow.markSuperseded
  exact if_pos (by simpa [ExtractionRow.isCollapsible] using hrow)

/-- A row that may not be collapsed is left. -/
theorem applyMarks_of_not_collapsible (hno : row.isCollapsible = false) :
    applyMarks marks row = row := by
  induction marks with
  | nil => rfl
  | cons mark marks ih =>
      rw [applyMarks, List.foldl_cons, markSuperseded_of_not_collapsible hno, ite_self]
      exact ih

/-- **A pass leaves a row, or makes of one that may be collapsed what its first mark says.** -/
theorem applyMarks_cases (marks : List (String × String)) (row : ExtractionRow) :
    (applyMarks marks row = row ∧
      (row.isCollapsible = true → ∀ by', (row.snapshotId, by') ∉ marks)) ∨
    (row.isCollapsible = true ∧ ∃ by', (row.snapshotId, by') ∈ marks ∧
      applyMarks marks row = row.markSuperseded by') := by
  induction marks with
  | nil => exact Or.inl ⟨rfl, fun _ _ => List.not_mem_nil⟩
  | cons mark marks ih =>
      have hcons : applyMarks (mark :: marks) row =
          applyMarks marks (if row.snapshotId = mark.1 then row.markSuperseded mark.2 else row) := rfl
      rw [hcons]
      by_cases hid : row.snapshotId = mark.1
      · rw [if_pos hid]
        by_cases hrow : row.isCollapsible = true
        · -- a row that was marked is left from there on
          refine Or.inr ⟨hrow, mark.2, by rw [hid]; exact List.mem_cons_self, ?_⟩
          refine applyMarks_of_not_collapsible ?_
          rw [markSuperseded_of_collapsible hrow]
          rfl
        · rw [markSuperseded_of_not_collapsible (by simpa using hrow)]
          rcases ih with ⟨hsame, -⟩ | ⟨hcollapsible, -⟩
          · exact Or.inl ⟨hsame, fun h => absurd h hrow⟩
          · exact absurd hcollapsible hrow
      · rw [if_neg hid]
        rcases ih with ⟨hsame, hnone⟩ | ⟨hcollapsible, by', hmem, heq⟩
        · refine Or.inl ⟨hsame, fun hrow by' hin => ?_⟩
          rcases List.mem_cons.1 hin with heq | hin
          · exact hid (congrArg Prod.fst heq)
          · exact hnone hrow by' hin
        · exact Or.inr ⟨hcollapsible, by', List.mem_cons_of_mem _ hmem, heq⟩

/-- The columns that order and group the generations are kept. -/
theorem applyMarks_kept (marks : List (String × String)) (row : ExtractionRow) :
    (applyMarks marks row).snapshotId = row.snapshotId ∧
      (applyMarks marks row).entryId = row.entryId ∧
      (applyMarks marks row).capturedAt = row.capturedAt ∧
      (applyMarks marks row).warcRecordType = row.warcRecordType ∧
      (applyMarks marks row).contentHash = row.contentHash := by
  rcases applyMarks_cases marks row with ⟨hsame, -⟩ | ⟨hrow, by', -, heq⟩
  · simp [hsame]
  · simp [heq, markSuperseded_of_collapsible hrow]

theorem rows_collapse (t : ExtractionTable) (marks : List (String × String)) :
    (t.collapse marks).rows = t.rows.map (applyMarks marks) := by
  induction marks generalizing t with
  | nil => exact (List.map_id _).symm
  | cons mark marks ih =>
      have hcons : t.collapse (mark :: marks) =
          (t.markSnapshotSuperseded mark.1 mark.2).collapse marks := rfl
      have hfirst : (t.markSnapshotSuperseded mark.1 mark.2).rows = t.rows.map fun row =>
          if row.snapshotId = mark.1 then row.markSuperseded mark.2 else row := rfl
      rw [hcons, ih, hfirst, List.map_map]
      rfl

/-- A row that a pass leaves uncollapsed is as it was. -/
theorem applyMarks_of_uncollapsed (hrow : (applyMarks marks row).supersededBySnapshotId = none) :
    applyMarks marks row = row := by
  rcases applyMarks_cases marks row with ⟨hsame, -⟩ | ⟨hcollapsible, by', -, heq⟩
  · exact hsame
  · rw [heq, markSuperseded_of_collapsible hcollapsible] at hrow
    cases hrow

theorem OldestFirst.map_applyMarks {generations : List ExtractionRow} (h : OldestFirst generations) :
    OldestFirst (generations.map (applyMarks marks)) := by
  refine List.pairwise_map.2 (h.imp fun {row row'} hlt => ?_)
  obtain ⟨hid, -, hcaptured, -⟩ := applyMarks_kept marks row
  obtain ⟨hid', -, hcaptured', -⟩ := applyMarks_kept marks row'
  unfold ExtractionRow.position at hlt ⊢
  rwa [hid, hid', hcaptured, hcaptured']

/-- **A second plan is empty**, when the marks that were written on the entry are those of the first
plan. -/
theorem planCollapse_again {generations : List ExtractionRow} {presentBlobs : List String}
    (h : OldestFirst generations)
    (hmarks : ∀ row ∈ generations, ∀ by', (row.snapshotId, by') ∈ marks ↔
      (row.snapshotId, by') ∈ planCollapse generations presentBlobs)
    (hids : (generations.map ExtractionRow.snapshotId).Nodup) :
    planCollapse (generations.map (applyMarks marks)) presentBlobs = [] := by
  refine List.eq_nil_iff_forall_not_mem.2 fun mark hmark => ?_
  obtain ⟨superseder', row', hsup', hrow', hcollapsible, hlt, -⟩ :=
    (mem_planCollapse h.map_applyMarks).1 hmark
  obtain ⟨row, hrow, rfl⟩ := List.mem_map.1 hrow'
  obtain ⟨superseder, hsuperseder, rfl⟩ := List.mem_map.1 hsup'.mem
  -- neither row was marked, so both are as they were
  have huncollapsed : ∀ r : ExtractionRow, r.isCollapsible = true → r.supersededBySnapshotId = none := by
    intro r hr
    simpa [ExtractionRow.isCollapsible] using (Bool.and_eq_true_iff.1 hr).2
  have hcan : ∀ r : ExtractionRow, r.canSupersede presentBlobs = true →
      r.supersededBySnapshotId = none := by
    intro r hr
    have heligible := (Bool.and_eq_true_iff.1 hr).1
    simpa using (Bool.and_eq_true_iff.1 heligible).2
  have hsame := applyMarks_of_uncollapsed (huncollapsed _ hcollapsible)
  have hsame' := applyMarks_of_uncollapsed (hcan _ hsup'.canSupersede)
  rw [hsame] at hcollapsible hlt
  rw [hsame'] at hlt hsup'
  -- so the superseder was the newest already, and the row would have been marked
  have hsup : IsSuperseder generations presentBlobs superseder := by
    refine ⟨hsuperseder, hsup'.canSupersede, fun r hr hrcan => ?_⟩
    rcases applyMarks_cases marks r with ⟨hleft, -⟩ | ⟨-, by', hin, -⟩
    · exact hsup'.newest r (List.mem_map.2 ⟨r, hr, hleft⟩) hrcan
    · obtain ⟨newest, marked, hnewest, hmarked, -, hbefore, hpair⟩ :=
        (mem_planCollapse h).1 ((hmarks r hr by').1 hin)
      obtain rfl : r = marked := List.inj_on_of_nodup_map hids hr hmarked (Prod.mk.inj hpair).1
      have hleft : applyMarks marks newest = newest := by
        rcases applyMarks_cases marks newest with ⟨hleft, -⟩ | ⟨-, by'', hin', -⟩
        · exact hleft
        · obtain ⟨newest', marked', hnewest', hmarked', -, hbefore', hpair'⟩ :=
            (mem_planCollapse h).1 ((hmarks newest hnewest.mem by'').1 hin')
          obtain rfl : newest = marked' :=
            List.inj_on_of_nodup_map hids hnewest.mem hmarked' (Prod.mk.inj hpair').1
          rw [h.isSuperseder_unique hnewest' hnewest] at hbefore'
          exact absurd hbefore' (lt_irrefl _)
      exact le_of_lt (lt_of_lt_of_le hbefore
        (hsup'.newest newest (List.mem_map.2 ⟨newest, hnewest.mem, hleft⟩) hnewest.canSupersede))
  have hplanned := (mem_planCollapse h).2 ⟨superseder, row, hsup, hrow, hcollapsible, hlt, rfl⟩
  rcases applyMarks_cases marks row with ⟨-, hnone⟩ | ⟨-, by', -, heq⟩
  · exact hnone hcollapsible _ ((hmarks row hrow _).2 hplanned)
  · rw [hsame, markSuperseded_of_collapsible hcollapsible] at heq
    have hmarked := huncollapsed row hcollapsible
    rw [heq] at hmarked
    cases hmarked

end Marks

/-! ### A pass over the store -/

/-- The generations of one entry, oldest first. -/
def ExtractionTable.generationsOf (t : ExtractionTable) (entryId : String) : List ExtractionRow :=
  sortBy generationOrder <| t.rows.filter fun row =>
    row.warcRecordType ∈ GENERATION_TYPES && row.entryId = entryId

section Store

variable {entries : Table CorpusEntryRow.entryId} {t : ExtractionTable}
  {entryIds : Option (List String)} {blobsOnDisk : List String}

theorem mem_generationsOf {entryId : String} {row : ExtractionRow} :
    row ∈ t.generationsOf entryId ↔
      row ∈ t.rows ∧ row.warcRecordType ∈ GENERATION_TYPES ∧ row.entryId = entryId := by
  simp [ExtractionTable.generationsOf]

/-- The generations of an entry stand oldest first, each once. -/
theorem oldestFirst_generationsOf (t : ExtractionTable) (entryId : String) : OldestFirst (t.generationsOf entryId) ∧
    ((t.generationsOf entryId).map ExtractionRow.snapshotId).Nodup := by
  have hids : ((t.generationsOf entryId).map ExtractionRow.snapshotId).Nodup :=
    ((sortBy_perm _ _).map _).nodup_iff.2 (t.nodup.sublist (List.filter_sublist.map _))
  refine ⟨?_, hids⟩
  have hsorted := pairwise_sortBy generationOrder (t.rows.filter fun row =>
    row.warcRecordType ∈ GENERATION_TYPES && row.entryId = entryId)
  have hboth := (List.pairwise_map.1 hids).and (hsorted.and
    (List.pairwise_of_forall_mem_list (r := fun a b : ExtractionRow => a.entryId = b.entryId)
      fun a ha b hb => (mem_generationsOf.1 ha).2.2.trans (mem_generationsOf.1 hb).2.2.symm))
  refine hboth.imp fun {a b} ⟨hne, hle, hentry⟩ => ?_
  have hpos : a.position ≤ b.position := by
    simpa [generationOrder, hentry, Prod.Lex.le_iff, ExtractionRow.position] using hle
  refine lt_of_le_of_ne hpos fun heq => hne ?_
  exact (Prod.mk.inj heq).2

/-- The generations that a pass reads of one entry are all of them, or none. -/
theorem filter_listGenerations (entries : Table CorpusEntryRow.entryId) (t : ExtractionTable)
    (entryIds : Option (List String)) (entryId : String) :
    (listGenerations entries t entryIds).filter (·.entryId = entryId) =
      if (entries.get? entryId).any (·.mutability = .MUTABLE) = true ∧
          (∃ row ∈ t.generationsOf entryId, row.isCollapsible = true) ∧
          entryIds.all (entryId ∈ ·) = true
      then t.generationsOf entryId else [] := by
  unfold listGenerations ExtractionTable.generationsOf
  simp only
  rw [← sortBy_filter, List.filter_filter]
  have howing : entryId ∈ (t.rows.filter fun row =>
      row.warcRecordType ∈ GENERATION_TYPES && row.owesWork &&
        row.supersededBySnapshotId = none).map ExtractionRow.entryId ↔
      ∃ row ∈ t.generationsOf entryId, row.isCollapsible = true := by
    simp only [List.mem_map, List.mem_filter, mem_generationsOf, ExtractionRow.isCollapsible,
      Bool.and_eq_true, decide_eq_true_eq]
    constructor
    · rintro ⟨row, ⟨hrow, ⟨htype, howes⟩, hmark⟩, hentry⟩
      exact ⟨row, ⟨hrow, htype, hentry⟩, howes, hmark⟩
    · rintro ⟨row, ⟨hrow, htype, hentry⟩, howes, hmark⟩
      exact ⟨row, ⟨hrow, ⟨htype, howes⟩, hmark⟩, hentry⟩
  split_ifs with hread
  · congr 1
    refine List.filter_congr fun row _ => ?_
    by_cases hentry : row.entryId = entryId
    · have howing' := howing.2 hread.2.1
      simp only [hentry, hread.1, hread.2.2, howing', decide_true, Bool.and_true, Bool.true_and]
    · simp [hentry]
  · have hnone : ∀ row ∈ t.rows, ¬ ((decide (row.entryId = entryId) &&
        ((entries.get? row.entryId).any (·.mutability = .MUTABLE) &&
          row.warcRecordType ∈ GENERATION_TYPES && decide (row.entryId ∈ (t.rows.filter fun row =>
            row.warcRecordType ∈ GENERATION_TYPES && row.owesWork &&
              row.supersededBySnapshotId = none).map ExtractionRow.entryId) &&
          entryIds.all (row.entryId ∈ ·))) = true) := by
      intro row _ hall
      simp only [Bool.and_eq_true, decide_eq_true_eq] at hall
      obtain ⟨rfl, ⟨⟨hmutable, -⟩, howes⟩, hscope⟩ := hall
      exact hread ⟨hmutable, howing.1 howes, hscope⟩
    rw [List.filter_eq_nil_iff.2 hnone]
    rfl

/-- The blobs that a pass looks up are those that its rows need. -/
theorem planCollapse_presentBlobs {generations read : List ExtractionRow}
    (h : OldestFirst generations) (hread : ∀ row ∈ generations, row ∈ read) (mark : String × String) :
    mark ∈ planCollapse generations ((read.filter fun row => isEligibleSuperseder row &&
        row.warcRecordType ≠ .ABSENT && row.contentHash ∈ blobsOnDisk).map
          ExtractionRow.contentHash) ↔
      mark ∈ planCollapse generations blobsOnDisk := by
  set presentBlobs := (read.filter fun row => isEligibleSuperseder row &&
    row.warcRecordType ≠ .ABSENT && row.contentHash ∈ blobsOnDisk).map
      ExtractionRow.contentHash with hpresent
  have hcan : ∀ row ∈ generations,
      row.canSupersede presentBlobs = row.canSupersede blobsOnDisk := by
    intro row hrow
    unfold ExtractionRow.canSupersede
    cases heligible : isEligibleSuperseder row with
    | false => rfl
    | true =>
        by_cases habsent : row.warcRecordType = .ABSENT
        · simp [habsent]
        · have hmem : row.contentHash ∈ presentBlobs ↔ row.contentHash ∈ blobsOnDisk := by
            rw [hpresent, List.mem_map]
            constructor
            · rintro ⟨other, hother, hhash⟩
              have hdisk := (Bool.and_eq_true_iff.1 (List.mem_filter.1 hother).2).2
              rw [← hhash]
              simpa using hdisk
            · intro hdisk
              exact ⟨row, List.mem_filter.2 ⟨hread row hrow, by simp [heligible, habsent, hdisk]⟩, rfl⟩
          simp [habsent, hmem]
  have hsup : ∀ superseder, IsSuperseder generations presentBlobs superseder ↔
      IsSuperseder generations blobsOnDisk superseder := by
    intro superseder
    constructor <;> rintro ⟨hmem, hthis, hnewest⟩
    · exact ⟨hmem, hcan _ hmem ▸ hthis, fun row hrow hrowcan => hnewest row hrow
        (by rw [hcan row hrow]; exact hrowcan)⟩
    · exact ⟨hmem, by rw [hcan _ hmem]; exact hthis, fun row hrow hrowcan => hnewest row hrow
        (by rw [← hcan row hrow]; exact hrowcan)⟩
  simp only [mem_planCollapse h, hsup]

/-- **What a pass plans** is the plan of each MUTABLE entry in its scope. -/
theorem mem_plannedCollapses {mark : String × String} :
    mark ∈ plannedCollapses entries t entryIds blobsOnDisk ↔
      ∃ entryId, (entries.get? entryId).any (·.mutability = .MUTABLE) = true ∧
        entryIds.all (entryId ∈ ·) = true ∧
        mark ∈ planCollapse (t.generationsOf entryId) blobsOnDisk := by
  have hread : ∀ entryId row, row ∈ (listGenerations entries t entryIds).filter
      (·.entryId = entryId) → row ∈ listGenerations entries t entryIds :=
    fun entryId row hrow => (List.mem_filter.1 hrow).1
  unfold plannedCollapses
  simp only [List.mem_flatMap, mem_firstByKey_id]
  constructor
  · rintro ⟨entryId, -, hmark⟩
    have hfilter := filter_listGenerations entries t entryIds entryId
    split_ifs at hfilter with hscope
    · rw [planCollapse_presentBlobs (hfilter ▸ (oldestFirst_generationsOf t entryId).1)
        (hread entryId), hfilter] at hmark
      exact ⟨entryId, hscope.1, hscope.2.2, hmark⟩
    · rw [hfilter] at hmark
      cases hmark
  · rintro ⟨entryId, hmutable, hscope, hmark⟩
    obtain ⟨superseder, row, -, hrow, hcollapsible, -⟩ :=
      (mem_planCollapse (oldestFirst_generationsOf t entryId).1).1 hmark
    have hfilter := filter_listGenerations entries t entryIds entryId
    rw [if_pos ⟨hmutable, ⟨row, hrow, hcollapsible⟩, hscope⟩] at hfilter
    refine ⟨entryId, List.mem_map.2 ⟨row, hread entryId row (hfilter ▸ hrow),
      (mem_generationsOf.1 hrow).2.2⟩, ?_⟩
    rw [planCollapse_presentBlobs (hfilter ▸ (oldestFirst_generationsOf t entryId).1)
      (hread entryId), hfilter]
    exact hmark

theorem generationsOf_collapse (marks : List (String × String)) (entryId : String) :
    (t.collapse marks).generationsOf entryId =
      (t.generationsOf entryId).map (applyMarks marks) := by
  have hmap : ∀ rows : List ExtractionRow, (sortBy generationOrder rows).map (applyMarks marks) =
      sortBy generationOrder (rows.map (applyMarks marks)) := by
    refine fun rows => map_sortBy (applyMarks marks) fun row _ => ?_
    obtain ⟨hid, hentry, hcaptured, -⟩ := applyMarks_kept marks row
    simp [generationOrder, hid, hentry, hcaptured]
  unfold ExtractionTable.generationsOf
  rw [rows_collapse, hmap, List.filter_map]
  congr 2
  refine List.filter_congr fun row _ => ?_
  obtain ⟨-, hentry, -, htype, -⟩ := applyMarks_kept marks row
  simp [hentry, htype]

/-- **A second pass finds nothing to collapse.** -/
theorem plannedCollapses_again :
    plannedCollapses entries (t.collapse (plannedCollapses entries t entryIds blobsOnDisk))
      entryIds blobsOnDisk = [] := by
  refine List.eq_nil_iff_forall_not_mem.2 fun mark hmark => ?_
  obtain ⟨entryId, hmutable, hscope, hmark⟩ := mem_plannedCollapses.1 hmark
  obtain ⟨hsorted, hids⟩ := oldestFirst_generationsOf t entryId
  rw [generationsOf_collapse, planCollapse_again hsorted ?_ hids] at hmark
  · cases hmark
  · intro row hrow by'
    rw [mem_plannedCollapses]
    constructor
    · rintro ⟨entryId', -, -, hplan⟩
      obtain ⟨superseder, marked, -, hmarked, -, -, hpair⟩ :=
        (mem_planCollapse (oldestFirst_generationsOf t entryId').1).1 hplan
      -- a snapshot is of one entry
      obtain rfl : row = marked := Table.eq_of_key_eq (mem_generationsOf.1 hrow).1
        (mem_generationsOf.1 hmarked).1 (Prod.mk.inj hpair).1
      rwa [← (mem_generationsOf.1 hmarked).2.2, (mem_generationsOf.1 hrow).2.2] at hplan
    · exact fun hplan => ⟨entryId, hmutable, hscope, hplan⟩

end Store

/-! ### Runs -/

/-- A deposit, or a step of the claims and collapses. -/
inductive DepositAction where
  | deposit (row : ExtractionRow)
  | writer (action : ClaimAction)

/-- **One step.**  A deposit adds a row that is not collapsed, under a new id. -/
def depositStep (st : ClaimState) : DepositAction → Option ClaimState
  | .deposit row =>
      if row.supersededBySnapshotId = none then
        (st.rows.insert? row).map fun rows => { st with rows := rows }
      else none
  | .writer action => claimStep st action

/-- The one snapshot is an earlier generation of the entry of the other. -/
def Forward (t : ExtractionTable) (snapshotId later : String) : Prop :=
  ∃ row ∈ t.rows, ∃ next ∈ t.rows, row.snapshotId = snapshotId ∧ next.snapshotId = later ∧
    next.entryId = row.entryId ∧ row.position < next.position

/-- **Every mark leads forward**, those that are planned too. -/
structure MarksForward (st : ClaimState) : Prop where
  marked : ∀ row ∈ st.rows.rows, ∀ later, row.supersededBySnapshotId = some later →
    Forward st.rows row.snapshotId later
  planned : ∀ marks ∈ st.planned, ∀ mark ∈ marks, Forward st.rows mark.1 mark.2

/-- A write that keeps the columns which order the generations, and makes no mark but the given
ones. -/
def Rewrites (marks : List (String × String)) (t t' : ExtractionTable) : Prop :=
  ∃ f : ExtractionRow → ExtractionRow, t'.rows = t.rows.map f ∧ ∀ row,
    (f row).snapshotId = row.snapshotId ∧ (f row).entryId = row.entryId ∧
    (f row).capturedAt = row.capturedAt ∧
    ∀ later, (f row).supersededBySnapshotId = some later →
      row.supersededBySnapshotId = some later ∨ (row.snapshotId, later) ∈ marks

section Forward

variable {st st' : ClaimState} {t t' : ExtractionTable} {marks : List (String × String)}

theorem Forward.rewrites {a b : String} (h : Forward t a b) (hrw : Rewrites marks t t') :
    Forward t' a b := by
  obtain ⟨row, hrow, next, hnext, rfl, rfl, hentry, hlt⟩ := h
  obtain ⟨f, hrows, hkept⟩ := hrw
  obtain ⟨hid, hsame, hcaptured, -⟩ := hkept row
  obtain ⟨hid', hsame', hcaptured', -⟩ := hkept next
  refine ⟨f row, hrows ▸ List.mem_map.2 ⟨row, hrow, rfl⟩, f next,
    hrows ▸ List.mem_map.2 ⟨next, hnext, rfl⟩, hid, hid', by rw [hsame, hsame', hentry], ?_⟩
  unfold ExtractionRow.position at hlt ⊢
  rwa [hid, hid', hcaptured, hcaptured']

theorem Forward.mono {a b : String} (h : Forward t a b) (hsub : ∀ row ∈ t.rows, row ∈ t'.rows) :
    Forward t' a b := by
  obtain ⟨row, hrow, next, hnext, hrest⟩ := h
  exact ⟨row, hsub row hrow, next, hsub next hnext, hrest⟩

/-- A write whose marks lead forward keeps every mark forward. -/
theorem MarksForward.rewrites (h : MarksForward st) (hrw : Rewrites marks st.rows t')
    (hmarks : ∀ mark ∈ marks, Forward st.rows mark.1 mark.2) :
    (∀ row ∈ t'.rows, ∀ later, row.supersededBySnapshotId = some later →
      Forward t' row.snapshotId later) ∧
    ∀ marks ∈ st.planned, ∀ mark ∈ marks, Forward t' mark.1 mark.2 := by
  have hcarry := hrw
  obtain ⟨f, hrows, hkept⟩ := hrw
  refine ⟨fun row' hrow' later hlater => ?_, fun marks hin mark hmark =>
    (h.planned marks hin mark hmark).rewrites hcarry⟩
  rw [hrows] at hrow'
  obtain ⟨row, hrow, rfl⟩ := List.mem_map.1 hrow'
  obtain ⟨hid, -, -, hmark⟩ := hkept row
  rw [hid]
  rcases hmark later hlater with hold | hnew
  · exact (h.marked row hrow later hold).rewrites hcarry
  · exact (hmarks (row.snapshotId, later) hnew).rewrites hcarry

/-- The update of one row, which makes no mark. -/
theorem rewrites_modify (snapshotId : String) (f : ExtractionRow → ExtractionRow)
    (hid : ∀ row, (f row).snapshotId = row.snapshotId) (hentry : ∀ row, (f row).entryId = row.entryId)
    (hcaptured : ∀ row, (f row).capturedAt = row.capturedAt)
    (hmark : ∀ row later, (f row).supersededBySnapshotId = some later →
      row.supersededBySnapshotId = some later) :
    Rewrites [] t (t.modify snapshotId f hid) := by
  refine ⟨fun row => if row.snapshotId = snapshotId then f row else row, rfl, fun row => ?_⟩
  dsimp only
  split_ifs
  · exact ⟨hid row, hentry row, hcaptured row, fun later h => Or.inl (hmark row later h)⟩
  · exact ⟨rfl, rfl, rfl, fun later h => Or.inl h⟩

theorem rewrites_collapse (marks : List (String × String)) (t : ExtractionTable) :
    Rewrites marks t (t.collapse marks) := by
  refine ⟨applyMarks marks, rows_collapse t marks, fun row => ?_⟩
  obtain ⟨hid, hentry, hcaptured, -⟩ := applyMarks_kept marks row
  refine ⟨hid, hentry, hcaptured, fun later hlater => ?_⟩
  rcases applyMarks_cases marks row with ⟨hsame, -⟩ | ⟨hrow, by', hin, heq⟩
  · exact Or.inl (hsame ▸ hlater)
  · rw [heq, markSuperseded_of_collapsible hrow] at hlater
    obtain rfl := Option.some.inj hlater
    exact Or.inr hin

theorem forward_of_planned {entries : Table CorpusEntryRow.entryId}
    {entryIds : Option (List String)} {blobsOnDisk : List String} {mark : String × String}
    (h : mark ∈ plannedCollapses entries t entryIds blobsOnDisk) : Forward t mark.1 mark.2 := by
  obtain ⟨entryId, -, -, hplan⟩ := mem_plannedCollapses.1 h
  obtain ⟨superseder, row, hsup, hrow, -, hlt, rfl⟩ :=
    (mem_planCollapse (oldestFirst_generationsOf t entryId).1).1 hplan
  obtain ⟨hmem, -, hentry⟩ := mem_generationsOf.1 hrow
  obtain ⟨hmem', -, hentry'⟩ := mem_generationsOf.1 hsup.mem
  exact ⟨row, hmem, superseder, hmem', rfl, rfl, hentry'.trans hentry.symm, hlt⟩

/-- **Every writer keeps the marks forward.** -/
theorem MarksForward.step {action : DepositAction} (h : MarksForward st)
    (hstep : depositStep st action = some st') : MarksForward st' := by
  -- a writer that makes no mark
  have hplain : ∀ {t' : ExtractionTable}, Rewrites [] st.rows t' →
      (∀ row ∈ t'.rows, ∀ later, row.supersededBySnapshotId = some later →
        Forward t' row.snapshotId later) ∧
      ∀ marks ∈ st.planned, ∀ mark ∈ marks, Forward t' mark.1 mark.2 :=
    fun hrw => h.rewrites hrw fun mark hmark => absurd hmark List.not_mem_nil
  cases action with
  | deposit row =>
      simp only [depositStep, Option.ite_none_right_eq_some, Option.map_eq_some_iff] at hstep
      obtain ⟨hunmarked, rows, hinsert, rfl⟩ := hstep
      obtain ⟨-, hrows⟩ := Table.insert?_eq_some.1 hinsert
      have hsub : ∀ r ∈ st.rows.rows, r ∈ rows.rows := by
        intro r hr
        rw [hrows]
        exact List.mem_append_left _ hr
      refine ⟨fun r hr later hlater => ?_, fun marks hin mark hmark =>
        (h.planned marks hin mark hmark).mono hsub⟩
      change r ∈ rows.rows at hr
      rw [hrows] at hr
      rcases List.mem_append.1 hr with hr | hr
      · exact (h.marked r hr later hlater).mono hsub
      · obtain rfl := List.mem_singleton.1 hr
        rw [hunmarked] at hlater
        cases hlater
  | writer action =>
      cases action with
      | claim runner snapshotId startedAt =>
          simp only [depositStep, claimStep, Option.ite_none_right_eq_some, Option.some.injEq] at hstep
          obtain ⟨-, rfl⟩ := hstep
          obtain ⟨hmarked, hplanned⟩ := hplain (rewrites_modify snapshotId
            (ExtractionRow.claim startedAt) (fun _ => rfl) (fun _ => rfl) (fun _ => rfl)
            fun row later hlater => by cases hlater)
          exact ⟨hmarked, hplanned⟩
      | release runner =>
          obtain ⟨snapshotId, -, rfl⟩ := Option.map_eq_some_iff.1 hstep
          obtain ⟨hmarked, hplanned⟩ := hplain (rewrites_modify snapshotId
            ExtractionRow.release ExtractionRow.release_snapshotId ExtractionRow.release_entryId
            (fun row => by unfold ExtractionRow.release; split_ifs <;> rfl)
            fun row later hlater => by
              unfold ExtractionRow.release at hlater
              split_ifs at hlater <;> exact hlater)
          exact ⟨hmarked, hplanned⟩
      | finish runner outcome =>
          obtain ⟨snapshotId, -, hstep⟩ := Option.bind_eq_some_iff.1 hstep
          simp only [Option.ite_none_right_eq_some, Option.some.injEq] at hstep
          obtain ⟨-, rfl⟩ := hstep
          obtain ⟨extractedThrough, components, resumeWhole, hupdate⟩ :=
            outcome.update_eq snapshotId st.rows
          obtain ⟨hmarked, hplanned⟩ := hplain (rewrites_modify snapshotId
            (ExtractionRow.updateStatus outcome.status extractedThrough components resumeWhole)
            (fun _ => rfl) (fun _ => rfl) (fun _ => rfl) fun row later hlater => hlater)
          rw [← ExtractionTable.updateExtractionStatus, ← hupdate] at hmarked hplanned
          exact ⟨hmarked, hplanned⟩
      | readStale olderThan =>
          obtain rfl := Option.some.inj hstep
          exact ⟨h.marked, h.planned⟩
      | resetStale pass =>
          obtain ⟨staleIds, -, rfl⟩ := Option.map_eq_some_iff.1 hstep
          have hrw : Rewrites [] st.rows (st.rows.resetInProgress staleIds) := by
            refine ⟨fun row => if row.snapshotId ∈ staleIds then row.reset else row, rfl,
              fun row => ?_⟩
            dsimp only
            split_ifs <;> exact ⟨rfl, rfl, rfl, fun later hlater => Or.inl hlater⟩
          obtain ⟨hmarked, hplanned⟩ := hplain hrw
          exact ⟨hmarked, hplanned⟩
      | planCollapse entryIds blobsOnDisk =>
          obtain rfl := Option.some.inj hstep
          refine ⟨h.marked, fun marks hmarks mark hmark => ?_⟩
          rcases List.mem_append.1 hmarks with hmarks | hmarks
          · exact h.planned marks hmarks mark hmark
          · obtain rfl := List.mem_singleton.1 hmarks
            exact forward_of_planned hmark
      | markCollapsed pass =>
          obtain ⟨marks, hpass, rfl⟩ := Option.map_eq_some_iff.1 hstep
          obtain ⟨hmarked, hplanned⟩ := h.rewrites (rewrites_collapse marks st.rows)
            (h.planned marks (List.mem_of_getElem? hpass))
          exact ⟨hmarked, fun other hother => hplanned other (List.mem_of_mem_eraseIdx hother)⟩

end Forward

/-! ### Following the marks -/

/-- The row that the mark of a row names. -/
def FollowsTo (t : ExtractionTable) (row next : ExtractionRow) : Prop :=
  next ∈ t.rows ∧ row.supersededBySnapshotId = some next.snapshotId

/-- A relation on finitely many elements that always leads to a greater one comes to an end. -/
theorem exists_end {α β : Type*} [LinearOrder β] (members : List α) (leads : α → α → Prop)
    (position : α → β)
    (hforward : ∀ a ∈ members, ∀ b, leads a b → b ∈ members ∧ position a < position b) {a : α}
    (ha : a ∈ members) :
    ∃ last ∈ members, Relation.ReflTransGen leads a last ∧ (∀ b, ¬ leads last b) ∧
      position a ≤ position last := by
  classical
  -- the greatest element that can be reached
  obtain ⟨last, hlast, hgreatest⟩ := (members.toFinset.filter
    (Relation.ReflTransGen leads a)).exists_max_image position
      ⟨a, by simpa using ⟨ha, Relation.ReflTransGen.refl⟩⟩
  obtain ⟨hmem, hreach⟩ : last ∈ members ∧ Relation.ReflTransGen leads a last := by
    simpa using hlast
  refine ⟨last, hmem, hreach, fun b hb => ?_,
    hgreatest a (by simpa using ⟨ha, Relation.ReflTransGen.refl⟩)⟩
  obtain ⟨hbmem, hlt⟩ := hforward last hmem b hb
  exact not_lt_of_ge (hgreatest b (by simpa using ⟨hbmem, hreach.tail hb⟩)) hlt

/-- **Following the marks of a collapsed snapshot** strictly advances, and ends at a generation of its
entry that is not collapsed. -/
theorem MarksForward.exists_uncollapsed {st : ClaimState} (h : MarksForward st) {row : ExtractionRow}
    (hrow : row ∈ st.rows.rows) (hmarked : row.supersededBySnapshotId ≠ none) :
    (∃ next, FollowsTo st.rows row next ∧ next.entryId = row.entryId ∧
      row.position < next.position) ∧
    ∃ last ∈ st.rows.rows, Relation.ReflTransGen (FollowsTo st.rows) row last ∧
      last.supersededBySnapshotId = none ∧ last.entryId = row.entryId ∧
      row.position < last.position := by
  have hnext : ∀ a ∈ st.rows.rows, ∀ later, a.supersededBySnapshotId = some later →
      ∃ next, FollowsTo st.rows a next ∧ next.entryId = a.entryId ∧ a.position < next.position := by
    intro a ha later hlater
    obtain ⟨found, hfound, next, hnext, hid, rfl, hentry, hlt⟩ := h.marked a ha later hlater
    obtain rfl := Table.eq_of_key_eq hfound ha hid
    exact ⟨next, ⟨hnext, hlater⟩, hentry, hlt⟩
  have hforward : ∀ a ∈ st.rows.rows, ∀ b, FollowsTo st.rows a b →
      b ∈ st.rows.rows ∧ a.position < b.position ∧ b.entryId = a.entryId := by
    rintro a ha b ⟨hb, hlater⟩
    obtain ⟨next, ⟨hnextmem, hmark⟩, hentry, hlt⟩ := hnext a ha _ hlater
    obtain rfl := Table.eq_of_key_eq hb hnextmem (Option.some.inj (hlater.symm.trans hmark))
    exact ⟨hb, hlt, hentry⟩
  obtain ⟨later, hlater⟩ := Option.ne_none_iff_exists'.1 hmarked
  obtain ⟨next, hfollows, hentry, hlt⟩ := hnext row hrow later hlater
  refine ⟨⟨next, hfollows, hentry, hlt⟩, ?_⟩
  obtain ⟨last, hlast, hreach, hend, hle⟩ := exists_end st.rows.rows (FollowsTo st.rows)
    ExtractionRow.position (fun a ha b hab => ⟨(hforward a ha b hab).1, (hforward a ha b hab).2.1⟩)
    hfollows.1
  have hsame : ∀ a, Relation.ReflTransGen (FollowsTo st.rows) next a →
      a ∈ st.rows.rows ∧ a.entryId = next.entryId := by
    intro a hreach
    induction hreach with
    | refl => exact ⟨hfollows.1, rfl⟩
    | tail _ hab ih =>
        obtain ⟨hb, -, hsame⟩ := hforward _ ih.1 _ hab
        exact ⟨hb, hsame.trans ih.2⟩
  refine ⟨last, hlast, hreach.head hfollows, ?_, (hsame last hreach).2.trans hentry,
    lt_of_lt_of_le hlt hle⟩
  by_contra hcollapsed
  obtain ⟨later', hlater'⟩ := Option.ne_none_iff_exists'.1 hcollapsed
  obtain ⟨next', hfollows', -⟩ := hnext last hlast later' hlater'
  exact hend next' hfollows'

/-- **A collapse is sound and its marks lead forward.**  Of the generations of an entry it marks the
uncollapsed PENDING and FAILED ones that are older than the newest that may supersede, and never that
one; once its marks are written there is nothing to collapse; and in every state that deposits,
claims and collapses reach, following the marks of a snapshot strictly advances to a generation that
is not collapsed. -/
theorem collapse_leads_forward {start : ClaimState} (hrows : start.rows.rows = [])
    (hplanned : start.planned = []) {actions : List DepositAction} {st : ClaimState}
    (hrun : run depositStep start actions = some st) :
    (∀ (t : ExtractionTable) (entryId : String) (presentBlobs : List String),
      (∀ mark, mark ∈ planCollapse (t.generationsOf entryId) presentBlobs ↔
        ∃ superseder row, IsSuperseder (t.generationsOf entryId) presentBlobs superseder ∧
          row ∈ t.generationsOf entryId ∧ row.isCollapsible = true ∧
          row.position < superseder.position ∧ mark = (row.snapshotId, superseder.snapshotId)) ∧
      (∀ mark ∈ planCollapse (t.generationsOf entryId) presentBlobs, mark.1 ≠ mark.2) ∧
      planCollapse ((t.generationsOf entryId).map
        (applyMarks (planCollapse (t.generationsOf entryId) presentBlobs))) presentBlobs = []) ∧
    (∀ (entries : Table CorpusEntryRow.entryId) (t : ExtractionTable)
      (entryIds : Option (List String)) (blobsOnDisk : List String),
      plannedCollapses entries (t.collapse (plannedCollapses entries t entryIds blobsOnDisk))
        entryIds blobsOnDisk = []) ∧
    ∀ row ∈ st.rows.rows, row.supersededBySnapshotId ≠ none →
      (∃ next, FollowsTo st.rows row next ∧ next.entryId = row.entryId ∧
        row.position < next.position) ∧
      ∃ last ∈ st.rows.rows, Relation.ReflTransGen (FollowsTo st.rows) row last ∧
        last.supersededBySnapshotId = none ∧ last.entryId = row.entryId ∧
        row.position < last.position := by
  refine ⟨fun t entryId presentBlobs => ?_, fun entries t entryIds blobsOnDisk =>
    plannedCollapses_again, fun row hrow hmarked => ?_⟩
  · obtain ⟨hsorted, hids⟩ := oldestFirst_generationsOf t entryId
    refine ⟨fun mark => mem_planCollapse hsorted, fun mark hmark heq => ?_,
      planCollapse_again hsorted (fun _ _ _ => Iff.rfl) hids⟩
    obtain ⟨superseder, row, hsup, hrow, -, hlt, rfl⟩ := (mem_planCollapse hsorted).1 hmark
    obtain rfl := List.inj_on_of_nodup_map hids hrow hsup.mem heq
    exact lt_irrefl _ hlt
  · have hstart : MarksForward start :=
      ⟨fun row hrow => absurd hrow (by simp [hrows]), fun marks hmarks => absurd hmarks (by
        simp [hplanned])⟩
    exact (run_invariant MarksForward (fun _ _ _ hinv hstep => hinv.step hstep) hstart
      hrun).exists_uncollapsed hrow hmarked

/-- A MUTABLE entry without snapshots. -/
def undeposited : ClaimState where
  entries := editedOnce.entries
  rows := Table.empty

/-- An edit collapses the first snapshot, which an operator claims back; a second edit collapses both. -/
def editedTwice : List DepositAction :=
  [.deposit { snapshotId := "S1", entryId := "E", capturedAt := 1, contentHash := "h1" },
    .deposit { snapshotId := "S2", entryId := "E", capturedAt := 2, contentHash := "h2" },
    .writer (.planCollapse none ["h1", "h2"]), .writer (.markCollapsed 0),
    .writer (.claim 0 "S1" 3), .writer (.finish 0 .pending),
    .deposit { snapshotId := "S3", entryId := "E", capturedAt := 4, contentHash := "h3" },
    .writer (.planCollapse none ["h1", "h2", "h3"]), .writer (.markCollapsed 0)]

theorem collapse_leads_forward_editedTwice :
    ∃ st, run depositStep undeposited editedTwice = some st ∧
      st.rows.rows.map ExtractionRow.supersededBySnapshotId = [some "S3", some "S3", none] ∧
      ∀ row ∈ st.rows.rows, row.supersededBySnapshotId ≠ none →
        ∃ last ∈ st.rows.rows, Relation.ReflTransGen (FollowsTo st.rows) row last ∧
          last.supersededBySnapshotId = none := by
  have hmarks : (run depositStep undeposited editedTwice).map
      (·.rows.rows.map ExtractionRow.supersededBySnapshotId) = some [some "S3", some "S3", none] := by
    decide +kernel
  obtain ⟨st, hrun, hst⟩ := Option.map_eq_some_iff.1 hmarks
  refine ⟨st, hrun, hst, fun row hrow hmarked => ?_⟩
  obtain ⟨-, last, hlast, hreach, hend, -⟩ :=
    (collapse_leads_forward rfl rfl hrun).2.2 row hrow hmarked
  exact ⟨last, hlast, hreach, hend⟩

end ParticlesEngine
