/-
**The base of an append-only read.**

A snapshot of an entry that only grows is read from where an earlier read of the entry stopped.  The
base is the latest earlier `COMPLETE` snapshot, at its recorded offset or the offset that its chunk
hashes derive, unless another recorded read goes further: a partial read, the snapshot's own included,
or a later `COMPLETE` one.  Whichever base is chosen, its text up to the offset is compared with the
snapshot byte for byte, so no text is passed over that was not read.

Main definitions:

* `ExtractionBaseRow`, `AppendPlan` — a snapshot as the selection reads it, and the plan;
* `planFrom` — the plan from a `COMPLETE` snapshot;
* `furtherRead` — the plan from the furthest other read;
* `planAppend` — the selection;
* `contentOf`, `readOffset`, `ReadMatches` — what a read covered, and that a content begins with it;
* `LatestComplete`, `Counted` — the reads that the selection considers.

Main results:

* `firstMatch_spec` — the loop over the candidates takes the furthest that matches;
* `planAppend_sound_furthest` — **the text passed over was read, and no read that is considered reaches
  further**;
* `planAppend_passes_over_earlier` — an earlier `COMPLETE` read that is not the latest is not considered.
-/

import Mathlib.Data.Finset.Dedup
import Mathlib.Data.String.Basic
import Mathlib.Order.OrderDual
import ParticlesEngine.Schema
import ParticlesEngine.SortBy

set_option relaxedAutoImplicit false
set_option autoImplicit false

open SortBy

namespace ParticlesEngine

namespace AppendBase

/-- Raw content. -/
abbrev Bytes := List UInt8

/-- One archived snapshot of an entry, as the base selection reads it. -/
structure ExtractionBaseRow where
  snapshotId : String
  contentHash : String
  extractionStatus : ExtractionStatus
  /-- how many bytes have been read -/
  extractedThrough : Option ℕ
  /-- the snapshot holds a partial whole read -/
  resumeWhole : Bool := false
  deriving DecidableEq, Repr

/-- The content already extracted, or why the snapshot is read whole. -/
structure AppendPlan where
  readPrefix : Option Bytes := none
  baseSnapshotId : Option String := none
  fallback : Option String := none
  /-- the offset came from chunk hashes -/
  derivedOffset : Bool := false
  deriving DecidableEq, Repr

/-- The `append_base` value that finds the base. -/
def AUTO_BASE : String := "auto"

def FALLBACK_DISABLED : String := "extraction.append_only_delta is false"
def FALLBACK_NO_BASE : String := "no earlier snapshot of the entry is COMPLETE"
def FALLBACK_OTHER_EXTRACTOR : String := "the base was extracted by another extractor"
def FALLBACK_BASE_MISSING : String := "the base's content is missing from the blob store"
def FALLBACK_RAW_PREFIX : String := "the snapshot does not start with the base's content"

/-- What the selection reads beside the content, and what it takes from the extractor's package. -/
structure AppendEnv where
  entry : CorpusEntryRow
  /-- `list_extraction_bases`: the entry's archived snapshots, oldest first -/
  rows : List ExtractionBaseRow
  /-- `get_particles_for_entry` -/
  claims : List Particle
  /-- `load_blob`: the stored bytes of a hash, unless they are missing -/
  loadBlob : String → Option Bytes
  /-- `extraction.append_only_delta` -/
  appendOnlyDelta : Bool := true
  /-- the extractor's `EXTRACTOR_ID`, when it has one -/
  extractorId : Option String
  generalExtractorId : String
  /-- `source_text_flags`: whether the source is markdown, and whether tool output is marked -/
  sourceTextFlags : String → Bool × Bool
  /-- `derive_base_offset`: how far the chunks with some hashes reach -/
  deriveBaseOffset : Bytes → Finset String → Bool → Bool → Option ℕ

section Plan

variable (env : AppendEnv)

/-- The delta applies to append-only entries read by the general extractor. -/
def inScope : Bool :=
  env.entry.mutability = .APPEND_ONLY ∧ env.extractorId = some env.generalExtractorId

/-- Every chunk hash that this extractor's claims of the entry carry on a source reference to it. -/
def carriedHashes (extractorId : String) : Finset String :=
  ((env.claims.filter fun p => p.extractorRef.any (·.name = extractorId)).flatMap fun p =>
    p.provenance.filterMap fun ref =>
      if ref.type = .SOURCE ∧ ref.corpusEntryId = env.entry.entryId then
        ref.chunkHash.filter (· ≠ "")
      else none).toFinset

/-- The extractors whose claims rest on a snapshot. -/
def baseExtractors (base : ExtractionBaseRow) : List String :=
  (env.claims.filterMap fun p =>
    if p.provenance.any (·.snapshotId = some base.snapshotId) then
      p.extractorRef.map ExtractorRef.name
    else none).dedup

/-- The extractor of this read. -/
def readExtractor : String := env.extractorId.getD env.generalExtractorId

/-- Another extractor wrote the claims of a snapshot. -/
def otherExtractor (base : ExtractionBaseRow) : Bool :=
  baseExtractors env base ≠ [] ∧ readExtractor env ∉ baseExtractors env base

/-- The offset that the chunk hashes derive. -/
def derivedOffset (baseContent : Bytes) : Option ℕ :=
  let flags := env.sourceTextFlags env.entry.sourceType
  env.deriveBaseOffset baseContent (carriedHashes env (readExtractor env)) flags.1 flags.2

/-- How far the read of a snapshot reached: as recorded, else as derived, else to its end. -/
def readOffset (base : ExtractionBaseRow) (baseContent : Bytes) : ℕ :=
  base.extractedThrough.getD ((derivedOffset env baseContent).getD baseContent.length)

/-- **`_plan_from`: the plan reading `content` as a delta from a COMPLETE snapshot.** -/
def planFrom (content : Bytes) : Option ExtractionBaseRow → AppendPlan
  | none => { fallback := some FALLBACK_NO_BASE }
  | some base =>
      if otherExtractor env base then
        { baseSnapshotId := some base.snapshotId, fallback := some (FALLBACK_OTHER_EXTRACTOR ++
            " (" ++ ", ".intercalate (sortBy id (baseExtractors env base)) ++ ")") }
      else
        match env.loadBlob base.contentHash with
        | none =>
            { baseSnapshotId := some base.snapshotId, fallback := some FALLBACK_BASE_MISSING }
        | some baseContent =>
            let read := baseContent.take (min (readOffset env base baseContent) baseContent.length)
            if read.isPrefixOf content then
              { readPrefix := some read, baseSnapshotId := some base.snapshotId,
                derivedOffset := base.extractedThrough = none ∧
                  (derivedOffset env baseContent).isSome }
            else { baseSnapshotId := some base.snapshotId, fallback := some FALLBACK_RAW_PREFIX }

/-- Whether a snapshot is a recorded read that the earlier base does not already stand for. -/
def recordsFurtherRead (row : ExtractionBaseRow) (later : Bool) : Bool :=
  match row.extractedThrough with
  | none => false
  | some _ => if row.extractionStatus = .COMPLETE then later else true

/-- The other recorded reads, each with its offset capped at the content's length. -/
def furtherCandidates (index length : ℕ) (ignoreOwn : Bool) : List (ℕ × ExtractionBaseRow) :=
  (env.rows.zipIdx.filter fun item =>
    ¬ (item.2 = index ∧ ignoreOwn) ∧ recordsFurtherRead item.1 (index < item.2)).map
    fun item => (min (item.1.extractedThrough.getD 0) length, item.1)

/-- The content agrees with a candidate's up to its offset.  The snapshot's own content is the one read. -/
def candidateMatches (ownId : Option String) (content : Bytes) (candidate : ℕ × ExtractionBaseRow) :
    Bool :=
  if ownId = some candidate.2.snapshotId then true
  else (env.loadBlob candidate.2.contentHash).any fun other =>
    other.take candidate.1 = content.take candidate.1

/-- The first of some candidates that matches, as long as they go beyond an offset. -/
def firstMatch (ownId : Option String) (content : Bytes) (beyond : ℤ) :
    List (ℕ × ExtractionBaseRow) → Option AppendPlan
  | [] => none
  | candidate :: candidates =>
      if (candidate.1 : ℤ) ≤ beyond then none
      else if candidateMatches env ownId content candidate then
        some { readPrefix := some (content.take candidate.1),
               baseSnapshotId := some candidate.2.snapshotId }
      else firstMatch ownId content beyond candidates

/-- **`_further_read`: the candidates are tried furthest first.** -/
def furtherRead (index : ℕ) (content : Bytes) (beyond : ℤ) (ignoreOwn : Bool) : Option AppendPlan :=
  firstMatch env (env.rows[index]?.map ExtractionBaseRow.snapshotId) content beyond
    (sortBy (fun candidate : ℕ × ExtractionBaseRow => OrderDual.toDual candidate.1)
      (furtherCandidates env index content.length ignoreOwn))

/-- The latest of the earlier COMPLETE snapshots. -/
def earlierBase (index : ℕ) : Option ExtractionBaseRow :=
  ((env.rows.take index).filter fun row => row.extractionStatus = .COMPLETE).getLast?

/-- The plan that finds the base. -/
def autoPlan (index : ℕ) (content : Bytes) (ignoreOwnPartial : Bool) : Option AppendPlan :=
  if env.rows[index]?.any ExtractionBaseRow.resumeWhole ∧ ¬ ignoreOwnPartial then none
  else
    let earlierPlan := planFrom env content (earlierBase env index)
    let beyond : ℤ := earlierPlan.readPrefix.elim (-1) fun read => read.length
    some ((furtherRead env index content beyond ignoreOwnPartial).getD earlierPlan)

/-- **`plan_append`.** -/
def planAppend (snapshotId : String) (content : Bytes) (appendBase : Option String)
    (ignoreOwnPartial : Bool) : Option AppendPlan :=
  match appendBase with
  | none => none
  | some named =>
      if ¬ inScope env then none
      else if ¬ env.appendOnlyDelta then some { fallback := some FALLBACK_DISABLED }
      else
        match env.rows.findIdx? (·.snapshotId = snapshotId) with
        | none => some { fallback := some FALLBACK_NO_BASE }
        | some index =>
            if named = AUTO_BASE then autoPlan env index content ignoreOwnPartial
            else
              some (planFrom env content (env.rows.find? fun row =>
                row.snapshotId = named ∧ row.extractionStatus = .COMPLETE))

end Plan

/-! ### What a read covered -/

section Reads

variable (env : AppendEnv) (snapshotId : String) (content : Bytes)

/-- The content of a snapshot: for the one being read it is at hand, for another it is stored. -/
def contentOf (row : ExtractionBaseRow) : Option Bytes :=
  if row.snapshotId = snapshotId then some content else env.loadBlob row.contentHash

/-- A content agrees with another up to an offset capped at its length. -/
def ReadMatches (other : Bytes) (offset : ℕ) : Prop :=
  other.take (min offset content.length) = content.take (min offset content.length)

/-- The position of the snapshot among the entry's. -/
def PositionOf (index : ℕ) : Prop :=
  env.rows.findIdx? (·.snapshotId = snapshotId) = some index

/-- The latest COMPLETE snapshot before a position. -/
def LatestComplete (index : ℕ) (row : ExtractionBaseRow) : Prop :=
  row.extractionStatus = .COMPLETE ∧ ∃ i < index, env.rows[i]? = some row ∧
    ∀ j row', i < j → j < index → env.rows[j]? = some row' → row'.extractionStatus ≠ .COMPLETE

/-- A recorded read that may go further than the base: a partial read anywhere, the snapshot's own unless
it is to be ignored, or a later COMPLETE one. -/
def Counted (index : ℕ) (ignoreOwn : Bool) (row : ExtractionBaseRow) (offset : ℕ) : Prop :=
  row.extractedThrough = some offset ∧ ∃ i, env.rows[i]? = some row ∧
    (row.extractionStatus ≠ .COMPLETE ∧ ¬ (i = index ∧ ignoreOwn = true) ∨
      row.extractionStatus = .COMPLETE ∧ index < i)

/-- **A plan passes over text that was read**: it is the beginning of the content and of a base's, up to
an offset that the base's read had reached. -/
def PassesOverRead (plan : AppendPlan) (readPrefix : Bytes) : Prop :=
  readPrefix <+: content ∧ ∃ row ∈ env.rows, plan.baseSnapshotId = some row.snapshotId ∧
    (row.extractedThrough = none → row.extractionStatus = .COMPLETE) ∧
    ∃ base, contentOf env snapshotId content row = some base ∧ readPrefix <+: base ∧
      readPrefix.length ≤ readOffset env row base

end Reads

/-! ### The candidates -/

section Candidates

variable {env : AppendEnv} {index : ℕ} {content : Bytes} {ignoreOwn : Bool}

/-- The candidates are the reads that count, each at its capped offset. -/
theorem mem_furtherCandidates {length capped : ℕ} {row : ExtractionBaseRow} :
    (capped, row) ∈ furtherCandidates env index length ignoreOwn ↔
      ∃ offset, Counted env index ignoreOwn row offset ∧ capped = min offset length := by
  unfold furtherCandidates
  simp only [List.mem_map, List.mem_filter, decide_eq_true_eq, Prod.mk.injEq]
  constructor
  · rintro ⟨⟨row', i⟩, ⟨hmem, hown, hfurther⟩, hcapped, rfl⟩
    have hrow := List.mem_zipIdx_iff_getElem?.1 hmem
    unfold recordsFurtherRead at hfurther
    rcases hthrough : row'.extractedThrough with _ | offset
    · simp [hthrough] at hfurther
    · refine ⟨offset, ⟨hthrough, i, hrow, ?_⟩, ?_⟩
      · by_cases hcomplete : row'.extractionStatus = .COMPLETE
        · right
          simpa [hthrough, hcomplete] using hfurther
        · exact Or.inl ⟨hcomplete, hown⟩
      · rw [← hcapped, hthrough, Option.getD_some]
  · rintro ⟨offset, ⟨hthrough, i, hrow, hcounts⟩, rfl⟩
    refine ⟨(row, i), ⟨List.mem_zipIdx_iff_getElem?.2 hrow, ?_, ?_⟩, ?_, rfl⟩
    · rintro ⟨rfl, hignore⟩
      rcases hcounts with ⟨-, hown⟩ | ⟨-, hlater⟩
      · exact hown ⟨rfl, hignore⟩
      · exact lt_irrefl _ hlater
    · unfold recordsFurtherRead
      rcases hcounts with ⟨hstatus, -⟩ | ⟨hstatus, hlater⟩
      · simp [hthrough, hstatus]
      · simp [hthrough, hstatus, hlater]
    · rw [hthrough, Option.getD_some]

/-- **The loop takes the furthest candidate that matches**, if one goes beyond the offset. -/
theorem firstMatch_spec (env : AppendEnv) (ownId : Option String) (content : Bytes) (beyond : ℤ)
    {candidates : List (ℕ × ExtractionBaseRow)}
    (hsorted : candidates.Pairwise fun a b => b.1 ≤ a.1) :
    (firstMatch env ownId content beyond candidates = none ∧
      ∀ c ∈ candidates, candidateMatches env ownId content c → (c.1 : ℤ) ≤ beyond) ∨
    ∃ c ∈ candidates, candidateMatches env ownId content c ∧ beyond < c.1 ∧
      firstMatch env ownId content beyond candidates =
        some { readPrefix := some (content.take c.1), baseSnapshotId := some c.2.snapshotId } ∧
      ∀ c' ∈ candidates, candidateMatches env ownId content c' → c'.1 ≤ c.1 := by
  induction candidates with
  | nil =>
      refine Or.inl ⟨rfl, ?_⟩
      intro c hc
      cases hc
  | cons candidate candidates ih =>
      obtain ⟨hhead, hrest⟩ := List.pairwise_cons.1 hsorted
      rw [firstMatch]
      split_ifs with hbeyond hmatch
      · refine Or.inl ⟨rfl, ?_⟩
        intro c hc _
        rcases List.mem_cons.1 hc with rfl | hmem
        · exact hbeyond
        · exact (Int.ofNat_le.2 (hhead c hmem)).trans hbeyond
      · refine Or.inr ⟨candidate, List.mem_cons_self, hmatch, not_le.1 hbeyond, rfl, ?_⟩
        intro c hc _
        rcases List.mem_cons.1 hc with rfl | hmem
        · exact le_rfl
        · exact hhead c hmem
      · rcases ih hrest with ⟨hnone, hall⟩ | ⟨c, hc, hcmatch, hcbeyond, heq, hall⟩
        · refine Or.inl ⟨hnone, ?_⟩
          intro c hc hcmatch
          rcases List.mem_cons.1 hc with rfl | hmem
          · exact absurd hcmatch hmatch
          · exact hall c hmem hcmatch
        · refine Or.inr ⟨c, List.mem_cons_of_mem _ hc, hcmatch, hcbeyond, heq, ?_⟩
          intro c' hc' hmatch'
          rcases List.mem_cons.1 hc' with rfl | hmem
          · exact absurd hmatch' hmatch
          · exact hall c' hmem hmatch'

/-- A candidate matches when its content agrees up to its offset. -/
theorem candidateMatches_iff {snapshotId : String} {row : ExtractionBaseRow} {offset : ℕ} :
    candidateMatches env (some snapshotId) content (min offset content.length, row) = true ↔
      ∃ base, contentOf env snapshotId content row = some base ∧ ReadMatches content base offset := by
  unfold candidateMatches contentOf ReadMatches
  by_cases hown : row.snapshotId = snapshotId
  · simp [hown]
  · have hown' : ¬ some snapshotId = some row.snapshotId := fun h => hown (Option.some.inj h).symm
    rw [if_neg hown, if_neg hown']
    cases env.loadBlob row.contentHash with
    | none => simp
    | some base => simp

end Candidates

/-! ### The earlier base -/

section Base

variable {env : AppendEnv} {snapshotId : String} {index : ℕ} {content : Bytes}
  {row : ExtractionBaseRow}

/-- The earlier base is a COMPLETE snapshot before the position. -/
theorem earlierBase_spec (h : earlierBase env index = some row) :
    row.extractionStatus = .COMPLETE ∧ ∃ i < index, env.rows[i]? = some row := by
  obtain ⟨hmem, hcomplete⟩ := List.mem_filter.1 (List.mem_of_getLast? h)
  obtain ⟨i, hi⟩ := List.getElem?_of_mem hmem
  rw [List.getElem?_take] at hi
  split_ifs at hi with hlt
  exact ⟨of_decide_eq_true hcomplete, i, hlt, hi⟩

/-- The latest earlier COMPLETE snapshot is the earlier base. -/
theorem LatestComplete.earlierBase_eq (h : LatestComplete env index row) :
    earlierBase env index = some row := by
  obtain ⟨hcomplete, i, hi, hrow, hlatest⟩ := h
  have hat : (env.rows.take index)[i]? = some row := by rw [List.getElem?_take_of_lt hi, hrow]
  obtain ⟨hlt, hget⟩ := List.getElem?_eq_some_iff.1 hat
  have hsplit : env.rows.take index =
      (env.rows.take index).take i ++ row :: (env.rows.take index).drop (i + 1) := by
    rw [← hget, ← List.drop_eq_getElem_cons, List.take_append_drop]
  have hafter : ((env.rows.take index).drop (i + 1)).filter
      (fun row => row.extractionStatus = .COMPLETE) = [] := by
    refine List.filter_eq_nil_iff.2 fun row' hrow' => ?_
    obtain ⟨j, hj⟩ := List.getElem?_of_mem hrow'
    rw [List.getElem?_drop, List.getElem?_take] at hj
    split_ifs at hj with hjlt
    simpa using hlatest (i + 1 + j) row' (by omega) hjlt hj
  unfold earlierBase
  rw [hsplit, List.filter_append, List.filter_cons_of_pos (by simpa using hcomplete), hafter,
    List.getLast?_concat]

/-- What a plan from a COMPLETE snapshot passes over is the beginning of both contents. -/
theorem planFrom_spec {base : Option ExtractionBaseRow} {readPrefix : Bytes}
    (h : (planFrom env content base).readPrefix = some readPrefix) :
    ∃ row baseContent, base = some row ∧ env.loadBlob row.contentHash = some baseContent ∧
      (planFrom env content base).baseSnapshotId = some row.snapshotId ∧ readPrefix <+: content ∧
      readPrefix <+: baseContent ∧ readPrefix.length ≤ readOffset env row baseContent := by
  cases base with
  | none => cases h
  | some row =>
      rw [planFrom] at h ⊢
      split_ifs at h ⊢ with hother
      · rcases hload : env.loadBlob row.contentHash with _ | baseContent
        · rw [hload] at h
          cases h
        · simp only [hload] at h ⊢
          split_ifs at h ⊢ with hread
          · obtain rfl := Option.some.inj h
            refine ⟨row, baseContent, rfl, hload, rfl, List.isPrefixOf_iff_prefix.1 hread,
              List.take_prefix _ _, ?_⟩
            rw [List.length_take]
            omega

/-- A read of the earlier base that matches, and stays within the content, is planned from. -/
theorem planFrom_of_matches {baseContent : Bytes} (hother : otherExtractor env row = false)
    (hload : env.loadBlob row.contentHash = some baseContent)
    (hwithin : readOffset env row baseContent ≤ content.length)
    (hmatches : ReadMatches content baseContent (readOffset env row baseContent)) :
    ∃ read, (planFrom env content (some row)).readPrefix = some read ∧
      read.length = readOffset env row baseContent := by
  unfold ReadMatches at hmatches
  rw [min_eq_left hwithin] at hmatches
  have hlength := congrArg List.length hmatches
  rw [List.length_take, List.length_take, min_eq_left hwithin] at hlength
  refine ⟨baseContent.take (readOffset env row baseContent), ?_, ?_⟩
  · have hle : readOffset env row baseContent ≤ baseContent.length := by omega
    have hread : (baseContent.take (readOffset env row baseContent)).isPrefixOf content = true := by
      rw [List.isPrefixOf_iff_prefix, hmatches]
      exact List.take_prefix _ _
    rw [planFrom, if_neg (by simp [hother])]
    simp only [hload, min_eq_left hle, hread, if_true]
  · rw [List.length_take]
    omega

end Base

/-! ### The selection -/

section Selection

variable {env : AppendEnv} {snapshotId : String} {index : ℕ} {content : Bytes} {ignoreOwn : Bool}
  {plan : AppendPlan} {readPrefix : Bytes}

/-- The snapshots before the first with an id have another. -/
theorem PositionOf.ne_of_lt (h : PositionOf env snapshotId index) {i : ℕ} {row : ExtractionBaseRow}
    (hi : i < index) (hrow : env.rows[i]? = some row) : row.snapshotId ≠ snapshotId := by
  obtain ⟨hlt, -, hbefore⟩ := List.findIdx?_eq_some_iff_getElem.1 h
  obtain ⟨hlt', rfl⟩ := List.getElem?_eq_some_iff.1 hrow
  simpa using hbefore i hi

theorem PositionOf.ownId (h : PositionOf env snapshotId index) :
    env.rows[index]?.map ExtractionBaseRow.snapshotId = some snapshotId := by
  obtain ⟨hlt, hat, -⟩ := List.findIdx?_eq_some_iff_getElem.1 h
  rw [List.getElem?_eq_getElem hlt, Option.map_some]
  exact congrArg some (of_decide_eq_true hat)

/-- A plan with a prefix is found from the snapshot's position. -/
theorem planAppend_auto
    (h : planAppend env snapshotId content (some AUTO_BASE) ignoreOwn = some plan)
    (hread : plan.readPrefix = some readPrefix) :
    ∃ index, PositionOf env snapshotId index ∧
      plan = (furtherRead env index content
        ((planFrom env content (earlierBase env index)).readPrefix.elim (-1) fun read => read.length)
        ignoreOwn).getD (planFrom env content (earlierBase env index)) := by
  unfold planAppend at h
  rcases hindex : env.rows.findIdx? (·.snapshotId = snapshotId) with _ | index
  · simp only [hindex] at h
    split_ifs at h <;> obtain rfl := Option.some.inj h <;> cases hread
  · simp only [hindex, eq_self, if_true, autoPlan] at h
    split_ifs at h
    · exact ⟨index, hindex, (Option.some.inj h).symm⟩
    · obtain rfl := Option.some.inj h
      cases hread

/-- The candidates in the order they are tried, furthest first. -/
theorem pairwise_candidates (candidates : List (ℕ × ExtractionBaseRow)) :
    (sortBy (fun candidate : ℕ × ExtractionBaseRow => OrderDual.toDual candidate.1)
      candidates).Pairwise fun a b => b.1 ≤ a.1 :=
  pairwise_sortBy (fun candidate : ℕ × ExtractionBaseRow => OrderDual.toDual candidate.1) candidates

/-- The content of an earlier snapshot is the one that is stored. -/
theorem PositionOf.contentOf_eq (h : PositionOf env snapshotId index) {i : ℕ} {row : ExtractionBaseRow}
    (hi : i < index) (hrow : env.rows[i]? = some row) :
    contentOf env snapshotId content row = env.loadBlob row.contentHash :=
  if_neg (h.ne_of_lt hi hrow)

/-- The latest complete read, when it matches, is passed over by the plan of the earlier base. -/
theorem PositionOf.planFrom_earlierBase (h : PositionOf env snapshotId index) {row : ExtractionBaseRow}
    {base : Bytes} (hlatest : LatestComplete env index row) (hother : otherExtractor env row = false)
    (hcontent : contentOf env snapshotId content row = some base)
    (hwithin : readOffset env row base ≤ content.length)
    (hmatches : ReadMatches content base (readOffset env row base)) :
    ∃ read, (planFrom env content (earlierBase env index)).readPrefix = some read ∧
      read.length = readOffset env row base := by
  obtain ⟨i, hi, hrow, -⟩ := hlatest.2
  rw [h.contentOf_eq hi hrow] at hcontent
  rw [hlatest.earlierBase_eq]
  exact planFrom_of_matches hother hcontent hwithin hmatches

/-- What the plan of the earlier base passes over was read. -/
theorem PositionOf.passesOver_earlierBase (h : PositionOf env snapshotId index)
    (hread : (planFrom env content (earlierBase env index)).readPrefix = some readPrefix) :
    PassesOverRead env snapshotId content (planFrom env content (earlierBase env index)) readPrefix := by
  obtain ⟨row, base, hrow, hload, hid, hcontent, hprefix, hreached⟩ := planFrom_spec hread
  obtain ⟨hcomplete, i, hi, hat⟩ := earlierBase_spec hrow
  refine ⟨hcontent, row, List.mem_of_getElem? hat, hid, fun _ => hcomplete, base, ?_, hprefix, hreached⟩
  rw [h.contentOf_eq hi hat, hload]

/-- What a candidate that matches passes over was read. -/
theorem passesOver_candidate {row : ExtractionBaseRow} {offset : ℕ}
    (hcounted : Counted env index ignoreOwn row offset)
    (hmatch : candidateMatches env (some snapshotId) content (min offset content.length, row)) :
    PassesOverRead env snapshotId content
      { readPrefix := some (content.take (min offset content.length))
        baseSnapshotId := some row.snapshotId } (content.take (min offset content.length)) := by
  obtain ⟨hthrough, i, hrow, -⟩ := id hcounted
  obtain ⟨base, hbase, hmatches⟩ := candidateMatches_iff.1 hmatch
  refine ⟨List.take_prefix _ _, row, List.mem_of_getElem? hrow, rfl, ?_, base, hbase, ?_, ?_⟩
  · intro hnone
    rw [hthrough] at hnone
    cases hnone
  · rw [← hmatches]
    exact List.take_prefix _ _
  · rw [List.length_take, readOffset, hthrough, Option.getD_some]
    omega

/-- **What a plan passes over was read, and of the reads that the selection considers, none that matches
reaches further.** -/
theorem planAppend_sound_furthest
    (h : planAppend env snapshotId content (some AUTO_BASE) ignoreOwn = some plan)
    (hread : plan.readPrefix = some readPrefix) :
    PassesOverRead env snapshotId content plan readPrefix ∧
    ∃ index, PositionOf env snapshotId index ∧
      (∀ row offset base, Counted env index ignoreOwn row offset →
        contentOf env snapshotId content row = some base → ReadMatches content base offset →
          min offset content.length ≤ readPrefix.length) ∧
      (∀ row base, LatestComplete env index row → otherExtractor env row = false →
        contentOf env snapshotId content row = some base →
          readOffset env row base ≤ content.length →
            ReadMatches content base (readOffset env row base) →
              readOffset env row base ≤ readPrefix.length) := by
  obtain ⟨index, hposition, hplan⟩ := planAppend_auto h hread
  -- whatever wins is at least as far as the earlier base and every candidate that matches
  set beyond : ℤ := (planFrom env content (earlierBase env index)).readPrefix.elim (-1)
    fun read => read.length with hbeyond
  rcases firstMatch_spec env (some snapshotId) content beyond
    (pairwise_candidates (furtherCandidates env index content.length ignoreOwn))
    with ⟨hnone, hall⟩ | ⟨c, hc, hmatch, hfurther, hsome, hall⟩
  · -- no candidate goes beyond the earlier base
    rw [furtherRead, hposition.ownId, hnone, Option.getD_none] at hplan
    subst hplan
    rw [hread, Option.elim_some] at hbeyond
    refine ⟨hposition.passesOver_earlierBase hread, index, hposition, ?_, ?_⟩
    · intro row offset base hcounted hbase hmatches
      have hle := hall _ (mem_sortBy.2 (mem_furtherCandidates.2 ⟨offset, hcounted, rfl⟩))
        (candidateMatches_iff.2 ⟨base, hbase, hmatches⟩)
      rw [hbeyond] at hle
      exact Int.ofNat_le.1 hle
    · intro row base hlatest hother hcontent hwithin hmatches
      obtain ⟨read, hread', hlength⟩ :=
        hposition.planFrom_earlierBase hlatest hother hcontent hwithin hmatches
      rw [hread] at hread'
      rw [Option.some.inj hread', hlength]
  · -- a candidate goes beyond the earlier base
    rw [furtherRead, hposition.ownId, hsome, Option.getD_some] at hplan
    subst hplan
    obtain ⟨capped, row⟩ := c
    obtain ⟨offset, hcounted, rfl⟩ := mem_furtherCandidates.1 (mem_sortBy.1 hc)
    obtain rfl : content.take (min offset content.length) = readPrefix := Option.some.inj hread
    have hlength : (content.take (min offset content.length)).length = min offset content.length := by
      rw [List.length_take]
      omega
    refine ⟨passesOver_candidate hcounted hmatch, index, hposition, ?_, ?_⟩
    · intro row' offset' base hcounted' hbase hmatches
      rw [hlength]
      exact hall _ (mem_sortBy.2 (mem_furtherCandidates.2 ⟨offset', hcounted', rfl⟩))
        (candidateMatches_iff.2 ⟨base, hbase, hmatches⟩)
    · intro row' base hlatest hother hcontent hwithin hmatches
      obtain ⟨read, hread', hlength'⟩ :=
        hposition.planFrom_earlierBase hlatest hother hcontent hwithin hmatches
      rw [hread', Option.elim_some, hlength'] at hbeyond
      rw [hbeyond] at hfurther
      rw [hlength]
      exact (Int.ofNat_lt.1 hfurther).le

end Selection

/-! ### An earlier read that is not the latest -/

/-- Three snapshots of an entry that grew.  The second was read first, up to two bytes of its six, and
then the first, up to its end. -/
def grownEntry : AppendEnv where
  entry := { entryId := "e", mutability := .APPEND_ONLY }
  rows := [⟨"s1", "h1", .COMPLETE, some 4, false⟩, ⟨"s2", "h2", .COMPLETE, some 2, false⟩,
    ⟨"s3", "h3", .PENDING, none, false⟩]
  claims := []
  loadBlob hash := if hash = "h1" then some [1, 2, 3, 4]
    else if hash = "h2" then some [1, 2, 3, 4, 5, 6] else some [1, 2, 3, 4, 5, 6, 7, 8]
  extractorId := some "general"
  generalExtractorId := "general"
  sourceTextFlags _ := (false, false)
  deriveBaseOffset _ _ _ _ := none

/-- The third snapshot is read from where the second's read stopped. -/
theorem planAppend_grownEntry :
    planAppend grownEntry "s3" [1, 2, 3, 4, 5, 6, 7, 8] (some AUTO_BASE) false =
      some { readPrefix := some [1, 2], baseSnapshotId := some "s2" } := by
  decide

/-- **An earlier COMPLETE read that is not the latest is not considered**, though it matches and reaches
further. -/
theorem planAppend_passes_over_earlier :
    ¬ ∀ (env : AppendEnv) (snapshotId : String) (content : Bytes) (ignoreOwn : Bool)
        (plan : AppendPlan) (readPrefix : Bytes),
      planAppend env snapshotId content (some AUTO_BASE) ignoreOwn = some plan →
        plan.readPrefix = some readPrefix →
          PassesOverRead env snapshotId content plan readPrefix ∧
            ∀ row ∈ env.rows, ∀ offset base, row.extractedThrough = some offset →
              contentOf env snapshotId content row = some base → ReadMatches content base offset →
                min offset content.length ≤ readPrefix.length := by
  intro hfurthest
  have hfour := (hfurthest grownEntry "s3" [1, 2, 3, 4, 5, 6, 7, 8] false _ _
    planAppend_grownEntry rfl).2 ⟨"s1", "h1", .COMPLETE, some 4, false⟩ (by decide) 4 [1, 2, 3, 4]
      rfl (by decide) (by unfold ReadMatches; decide)
  exact absurd hfour (by decide)

/-- The text of the third snapshot that is passed over was read. -/
theorem planAppend_sound_furthest_grownEntry :
    PassesOverRead grownEntry "s3" [1, 2, 3, 4, 5, 6, 7, 8]
      { readPrefix := some [1, 2], baseSnapshotId := some "s2" } [1, 2] :=
  (planAppend_sound_furthest planAppend_grownEntry rfl).1

end AppendBase

end ParticlesEngine
