/-
**One representative for each co-evidential group.**

`_collapse_co_evidential_top_k` shows a ranked list with one claim for each group that is linked by
CO_EVIDENTIAL rows of sufficient equivalence.  It searches the group of each claim that no earlier one
represents, through claims that the list need not hold, and cuts it to the list.  A group is a
connected component, so the search finds the same one from each of its members; the claims dropped
are those of a group whose first one was shown.

Main definitions:

* `searchCoEvidentialGroup` — the search with its queue, as `get_co_evidential_group` runs it;
* `SameGroup` — the connected components of the rows that reach the threshold;
* `listedGroup`, `groupConfidence` — the members of a group in the list, and the confidence they
  lend to the first of them;
* `OnePerGroup` — a list shows one representative for each group of another.

Main results:

* `searchCoEvidentialGroup_eq` — **the search ends with the group**;
* `mem_getCoEvidentialGroup` — **a group is a connected component**;
* `collapseCoEvidentialTopK_eq` — the collapse keeps the first claim of each group;
* `collapseCoEvidentialTopK_onePerGroup` — **the collapse shows one representative for each group**.
-/

import ParticlesEngine.QueryRanking
import ParticlesEngine.QueueWalk

set_option relaxedAutoImplicit false
set_option autoImplicit false

open FirstByKey Relation

namespace ParticlesEngine

section CoEvidential

variable (rank : RankingLibrary) (s : QuerySession)

/-! ### The search -/

/-- The other ends of the rows that touch a particle, as the rows are read. -/
def linkedIds (current : String) : List String :=
  ((equivalenceEdges rank s).filter fun rel =>
    rel.particleA = current || rel.particleB = current).map fun rel =>
      if rel.particleA = current then rel.particleB else rel.particleA

/-- **`get_co_evidential_group`** with its queue, for at most `fuel` steps. -/
def searchCoEvidentialGroup (fuel : ℕ) (particleId : String) : Option (Finset String) :=
  QueueWalk.search (linkedIds rank s) fuel ({particleId}, [particleId])

/-! ### Groups -/

/-- A CO_EVIDENTIAL row that reaches the threshold joins two particles. -/
def EquivalenceLink (a b : String) : Prop :=
  ∃ rel ∈ s.store.relations.rows, rel.relationType = .CO_EVIDENTIAL ∧
    rank.equivalenceThreshold ≤ rank.effectiveEquivalence (s.relationConfidence rel.key) ∧
    rel.particleA = a ∧ rel.particleB = b

/-- **The connected components** of the rows that reach the threshold. -/
def SameGroup : String → String → Prop := EqvGen (EquivalenceLink rank s)

variable {rank s}

theorem mem_equivalenceEdges {rel : ParticleRelationRow} :
    rel ∈ equivalenceEdges rank s ↔ rel ∈ s.store.relations.rows ∧
      rel.relationType = .CO_EVIDENTIAL ∧
      rank.equivalenceThreshold ≤ rank.effectiveEquivalence (s.relationConfidence rel.key) := by
  simp [equivalenceEdges]

/-- A row is followed both ways. -/
theorem mem_neighbours_equivalenceEdges {a b : String} :
    b ∈ neighbours (equivalenceEdges rank s) a ↔ SymmGen (EquivalenceLink rank s) a b := by
  rw [mem_neighbours]
  constructor
  · rintro ⟨rel, hrel, ⟨ha, hb⟩ | ⟨ha, hb⟩⟩
    · obtain ⟨hmem, htype, hreach⟩ := mem_equivalenceEdges.1 hrel
      exact Or.inl ⟨rel, hmem, htype, hreach, ha, hb⟩
    · obtain ⟨hmem, htype, hreach⟩ := mem_equivalenceEdges.1 hrel
      exact Or.inr ⟨rel, hmem, htype, hreach, hb, ha⟩
  · rintro (⟨rel, hmem, htype, hreach, ha, hb⟩ | ⟨rel, hmem, htype, hreach, hb, ha⟩)
    · exact ⟨rel, mem_equivalenceEdges.2 ⟨hmem, htype, hreach⟩, Or.inl ⟨ha, hb⟩⟩
    · exact ⟨rel, mem_equivalenceEdges.2 ⟨hmem, htype, hreach⟩, Or.inr ⟨ha, hb⟩⟩

theorem mem_linkedIds {a b : String} :
    b ∈ linkedIds rank s a ↔ b ∈ neighbours (equivalenceEdges rank s) a := by
  rw [mem_neighbours, linkedIds, List.mem_map]
  constructor
  · rintro ⟨rel, hrel, rfl⟩
    obtain ⟨hmem, htouch⟩ := List.mem_filter.1 hrel
    refine ⟨rel, hmem, ?_⟩
    split_ifs with ha
    · exact Or.inl ⟨ha, rfl⟩
    · exact Or.inr ⟨by simpa [ha] using htouch, rfl⟩
  · rintro ⟨rel, hmem, ⟨ha, hb⟩ | ⟨hb, ha⟩⟩
    · exact ⟨rel, List.mem_filter.2 ⟨hmem, by simp [ha]⟩, by rw [if_pos ha, hb]⟩
    · refine ⟨rel, List.mem_filter.2 ⟨hmem, by simp [hb]⟩, ?_⟩
      split_ifs with hself
      · rw [hb, ← hself, ha]
      · exact ha

/-- **A group is a connected component.** -/
theorem mem_getCoEvidentialGroup {a b : String} :
    b ∈ getCoEvidentialGroup rank s a ↔ SameGroup rank s a b := by
  have hedge : (fun a b => b ∈ neighbours (equivalenceEdges rank s) a) =
      SymmGen (EquivalenceLink rank s) := by
    funext a b
    exact propext mem_neighbours_equivalenceEdges
  rw [getCoEvidentialGroup,
    Closure.mem_closure fun id => neighbours_subset (List.Subset.refl _) id, hedge,
    EqvGen.reflTransGen_symmGen]
  simp [SameGroup]

/-- **The search ends with the group**, from every particle and over every set of rows. -/
theorem searchCoEvidentialGroup_eq (particleId : String) :
    ∃ bound, ∀ fuel, bound ≤ fuel →
      searchCoEvidentialGroup rank s fuel particleId = some (getCoEvidentialGroup rank s particleId) := by
  refine ⟨(endpoints (equivalenceEdges rank s) ∪ {particleId}).card + 1, fun fuel hfuel => ?_⟩
  have hnodes : ∀ id, (linkedIds rank s id).toFinset ⊆
      endpoints (equivalenceEdges rank s) ∪ {particleId} := by
    intro id other hother
    rw [List.mem_toFinset, mem_linkedIds] at hother
    exact Finset.mem_union_left _ (neighbours_subset (List.Subset.refl _) id hother)
  have hbound : ((endpoints (equivalenceEdges rank s) ∪ {particleId}) \ {particleId}).card +
      [particleId].length ≤ fuel :=
    (Nat.add_le_add_right (Finset.card_le_card Finset.sdiff_subset) 1).trans hfuel
  obtain ⟨found, hfound⟩ : ∃ found, searchCoEvidentialGroup rank s fuel particleId = some found :=
    QueueWalk.exists_search hnodes Finset.subset_union_right hbound
  rw [hfound, Option.some.injEq]
  ext id
  rw [QueueWalk.mem_search hfound, getCoEvidentialGroup,
    Closure.mem_closure fun id => neighbours_subset (List.Subset.refl _) id]
  simp [mem_linkedIds]

/-- Two particles are in one group exactly when the search finds the same group from both. -/
theorem getCoEvidentialGroup_eq_iff {a b : String} :
    getCoEvidentialGroup rank s a = getCoEvidentialGroup rank s b ↔ SameGroup rank s a b := by
  constructor
  · intro h
    rw [← mem_getCoEvidentialGroup, h, mem_getCoEvidentialGroup]
    exact EqvGen.refl b
  · intro h
    ext c
    rw [mem_getCoEvidentialGroup, mem_getCoEvidentialGroup]
    exact ⟨fun hac => (h.symm).trans _ _ _ hac, fun hbc => h.trans _ _ _ hbc⟩

instance (a b : String) : Decidable (SameGroup rank s a b) :=
  decidable_of_iff (b ∈ getCoEvidentialGroup rank s a) mem_getCoEvidentialGroup

/-! ### What the collapse shows -/

variable (rank s)

/-- The members of an item's group in the list, in rank order. -/
def listedGroup (top : List Scored) (item : Scored) : List Scored :=
  top.filter fun other => SameGroup rank s item.1.id other.1.id

/-- The confidence shown for a group: the merge of its listed members', or the item's own when it is
the only one. -/
def groupConfidence (top : List Scored) (item : Scored) : ℚ :=
  if listedGroup rank s top item = [item] then item.2.2
  else rank.mergeCoEvidentialConfidence
    ((listedGroup rank s top item).map fun other => (other.2.2, firstSourceKey other.1))

/-- An item as it is shown for its group. -/
def representative (top : List Scored) (item : Scored) : Scored :=
  (item.1, item.2.1, groupConfidence rank s top item)

/-- **A list shows one representative for each group** of a ranked list. -/
structure OnePerGroup (top shown : List Scored) : Prop where
  /-- what is shown is a subsequence of the list, similarities included -/
  sublist : (shown.map fun item => (item.1, item.2.1)).Sublist
    (top.map fun item => (item.1, item.2.1))
  /-- the items shown are those that no earlier item shares a group with -/
  first : ∀ before item after, top = before ++ item :: after →
    (item.1.id ∈ idsOf shown ↔ ∀ earlier ∈ before, ¬ SameGroup rank s earlier.1.id item.1.id)
  /-- an item dropped is in the group of exactly one item shown -/
  dropped : ∀ item ∈ top, item.1.id ∉ idsOf shown →
    ∃! other, other ∈ shown ∧ SameGroup rank s other.1.id item.1.id
  /-- the confidence of an item shown is that of its group -/
  confidence : ∀ item ∈ top, ∀ other ∈ shown, other.1.id = item.1.id →
    other.2.2 = groupConfidence rank s top item

variable {rank s} {top : List Scored}

/-! ### The loop -/

theorem mem_idsOf {items : List Scored} {id : String} :
    id ∈ idsOf items ↔ ∃ item ∈ items, item.1.id = id := List.mem_map

theorem idsOf_map_representative (items : List Scored) :
    idsOf (items.map (representative rank s top)) = idsOf items := by
  simp [idsOf, representative]

/-- What the collapse cuts a group to: the ids of its listed members. -/
theorem mem_inTopK {item : Scored} {id : String} :
    id ∈ getCoEvidentialGroup rank s item.1.id ∩ (top.map fun other => other.1.id).toFinset ↔
      id ∈ idsOf top ∧ SameGroup rank s item.1.id id := by
  rw [Finset.mem_inter, mem_getCoEvidentialGroup, List.mem_toFinset, and_comm]
  rfl

/-- The cut group has one id for each listed member. -/
theorem card_inTopK (hdistinct : (idsOf top).Nodup) (item : Scored) :
    (getCoEvidentialGroup rank s item.1.id ∩ (top.map fun other => other.1.id).toFinset).card =
      (listedGroup rank s top item).length := by
  have hids : (idsOf (listedGroup rank s top item)).Nodup :=
    hdistinct.sublist ((List.filter_sublist).map _)
  have hset : getCoEvidentialGroup rank s item.1.id ∩ (top.map fun other => other.1.id).toFinset =
      (idsOf (listedGroup rank s top item)).toFinset := by
    ext id
    rw [mem_inTopK, List.mem_toFinset, mem_idsOf, mem_idsOf]
    constructor
    · rintro ⟨⟨other, hother, rfl⟩, hsame⟩
      exact ⟨other, List.mem_filter.2 ⟨hother, decide_eq_true hsame⟩, rfl⟩
    · rintro ⟨other, hother, rfl⟩
      obtain ⟨hother, hsame⟩ := List.mem_filter.1 hother
      exact ⟨⟨other, hother, rfl⟩, of_decide_eq_true hsame⟩
  rw [hset, List.toFinset_card_of_nodup hids, idsOf, List.length_map]

theorem mem_listedGroup_self {item : Scored} (hitem : item ∈ top) :
    item ∈ listedGroup rank s top item :=
  List.mem_filter.2 ⟨hitem, decide_eq_true (EqvGen.refl _)⟩

/-- An item's group has no other listed member exactly when the cut has at most one id. -/
theorem card_inTopK_le_one_iff (hdistinct : (idsOf top).Nodup) {item : Scored} (hitem : item ∈ top) :
    (getCoEvidentialGroup rank s item.1.id ∩ (top.map fun other => other.1.id).toFinset).card ≤ 1 ↔
      listedGroup rank s top item = [item] := by
  have hself : item ∈ listedGroup rank s top item := mem_listedGroup_self hitem
  rw [card_inTopK hdistinct]
  constructor
  · intro hle
    match hgroup : listedGroup rank s top item with
    | [] => simp [hgroup] at hself
    | [other] =>
        rw [hgroup, List.mem_singleton] at hself
        rw [hself]
    | _ :: _ :: _ => simp [hgroup] at hle
  · intro hgroup
    simp [hgroup]

/-- The state of the collapse once the groups in `held` have been shown. -/
structure CollapseState.Holds (rank : RankingLibrary) (s : QuerySession) (top : List Scored)
    (state : CollapseState) (held : List (Finset String)) : Prop where
  /-- the listed ids of the groups shown are represented -/
  represented : ∀ id, id ∈ state.represented ↔
    id ∈ idsOf top ∧ getCoEvidentialGroup rank s id ∈ held
  /-- a cluster merged is represented -/
  seen : ∀ cluster ∈ state.clustersSeen, cluster ⊆ state.represented

/-- **One item**: it is shown when its group has not been, and then its group is held. -/
theorem CollapseState.Holds.add (hdistinct : (idsOf top).Nodup) {state : CollapseState}
    {held : List (Finset String)} (hholds : state.Holds rank s top held) {item : Scored}
    (hitem : item ∈ top) :
    (getCoEvidentialGroup rank s item.1.id ∈ held → state.add rank s top item = state) ∧
      (getCoEvidentialGroup rank s item.1.id ∉ held →
        (state.add rank s top item).collapsed =
            state.collapsed ++ [representative rank s top item] ∧
          (state.add rank s top item).Holds rank s top
            (held ++ [getCoEvidentialGroup rank s item.1.id])) := by
  have hlisted : item.1.id ∈ idsOf top := List.mem_map_of_mem hitem
  have hrepresented : item.1.id ∈ state.represented ↔ getCoEvidentialGroup rank s item.1.id ∈ held := by
    rw [hholds.represented, and_iff_right hlisted]
  refine ⟨fun hheld => if_pos (hrepresented.2 hheld), fun hnew => ?_⟩
  have hmark : ∀ id, id ∈ state.represented ∪
      (getCoEvidentialGroup rank s item.1.id ∩ (top.map fun other => other.1.id).toFinset) ↔
        id ∈ idsOf top ∧
          getCoEvidentialGroup rank s id ∈ held ++ [getCoEvidentialGroup rank s item.1.id] := by
    intro id
    rw [Finset.mem_union, hholds.represented, mem_inTopK, ← and_or_left, List.mem_append,
      List.mem_singleton, ← getCoEvidentialGroup_eq_iff, eq_comm (a := getCoEvidentialGroup rank s id)]
  have hunmerged : getCoEvidentialGroup rank s item.1.id ∩
      (top.map fun other => other.1.id).toFinset ∉ state.clustersSeen := by
    intro hseen
    -- a merged cluster is represented, and this one holds the item
    refine hnew (hrepresented.1 (hholds.seen _ hseen (mem_inTopK.2 ⟨hlisted, EqvGen.refl _⟩)))
  rw [CollapseState.add, if_neg fun h => hnew (hrepresented.1 h)]
  dsimp only
  by_cases halone : listedGroup rank s top item = [item]
  · rw [if_pos ((card_inTopK_le_one_iff hdistinct hitem).2 halone)]
    refine ⟨by simp [representative, groupConfidence, halone], hmark, fun cluster hcluster => ?_⟩
    exact (hholds.seen cluster hcluster).trans Finset.subset_union_left
  · rw [if_neg fun h => halone ((card_inTopK_le_one_iff hdistinct hitem).1 h), if_neg hunmerged]
    refine ⟨?_, hmark, fun cluster hcluster => ?_⟩
    · have hmembers : top.filter (fun other => other.1.id ∈ getCoEvidentialGroup rank s item.1.id ∩
          (top.map fun other => other.1.id).toFinset) = listedGroup rank s top item := by
        refine List.filter_congr fun other hother => ?_
        have hid : other.1.id ∈ idsOf top := List.mem_map_of_mem hother
        rw [decide_eq_decide, mem_inTopK, and_iff_right hid]
      simp only [hmembers, representative, groupConfidence, if_neg halone]
    · rcases List.mem_cons.1 hcluster with rfl | hcluster
      · exact Finset.subset_union_right
      · exact (hholds.seen cluster hcluster).trans Finset.subset_union_left

/-- **The collapse keeps the first claim of each group.** -/
theorem collapseCoEvidentialTopK_eq (hdistinct : (idsOf top).Nodup) :
    collapseCoEvidentialTopK rank s top =
      (firstByKey (fun item => getCoEvidentialGroup rank s item.1.id) [] top).map
        (representative rank s top) := by
  have hloop : ∀ (items : List Scored) (state : CollapseState) (held : List (Finset String)),
      items ⊆ top → state.Holds rank s top held →
        (items.foldl (CollapseState.add rank s top) state).collapsed = state.collapsed ++
          (firstByKey (fun item => getCoEvidentialGroup rank s item.1.id) held items).map
            (representative rank s top) := by
    intro items
    induction items with
    | nil => simp
    | cons item items ih =>
        intro state held hsub hholds
        obtain ⟨hitem, hitems⟩ := List.cons_subset.1 hsub
        obtain ⟨hskip, hshow⟩ := hholds.add hdistinct hitem
        rw [List.foldl_cons, firstByKey_cons]
        split_ifs with hheld
        · rw [hskip hheld]
          exact ih state held hitems hholds
        · obtain ⟨hcollapsed, hafter⟩ := hshow hheld
          rw [ih _ _ hitems hafter, hcollapsed, List.map_cons, List.append_assoc,
            List.singleton_append]
  refine hloop top {} [] (List.Subset.refl _) ⟨fun id => ?_, fun cluster hcluster => ?_⟩
  · simp
  · simp at hcluster

/-- **The collapse shows one representative for each group**, whatever the rows and wherever a search
starts; the search itself always ends. -/
theorem collapseCoEvidentialTopK_onePerGroup (rank : RankingLibrary) (s : QuerySession)
    (top : List Scored) (hdistinct : (idsOf top).Nodup) :
    OnePerGroup rank s top (collapseCoEvidentialTopK rank s top) ∧
      ∀ particleId, ∃ bound, ∀ fuel, bound ≤ fuel →
        searchCoEvidentialGroup rank s fuel particleId =
          some (getCoEvidentialGroup rank s particleId) := by
  refine ⟨?_, searchCoEvidentialGroup_eq⟩
  set kept := firstByKey (fun item : Scored => getCoEvidentialGroup rank s item.1.id) [] top with hkept
  have hshown : collapseCoEvidentialTopK rank s top = kept.map (representative rank s top) :=
    collapseCoEvidentialTopK_eq hdistinct
  have hids : idsOf (collapseCoEvidentialTopK rank s top) = idsOf kept := by
    rw [hshown, idsOf_map_representative]
  have hsub : kept.Sublist top := firstByKey_sublist
  have hsame : ∀ {a b : Scored}, a ∈ top → b ∈ top → a.1.id = b.1.id → a = b :=
    fun ha hb hab => List.inj_on_of_nodup_map hdistinct ha hb hab
  have hmem : ∀ item ∈ top, item.1.id ∈ idsOf kept ↔ item ∈ kept := by
    intro item hitem
    rw [mem_idsOf]
    refine ⟨fun ⟨other, hother, hid⟩ => ?_, fun h => ⟨item, h, rfl⟩⟩
    rwa [← hsame (hsub.subset hother) hitem hid]
  constructor
  case sublist =>
    rw [hshown, List.map_map]
    exact hsub.map _
  case first =>
    rintro before item after rfl
    have hbefore : item ∉ before := by
      intro h
      have hnodup : (before ++ item :: after).Nodup := List.Nodup.of_map _ hdistinct
      exact List.disjoint_of_nodup_append hnodup h List.mem_cons_self
    rw [hids, hmem item (by simp), hkept, mem_firstByKey_append_cons hbefore]
    simp [getCoEvidentialGroup_eq_iff]
  case dropped =>
    intro item hitem _
    -- the group of the item is that of one item kept
    have hheld : getCoEvidentialGroup rank s item.1.id ∈
        kept.map fun item => getCoEvidentialGroup rank s item.1.id := by
      rw [hkept, mem_map_firstByKey]
      exact ⟨List.mem_map_of_mem hitem, List.not_mem_nil⟩
    obtain ⟨first, hfirst, hgroup⟩ := List.mem_map.1 hheld
    refine ⟨representative rank s top first, ⟨?_, getCoEvidentialGroup_eq_iff.1 hgroup⟩, ?_⟩
    · rw [hshown]
      exact List.mem_map_of_mem hfirst
    · rintro other ⟨hother, hsamegroup⟩
      rw [hshown] at hother
      obtain ⟨later, hlater, rfl⟩ := List.mem_map.1 hother
      have heq : getCoEvidentialGroup rank s later.1.id = getCoEvidentialGroup rank s first.1.id :=
        (getCoEvidentialGroup_eq_iff.2 hsamegroup).trans hgroup.symm
      rw [List.inj_on_of_nodup_map nodup_map_firstByKey hlater hfirst heq]
  case confidence =>
    intro item hitem other hother hid
    rw [hshown] at hother
    obtain ⟨first, hfirst, rfl⟩ := List.mem_map.1 hother
    rw [hsame (hsub.subset hfirst) hitem hid]
    rfl

end CoEvidential

/-- Of `a`, `b` and `c` the last two are linked, and `c` lends `b` its confidence. -/
theorem collapseCoEvidentialTopK_linkedStore :
    OnePerGroup plainRanking linkedStore
      [({ id := "a", content := "" }, 1, 4 / 5), ({ id := "b", content := "" }, 1, 7 / 10),
        ({ id := "c", content := "" }, 1, 7 / 10)]
      (collapseCoEvidentialTopK plainRanking linkedStore
        [({ id := "a", content := "" }, 1, 4 / 5), ({ id := "b", content := "" }, 1, 7 / 10),
          ({ id := "c", content := "" }, 1, 7 / 10)]) :=
  (collapseCoEvidentialTopK_onePerGroup plainRanking linkedStore _ (by decide)).1

end ParticlesEngine
