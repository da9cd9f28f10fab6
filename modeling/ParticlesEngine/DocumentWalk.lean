/-
**One document's answer and the whole enumeration.**

`entry_supersedes` looks for one document from another, and `iter_supersession_entry_pairs` follows
the edges from every document in turn.  Both walk the graph with a queue, and each builds the graph
anew, so the sets of the two may yield their elements in different orders.  They agree on every graph.

Two entries of one document are no pair, even when the document lies on a cycle.

Main definitions:

* `nodeOf` — the document of an entry;
* `DocumentWalk.entrySupersedes`, `DocumentWalk.iterSupersessionEntryPairs` — the two walks;
* `KeyEdge`, `DocumentPath` — the edges of one lineage, and a path of them between two keys.

Main results:

* `documentPairs_iff` — **where the URIs of the documents can be parsed, the pairs listed are exactly
  those for which the predicate holds, and these are the pairs of distinct keys of one lineage that a
  path joins; each is listed once**;
* `mem_pairs_iff_levels` — the walk by levels lists the same pairs.
-/

import ParticlesEngine.DocumentSupersession
import ParticlesEngine.QueueWalk

set_option relaxedAutoImplicit false
set_option autoImplicit false

open Relation

namespace ParticlesEngine

open QueueWalk

/-- The sets of the supersession graph of some relations. -/
abbrev DocumentGraph (rows : List RelationRow) := Adjacency (graphOf rows)

/-- The sets of the graph that a call builds, whatever it reads. -/
abbrev DocumentSets := ∀ rows : List RelationRow, DocumentGraph rows

section Walk

variable (env : DocumentEnv)

/-- `_node_of`: the document of an entry, if the entry declares a relation. -/
def nodeOf (store : Store) (entryId : String) : Except UriError (Option DocumentNode) :=
  match store.entries.get? entryId with
  | none => .ok none
  | some row =>
      match declaredRelation row with
      | none => .ok none
      | some rel => do
          let lineage ← documentLineage env row
          return some (lineage, rel.key)

namespace DocumentWalk

variable (sets : DocumentSets)

/-- **`entry_supersedes`**: a document without edges has an empty set. -/
def entrySupersedes (store : Store) (superseding superseded : String) : Except UriError Bool := do
  let src ← nodeOf env store superseding
  let dst ← nodeOf env store superseded
  match src, dst with
  | some src, some dst =>
      if src.1 ≠ dst.1 || src = dst then return false
      else do
        let rows ← relationRows env store
        return (sets rows).reaches dst {src} ((sets rows).next src)
  | _, _ => return false

/-- The pairs of the entries of some relations, superseding entry first. -/
def pairsOf {rows : List RelationRow} (graph : DocumentGraph rows) : List (String × String) :=
  rows.flatMap fun row =>
    let src := (row.2.1, row.2.2.key)
    (graph.collect {src} (graph.next src)).flatMap fun node =>
      (rows.filter fun sub => (sub.2.1, sub.2.2.key) = node ∧ sub.1 ≠ row.1).map fun sub =>
        (row.1, sub.1)

/-- **`iter_supersession_entry_pairs`**: superseding entry first. -/
def iterSupersessionEntryPairs (store : Store) : Except UriError (List (String × String)) := do
  let rows ← relationRows env store
  return pairsOf (sets rows)

end DocumentWalk

/-! ### Keys of one lineage -/

/-- Within a lineage the document with key `a` supersedes that with key `b`, by an edge that some entry
declares. -/
def KeyEdge (rows : List RelationRow) (lineage : Lineage) (a b : String) : Prop :=
  Supersedes rows (lineage, a) (lineage, b)

/-- A non-empty path between the keys of two entries in the merged graph of their one lineage. -/
def DocumentPath (store : Store) (superseding superseded : String) : Prop :=
  ∃ rows lineage a b, relationRows env store = .ok rows ∧
    nodeOf env store superseding = .ok (some (lineage, a)) ∧
    nodeOf env store superseded = .ok (some (lineage, b)) ∧ TransGen (KeyEdge rows lineage) a b

variable {env} {store : Store} {rows : List RelationRow}

/-- An edge stays inside the lineage of the entry that declared it. -/
theorem lineage_eq_of_supersedes {a b : DocumentNode} (h : Supersedes rows a b) :
    a.1 = b.1 := by
  obtain ⟨⟨entryId, lineage, rel⟩, -, hedge⟩ := List.mem_flatMap.1 h
  rcases List.mem_append.1 hedge with hedge | hedge
  · obtain ⟨superseded, -, heq⟩ := List.mem_map.1 hedge
    obtain ⟨rfl, rfl⟩ := Prod.mk.inj heq
    rfl
  · obtain ⟨superseding, -, heq⟩ := List.mem_map.1 hedge
    obtain ⟨rfl, rfl⟩ := Prod.mk.inj heq
    rfl

/-- **No path crosses lineages**: it is a path of keys. -/
theorem transGen_supersedes_iff {a b : DocumentNode} :
    TransGen (Supersedes rows) a b ↔ a.1 = b.1 ∧ TransGen (KeyEdge rows a.1) a.2 b.2 := by
  constructor
  · intro hpath
    induction hpath with
    | single hedge =>
        have hsame := lineage_eq_of_supersedes hedge
        refine ⟨hsame, TransGen.single ?_⟩
        rw [KeyEdge]
        nth_rewrite 2 [hsame]
        exact hedge
    | @tail b c _ hedge ih =>
        have hsame := ih.1.trans (lineage_eq_of_supersedes hedge)
        refine ⟨hsame, ih.2.tail ?_⟩
        rw [KeyEdge]
        nth_rewrite 2 [hsame]
        rw [ih.1]
        exact hedge
  · obtain ⟨lineage, key⟩ := a
    obtain ⟨lineage', key'⟩ := b
    rintro ⟨hsame, hpath⟩
    obtain rfl : lineage = lineage' := hsame
    exact TransGen.lift (fun k => (lineage, k)) (fun _ _ hedge => hedge) _ _ hpath

theorem nodeOf_eq_some {entryId : String} {node : DocumentNode} :
    nodeOf env store entryId = .ok (some node) ↔ ∃ entry rel,
      store.entries.get? entryId = some entry ∧ declaredRelation entry = some rel ∧
        documentLineage env entry = .ok node.1 ∧ rel.key = node.2 := by
  unfold nodeOf
  cases hentry : store.entries.get? entryId with
  | none => simp
  | some entry =>
      cases hrel : declaredRelation entry with
      | none => simp [hrel]
      | some rel =>
          simp only [hrel, bind_eq_ok]
          constructor
          · rintro ⟨lineage, hlineage, h⟩
            obtain rfl := Option.some.inj (Except.ok.inj h)
            exact ⟨entry, rel, rfl, hrel, hlineage, rfl⟩
          · rintro ⟨_, _, hget, hrel', hlineage, hkey⟩
            obtain rfl := Option.some.inj hget
            obtain rfl := Option.some.inj (hrel.symm.trans hrel')
            exact ⟨node.1, hlineage, by rw [hkey]; rfl⟩

/-- The entries that declare a relation are those with a document. -/
theorem nodeOf_eq_some_iff (hrows : relationRows env store = .ok rows) {entryId : String}
    {node : DocumentNode} : nodeOf env store entryId = .ok (some node) ↔
      ∃ row ∈ rows, row.1 = entryId ∧ (row.2.1, row.2.2.key) = node := by
  rw [nodeOf_eq_some]
  constructor
  · rintro ⟨entry, rel, hget, hrel, hlineage, hkey⟩
    obtain ⟨hentry, hid⟩ := Table.get?_eq_some.1 hget
    exact ⟨(entryId, node.1, rel), (mem_relationRows hrows).2 ⟨entry, hentry, hid, hlineage, hrel⟩,
      rfl, Prod.ext rfl hkey⟩
  · rintro ⟨row, hrow, rfl, rfl⟩
    obtain ⟨entry, hentry, hid, hlineage, hrel⟩ := (mem_relationRows hrows).1 hrow
    exact ⟨entry, row.2.2, Table.get?_eq_some.2 ⟨hentry, hid⟩, hrel, hlineage, rfl⟩

/-- **The document of every entry is read** where the URIs can be parsed. -/
theorem exists_nodeOf (huris : UrisRead env store) (entryId : String) :
    ∃ node, nodeOf env store entryId = .ok node := by
  unfold nodeOf
  cases hentry : store.entries.get? entryId with
  | none => exact ⟨none, rfl⟩
  | some entry =>
      cases hrel : declaredRelation entry with
      | none => exact ⟨none, by simp [hrel]⟩
      | some rel =>
          obtain ⟨⟨origin, root⟩, hparse⟩ := Option.isSome_iff_exists.1
            (huris entry (Table.get?_eq_some.1 hentry).1 (by rw [hrel]; rfl))
          have hlineage := documentLineage_eq_ok.2 ⟨origin, root, hparse, rfl⟩
          exact ⟨_, by simp only [hrel, hlineage]; rfl⟩

/-- **The predicate answers** where the URIs can be parsed, and holds when the documents differ and a
path leads from the one to the other. -/
theorem entrySupersedes_eq_ok (sets : DocumentSets) (hrows : relationRows env store = .ok rows)
    (superseding superseded : String) :
    ∃ holds, DocumentWalk.entrySupersedes env sets store superseding superseded = .ok holds ∧
      (holds = true ↔ ∃ a b, nodeOf env store superseding = .ok (some a) ∧
        nodeOf env store superseded = .ok (some b) ∧ b ≠ a ∧ TransGen (Supersedes rows) a b) := by
  have huris := exists_relationRows.1 ⟨rows, hrows⟩
  obtain ⟨src, hsrc⟩ := exists_nodeOf huris superseding
  obtain ⟨dst, hdst⟩ := exists_nodeOf huris superseded
  rw [DocumentWalk.entrySupersedes, hsrc, hdst]
  cases src with
  | none => exact ⟨false, rfl, by simp⟩
  | some a =>
      cases dst with
      | none => exact ⟨false, rfl, by simp⟩
      | some b =>
          have hpair : (∃ a' b', (.ok (some a) : Except UriError _) = .ok (some a') ∧
              (.ok (some b) : Except UriError _) = .ok (some b') ∧ b' ≠ a' ∧
              TransGen (Supersedes rows) a' b') ↔ b ≠ a ∧ TransGen (Supersedes rows) a b := by
            simp
          rw [hpair]
          by_cases hother : a.1 ≠ b.1 ∨ a = b
          · refine ⟨false, if_pos (by simpa using hother), iff_of_false Bool.false_ne_true ?_⟩
            rintro ⟨hne, hpath⟩
            exact hother.elim (absurd (transGen_supersedes_iff.1 hpath).1) (hne.symm ·)
          · have hne : b ≠ a := fun heq => hother (Or.inr heq.symm)
            refine ⟨(sets rows).reaches b {a} ((sets rows).next a), ?_, ?_⟩
            · refine (if_neg (by simpa using hother)).trans ?_
              rw [hrows]
              rfl
            · rw [Adjacency.reaches_eq_true_iff (by simpa using hne), Adjacency.mem_collect_iff]
              rfl

/-- **The pairs listed are those of entries whose documents differ and are joined by a path.** -/
theorem mem_pairsOf_iff (hrows : relationRows env store = .ok rows) {graph : DocumentGraph rows}
    {superseding superseded : String} :
    (superseding, superseded) ∈ DocumentWalk.pairsOf graph ↔
      ∃ a b, nodeOf env store superseding = .ok (some a) ∧
        nodeOf env store superseded = .ok (some b) ∧ b ≠ a ∧ TransGen (Supersedes rows) a b := by
  simp only [DocumentWalk.pairsOf, List.mem_flatMap, List.mem_map,
    List.mem_filter, Adjacency.mem_collect_iff, Prod.mk.injEq, Bool.decide_and, Bool.and_eq_true,
    decide_eq_true_eq]
  constructor
  · rintro ⟨row, hrow, node, hpath, sub, ⟨hsub, hnode, -⟩, rfl, rfl⟩
    exact ⟨_, node, (nodeOf_eq_some_iff hrows).2 ⟨row, hrow, rfl, rfl⟩,
      (nodeOf_eq_some_iff hrows).2 ⟨sub, hsub, rfl, hnode⟩, hpath⟩
  · rintro ⟨a, b, ha, hb, hne, hpath⟩
    have hother : superseded ≠ superseding := by
      rintro rfl
      exact hne (Option.some.inj (Except.ok.inj (hb.symm.trans ha)))
    obtain ⟨row, hrow, rfl, rfl⟩ := (nodeOf_eq_some_iff hrows).1 ha
    obtain ⟨sub, hsub, rfl, rfl⟩ := (nodeOf_eq_some_iff hrows).1 hb
    exact ⟨row, hrow, _, ⟨hne, hpath⟩, sub, ⟨hsub, rfl, hother⟩, rfl, rfl⟩

/-- **Each pair is listed once.** -/
theorem nodup_pairsOf (hrows : (rows.map fun row => row.1).Nodup) (graph : DocumentGraph rows) :
    (DocumentWalk.pairsOf graph).Nodup := by
  have hpairwise : rows.Pairwise fun a b => a.1 ≠ b.1 := List.pairwise_map.1 hrows
  refine List.nodup_flatMap.2 ⟨fun row _ => List.nodup_flatMap.2 ⟨fun node _ => ?_, ?_⟩, ?_⟩
  · -- the entries of one document
    refine List.Nodup.map_on ?_ (hrows.of_map.filter _)
    intro sub hsub sub' hsub' heq
    exact List.inj_on_of_nodup_map hrows (List.mem_filter.1 hsub).1 (List.mem_filter.1 hsub').1
      (Prod.mk.inj heq).2
  · -- two documents share no entry
    refine (Adjacency.nodup_collect _ _).imp fun {node node'} hne => ?_
    rw [Function.onFun_apply, List.disjoint_left]
    intro pair hpair hpair'
    obtain ⟨sub, hsub, rfl⟩ := List.mem_map.1 hpair
    obtain ⟨sub', hsub', heq⟩ := List.mem_map.1 hpair'
    have hsame := List.inj_on_of_nodup_map hrows (List.mem_filter.1 hsub').1
      (List.mem_filter.1 hsub).1 (Prod.mk.inj heq).2
    have hnode : (sub.2.1, sub.2.2.key) = node := (of_decide_eq_true (List.mem_filter.1 hsub).2).1
    have hnode' : (sub'.2.1, sub'.2.2.key) = node' :=
      (of_decide_eq_true (List.mem_filter.1 hsub').2).1
    exact hne (hnode.symm.trans (hsame ▸ hnode'))
  · -- two superseding entries share no pair
    refine hpairwise.imp fun {row row'} hne => ?_
    rw [Function.onFun_apply, List.disjoint_left]
    intro pair hpair hpair'
    obtain ⟨node, -, hpair⟩ := List.mem_flatMap.1 hpair
    obtain ⟨sub, -, rfl⟩ := List.mem_map.1 hpair
    obtain ⟨node', -, hpair'⟩ := List.mem_flatMap.1 hpair'
    obtain ⟨sub', -, heq⟩ := List.mem_map.1 hpair'
    exact hne (Prod.mk.inj heq).1.symm

theorem iterSupersessionEntryPairs_eq_ok {sets : DocumentSets}
    (hrows : relationRows env store = .ok rows) :
    DocumentWalk.iterSupersessionEntryPairs env sets store =
      .ok (DocumentWalk.pairsOf (sets rows)) := by
  rw [DocumentWalk.iterSupersessionEntryPairs, hrows]
  rfl

/-- **The enumeration and the predicate agree, and both are paths between distinct documents**: where
the URIs of the documents can be parsed, both return; an ordered pair is listed, superseding entry
first, exactly when the predicate holds of it, and each pair once. -/
theorem documentPairs_iff (sets sets' : DocumentSets) (huris : UrisRead env store) :
    ∃ pairs, DocumentWalk.iterSupersessionEntryPairs env sets store = .ok pairs ∧ pairs.Nodup ∧
      ∀ superseding superseded, ∃ holds,
        DocumentWalk.entrySupersedes env sets' store superseding superseded = .ok holds ∧
          ((superseding, superseded) ∈ pairs ↔ holds = true) ∧
          (holds = true ↔ nodeOf env store superseding ≠ nodeOf env store superseded ∧
            DocumentPath env store superseding superseded) := by
  obtain ⟨rows, hrows⟩ := exists_relationRows.2 huris
  refine ⟨_, iterSupersessionEntryPairs_eq_ok hrows, nodup_pairsOf (nodup_relationRows hrows) _, ?_⟩
  intro superseding superseded
  obtain ⟨holds, hanswer, hiff⟩ := entrySupersedes_eq_ok sets' hrows superseding superseded
  refine ⟨holds, hanswer, ?_, ?_⟩
  · rw [mem_pairsOf_iff hrows, hiff]
  · rw [hiff]
    constructor
    · rintro ⟨a, b, ha, hb, hne, hpath⟩
      obtain ⟨hlineage, hkeys⟩ := transGen_supersedes_iff.1 hpath
      refine ⟨fun hsame => hne ?_, rows, a.1, a.2, b.2, hrows, ha, hb.trans ?_, hkeys⟩
      · exact (Option.some.inj (Except.ok.inj (ha.symm.trans (hsame.trans hb)))).symm
      · rw [hlineage]
    · rintro ⟨hother, rows', lineage, a, b, hrows', ha, hb, hkeys⟩
      obtain rfl := Except.ok.inj (hrows.symm.trans hrows')
      refine ⟨_, _, ha, hb, fun hsame => hother ?_, transGen_supersedes_iff.2 ⟨rfl, hkeys⟩⟩
      rw [ha, hb, hsame]

/-- **The walk by levels lists the same pairs.** -/
theorem mem_pairs_iff_levels (hrows : relationRows env store = .ok rows) (graph : DocumentGraph rows)
    (pair : String × String) :
    pair ∈ DocumentWalk.pairsOf graph ↔ pair ∈ supersessionPairs env rows := by
  obtain ⟨superseding, superseded⟩ := pair
  have hdeclares : ∀ entryId node, Declares rows entryId node ↔
      nodeOf env store entryId = .ok (some node) := by
    intro entryId node
    rw [nodeOf_eq_some_iff hrows]
    constructor
    · rintro ⟨rel, hrow, hkey⟩
      exact ⟨_, hrow, rfl, Prod.ext rfl hkey⟩
    · rintro ⟨row, hrow, rfl, rfl⟩
      exact ⟨row.2.2, hrow, rfl⟩
  rw [mem_pairsOf_iff hrows, mem_supersessionPairs]
  constructor
  · rintro ⟨a, b, ha, hb, hne, hpath⟩
    refine ⟨?_, a, b, (hdeclares _ _).2 ha, (hdeclares _ _).2 hb, hne, hpath.to_reflTransGen⟩
    rintro rfl
    exact hne (Option.some.inj (Except.ok.inj (hb.symm.trans ha)))
  · rintro ⟨-, a, b, ha, hb, hne, hpath⟩
    refine ⟨a, b, (hdeclares _ _).1 ha, (hdeclares _ _).1 hb, hne, ?_⟩
    exact (reflTransGen_iff_eq_or_transGen.1 hpath).resolve_left hne

end Walk

/-- Documents with no URI, whose sets yield in the order of the rows. -/
def plainUris : DocumentEnv where
  parseUri _ := some ("", "")
  visitOrder nodes := nodes
  mem_visitOrder _ _ := Iff.rfl

/-- Sets that yield in the order in which the edges were declared. -/
def declaredOrder : DocumentSets := fun rows => Adjacency.ofEdges (graphOf rows)

/-- Two deposits of a document that lies on a cycle. -/
def cycleStore : Store where
  entries := ⟨[
    { entryId := "A1", documentSupersession := some { key := "a", supersedes := ["b"] } },
    { entryId := "A2", documentSupersession := some { key := "a", supersedes := ["b"] } },
    { entryId := "B", documentSupersession := some { key := "b", supersedes := ["a"] } }], by decide⟩

/-- What the entries of the cycle declare. -/
def cycleRows : List RelationRow :=
  [("A1", ("", "", "", ""), { key := "a", supersedes := ["b"] }),
    ("A2", ("", "", "", ""), { key := "a", supersedes := ["b"] }),
    ("B", ("", "", "", ""), { key := "b", supersedes := ["a"] })]

theorem documentPairs_iff_cycle :
    ∃ pairs, DocumentWalk.iterSupersessionEntryPairs plainUris declaredOrder cycleStore =
      .ok pairs ∧ pairs.Nodup ∧ ("A1", "B") ∈ pairs ∧ ("A1", "A2") ∉ pairs := by
  have huris : UrisRead plainUris cycleStore := by decide
  obtain ⟨pairs, hpairs, hnodup, hiff⟩ := documentPairs_iff declaredOrder declaredOrder huris
  obtain ⟨holds, -, hlisted, hpath⟩ := hiff "A1" "B"
  obtain ⟨holds', -, hlisted', hpath'⟩ := hiff "A1" "A2"
  refine ⟨pairs, hpairs, hnodup, hlisted.2 (hpath.2 ⟨by decide, ?_⟩), fun h => ?_⟩
  · have hedge : KeyEdge cycleRows ("", "", "", "") "a" "b" := by
      rw [KeyEdge, Supersedes]
      decide
    exact ⟨cycleRows, _, "a", "b", rfl, by decide, by decide, TransGen.single hedge⟩
  · exact (hpath'.1 (hlisted'.1 h)).1 (by decide)

/-- One document that supersedes another. -/
def replacedStore : Store where
  entries := ⟨[
    { entryId := "A", documentSupersession := some { key := "a", supersedes := ["b"] } },
    { entryId := "B", documentSupersession := some { key := "b" } }], by decide⟩

/-- What the two entries declare. -/
def replacedRows : List RelationRow :=
  [("A", ("", "", "", ""), { key := "a", supersedes := ["b"] }), ("B", ("", "", "", ""), { key := "b" })]

/-- **A path is not enough, and the superseding entry comes first**: two deposits of one document are
no pair though a cycle leads from its key back to it, and the listed order is superseding, superseded. -/
theorem one_document_no_pair :
    (¬ ∀ (env : DocumentEnv) (store : Store) (sets : DocumentSets) (superseding superseded : String),
      UrisRead env store →
        (DocumentWalk.entrySupersedes env sets store superseding superseded = .ok true ↔
          DocumentPath env store superseding superseded)) ∧
    ¬ ∀ (env : DocumentEnv) (store : Store) (sets sets' : DocumentSets) (older newer : String),
      UrisRead env store →
        ((∃ pairs, DocumentWalk.iterSupersessionEntryPairs env sets store = .ok pairs ∧
            (older, newer) ∈ pairs) ↔
          DocumentWalk.entrySupersedes env sets' store newer older = .ok true) := by
  constructor
  · intro hpath
    have hrows : relationRows plainUris cycleStore = .ok cycleRows := rfl
    have hA1 : nodeOf plainUris cycleStore "A1" = .ok (some (("", "", "", ""), "a")) := by decide
    have hA2 : nodeOf plainUris cycleStore "A2" = .ok (some (("", "", "", ""), "a")) := by decide
    have hab : KeyEdge cycleRows ("", "", "", "") "a" "b" := by
      rw [KeyEdge, Supersedes]
      decide
    have hba : KeyEdge cycleRows ("", "", "", "") "b" "a" := by
      rw [KeyEdge, Supersedes]
      decide
    have hholds := (hpath plainUris cycleStore declaredOrder "A1" "A2" (by decide)).2
      ⟨cycleRows, _, "a", "a", hrows, hA1, hA2, (TransGen.single hab).tail hba⟩
    obtain ⟨holds, hanswer, hiff⟩ := entrySupersedes_eq_ok declaredOrder hrows "A1" "A2"
    obtain rfl := Except.ok.inj (hanswer.symm.trans hholds)
    obtain ⟨a, b, ha, hb, hne, -⟩ := hiff.1 rfl
    exact hne (Option.some.inj (Except.ok.inj (hb.symm.trans (hA2.trans (hA1.symm.trans ha)))))
  · intro horder
    have hrows : relationRows plainUris replacedStore = .ok replacedRows := rfl
    have hA : nodeOf plainUris replacedStore "A" = .ok (some (("", "", "", ""), "a")) := by decide
    have hB : nodeOf plainUris replacedStore "B" = .ok (some (("", "", "", ""), "b")) := by decide
    have hedge : Supersedes replacedRows (("", "", "", ""), "a") (("", "", "", ""), "b") := by
      rw [Supersedes]
      decide
    have honly : ∀ node, ¬ Supersedes replacedRows (("", "", "", ""), "b") node := by
      intro node hfrom
      have hedges : graphOf replacedRows =
          [((("", "", "", ""), "a"), (("", "", "", ""), "b"))] := by decide
      rw [Supersedes, hedges] at hfrom
      simp at hfrom
    -- the newer entry supersedes the older one, so the older one would be listed first
    obtain ⟨holds, hanswer, hiff⟩ := entrySupersedes_eq_ok declaredOrder hrows "A" "B"
    obtain rfl := hiff.2 ⟨_, _, hA, hB, by simp, TransGen.single hedge⟩
    obtain ⟨pairs, hpairs, hlisted⟩ :=
      (horder plainUris replacedStore declaredOrder declaredOrder "B" "A" (by decide)).2 hanswer
    obtain rfl := Except.ok.inj ((iterSupersessionEntryPairs_eq_ok hrows).symm.trans hpairs)
    obtain ⟨b, a, hb, -, -, hpath⟩ := (mem_pairsOf_iff hrows).1 hlisted
    obtain rfl := Option.some.inj (Except.ok.inj (hB.symm.trans hb))
    obtain ⟨node, hfrom, -⟩ := TransGen.head'_iff.1 hpath
    exact honly node hfrom

end ParticlesEngine
