/-
**Which documents supersede which.**

A corpus entry may declare that its document supersedes others, or is superseded by them, by their
keys.  A key is read within the collection the document belongs to, so the graph joins pairs of a
lineage and a key, and the relation between entries is the transitive closure of the declared edges.
Nothing keeps the graph from having a cycle.  The collection is read off the URI of the entry, and a URI
that cannot be parsed raises.

Main definitions:

* `documentLineage`, `relationRows` — the collection of an entry, and what every entry declares;
* `UrisRead` — the URI of every entry that declares a relation can be parsed;
* `graphOf` — the edges, from whichever side declared them;
* `iterSupersessionEntryPairs` — the pairs of entries in the relation.

Main results:

* `exists_relationRows` — **the relations are read exactly when those URIs can be**;
* `mem_supersessionPairs` — **a pair is listed when its documents differ and a path of
  declared edges joins them**.
-/

import ParticlesEngine.Closure
import ParticlesEngine.ParticleStore
import ParticlesEngine.QueueWalk

set_option relaxedAutoImplicit false
set_option autoImplicit false

open Relation

namespace ParticlesEngine

/-- One document collection: who deposited it, as what, from where, under which root. -/
abbrev Lineage := String × String × String × String

/-- A document key inside its collection. -/
abbrev DocumentNode := Lineage × String

/-- An entry, its collection and what it declares. -/
abbrev RelationRow := String × Lineage × DocumentRelation

/-- What the supersession graph reads of its process. -/
structure DocumentEnv where
  /-- `urlparse`: the scheme with the authority, and the directory above the document's own; nothing
  where it raises `ValueError` -/
  parseUri : String → Option (String × String)
  /-- the order in which a traversal yields the nodes it finds, which a Python set leaves open -/
  visitOrder : List DocumentNode → List DocumentNode
  mem_visitOrder : ∀ nodes node, node ∈ visitOrder nodes ↔ node ∈ nodes

section Rows

variable (env : DocumentEnv)

/-- `_document_lineage`: what the engine recorded about the entry. -/
def documentLineage (row : CorpusEntryRow) : Except UriError Lineage :=
  match env.parseUri (row.uriR.getD "") with
  | none => .error .valueError
  | some (origin, root) => .ok (row.depositedBy, row.sourceType, origin, root)

/-- `from_json` of the column: a relation with no key is not one. -/
def declaredRelation (row : CorpusEntryRow) : Option DocumentRelation :=
  row.documentSupersession.filter fun rel => rel.key ≠ ""

/-- The entries that declare a relation. -/
def declaringRows (store : Store) : List (CorpusEntryRow × DocumentRelation) :=
  store.entries.rows.filterMap fun row => (declaredRelation row).map fun rel => (row, rel)

/-- The entry of a relation, with its lineage. -/
def relationRow (declared : CorpusEntryRow × DocumentRelation) : Except UriError RelationRow := do
  let lineage ← documentLineage env declared.1
  return (declared.1.entryId, lineage, declared.2)

/-- **`_relation_rows`**: every relation that an entry declares. -/
def relationRows (store : Store) : Except UriError (List RelationRow) :=
  (declaringRows store).mapM (relationRow env)

/-- The URI of every entry that declares a relation can be parsed. -/
def UrisRead (store : Store) : Prop :=
  ∀ row ∈ store.entries.rows, (declaredRelation row).isSome = true →
    (env.parseUri (row.uriR.getD "")).isSome = true

instance (store : Store) : Decidable (UrisRead env store) :=
  inferInstanceAs (Decidable (∀ row ∈ store.entries.rows, _ → _))

variable {env} {store : Store} {rows : List RelationRow}

theorem documentLineage_eq_ok {row : CorpusEntryRow} {lineage : Lineage} :
    documentLineage env row = .ok lineage ↔ ∃ origin root,
      env.parseUri (row.uriR.getD "") = some (origin, root) ∧
        (row.depositedBy, row.sourceType, origin, root) = lineage := by
  unfold documentLineage
  cases hparse : env.parseUri (row.uriR.getD "") with
  | none => simp
  | some parsed => simp [Prod.ext_iff, eq_comm, and_assoc]

theorem relationRow_eq_ok {declared : CorpusEntryRow × DocumentRelation} {row : RelationRow} :
    relationRow env declared = .ok row ↔ ∃ lineage, documentLineage env declared.1 = .ok lineage ∧
      (declared.1.entryId, lineage, declared.2) = row := by
  rw [relationRow, bind_eq_ok]
  refine exists_congr fun lineage => and_congr_right fun _ => ?_
  constructor
  · intro h
    exact Except.ok.inj h
  · rintro rfl
    rfl

theorem mem_declaringRows {declared : CorpusEntryRow × DocumentRelation} :
    declared ∈ declaringRows store ↔
      declared.1 ∈ store.entries.rows ∧ declaredRelation declared.1 = some declared.2 := by
  simp only [declaringRows, List.mem_filterMap, Option.map_eq_some_iff]
  constructor
  · rintro ⟨row, hrow, rel, hrel, rfl⟩
    exact ⟨hrow, hrel⟩
  · rintro ⟨hrow, hrel⟩
    exact ⟨declared.1, hrow, declared.2, hrel, rfl⟩

/-- **The relations are read exactly when the URIs of their entries can be parsed.** -/
theorem exists_relationRows : (∃ rows, relationRows env store = .ok rows) ↔ UrisRead env store := by
  refine exists_mapM_eq_ok.trans ?_
  constructor
  · intro hread entry hentry hrel
    obtain ⟨rel, hrel⟩ := Option.isSome_iff_exists.1 hrel
    obtain ⟨row, hrow⟩ := hread (entry, rel) (mem_declaringRows.2 ⟨hentry, hrel⟩)
    obtain ⟨lineage, hlineage, -⟩ := relationRow_eq_ok.1 hrow
    obtain ⟨origin, root, hparse, -⟩ := documentLineage_eq_ok.1 hlineage
    exact Option.isSome_iff_exists.2 ⟨_, hparse⟩
  · intro huris declared hdeclared
    obtain ⟨hentry, hrel⟩ := mem_declaringRows.1 hdeclared
    obtain ⟨⟨origin, root⟩, hparse⟩ := Option.isSome_iff_exists.1
      (huris declared.1 hentry (Option.isSome_iff_exists.2 ⟨_, hrel⟩))
    exact ⟨_, relationRow_eq_ok.2 ⟨_, documentLineage_eq_ok.2 ⟨origin, root, hparse, rfl⟩, rfl⟩⟩

/-- **What is read**: one row for each entry that declares a relation. -/
theorem mem_relationRows (h : relationRows env store = .ok rows) {row : RelationRow} :
    row ∈ rows ↔ ∃ entry ∈ store.entries.rows, entry.entryId = row.1 ∧
      documentLineage env entry = .ok row.2.1 ∧ declaredRelation entry = some row.2.2 := by
  rw [mem_of_mapM_eq_ok h]
  constructor
  · rintro ⟨declared, hdeclared, hread⟩
    obtain ⟨lineage, hlineage, rfl⟩ := relationRow_eq_ok.1 hread
    obtain ⟨hentry, hrel⟩ := mem_declaringRows.1 hdeclared
    exact ⟨declared.1, hentry, rfl, hlineage, hrel⟩
  · rintro ⟨entry, hentry, hid, hlineage, hrel⟩
    refine ⟨(entry, row.2.2), mem_declaringRows.2 ⟨hentry, hrel⟩, ?_⟩
    exact relationRow_eq_ok.2 ⟨row.2.1, hlineage, by rw [hid]⟩

/-- Every entry has one row in the list of relations. -/
theorem nodup_relationRows (h : relationRows env store = .ok rows) :
    (rows.map fun row => row.1).Nodup := by
  have hids : rows.map (fun row => row.1) =
      (declaringRows store).map fun declared => declared.1.entryId := by
    have hread := mapM_eq_ok.1 h
    clear h
    generalize declaringRows store = declared at hread ⊢
    induction hread with
    | nil => rfl
    | cons hrow _ ih =>
        obtain ⟨lineage, -, rfl⟩ := relationRow_eq_ok.1 hrow
        rw [List.map_cons, List.map_cons, ih]
  have hsub : ((declaringRows store).map fun declared => declared.1.entryId).Sublist
      (store.entries.rows.map CorpusEntryRow.entryId) := by
    rw [declaringRows, List.map_filterMap]
    generalize store.entries.rows = entries
    induction entries with
    | nil => exact List.Sublist.slnil
    | cons entry entries ih =>
        rw [List.map_cons]
        cases hrel : declaredRelation entry with
        | none =>
            simp only [List.filterMap_cons, hrel, Option.map_none]
            exact ih.cons _
        | some rel =>
            simp only [List.filterMap_cons, hrel, Option.map_some]
            exact ih.cons_cons _
  rw [hids]
  exact hsub.nodup store.entries.nodup

end Rows

section Graph

variable (env : DocumentEnv)

/-- `_graph_of`: the edges, superseding document first, merged from both directions. -/
def graphOf (rows : List RelationRow) : List (DocumentNode × DocumentNode) :=
  rows.flatMap fun row =>
    let (_, lineage, rel) := row
    rel.supersedes.map (fun superseded => ((lineage, rel.key), (lineage, superseded))) ++
      rel.supersededBy.map fun superseding => ((lineage, superseding), (lineage, rel.key))

/-- The documents that one directly supersedes. -/
def supersedesDirectly (edges : List (DocumentNode × DocumentNode)) (node : DocumentNode) :
    Finset DocumentNode :=
  ((edges.filter fun edge => edge.1 = node).map Prod.snd).toFinset

/-- The documents found from one by following the edges, the one itself left out. -/
def reachedFrom (rows : List RelationRow) (source : DocumentNode) : List DocumentNode :=
  let edges := graphOf rows
  let found := Closure.closure (supersedesDirectly edges) (edges.map Prod.snd).toFinset {source}
  env.visitOrder
    (((rows.map fun row => (row.2.1, row.2.2.key)).filter fun node =>
      node ∈ found ∧ node ≠ source).dedup)

/-- The pairs of the entries of some relations, superseding entry first. -/
def supersessionPairs (rows : List RelationRow) : List (String × String) :=
  rows.flatMap fun row =>
    (reachedFrom env rows (row.2.1, row.2.2.key)).flatMap fun node =>
      (rows.filter fun sub => (sub.2.1, sub.2.2.key) = node ∧ sub.1 ≠ row.1).map fun sub =>
        (row.1, sub.1)

/-- **`iter_supersession_entry_pairs`**: superseding entry first. -/
def iterSupersessionEntryPairs (store : Store) : Except UriError (List (String × String)) := do
  let rows ← relationRows env store
  return supersessionPairs env rows

variable {env} {rows : List RelationRow}

/-- The entry declares a relation, whose document is `node`. -/
def Declares (rows : List RelationRow) (entryId : String) (node : DocumentNode) : Prop :=
  ∃ rel, (entryId, node.1, rel) ∈ rows ∧ rel.key = node.2

/-- `b`'s document is superseded by `a`'s, by an edge that some entry declares. -/
def Supersedes (rows : List RelationRow) (a b : DocumentNode) : Prop :=
  (a, b) ∈ graphOf rows

theorem mem_supersedesDirectly {edges : List (DocumentNode × DocumentNode)}
    {a b : DocumentNode} : b ∈ supersedesDirectly edges a ↔ (a, b) ∈ edges :=
  List.mem_toFinset.trans QueueWalk.mem_successors

theorem mem_reachedFrom {source node : DocumentNode} :
    node ∈ reachedFrom env rows source ↔
      (∃ entryId, Declares rows entryId node) ∧ node ≠ source ∧
        ReflTransGen (Supersedes rows) source node := by
  have hnodes : ∀ a, supersedesDirectly (graphOf rows) a ⊆
      ((graphOf rows).map Prod.snd).toFinset := by
    intro a b hb
    rw [mem_supersedesDirectly] at hb
    exact List.mem_toFinset.2 (List.mem_map.2 ⟨_, hb, rfl⟩)
  have hfound : node ∈ Closure.closure (supersedesDirectly (graphOf rows))
      ((graphOf rows).map Prod.snd).toFinset {source} ↔
        ReflTransGen (Supersedes rows) source node := by
    rw [Closure.mem_closure hnodes]
    simp only [Finset.mem_singleton, exists_eq_left, mem_supersedesDirectly]
    rfl
  rw [reachedFrom, env.mem_visitOrder, List.mem_dedup, List.mem_filter]
  simp only [hfound, Bool.decide_and, Bool.and_eq_true, decide_eq_true_eq]
  constructor
  · rintro ⟨hnode, hreach, hne⟩
    obtain ⟨⟨entryId, lineage, rel⟩, hrow, rfl⟩ := List.mem_map.1 hnode
    exact ⟨⟨entryId, rel, hrow, rfl⟩, hne, hreach⟩
  · rintro ⟨⟨entryId, rel, hrow, hkey⟩, hne, hreach⟩
    exact ⟨List.mem_map.2 ⟨_, hrow, Prod.ext rfl hkey⟩, hreach, hne⟩

/-- **A pair is listed exactly when the two entries are distinct and declare distinct documents, the
first of which supersedes the second, transitively.** -/
theorem mem_supersessionPairs {superseding superseded : String} :
    (superseding, superseded) ∈ supersessionPairs env rows ↔
      superseding ≠ superseded ∧ ∃ a b, Declares rows superseding a ∧
        Declares rows superseded b ∧ b ≠ a ∧ ReflTransGen (Supersedes rows) a b := by
  simp only [supersessionPairs, List.mem_flatMap, List.mem_map, List.mem_filter,
    mem_reachedFrom, Prod.mk.injEq, Bool.decide_and, Bool.and_eq_true, decide_eq_true_eq]
  constructor
  · rintro ⟨row, hrow, node, ⟨-, hne, hreach⟩, sub, ⟨hsub, rfl, hother⟩, rfl, rfl⟩
    exact ⟨hother.symm, _, _, ⟨row.2.2, hrow, rfl⟩, ⟨sub.2.2, hsub, rfl⟩, hne, hreach⟩
  · rintro ⟨hother, a, b, ⟨rel, hrow, hkey⟩, ⟨rel', hsub, hkey'⟩, hne, hreach⟩
    have ha : (a.1, rel.key) = a := Prod.ext rfl hkey
    have hb : (b.1, rel'.key) = b := Prod.ext rfl hkey'
    refine ⟨_, hrow, b, ⟨⟨_, rel', hsub, hkey'⟩, ?_, ?_⟩, _, ⟨hsub, hb, hother.symm⟩, rfl, rfl⟩
    · rwa [ha]
    · rwa [ha]

end Graph

end ParticlesEngine
