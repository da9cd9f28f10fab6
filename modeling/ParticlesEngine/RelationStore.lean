/-
**The relation store.**

Typed edges between particles.  The pair of a symmetric kind is stored in one order, so that an
edge and its mirror are one row.

Main definitions:

* `endpointsForWrite` — the order in which a pair is stored;
* `createRelation`, `deleteRelation`, `getRelation` — the writes and the lookup of one edge;
* `recordObserverDivergence` — a `CONTRADICTS` edge, unless there is one.

Main results:

* `relations_createRelation` — **what a new edge leaves**.
-/

import ParticlesEngine.ParticleStore

set_option relaxedAutoImplicit false
set_option autoImplicit false

namespace ParticlesEngine

/-- `_canonical_pair`. -/
def canonicalPair (a b : String) : String × String := if a ≤ b then (a, b) else (b, a)

/-- The kinds whose pair has no order. -/
def SYMMETRIC_KINDS : List RelationType := [.CO_EVIDENTIAL, .CONTRADICTS]

/-- `_endpoints_for_write`. -/
def endpointsForWrite (a b : String) (kind : RelationType) : String × String :=
  if kind ∈ SYMMETRIC_KINDS then canonicalPair a b else (a, b)

/-- The key under which an edge of a pair is stored. -/
def relationKey (a b : String) (kind : RelationType) : String × String × RelationType :=
  ((endpointsForWrite a b kind).1, (endpointsForWrite a b kind).2, kind)

/-- `get_relation`. -/
def getRelation (store : Store) (a b : String) (kind : RelationType) :
    Option ParticleRelationRow :=
  store.relations.get? (relationKey a b kind)

/-- **`create_relation`.** -/
def createRelation (store : Store) (a b : String) (kind : RelationType)
    (createdBy : RelationCreatedBy) : Except StoreError Store := do
  require (a ≠ b) (.selfRelation a)
  let ends := endpointsForWrite a b kind
  let relations ← orRaise (store.relations.insert? ⟨ends.1, ends.2, kind, createdBy⟩) .integrity
  return { store with relations := relations }

/-- **`delete_relation`**: the store, and whether a row was deleted.  With `createdBy`, only an edge
of that provenance. -/
def deleteRelation (store : Store) (a b : String) (kind : RelationType)
    (createdBy : Option RelationCreatedBy) : Store × Bool :=
  let matched (rel : ParticleRelationRow) : Bool :=
    rel.key = relationKey a b kind ∧ ∀ tag ∈ createdBy, rel.createdBy = tag
  ({ store with relations := store.relations.filter fun rel => !matched rel },
    store.relations.rows.any matched)

/-- `record_observer_divergence`. -/
def recordObserverDivergence (store : Store) (a b : String) : Except StoreError Store :=
  if a = b then .ok store
  else
    match getRelation store a b .CONTRADICTS with
    | some _ => .ok store
    | none => createRelation store a b .CONTRADICTS .OBSERVER_DIVERGENCE

/-! ### What the writes leave -/

section Specs

variable {store store' : Store} {a b : String} {kind : RelationType}

/-- An edge that is created was missing, and joins the rows at the end. -/
theorem relations_createRelation {createdBy : RelationCreatedBy}
    (h : createRelation store a b kind createdBy = .ok store') :
    a ≠ b ∧ getRelation store a b kind = none ∧
      store'.relations.rows = store.relations.rows ++
        [⟨(relationKey a b kind).1, (relationKey a b kind).2.1, kind, createdBy⟩] ∧
      store' = { store with relations := store'.relations } := by
  simp only [createRelation, bind_eq_ok, require_eq_ok, orRaise_eq_ok] at h
  obtain ⟨-, hne, relations, hinsert, hstore⟩ := h
  obtain rfl := Except.ok.inj hstore
  obtain ⟨hnone, hrows⟩ := Table.insert?_eq_some.1 hinsert
  exact ⟨by simpa using hne, hnone, hrows, rfl⟩

/-- A divergence touches the relations alone. -/
theorem recordObserverDivergence_eq (h : recordObserverDivergence store a b = .ok store') :
    store' = { store with relations := store'.relations } := by
  unfold recordObserverDivergence at h
  split_ifs at h
  · obtain rfl := Except.ok.inj h
    rfl
  · cases hrel : getRelation store a b .CONTRADICTS with
    | some rel =>
        rw [hrel] at h
        obtain rfl := Except.ok.inj h
        rfl
    | none =>
        rw [hrel] at h
        exact (relations_createRelation h).2.2.2

end Specs

end ParticlesEngine
