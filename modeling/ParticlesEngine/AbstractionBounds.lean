/-
**The bounds of abstraction.**

A derived belief rests on its premises, and a premise may be derived in turn.  This module says what
should hold of the derived beliefs of a store, what a commit may do to them, and that the commits of
the pass and of other writers do no more, provided that the branches that go wrong are not taken.

Main definitions:

* `Bounded` — **the depth of the ACTIVE derived beliefs is bounded, no belief rests on itself, and no
  ACTIVE belief is a premise of two**;
* `Grows`, `Sound` — what a commit does to the derived beliefs, and when a new one is sound;
* `Allowed`, `Admitted` — the conditions on the commits of the pass and of other writers.

Main results:

* `BoundsInv.step` — a sound growth keeps the bounds;
* `premisesKept_applyReconcile` — a reconciliation changes no premises but of a row it folds into;
* `goodStep_promoted`, `goodStep_refreshed`, `goodStep_replaced`, `goodStep_other` — **every commit is
  a sound growth**.
-/

import ParticlesEngine.Abstraction

set_option relaxedAutoImplicit false
set_option autoImplicit false

open FirstByKey Interleave SortBy

namespace ParticlesEngine.Abstraction

/-! ### The bounds -/

/-- The premises of the derived beliefs of a store, whatever their status. -/
def AbstractionStore.ancestry (s : AbstractionStore) : Ancestry String := fun id =>
  if id ∈ s.derived then (s.store.get? id).map fun row => premiseIdsOf row.model else none

/-- **Abstraction stays bounded**: an ACTIVE derived belief has at most the maximal depth, through its
whole chain of premises, no belief rests on itself, and no ACTIVE belief is a premise of two ACTIVE
derived ones. -/
structure Bounded (maxDepth : ℕ) (s : AbstractionStore) : Prop where
  depth : ∀ id ∈ s.derived, IsActive s.store id → s.ancestry.LiesBelow (maxDepth + 1) id
  acyclic : s.ancestry.Acyclic
  sharing : ∀ x, IsActive s.store x → ∀ d d', IsActive s.store d → IsActive s.store d' →
    s.ancestry.Rests d x → s.ancestry.Rests d' x → d = d'

/-- There is a row under the id. -/
def AbstractionStore.Stored (s : AbstractionStore) (id : String) : Prop := s.store.get? id ≠ none

/-- The bounds, with what carries them from commit to commit. -/
structure BoundsInv (maxDepth : ℕ) (s : AbstractionStore) : Prop where
  stored : ∀ id ∈ s.derived, s.Stored id
  closed : ∀ id, ∀ ps ∈ s.ancestry id, ∀ p ∈ ps, s.Stored p
  depth : ∀ id, s.ancestry.LiesBelow (maxDepth + 1) id
  acyclic : s.ancestry.Acyclic
  sharing : ∀ x, IsActive s.store x → ∀ d d', IsActive s.store d → IsActive s.store d' →
    s.ancestry.Rests d x → s.ancestry.Rests d' x → d = d'

/-- What a commit does to the derived beliefs: it adds at most one, and changes the premises of
none; and it makes no stored row ACTIVE. -/
structure Grows (s s' : AbstractionStore) (born : Option (String × List String)) : Prop where
  keeps : ∀ id, s.Stored id → s'.Stored id
  derived : ∀ id ∈ s'.derived, s'.Stored id
  ancestry : ∀ id, s.Stored id → s'.ancestry id = s.ancestry id
  fresh : ∀ id ps, ¬ s.Stored id → s'.ancestry id = some ps → born = some (id, ps)
  active : ∀ id, s.Stored id → IsActive s'.store id → IsActive s.store id

/-- A new derived belief is sound: its premises are stored, they lie below the cap, and those that are
ACTIVE are premises of no other. -/
structure Sound (maxDepth : ℕ) (s s' : AbstractionStore) (id : String) (ps : List String) : Prop where
  stored : ∀ p ∈ ps, s.Stored p
  depth : ∀ p ∈ ps, s.ancestry.LiesBelow maxDepth p
  unshared : ∀ p ∈ ps, IsActive s'.store p → ∀ d, d ≠ id → IsActive s'.store d →
    ¬ s'.ancestry.Rests d p

/-- A commit adds at most one derived belief, and a sound one. -/
def GoodStep (maxDepth : ℕ) (s s' : AbstractionStore) : Prop :=
  ∃ born, Grows s s' born ∧ ∀ b ∈ born, Sound maxDepth s s' b.1 b.2

section Bounds

variable {maxDepth : ℕ} {s s' : AbstractionStore} {id : String}

theorem IsActive.stored (h : IsActive s.store id) : s.Stored id := by
  obtain ⟨row, hrow, -⟩ := h
  simp [AbstractionStore.Stored, hrow]

theorem mem_derived_of_ancestry {ps : List String} (h : s.ancestry id = some ps) :
    id ∈ s.derived ∧ s.Stored id := by
  unfold AbstractionStore.ancestry at h
  split_ifs at h with hmem
  obtain ⟨row, hrow, -⟩ := Option.map_eq_some_iff.1 h
  exact ⟨hmem, by simp [AbstractionStore.Stored, hrow]⟩

theorem BoundsInv.bounded (h : BoundsInv maxDepth s) : Bounded maxDepth s :=
  ⟨fun id _ _ => h.depth id, h.acyclic, h.sharing⟩

/-- A store with no derived beliefs is within the bounds. -/
theorem BoundsInv.of_no_derived (h : s.derived = []) : BoundsInv maxDepth s := by
  have hleaf : ∀ id, s.ancestry id = none := fun id => by
    simp [AbstractionStore.ancestry, h]
  have hrests : ∀ a b, ¬ s.ancestry.Rests a b := by
    rintro a b ⟨ps, hps, -⟩
    rw [hleaf] at hps
    cases hps
  refine ⟨by simp [h], ?_, fun id => Ancestry.liesBelow_of_leaf (hleaf id), ?_, ?_⟩
  · intro id ps hps
    rw [hleaf] at hps
    cases hps
  · intro a hcycle
    obtain ⟨b, hab, -⟩ := Relation.TransGen.head'_iff.1 hcycle
    exact hrests a b hab
  · exact fun x _ d d' _ _ hd _ => absurd hd (hrests d x)

/-- **A sound growth keeps the bounds.** -/
theorem BoundsInv.step (h : BoundsInv maxDepth s) (hstep : GoodStep maxDepth s s') :
    BoundsInv maxDepth s' := by
  obtain ⟨born, hgrows, hsound⟩ := hstep
  -- what is new rests on what was stored
  have hnew : ∀ id ps, ¬ s.Stored id → s'.ancestry id = some ps → Sound maxDepth s s' id ps :=
    fun id ps hid hps => hsound (id, ps) (hgrows.fresh id ps hid hps)
  have hclosed : ∀ id, s.Stored id → ∀ ps ∈ s.ancestry id, ∀ p ∈ ps, s.Stored p :=
    fun id _ => h.closed id
  have hold : ∀ {n : ℕ} {p : String}, s.Stored p →
      (s'.ancestry.LiesBelow n p ↔ s.ancestry.LiesBelow n p) := fun hp =>
    Ancestry.liesBelow_congr hclosed hgrows.ancestry hp
  refine ⟨hgrows.derived, ?_, ?_, ?_, ?_⟩
  · intro id ps hps p hp
    refine hgrows.keeps p ?_
    by_cases hid : s.Stored id
    · rw [hgrows.ancestry id hid] at hps
      exact h.closed id ps hps p hp
    · exact (hnew id ps hid hps).stored p hp
  · intro id
    by_cases hid : s.Stored id
    · exact (hold hid).2 (h.depth id)
    · intro ps hps p hp
      have hs := hnew id ps hid hps
      exact (hold (hs.stored p hp)).2 (hs.depth p hp)
  · exact Ancestry.Acyclic.extend hclosed hgrows.ancestry
      (fun id hid ps hps => (hnew id ps hid hps).stored) h.acyclic
  · intro x hx d d' hd hd' hdx hdx'
    -- a new belief is sound, and the old ones shared nothing
    by_cases hds : s.Stored d
    · by_cases hds' : s.Stored d'
      · have hrests : ∀ {e : String}, s.Stored e → s'.ancestry.Rests e x → s.ancestry.Rests e x := by
          rintro e he ⟨ps, hps, hmem⟩
          exact ⟨ps, (hgrows.ancestry e he) ▸ hps, hmem⟩
        have hxs : s.Stored x := by
          obtain ⟨ps, hps, hmem⟩ := hrests hds hdx
          exact h.closed d ps hps x hmem
        exact h.sharing x (hgrows.active x hxs hx) d d' (hgrows.active d hds hd)
          (hgrows.active d' hds' hd') (hrests hds hdx) (hrests hds' hdx')
      · obtain ⟨ps, hps, hmem⟩ := hdx'
        by_contra hne
        exact (hnew d' ps hds' hps).unshared x hmem hx d hne hd hdx
    · obtain ⟨ps, hps, hmem⟩ := hdx
      by_contra hne
      exact (hnew d ps hds hps).unshared x hmem hx d' (Ne.symm hne) hd' hdx'

/-- What is stored stays, and keeps its premises. -/
def Evolves (s s' : AbstractionStore) : Prop :=
  ∀ id, s.Stored id → s'.Stored id ∧ s'.ancestry id = s.ancestry id

theorem Evolves.refl (s : AbstractionStore) : Evolves s s := fun _ h => ⟨h, rfl⟩

theorem Evolves.trans {s'' : AbstractionStore} (h : Evolves s s') (h' : Evolves s' s'') :
    Evolves s s'' := fun id hid =>
  ⟨(h' id (h id hid).1).1, (h' id (h id hid).1).2.trans (h id hid).2⟩

theorem GoodStep.evolves (h : GoodStep maxDepth s s') : Evolves s s' := by
  obtain ⟨born, hgrows, -⟩ := h
  exact fun id hid => ⟨hgrows.keeps id hid, hgrows.ancestry id hid⟩

theorem Evolves.ancestry_eq_some (h : Evolves s s') {ps : List String}
    (hps : s.ancestry id = some ps) : s'.ancestry id = some ps := by
  rw [(h id (mem_derived_of_ancestry hps).2).2, hps]

end Bounds

/-! ### Rows -/

/-- The stored rows stay, none of them becomes ACTIVE, and their premises are what they were, save
those of a row that a claim is folded into. -/
def RowsKept (folds : Option String) (store store' : Store) : Prop :=
  ∀ id row, store.get? id = some row → ∃ row', store'.get? id = some row' ∧
    (row'.model.status = .ACTIVE → row.model.status = .ACTIVE) ∧
    (folds ≠ some id → premiseIdsOf row'.model = premiseIdsOf row.model)

section Rows

variable {store store' store'' : Store} {folds : Option String}

theorem RowsKept.refl (store : Store) : RowsKept none store store :=
  fun _ row hrow => ⟨row, hrow, id, fun _ => rfl⟩

theorem RowsKept.trans (h : RowsKept none store store') (h' : RowsKept folds store' store'') :
    RowsKept folds store store'' := by
  intro id row hrow
  obtain ⟨row', hrow', hactive, hsame⟩ := h id row hrow
  obtain ⟨row'', hrow'', hactive', hsame'⟩ := h' id row' hrow'
  exact ⟨row'', hrow'', fun ha => hactive (hactive' ha),
    fun hne => (hsame' hne).trans (hsame (by simp))⟩

/-- A status write to anything but ACTIVE. -/
theorem RowsKept.of_status {table : TransitionTable} {now : Instant} {id : String} {status : Status}
    {reason : Option StatusReason} (hstatus : status ≠ .ACTIVE)
    (h : updateParticleStatus table now store id status reason = .ok store') :
    RowsKept none store store' := by
  obtain ⟨row₀, hrow₀, -, hget⟩ := get?_updateParticleStatus h
  intro k row hrow
  rw [hget]
  split_ifs with hk
  · subst hk
    obtain rfl := Option.some.inj (hrow₀.symm.trans hrow)
    exact ⟨_, rfl, fun hactive => absurd hactive hstatus, fun _ => rfl⟩
  · exact ⟨row, hrow, fun ha => ha, fun _ => rfl⟩

theorem RowsKept.of_insert {contentHash : String → String} {modelId : String} {p : Particle}
    {embedding : Option EmbeddingJson}
    (h : insertParticle contentHash modelId store p embedding = .ok store') :
    RowsKept none store store' := by
  intro k row hrow
  exact ⟨row, (get?_insertParticle_of_some h hrow).2, id, fun _ => rfl⟩

theorem RowsKept.of_copyEmbedding {sourceId targetId : String}
    (h : copyParticleEmbedding store sourceId targetId = .ok store') :
    RowsKept none store store' := by
  simp only [copyParticleEmbedding, bind_eq_ok, orRaise_eq_ok] at h
  obtain ⟨source, -, target, -, h⟩ := h
  split_ifs at h with hnone
  · obtain rfl := Except.ok.inj h
    exact RowsKept.refl store
  · obtain rfl := Except.ok.inj h
    intro k row hrow
    have hget := Store.get?_modifyParticle store targetId (fun row =>
      { row with
        embeddingJson := source.embeddingJson
        embeddingModelId := source.embeddingModelId }) (fun _ => rfl) (fun _ => rfl) k
    rw [hrow] at hget
    split_ifs at hget
    · exact ⟨_, hget, fun hactive => hactive, fun _ => rfl⟩
    · exact ⟨row, hget, fun ha => ha, fun _ => rfl⟩

theorem RowsKept.of_append (target : String) (refs : List ProvenanceRef) :
    RowsKept (some target) store (appendProvenanceRefs store target refs) := by
  have hstatus : ∀ (refs : List ProvenanceRef) (row : ParticleRow),
      (refs.foldl ParticleRow.noteRef row).model.status = row.model.status := by
    intro refs
    induction refs with
    | nil => exact fun _ => rfl
    | cons ref refs ih =>
        intro row
        rw [List.foldl_cons, ih]
        unfold ParticleRow.noteRef
        split_ifs <;> rfl
  intro k row hrow
  rw [get?_appendProvenanceRefs, hrow]
  split_ifs with hk
  · exact ⟨_, rfl, fun hactive => (hstatus refs row) ▸ hactive, fun hne => absurd (congrArg some hk) hne⟩
  · exact ⟨row, rfl, fun ha => ha, fun _ => rfl⟩

theorem RowsKept.of_plan {now : Instant} {plan : ConflictWritePlan}
    (h : PlanApplied now plan store store') : RowsKept none store store' := by
  intro id row hrow
  rcases h.kept_or_demoted hrow with hrow' | ⟨d, -, -, hrow'⟩
  · exact ⟨row, hrow', fun ha => ha, fun _ => rfl⟩
  · exact ⟨_, hrow', fun hactive => (by cases hactive), fun _ => rfl⟩

end Rows

/-! ### Reconciliation -/

section Reconciliation

variable {env : ReconcileEnv} {db : Database} {p : Particle} {gathered : ReconcileGather}
  {answers : ReconcileAnswers} {caller : PlanCaller} {written : PlanWritten}

/-- The stored row that the cheap rungs fold a claim into: a live twin, or an open hold. -/
def foldedInto (env : ReconcileEnv) (store : Store) (p : Particle) : Option String :=
  match routeCheapRungs env.ingest.core env.ingest.cfg store p [] with
  | (.SUPPRESS, some twin) => some twin.id
  | (.RETIRED_TWIN, some twin) => if twin.isPendingHold then some twin.id else none
  | _ => none

/-- What the ladder inserts is the incoming claim, with its provenance. -/
theorem insert_planConflictWrites {records : RecordBuilder} {recordId : String}
    {outcome : LadderOutcome} {new existing q : Particle} {trigger : TriggerRef}
    (hq : q ∈ (planConflictWrites records recordId outcome new existing trigger).insert) :
    q.id = new.id ∧ premiseIdsOf q = premiseIdsOf new := by
  unfold planConflictWrites at hq
  split at hq <;> cases hq <;> exact ⟨rfl, rfl⟩

/-- A reconciliation stores the claim under its id with its own premises, and changes the premises of
no row but the one that it folds the claim into. -/
structure PremisesKept (store : Store) (p : Particle) (folds : Option String) (store' : Store) :
    Prop where
  rows : RowsKept folds store store'
  own : ∀ row, store.get? p.id = none → store'.get? p.id = some row →
    premiseIdsOf row.model = premiseIdsOf p

theorem premisesKept_insertCandidate {store : Store} {embedding : Option Embedding} {batched : Bool}
    (h : insertCandidate env store p embedding caller batched = .ok written) :
    PremisesKept store p none written.store := by
  simp only [insertCandidate, insertValidated, bind_eq_ok] at h
  obtain ⟨store', ⟨-, -, hinsert⟩, hwritten⟩ := h
  obtain rfl := Except.ok.inj hwritten
  refine ⟨RowsKept.of_insert hinsert, fun row _ hrow => ?_⟩
  obtain ⟨-, -, row₀, hmodel, -, -, -, hget⟩ := get?_insertParticle hinsert
  rw [hget, if_pos rfl] at hrow
  obtain rfl := Option.some.inj hrow
  rw [hmodel]

theorem premisesKept_plan {now : Instant} {plan : ConflictWritePlan} {store store' : Store}
    (hplan : ∀ q ∈ plan.insert, q.id = p.id ∧ premiseIdsOf q = premiseIdsOf p)
    (hnone : plan.insert = none → plan.wrapper = none) (h : PlanApplied now plan store store') :
    PremisesKept store p none store' := by
  refine ⟨RowsKept.of_plan h, fun row hfresh hrow => ?_⟩
  cases hinsert : plan.insert with
  | some q =>
      obtain ⟨hid, hprem⟩ := hplan q hinsert
      obtain ⟨row₀, hmodel, -, hstands, hdemoted⟩ := h.inserted q hinsert
      rw [hid] at hstands hdemoted
      by_cases hdemote : ∃ d ∈ plan.demote, d.1 = p.id
      · obtain ⟨d, hd, hdp⟩ := hdemote
        have hstored := hdemoted d hd hdp
        rw [hrow] at hstored
        obtain rfl := Option.some.inj hstored
        rw [← hprem, ← hmodel]
        rfl
      · have hstored := hstands fun d hd hdp => hdemote ⟨d, hd, hdp⟩
        rw [hrow] at hstored
        obtain rfl := Option.some.inj hstored
        rw [hmodel, hprem]
  | none =>
      -- nothing is stored under a new id
      have hsame := h.other p.id (by simp [hinsert])
        (fun d hd hid => by
          obtain ⟨row', hrow', -⟩ := h.demoted d hd (by simp [hinsert])
          rw [hid, hfresh] at hrow'
          cases hrow')
        (by simp [hnone hinsert])
      rw [hrow, hfresh] at hsame
      cases hsame

/-- **What a reconciliation does to premises.** -/
theorem premisesKept_applyReconcile
    (h : applyReconcile env db p gathered answers caller = .ok written) :
    PremisesKept db.store p (foldedInto env db.store p) written.store := by
  have hfold : ∀ (target : String) (refs : List ProvenanceRef), db.store.get? p.id = none →
      (appendProvenanceRefs db.store target refs).get? p.id = none := by
    intro target refs hfresh
    rw [get?_appendProvenanceRefs, hfresh]
    simp
  unfold applyReconcile at h
  unfold foldedInto
  split at h
  · next hroute =>
      rw [hroute]
      exact premisesKept_insertCandidate h
  · next target hroute =>
      rw [hroute]
      obtain rfl := Except.ok.inj h
      refine ⟨RowsKept.of_append target.id p.provenance, fun row hfresh hrow => ?_⟩
      rw [hfold target.id p.provenance hfresh] at hrow
      cases hrow
  · next twin hroute =>
      rw [hroute]
      simp only [bind_eq_ok] at h
      obtain ⟨held, hheld, hwritten⟩ := h
      obtain rfl := Except.ok.inj hwritten
      rcases holdRetiredReassertion_eq_ok hheld with ⟨hpending, rfl⟩ | ⟨hpending, store', happly, rfl⟩
      · simp only [hpending, if_true]
        refine ⟨RowsKept.of_append twin.id p.provenance, fun row hfresh hrow => ?_⟩
        rw [hfold twin.id p.provenance hfresh] at hrow
        cases hrow
      · simp only [hpending]
        refine premisesKept_plan ?_ (fun hinsert => by cases hinsert) (get?_applyConflictPlan happly)
        rintro q hq
        cases hq
        exact ⟨rfl, rfl⟩
  · next hroute =>
      rw [hroute]
      split at h
      · exact premisesKept_insertCandidate h
      · next target htarget =>
          simp only [applyPlan, bind_eq_ok] at h
          obtain ⟨store', happly, hwritten⟩ := h
          obtain rfl := Except.ok.inj hwritten
          have happlied := get?_applyConflictPlan happly
          refine premisesKept_plan (fun q hq => insert_planConflictWrites hq) ?_
            ⟨happlied.fresh, happlied.inserted, happlied.demoted, happlied.recorded,
              happlied.other⟩
          intro hinsert
          cases planShape_planConflictWrites env.records answers.recordId (answers.outcome target) p
            target (triggerRefFor p) with
          | drop _ _ hwrapper => exact hwrapper
          | stand h | replace _ _ _ _ _ _ _ h | mirror _ _ _ h | hold _ _ _ h =>
              rw [hinsert] at h
              cases h
  · cases h

end Reconciliation

/-! ### The conditions on a commit -/

instance (G : Ancestry String) (a b : String) : Decidable (G.Rests a b) :=
  decidable_of_iff (∃ ps ∈ G a, b ∈ ps) Iff.rfl

/-- If the belief is ACTIVE, it is a premise of no ACTIVE derived belief among some. -/
def Unshared (s : AbstractionStore) (among : String → Prop) (m : String) : Prop :=
  IsActive s.store m → ∀ d ∈ s.derived, among d → IsActive s.store d → ¬ s.ancestry.Rests d m

/-- The belief is a premise of the ACTIVE belief that is replaced. -/
def KeptBy (s : AbstractionStore) (d m : String) : Prop :=
  IsActive s.store d ∧ s.ancestry.Rests d m

/-- A premise that took the place of another: it lies below the cap, and no other ACTIVE derived belief
rests on it. -/
def Repointed (maxDepth : ℕ) (s : AbstractionStore) (d m : String) : Prop :=
  s.ancestry.LiesBelow maxDepth m ∧ Unshared s (· ≠ d) m

/-- A belief is not folded into a derived one. -/
def Unfolded (env : AbstractionEnv) (derived : List String) (store : Store) (p : Particle) : Prop :=
  ∀ twin ∈ foldedInto env.reconcile store p, twin ∉ derived

/-- **The branches that go wrong are not taken.**  When a belief is promoted, no derived belief under
one of its premises has left ACTIVE, or was missed when the clusters were formed, unless the premise
lies below the cap all the same, and no derived belief stored since then rests on one of its ACTIVE
premises.  When a belief is refreshed or replaced, the premises that took the place of others lie below
the cap, and no other ACTIVE derived belief rests on them.  And no belief is folded into a derived one.
-/
def Allowed (env : AbstractionEnv) (s : AbstractionStore) : AbstractionWrite → Prop
  | .promoted p population =>
      (∀ m ∈ premiseIdsOf p,
        (s.ancestry.InForce (fun d => IsActive s.store d ∧ d ∈ population) env.maxDepth m ∨
          s.ancestry.LiesBelow env.maxDepth m) ∧ Unshared s (· ∉ population) m) ∧
        Unfolded env s.derived s.store p
  | .refreshed d p => ∀ m ∈ premiseIdsOf p, KeptBy s d m ∨ Repointed env.maxDepth s d m
  | .replaced d p =>
      (∀ m ∈ premiseIdsOf p, KeptBy s d m ∨ Repointed env.maxDepth s d m) ∧
        Unfolded env s.derived
          (s.store.setStatus s.clock d .SUPERSEDED (some .EXPLICIT_SUPERSESSION)) p
  | .retired _ => True
  | .proposed _ _ => True
  | .unchanged => True

/-- Another writer who copies a derived belief that is not ACTIVE, such as a held one, brings back no
premise that is in use. -/
def Admitted (s : AbstractionStore) : OtherClaim → Prop
  | .supersede id _ _ _ copies =>
      copies = true → IsActive s.store id ∨ ∀ ps ∈ s.ancestry id, ∀ m ∈ ps, Unshared s (· ≠ id) m
  | .retire _ _ _ => True
  | .assert _ _ => True
  | .clock _ => True

section Decidability

variable (env : AbstractionEnv) (s : AbstractionStore)

instance (among : String → Prop) [DecidablePred among] (m : String) :
    Decidable (Unshared s among m) := by
  unfold Unshared
  infer_instance

instance (d m : String) : Decidable (KeptBy s d m) := by
  unfold KeptBy
  infer_instance

instance (maxDepth : ℕ) (d m : String) : Decidable (Repointed maxDepth s d m) := by
  unfold Repointed
  infer_instance

instance (derived : List String) (store : Store) (p : Particle) :
    Decidable (Unfolded env derived store p) := by
  unfold Unfolded
  infer_instance

instance : DecidablePred (Allowed env s)
  | .promoted p population =>
      inferInstanceAs (Decidable ((∀ m ∈ premiseIdsOf p,
        (s.ancestry.InForce (fun d => IsActive s.store d ∧ d ∈ population) env.maxDepth m ∨
          s.ancestry.LiesBelow env.maxDepth m) ∧ Unshared s (· ∉ population) m) ∧
        Unfolded env s.derived s.store p))
  | .refreshed d p =>
      inferInstanceAs (Decidable (∀ m ∈ premiseIdsOf p, KeptBy s d m ∨ Repointed env.maxDepth s d m))
  | .replaced d p =>
      inferInstanceAs (Decidable ((∀ m ∈ premiseIdsOf p,
        KeptBy s d m ∨ Repointed env.maxDepth s d m) ∧ Unfolded env s.derived
          (s.store.setStatus s.clock d .SUPERSEDED (some .EXPLICIT_SUPERSESSION)) p))
  | .retired _ => isTrue trivial
  | .proposed _ _ => isTrue trivial
  | .unchanged => isTrue trivial

instance : DecidablePred (Admitted s)
  | .supersede id _ _ _ copies =>
      inferInstanceAs (Decidable (copies = true → IsActive s.store id ∨
        ∀ ps ∈ s.ancestry id, ∀ m ∈ ps, Unshared s (· ≠ id) m))
  | .retire _ _ _ => isTrue trivial
  | .assert _ _ => isTrue trivial
  | .clock _ => isTrue trivial

end Decidability

/-- What a cluster's members were when the clusters were formed over a population, and are still. -/
structure Formed (maxDepth : ℕ) (s : AbstractionStore) (population : List Particle)
    (ms : List String) : Prop where
  read : ∀ d ∈ population, s.ancestry d.id = some (premiseIdsOf d)
  stored : ∀ m ∈ ms, s.Stored m
  cap : ∀ m ∈ ms, 0 < maxDepth
  unused : ∀ m ∈ ms, ∀ d ∈ population, m ∉ premiseIdsOf d
  depth : ∀ m ∈ ms, m ∈ population.map Particle.id →
    (ancestryAmong population).LiesBelow maxDepth m

/-! ### The growth of a commit -/

section Steps

variable {env : AbstractionEnv} {maxDepth : ℕ} {s s' : AbstractionStore}

/-- A commit that keeps the rows grows the derived beliefs by those it adds to the column. -/
theorem grows_of_rows {folds : Option String} {born : Option (String × List String)}
    (hinv : BoundsInv maxDepth s) (hrows : RowsKept folds s.store s'.store)
    (hfolds : ∀ twin ∈ folds, twin ∉ s.derived) (hsub : ∀ id ∈ s.derived, id ∈ s'.derived)
    (hnew : ∀ id ∈ s'.derived, id ∈ s.derived ∨ (s.store.get? id = none ∧
      ∃ row, s'.store.get? id = some row ∧ born = some (id, premiseIdsOf row.model))) :
    Grows s s' born := by
  have hrow : ∀ {id}, s.Stored id → ∃ row, s.store.get? id = some row := fun hid =>
    Option.ne_none_iff_exists'.1 hid
  have hkeeps : ∀ id, s.Stored id → s'.Stored id := by
    intro id hid
    obtain ⟨row, hget⟩ := hrow hid
    obtain ⟨row', hget', -⟩ := hrows id row hget
    simp [AbstractionStore.Stored, hget']
  refine ⟨hkeeps, ?_, ?_, ?_, ?_⟩
  · intro id hid
    rcases hnew id hid with hold | ⟨-, row, hget, -⟩
    · exact hkeeps id (hinv.stored id hold)
    · simp [AbstractionStore.Stored, hget]
  · intro id hid
    obtain ⟨row, hget⟩ := hrow hid
    obtain ⟨row', hget', -, hsame⟩ := hrows id row hget
    unfold AbstractionStore.ancestry
    by_cases hmem : id ∈ s.derived
    · rw [if_pos hmem, if_pos (hsub id hmem), hget, hget', Option.map_some, Option.map_some,
        hsame fun hfold => hfolds id hfold hmem]
    · have hmem' : id ∉ s'.derived := by
        intro hmem'
        rcases hnew id hmem' with hold | ⟨hnone, -⟩
        · exact hmem hold
        · exact hid hnone
      rw [if_neg hmem, if_neg hmem']
  · intro id ps hid hps
    unfold AbstractionStore.ancestry at hps
    split_ifs at hps with hmem
    rcases hnew id hmem with hold | ⟨-, row, hget, hborn⟩
    · exact absurd (hinv.stored id hold) hid
    · rw [hget, Option.map_some] at hps
      rw [hborn, Option.some.inj hps]
  · rintro id hid ⟨row', hget', hactive⟩
    obtain ⟨row, hget⟩ := hrow hid
    obtain ⟨row'', hget'', hstays, -⟩ := hrows id row hget
    obtain rfl := Option.some.inj (hget'.symm.trans hget'')
    exact ⟨row, hget, hstays hactive⟩

/-- A commit with no new derived belief. -/
theorem goodStep_of_rows (hinv : BoundsInv maxDepth s) (hrows : RowsKept none s.store s'.store)
    (hderived : s'.derived = s.derived) : GoodStep maxDepth s s' := by
  refine ⟨none, grows_of_rows hinv hrows (by simp) (fun id hid => hderived ▸ hid)
    fun id hid => .inl (hderived ▸ hid), ?_⟩
  rintro b ⟨⟩

/-- A commit that stores a derived belief, or not. -/
theorem goodStep_withDerived {store' : Store} {folds : Option String} {id : String}
    {ps : List String} (hinv : BoundsInv maxDepth s) (hrows : RowsKept folds s.store store')
    (hfolds : ∀ twin ∈ folds, twin ∉ s.derived)
    (hown : ∀ row, s.store.get? id = none → store'.get? id = some row →
      premiseIdsOf row.model = ps)
    (hstored : ∀ m ∈ ps, s.Stored m) (hdepth : ∀ m ∈ ps, s.ancestry.LiesBelow maxDepth m)
    (hunshared : ∀ m ∈ ps, Unshared s (fun d => d ≠ id ∧ IsActive store' d) m) :
    GoodStep maxDepth s (s.withDerived store' id) := by
  have hgrows : Grows s (s.withDerived store' id) (some (id, ps)) := by
    refine grows_of_rows hinv hrows hfolds ?_ ?_
    · intro k hk
      simp only [AbstractionStore.withDerived]
      split_ifs
      · exact List.mem_cons_of_mem _ hk
      · exact hk
    · intro k hk
      simp only [AbstractionStore.withDerived] at hk
      split_ifs at hk with hfresh
      · rcases List.mem_cons.1 hk with rfl | hk
        · obtain ⟨row, hrow⟩ := Option.ne_none_iff_exists'.1 hfresh.2
          exact .inr ⟨hfresh.1, row, hrow, by rw [hown row hfresh.1 hrow]⟩
        · exact .inl hk
      · exact .inl hk
  refine ⟨_, hgrows, ?_⟩
  rintro b ⟨⟩
  refine ⟨hstored, hdepth, fun m hm hactive d hne hd hrests => ?_⟩
  obtain ⟨qs, hqs, hmem⟩ := hrests
  -- the other belief was stored, and rested on the premise before
  have hds : s.Stored d := by
    by_contra hds
    cases hgrows.fresh d qs hds hqs
    exact hne rfl
  rw [hgrows.ancestry d hds] at hqs
  exact hunshared m hm (hgrows.active m (hstored m hm) hactive) d (mem_derived_of_ancestry hqs).1
    ⟨hne, hd⟩ (hgrows.active d hds hd) ⟨qs, hqs, hmem⟩

/-- What a belief that is replaced rests on, or what took the place of that, is fit for its successor.
-/
theorem fit_of_keptBy_or_repointed {store' : Store} {d m : String} (id : String)
    (hinv : BoundsInv maxDepth s) (h : KeptBy s d m ∨ Repointed maxDepth s d m)
    (hretired : ¬ IsActive store' d) :
    s.ancestry.LiesBelow maxDepth m ∧ Unshared s (fun e => e ≠ id ∧ IsActive store' e) m := by
  rcases h with ⟨hactive, hrests⟩ | ⟨hdepth, hunshared⟩
  · obtain ⟨ps, hps, hmem⟩ := hrests
    refine ⟨hinv.depth d ps hps m hmem, fun hm e _ he hea herests => ?_⟩
    have heq := hinv.sharing m hm e d hea hactive herests ⟨ps, hps, hmem⟩
    exact hretired (heq ▸ he.2)
  · refine ⟨hdepth, fun hm e hmem he => hunshared hm e hmem ?_⟩
    rintro rfl
    exact hretired he.2

/-- A row that a status write has retired, and what follows it keeps, is not ACTIVE. -/
theorem not_isActive_of_retired {table : TransitionTable} {now : Instant} {store store₁ store₂ : Store}
    {folds : Option String} {id : String} {status : Status} {reason : Option StatusReason}
    (hstatus : status ≠ .ACTIVE)
    (h : updateParticleStatus table now store id status reason = .ok store₁)
    (hrows : RowsKept folds store₁ store₂) : ¬ IsActive store₂ id := by
  rintro ⟨row₂, hrow₂, hactive⟩
  obtain ⟨row₀, -, -, hget⟩ := get?_updateParticleStatus h
  have hrow₁ := hget id
  rw [if_pos rfl] at hrow₁
  obtain ⟨row, hrow, hstays, -⟩ := hrows id _ hrow₁
  obtain rfl := Option.some.inj (hrow₂.symm.trans hrow)
  exact hstatus (hstays hactive)

end Steps

/-! ### The commits -/

section Commits

variable {env : AbstractionEnv} {s s' : AbstractionStore} {w : AbstractionWrite}

theorem ancestryAmong_eq_some {population : List Particle} {id : String} {ps : List String}
    (hread : ∀ d ∈ population, s.ancestry d.id = some (premiseIdsOf d))
    (hid : id ∈ population.map Particle.id) (hps : s.ancestry id = some ps) :
    ancestryAmong population id = some ps := by
  unfold ancestryAmong
  cases hfind : population.find? fun p => p.id = id with
  | none =>
      obtain ⟨d, hd, rfl⟩ := List.mem_map.1 hid
      have := List.find?_eq_none.1 hfind d hd
      simp at this
  | some d =>
      have hd := List.mem_of_find?_eq_some hfind
      have hdid : d.id = id := by simpa using List.find?_some hfind
      have hread' := hread d hd
      rw [hdid, hps] at hread'
      rw [Option.map_some, Option.some.inj hread']

/-- **A promotion is sound.** -/
theorem goodStep_promoted {p : Particle} {population : List Particle} {draw : AbstractionReply}
    (hinv : BoundsInv env.maxDepth s) (hformed : Formed env.maxDepth s population (premiseIdsOf p))
    (h : promoteBelief env p (population.map Particle.id) draw s = .ok (w, s'))
    (hallowed : Allowed env s w) : GoodStep env.maxDepth s s' := by
  simp only [promoteBelief, reconcileAndInsert, bind_eq_ok] at h
  obtain ⟨after, ⟨written, hreconcile, hafter⟩, hpair⟩ := h
  obtain ⟨rfl, rfl⟩ := Prod.mk.inj (Except.ok.inj hpair)
  obtain rfl := Except.ok.inj hafter
  obtain ⟨hpremises, hunfolded⟩ := hallowed
  have hkept := premisesKept_applyReconcile hreconcile
  refine goodStep_withDerived hinv hkept.rows hunfolded hkept.own hformed.stored ?_ ?_
  · intro m hm
    rcases (hpremises m hm).1 with hforce | hbelow
    · -- the chain is in force, so the depth that was read is the depth
      obtain ⟨n, hn⟩ : ∃ n, env.maxDepth = n + 1 :=
        ⟨env.maxDepth - 1, by have := hformed.cap m hm; omega⟩
      cases hleaf : s.ancestry m with
      | none => exact hn ▸ Ancestry.liesBelow_of_leaf hleaf
      | some ps =>
          have hlive : m ∈ population.map Particle.id := by
            rw [hn] at hforce
            exact (hforce ps hleaf).1.2
          exact Ancestry.LiesBelow.of_inForce
            (fun a ps ha hps => ancestryAmong_eq_some hformed.read ha.2 hps)
            (hformed.depth m hm hlive) hforce
    · exact hbelow
  · intro m hm hactive d hd _ hda hrests
    by_cases hpop : d ∈ population.map Particle.id
    · -- a belief that was read did not rest on the premise
      obtain ⟨q, hq, rfl⟩ := List.mem_map.1 hpop
      obtain ⟨ps, hps, hmem⟩ := hrests
      rw [hformed.read q hq] at hps
      obtain rfl := Option.some.inj hps
      exact hformed.unused m hm q hq hmem
    · exact (hpremises m hm).2 hactive d hd hpop hda hrests

/-- **A refresh is sound.** -/
theorem goodStep_refreshed {d successor : Particle} (hinv : BoundsInv env.maxDepth s)
    (hstored : ∀ m ∈ premiseIdsOf successor, s.Stored m)
    (h : refreshBelief env d successor s = .ok (w, s')) (hallowed : Allowed env s w) :
    GoodStep env.maxDepth s s' := by
  unfold refreshBelief at h
  split_ifs at h with hactive
  · simp only [bind_eq_ok] at h
    obtain ⟨store₁, hstatus, store₂, hinsert, store₃, hcopy, hpair⟩ := h
    obtain ⟨rfl, rfl⟩ := Prod.mk.inj (Except.ok.inj hpair)
    have hrows₁ : RowsKept none s.store store₁ := RowsKept.of_status (by simp) hstatus
    have hrows₂ : RowsKept none store₁ store₃ :=
      (RowsKept.of_insert hinsert).trans (RowsKept.of_copyEmbedding hcopy)
    have hretired := not_isActive_of_retired (by simp) hstatus hrows₂
    have hfit := fun m hm => fit_of_keptBy_or_repointed successor.id hinv (hallowed m hm)
      hretired
    refine goodStep_withDerived hinv (hrows₁.trans hrows₂) (by simp) ?_ hstored
      (fun m hm => (hfit m hm).1) fun m hm => (hfit m hm).2
    intro row _ hrow
    obtain ⟨-, -, row₀, hmodel, -, -, -, hget⟩ := get?_insertParticle hinsert
    have hrow₂ := hget successor.id
    rw [if_pos rfl] at hrow₂
    obtain ⟨row', hrow', -, hsame⟩ := RowsKept.of_copyEmbedding hcopy _ _ hrow₂
    obtain rfl := Option.some.inj (hrow.symm.trans hrow')
    rw [hsame (by simp), hmodel]
  · obtain ⟨rfl, rfl⟩ := Prod.mk.inj (Except.ok.inj h)
    exact goodStep_of_rows hinv (RowsKept.refl s.store) rfl

/-- **A replacement is sound.** -/
theorem goodStep_replaced {d successor : Particle} {draw : AbstractionReply}
    (hinv : BoundsInv env.maxDepth s) (hstored : ∀ m ∈ premiseIdsOf successor, s.Stored m)
    (h : replaceBelief env d successor draw s = .ok (w, s')) (hallowed : Allowed env s w) :
    GoodStep env.maxDepth s s' := by
  simp only [replaceBelief, reconcileAndInsert, bind_eq_ok] at h
  obtain ⟨store₁, hstatus, after, ⟨written, hreconcile, hafter⟩, hpair⟩ := h
  obtain ⟨rfl, rfl⟩ := Prod.mk.inj (Except.ok.inj hpair)
  obtain rfl := Except.ok.inj hafter
  obtain ⟨hpremises, hunfolded⟩ := hallowed
  have hrows₁ : RowsKept none s.store store₁ := RowsKept.of_status (by simp) hstatus
  obtain ⟨row₀, -, -, -, rfl⟩ := updateParticleStatus_eq_ok.1 hstatus
  have hkept := premisesKept_applyReconcile hreconcile
  have hretired := not_isActive_of_retired (by simp) hstatus hkept.rows
  have hfit := fun m hm => fit_of_keptBy_or_repointed successor.id hinv (hpremises m hm)
    hretired
  refine goodStep_withDerived hinv (hrows₁.trans hkept.rows) hunfolded ?_ hstored
    (fun m hm => (hfit m hm).1) fun m hm => (hfit m hm).2
  intro row hnone hrow
  refine hkept.own row ?_ hrow
  rw [get?_setStatus, hnone]
  simp

/-- A retirement below the floor adds no derived belief. -/
theorem goodStep_retired {d : Particle} (hinv : BoundsInv env.maxDepth s)
    (h : retireBelief env d s = .ok (w, s')) : GoodStep env.maxDepth s s' := by
  unfold retireBelief at h
  split_ifs at h with hactive
  · simp only [bind_eq_ok] at h
    obtain ⟨store₁, hstatus, hpair⟩ := h
    obtain ⟨rfl, rfl⟩ := Prod.mk.inj (Except.ok.inj hpair)
    exact goodStep_of_rows hinv (RowsKept.of_status (by simp) hstatus) rfl
  · obtain ⟨rfl, rfl⟩ := Prod.mk.inj (Except.ok.inj h)
    exact goodStep_of_rows hinv (RowsKept.refl s.store) rfl

/-- **Other writers' commits are sound.** -/
theorem goodStep_other {change : OtherClaim} (hinv : BoundsInv env.maxDepth s)
    (hadmitted : Admitted s change) (h : applyOther env s change = some s') :
    GoodStep env.maxDepth s s' := by
  cases change with
  | retire id status reason =>
      simp only [applyOther] at h
      split_ifs at h with hstatus
      obtain ⟨store, hstore, rfl⟩ := Option.map_eq_some_iff.1 h
      exact goodStep_of_rows hinv
        (RowsKept.of_status hstatus (toOption_eq_some.1 hstore)) rfl
  | assert p embedding =>
      obtain ⟨store, hstore, rfl⟩ := Option.map_eq_some_iff.1 h
      exact goodStep_of_rows hinv (RowsKept.of_insert (toOption_eq_some.1 hstore)) rfl
  | supersede id reason p embedding copies =>
      obtain ⟨row, hrow, h⟩ := Option.bind_eq_some_iff.1 h
      obtain ⟨store, hstore, hs'⟩ := Option.map_eq_some_iff.1 h
      obtain ⟨store₁, hstatus, hinsert⟩ := bind_eq_ok.1 (toOption_eq_some.1 hstore)
      have hrows₁ : RowsKept none s.store store₁ := RowsKept.of_status (by simp) hstatus
      have hrows := hrows₁.trans (RowsKept.of_insert hinsert)
      split_ifs at hs' with hcopies
      · subst hs'
        have hps : s.ancestry id = some (premiseIdsOf row.model) := by
          simp [AbstractionStore.ancestry, hcopies.2, hrow]
        have hretired := not_isActive_of_retired (by simp) hstatus (RowsKept.of_insert hinsert)
        have hfit : ∀ m ∈ premiseIdsOf row.model, s.ancestry.LiesBelow env.maxDepth m ∧
            Unshared s (fun e => e ≠ p.id ∧ IsActive store e) m := by
          intro m hm
          refine fit_of_keptBy_or_repointed p.id hinv ?_ hretired
          rcases hadmitted hcopies.1 with hactive | hunshared
          · exact .inl ⟨hactive, _, hps, hm⟩
          · exact .inr ⟨hinv.depth id _ hps m hm, hunshared _ hps m hm⟩
        refine goodStep_withDerived hinv hrows (by simp) ?_ (hinv.closed id _ hps)
          (fun m hm => (hfit m hm).1) fun m hm => (hfit m hm).2
        intro row' _ hrow'
        obtain ⟨-, -, row₀, hmodel, -, -, -, hget⟩ := get?_insertParticle hinsert
        rw [hget] at hrow'
        simp only [successorOf, if_true, Option.some.injEq] at hrow'
        subst hrow'
        rw [hmodel]
        simp [premiseIdsOf, successorOf, hcopies.1]
      · subst hs'
        exact goodStep_of_rows hinv hrows rfl
  | clock now =>
      obtain rfl := Option.some.inj h
      exact goodStep_of_rows hinv (RowsKept.refl s.store) rfl

end Commits

end ParticlesEngine.Abstraction
