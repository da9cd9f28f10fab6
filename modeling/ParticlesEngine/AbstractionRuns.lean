/-
**Runs of the abstraction pass.**

The pass is called again and again, and other writers retire, assert and supersede claims between any
two of its reads and writes.  This module puts the calls among those writers, and shows that the
derived beliefs stay within their bounds in every run whose steps avoid the branches that go wrong.

Main definitions:

* `AbstractionRun`, `AbstractionRun.step` — the calls of the pass among other writers.

Main results:

* `meets_runAbstractionPass` — every allowed commit of the pass is a sound growth;
* `abstraction_stays_bounded` — **the derived beliefs stay bounded in every run whose commits are
  allowed**;
* `overlapping_clusters_share_a_premise`, `deferred_belief_passes_the_cap`,
  `folded_belief_rests_on_itself` — the three branches that go wrong.
-/

import ParticlesEngine.AbstractionBounds

set_option relaxedAutoImplicit false
set_option autoImplicit false

open FirstByKey Interleave Runs SortBy

namespace ParticlesEngine.Abstraction

/-- The pass's world: the store, and what it and others have committed. -/
abbrev AbstractionWorld := World AbstractionStore OtherClaim AbstractionWrite

section Meets

variable (env : AbstractionEnv)

/-- The bounds hold of the shared state. -/
def InBounds (g : AbstractionWorld) : Prop := BoundsInv env.maxDepth g.shared

/-- A commit of the pass is a sound growth. -/
def GoodCommit (g : AbstractionWorld) (_ : AbstractionWrite) (s : AbstractionStore) : Prop :=
  GoodStep env.maxDepth g.shared s

/-- The commits of other writers that are admitted. -/
noncomputable abbrev admittedOthers : AbstractionStore → OtherClaim → Option AbstractionStore :=
  applyWithin Admitted (applyOther env)

/-- A specification of the allowed commits of a program of the pass. -/
abbrev Meets {α : Type} (p : AbstractionProg α) (Q : α → AbstractionWorld → Prop)
    (g : AbstractionWorld) : Prop :=
  SpecWithin (admittedOthers env) (InBounds env) (GoodCommit env) (Allowed env) .assertion p Q g

/-- A later world, within the bounds. -/
def Onward (g g' : AbstractionWorld) : Prop := InBounds env g' ∧ Evolves g.shared g'.shared

variable {env} {α β : Type} {g g' g'' : AbstractionWorld}

theorem Onward.refl (h : InBounds env g) : Onward env g g := ⟨h, Evolves.refl _⟩

theorem Onward.trans (h : Onward env g g') (h' : Onward env g' g'') : Onward env g g'' :=
  ⟨h'.1, h.2.trans h'.2⟩

theorem InBounds.other (h : InBounds env g) (hstep : OtherStep (admittedOthers env) g g') :
    Onward env g g' := by
  obtain ⟨change, s, hs, rfl⟩ := hstep
  simp only [applyWithin] at hs
  split_ifs at hs with hadmitted
  have hgood := goodStep_other h hadmitted hs
  exact ⟨BoundsInv.step h hgood, hgood.evolves⟩

theorem Onward.later (h : InBounds env g) (hlater : Later (admittedOthers env) g g') :
    Onward env g g' :=
  hlater.preserves (fun _ _ honward hstep => honward.trans (honward.1.other hstep))
    (Onward.refl h)

/-- Reading is followed by a later world. -/
theorem meets_observe {f : AbstractionStore → α} {k : α → AbstractionProg β}
    {R : β → AbstractionWorld → Prop} (hg : InBounds env g)
    (h : ∀ g', Onward env g g' → Meets env (k (f g'.shared)) R g') :
    Meets env (Prog.observe f >>= k) R g :=
  SpecWithin.bind (SpecWithin.observe fun _ hlater _ => h _ (Onward.later hg hlater))

theorem meets_reply {f : AbstractionReply → α} {k : α → AbstractionProg β}
    {R : β → AbstractionWorld → Prop} (h : ∀ r, Meets env (k (f r)) R g) :
    Meets env (Prog.reply f >>= k) R g :=
  SpecWithin.bind (SpecWithin.reply h)

/-- A transaction is followed by a later world, when its allowed writes are sound. -/
theorem meets_transact {t : AbstractionStore → Except StoreError (AbstractionWrite × AbstractionStore)}
    {k : AbstractionWrite → AbstractionProg β} {R : β → AbstractionWorld → Prop}
    (hg : InBounds env g)
    (ht : ∀ s w s', BoundsInv env.maxDepth s → Evolves g.shared s → t s = .ok (w, s') →
      Allowed env s w → GoodStep env.maxDepth s s')
    (hk : ∀ w g', Onward env g g' → Meets env (k w) R g') :
    Meets env (Prog.transact t >>= k) R g := by
  refine SpecWithin.bind (SpecWithin.transact fun g' hlater hg' w s' hwrite hallowed => ?_)
  have honward := Onward.later hg hlater
  have hgood := ht _ _ _ hg' honward.2 hwrite hallowed
  exact ⟨hgood, hk w _ ⟨BoundsInv.step hg' hgood, honward.2.trans hgood.evolves⟩⟩

end Meets

/-! ### Revalidation -/

section Revalidation

variable {env : AbstractionEnv} {g : AbstractionWorld}

/-- The beliefs are stored. -/
def AllStored (g : AbstractionWorld) (ps : List Particle) : Prop := ∀ p ∈ ps, g.shared.Stored p.id

theorem AllStored.onward {g' : AbstractionWorld} {ps : List Particle} (h : AllStored g ps)
    (honward : Onward env g g') : AllStored g' ps := fun p hp => (honward.2 p.id (h p hp)).1

theorem stored_of_get? {s : AbstractionStore} {id : String} {row : ParticleRow}
    (h : s.store.get? id = some row) : s.Stored row.model.id := by
  obtain ⟨hmem, hid⟩ := ParticleTable.get?_eq_some.1 h
  simp only [AbstractionStore.Stored]
  rw [show s.store.get? row.model.id = some row from ParticleTable.get?_id hmem]
  simp

theorem meets_activeSuccessor {hops : ℕ} {p : Particle} (hg : InBounds env g) :
    Meets env (activeSuccessor hops p)
      (fun successor g' => Onward env g g' ∧ AllStored g' successor.toList) g := by
  induction hops generalizing p g with
  | zero => exact SpecWithin.pure ⟨Onward.refl hg, by simp [AllStored]⟩
  | succ hops ih =>
      refine meets_observe hg fun g' hg' => ?_
      cases hsuccessor : getSupersedingParticle g'.shared.store p.id with
      | none => exact SpecWithin.pure ⟨hg', by simp [AllStored]⟩
      | some successor =>
          have hstored : g'.shared.Stored successor.id := by
            obtain ⟨row, hrow, rfl⟩ := Option.map_eq_some_iff.1 hsuccessor
            have hmem := (List.mem_filter.1 (mem_sortBy.1 (List.mem_of_mem_head? hrow))).1
            exact stored_of_get? (ParticleTable.get?_id hmem)
          simp only
          split_ifs
          · refine SpecWithin.pure ⟨hg', ?_⟩
            simpa [AllStored] using hstored
          · exact SpecWithin.pure ⟨hg', by simp [AllStored]⟩
          · exact SpecWithin.mono (ih hg'.1) fun _ _ h => ⟨hg'.trans h.1, h.2⟩

theorem meets_updatePremise {byId : String → Option Particle} {found : Updated} {pid : String}
    (hg : InBounds env g) (hbyId : ∀ p ∈ byId pid, g.shared.Stored p.id)
    (hfound : AllStored g found.premises) :
    Meets env (updatePremise byId found pid)
      (fun round g' => Onward env g g' ∧ AllStored g' round.value.premises) g := by
  unfold updatePremise
  cases hp : byId pid with
  | none => exact SpecWithin.pure ⟨Onward.refl hg, hfound⟩
  | some p =>
      have hstored := hbyId p hp
      simp only
      split_ifs
      · refine SpecWithin.pure ⟨Onward.refl hg, ?_⟩
        intro q hq
        rcases List.mem_append.1 hq with hq | hq
        · exact hfound q hq
        · obtain rfl := List.mem_singleton.1 hq
          exact hstored
      · exact SpecWithin.pure ⟨Onward.refl hg, hfound⟩
      · refine SpecWithin.bind (SpecWithin.mono (meets_activeSuccessor hg) ?_)
        rintro successor g' ⟨hg', hsuccessor⟩
        cases successor with
        | none => exact SpecWithin.pure ⟨hg', hfound.onward hg'⟩
        | some successor =>
            refine SpecWithin.pure ⟨hg', ?_⟩
            intro q hq
            rcases List.mem_append.1 hq with hq | hq
            · exact hfound.onward hg' q hq
            · exact hsuccessor q (by simpa using hq)

/-- What is held of each id is one of the premises. -/
theorem AllStored.lastById {ps : List Particle} (h : AllStored g ps) : AllStored g (lastById ps) := by
  intro p hp
  obtain ⟨q, hq, rfl⟩ := List.mem_map.1 hp
  cases hfind : ps.reverse.find? fun r => r.id = q.id with
  | none => exact h q (List.mem_reverse.1 (by
      have hmem := List.mem_of_find?_eq_some (mem_firstByKey.1 hq).2
      have := List.find?_eq_none.1 hfind q (List.mem_reverse.2 hmem)
      simp at this))
  | some r => exact h r (List.mem_reverse.1 (List.mem_of_find?_eq_some hfind))

/-- **The updated premises are stored beliefs.** -/
theorem meets_updatedPremises {premiseIds : List String} (hg : InBounds env g) :
    Meets env (updatedPremises premiseIds)
      (fun found g' => Onward env g g' ∧ AllStored g' found.premises) g := by
  refine meets_observe hg fun g₁ hg₁ => ?_
  refine SpecWithin.bind (SpecWithin.mono (SpecWithin.loop_inv
    (fun found g' => Onward env g₁ g' ∧ AllStored g' found.premises) ?_
    ⟨Onward.refl hg₁.1, by simp [AllStored]⟩) ?_)
  · rintro pid - found g₂ ⟨hg₂, hfound⟩
    refine SpecWithin.mono (meets_updatePremise hg₂.1 ?_ hfound) fun _ _ h => ⟨hg₂.trans h.1, h.2⟩
    intro p hp
    obtain ⟨row, hrow, rfl⟩ := Option.map_eq_some_iff.1 hp
    exact (hg₂.2 _ (stored_of_get? hrow)).1
  · rintro found g₂ ⟨hg₂, hfound⟩
    exact SpecWithin.pure ⟨hg₁.trans hg₂, hfound.lastById⟩

@[simp] theorem premiseIdsOf_buildDerivedParticle {uuid claim : String} {now : Instant}
    {premises : List Particle} {subjectIds tags : List String} {supersedes : Option String} :
    premiseIdsOf (buildDerivedParticle env uuid now claim premises subjectIds supersedes tags) =
      premises.map Particle.id := premiseIdsOf_premiseRefs rfl

theorem meets_refreshBySupersession {d : Particle} {premises : List Particle} (hg : InBounds env g)
    (hstored : AllStored g premises) :
    Meets env (refreshBySupersession env d premises) (fun _ g' => Onward env g g') g := by
  refine meets_reply fun r => meets_observe hg fun g' hg' => meets_transact hg'.1 ?_
    fun w g'' hg'' => SpecWithin.pure (hg'.trans hg'')
  intro s w s' hinv hevolves ht hallowed
  refine goodStep_refreshed hinv ?_ ht hallowed
  intro m hm
  rw [premiseIdsOf_buildDerivedParticle] at hm
  obtain ⟨p, hp, rfl⟩ := List.mem_map.1 hm
  exact (hevolves _ (hstored.onward hg' p hp)).1

theorem meets_replaceByText {d : Particle} {premises : List Particle} {claim : String}
    (hg : InBounds env g) (hstored : AllStored g premises) :
    Meets env (replaceByText env d premises claim) (fun _ g' => Onward env g g') g := by
  refine meets_observe hg fun g₁ hg₁ => ?_
  split_ifs
  · exact SpecWithin.pure hg₁
  · refine meets_reply fun r => meets_observe hg₁.1 fun g₂ hg₂ => meets_transact hg₂.1 ?_
      fun w g₃ hg₃ => SpecWithin.pure (hg₁.trans (hg₂.trans hg₃))
    intro s w s' hinv hevolves ht hallowed
    refine goodStep_replaced hinv ?_ ht hallowed
    intro m hm
    rw [premiseIdsOf_buildDerivedParticle] at hm
    obtain ⟨p, hp, rfl⟩ := List.mem_map.1 hm
    exact (hevolves _ ((hstored.onward hg₁).onward hg₂ p hp)).1

theorem meets_rejudge {d : Particle} {premises : List Particle} (hg : InBounds env g)
    (hstored : AllStored g premises) :
    Meets env (rejudge env d premises) (fun _ g' => Onward env g g') g := by
  refine meets_reply fun r => ?_
  cases r.entailed with
  | none => exact SpecWithin.pure (Onward.refl hg)
  | some entailed =>
      cases entailed with
      | true => exact meets_refreshBySupersession hg hstored
      | false =>
          refine meets_reply fun r' => ?_
          cases r'.synthesized with
          | none => exact SpecWithin.pure (Onward.refl hg)
          | some claim =>
              simp only
              split_ifs
              · exact SpecWithin.pure (Onward.refl hg)
              · refine meets_reply fun r'' => ?_
                cases r''.paraphrase with
                | PARAPHRASE => exact meets_refreshBySupersession hg hstored
                | UNSURE => exact SpecWithin.pure (Onward.refl hg)
                | DISTINCT => exact meets_replaceByText hg hstored

theorem meets_loadInReview {state : LadderState} (hg : InBounds env g) :
    Meets env (loadInReview state) (fun _ g' => Onward env g g') g := by
  unfold loadInReview
  cases state.inReview with
  | none => exact SpecWithin.observe fun g' hlater _ => Onward.later hg hlater
  | some inReview => exact SpecWithin.pure (Onward.refl hg)

theorem meets_revalidateBelief {cfg : AbstractionConfig} {state : LadderState} {d : Particle}
    (hg : InBounds env g) :
    Meets env (revalidateBelief env cfg state d) (fun _ g' => Onward env g g') g := by
  refine SpecWithin.bind (SpecWithin.mono (meets_updatedPremises hg) ?_)
  rintro found g₁ ⟨hg₁, hstored⟩
  split
  · exact SpecWithin.pure hg₁
  · split
    · exact meets_transact hg₁.1 (fun s w s' hinv _ ht _ => goodStep_retired hinv ht)
        fun w g₂ hg₂ => SpecWithin.pure (hg₁.trans hg₂)
    · refine SpecWithin.bind (SpecWithin.mono (meets_loadInReview hg₁.1) fun inReview g₂ hg₂ => ?_)
      have hstored₂ := hstored.onward hg₂
      split_ifs
      · exact SpecWithin.pure (hg₁.trans hg₂)
      · exact SpecWithin.bind (SpecWithin.mono (meets_refreshBySupersession hg₂.1 hstored₂)
          fun _ g₃ hg₃ => SpecWithin.pure (hg₁.trans (hg₂.trans hg₃)))
      · exact SpecWithin.pure (hg₁.trans hg₂)
      · exact SpecWithin.bind (SpecWithin.mono (meets_rejudge hg₂.1 hstored₂)
          fun _ g₃ hg₃ => SpecWithin.pure (hg₁.trans (hg₂.trans hg₃)))

theorem meets_revalidate {cfg : AbstractionConfig} (hg : InBounds env g) :
    Meets env (revalidate env cfg) (fun _ g' => Onward env g g') g := by
  refine meets_observe hg fun g₁ hg₁ => ?_
  refine SpecWithin.loop_inv (fun _ g' => Onward env g g') ?_ hg₁
  exact fun d _ state g₂ hg₂ =>
    SpecWithin.mono (meets_revalidateBelief hg₂.1) fun _ _ h => hg₂.trans h

end Revalidation

/-! ### Promotion -/

section Promotion

variable {env : AbstractionEnv} {g : AbstractionWorld}

theorem Formed.evolves {maxDepth : ℕ} {s s' : AbstractionStore} {population : List Particle}
    {ms : List String} (h : Formed maxDepth s population ms) (hevolves : Evolves s s') :
    Formed maxDepth s' population ms where
  read d hd := hevolves.ancestry_eq_some (h.read d hd)
  stored m hm := (hevolves m (h.stored m hm)).1
  cap := h.cap
  unused := h.unused
  depth := h.depth

/-- The members of a cluster were loaded, and are eligible. -/
theorem mem_clustersOf {call : AbstractionCall} {reads : ClusterReads} {c : Cluster} {m : Particle}
    (hc : c ∈ clustersOf env call reads) (hm : m ∈ c.members) :
    (∃ e, (m, e) ∈ reads.loaded) ∧ eligible env call.cfg reads m = true := by
  have hfound := List.mem_of_mem_filter (mem_sortBy.1 hc)
  have hfirst := List.mem_of_find?_eq_some (mem_firstByKey.1 hfound).2
  obtain ⟨subjectId, -, hsubject⟩ := List.mem_flatMap.1 hfirst
  simp only [subjectClusters] at hsubject
  split_ifs at hsubject
  · cases hsubject
  · obtain ⟨component, -, hcomponent⟩ := List.mem_filterMap.1 hsubject
    split_ifs at hcomponent
    obtain rfl := Option.some.inj hcomponent
    obtain ⟨pid, -, hfind⟩ := List.mem_filterMap.1 (mem_sortBy.1 hm)
    obtain ⟨pair, hpair, rfl⟩ := List.mem_map.1 (List.mem_of_find?_eq_some hfind)
    obtain ⟨hloaded, hwanted⟩ := List.mem_filter.1 hpair
    simp only [decide_eq_true_eq] at hwanted
    exact ⟨⟨pair.2, hloaded⟩, hwanted.2⟩

/-- An eligible belief is no premise of the beliefs that were read, and lies below the cap as they
give its depth. -/
theorem eligible_spec {cfg : AbstractionConfig} {reads : ClusterReads} {m : Particle}
    (h : eligible env cfg reads m = true) :
    m.id ∉ reads.alreadyPremise ∧
      derivedDepth reads.population reads.derived m < env.maxDepth := by
  unfold eligible at h
  split_ifs at h with hused hdepth
  all_goals exact ⟨fun hmem => hused (.inr hmem), Nat.lt_of_not_le hdepth⟩

theorem ancestry_of_mem_activeDerived {s : AbstractionStore} {d : Particle}
    (h : d ∈ getActiveDerivedParticles s) : s.ancestry d.id = some (premiseIdsOf d) := by
  obtain ⟨row, hrow, rfl⟩ := List.mem_map.1 h
  obtain ⟨hmem, hkeep⟩ := List.mem_filter.1 hrow
  simp only [decide_eq_true_eq] at hkeep
  have hget : s.store.get? row.model.id = some row := ParticleTable.get?_id hmem
  change s.ancestry row.model.id = some (premiseIdsOf row.model)
  simp [AbstractionStore.ancestry, hkeep.2, hget]

/-- **The clusters are formed over the derived beliefs that were read.** -/
theorem formed_clustersOf {call : AbstractionCall} {reads : ClusterReads} {s : AbstractionStore}
    (hinv : BoundsInv env.maxDepth s)
    (hread : ∀ d ∈ reads.population, s.ancestry d.id = some (premiseIdsOf d))
    (hloaded : reads.loaded = loadActiveCandidates env s.store none) (hderived : reads.derived = s.derived)
    {c : Cluster} (hc : c ∈ clustersOf env call reads) :
    Formed env.maxDepth s reads.population c.memberIds := by
  have hmember : ∀ m ∈ c.memberIds, ∃ row, s.store.get? m = some row ∧ row.model.id = m ∧
      m ∉ reads.alreadyPremise ∧
      derivedDepth reads.population reads.derived row.model < env.maxDepth := by
    intro m hm
    obtain ⟨p, hp, rfl⟩ := List.mem_map.1 hm
    obtain ⟨⟨e, he⟩, heligible⟩ := mem_clustersOf hc hp
    rw [hloaded] at he
    obtain ⟨row, hrow, hmodel, -⟩ := mem_getActiveParticlesWithEmbeddings he
    obtain rfl : row.model = p := hmodel
    exact ⟨row, hrow, rfl, eligible_spec heligible⟩
  refine ⟨hread, fun m hm => ?_, fun m hm => ?_, fun m hm d hd hmem => ?_, fun m hm hpop => ?_⟩
  · obtain ⟨row, hrow, -⟩ := hmember m hm
    simp [AbstractionStore.Stored, hrow]
  · obtain ⟨row, -, -, -, hdepth⟩ := hmember m hm
    omega
  · obtain ⟨row, -, -, hunused, -⟩ := hmember m hm
    exact hunused (List.mem_flatMap.2 ⟨d, hd, hmem⟩)
  · obtain ⟨row, hrow, hid, -, hdepth⟩ := hmember m hm
    obtain ⟨d, hd, rfl⟩ := List.mem_map.1 hpop
    have hps := hread d hd
    have hmem := (mem_derived_of_ancestry hps).1
    -- the belief that was loaded has the premises that were read
    have hsame : s.ancestry d.id = some (premiseIdsOf row.model) := by
      simp [AbstractionStore.ancestry, hmem, hrow]
    have hacyclic : (ancestryAmong reads.population).Acyclic := by
      refine Ancestry.Acyclic.of_le (fun a ps hps => ?_) hinv.acyclic
      obtain ⟨q, hq, rfl⟩ := Option.map_eq_some_iff.1 hps
      have hqid : q.id = a := by simpa using List.find?_some hq
      rw [← hqid]
      exact hread q (List.mem_of_find?_eq_some hq)
    have hdom : ∀ a ps, ancestryAmong reads.population a = some ps →
        a ∈ reads.population.map Particle.id := by
      intro a ps hps
      obtain ⟨q, hq, -⟩ := Option.map_eq_some_iff.1 hps
      exact List.mem_map.2 ⟨q, List.mem_of_find?_eq_some hq, by simpa using List.find?_some hq⟩
    have hfuel : (reads.population.map Particle.id).length < reads.population.length + 2 := by simp
    refine (Ancestry.liesBelow_walk hacyclic hdom hfuel
      (ancestryAmong_eq_some hread hpop hsame)).mono ?_
    rw [derivedDepth, hderived, hid, if_pos hmem] at hdepth
    exact hdepth

theorem meets_findClusters {call : AbstractionCall} (hg : InBounds env g) :
    Meets env (findClusters env call) (fun found g' => Onward env g g' ∧
      ∃ population : List Particle, found.1 = population.map Particle.id ∧
        ∀ c ∈ found.2, Formed env.maxDepth g'.shared population c.memberIds) g := by
  refine meets_observe hg fun g₁ hg₁ => meets_observe hg₁.1 fun g₂ hg₂ =>
    meets_observe hg₂.1 fun g₃ hg₃ => meets_observe hg₃.1 fun g₄ hg₄ =>
    meets_observe hg₄.1 fun g₅ hg₅ => meets_observe hg₅.1 fun g₆ hg₆ => ?_
  have hlater : Onward env g₂ g₆ := hg₃.trans (hg₄.trans (hg₅.trans hg₆))
  refine SpecWithin.pure ⟨hg₁.trans (hg₂.trans hlater), _, rfl, fun c hc => ?_⟩
  exact formed_clustersOf hg₆.1
    (fun d hd => hlater.2.ancestry_eq_some (ancestry_of_mem_activeDerived hd)) rfl rfl hc

theorem meets_duplicateOf {cfg : AbstractionConfig} {encoded : Embedding} {cluster : Cluster}
    (hg : InBounds env g) :
    Meets env (duplicateOf env cfg encoded cluster) (fun _ g' => Onward env g g') g := by
  refine meets_observe hg fun g₁ hg₁ => ?_
  refine SpecWithin.loop_inv (fun _ g' => Onward env g g') ?_ hg₁
  intro p _ found g₂ hg₂
  refine meets_reply fun r => ?_
  split_ifs <;> exact SpecWithin.pure hg₂

theorem meets_gateCandidate {cfg : AbstractionConfig} {claim : String} (hg : InBounds env g) :
    Meets env (gateCandidate env cfg claim) (fun _ g' => Onward env g g') g := by
  unfold gateCandidate
  split_ifs
  · exact SpecWithin.pure (Onward.refl hg)
  · exact SpecWithin.reply fun _ => Onward.refl hg
  · exact SpecWithin.pure (Onward.refl hg)

theorem meets_assertClaim {cfg : AbstractionConfig} {population : List Particle}
    {cluster : Cluster} {claim : String} (hg : InBounds env g)
    (hformed : Formed env.maxDepth g.shared population cluster.memberIds) :
    Meets env (assertClaim env cfg (population.map Particle.id) cluster claim)
      (fun _ g' => Onward env g g') g := by
  unfold assertClaim
  cases cfg.mode with
  | auto =>
      refine meets_reply fun r => meets_observe hg fun g₁ hg₁ => meets_transact hg₁.1 ?_
        fun w g₂ hg₂ => SpecWithin.pure (hg₁.trans hg₂)
      intro s w s' hinv hevolves ht hallowed
      refine goodStep_promoted hinv ?_ ht hallowed
      rw [premiseIdsOf_buildDerivedParticle]
      exact hformed.evolves (hg₁.2.trans hevolves)
  | propose =>
      refine meets_transact hg ?_ fun w g₂ hg₂ => SpecWithin.pure hg₂
      intro s w s' hinv _ ht _
      obtain ⟨rfl, rfl⟩ := Prod.mk.inj (Except.ok.inj ht)
      exact goodStep_of_rows hinv (RowsKept.refl s.store) rfl

/-- **A cluster's promotion.** -/
theorem meets_promoteCluster {cfg : AbstractionConfig} {population : List Particle}
    {cluster : Cluster} (hg : InBounds env g)
    (hformed : Formed env.maxDepth g.shared population cluster.memberIds) :
    Meets env (promoteCluster env cfg (population.map Particle.id) cluster)
      (fun _ g' => Onward env g g') g := by
  refine meets_reply fun r => ?_
  cases r.synthesized with
  | none => exact SpecWithin.pure (Onward.refl hg)
  | some claim =>
      refine SpecWithin.bind (SpecWithin.mono (meets_gateCandidate hg) fun passed g₁ hg₁ => ?_)
      refine meets_reply fun r' => ?_
      split
      · refine SpecWithin.bind (SpecWithin.mono (meets_duplicateOf hg₁.1) fun duplicate g₂ hg₂ => ?_)
        split_ifs
        · exact SpecWithin.pure (hg₁.trans hg₂)
        · exact SpecWithin.mono (meets_assertClaim hg₂.1 (hformed.evolves (hg₁.2.trans hg₂.2)))
            fun _ _ h => hg₁.trans (hg₂.trans h)
      · exact SpecWithin.pure hg₁

/-- **One call of the pass**: its allowed commits are sound. -/
theorem meets_runAbstractionPass {call : AbstractionCall} (hg : InBounds env g) :
    Meets env (runAbstractionPass env call) (fun _ g' => Onward env g g') g := by
  unfold runAbstractionPass
  split
  · exact SpecWithin.pure (Onward.refl hg)
  · refine SpecWithin.bind (SpecWithin.mono (meets_revalidate hg) fun state g₁ hg₁ => ?_)
    refine SpecWithin.bind (SpecWithin.mono (meets_findClusters hg₁.1) ?_)
    rintro ⟨populationIds, clusters⟩ g₂ ⟨hg₂, population, rfl, hformed⟩
    refine SpecWithin.bind (SpecWithin.mono (SpecWithin.loop_inv (fun _ g' => Onward env g₂ g') ?_
      (Onward.refl hg₂.1)) fun _ g₃ hg₃ => SpecWithin.pure (hg₁.trans (hg₂.trans hg₃)))
    intro cluster hcluster spent g₃ hg₃
    unfold takeCluster
    split
    · exact SpecWithin.pure hg₃
    · exact SpecWithin.bind (SpecWithin.mono
        (meets_promoteCluster hg₃.1 ((hformed cluster hcluster).evolves hg₃.2))
        fun _ g₄ hg₄ => SpecWithin.pure (hg₃.trans hg₄))

end Promotion

/-! ### Runs -/

section Run

variable (env : AbstractionEnv)

/-- A run of the calls among other writers. -/
abbrev AbstractionRun :=
  Config AbstractionStore OtherClaim AbstractionWrite AbstractionReply StoreError Unit

/-- The calls at their start on a store. -/
def start (calls : List AbstractionCall) (s : AbstractionStore) : AbstractionRun :=
  ⟨⟨s, []⟩, runCalls env calls⟩

/-- One step of the calls, or one commit of another writer. -/
abbrev AbstractionRun.step (c : AbstractionRun) :
    Interleave.Action OtherClaim AbstractionReply → Option AbstractionRun :=
  Interleave.step (applyOther env) c

/-- **Abstraction stays bounded.**  From a store with no derived beliefs, in a run whose commits are
all allowed, every ACTIVE derived belief has at most the maximal depth through its whole chain of
premises, no belief rests on itself, and no ACTIVE belief is a premise of two. -/
theorem abstraction_stays_bounded (calls : List AbstractionCall) (s : AbstractionStore)
    (hnone : s.derived = []) (actions : List (Interleave.Action OtherClaim AbstractionReply))
    (hallowed : StepsMeet (AbstractionRun.step env) (Interleave.Within Admitted (Allowed env))
      (start env calls s) actions) (c : AbstractionRun)
    (hrun : run (AbstractionRun.step env) (start env calls s) actions = some c) :
    Bounded env.maxDepth c.world.shared := by
  have hstart : InBounds env ⟨s, []⟩ := BoundsInv.of_no_derived hnone
  have hmeets : Meets env (runCalls env calls) (fun _ g' => Onward env ⟨s, []⟩ g') ⟨s, []⟩ := by
    refine SpecWithin.loop_inv (fun _ g' => Onward env ⟨s, []⟩ g') ?_ (Onward.refl hstart)
    exact fun call _ _ g hg => SpecWithin.bind (SpecWithin.mono (meets_runAbstractionPass hg.1)
      fun _ g' hg' => SpecWithin.pure (hg.trans hg'))
  exact BoundsInv.bounded (SpecWithin.sound (fun g g' hg hstep => (InBounds.other hg hstep).1)
    (fun g w s hg hgood => BoundsInv.step hg hgood) hstart hmeets hallowed hrun)

end Run

/-! ### Bounds that are passed -/

section Examples

/-- A pass that reads every text as it stands. -/
def plainAbstraction (maxDepth : ℕ) : AbstractionEnv where
  reconcile := .verbatim
  maxDepth := maxDepth
  timeAnchorPattern _ := false
  populationQuantifier _ := none
  deriveAbstractionConfidence confidences := confidences.foldl min 1

/-- A call that promotes clusters of three. -/
def dailyCall : AbstractionCall where
  cfg := { maxPromotionsPerRun := 5, minClusterSize := 3, clusterSimilarityThreshold := 1 / 2,
           candidateThreshold := 9 / 10 }

def specific (id : String) (subjectIds : List String) : Particle where
  id := id
  content := id
  subjectIds := subjectIds

/-- A store of similar claims. -/
def storeOf (subjectIds : List String) (claims : List Particle) : AbstractionStore where
  clock := 9
  store := (do
    let subjects ← orRaise (subjectIds.foldlM (fun subjects id =>
      Table.insert? subjects ({ id := id, canonicalName := id } : Subject)) Table.empty)
      .integrity
    let store := { Store.empty with subjects := subjects }
    claims.foldlM (fun store claim => insertParticle CorePackage.verbatim.contentHash
      LEGACY_EMBEDDING_MODEL_ID store claim (some [1])) store).toOption.getD .empty

/-- The claim `c` is about both subjects. -/
def twoSubjects : AbstractionStore :=
  storeOf ["S", "T"] [specific "a" ["S"], specific "b" ["S"], specific "c" ["S", "T"],
    specific "d" ["T"], specific "e" ["T"]]

def oneSubject : AbstractionStore :=
  storeOf ["S"] [specific "a" ["S"], specific "b" ["S"], specific "c" ["S"]]

/-- The model synthesizes a claim, and finds it entailed. -/
def synthesizes (claim uuid : String) : AbstractionReply where
  synthesized := some claim
  entailed := some true
  encoded := some [1]
  uuid := uuid
  gathered := { embedding := some [1], searched := true }
  answers := { outcome := fun _ => ⟨some .NO_CONFLICT, false⟩, recordId := "record", now := 9 }

/-- A number of steps of the pass, with one reply to all its questions. -/
def goes (n : ℕ) (reply : AbstractionReply) : List (Interleave.Action OtherClaim AbstractionReply) :=
  List.replicate n (.go reply)

def asserts (id : String) : Interleave.Action OtherClaim AbstractionReply :=
  .other (.assert (specific id ["S"]) (some [1]))

/-- The state after some calls with a maximal depth. -/
def after (maxDepth : ℕ) (calls : List AbstractionCall) (s : AbstractionStore)
    (actions : List (Interleave.Action OtherClaim AbstractionReply)) : Option AbstractionStore :=
  (run (AbstractionRun.step (plainAbstraction maxDepth)) (start (plainAbstraction maxDepth) calls s)
    actions).map fun c => c.world.shared

/-- One call, with two clusters. -/
def twoPromotions : List (Interleave.Action OtherClaim AbstractionReply) :=
  goes 14 (synthesizes "general" "D1") ++ goes 7 (synthesizes "other" "D2")

/-- **Two clusters of one call that share a member are both promoted**, at the default depth and with
nobody else about: the premises in use are read once, before the first promotion. -/
theorem overlapping_clusters_share_a_premise :
    ∃ s ∈ after 1 [dailyCall] twoSubjects twoPromotions, ¬ Bounded 1 s := by
  have hshared : (after 1 [dailyCall] twoSubjects twoPromotions).any (fun s =>
      decide (IsActive s.store "c" ∧ IsActive s.store "D1" ∧ IsActive s.store "D2" ∧
        s.ancestry.Rests "D1" "c" ∧ s.ancestry.Rests "D2" "c")) = true := by decide +kernel
  obtain ⟨s, hs, hbeliefs⟩ := (Option.any_eq_true _ _).1 hshared
  obtain ⟨hc, hd₁, hd₂, hrests₁, hrests₂⟩ := of_decide_eq_true hbeliefs
  refine ⟨s, hs, fun hbounded => ?_⟩
  have hsame := hbounded.sharing "c" hc "D1" "D2" hd₁ hd₂ hrests₁ hrests₂
  simp at hsame

/-- A belief on three claims, which a second call clusters with three more. -/
def secondCall (claim : String) : List (Interleave.Action OtherClaim AbstractionReply) :=
  goes 14 (synthesizes "general" "D1") ++ [asserts "f", asserts "g", asserts "h"] ++
    goes 18 (synthesizes claim "D2")

/-- Then the first belief is retracted, the judge is unavailable for the second, and a third call
clusters the second with two more claims. -/
def thirdCall : List (Interleave.Action OtherClaim AbstractionReply) :=
  secondCall "other" ++ [.other (.retire "D1" .RETRACTED none), asserts "i", asserts "j"] ++
    goes 4 { synthesizes "last" "D3" with entailed := none } ++ goes 16 (synthesizes "last" "D3")

/-- **A belief whose premise was retired counts as shallow**, and what is built on it passes the cap.
-/
theorem deferred_belief_passes_the_cap :
    ∃ s ∈ after 2 [dailyCall, dailyCall, dailyCall] oneSubject thirdCall, ¬ Bounded 2 s := by
  have hdeep : (after 2 [dailyCall, dailyCall, dailyCall] oneSubject thirdCall).any (fun s =>
      decide ("D3" ∈ s.derived ∧ IsActive s.store "D3" ∧ ¬ s.ancestry.LiesBelow 3 "D3")) = true := by
    decide +kernel
  obtain ⟨s, hs, hbelief⟩ := (Option.any_eq_true _ _).1 hdeep
  obtain ⟨hderived, hactive, hdepth⟩ := of_decide_eq_true hbelief
  exact ⟨s, hs, fun hbounded => hdepth (hbounded.depth "D3" hderived hactive)⟩

/-- **A synthesis that restates a derived member is folded into it**, and the member becomes a premise
of itself. -/
theorem folded_belief_rests_on_itself :
    ∃ s ∈ after 2 [dailyCall, dailyCall] oneSubject (secondCall "general"), ¬ Bounded 2 s := by
  have hcycle : (after 2 [dailyCall, dailyCall] oneSubject (secondCall "general")).any (fun s =>
      decide (s.ancestry.Rests "D1" "D1")) = true := by decide +kernel
  obtain ⟨s, hs, hrests⟩ := (Option.any_eq_true _ _).1 hcycle
  exact ⟨s, hs, fun hbounded => hbounded.acyclic "D1"
    (.single (of_decide_eq_true hrests))⟩

/-- A belief on claims of one subject, and one on it, within the bounds. -/
theorem abstraction_stays_bounded_twice :
    ∃ c, run (AbstractionRun.step (plainAbstraction 2))
        (start (plainAbstraction 2) [dailyCall, dailyCall] oneSubject) (secondCall "other") = some c ∧
      Bounded 2 c.world.shared := by
  obtain ⟨c, hrun⟩ := Option.isSome_iff_exists.1 (show (run (AbstractionRun.step (plainAbstraction 2))
    (start (plainAbstraction 2) [dailyCall, dailyCall] oneSubject)
    (secondCall "other")).isSome = true by decide +kernel)
  exact ⟨c, hrun, abstraction_stays_bounded (plainAbstraction 2) [dailyCall, dailyCall] oneSubject rfl
    (secondCall "other") (by decide +kernel) c hrun⟩

end Examples

end ParticlesEngine.Abstraction
