/-
**A sweep and the claims it names as winners.**

Each demotion of a reconcile sweep names a winner.  A winner is ACTIVE when the pairs are collected;
it stays so while the sweep runs if the sweep has not demoted it itself and no other writer retires
it.  The update sweep looks at the first of the two before each pair; the document sweep looks only
at the claim to be demoted, so there it is a condition on the run, and a cycle of documents breaks
it.

Main definitions:

* `WinnersLive` — the invariant of a sweep;
* `SparesWinners`, `DocumentMeets`, `UpdateMeets` — what a step asks of the state before it;
* `WinnersActive` — every winner is ACTIVE when its demotion is written, and following winners
  reaches an ACTIVE claim.

Main result:

* `sweep_winnersActive` — **in every run whose steps meet the condition, no claim is retired in
  favour of a retired one**.
-/

import ParticlesEngine.Generation
import ParticlesEngine.ReconcileSweeps
import ParticlesEngine.Runs
import ParticlesEngine.SearchUnderLock
import ParticlesEngine.WinnerChain

set_option relaxedAutoImplicit false
set_option autoImplicit false

open Relation Runs SortBy FirstByKey WinnerChain

namespace ParticlesEngine

/-! ### What the writes of a sweep leave ACTIVE -/

section Writes

variable {store store' : Store} {id : String}

theorem IsActive.updateParticleStatus {table : TransitionTable} {now : Instant}
    {particleId : String} {status : Status} {reason : Option StatusReason}
    (hwrite : updateParticleStatus table now store particleId status reason = .ok store')
    (hne : id ≠ particleId) (h : IsActive store id) : IsActive store' id := by
  obtain ⟨_, -, -, hget⟩ := get?_updateParticleStatus hwrite
  obtain ⟨row, hrow, hstatus⟩ := h
  exact ⟨row, by rw [hget, if_neg (Ne.symm hne), hrow], hstatus⟩

theorem IsActive.insertValidated {contentHash : String → String} {modelId : String}
    {table : TransitionTable} {p : Particle} {embedding : Option EmbeddingJson}
    (hwrite : insertValidated contentHash modelId table store p embedding = .ok store')
    (h : IsActive store id) : IsActive store' id := by
  simp only [ParticlesEngine.insertValidated, bind_eq_ok] at hwrite
  obtain ⟨-, -, hinsert⟩ := hwrite
  obtain ⟨row, hrow, hstatus⟩ := h
  exact ⟨row, (get?_insertParticle_of_some hinsert hrow).2, hstatus⟩

theorem IsActive.setSupersedesIfUnset (winnerId loserId : String) (h : IsActive store id) :
    IsActive (setSupersedesIfUnset store winnerId loserId) id := by
  obtain ⟨row, hrow, hstatus⟩ := h
  unfold ParticlesEngine.setSupersedesIfUnset IsActive
  rw [Store.get?_modifyParticle, hrow]
  split_ifs
  · refine ⟨_, rfl, ?_⟩
    dsimp only
    split_ifs
    · exact hstatus
    · exact hstatus
  · exact ⟨row, rfl, hstatus⟩

end Writes

/-! ### The invariant of a sweep -/

/-- The demotions written name winners that the sweep had not demoted, and every winner that the
sweep has not demoted is ACTIVE. -/
structure WinnersLive (winners : List String) (s : SweepState) : Prop where
  fresh : Fresh s.written
  demoted : ∀ id ∈ losers s.written, id ∈ s.demotedIds
  won : ∀ d ∈ s.written, d.2 ∈ winners
  live : ∀ w ∈ winners, w ∉ losers s.written → IsActive s.store w

/-- No other writer retires a winner while the probe runs. -/
def SparesWinners (env : SweepEnv) (winners : List String) (s : SweepState) : Prop :=
  ∀ w ∈ winners, IsActive s.store w → IsActive (env.others s.probed s.store) w

/-- The step demoted nothing, and retired nothing the other writers left ACTIVE. -/
def Quiet (env : SweepEnv) (s s' : SweepState) : Prop :=
  s'.written = s.written ∧ s.demotedIds ⊆ s'.demotedIds ∧
    ∀ id, IsActive (env.others s.probed s.store) id → IsActive s'.store id

/-- The step demoted the loser in favour of the winner, and retired nothing else. -/
def Demotes (env : SweepEnv) (loser winner : String) (s s' : SweepState) : Prop :=
  s'.written = s.written ++ [(loser, winner)] ∧ s'.demotedIds = s.demotedIds ++ [loser] ∧
    ∀ id, id ≠ loser → IsActive (env.others s.probed s.store) id → IsActive s'.store id

section Invariant

variable {env : SweepEnv} {winners : List String} {s s' : SweepState} {loser winner : String}

theorem winnersLive_start {store : Store} (h : ∀ w ∈ winners, IsActive store w) :
    WinnersLive winners { store := store } where
  fresh := fresh_nil
  demoted := by simp [losers]
  won := by simp
  live w hw _ := h w hw

theorem WinnersLive.quiet (h : WinnersLive winners s) (hspares : SparesWinners env winners s)
    (hstep : Quiet env s s') : WinnersLive winners s' := by
  obtain ⟨hwritten, hdemoted, hkept⟩ := hstep
  refine ⟨hwritten ▸ h.fresh, ?_, hwritten ▸ h.won, ?_⟩
  · rw [hwritten]
    exact fun id hid => hdemoted (h.demoted id hid)
  · rw [hwritten]
    exact fun w hw hnot => hkept w (hspares w hw (h.live w hw hnot))

/-- **A demotion keeps the invariant, and its winner is ACTIVE when it is written**, if the sweep has
not demoted the winner before. -/
theorem WinnersLive.demotes (h : WinnersLive winners s) (hspares : SparesWinners env winners s)
    (hstep : Demotes env loser winner s s') (hwinner : winner ∈ winners) (hself : winner ≠ loser)
    (hnot : winner ∉ s.demotedIds) :
    WinnersLive winners s' ∧ IsActive (env.others s.probed s.store) winner := by
  obtain ⟨hwritten, hdemoted, hkept⟩ := hstep
  have hfree : winner ∉ losers s.written := fun hmem => hnot (h.demoted winner hmem)
  refine ⟨⟨?_, ?_, ?_, ?_⟩, hspares winner hwinner (h.live winner hwinner hfree)⟩
  · rw [hwritten]
    exact fresh_concat h.fresh hself hfree
  · rw [hwritten, hdemoted, losers_concat]
    intro id hid
    rcases List.mem_append.1 hid with hid | hid
    · exact List.mem_append_left _ (h.demoted id hid)
    · exact List.mem_append_right _ hid
  · rw [hwritten]
    intro d hd
    rcases List.mem_append.1 hd with hd | hd
    · exact h.won d hd
    · obtain rfl := List.mem_singleton.1 hd
      exact hwinner
  · rw [hwritten, losers_concat]
    intro w hw hnotLoser
    have hloser : w ≠ loser := by
      rintro rfl
      exact hnotLoser (by simp)
    have hearlier : w ∉ losers s.written := fun hmem =>
      hnotLoser (List.mem_append_left _ hmem)
    exact hkept w hloser (hspares w hw (h.live w hw hearlier))

/-- **Following winners from a claim that the sweep demoted reaches an ACTIVE claim.** -/
theorem WinnersLive.exists_active (h : WinnersLive winners s) {d : String × String}
    (hd : d ∈ s.written) :
    ∃ top, TransGen (Leads s.written) d.1 top ∧ IsActive s.store top := by
  obtain ⟨top, hchain, ⟨loser, hwon⟩, htop⟩ := h.fresh.exists_top d hd
  exact ⟨top, hchain, h.live top (h.won _ hwon) htop⟩

end Invariant

/-! ### The pairs collected -/

section Candidates

/-- Two loaded claims with one id are one claim. -/
theorem loaded_inj {env : SweepEnv} {store : Store} {a b : EmbeddingPair}
    (ha : a ∈ env.loadActiveCandidates store) (hb : b ∈ env.loadActiveCandidates store)
    (hid : a.1.id = b.1.id) : a.1 = b.1 := by
  obtain ⟨row, hrow, hmodel, -⟩ := mem_getActiveParticlesWithEmbeddings ha
  obtain ⟨row', hrow', hmodel', -⟩ := mem_getActiveParticlesWithEmbeddings hb
  rw [hid, hrow'] at hrow
  obtain rfl := Option.some.inj hrow
  exact hmodel.symm.trans hmodel'

theorem isActive_of_loaded {env : SweepEnv} {store : Store} {a : EmbeddingPair}
    (ha : a ∈ env.loadActiveCandidates store) : IsActive store a.1.id := by
  obtain ⟨row, hrow, -, hstatus⟩ := mem_getActiveParticlesWithEmbeddings ha
  exact ⟨row, hrow, hstatus⟩

/-- The most similar claim is one of those compared. -/
theorem mem_of_mostSimilar {env : DocumentSweep} {superseding : List EmbeddingPair}
    {embedding : Embedding} {sim : ℚ} {best : Particle}
    (h : mostSimilar env superseding embedding = (sim, some best)) :
    ∃ pair ∈ superseding, pair.1 = best := by
  have hfold : ∀ (l : List EmbeddingPair) (held : ℚ × Option Particle),
      (∀ p, held.2 = some p → ∃ pair ∈ superseding, pair.1 = p) → l ⊆ superseding →
      ∀ p, (l.foldl (fun best pair =>
        let sim := env.ingest.core.cosineSimilarity pair.2 embedding
        if best.1 < sim then (sim, some pair.1) else best) held).2 = some p →
        ∃ pair ∈ superseding, pair.1 = p := by
    intro l
    induction l with
    | nil => exact fun held hheld _ => hheld
    | cons pair l ih =>
        intro held hheld hsub
        rw [List.foldl_cons]
        refine ih _ ?_ fun q hq => hsub (List.mem_cons_of_mem _ hq)
        intro p hp
        dsimp only at hp
        split_ifs at hp
        · exact ⟨pair, hsub List.mem_cons_self, Option.some.inj hp⟩
        · exact hheld p hp
  refine hfold superseding (0, none) (by simp) (List.Subset.refl _) best ?_
  exact congrArg Prod.snd h

/-- A pair of the document sweep joins two distinct ACTIVE claims. -/
theorem mem_documentCandidates {env : DocumentSweep} {store : Store} {c : DocumentCandidate}
    (h : c ∈ documentCandidates env store) :
    IsActive store c.superseding.id ∧ c.superseding.id ≠ c.superseded.id := by
  unfold documentCandidates at h
  split_ifs at h with henabled
  · obtain ⟨pairs, hpairs⟩ : ∃ pairs, iterSupersessionEntryPairs env.documents store = .ok pairs := by
      cases hpairs : iterSupersessionEntryPairs env.documents store with
      | error reason =>
          rw [hpairs] at h
          cases h
      | ok pairs => exact ⟨pairs, rfl⟩
    rw [hpairs] at h
    obtain ⟨rows, -, hrows⟩ := bind_eq_ok.1 hpairs
    obtain rfl := Except.ok.inj hrows
    obtain ⟨⟨superseding, superseded⟩, hpair, hc⟩ := List.mem_flatMap.1 (mem_sortBy.1 h)
    obtain ⟨hother, -⟩ := mem_supersessionPairs.1 hpair
    obtain ⟨sub, hsub, hbest⟩ := List.mem_filterMap.1 hc
    obtain ⟨hsubLoaded, hsubEntry⟩ := List.mem_filter.1 hsub
    dsimp only at hbest
    split at hbest
    · cases hbest
    · rename_i sim best hsimilar
      split_ifs at hbest
      obtain rfl := Option.some.inj hbest
      obtain ⟨sup, hsup, rfl⟩ := mem_of_mostSimilar hsimilar
      obtain ⟨hsupLoaded, hsupEntry⟩ := List.mem_filter.1 hsup
      refine ⟨isActive_of_loaded hsupLoaded, fun hid => ?_⟩
      -- a claim is grouped under one entry only
      have hsame := loaded_inj hsupLoaded hsubLoaded hid
      simp only [decide_eq_true_eq] at hsubEntry hsupEntry
      rw [hsame, hsubEntry] at hsupEntry
      exact hother (Option.some.inj hsupEntry).symm
  · cases h

theorem mem_positionPairs {α : Type} {l : List α} {pair : α × α} (h : pair ∈ positionPairs l) :
    pair.1 ∈ l ∧ pair.2 ∈ l := by
  induction l with
  | nil => simp [positionPairs] at h
  | cons a l ih =>
      rcases List.mem_append.1 h with h | h
      · obtain ⟨b, hb, rfl⟩ := List.mem_map.1 h
        exact ⟨List.mem_cons_self, List.mem_cons_of_mem _ hb⟩
      · exact ⟨List.mem_cons_of_mem _ (ih h).1, List.mem_cons_of_mem _ (ih h).2⟩

theorem loaded_of_mem_get {env : IngestEnv} {pairs : List EmbeddingPair}
    {speaker : Option SpeakerKey} {subject : String} {pair : EmbeddingPair}
    (h : pair ∈ (SubjectIndex.build env pairs speaker).get subject) : pair ∈ pairs := by
  obtain ⟨entry, hentry, rfl⟩ := List.mem_map.1 h
  obtain ⟨pair, hpair, hkeys⟩ := List.mem_flatMap.1 (List.mem_filter.1 hentry).1
  split_ifs at hkeys
  · obtain ⟨key, -, rfl⟩ := List.mem_map.1 hkeys
    exact hpair
  · cases hkeys

/-- A claim is not newer than itself. -/
theorem pairUpdateOrder_self (env : UpdateSweep) (store : Store) (p : Particle) :
    pairUpdateOrder env store p p = none := by
  unfold pairUpdateOrder
  split_ifs
  · cases sourceDate store p <;> simp
  · rfl

/-- A pair of the update sweep joins two distinct ACTIVE claims. -/
theorem mem_sweepUpdateCandidates {env : UpdateSweep} {store : Store} {c : UpdateCandidate}
    (h : c ∈ sweepUpdateCandidates env store) :
    IsActive store c.newer.id ∧ c.newer.id ≠ c.older.id := by
  unfold sweepUpdateCandidates at h
  split_ifs at h with henabled
  · rw [mem_sortBy] at h
    obtain ⟨pair, hpair, hc⟩ := List.mem_filterMap.1 (List.mem_filter.1 h).1
    obtain ⟨subject, -, hposition⟩ := List.mem_flatMap.1 (mem_of_mem_firstByKey hpair)
    have ha := loaded_of_mem_get (mem_positionPairs hposition).1
    have hb := loaded_of_mem_get (mem_positionPairs hposition).2
    unfold updateCandidate at hc
    dsimp only at hc
    split_ifs at hc
    obtain ⟨order, horder, hc⟩ := Option.bind_eq_some_iff.1 hc
    have hne : pair.1.1.id ≠ pair.2.1.id := by
      intro hid
      rw [loaded_inj ha hb hid, pairUpdateOrder_self] at horder
      cases horder
    by_cases hnewer : 0 < order
    · simp only [hnewer, if_true] at hc
      split_ifs at hc
      obtain rfl := Option.some.inj hc
      exact ⟨isActive_of_loaded ha, hne⟩
    · simp only [hnewer, if_false] at hc
      split_ifs at hc
      obtain rfl := Option.some.inj hc
      exact ⟨isActive_of_loaded hb, hne.symm⟩
  · cases h

end Candidates

/-! ### The steps -/

/-- What a pair of the document sweep asks of the state before it: a winner to be named was not
demoted earlier in the sweep, and no other writer retires a winner. -/
structure DocumentMeets (env : DocumentSweep) (winners : List String) (s : SweepState)
    (c : DocumentCandidate) : Prop where
  winner : c.superseded.id ∉ s.demotedIds → documentSupersedes env s.probed c = true →
    c.superseding.id ∉ s.demotedIds
  spares : SparesWinners env.toSweepEnv winners s

/-- What a pair of the update sweep asks: no other writer retires a winner. -/
def UpdateMeets (env : UpdateSweep) (winners : List String) (s : UpdateState)
    (_ : UpdateCandidate) : Prop :=
  SparesWinners env.toSweepEnv winners s.toSweepState

/-- **What a pair of the document sweep does**: nothing, a probe, or a demotion. -/
theorem documentStep_cases {env : DocumentSweep} {s s' : SweepState} {c : DocumentCandidate}
    (h : documentStep env s c = some s') :
    s' = s ∨ Quiet env.toSweepEnv s s' ∨
      (c.superseded.id ∉ s.demotedIds ∧ documentSupersedes env s.probed c = true ∧
        Demotes env.toSweepEnv c.superseded.id c.superseding.id s s') := by
  unfold documentStep at h
  split_ifs at h with hcap hdone hsupersedes hdry
  · exact Or.inl (Option.some.inj h).symm
  · exact Or.inl (Option.some.inj h).symm
  · obtain rfl := Option.some.inj h
    exact Or.inr (Or.inl ⟨rfl, List.subset_append_left _ _, fun _ hactive => hactive⟩)
  · obtain ⟨store, hstore, hs'⟩ := Option.bind_eq_some_iff.1 h
    obtain rfl := Option.some.inj hs'
    have hwrite := toOption_eq_some.1 hstore
    exact Or.inr (Or.inr ⟨hdone, hsupersedes, rfl, rfl,
      fun _ hne hactive => hactive.updateParticleStatus hwrite hne⟩)
  · obtain rfl := Option.some.inj h
    exact Or.inr (Or.inl ⟨rfl, List.Subset.refl _, fun _ hactive => hactive⟩)

/-- A review retires nothing. -/
theorem quiet_openReview {env : UpdateSweep} {s s' : UpdateState} {k : ℕ} {c : UpdateCandidate}
    (h : openReview env s k c = some s') :
    s'.written = s.written ∧ s'.demotedIds = s.demotedIds ∧
      ∀ id, IsActive s.store id → IsActive s'.store id := by
  unfold openReview at h
  dsimp only at h
  split_ifs at h
  · obtain rfl := Option.some.inj h
    exact ⟨rfl, rfl, fun _ hactive => hactive⟩
  · obtain rfl := Option.some.inj h
    exact ⟨rfl, rfl, fun _ hactive => hactive⟩
  · obtain ⟨store, hstore, hs'⟩ := Option.bind_eq_some_iff.1 h
    obtain rfl := Option.some.inj hs'
    have hwrite := toOption_eq_some.1 hstore
    exact ⟨rfl, rfl, fun _ hactive => hactive.insertValidated hwrite⟩

/-- A pair that is an update demotes the older claim at most. -/
theorem demoteOlder_cases {env : UpdateSweep} {s s' : UpdateState} {c : UpdateCandidate}
    (h : demoteOlder env s c = some s') :
    (s'.written = s.written ∧ s.demotedIds ⊆ s'.demotedIds ∧ s'.store = s.store) ∨
      (s'.written = s.written ++ [(c.older.id, c.newer.id)] ∧
        s'.demotedIds = s.demotedIds ++ [c.older.id] ∧
        ∀ id, id ≠ c.older.id → IsActive s.store id → IsActive s'.store id) := by
  unfold demoteOlder at h
  dsimp only at h
  split_ifs at h with hverdict hdry
  · obtain rfl := Option.some.inj h
    exact Or.inl ⟨rfl, List.Subset.refl _, rfl⟩
  · obtain rfl := Option.some.inj h
    exact Or.inl ⟨rfl, List.subset_append_left _ _, rfl⟩
  · obtain ⟨store, hstore, hs'⟩ := Option.bind_eq_some_iff.1 h
    obtain rfl := Option.some.inj hs'
    have hwrite := toOption_eq_some.1 hstore
    exact Or.inr ⟨rfl, rfl, fun _ hne hactive =>
      (hactive.updateParticleStatus hwrite hne).setSupersedesIfUnset _ _⟩

/-- **What a pair of the update sweep does**: nothing, probes with or without a review, or a demotion
of a claim in favour of one that the sweep has not demoted. -/
theorem updateStep_cases {env : UpdateSweep} {s s' : UpdateState} {c : UpdateCandidate}
    (h : updateStep env s c = some s') :
    s'.toSweepState = s.toSweepState ∨ Quiet env.toSweepEnv s.toSweepState s'.toSweepState ∨
      (c.newer.id ∉ s.demotedIds ∧
        Demotes env.toSweepEnv c.older.id c.newer.id s.toSweepState s'.toSweepState) := by
  unfold updateStep at h
  split_ifs at h with hcap hdone
  · obtain rfl := Option.some.inj h
    exact Or.inl rfl
  · obtain rfl := Option.some.inj h
    exact Or.inl rfl
  · dsimp only at h
    split at h
    · obtain rfl := Option.some.inj h
      exact Or.inr (Or.inl ⟨rfl, List.Subset.refl _, fun _ hactive => hactive⟩)
    · obtain rfl := Option.some.inj h
      exact Or.inr (Or.inl ⟨rfl, List.Subset.refl _, fun _ hactive => hactive⟩)
    · obtain ⟨hwritten, hdemoted, hkept⟩ := quiet_openReview h
      refine Or.inr (Or.inl ⟨hwritten, ?_, hkept⟩)
      rw [hdemoted]
      exact List.Subset.refl _
    · rcases demoteOlder_cases h with ⟨hwritten, hdemoted, hstore⟩ | hdemotes
      · refine Or.inr (Or.inl ⟨hwritten, hdemoted, fun _ hactive => ?_⟩)
        rw [hstore]
        exact hactive
      · exact Or.inr (Or.inr ⟨fun hnewer => hdone (Or.inl hnewer), hdemotes⟩)

/-! ### The runs -/

/-- Every demotion that a run writes names a winner that is ACTIVE in the store it is written to, and
following winners from any claim demoted reaches an ACTIVE claim, in every state of the run. -/
structure WinnersActive {σ γ : Type} (env : SweepEnv) (step : σ → γ → Option σ)
    (sweep : σ → SweepState) (winner : γ → String) (start : σ) (candidates : List γ) : Prop where
  atWrite : ∀ before c after s s', candidates = before ++ c :: after →
    run step start before = some s → step s c = some s' →
    (sweep s').written ≠ (sweep s).written →
    (∃ loser, (sweep s').written = (sweep s).written ++ [(loser, winner c)]) ∧
      IsActive (env.others (sweep s).probed (sweep s).store) (winner c)
  chain : ∀ before after s, candidates = before ++ after → run step start before = some s →
    ∀ d ∈ (sweep s).written, ∃ top, TransGen (Leads (sweep s).written) d.1 top ∧
      IsActive (sweep s).store top

/-- A sweep whose steps keep the invariant, and name winners that it has not demoted, names ACTIVE
winners. -/
theorem winnersActive_of_steps {σ γ : Type} {env : SweepEnv} {step : σ → γ → Option σ}
    {sweep : σ → SweepState} {winner : γ → String} {start : σ} {candidates : List γ}
    {Meets : σ → γ → Prop} (winners : List String)
    (hcandidate : ∀ c ∈ candidates, winner c ∈ winners)
    (hstep : ∀ s c s', c ∈ candidates → Meets s c → step s c = some s' →
      sweep s' = sweep s ∨ SparesWinners env winners (sweep s) ∧ (Quiet env (sweep s) (sweep s') ∨
        ∃ loser, winner c ≠ loser ∧ winner c ∉ (sweep s).demotedIds ∧
          Demotes env loser (winner c) (sweep s) (sweep s')))
    (hmeets : StepsMeet step Meets start candidates) (hstart : WinnersLive winners (sweep start)) :
    WinnersActive env step sweep winner start candidates := by
  have hmeets' : StepsMeet step (fun s c => c ∈ candidates ∧ Meets s c) start candidates := by
    intro before c after s hsplit hrun
    exact ⟨by simp [hsplit], hmeets before c after s hsplit hrun⟩
  have hlive : ∀ {before after : List γ} {s : σ}, candidates = before ++ after →
      run step start before = some s → WinnersLive winners (sweep s) := by
    refine hmeets'.invariant (fun s => WinnersLive winners (sweep s)) ?_ hstart
    intro s c s' hinv ⟨hmem, hmeet⟩ hs'
    rcases hstep s c s' hmem hmeet hs' with
      hsame | ⟨hspares, hquiet | ⟨loser, hself, hnot, hdemotes⟩⟩
    · rw [hsame]
      exact hinv
    · exact hinv.quiet hspares hquiet
    · exact (hinv.demotes hspares hdemotes (hcandidate c hmem) hself hnot).1
  refine ⟨?_, fun before after s hsplit hrun d hd => (hlive hsplit hrun).exists_active hd⟩
  intro before c after s s' hsplit hrun hs' hwritten
  obtain ⟨hmem, hmeet⟩ := hmeets' before c after s hsplit hrun
  rcases hstep s c s' hmem hmeet hs' with
    hsame | ⟨hspares, hquiet | ⟨loser, hself, hnot, hdemotes⟩⟩
  · exact absurd (by rw [hsame]) hwritten
  · exact absurd hquiet.1 hwritten
  · have hinv := hlive hsplit hrun
    exact ⟨⟨loser, hdemotes.1⟩,
      (hinv.demotes hspares hdemotes (hcandidate c hmem) hself hnot).2⟩

/-- The winners of a run of the document sweep. -/
def documentWinners (env : DocumentSweep) (store : Store) : List String :=
  (documentCandidates env store).map (·.superseding.id)

/-- The winners of a run of the update sweep. -/
def updateWinners (env : UpdateSweep) (store : Store) : List String :=
  (sweepUpdateCandidates env store).map (·.newer.id)

/-- **A sweep never retires in favour of a retired claim**: in every run of the document sweep in
which no pair acted on has a winner demoted earlier in the sweep, and in every run of the update
sweep, each demotion written names a winner that is ACTIVE when it is written, and following winners
reaches an ACTIVE claim, as long as no other writer retires a winner between. -/
theorem sweep_winnersActive (documents : DocumentSweep) (updates : UpdateSweep) (store : Store) :
    (StepsMeet (documentStep documents)
        (DocumentMeets documents (documentWinners documents store))
        { store := store } (documentCandidates documents store) →
      WinnersActive documents.toSweepEnv (documentStep documents) id (·.superseding.id)
        { store := store } (documentCandidates documents store)) ∧
    (StepsMeet (updateStep updates) (UpdateMeets updates (updateWinners updates store))
        { store := store } (sweepUpdateCandidates updates store) →
      WinnersActive updates.toSweepEnv (updateStep updates) UpdateState.toSweepState (·.newer.id)
        { store := store } (sweepUpdateCandidates updates store)) := by
  constructor
  · intro hmeets
    refine winnersActive_of_steps (documentWinners documents store)
      (fun c hc => List.mem_map_of_mem hc) ?_ hmeets (winnersLive_start ?_)
    · intro s c s' hc hmeet hs'
      rcases documentStep_cases hs' with hsame | hquiet | ⟨hloser, hsupersedes, hdemotes⟩
      · exact Or.inl hsame
      · exact Or.inr ⟨hmeet.spares, Or.inl hquiet⟩
      · exact Or.inr ⟨hmeet.spares, Or.inr ⟨_, (mem_documentCandidates hc).2,
          hmeet.winner hloser hsupersedes, hdemotes⟩⟩
    · intro w hw
      obtain ⟨c, hc, rfl⟩ := List.mem_map.1 hw
      exact (mem_documentCandidates hc).1
  · intro hmeets
    refine winnersActive_of_steps (updateWinners updates store)
      (fun c hc => List.mem_map_of_mem hc) ?_ hmeets (winnersLive_start ?_)
    · intro s c s' hc hmeet hs'
      rcases updateStep_cases hs' with hsame | hquiet | ⟨hnewer, hdemotes⟩
      · exact Or.inl hsame
      · exact Or.inr ⟨hmeet, Or.inl hquiet⟩
      · exact Or.inr ⟨hmeet, Or.inr ⟨_, (mem_sweepUpdateCandidates hc).2, hnewer, hdemotes⟩⟩
    · intro w hw
      obtain ⟨c, hc, rfl⟩ := List.mem_map.1 hw
      exact (mem_sweepUpdateCandidates hc).1

/-! ### Two documents -/

/-- A probe that confirms every pair, and the ladder that follows it. -/
def confirmingSweep : DocumentSweep where
  ingest := .verbatim
  table := .documented
  now := 5
  probeCap := 10
  documents :=
    { parseUri := fun uri => some (uri, "")
      visitOrder := id
      mem_visitOrder := fun _ _ => Iff.rfl }
  contradictionSignal _ _ _ := some true
  resolveConflict _ _ signal := if signal then .DOCUMENT_SUPERSEDES else .CORROBORATES

/-- A sweep that is told that every older value has changed. -/
def changingSweep : UpdateSweep where
  ingest := .verbatim
  table := .documented
  now := 5
  probeCap := 10
  rules := .documented
  isGenericInstancePair _ _ := false
  sameLineage _ _ _ := true
  askedFirst _ := true
  contradictionSignal _ _ _ := none
  slot _ _ _ := some .CHANGES
  resolveConflict _ _ _ := .UPDATE_SUPERSEDES
  contentHash := id
  modelId := LEGACY_EMBEDDING_MODEL_ID
  records := .documented
  recordId _ := "record"

/-- A claim about one subject, from a snapshot of an entry. -/
def claimFrom (id entryId snapshotId : String) : Particle where
  id := id
  content := id
  subjectIds := ["subject"]
  provenance := [{ type := .SOURCE, corpusEntryId := entryId, snapshotId := some snapshotId }]

/-- A store with the documents `1` and `2`, where `1` supersedes `2` and `2` the keys `back`, and one
claim from each, that of `1` dated later. -/
def twoDocuments (back : List String) : Store :=
  (do
    let first : CorpusEntryRow := { entryId := "A", documentSupersession := some ⟨"1", ["2"], []⟩ }
    let second : CorpusEntryRow := { entryId := "B", documentSupersession := some ⟨"2", back, []⟩ }
    let later := { responseRow "A1" "A" 2 .COMPLETE with contentPublishedAt := some 2 }
    let earlier := { responseRow "B1" "B" 1 .COMPLETE with contentPublishedAt := some 1 }
    let entries ← [first, second].foldlM Table.insert? Table.empty
    let snapshots ← [later, earlier].foldlM Table.insert? Table.empty
    if hids : entries.get? "" = none then
      let store : Store := { entries := entries, snapshots := snapshots, entryIds := hids }
      ([claimFrom "p" "A" "A1", claimFrom "q" "B" "B1"].foldlM (fun store p =>
        insertParticle id LEGACY_EMBEDDING_MODEL_ID store p (some [1])) store).toOption
    else none).getD {}

/-- What a run wrote, and the statuses of `p` and of `q` after it. -/
def sweptStatuses (s : Option SweepState) :
    Option (List (String × String)) × List (Option Status) :=
  (s.map SweepState.written, ["p", "q"].map fun id =>
    (s.bind fun s => s.store.get? id).map fun row => row.model.status)

theorem exists_of_sweptStatuses {s : Option SweepState} {written : List (String × String)}
    {statuses : List (Option Status)} (h : sweptStatuses s = (some written, statuses)) :
    ∃ swept, s = some swept ∧ swept.written = written :=
  Option.map_eq_some_iff.1 (congrArg Prod.fst h)

/-- The winner that a chain ends at is named by a demotion. -/
theorem won_of_chain {written : List (String × String)} {a top : String}
    (h : TransGen (Leads written) a top) : top ∈ written.map Prod.snd := by
  obtain ⟨b, -, hb⟩ := TransGen.tail'_iff.1 h
  exact List.mem_map.2 ⟨_, hb, rfl⟩

theorem sweep_winnersActive_ordered :
    (∃ s, run (documentStep confirmingSweep) { store := twoDocuments [] }
        (documentCandidates confirmingSweep (twoDocuments [])) = some s ∧
      s.written = [("q", "p")] ∧ ∃ top, TransGen (Leads s.written) "q" top ∧
        IsActive s.store top) ∧
    ∃ s, run (updateStep changingSweep) { store := twoDocuments [] }
        (sweepUpdateCandidates changingSweep (twoDocuments [])) = some s ∧
      s.written = [("q", "p")] ∧ ∃ top, TransGen (Leads s.written) "q" top ∧
        IsActive s.store top := by
  constructor
  · have hone : (documentCandidates confirmingSweep (twoDocuments [])).length = 1 := by
      decide +kernel
    have hmeets : StepsMeet (documentStep confirmingSweep)
        (DocumentMeets confirmingSweep (documentWinners confirmingSweep (twoDocuments [])))
        { store := twoDocuments [] } (documentCandidates confirmingSweep (twoDocuments [])) := by
      intro before c after s hsplit hrun
      rw [hsplit, List.length_append, List.length_cons] at hone
      obtain rfl : before = [] := List.length_eq_zero_iff.1 (by omega)
      obtain rfl := Option.some.inj hrun
      exact ⟨fun _ _ => by simp, fun _ _ hactive => hactive⟩
    have hswept : sweptStatuses (run (documentStep confirmingSweep) { store := twoDocuments [] }
        (documentCandidates confirmingSweep (twoDocuments []))) =
          (some [("q", "p")], [some .ACTIVE, some .PROVENANCE_STALE]) := by
      decide +kernel
    have hactive := (sweep_winnersActive confirmingSweep changingSweep (twoDocuments [])).1 hmeets
    obtain ⟨s, hrun, hwritten⟩ := exists_of_sweptStatuses hswept
    exact ⟨s, hrun, hwritten,
      hactive.chain _ [] s (by simp) hrun ("q", "p") (by simp [hwritten])⟩
  · have hmeets : StepsMeet (updateStep changingSweep)
        (UpdateMeets changingSweep (updateWinners changingSweep (twoDocuments [])))
        { store := twoDocuments [] } (sweepUpdateCandidates changingSweep (twoDocuments [])) :=
      fun _ _ _ _ _ _ _ _ hactive => hactive
    have hswept : sweptStatuses ((run (updateStep changingSweep) { store := twoDocuments [] }
        (sweepUpdateCandidates changingSweep (twoDocuments []))).map UpdateState.toSweepState) =
          (some [("q", "p")], [some .ACTIVE, some .PROVENANCE_STALE]) := by
      decide +kernel
    have hactive := (sweep_winnersActive confirmingSweep changingSweep (twoDocuments [])).2 hmeets
    obtain ⟨swept, hmap, hwritten⟩ := exists_of_sweptStatuses hswept
    obtain ⟨s, hrun, rfl⟩ := Option.map_eq_some_iff.1 hmap
    exact ⟨s, hrun, hwritten,
      hactive.chain _ [] s (by simp) hrun ("q", "p") (by simp [hwritten])⟩

/-- **Two documents that supersede each other retire both claims**: `q` in favour of `p`, and then
`p` in favour of `q`. -/
theorem cycle_retires_both :
    ¬ WinnersActive confirmingSweep.toSweepEnv (documentStep confirmingSweep) id (·.superseding.id)
      { store := twoDocuments ["1"] }
      (documentCandidates confirmingSweep (twoDocuments ["1"])) := by
  intro hactive
  have hswept : sweptStatuses (run (documentStep confirmingSweep) { store := twoDocuments ["1"] }
      (documentCandidates confirmingSweep (twoDocuments ["1"]))) =
        (some [("q", "p"), ("p", "q")], [some .PROVENANCE_STALE, some .PROVENANCE_STALE]) := by
    decide +kernel
  obtain ⟨s, hrun, hwritten⟩ := exists_of_sweptStatuses hswept
  rw [hrun] at hswept
  obtain ⟨⟨p, hp, hpstale⟩, ⟨q, hq, hqstale⟩⟩ : (∃ row, s.store.get? "p" = some row ∧
        row.model.status = .PROVENANCE_STALE) ∧
      ∃ row, s.store.get? "q" = some row ∧ row.model.status = .PROVENANCE_STALE := by
    simpa [sweptStatuses] using congrArg Prod.snd hswept
  obtain ⟨top, hchain, row, hrow, hstatus⟩ :=
    hactive.chain _ [] s (by simp) hrun ("q", "p") (by simp [hwritten])
  have htop : top = "p" ∨ top = "q" := by
    simpa [hwritten] using won_of_chain hchain
  rcases htop with rfl | rfl
  · obtain rfl := Option.some.inj (hp.symm.trans hrow)
    rw [hstatus] at hpstale
    cases hpstale
  · obtain rfl := Option.some.inj (hq.symm.trans hrow)
    rw [hstatus] at hqstale
    cases hqstale

end ParticlesEngine
