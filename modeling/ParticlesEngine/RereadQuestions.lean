/-
**The questions of a re-read, and what their merges keep.**

The finder pairs two readings of one passage by gates that look at the two alone.  The questions are put
between the first reading of a component and each other member, and these two may never have been
paired.  Some gates pass along a chain of pairs: the one entry, which only grows, and the stance holder.
The others do not, and are looked at again when the question is made: the snapshots and the subjects.

Main definitions:

* `Connected` — joined by a chain of pairs;
* `ReadingOf` — a reading of an entry by a holder, which is what passes along a chain.

Main results:

* `ReadingOf.of_connected` — **what a chain of pairs keeps**;
* `readingComponents_nodup` — no claim is in two components;
* `planQuestions_keeps_survivors` — **each claim is asked as a copy at most once and never survives
  another, and whichever questions merge, each component keeps its first reading**.
-/

import Mathlib.Data.Int.ConditionallyCompleteOrder
import ParticlesEngine.RereadMerge

set_option relaxedAutoImplicit false
set_option autoImplicit false

open SortBy FirstByKey Relation

namespace ParticlesEngine

/-! ### Chains of pairs -/

section Chains

variable {pairs : List (String × String)}

/-- The pairs name the two ids together, in one order or the other. -/
def Paired (pairs : List (String × String)) (a b : String) : Prop := (a, b) ∈ pairs ∨ (b, a) ∈ pairs

/-- Two ids that a chain of pairs joins. -/
def Connected (pairs : List (String × String)) : String → String → Prop :=
  ReflTransGen (Paired pairs)

theorem Connected.symm {a b : String} (h : Connected pairs a b) : Connected pairs b a := by
  have : Std.Symm (Paired pairs) := ⟨fun _ _ hab => hab.symm⟩
  exact ReflTransGen.stdSymm.symm _ _ h

theorem mem_partners {a b : String} : b ∈ partners pairs a ↔ Paired pairs a b := by
  simp only [partners, Paired, List.mem_toFinset, List.mem_append, List.mem_map, List.mem_filter,
    decide_eq_true_eq]
  constructor
  · rintro (⟨⟨x, y⟩, ⟨hmem, rfl⟩, rfl⟩ | ⟨⟨x, y⟩, ⟨hmem, rfl⟩, rfl⟩)
    · exact Or.inl hmem
    · exact Or.inr hmem
  · rintro (hmem | hmem)
    · exact Or.inl ⟨(a, b), ⟨hmem, rfl⟩, rfl⟩
    · exact Or.inr ⟨(b, a), ⟨hmem, rfl⟩, rfl⟩

theorem mem_pairedIds {id : String} : id ∈ pairedIds pairs ↔ ∃ other, Paired pairs id other := by
  simp only [pairedIds, mem_sortBy, mem_firstByKey_id, List.mem_flatMap, List.mem_cons,
    List.not_mem_nil, or_false, Paired]
  constructor
  · rintro ⟨⟨x, y⟩, hmem, rfl | rfl⟩
    · exact ⟨y, Or.inl hmem⟩
    · exact ⟨x, Or.inr hmem⟩
  · rintro ⟨other, hmem | hmem⟩
    · exact ⟨_, hmem, Or.inl rfl⟩
    · exact ⟨_, hmem, Or.inr rfl⟩

theorem nodup_pairedIds (pairs : List (String × String)) : (pairedIds pairs).Nodup := by
  have hfirst : ((firstByKey id [] (pairs.flatMap fun pair => [pair.1, pair.2])).map id).Nodup :=
    nodup_map_firstByKey
  rw [List.map_id] at hfirst
  exact nodup_sortBy hfirst

theorem partners_subset (id : String) : partners pairs id ⊆ (pairedIds pairs).toFinset := by
  intro other hother
  rw [List.mem_toFinset, mem_pairedIds]
  exact ⟨id, (mem_partners.1 hother).symm⟩

theorem partners_symm (a b : String) (h : b ∈ partners pairs a) : a ∈ partners pairs b :=
  mem_partners.2 (mem_partners.1 h).symm

theorem mem_pairedIds_of_connected {a b : String} (ha : a ∈ pairedIds pairs)
    (h : Connected pairs a b) : b ∈ pairedIds pairs := by
  cases h with
  | refl => exact ha
  | tail _ hstep => exact mem_pairedIds.2 ⟨_, hstep.symm⟩

/-- The walk from an id finds what a chain of pairs joins to it. -/
theorem mem_closure_partners {a b : String} :
    b ∈ Closure.closure (partners pairs) (pairedIds pairs).toFinset {a} ↔ Connected pairs a b := by
  rw [Closure.mem_closure partners_subset]
  have hsame : ∀ x y, ReflTransGen (fun a b => b ∈ partners pairs a) x y ↔ Connected pairs x y := by
    intro x y
    have hrel : (fun a b => b ∈ partners pairs a) = Paired pairs := by
      funext c d
      exact propext mem_partners
    rw [hrel]
    exact Iff.rfl
  simp [hsame]

end Chains

/-! ### What a chain of pairs keeps -/

section Population

variable {core : CorePackage} {appendOnly : String → Bool}

/-- A reading of an entry that only grows, by a holder, and of no other entry. -/
structure ReadingOf (appendOnly : String → Bool) (entry : String) (holder : Option String)
    (facts : ClaimFacts) : Prop where
  sourcesOnly : facts.sourcesOnly = true
  grows : appendOnly entry = true
  entry : ∀ e, e ∈ facts.entryIds ↔ e = entry
  holder : facts.holder = holder

/-- The facts that `_facts` makes name an entry where every reference is a source. -/
theorem claimFacts_entryIds (core : CorePackage) (store : Store) (p : Particle)
    (h : (claimFacts core store p).sourcesOnly = true) : (claimFacts core store p).entryIds ≠ [] := by
  simp only [claimFacts, Bool.and_eq_true, decide_eq_true_eq, ne_eq] at h
  obtain ⟨⟨⟨hrefs, hall⟩, -⟩, -⟩ := h
  obtain ⟨ref, href⟩ := List.exists_mem_of_ne_nil _ hrefs
  have hsources : p.provenance.filter (fun ref => ref.type = .SOURCE) = p.provenance :=
    List.filter_sublist.eq_of_length hall
  refine List.ne_nil_of_mem (a := ref.corpusEntryId) ?_
  simp only [claimFacts, hsources]
  exact mem_firstByKey_id.2 (List.mem_map_of_mem href)

/-- **A pair of the population is two readings of one entry by one holder.** -/
theorem exists_readingOf {a b : ClaimFacts} (h : inPopulation core appendOnly a b = true)
    (ha : a.entryIds ≠ []) (hb : b.entryIds ≠ []) :
    ∃ entry, ReadingOf appendOnly entry a.holder a ∧ ReadingOf appendOnly entry a.holder b := by
  rw [inPopulation, Bool.and_eq_true, Bool.and_eq_true] at h
  obtain ⟨⟨hsa, hsb⟩, h⟩ := h
  split at h
  · next entry hentries =>
      simp only [Bool.and_eq_true, decide_eq_true_eq] at h
      obtain ⟨⟨⟨hgrows, -⟩, hholder⟩, -⟩ := h
      have hmem : ∀ e, e ∈ a.entryIds ++ b.entryIds → e = entry := by
        intro e he
        rw [← mem_firstByKey_id, hentries] at he
        exact List.mem_singleton.1 he
      have hone : ∀ l : List String, l ⊆ a.entryIds ++ b.entryIds → l ≠ [] →
          ∀ e, e ∈ l ↔ e = entry := by
        intro l hl hne e
        obtain ⟨x, hx⟩ := List.exists_mem_of_ne_nil l hne
        obtain rfl := hmem x (hl hx)
        exact ⟨fun he => hmem e (hl he), fun he => he ▸ hx⟩
      exact ⟨entry, ⟨hsa, hgrows, hone _ (List.subset_append_left _ _) ha, rfl⟩,
        ⟨hsb, hgrows, hone _ (List.subset_append_right _ _) hb, hholder.symm⟩⟩
  · cases h

/-- An entry is determined by a reading of it. -/
theorem ReadingOf.entry_eq {e e' : String} {h h' : Option String} {facts : ClaimFacts}
    (hr : ReadingOf appendOnly e h facts) (hr' : ReadingOf appendOnly e' h' facts) : e = e' :=
  (hr'.entry e).1 ((hr.entry e).2 rfl)

/-- Pairs of the population, over facts that are found under their ids and that name an entry where
every reference is a source. -/
structure PopulationPairs (core : CorePackage) (appendOnly : String → Bool)
    (pairs : List (String × String)) (facts : String → Option ClaimFacts) : Prop where
  id_eq : ∀ {id : String} {claim : ClaimFacts}, facts id = some claim → claim.id = id
  entryIds : ∀ {id : String} {claim : ClaimFacts}, facts id = some claim →
    claim.sourcesOnly = true → claim.entryIds ≠ []
  pair : ∀ pair ∈ pairs, ∃ a b, facts pair.1 = some a ∧ facts pair.2 = some b ∧
    inPopulation core appendOnly a b = true

variable {pairs : List (String × String)} {facts : String → Option ClaimFacts}

/-- Paired ids have facts, and these are readings of one entry by one holder. -/
theorem PopulationPairs.readings (hp : PopulationPairs core appendOnly pairs facts) {a b : String}
    (h : Paired pairs a b) : ∃ fa fb entry holder, facts a = some fa ∧ facts b = some fb ∧
      ReadingOf appendOnly entry holder fa ∧ ReadingOf appendOnly entry holder fb := by
  have hpair : ∀ x y, (x, y) ∈ pairs → ∃ fx fy entry holder, facts x = some fx ∧
      facts y = some fy ∧ ReadingOf appendOnly entry holder fx ∧
        ReadingOf appendOnly entry holder fy := by
    intro x y hmem
    obtain ⟨fx, fy, hx, hy, hin⟩ := hp.pair _ hmem
    have hsources : fx.sourcesOnly = true ∧ fy.sourcesOnly = true := by
      rw [inPopulation, Bool.and_eq_true, Bool.and_eq_true] at hin
      exact hin.1
    obtain ⟨entry, hrx, hry⟩ :=
      exists_readingOf hin (hp.entryIds hx hsources.1) (hp.entryIds hy hsources.2)
    exact ⟨fx, fy, entry, _, hx, hy, hrx, hry⟩
  rcases h with hmem | hmem
  · exact hpair a b hmem
  · obtain ⟨fb, fa, entry, holder, hb, ha, hrb, hra⟩ := hpair b a hmem
    exact ⟨fa, fb, entry, holder, ha, hb, hra, hrb⟩

/-- **What a chain of pairs keeps**: the entry, which only grows, and the holder. -/
theorem ReadingOf.of_connected (hp : PopulationPairs core appendOnly pairs facts) {a b : String}
    (h : Connected pairs a b) {entry : String} {holder : Option String} {fa : ClaimFacts}
    (hfa : facts a = some fa) (hra : ReadingOf appendOnly entry holder fa) :
    ∃ fb, facts b = some fb ∧ ReadingOf appendOnly entry holder fb := by
  induction h with
  | refl => exact ⟨fa, hfa, hra⟩
  | @tail b c _ hbc ih =>
      obtain ⟨fb, hfb, hrb⟩ := ih
      obtain ⟨fb', fc, entry', holder', hfb', hfc, hrb', hrc⟩ := hp.readings hbc
      obtain rfl := Option.some.inj (hfb.symm.trans hfb')
      obtain rfl := hrb.entry_eq hrb'
      obtain rfl : holder = holder' := hrb.holder.symm.trans hrb'.holder
      exact ⟨fc, hfc, hrc⟩

/-- Every paired id has facts. -/
theorem PopulationPairs.exists_facts (hp : PopulationPairs core appendOnly pairs facts) {id : String}
    (h : id ∈ pairedIds pairs) : ∃ claim entry holder, facts id = some claim ∧
      ReadingOf appendOnly entry holder claim := by
  obtain ⟨other, hpaired⟩ := mem_pairedIds.1 h
  obtain ⟨fa, -, entry, holder, hfa, -, hra, -⟩ := hp.readings hpaired
  exact ⟨fa, entry, holder, hfa, hra⟩

end Population

/-! ### Components -/

section Components

variable {core : CorePackage} {appendOnly : String → Bool} {pairs : List (String × String)}
  {facts : String → Option ClaimFacts} (hp : PopulationPairs core appendOnly pairs facts)

include hp

/-- **A component holds the claims that chains of pairs join to a start**, the first reading first. -/
theorem mem_readingComponents {component : List ClaimFacts}
    (h : component ∈ readingComponents pairs facts) :
    ∃ start ∈ pairedIds pairs,
      (∀ claim, claim ∈ component ↔ facts claim.id = some claim ∧ Connected pairs start claim.id) ∧
        component.Pairwise fun a b => readingKey a ≤ readingKey b := by
  obtain ⟨ids, hids, rfl⟩ := List.mem_map.1 h
  obtain ⟨start, hstart, rfl⟩ := (Closure.mem_components partners_subset partners_symm).1 hids
  refine ⟨start, hstart, fun claim => ?_, pairwise_sortBy _ _⟩
  rw [mem_sortBy, List.mem_filterMap]
  constructor
  · rintro ⟨id, hid, hclaim⟩
    obtain rfl := hp.id_eq hclaim
    exact ⟨hclaim, mem_closure_partners.1 (of_decide_eq_true (List.mem_filter.1 hid).2)⟩
  · rintro ⟨hclaim, hconnected⟩
    refine ⟨claim.id, List.mem_filter.2 ⟨mem_pairedIds_of_connected hstart hconnected, ?_⟩, hclaim⟩
    exact decide_eq_true (mem_closure_partners.2 hconnected)

/-- Every paired id has a component. -/
theorem exists_readingComponent {id : String} (hid : id ∈ pairedIds pairs) :
    ∃ component ∈ readingComponents pairs facts, ∃ claim ∈ component, claim.id = id := by
  obtain ⟨claim, -, -, hclaim, -⟩ := hp.exists_facts hid
  refine ⟨_, List.mem_map.2 ⟨_, (Closure.mem_components partners_subset partners_symm).2
    ⟨id, hid, rfl⟩, rfl⟩, claim, ?_, hp.id_eq hclaim⟩
  rw [mem_sortBy, List.mem_filterMap]
  refine ⟨id, List.mem_filter.2 ⟨hid, decide_eq_true (mem_closure_partners.2 .refl)⟩, hclaim⟩

/-- **No claim is in two components**, or twice in one. -/
theorem readingComponents_nodup :
    ((readingComponents pairs facts).flatMap fun c => c.map ClaimFacts.id).Nodup := by
  rw [List.nodup_flatMap]
  constructor
  · intro component hcomponent
    obtain ⟨ids, -, rfl⟩ := List.mem_map.1 hcomponent
    refine ((sortBy_perm readingKey _).map ClaimFacts.id).nodup_iff.2 ?_
    have hsub : ((((pairedIds pairs).filter fun id => id ∈ ids).filterMap facts).map
        ClaimFacts.id).Sublist ((((pairedIds pairs).filter fun id => id ∈ ids)).map id) :=
      sublist_map_filterMap (fun _ _ hclaim => hp.id_eq hclaim) _
    rw [List.map_id] at hsub
    exact hsub.nodup ((nodup_pairedIds pairs).filter _)
  · refine List.pairwise_map.2 ((Closure.pairwise_disjoint_components partners_subset partners_symm
      (pairedIds pairs)).imp ?_)
    intro ids ids' hdisjoint id hid hid'
    have hmem : ∀ c : Finset String, id ∈ (sortBy readingKey (((pairedIds pairs).filter
        fun id => id ∈ c).filterMap facts)).map ClaimFacts.id → id ∈ c := by
      intro c hc
      obtain ⟨claim, hclaim, rfl⟩ := List.mem_map.1 hc
      obtain ⟨x, hx, hfx⟩ := List.mem_filterMap.1 (mem_sortBy.1 hclaim)
      rw [hp.id_eq hfx]
      exact of_decide_eq_true (List.mem_filter.1 hx).2
    exact Finset.disjoint_left.1 hdisjoint (hmem _ hid) (hmem _ hid')

/-- A component is determined by any of its claims. -/
theorem eq_of_mem_readingComponents {c c' : List ClaimFacts} (hc : c ∈ readingComponents pairs facts)
    (hc' : c' ∈ readingComponents pairs facts) {id : String} (hid : id ∈ c.map ClaimFacts.id)
    (hid' : id ∈ c'.map ClaimFacts.id) : c = c' := by
  by_contra hne
  have hapart := (List.nodup_flatMap.1 (readingComponents_nodup hp)).2
  have : Std.Symm (Function.onFun List.Disjoint fun c : List ClaimFacts => c.map ClaimFacts.id) :=
    ⟨fun _ _ h => List.Disjoint.symm h⟩
  exact hapart.forall hc hc' hne hid hid'

end Components

/-! ### The questions -/

section Questions

variable {core : CorePackage} {appendOnly : String → Bool} {pairs : List (String × String)}
  {facts : String → Option ClaimFacts} {cosine : String → String → Option ℚ}

/-- A question that is asked: its gates are open. -/
theorem askMember_eq_ok {survivor member : ClaimFacts} {q : Question}
    (h : askMember cosine survivor member = .ok q) :
    q.survivorId = survivor.id ∧ q.copyId = member.id ∧ q.entryId = survivor.entryIds.headD "" ∧
      (∀ s ∈ member.snapshotIds, s ∉ survivor.snapshotIds) ∧
      ∀ s ∈ member.subjectIds, s ∈ survivor.subjectIds := by
  unfold askMember at h
  split_ifs at h with hsnapshot hsubject
  obtain rfl := Except.ok.inj h
  refine ⟨rfl, rfl, rfl, fun s hs hin => hsnapshot ?_, fun s hs => ?_⟩
  · exact List.any_eq_true.2 ⟨s, hs, decide_eq_true hin⟩
  · by_contra hnot
    exact hsubject (List.any_eq_true.2 ⟨s, hs, decide_eq_true hnot⟩)

/-- The questions of one component. -/
def componentQuestions (cosine : String → String → Option ℚ) (component : List ClaimFacts) :
    List Question :=
  (askComponent cosine component).filterMap Except.toOption

theorem questions_eq : (planQuestions pairs facts cosine).questions =
    (readingComponents pairs facts).flatMap (componentQuestions cosine) := by
  rw [planQuestions, List.filterMap_flatMap]
  rfl

theorem mem_componentQuestions {component : List ClaimFacts} {q : Question} :
    q ∈ componentQuestions cosine component ↔ ∃ survivor rest, component = survivor :: rest ∧
      ∃ member ∈ rest, askMember cosine survivor member = .ok q := by
  cases component with
  | nil => simp [componentQuestions, askComponent]
  | cons survivor rest =>
      simp only [componentQuestions, askComponent, List.mem_filterMap, List.mem_map,
        toOption_eq_some, List.cons.injEq]
      constructor
      · rintro ⟨_, ⟨member, hmember, rfl⟩, hq⟩
        exact ⟨survivor, rest, ⟨rfl, rfl⟩, member, hmember, hq⟩
      · rintro ⟨_, _, ⟨rfl, rfl⟩, member, hmember, hq⟩
        exact ⟨_, ⟨member, hmember, rfl⟩, hq⟩

/-- The copies of a component are among its claims but the first, in order. -/
theorem copies_sublist (component : List ClaimFacts) :
    ((componentQuestions cosine component).map Question.copyId).Sublist
      (component.tail.map ClaimFacts.id) := by
  cases component with
  | nil => exact List.Sublist.refl _
  | cons survivor rest =>
      have heq : componentQuestions cosine (survivor :: rest) =
          rest.filterMap fun member => (askMember cosine survivor member).toOption := by
        rw [componentQuestions, askComponent, List.filterMap_map]
        rfl
      rw [heq]
      refine sublist_map_filterMap (fun member q hq => ?_) rest
      exact (askMember_eq_ok (toOption_eq_some.1 hq)).2.1

theorem copyId_mem {component : List ClaimFacts} {q : Question}
    (h : q ∈ componentQuestions cosine component) :
    q.copyId ∈ component.tail.map ClaimFacts.id ∧ q.copyId ∈ component.map ClaimFacts.id := by
  have htail := (copies_sublist component).subset (List.mem_map_of_mem h)
  exact ⟨htail, ((List.tail_sublist component).map _).subset htail⟩

variable (hp : PopulationPairs core appendOnly pairs facts)

include hp

/-- **A claim is asked as a copy at most once.** -/
theorem nodup_copies : ((planQuestions pairs facts cosine).questions.map Question.copyId).Nodup := by
  obtain ⟨heach, hapart⟩ := List.nodup_flatMap.1 (readingComponents_nodup hp)
  rw [questions_eq, List.map_flatMap, List.nodup_flatMap]
  constructor
  · intro component hcomponent
    refine (copies_sublist component).nodup ((heach component hcomponent).sublist ?_)
    exact (List.tail_sublist component).map _
  · refine hapart.imp fun {c c'} hdisjoint id hid hid' => ?_
    obtain ⟨q, hq, rfl⟩ := List.mem_map.1 hid
    obtain ⟨q', hq', heq⟩ := List.mem_map.1 hid'
    exact hdisjoint (copyId_mem hq).2 (heq ▸ (copyId_mem hq').2)

/-- **The first reading of a component is no copy.** -/
theorem first_not_copy {survivor : ClaimFacts} {rest : List ClaimFacts}
    (hcomponent : survivor :: rest ∈ readingComponents pairs facts) :
    survivor.id ∉ (planQuestions pairs facts cosine).questions.map Question.copyId := by
  intro hmem
  obtain ⟨q, hq, hid⟩ := List.mem_map.1 hmem
  rw [questions_eq] at hq
  obtain ⟨component, hcomponent', hqc⟩ := List.mem_flatMap.1 hq
  obtain ⟨htail, hall⟩ := copyId_mem hqc
  rw [hid] at htail hall
  obtain rfl := eq_of_mem_readingComponents hp hcomponent hcomponent'
    (List.mem_map_of_mem List.mem_cons_self) hall
  have hnodup := (List.nodup_flatMap.1 (readingComponents_nodup hp)).1 _ hcomponent
  exact (List.nodup_cons.1 hnodup).1 htail

/-- **What a question is about**: the first reading of a component and another of its claims, readings
of one entry by one holder, with no snapshot in common and no subject that the first lacks. -/
theorem question_spec {q : Question} (hq : q ∈ (planQuestions pairs facts cosine).questions) :
    ∃ survivor copy, facts q.survivorId = some survivor ∧ facts q.copyId = some copy ∧
      Connected pairs q.survivorId q.copyId ∧
      (∀ id claim, Connected pairs q.survivorId id → facts id = some claim →
        readingKey survivor ≤ readingKey claim) ∧
      (∃ holder, ReadingOf appendOnly q.entryId holder survivor ∧
        ReadingOf appendOnly q.entryId holder copy) ∧
      (∀ s ∈ copy.snapshotIds, s ∉ survivor.snapshotIds) ∧
      ∀ s ∈ copy.subjectIds, s ∈ survivor.subjectIds := by
  rw [questions_eq] at hq
  obtain ⟨component, hcomponent, hqc⟩ := List.mem_flatMap.1 hq
  obtain ⟨survivor, rest, rfl, copy, hcopy, hask⟩ := mem_componentQuestions.1 hqc
  obtain ⟨hsid, hcid, hentry, hsnapshots, hsubjects⟩ := askMember_eq_ok hask
  obtain ⟨start, hstart, hmem, hsorted⟩ := mem_readingComponents hp hcomponent
  obtain ⟨hsf, hsc⟩ := (hmem survivor).1 List.mem_cons_self
  obtain ⟨hcf, hcc⟩ := (hmem copy).1 (List.mem_cons_of_mem _ hcopy)
  have hjoined : Connected pairs survivor.id copy.id := hsc.symm.trans hcc
  obtain ⟨claim, entry, holder, hclaim, hreading⟩ :=
    hp.exists_facts (mem_pairedIds_of_connected hstart hsc)
  obtain rfl := Option.some.inj (hsf.symm.trans hclaim)
  obtain ⟨copy', hcf', hcopyReading⟩ := hreading.of_connected hp hjoined hsf
  obtain rfl := Option.some.inj (hcf.symm.trans hcf')
  have hnamed : q.entryId = entry := by
    rw [hentry]
    cases hentries : survivor.entryIds with
    | nil => exact absurd hentries (hp.entryIds hsf hreading.sourcesOnly)
    | cons e es =>
        refine (hreading.entry e).1 ?_
        rw [hentries]
        exact List.mem_cons_self
  rw [hsid, hcid, hnamed]
  refine ⟨survivor, copy, hsf, hcf, hjoined, fun id claim hconnected hclaim => ?_,
    ⟨holder, hreading, hcopyReading⟩, hsnapshots, hsubjects⟩
  obtain rfl := hp.id_eq hclaim
  rcases List.mem_cons.1 ((hmem claim).2 ⟨hclaim, hsc.trans hconnected⟩) with rfl | hin
  · exact le_refl _
  · exact List.rel_of_pairwise_cons hsorted hin

/-- The survivor of a question is no copy. -/
theorem survivor_not_copy {q : Question} (hq : q ∈ (planQuestions pairs facts cosine).questions) :
    q.survivorId ∉ (planQuestions pairs facts cosine).questions.map Question.copyId := by
  have hq' := hq
  rw [questions_eq] at hq'
  obtain ⟨component, hcomponent, hqc⟩ := List.mem_flatMap.1 hq'
  obtain ⟨survivor, rest, rfl, copy, -, hask⟩ := mem_componentQuestions.1 hqc
  rw [(askMember_eq_ok hask).1]
  exact first_not_copy hp hcomponent

/-- Every paired id is joined to one that is no copy. -/
theorem exists_kept (cosine : String → String → Option ℚ) {id : String} (hid : id ∈ pairedIds pairs) :
    ∃ kept, Connected pairs id kept ∧
      kept ∉ (planQuestions pairs facts cosine).questions.map Question.copyId ∧
        ∃ claim, facts kept = some claim := by
  obtain ⟨component, hcomponent, claim, hclaim, rfl⟩ := exists_readingComponent hp hid
  obtain ⟨start, -, hmem, -⟩ := mem_readingComponents hp hcomponent
  cases component with
  | nil => cases hclaim
  | cons survivor rest =>
      obtain ⟨hsf, hsc⟩ := (hmem survivor).1 List.mem_cons_self
      exact ⟨survivor.id, ((hmem claim).1 hclaim).2.symm.trans hsc, first_not_copy hp hcomponent,
        survivor, hsf⟩

end Questions

/-! ### What a merge keeps -/

theorem CopiesSuperseded.isActive {now : Instant} {before after : Store} {copyIds : List String}
    (h : CopiesSuperseded now before after copyIds) {id : String} (hid : IsActive before id)
    (hnot : id ∉ copyIds) : IsActive after id := by
  obtain ⟨row, hrow, hstatus⟩ := hid
  exact ⟨row, by rw [h.other id hnot, hrow], hstatus⟩

/-- **Whichever copies are superseded, the survivors stay ACTIVE, and each component keeps a claim.** -/
theorem survivors_kept {core : CorePackage} {appendOnly : String → Bool}
    {pairs : List (String × String)} {facts : String → Option ClaimFacts}
    {cosine : String → String → Option ℚ} (hp : PopulationPairs core appendOnly pairs facts)
    {now : Instant} {before after : Store} {copyIds : List String}
    (hactive : ∀ id claim, facts id = some claim → IsActive before id)
    (hcopies : copyIds ⊆ (planQuestions pairs facts cosine).questions.map Question.copyId)
    (hsuperseded : CopiesSuperseded now before after copyIds) :
    (∀ q ∈ (planQuestions pairs facts cosine).questions, IsActive after q.survivorId) ∧
      ∀ id ∈ pairedIds pairs, ∃ kept, Connected pairs id kept ∧ IsActive after kept := by
  constructor
  · intro q hq
    obtain ⟨survivor, -, hsurvivor, -⟩ := question_spec hp hq
    refine hsuperseded.isActive (hactive _ survivor hsurvivor) fun hmem => ?_
    exact survivor_not_copy hp hq (hcopies hmem)
  · intro id hid
    obtain ⟨kept, hconnected, hnot, claim, hclaim⟩ := exists_kept hp cosine hid
    exact ⟨kept, hconnected,
      hsuperseded.isActive (hactive _ _ hclaim) fun hmem => hnot (hcopies hmem)⟩

section Run

variable {renv : RereadEnv} {store : Store} {now : Instant}

/-- The pairs that a run asks about are of the population. -/
theorem rereadPairs_population (renv : RereadEnv) (store : Store) :
    PopulationPairs renv.core (isAppendOnly store) (rereadPairs renv store)
      (activeFacts renv store) where
  id_eq := by
    intro id claim h
    obtain ⟨row, hrow, -, rfl⟩ := activeFacts_eq_some.1 h
    exact ParticleTable.id_of_get? hrow
  entryIds := by
    intro id claim h
    obtain ⟨row, -, -, rfl⟩ := activeFacts_eq_some.1 h
    exact claimFacts_entryIds renv.core store row.model
  pair := by
    intro pair h
    have hgate := (List.mem_filter.1 h).2
    split at hgate
    · next a b ha hb => exact ⟨a, b, ha, hb, hgate⟩
    · cases hgate

theorem foldlM_rereadGroup_spec (survivors : List String) : ∀ {run run' : RereadRun},
    survivors.foldlM (rereadGroup renv store now) run = .ok run' →
      CopiesSuperseded now run.store run'.store (survivors.flatMap (rereadCopies renv store)) := by
  induction survivors with
  | nil =>
      intro run run' h
      obtain rfl := Except.ok.inj h
      exact .refl now _
  | cons survivorId survivors ih =>
      intro run run' h
      simp only [List.foldlM_cons, bind_eq_ok] at h
      obtain ⟨mid, hgroup, hrest⟩ := h
      simp only [rereadGroup, bind_eq_ok] at hgroup
      obtain ⟨⟨merged, links⟩, hcopies, hmid⟩ := hgroup
      obtain rfl := Except.ok.inj hmid
      exact (foldlM_mergeCopy_spec _ hcopies).append (ih hrest)

/-- **What a run leaves at every id**: the copies that it merges are superseded, and nothing else
changes. -/
theorem applyReread_spec {run : RereadRun} (h : applyReread renv store now = .ok run) :
    CopiesSuperseded now store run.store
      ((mergingSurvivors renv store).flatMap (rereadCopies renv store)) := by
  simp only [applyReread, bind_eq_ok] at h
  obtain ⟨-, -, -, -, h⟩ := h
  exact foldlM_rereadGroup_spec _ h

/-- The copies of a survivor are those of questions that were asked. -/
theorem rereadCopies_eq (renv : RereadEnv) (store : Store) (survivorId : String) :
    rereadCopies renv store survivorId =
      ((rereadPlan renv store).questions.filter fun q =>
        (assessQuestion renv store q).block = none ∧ q.survivorId = survivorId).map
          Question.copyId := by
  rw [rereadCopies, rereadItems, List.filter_map, List.map_map]
  rfl

/-- **A run leaves every survivor and at least one claim of every component ACTIVE.** -/
theorem applyReread_keeps {run : RereadRun} (h : applyReread renv store now = .ok run) :
    (∀ q ∈ (rereadPlan renv store).questions, IsActive run.store q.survivorId) ∧
      ∀ id ∈ pairedIds (rereadPairs renv store), ∃ kept,
        Connected (rereadPairs renv store) id kept ∧ IsActive run.store kept := by
  refine survivors_kept (rereadPairs_population renv store) (fun id claim hclaim => ?_) ?_
    (applyReread_spec h)
  · obtain ⟨row, hrow, hstatus, -⟩ := activeFacts_eq_some.1 hclaim
    exact ⟨row, hrow, hstatus⟩
  · intro id hmem
    obtain ⟨survivorId, -, hid⟩ := List.mem_flatMap.1 hmem
    rw [rereadCopies_eq] at hid
    exact (List.filter_sublist.map _).subset hid

end Run

/-- **Each claim is asked as a copy at most once and never survives another, and whichever questions
merge, each component keeps its first reading.** -/
theorem planQuestions_keeps_survivors (core : CorePackage) (appendOnly : String → Bool)
    (pairs : List (String × String)) (facts : String → Option ClaimFacts)
    (cosine : String → String → Option ℚ) (hp : PopulationPairs core appendOnly pairs facts) :
    ((planQuestions pairs facts cosine).questions.map Question.copyId).Nodup ∧
      (∀ q ∈ (planQuestions pairs facts cosine).questions,
        q.survivorId ∉ (planQuestions pairs facts cosine).questions.map Question.copyId) ∧
      (∀ q ∈ (planQuestions pairs facts cosine).questions, ∃ survivor copy,
        facts q.survivorId = some survivor ∧ facts q.copyId = some copy ∧
          Connected pairs q.survivorId q.copyId ∧
          (∀ id claim, Connected pairs q.survivorId id → facts id = some claim →
            readingKey survivor ≤ readingKey claim) ∧
          (∃ holder, ReadingOf appendOnly q.entryId holder survivor ∧
            ReadingOf appendOnly q.entryId holder copy) ∧
          (∀ s ∈ copy.snapshotIds, s ∉ survivor.snapshotIds) ∧
          ∀ s ∈ copy.subjectIds, s ∈ survivor.subjectIds) ∧
      ∀ (now : Instant) (before after : Store) (merged : List Question),
        merged ⊆ (planQuestions pairs facts cosine).questions →
        (∀ id claim, facts id = some claim → IsActive before id) →
        CopiesSuperseded now before after (merged.map Question.copyId) →
          (∀ q ∈ (planQuestions pairs facts cosine).questions, IsActive after q.survivorId) ∧
            ∀ id ∈ pairedIds pairs, ∃ kept, Connected pairs id kept ∧ IsActive after kept := by
  refine ⟨nodup_copies hp, fun q hq => survivor_not_copy hp hq, fun q hq => question_spec hp hq, ?_⟩
  intro now before after merged hmerged hactive hsuperseded
  exact survivors_kept hp hactive (List.map_subset _ hmerged) hsuperseded

/-- Three readings of one passage of a log; the second is paired with both others. -/
def threeReadings (id : String) : Option ClaimFacts :=
  match id with
  | "a" => some ⟨"a", "first", ["log"], ["s1"], some 1, 1, ["x"], none, true⟩
  | "b" => some ⟨"b", "second", ["log"], ["s2"], some 2, 2, ["x"], none, true⟩
  | "c" => some ⟨"c", "third", ["log"], ["s3"], some 3, 3, [], none, true⟩
  | _ => none

theorem threeReadings_population :
    PopulationPairs .verbatim (fun _ => true) [("a", "b"), ("b", "c")] threeReadings where
  id_eq := by
    intro id claim h
    unfold threeReadings at h
    split at h <;> cases h <;> rfl
  entryIds := by
    intro id claim h
    unfold threeReadings at h
    split at h <;> cases h <;> simp
  pair := by
    intro pair h
    rcases List.mem_cons.1 h with rfl | h
    · exact ⟨_, _, rfl, rfl, by decide +kernel⟩
    · obtain rfl := List.mem_singleton.1 h
      exact ⟨_, _, rfl, rfl, by decide +kernel⟩

theorem planQuestions_keeps_survivors_three :
    (planQuestions [("a", "b"), ("b", "c")] threeReadings fun _ _ => none).questions.map
        Question.copyId = ["b", "c"] ∧
      ∀ (now : Instant) (before after : Store),
        (∀ id claim, threeReadings id = some claim → IsActive before id) →
        CopiesSuperseded now before after ["b", "c"] → IsActive after "a" := by
  have hcopies : (planQuestions [("a", "b"), ("b", "c")] threeReadings fun _ _ => none).questions.map
      Question.copyId = ["b", "c"] := by decide +kernel
  have hsurvivor : ∃ q ∈ (planQuestions [("a", "b"), ("b", "c")] threeReadings
      fun _ _ => none).questions, q.survivorId = "a" := by decide +kernel
  obtain ⟨q, hq, hqa⟩ := hsurvivor
  refine ⟨hcopies, fun now before after hactive hsuperseded => ?_⟩
  have hkept := (planQuestions_keeps_survivors .verbatim (fun _ => true) [("a", "b"), ("b", "c")]
    threeReadings (fun _ _ => none) threeReadings_population).2.2.2 now before after
    (planQuestions [("a", "b"), ("b", "c")] threeReadings fun _ _ => none).questions
    (List.Subset.refl _) hactive (by rwa [hcopies])
  rw [← hqa]
  exact hkept.1 q hq

end ParticlesEngine
