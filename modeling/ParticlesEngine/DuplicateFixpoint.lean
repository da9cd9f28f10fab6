/-
**The groups of identical claims, as a partition.**

The finder splits the claims with one content and one holder into groups.  Whatever the overlap of
their subjects, no claim is in two groups, every two claims that a chain of shared subjects joins are
in one, and a claim without a subject is put with claims that have one only where there is no other
home.  The number of homes is what the placement turns on, and a merge leaves it alone: each home keeps
its survivor.  So a second call, once the redundant copies are retired, finds nothing.

Main definitions:

* `SharesSubject`, `JoinedCopies` — two copies of one claim that share a subject, and a chain of them.

Main results:

* `exists_group_of_component` — two claims with one home are in one group;
* `same_home_of_superseded` — **what has one home after a merge had one before**;
* `findExactDuplicateGroups_partition` — the groups partition the copies, and a merge of all of them
  leaves none.
-/

import ParticlesEngine.DuplicateMerge

set_option relaxedAutoImplicit false
set_option autoImplicit false

open SortBy FirstByKey Relation

namespace ParticlesEngine

/-! ### The homes of a bucket -/

section Homes

variable {members : List Particle}

theorem mem_linked_of_mem_closure {p : Particle} (hp : p ∈ members) (hlinked : p.subjectIds ≠ []) :
    ∃ ids ∈ linkedComponents members, p.id ∈ ids := by
  refine ⟨_, (Closure.mem_components (sharers_subset members) fun _ _ => sharers_symm).2
    ⟨p.id, ?_, rfl⟩, (Closure.mem_closure (sharers_subset members)).2
    ⟨p.id, Finset.mem_singleton_self _, .refl⟩⟩
  rw [mem_sortBy]
  exact List.mem_map_of_mem (List.mem_filter.2 ⟨hp, by simpa using hlinked⟩)

/-- The members of a component have one home. -/
theorem exists_home_of_linked {ids : Finset String} (hids : ids ∈ linkedComponents members) :
    ∃ component ∈ duplicateComponents members, membersOf members ids ⊆ component := by
  have hlinked : membersOf members ids ∈ (linkedComponents members).map (membersOf members) :=
    List.mem_map_of_mem hids
  rw [duplicateComponents_eq]
  split_ifs
  · exact ⟨_, hlinked, List.Subset.refl _⟩
  · split
    · next only heq =>
        rw [heq, List.mem_singleton] at hlinked
        exact ⟨_, List.mem_singleton_self _, hlinked ▸ List.subset_append_left _ _⟩
    · exact ⟨_, List.mem_append_left _ hlinked, List.Subset.refl _⟩

/-- The members without a subject have one home. -/
theorem exists_home_of_orphans (hsome : orphansOf members ≠ []) :
    ∃ component ∈ duplicateComponents members, orphansOf members ⊆ component := by
  rw [duplicateComponents_eq]
  rw [if_neg hsome]
  split
  · exact ⟨_, List.mem_singleton_self _, List.subset_append_right _ _⟩
  · exact ⟨_, List.mem_append_right _ (List.mem_singleton_self _), List.Subset.refl _⟩

/-- When there is one component, it is the home of every member. -/
theorem exists_home_of_only {only : Finset String} (honly : linkedComponents members = [only]) :
    ∃ component ∈ duplicateComponents members, members ⊆ component := by
  have hcover : members ⊆ membersOf members only ++ orphansOf members := by
    intro p hp
    by_cases horphan : p.subjectIds = []
    · exact List.mem_append_right _ (mem_orphansOf.2 ⟨hp, horphan⟩)
    · obtain ⟨ids, hids, hid⟩ := mem_linked_of_mem_closure hp horphan
      rw [honly, List.mem_singleton] at hids
      exact List.mem_append_left _ (mem_membersOf.2 ⟨hp, hids ▸ hid⟩)
  rw [duplicateComponents_eq]
  rw [honly]
  split_ifs with hnone
  · rw [hnone, List.append_nil] at hcover
    exact ⟨_, List.mem_singleton_self _, hcover⟩
  · exact ⟨_, List.mem_singleton_self _, hcover⟩

/-- Every member has a home. -/
theorem exists_home {p : Particle} (hp : p ∈ members) :
    ∃ component ∈ duplicateComponents members, p ∈ component := by
  by_cases horphan : p.subjectIds = []
  · have hmem : p ∈ orphansOf members := mem_orphansOf.2 ⟨hp, horphan⟩
    obtain ⟨component, hcomponent, hsub⟩ := exists_home_of_orphans (List.ne_nil_of_mem hmem)
    exact ⟨component, hcomponent, hsub hmem⟩
  · obtain ⟨ids, hids, hid⟩ := mem_linked_of_mem_closure hp horphan
    obtain ⟨component, hcomponent, hsub⟩ := exists_home_of_linked hids
    exact ⟨component, hcomponent, hsub (mem_membersOf.2 ⟨hp, hid⟩)⟩

/-- A home with a claim that has a subject beside one that has none is the only one. -/
theorem only_of_mixed {component : List Particle} (hcomponent : component ∈ duplicateComponents members)
    {p q : Particle} (hp : p ∈ component) (hq : q ∈ component) (horphan : p.subjectIds = [])
    (hlinked : q.subjectIds ≠ []) (hinj : ∀ p ∈ members, ∀ q ∈ members, p.id = q.id → p = q) :
    ∃ only, linkedComponents members = [only] := by
  rcases duplicateComponents_cases hcomponent with ⟨ids, hids, rfl, -⟩ | ⟨only, honly, -, -⟩ |
    ⟨rfl, -⟩
  · exact absurd (mem_orphansOf.2 ⟨(mem_membersOf.1 hp).1, horphan⟩)
      (not_orphan_of_mem_membersOf hinj hids hp)
  · exact ⟨only, honly⟩
  · exact absurd (mem_orphansOf.1 hq).2 hlinked

/-- No member is met in two homes. -/
theorem pairwise_duplicateComponents (hinj : ∀ p ∈ members, ∀ q ∈ members, p.id = q.id → p = q) :
    (duplicateComponents members).Pairwise fun c c' => ∀ p ∈ c, p ∉ c' := by
  have hlinked : ((linkedComponents members).map (membersOf members)).Pairwise
      fun c c' => ∀ p ∈ c, p ∉ c' := by
    refine List.pairwise_map.2 ((Closure.pairwise_disjoint_components (sharers_subset members)
      (fun _ _ => sharers_symm) _).imp fun hdisjoint p hp hp' => ?_)
    exact Finset.disjoint_left.1 hdisjoint (mem_membersOf.1 hp).2 (mem_membersOf.1 hp').2
  rw [duplicateComponents_eq]
  split_ifs
  · exact hlinked
  · split
    · exact List.pairwise_singleton _ _
    · refine List.pairwise_append.2 ⟨hlinked, List.pairwise_singleton _ _, fun c hc d hd p hp => ?_⟩
      obtain rfl := List.mem_singleton.1 hd
      obtain ⟨ids, hids, rfl⟩ := List.mem_map.1 hc
      exact not_orphan_of_mem_membersOf hinj hids hp

end Homes

/-! ### The groups of a store -/

section Groups

variable {core : CorePackage} {store : Store} {subjectId : Option String}

theorem bucket_inj {key : String × Option String} :
    ∀ p ∈ bucket core store subjectId key, ∀ q ∈ bucket core store subjectId key,
      p.id = q.id → p = q := by
  intro p hp q hq hid
  exact mergeCandidates_inj (mem_bucket.1 hp).1 (mem_bucket.1 hq).1 hid

theorem groupOf_of_two (digest : String) {component : List Particle} {p q : Particle}
    (hp : p ∈ component) (hq : q ∈ component) (hne : p ≠ q) :
    ∃ group, groupOf digest component = some group := by
  unfold groupOf
  split
  · exact ⟨_, rfl⟩
  · next hshort =>
      have hp' : p ∈ sortBy electionKey component := mem_sortBy.2 hp
      have hq' : q ∈ sortBy electionKey component := mem_sortBy.2 hq
      cases hsorted : sortBy electionKey component with
      | nil =>
          rw [hsorted] at hp'
          cases hp'
      | cons first rest =>
          cases rest with
          | nil =>
              rw [hsorted, List.mem_singleton] at hp' hq'
              exact absurd (hp'.trans hq'.symm) hne
          | cons second rest => exact absurd hsorted (hshort first second rest)

/-- **Two claims with one home are in one group.** -/
theorem exists_group_of_component {key : String × Option String} {component : List Particle}
    (hcomponent : component ∈ duplicateComponents (bucket core store subjectId key))
    {p q : Particle} (hp : p ∈ component) (hq : q ∈ component) (hne : p ≠ q) :
    ∃ group ∈ findExactDuplicateGroups core store subjectId,
      groupOf key.1 component = some group ∧ p.id ∈ group.members ∧ q.id ∈ group.members := by
  obtain ⟨group, hof⟩ := groupOf_of_two key.1 hp hq hne
  have hperm := (groupOf_eq_some hof).2
  obtain ⟨hcandidate, hkey⟩ := mem_bucket.1 (subset_of_mem_duplicateComponents hcomponent hp)
  refine ⟨group, ?_, hof, hperm.mem_iff.2 (List.mem_map_of_mem hp),
    hperm.mem_iff.2 (List.mem_map_of_mem hq)⟩
  rw [findExactDuplicateGroups, mem_sortBy]
  refine List.mem_flatMap.2 ⟨key, ?_, List.mem_filterMap.2 ⟨component, hcomponent, hof⟩⟩
  exact mem_firstByKey_id.2 (List.mem_map.2 ⟨p, hcandidate, hkey⟩)

/-- No claim is met twice among the members of the groups. -/
theorem nodup_members_groups (core : CorePackage) (store : Store) (subjectId : Option String) :
    ((findExactDuplicateGroups core store subjectId).flatMap DuplicateGroup.members).Nodup := by
  have hfound : (findExactDuplicateGroups core store subjectId).Pairwise
      fun g g' => List.Disjoint g.members g'.members := by
    rw [findExactDuplicateGroups]
    refine ((sortBy_perm _ _).pairwise_iff fun hdisjoint => List.Disjoint.symm hdisjoint).2 ?_
    refine List.pairwise_flatMap.2 ⟨fun key _ => ?_, ?_⟩
    · -- the homes of one bucket
      refine List.pairwise_filterMap.2 ((pairwise_duplicateComponents bucket_inj).imp_of_mem ?_)
      intro c c' hc hc' hapart group hof group' hof' id hid hid'
      obtain ⟨p, hp, rfl⟩ := List.mem_map.1 ((groupOf_eq_some hof).2.mem_iff.1 hid)
      obtain ⟨q, hq, heq⟩ := List.mem_map.1 ((groupOf_eq_some hof').2.mem_iff.1 hid')
      obtain rfl := bucket_inj q (subset_of_mem_duplicateComponents hc' hq) p
        (subset_of_mem_duplicateComponents hc hp) heq
      exact hapart q hp hq
    · -- buckets with other keys
      have hkeys : ((firstByKey id [] ((mergeCandidates core store subjectId).map
        (bucketKey core))).map id).Nodup := nodup_map_firstByKey
      rw [List.map_id] at hkeys
      refine hkeys.imp fun {key key'} hne group hgroup group' hgroup' id hid hid' => hne ?_
      obtain ⟨c, hc, hof⟩ := List.mem_filterMap.1 hgroup
      obtain ⟨c', hc', hof'⟩ := List.mem_filterMap.1 hgroup'
      obtain ⟨p, hp, rfl⟩ := List.mem_map.1 ((groupOf_eq_some hof).2.mem_iff.1 hid)
      obtain ⟨q, hq, heq⟩ := List.mem_map.1 ((groupOf_eq_some hof').2.mem_iff.1 hid')
      obtain ⟨hpc, hpkey⟩ := mem_bucket.1 (subset_of_mem_duplicateComponents hc hp)
      obtain ⟨hqc, hqkey⟩ := mem_bucket.1 (subset_of_mem_duplicateComponents hc' hq)
      rw [mergeCandidates_inj hqc hpc heq] at hqkey
      exact hpkey.symm.trans hqkey
  exact List.nodup_flatMap.2 ⟨fun group hgroup => nodup_members hgroup, hfound⟩

/-- The home of a group has two claims with other ids. -/
theorem two_of_groupOf {digest : String} {component : List Particle} {group : DuplicateGroup}
    (hof : groupOf digest component = some group) (hnodup : group.members.Nodup) :
    ∃ p ∈ component, ∃ q ∈ component, p.id ≠ q.id := by
  have hmem : ∀ q, q ∈ sortBy electionKey component ↔ q ∈ component := fun _ => mem_sortBy
  unfold groupOf at hof
  split at hof
  · next survivor copy copies heq =>
      obtain rfl := Option.some.inj hof
      rw [heq] at hmem
      refine ⟨survivor, (hmem _).1 List.mem_cons_self, copy,
        (hmem _).1 (List.mem_cons_of_mem _ List.mem_cons_self), fun hid => ?_⟩
      refine (List.nodup_cons.1 hnodup).1 ?_
      exact List.mem_map.2 ⟨copy, List.mem_cons_self, hid.symm⟩
  · cases hof

/-- The survivor of a group is the first of its home in the election. -/
theorem survivor_of_groupOf {digest : String} {component : List Particle} {group : DuplicateGroup}
    (hof : groupOf digest component = some group) :
    ∃ p ∈ component, p.id = group.survivorId ∧ ∀ q ∈ component, electionKey p ≤ electionKey q := by
  have hsorted := pairwise_sortBy electionKey component
  have hmem : ∀ q, q ∈ sortBy electionKey component ↔ q ∈ component := fun _ => mem_sortBy
  unfold groupOf at hof
  split at hof
  · next survivor copy copies heq =>
      obtain rfl := Option.some.inj hof
      rw [heq] at hsorted hmem
      refine ⟨survivor, (hmem _).1 List.mem_cons_self, rfl, fun q hq => ?_⟩
      rcases List.mem_cons.1 ((hmem q).2 hq) with rfl | hin
      · exact le_refl _
      · exact List.rel_of_pairwise_cons hsorted hin
  · cases hof

/-- What is first in an election has a subject as soon as one of the others has. -/
theorem linked_of_electionKey_le {p q : Particle} (hle : electionKey p ≤ electionKey q)
    (hlinked : q.subjectIds ≠ []) : p.subjectIds ≠ [] := by
  intro horphan
  rcases Prod.Lex.toLex_le_toLex.1 hle with hlt | ⟨heq, -⟩
  · simp [horphan, hlinked, Bool.lt_iff] at hlt
  · simp [horphan, hlinked] at heq

end Groups

/-! ### After a merge of all groups -/

/-- The copies that a merge of all groups retires. -/
def redundantCopies (core : CorePackage) (store : Store) (subjectId : Option String) : List String :=
  (findExactDuplicateGroups core store subjectId).flatMap DuplicateGroup.redundantIds

section Merged

variable {core : CorePackage} {store after : Store} {subjectId : Option String} {now : Instant}
  {key : String × Option String}

theorem mem_mergeCandidates {p : Particle} :
    p ∈ mergeCandidates core store subjectId ↔
      (∃ row, store.get? p.id = some row ∧ row.model = p ∧ row.model.status = .ACTIVE) ∧
        core.isTruthApt p.assertionModality = true ∧ core.isNonAsserted p.properties = false ∧
        subjectId.all (fun s => s ∈ p.subjectIds) = true := by
  constructor
  · intro h
    have hp := (List.mem_filter.1 h).2
    simp only [Bool.and_eq_true, Bool.not_eq_true'] at hp
    exact ⟨get?_of_mem_mergeCandidates h, hp.1.1, hp.1.2, hp.2⟩
  · rintro ⟨⟨row, hrow, rfl, hactive⟩, htruth, hasserted, hsubject⟩
    refine List.mem_filter.2 ⟨List.mem_map.2 ⟨row, List.mem_filter.2
      ⟨(ParticleTable.get?_eq_some.1 hrow).1, decide_eq_true hactive⟩, rfl⟩, ?_⟩
    simp only [Bool.and_eq_true, Bool.not_eq_true']
    exact ⟨⟨htruth, hasserted⟩, hsubject⟩

/-- What is first in the election of its home is not redundant. -/
theorem survivor_not_mem_redundantCopies {component : List Particle}
    (hcomponent : component ∈ duplicateComponents (bucket core store subjectId key)) {p : Particle}
    (hp : p ∈ component) (hfirst : ∀ q ∈ component, electionKey p ≤ electionKey q) :
    p.id ∉ redundantCopies core store subjectId := by
  intro hmem
  obtain ⟨group, hgroup, hid⟩ := List.mem_flatMap.1 hmem
  obtain ⟨key', component', hcomponent', hof⟩ := component_of_mem_groups hgroup
  obtain ⟨q, hq, heq⟩ := List.mem_map.1
    ((groupOf_eq_some hof).2.mem_iff.1 (List.mem_cons_of_mem _ hid))
  obtain ⟨hpc, hpkey⟩ := mem_bucket.1 (subset_of_mem_duplicateComponents hcomponent hp)
  obtain ⟨hqc, hqkey⟩ := mem_bucket.1 (subset_of_mem_duplicateComponents hcomponent' hq)
  obtain rfl := mergeCandidates_inj hqc hpc heq
  obtain rfl : key = key' := hpkey.symm.trans hqkey
  obtain rfl := eq_of_mem_duplicateComponents bucket_inj hcomponent hcomponent' hp hq
  -- the survivor of the group is this claim, so it is met twice
  obtain ⟨survivor, hsurvivor, hsid, hleast⟩ := survivor_of_groupOf hof
  have hsame := le_antisymm (hfirst survivor hsurvivor) (hleast q hq)
  have hids : q.id = survivor.id := congrArg (fun k => (ofLex (ofLex k).2).2) hsame
  rw [hids, hsid] at hid
  exact (List.nodup_cons.1 (nodup_members hgroup)).1 hid

/-- Components that are all one, with a member, are one component. -/
theorem only_of_forall_eq {claims : List Particle} (hne : linkedComponents claims ≠ [])
    (hsame : ∀ ids ∈ linkedComponents claims, ∀ ids' ∈ linkedComponents claims, ids = ids')
    (hmember : ∀ ids ∈ linkedComponents claims, ids.Nonempty) :
    ∃ only, linkedComponents claims = [only] := by
  have hpairs : (linkedComponents claims).Pairwise Disjoint :=
    Closure.pairwise_disjoint_components (sharers_subset claims) (fun _ _ => sharers_symm) _
  cases hcomponents : linkedComponents claims with
  | nil => exact absurd hcomponents hne
  | cons first rest =>
      rw [hcomponents] at hsame hpairs hmember
      cases rest with
      | nil => exact ⟨first, rfl⟩
      | cons second rest =>
          have hequal := hsame first List.mem_cons_self second
            (List.mem_cons_of_mem _ List.mem_cons_self)
          have hapart := List.rel_of_pairwise_cons hpairs List.mem_cons_self
          rw [← hequal, disjoint_self] at hapart
          exact absurd hapart (hmember first List.mem_cons_self).ne_empty

variable (hmerged : CopiesSuperseded now store after (redundantCopies core store subjectId))

include hmerged

/-- **The candidates after a merge are those that were not redundant.** -/
theorem mem_mergeCandidates_after {p : Particle} :
    p ∈ mergeCandidates core after subjectId ↔
      p ∈ mergeCandidates core store subjectId ∧
        p.id ∉ redundantCopies core store subjectId := by
  rw [mem_mergeCandidates, mem_mergeCandidates]
  by_cases hcopy : p.id ∈ redundantCopies core store subjectId
  · constructor
    · rintro ⟨⟨row, hrow, -, hactive⟩, -⟩
      obtain ⟨before, -, -, hafter⟩ := hmerged.copy _ hcopy
      obtain rfl := Option.some.inj (hrow.symm.trans hafter)
      cases hactive
    · rintro ⟨-, hnot⟩
      exact absurd hcopy hnot
  · rw [hmerged.other _ hcopy]
    exact ⟨fun h => ⟨h, hcopy⟩, And.left⟩

theorem mem_bucket_after {p : Particle} :
    p ∈ bucket core after subjectId key ↔
      p ∈ bucket core store subjectId key ∧ p.id ∉ redundantCopies core store subjectId := by
  rw [mem_bucket, mem_bucket, mem_mergeCandidates_after hmerged, and_right_comm]

/-- A chain of sharers after a merge was one before. -/
theorem mem_closure_of_after {a b : String}
    (h : b ∈ Closure.closure (sharers (bucket core after subjectId key))
      ((bucket core after subjectId key).map Particle.id).toFinset {a}) :
    b ∈ Closure.closure (sharers (bucket core store subjectId key))
      ((bucket core store subjectId key).map Particle.id).toFinset {a} := by
  obtain ⟨s, hs, hpath⟩ := (Closure.mem_closure (sharers_subset _)).1 h
  refine (Closure.mem_closure (sharers_subset _)).2 ⟨s, hs, ReflTransGen.mono ?_ _ _ hpath⟩
  intro c d hcd
  simp only [sharers, List.mem_toFinset, List.mem_map, List.mem_filter, decide_eq_true_eq] at hcd ⊢
  obtain ⟨q, ⟨hq, hne, p, hp, hpid, s, hsp, hsq⟩, rfl⟩ := hcd
  exact ⟨q, ⟨((mem_bucket_after hmerged).1 hq).1, hne, p, ((mem_bucket_after hmerged).1 hp).1, hpid,
    s, hsp, hsq⟩, rfl⟩

/-- Two members of one component after a merge were members of one before. -/
theorem linked_of_after {ids : Finset String}
    (hids : ids ∈ linkedComponents (bucket core after subjectId key)) {p q : Particle}
    (hp : p ∈ bucket core after subjectId key) (hpid : p.id ∈ ids) (hqid : q.id ∈ ids) :
    ∃ ids₀ ∈ linkedComponents (bucket core store subjectId key), p.id ∈ ids₀ ∧ q.id ∈ ids₀ := by
  obtain ⟨hclosure, p', hp', hid, hlinked⟩ := mem_linkedComponents hids hpid
  obtain rfl := bucket_inj p' hp' p hp hid
  obtain ⟨ids₀, hids₀, hmem⟩ :=
    mem_linked_of_mem_closure ((mem_bucket_after hmerged).1 hp).1 hlinked
  refine ⟨ids₀, hids₀, hmem, ?_⟩
  rw [(mem_linkedComponents hids₀ hmem).1]
  refine mem_closure_of_after hmerged ?_
  rwa [← hclosure]

/-- Each component keeps a member: the first of its home in the election. -/
theorem exists_kept_of_linked {ids : Finset String}
    (hids : ids ∈ linkedComponents (bucket core store subjectId key)) :
    ∃ p ∈ bucket core after subjectId key, p.id ∈ ids ∧ p.subjectIds ≠ [] := by
  obtain ⟨start, hstart, rfl⟩ := (Closure.mem_components (sharers_subset _)
    fun _ _ => sharers_symm).1 hids
  have hself : start ∈ Closure.closure (sharers (bucket core store subjectId key))
      ((bucket core store subjectId key).map Particle.id).toFinset {start} :=
    (Closure.mem_closure (sharers_subset _)).2 ⟨start, Finset.mem_singleton_self _, .refl⟩
  obtain ⟨-, q, hq, rfl, hqlinked⟩ := mem_linkedComponents hids hself
  obtain ⟨component, hcomponent, hsub⟩ := exists_home_of_linked hids
  have hqc : q ∈ component := hsub (mem_membersOf.2 ⟨hq, hself⟩)
  -- the first of the home has a subject, since this member has one
  cases hbest : component.argmin electionKey with
  | none =>
      rw [List.argmin_eq_none.1 hbest] at hqc
      cases hqc
  | some p =>
      have hp := List.argmin_mem hbest
      have hfirst : ∀ r ∈ component, electionKey p ≤ electionKey r :=
        fun r hr => List.le_of_mem_argmin hr hbest
      have hlinked := linked_of_electionKey_le (hfirst q hqc) hqlinked
      have hbucket := subset_of_mem_duplicateComponents hcomponent hp
      refine ⟨p, (mem_bucket_after hmerged).2
        ⟨hbucket, survivor_not_mem_redundantCopies hcomponent hp hfirst⟩, ?_, hlinked⟩
      -- and what is in a home beside a component, with a subject, is in the component
      rcases duplicateComponents_cases hcomponent with ⟨ids', hids', rfl, -⟩ |
        ⟨only, honly, -, rfl⟩ | ⟨rfl, -⟩
      · rw [eq_of_mem_linkedComponents hids hids' hself (mem_membersOf.1 hqc).2]
        exact (mem_membersOf.1 hp).2
      · obtain ⟨ids', hids', hpid⟩ := mem_linked_of_mem_closure hbucket hlinked
        rw [honly, List.mem_singleton] at hids' hids
        rw [hids, ← hids']
        exact hpid
      · exact absurd (mem_orphansOf.1 hp).2 hlinked

/-- When one component is left, there was one. -/
theorem only_linked_of_after {only : Finset String}
    (honly : linkedComponents (bucket core after subjectId key) = [only]) {p : Particle}
    (hp : p ∈ bucket core store subjectId key) (hlinked : p.subjectIds ≠ []) :
    ∃ only₀, linkedComponents (bucket core store subjectId key) = [only₀] := by
  have hsame : ∀ ids ∈ linkedComponents (bucket core store subjectId key),
      ∀ ids' ∈ linkedComponents (bucket core store subjectId key), ids = ids' := by
    intro ids hids ids' hids'
    obtain ⟨q, hq, hqid, hqlinked⟩ := exists_kept_of_linked hmerged hids
    obtain ⟨r, hr, hrid, hrlinked⟩ := exists_kept_of_linked hmerged hids'
    obtain ⟨c, hc, hqc⟩ := mem_linked_of_mem_closure hq hqlinked
    obtain ⟨c', hc', hrc⟩ := mem_linked_of_mem_closure hr hrlinked
    rw [honly, List.mem_singleton] at hc hc'
    rw [hc] at hqc
    rw [hc'] at hrc
    have hin : only ∈ linkedComponents (bucket core after subjectId key) := by
      rw [honly]
      exact List.mem_singleton_self _
    -- the two kept members are joined after the merge, so they were before
    obtain ⟨ids₀, hids₀, hq₀, hr₀⟩ := linked_of_after hmerged hin hq hqc hrc
    rw [eq_of_mem_linkedComponents hids hids₀ hqid hq₀,
      eq_of_mem_linkedComponents hids' hids₀ hrid hr₀]
  obtain ⟨ids, hids, hpid⟩ := mem_linked_of_mem_closure hp hlinked
  exact only_of_forall_eq (List.ne_nil_of_mem hids) hsame fun ids hids => by
    obtain ⟨q, -, hq, -⟩ := exists_kept_of_linked hmerged hids
    exact ⟨q.id, hq⟩

/-- **What has one home after a merge had one before.** -/
theorem same_home_of_superseded {component : List Particle}
    (hcomponent : component ∈ duplicateComponents (bucket core after subjectId key)) {p q : Particle}
    (hp : p ∈ component) (hq : q ∈ component) :
    ∃ home ∈ duplicateComponents (bucket core store subjectId key), p ∈ home ∧ q ∈ home := by
  have hpb := subset_of_mem_duplicateComponents hcomponent hp
  have hqb := subset_of_mem_duplicateComponents hcomponent hq
  have hp₀ := ((mem_bucket_after hmerged).1 hpb).1
  have hq₀ := ((mem_bucket_after hmerged).1 hqb).1
  have hjoined : ∀ ids ∈ linkedComponents (bucket core after subjectId key), p.id ∈ ids →
      q.id ∈ ids → ∃ home ∈ duplicateComponents (bucket core store subjectId key),
        p ∈ home ∧ q ∈ home := by
    intro ids hids hpid hqid
    obtain ⟨ids₀, hids₀, hpid₀, hqid₀⟩ := linked_of_after hmerged hids hpb hpid hqid
    obtain ⟨home, hhome, hsub⟩ := exists_home_of_linked hids₀
    exact ⟨home, hhome, hsub (mem_membersOf.2 ⟨hp₀, hpid₀⟩), hsub (mem_membersOf.2 ⟨hq₀, hqid₀⟩)⟩
  by_cases hporphan : p.subjectIds = []
  · by_cases hqorphan : q.subjectIds = []
    · have hmem : p ∈ orphansOf (bucket core store subjectId key) := mem_orphansOf.2 ⟨hp₀, hporphan⟩
      obtain ⟨home, hhome, hsub⟩ := exists_home_of_orphans (List.ne_nil_of_mem hmem)
      exact ⟨home, hhome, hsub hmem, hsub (mem_orphansOf.2 ⟨hq₀, hqorphan⟩)⟩
    · obtain ⟨only, honly⟩ := only_of_mixed hcomponent hp hq hporphan hqorphan bucket_inj
      obtain ⟨only₀, honly₀⟩ := only_linked_of_after hmerged honly hq₀ hqorphan
      obtain ⟨home, hhome, hsub⟩ := exists_home_of_only honly₀
      exact ⟨home, hhome, hsub hp₀, hsub hq₀⟩
  · by_cases hqorphan : q.subjectIds = []
    · obtain ⟨only, honly⟩ := only_of_mixed hcomponent hq hp hqorphan hporphan bucket_inj
      obtain ⟨only₀, honly₀⟩ := only_linked_of_after hmerged honly hp₀ hporphan
      obtain ⟨home, hhome, hsub⟩ := exists_home_of_only honly₀
      exact ⟨home, hhome, hsub hp₀, hsub hq₀⟩
    · rcases duplicateComponents_cases hcomponent with ⟨ids, hids, rfl, -⟩ |
        ⟨only, honly, -, rfl⟩ | ⟨rfl, -⟩
      · exact hjoined ids hids (mem_membersOf.1 hp).2 (mem_membersOf.1 hq).2
      · have hids : only ∈ linkedComponents (bucket core after subjectId key) := by
          rw [honly]
          exact List.mem_singleton_self _
        have hnot : ∀ r : Particle, r.subjectIds ≠ [] →
            r ∉ orphansOf (bucket core after subjectId key) := by
          intro r hr horphan
          exact hr (mem_orphansOf.1 horphan).2
        exact hjoined only hids
          (mem_membersOf.1 ((List.mem_append.1 hp).resolve_right (hnot p hporphan))).2
          (mem_membersOf.1 ((List.mem_append.1 hq).resolve_right (hnot q hqorphan))).2
      · exact absurd (mem_orphansOf.1 hp).2 hporphan

/-- **A merge of all groups leaves none.** -/
theorem groups_after_merge : findExactDuplicateGroups core after subjectId = [] := by
  refine List.eq_nil_iff_forall_not_mem.2 fun group hgroup => ?_
  obtain ⟨key, component, hcomponent, hof⟩ := component_of_mem_groups hgroup
  obtain ⟨p, hp, q, hq, hne⟩ := two_of_groupOf hof (nodup_members hgroup)
  obtain ⟨home, hhome, hph, hqh⟩ := same_home_of_superseded hmerged hcomponent hp hq
  obtain ⟨before, hbefore, -, hpm, hqm⟩ :=
    exists_group_of_component hhome hph hqh fun heq => hne (congrArg Particle.id heq)
  -- one of the two was redundant in the group before
  have hkept : ∀ r ∈ component, r.id ∉ before.redundantIds := by
    intro r hr hmem
    have hb := subset_of_mem_duplicateComponents hcomponent hr
    exact ((mem_bucket_after hmerged).1 hb).2 (List.mem_flatMap.2 ⟨before, hbefore, hmem⟩)
  have hps := (List.mem_cons.1 hpm).resolve_right (hkept p hp)
  have hqs := (List.mem_cons.1 hqm).resolve_right (hkept q hq)
  exact hne (hps.trans hqs.symm)

end Merged

/-- A run that may merge everything it finds leaves no group. -/
theorem groups_after_autoMerge {menv : MergeEnv} {now : Instant} {store : Store}
    {subjectId : Option String} {result : MergeRun}
    (h : autoMergeExactDuplicates menv now store subjectId false = .ok result)
    (hfit : mergingGroups menv store subjectId false =
      findExactDuplicateGroups menv.core store subjectId) :
    findExactDuplicateGroups menv.core result.store subjectId = [] := by
  have hspec := autoMerge_spec h
  rw [hfit] at hspec
  exact groups_after_merge hspec

/-! ### The partition -/

/-- Two copies of one claim that share a subject. -/
def SharesSubject (core : CorePackage) (p q : Particle) : Prop :=
  bucketKey core p = bucketKey core q ∧ ∃ s ∈ p.subjectIds, s ∈ q.subjectIds

/-- Two candidates that share a subject, directly or through a chain of copies. -/
def JoinedCopies (core : CorePackage) (store : Store) (subjectId : Option String) :
    Particle → Particle → Prop :=
  TransGen fun p q => p ∈ mergeCandidates core store subjectId ∧
    q ∈ mergeCandidates core store subjectId ∧ SharesSubject core p q

section Partition

variable {core : CorePackage} {store : Store} {subjectId : Option String}

/-- A chain of copies stays in one home. -/
theorem mem_home_of_joined {p q : Particle} (hjoined : JoinedCopies core store subjectId p q)
    {component : List Particle}
    (hcomponent : component ∈ duplicateComponents (bucket core store subjectId (bucketKey core p)))
    (hp : p ∈ component) : q ∈ component := by
  induction hjoined with
  | single hstep =>
      obtain ⟨-, hq, hkey, s, hsp, hsq⟩ := hstep
      exact mem_duplicateComponents_of_shared hcomponent hp (mem_bucket.2 ⟨hq, hkey.symm⟩) hsp hsq
  | @tail q r _ hstep ih =>
      obtain ⟨-, hr, hkey, s, hsq, hsr⟩ := hstep
      have hqkey := (mem_bucket.1 (subset_of_mem_duplicateComponents hcomponent ih)).2
      exact mem_duplicateComponents_of_shared hcomponent ih
        (mem_bucket.2 ⟨hr, hkey.symm.trans hqkey⟩) hsq hsr

/-- **Copies that a chain joins are in one group.** -/
theorem exists_group_of_joined {p q : Particle} (hjoined : JoinedCopies core store subjectId p q)
    (hne : p ≠ q) :
    ∃ group ∈ findExactDuplicateGroups core store subjectId,
      p.id ∈ group.members ∧ q.id ∈ group.members := by
  have hp : p ∈ mergeCandidates core store subjectId := by
    obtain ⟨r, ⟨hp, -⟩, -⟩ := TransGen.head'_iff.1 hjoined
    exact hp
  obtain ⟨component, hcomponent, hpc⟩ := exists_home (mem_bucket.2 ⟨hp, rfl⟩)
  obtain ⟨group, hgroup, -, hmem⟩ := exists_group_of_component hcomponent hpc
    (mem_home_of_joined hjoined hcomponent hpc) hne
  exact ⟨group, hgroup, hmem⟩

/-- **A group with a claim that has a subject elects one.** -/
theorem survivor_linked {group : DuplicateGroup}
    (hgroup : group ∈ findExactDuplicateGroups core store subjectId) {p survivor : Particle}
    (hp : p ∈ mergeCandidates core store subjectId) (hpm : p.id ∈ group.members)
    (hlinked : p.subjectIds ≠ []) (hs : survivor ∈ mergeCandidates core store subjectId)
    (hsid : survivor.id = group.survivorId) : survivor.subjectIds ≠ [] := by
  obtain ⟨key, component, hcomponent, hof⟩ := component_of_mem_groups hgroup
  obtain ⟨first, hfirst, hfid, hleast⟩ := survivor_of_groupOf hof
  obtain ⟨q, hq, hqid⟩ := List.mem_map.1 ((groupOf_eq_some hof).2.mem_iff.1 hpm)
  have hcandidate : ∀ r ∈ component, r ∈ mergeCandidates core store subjectId := by
    intro r hr
    exact (mem_bucket.1 (subset_of_mem_duplicateComponents hcomponent hr)).1
  obtain rfl := mergeCandidates_inj (hcandidate q hq) hp hqid
  obtain rfl := mergeCandidates_inj (hcandidate first hfirst) hs (hfid.trans hsid.symm)
  exact linked_of_electionKey_le (hleast q hq) hlinked

/-- **A claim without a subject joins claims that have one only where these are the only home**: the
group then has every claim of the bucket. -/
theorem mem_members_of_mixed {group : DuplicateGroup}
    (hgroup : group ∈ findExactDuplicateGroups core store subjectId) {p q r : Particle}
    (hp : p ∈ mergeCandidates core store subjectId) (hpm : p.id ∈ group.members)
    (horphan : p.subjectIds = []) (hq : q ∈ mergeCandidates core store subjectId)
    (hqm : q.id ∈ group.members) (hlinked : q.subjectIds ≠ [])
    (hr : r ∈ mergeCandidates core store subjectId) (hkey : bucketKey core r = bucketKey core p) :
    r.id ∈ group.members := by
  obtain ⟨key, component, hcomponent, hof⟩ := component_of_mem_groups hgroup
  have hperm := (groupOf_eq_some hof).2
  have hback : ∀ x ∈ mergeCandidates core store subjectId, x.id ∈ group.members →
      x ∈ component := by
    intro x hx hxm
    obtain ⟨y, hy, hyid⟩ := List.mem_map.1 (hperm.mem_iff.1 hxm)
    have hyc := (mem_bucket.1 (subset_of_mem_duplicateComponents hcomponent hy)).1
    rwa [← mergeCandidates_inj hyc hx hyid]
  obtain ⟨only, honly⟩ :=
    only_of_mixed hcomponent (hback p hp hpm) (hback q hq hqm) horphan hlinked bucket_inj
  obtain ⟨home, hhome, hsub⟩ := exists_home_of_only honly
  have hbucket := subset_of_mem_duplicateComponents hcomponent (hback p hp hpm)
  obtain rfl := eq_of_mem_duplicateComponents bucket_inj hcomponent hhome (hback p hp hpm)
    (hsub hbucket)
  exact hperm.mem_iff.2 (List.mem_map_of_mem
    (hsub (mem_bucket.2 ⟨hr, hkey.trans (mem_bucket.1 hbucket).2⟩)))

end Partition

/-- **The groups partition the copies, and a merge of all of them leaves none.** -/
theorem findExactDuplicateGroups_partition (core : CorePackage) (store : Store)
    (subjectId : Option String) :
    ((findExactDuplicateGroups core store subjectId).flatMap DuplicateGroup.members).Nodup ∧
      (∀ p q, JoinedCopies core store subjectId p q → p ≠ q →
        ∃ group ∈ findExactDuplicateGroups core store subjectId,
          p.id ∈ group.members ∧ q.id ∈ group.members) ∧
      (∀ group ∈ findExactDuplicateGroups core store subjectId,
        ∀ p ∈ mergeCandidates core store subjectId, p.id ∈ group.members → p.subjectIds ≠ [] →
          ∀ survivor ∈ mergeCandidates core store subjectId, survivor.id = group.survivorId →
            survivor.subjectIds ≠ []) ∧
      (∀ group ∈ findExactDuplicateGroups core store subjectId,
        ∀ p ∈ mergeCandidates core store subjectId, p.id ∈ group.members → p.subjectIds = [] →
          ∀ q ∈ mergeCandidates core store subjectId, q.id ∈ group.members → q.subjectIds ≠ [] →
            ∀ r ∈ mergeCandidates core store subjectId, bucketKey core r = bucketKey core p →
              r.id ∈ group.members) ∧
      ∀ (now : Instant) (after : Store),
        CopiesSuperseded now store after (redundantCopies core store subjectId) →
          findExactDuplicateGroups core after subjectId = [] :=
  ⟨nodup_members_groups core store subjectId,
    fun _ _ hjoined hne => exists_group_of_joined hjoined hne,
    fun _ hgroup _ hp hpm hlinked _ hs hsid => survivor_linked hgroup hp hpm hlinked hs hsid,
    fun _ hgroup _ hp hpm horphan _ hq hqm hlinked _ hr hkey =>
      mem_members_of_mixed hgroup hp hpm horphan hq hqm hlinked hr hkey,
    fun _ _ hmerged => groups_after_merge hmerged⟩

end ParticlesEngine
