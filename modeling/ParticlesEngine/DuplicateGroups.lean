/-
**Groups of identical claims.**

The exact-duplicate finder puts the ACTIVE claims with one content hash and one stance holder into a
bucket and splits each bucket into groups: the claims that a chain of shared subjects joins, with the
claims that have no subject placed where there is no choice.  In each group the claim that comes first
in the election survives a merge and the others are redundant.

Main definitions:

* `electionKey` — the order of the election;
* `duplicateComponents` — the groups of a bucket;
* `findExactDuplicateGroups` — all groups of two or more.

Main results:

* `mem_duplicateComponents_of_shared` — claims that share a subject are in one group;
* `eq_of_mem_members` — **no claim is in two groups**.
-/

import Mathlib.Data.Bool.Basic
import Mathlib.Data.Prod.Lex
import Mathlib.Data.String.Basic
import ParticlesEngine.Closure
import ParticlesEngine.DuplicateSuppression
import ParticlesEngine.FirstByKey

set_option relaxedAutoImplicit false
set_option autoImplicit false

open SortBy FirstByKey

namespace ParticlesEngine

/-! ### The groups of a bucket -/

/-- `_election_key`: with a subject before without, then the earliest, then by id. -/
def electionKey (p : Particle) : Bool ×ₗ Instant ×ₗ String :=
  toLex (decide (p.subjectIds = []), toLex (p.assertedAt, p.id))

/-- The other members that share a subject with the member of that id. -/
def sharers (members : List Particle) (id : String) : Finset String :=
  ((members.filter fun q => q.id ≠ id ∧
    ∃ p ∈ members, p.id = id ∧ ∃ s ∈ p.subjectIds, s ∈ q.subjectIds).map Particle.id).toFinset

/-- The components of the members that have a subject, from the smallest id on. -/
def linkedComponents (members : List Particle) : List (Finset String) :=
  Closure.components (sharers members) (members.map Particle.id).toFinset
    (sortBy id ((members.filter fun p => p.subjectIds ≠ []).map Particle.id))

/-- **`_duplicate_components`.** -/
def duplicateComponents (members : List Particle) : List (List Particle) :=
  let linked := (linkedComponents members).map fun ids => members.filter fun p => p.id ∈ ids
  let orphans := members.filter fun p => p.subjectIds = []
  if orphans = [] then linked
  else
    match linked with
    -- the one home there is
    | [component] => [component ++ orphans]
    | _ => linked ++ [orphans]

/-- Whether the members of a group have subjects. -/
inductive SubjectClass where
  | linked
  | orphan
  | mixed
  deriving DecidableEq, Repr

/-- A group of two or more copies of one claim. -/
structure DuplicateGroup where
  contentHash : String
  contentExcerpt : String
  subjectIds : List String
  survivorId : String
  redundantIds : List String
  subjectClass : SubjectClass
  deriving DecidableEq, Repr

/-- The ids of all its members. -/
def DuplicateGroup.members (group : DuplicateGroup) : List String :=
  group.survivorId :: group.redundantIds

/-- The group of a component, unless it is a single claim. -/
def groupOf (digest : String) (component : List Particle) : Option DuplicateGroup :=
  match sortBy electionKey component with
  | survivor :: copy :: copies =>
      let ordered := survivor :: copy :: copies
      let linked := ordered.countP fun p => p.subjectIds ≠ []
      some {
        contentHash := digest
        contentExcerpt := String.ofList (survivor.content.toList.take 160)
        subjectIds := firstByKey id [] (ordered.flatMap Particle.subjectIds)
        survivorId := survivor.id
        redundantIds := (copy :: copies).map Particle.id
        subjectClass :=
          if linked = ordered.length then .linked else if linked = 0 then .orphan else .mixed }
  | _ => none

/-! ### The finder -/

section Finder

variable (core : CorePackage) (store : Store)

/-- The key of a bucket: the content hash and the stance holder. -/
def bucketKey (p : Particle) : String × Option String :=
  (core.contentHash p.content, core.stanceHolder p)

/-- The claims that may be merged: ACTIVE, truth-apt, asserted, and about the subject if one is
given. -/
def mergeCandidates (subjectId : Option String) : List Particle :=
  ((store.particles.rows.filter fun row => row.model.status = .ACTIVE).map ParticleRow.toModel).filter
    fun p => core.isTruthApt p.assertionModality && !core.isNonAsserted p.properties &&
      subjectId.all fun s => s ∈ p.subjectIds

/-- The candidates of one bucket. -/
def bucket (subjectId : Option String) (key : String × Option String) : List Particle :=
  (mergeCandidates core store subjectId).filter fun p => bucketKey core p = key

/-- **`find_exact_duplicate_groups`.** -/
def findExactDuplicateGroups (subjectId : Option String) : List DuplicateGroup :=
  let keys := firstByKey id [] ((mergeCandidates core store subjectId).map (bucketKey core))
  sortBy (fun group : DuplicateGroup => toLex (group.contentHash, group.survivorId))
    (keys.flatMap fun key =>
      (duplicateComponents (bucket core store subjectId key)).filterMap (groupOf key.1))

end Finder

/-! ### What a group is -/

section Component

variable {members : List Particle}

theorem sharers_subset (members : List Particle) (id : String) :
    sharers members id ⊆ (members.map Particle.id).toFinset := by
  intro x hx
  simp only [sharers, List.mem_toFinset, List.mem_map, List.mem_filter] at hx ⊢
  obtain ⟨q, ⟨hq, -⟩, rfl⟩ := hx
  exact ⟨q, hq, rfl⟩

theorem sharers_symm {a b : String} (h : b ∈ sharers members a) : a ∈ sharers members b := by
  simp only [sharers, List.mem_toFinset, List.mem_map, List.mem_filter, decide_eq_true_eq] at h ⊢
  obtain ⟨q, ⟨hq, hne, p, hp, rfl, s, hsp, hsq⟩, rfl⟩ := h
  exact ⟨p, ⟨hp, hne.symm, q, hq, rfl, s, hsq, hsp⟩, rfl⟩

/-- A component is the component of each of its members, and these have a subject. -/
theorem mem_linkedComponents {ids : Finset String} (hids : ids ∈ linkedComponents members)
    {id : String} (hid : id ∈ ids) :
    ids = Closure.closure (sharers members) (members.map Particle.id).toFinset {id} ∧
      ∃ p ∈ members, p.id = id ∧ p.subjectIds ≠ [] := by
  obtain ⟨start, hstart, rfl⟩ := (Closure.mem_components (sharers_subset members)
    fun _ _ => sharers_symm).1 hids
  refine ⟨(Closure.closure_singleton_eq (sharers_subset members) (fun _ _ => sharers_symm) hid).symm,
    ?_⟩
  obtain ⟨s, hs, hpath⟩ := (Closure.mem_closure (sharers_subset members)).1 hid
  obtain rfl := Finset.mem_singleton.1 hs
  cases hpath with
  | refl =>
      rw [mem_sortBy, List.mem_map] at hstart
      obtain ⟨p, hp, rfl⟩ := hstart
      obtain ⟨hmem, hlinked⟩ := List.mem_filter.1 hp
      exact ⟨p, hmem, rfl, by simpa using hlinked⟩
  | tail _ hstep =>
      simp only [sharers, List.mem_toFinset, List.mem_map, List.mem_filter,
        decide_eq_true_eq] at hstep
      obtain ⟨q, ⟨hq, -, p, -, -, t, -, htq⟩, rfl⟩ := hstep
      exact ⟨q, hq, rfl, List.ne_nil_of_mem htq⟩

/-- A member is in one component. -/
theorem eq_of_mem_linkedComponents {ids ids' : Finset String}
    (hids : ids ∈ linkedComponents members) (hids' : ids' ∈ linkedComponents members) {id : String}
    (hid : id ∈ ids) (hid' : id ∈ ids') : ids = ids' := by
  rw [(mem_linkedComponents hids hid).1, ← (mem_linkedComponents hids' hid').1]

/-- A member that shares a subject with a member of a component is in it. -/
theorem mem_linkedComponents_of_shared {ids : Finset String} (hids : ids ∈ linkedComponents members)
    {p q : Particle} (hp : p ∈ members) (hq : q ∈ members) (hid : p.id ∈ ids) {s : String}
    (hsp : s ∈ p.subjectIds) (hsq : s ∈ q.subjectIds) : q.id ∈ ids := by
  rw [(mem_linkedComponents hids hid).1, Closure.mem_closure (sharers_subset members)]
  refine ⟨p.id, Finset.mem_singleton_self _, ?_⟩
  by_cases hne : q.id = p.id
  · rw [hne]
  · refine Relation.ReflTransGen.single ?_
    simp only [sharers, List.mem_toFinset, List.mem_map, List.mem_filter, decide_eq_true_eq]
    exact ⟨q, ⟨hq, hne, p, hp, rfl, s, hsp, hsq⟩, rfl⟩

/-- The members that have no subject. -/
def orphansOf (members : List Particle) : List Particle :=
  members.filter fun p => p.subjectIds = []

/-- The members of a component. -/
def membersOf (members : List Particle) (ids : Finset String) : List Particle :=
  members.filter fun p => p.id ∈ ids

theorem duplicateComponents_eq (members : List Particle) : duplicateComponents members =
    if orphansOf members = [] then (linkedComponents members).map (membersOf members)
    else
      match (linkedComponents members).map (membersOf members) with
      | [component] => [component ++ orphansOf members]
      | _ => (linkedComponents members).map (membersOf members) ++ [orphansOf members] := rfl

/-- **The groups of a bucket**: the members of a component, with all that have no subject if it is
the only one, and else these alone. -/
theorem duplicateComponents_cases {component : List Particle}
    (h : component ∈ duplicateComponents members) :
    (∃ ids ∈ linkedComponents members, component = membersOf members ids ∧
        (orphansOf members = [] ∨ ∀ only, linkedComponents members ≠ [only])) ∨
      (∃ only, linkedComponents members = [only] ∧ orphansOf members ≠ [] ∧
        component = membersOf members only ++ orphansOf members) ∨
      component = orphansOf members ∧ ∀ only, linkedComponents members ≠ [only] := by
  have hlinked : component ∈ (linkedComponents members).map (membersOf members) →
      ∃ ids ∈ linkedComponents members, component = membersOf members ids := by
    intro hmem
    obtain ⟨ids, hids, rfl⟩ := List.mem_map.1 hmem
    exact ⟨ids, hids, rfl⟩
  rw [duplicateComponents_eq] at h
  split_ifs at h with hnone
  · obtain ⟨ids, hids, heq⟩ := hlinked h
    exact Or.inl ⟨ids, hids, heq, Or.inl hnone⟩
  cases hcomponents : linkedComponents members with
  | nil =>
      rw [hcomponents] at h
      exact Or.inr (Or.inr ⟨List.mem_singleton.1 h, by simp⟩)
  | cons ids rest =>
      rw [hcomponents] at h hlinked
      cases rest with
      | nil => exact Or.inr (Or.inl ⟨ids, rfl, hnone, List.mem_singleton.1 h⟩)
      | cons ids' rest =>
          rcases List.mem_append.1 h with h | h
          · obtain ⟨found, hfound, heq⟩ := hlinked h
            exact Or.inl ⟨found, hfound, heq, Or.inr (by simp)⟩
          · exact Or.inr (Or.inr ⟨List.mem_singleton.1 h, by simp⟩)

theorem mem_membersOf {ids : Finset String} {p : Particle} :
    p ∈ membersOf members ids ↔ p ∈ members ∧ p.id ∈ ids := by
  simp [membersOf]

theorem mem_orphansOf {p : Particle} : p ∈ orphansOf members ↔ p ∈ members ∧ p.subjectIds = [] := by
  simp [orphansOf]

theorem subset_of_mem_duplicateComponents {component : List Particle}
    (h : component ∈ duplicateComponents members) : component ⊆ members := by
  intro p hp
  rcases duplicateComponents_cases h with ⟨ids, -, rfl, -⟩ | ⟨only, -, -, rfl⟩ | ⟨rfl, -⟩
  · exact (mem_membersOf.1 hp).1
  · rcases List.mem_append.1 hp with hp | hp
    · exact (mem_membersOf.1 hp).1
    · exact (mem_orphansOf.1 hp).1
  · exact (mem_orphansOf.1 hp).1

/-- **Claims that share a subject are in one group.** -/
theorem mem_duplicateComponents_of_shared {component : List Particle}
    (h : component ∈ duplicateComponents members) {p q : Particle} (hp : p ∈ component)
    (hq : q ∈ members) {s : String} (hsp : s ∈ p.subjectIds) (hsq : s ∈ q.subjectIds) :
    q ∈ component := by
  have hlinked : p ∉ orphansOf members := fun horphan =>
    List.ne_nil_of_mem hsp (mem_orphansOf.1 horphan).2
  rcases duplicateComponents_cases h with ⟨ids, hids, rfl, -⟩ | ⟨only, honly, -, rfl⟩ | ⟨rfl, -⟩
  · obtain ⟨hp, hid⟩ := mem_membersOf.1 hp
    exact mem_membersOf.2 ⟨hq, mem_linkedComponents_of_shared hids hp hq hid hsp hsq⟩
  · obtain ⟨hp, hid⟩ := mem_membersOf.1 ((List.mem_append.1 hp).resolve_right hlinked)
    have hids : only ∈ linkedComponents members := by rw [honly]; exact List.mem_cons_self
    exact List.mem_append_left _
      (mem_membersOf.2 ⟨hq, mem_linkedComponents_of_shared hids hp hq hid hsp hsq⟩)
  · exact absurd hp hlinked

section Unique

variable (hinj : ∀ p ∈ members, ∀ q ∈ members, p.id = q.id → p = q)

include hinj

theorem not_orphan_of_mem_membersOf {ids : Finset String} (hids : ids ∈ linkedComponents members)
    {p : Particle} (hp : p ∈ membersOf members ids) : p ∉ orphansOf members := by
  intro horphan
  obtain ⟨hmem, hid⟩ := mem_membersOf.1 hp
  obtain ⟨q, hq, heq, hlinked⟩ := (mem_linkedComponents hids hid).2
  obtain rfl := hinj q hq p hmem heq
  exact hlinked (mem_orphansOf.1 horphan).2

/-- **A member is in one group.** -/
theorem eq_of_mem_duplicateComponents {component component' : List Particle}
    (h : component ∈ duplicateComponents members) (h' : component' ∈ duplicateComponents members)
    {p : Particle} (hp : p ∈ component) (hp' : p ∈ component') : component = component' := by
  rcases duplicateComponents_cases h with ⟨ids, hids, rfl, hhome⟩ | ⟨only, honly, hsome, rfl⟩ |
    ⟨rfl, hnot⟩ <;>
  rcases duplicateComponents_cases h' with ⟨ids', hids', rfl, hhome'⟩ | ⟨only', honly', hsome', rfl⟩ |
    ⟨rfl, hnot'⟩
  · rw [eq_of_mem_linkedComponents hids hids' (mem_membersOf.1 hp).2
      (mem_membersOf.1 hp').2]
  · exact absurd honly' (hhome.resolve_left hsome' only')
  · exact absurd hp' (not_orphan_of_mem_membersOf hinj hids hp)
  · exact absurd honly (hhome'.resolve_left hsome only)
  · rw [honly, List.singleton_inj] at honly'
    rw [honly']
  · exact absurd honly (hnot' only)
  · exact absurd hp (not_orphan_of_mem_membersOf hinj hids' hp')
  · exact absurd honly' (hnot only')
  · rfl

end Unique

theorem nodup_of_mem_duplicateComponents (hnodup : (members.map Particle.id).Nodup)
    {component : List Particle} (h : component ∈ duplicateComponents members) :
    (component.map Particle.id).Nodup := by
  have hfilter : ∀ p : Particle → Bool, ((members.filter p).map Particle.id).Nodup := fun p =>
    (List.filter_sublist.map _).nodup hnodup
  rcases duplicateComponents_cases h with ⟨ids, -, rfl, -⟩ | ⟨only, honly, -, rfl⟩ | ⟨rfl, -⟩
  · exact hfilter _
  · rw [List.map_append, List.nodup_append']
    refine ⟨hfilter _, hfilter _, ?_⟩
    intro id hid hid'
    obtain ⟨p, hp, rfl⟩ := List.mem_map.1 hid
    obtain ⟨q, hq, heq⟩ := List.mem_map.1 hid'
    have hids : only ∈ linkedComponents members := by rw [honly]; exact List.mem_cons_self
    have hinj : ∀ p ∈ members, ∀ q ∈ members, p.id = q.id → p = q := fun p hp q hq =>
      List.inj_on_of_nodup_map hnodup hp hq
    obtain rfl := hinj q (mem_orphansOf.1 hq).1 p (mem_membersOf.1 hp).1 heq
    exact not_orphan_of_mem_membersOf hinj hids hp hq
  · exact hfilter _

end Component

/-! ### The groups of a store -/

/-- **The members of a group are those of its component**, the survivor first. -/
theorem groupOf_eq_some {digest : String} {component : List Particle} {group : DuplicateGroup}
    (h : groupOf digest component = some group) :
    group.contentHash = digest ∧ group.members.Perm (component.map Particle.id) := by
  have hperm := (sortBy_perm electionKey component).map Particle.id
  unfold groupOf at h
  split at h
  · next survivor copy copies hsorted =>
      obtain rfl := Option.some.inj h
      exact ⟨rfl, by rwa [hsorted] at hperm⟩
  · cases h

section Groups

variable {core : CorePackage} {store : Store} {subjectId : Option String}

/-- A candidate is the particle of an ACTIVE row. -/
theorem get?_of_mem_mergeCandidates {p : Particle} (h : p ∈ mergeCandidates core store subjectId) :
    ∃ row, store.get? p.id = some row ∧ row.model = p ∧ row.model.status = .ACTIVE := by
  obtain ⟨row, hrow, rfl⟩ := List.mem_map.1 (List.mem_of_mem_filter h)
  obtain ⟨hmem, hactive⟩ := List.mem_filter.1 hrow
  exact ⟨row, ParticleTable.get?_id hmem, rfl, of_decide_eq_true hactive⟩

theorem mergeCandidates_inj {p q : Particle} (hp : p ∈ mergeCandidates core store subjectId)
    (hq : q ∈ mergeCandidates core store subjectId) (hid : p.id = q.id) : p = q := by
  obtain ⟨row, hrow, rfl, -⟩ := get?_of_mem_mergeCandidates hp
  obtain ⟨row', hrow', rfl, -⟩ := get?_of_mem_mergeCandidates hq
  rw [hid, hrow'] at hrow
  rw [Option.some.inj hrow]

theorem nodup_mergeCandidates (core : CorePackage) (store : Store) (subjectId : Option String) :
    ((mergeCandidates core store subjectId).map Particle.id).Nodup := by
  have hrows : (((store.particles.rows.filter fun row => row.model.status = .ACTIVE).map
      ParticleRow.toModel).map Particle.id).Nodup := by
    rw [List.map_map]
    exact (List.filter_sublist.map _).nodup store.particles.table.nodup
  exact (List.filter_sublist.map _).nodup hrows

theorem mem_bucket {key : String × Option String} {p : Particle} :
    p ∈ bucket core store subjectId key ↔
      p ∈ mergeCandidates core store subjectId ∧ bucketKey core p = key := by
  simp [bucket]

/-- A group is found in the bucket of its members. -/
theorem component_of_mem_groups {group : DuplicateGroup}
    (h : group ∈ findExactDuplicateGroups core store subjectId) :
    ∃ key, ∃ component ∈ duplicateComponents (bucket core store subjectId key),
      groupOf key.1 component = some group := by
  rw [findExactDuplicateGroups, mem_sortBy] at h
  obtain ⟨key, -, hgroup⟩ := List.mem_flatMap.1 h
  obtain ⟨component, hcomponent, hof⟩ := List.mem_filterMap.1 hgroup
  exact ⟨key, component, hcomponent, hof⟩

/-- **No claim is in two groups.** -/
theorem eq_of_mem_members {group group' : DuplicateGroup}
    (h : group ∈ findExactDuplicateGroups core store subjectId)
    (h' : group' ∈ findExactDuplicateGroups core store subjectId) {id : String}
    (hid : id ∈ group.members) (hid' : id ∈ group'.members) : group = group' := by
  obtain ⟨key, component, hcomponent, hof⟩ := component_of_mem_groups h
  obtain ⟨key', component', hcomponent', hof'⟩ := component_of_mem_groups h'
  obtain ⟨p, hp, rfl⟩ := List.mem_map.1 ((groupOf_eq_some hof).2.mem_iff.1 hid)
  obtain ⟨q, hq, heq⟩ := List.mem_map.1 ((groupOf_eq_some hof').2.mem_iff.1 hid')
  obtain ⟨hpc, hpkey⟩ := mem_bucket.1 (subset_of_mem_duplicateComponents hcomponent hp)
  obtain ⟨hqc, hqkey⟩ := mem_bucket.1 (subset_of_mem_duplicateComponents hcomponent' hq)
  obtain rfl := mergeCandidates_inj hqc hpc heq
  obtain rfl : key = key' := hpkey.symm.trans hqkey
  have hinj : ∀ p ∈ bucket core store subjectId key, ∀ q ∈ bucket core store subjectId key,
      p.id = q.id → p = q := fun p hp q hq =>
    mergeCandidates_inj (mem_bucket.1 hp).1 (mem_bucket.1 hq).1
  obtain rfl := eq_of_mem_duplicateComponents hinj hcomponent hcomponent' hp hq
  exact Option.some.inj (hof.symm.trans hof')

theorem nodup_members {group : DuplicateGroup}
    (h : group ∈ findExactDuplicateGroups core store subjectId) : group.members.Nodup := by
  obtain ⟨key, component, hcomponent, hof⟩ := component_of_mem_groups h
  refine (groupOf_eq_some hof).2.nodup_iff.2 (nodup_of_mem_duplicateComponents ?_ hcomponent)
  exact (List.filter_sublist.map _).nodup (nodup_mergeCandidates core store subjectId)

/-- The survivor of a group is redundant in none. -/
theorem survivor_not_redundant {group group' : DuplicateGroup}
    (h : group ∈ findExactDuplicateGroups core store subjectId)
    (h' : group' ∈ findExactDuplicateGroups core store subjectId) :
    group.survivorId ∉ group'.redundantIds := by
  intro hmem
  have heq : group = group' :=
    eq_of_mem_members h h' List.mem_cons_self (List.mem_cons_of_mem _ hmem)
  subst heq
  exact (List.nodup_cons.1 (nodup_members h)).1 hmem

/-- A member of a group is a candidate, and the candidates with its content, its holder and one of
its subjects are in the group. -/
theorem members_spec {group : DuplicateGroup}
    (h : group ∈ findExactDuplicateGroups core store subjectId) {id : String}
    (hid : id ∈ group.members) : ∃ p ∈ mergeCandidates core store subjectId, p.id = id ∧
      ∀ q ∈ mergeCandidates core store subjectId, bucketKey core q = bucketKey core p →
        (∃ s ∈ p.subjectIds, s ∈ q.subjectIds) → q.id ∈ group.members := by
  obtain ⟨key, component, hcomponent, hof⟩ := component_of_mem_groups h
  have hperm := (groupOf_eq_some hof).2
  obtain ⟨p, hp, rfl⟩ := List.mem_map.1 (hperm.mem_iff.1 hid)
  obtain ⟨hpc, rfl⟩ := mem_bucket.1 (subset_of_mem_duplicateComponents hcomponent hp)
  refine ⟨p, hpc, rfl, fun q hq hkey => ?_⟩
  rintro ⟨s, hsp, hsq⟩
  have hmem := mem_duplicateComponents_of_shared hcomponent hp (mem_bucket.2 ⟨hq, hkey⟩) hsp hsq
  exact hperm.mem_iff.2 (List.mem_map_of_mem hmem)

/-- The members of a group have one content and one holder. -/
theorem bucketKey_of_members {group : DuplicateGroup}
    (h : group ∈ findExactDuplicateGroups core store subjectId) {p q : Particle}
    (hp : p ∈ mergeCandidates core store subjectId) (hpm : p.id ∈ group.members)
    (hq : q ∈ mergeCandidates core store subjectId) (hqm : q.id ∈ group.members) :
    bucketKey core p = bucketKey core q := by
  obtain ⟨key, component, hcomponent, hof⟩ := component_of_mem_groups h
  have hperm := (groupOf_eq_some hof).2
  have hkey : ∀ r ∈ mergeCandidates core store subjectId, r.id ∈ group.members →
      bucketKey core r = key := by
    intro r hr hrm
    obtain ⟨r', hr', heq⟩ := List.mem_map.1 (hperm.mem_iff.1 hrm)
    obtain ⟨hrc, hrkey⟩ := mem_bucket.1 (subset_of_mem_duplicateComponents hcomponent hr')
    rwa [mergeCandidates_inj hrc hr heq] at hrkey
  rw [hkey p hp hpm, hkey q hq hqm]

end Groups

end ParticlesEngine
