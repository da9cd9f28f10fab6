/-
**Undoing every fold restores the subjects.**

Folds chain: the target of one may be the source of a later one, and the particles it received move
on with it.  At every point, while folds are applied and then undone in any order, a subject that no
live fold has merged away has its own names, refs and links and beside them what the live folds into
it gave, and nothing else.  Two folds into one subject never give the same name, ref or particle,
because the second finds it there; so each undo takes back what its fold gave and leaves the rest.
With the last fold undone only what a subject owned is left.

Main definitions:

* `FoldEntry` — a fold as its event records it, with the source and the refs it moved;
* `Ledger` — what holds of the folds applied to a store, once and for all;
* `FoldView`, `IdsView` — the store in between, read off the folds that are live, and the ids in the
  rows of the particles, some of which a merge may have passed over.

Main results:

* `foldView_fold` — **a fold that is spared joins the ledger**;
* `foldView_undo` — **an undo that succeeds takes one fold out of the live ones**;
* `undoFolds_restores` — **undoing every fold, in any order in which each undo succeeds, restores the
  subjects, their index rows and the links of every particle**.
-/

import ParticlesEngine.ArtifactFold

set_option relaxedAutoImplicit false
set_option autoImplicit false

open Runs

namespace ParticlesEngine

/-! ### The ledger of folds -/

/-- A fold that was applied: its event, the source it recorded and the refs the target gained. -/
structure FoldEntry where
  event : SubjectsMerged
  source : Subject
  carried : List ExternalRef
  record : event.sourceRecord = some (sourceRecordOf source)
  refs : event.refsCarried = carried.map ExternalRef.text

namespace FoldEntry

/-- The subject that a fold merged into. -/
def target (entry : FoldEntry) : String := entry.event.target

/-- A fold gave a particle to its target: the source had it, and the target did not. -/
def Gave (entry : FoldEntry) (p : String) : Prop :=
  p ∈ entry.event.particleRefs ∧ p ∉ entry.event.alreadyOnTarget

end FoldEntry

/-- The live folds into a subject; those of the sources `undone` are not. -/
def liveInto (entries : List FoldEntry) (undone : List String) (x : String) : List FoldEntry :=
  entries.filter fun entry => entry.target = x ∧ entry.source.id ∉ undone

/-- A live fold merged the subject away. -/
def MergedAway (entries : List FoldEntry) (undone : List String) (x : String) : Prop :=
  ∃ entry ∈ entries, entry.source.id = x ∧ x ∉ undone

/-- A subject with what the live folds into it gave. -/
def rowWith (original : Store) (entries : List FoldEntry) (undone : List String) (x : String) :
    Option Subject :=
  (original.subjects.get? x).map fun subject =>
    (subject.withAliases (subject.aliases ++
      (liveInto entries undone x).flatMap fun entry => entry.event.aliasesAdded)).withRefs
        (· ++ (liveInto entries undone x).flatMap FoldEntry.carried)

/-- The particle is linked to the subject, by itself or through a live fold. -/
def LinkedWith (original : Store) (entries : List FoldEntry) (undone : List String)
    (p x : String) : Prop :=
  original.Linked p x ∨
    ∃ entry ∈ entries, entry.target = x ∧ entry.source.id ∉ undone ∧ entry.Gave p

/-- Two folds into one subject give it different names, refs and particles. -/
def Disjoint (env : SubjectEnv) (entry entry' : FoldEntry) : Prop :=
  (∀ p, entry.Gave p → ¬ entry'.Gave p) ∧
    (∀ a ∈ entry.event.aliasesAdded, env.lower a ∉ entry'.event.aliasesAdded.map env.lower) ∧
      ∀ r ∈ entry.carried, r.text ∉ entry'.carried.map ExternalRef.text

/-- What holds of the folds applied to a store. -/
structure Ledger (env : SubjectEnv) (original : Store) (entries : List FoldEntry) : Prop where
  /-- a source is merged away once -/
  distinct : (entries.map fun entry => entry.source.id).Nodup
  self : ∀ entry ∈ entries, entry.source.id ≠ entry.target
  /-- the event records the source as it was -/
  source : ∀ entry ∈ entries, rowWith original entries [] entry.source.id = some entry.source
  spared : ∀ entry ∈ entries, entry.source.contributors = none ∧ entry.source.assertedBy ≠ ""
  /-- the event names the particles of the source, all of which have rows -/
  particles : ∀ entry ∈ entries, ∀ p, p ∈ entry.event.particleRefs ↔
    LinkedWith original entries [] p entry.source.id
  rows : ∀ entry ∈ entries, ∀ p ∈ entry.event.particleRefs, (original.get? p).isSome
  /-- a fold gives its target nothing that the target owned -/
  freshLinks : ∀ entry ∈ entries, ∀ p, entry.Gave p → ¬ original.Linked p entry.target
  freshNames : ∀ entry ∈ entries, ∀ subject, original.subjects.get? entry.target = some subject →
    ∀ a ∈ subject.aliases, env.lower a ∉ entry.event.aliasesAdded.map env.lower
  freshRefs : ∀ entry ∈ entries, ∀ subject, original.subjects.get? entry.target = some subject →
    ∀ r ∈ subject.externalIds, r.text ∉ entry.carried.map ExternalRef.text
  /-- nor anything that another fold gave -/
  others : ∀ entry ∈ entries, ∀ other ∈ entries, entry.source.id ≠ other.source.id →
    entry.target = other.target → Disjoint env entry other

/-- The store while the folds of the sources `undone` are undone, and the others live. -/
structure FoldView (original : Store) (entries : List FoldEntry) (undone : List String)
    (store : Store) : Prop where
  gone : ∀ x, MergedAway entries undone x → store.subjects.get? x = none
  subjects : ∀ x, ¬ MergedAway entries undone x →
    store.subjects.get? x = rowWith original entries undone x
  linked : ∀ p x, store.Linked p x ↔
    ¬ MergedAway entries undone x ∧ LinkedWith original entries undone p x
  particles : ∀ p, (store.get? p).isSome = (original.get? p).isSome
  /-- while a fold is live, so is every fold into its source -/
  closed : ∀ entry ∈ entries, entry.source.id ∉ undone → ∀ earlier ∈ entries,
    earlier.target = entry.source.id → earlier.source.id ∉ undone

/-- The ids in the rows of the particles, in between.  A merge passes over a row that it does not find,
and leaves the id of its source there. -/
structure IdsView (original : Store) (entries : List FoldEntry) (undone : List String)
    (store : Store) : Prop where
  linked : ∀ p x, ¬ MergedAway entries undone x → x ∈ store.idsOf p → store.Linked p x
  /-- an id that a live fold left is in the row of a particle that its event names -/
  left : ∀ entry ∈ entries, entry.source.id ∉ undone → ∀ p, entry.source.id ∈ store.idsOf p →
    p ∈ entry.event.particleRefs
  owned : ∀ p x, ¬ MergedAway entries undone x → original.Linked p x → x ∈ store.idsOf p

/-! ### Small facts -/

section Facts

variable {original store : Store} {entries : List FoldEntry} {undone : List String}
  {entry : FoldEntry} {p x : String}

theorem mem_liveInto :
    entry ∈ liveInto entries undone x ↔
      entry ∈ entries ∧ entry.target = x ∧ entry.source.id ∉ undone := by
  simp [liveInto]

theorem liveInto_concat (entry : FoldEntry) (x : String) :
    liveInto (entries ++ [entry]) [] x =
      liveInto entries [] x ++ if entry.target = x then [entry] else [] := by
  rw [liveInto, List.filter_append, List.filter_singleton]
  simp [liveInto]

theorem mergedAway_concat (entry : FoldEntry) (x : String) :
    MergedAway (entries ++ [entry]) [] x ↔ MergedAway entries [] x ∨ entry.source.id = x := by
  simp [MergedAway, or_and_right, exists_or]

theorem linkedWith_concat (entry : FoldEntry) (p x : String) :
    LinkedWith original (entries ++ [entry]) [] p x ↔
      LinkedWith original entries [] p x ∨ entry.target = x ∧ entry.Gave p := by
  simp [LinkedWith, or_and_right, exists_or, or_assoc]

/-- A fold into another subject leaves a row as it was. -/
theorem rowWith_concat_of_ne (h : entry.target ≠ x) :
    rowWith original (entries ++ [entry]) [] x = rowWith original entries [] x := by
  unfold rowWith
  rw [liveInto_concat, if_neg h, List.append_nil]

/-- Two folds of one source are one fold. -/
theorem Ledger.eq_of_source_eq {env : SubjectEnv} (h : Ledger env original entries)
    {entry' : FoldEntry} (hentry : entry ∈ entries) (hentry' : entry' ∈ entries)
    (heq : entry.source.id = entry'.source.id) : entry = entry' :=
  List.inj_on_of_nodup_map h.distinct hentry hentry' heq

/-- What is filtered out of what some elements gave is what the elements taken out gave. -/
theorem filter_flatMap {α β : Type} (f : α → List β) (keep : β → Bool) (q : α → Bool) :
    ∀ l : List α, (∀ a ∈ l, q a = true → ∀ b ∈ f a, keep b = true) →
      (∀ a ∈ l, q a = false → ∀ b ∈ f a, keep b = false) →
      (l.flatMap f).filter keep = (l.filter q).flatMap f := by
  intro l
  induction l with
  | nil =>
      intro _ _
      rfl
  | cons a l ih =>
      intro hkeep hdrop
      rw [List.flatMap_cons, List.filter_append, List.filter_cons,
        ih (fun b hb => hkeep b (List.mem_cons_of_mem _ hb))
          (fun b hb => hdrop b (List.mem_cons_of_mem _ hb))]
      cases hq : q a with
      | true =>
          have hall : (f a).filter keep = f a :=
            List.filter_eq_self.2 (hkeep a List.mem_cons_self hq)
          rw [hall, if_pos rfl, List.flatMap_cons]
      | false =>
          have hnone : (f a).filter keep = [] := by
            rw [List.filter_eq_nil_iff]
            intro b hb
            simp [hdrop a List.mem_cons_self hq b hb]
          rw [hnone, List.nil_append]
          rfl

end Facts

/-! ### A fold -/

section FoldStep

variable {env : SubjectEnv} {original store store' : Store} {entries : List FoldEntry}

/-- A subject with a row in the store was merged away by no fold. -/
theorem FoldView.not_mergedAway {undone : List String} {x : String} {subject : Subject}
    (h : FoldView original entries undone store)
    (hget : store.subjects.get? x = some subject) : ¬ MergedAway entries undone x := by
  intro hgone
  rw [h.gone x hgone] at hget
  cases hget

/-- What the original owns of a subject, and what each live fold gave it, is in its row. -/
theorem mem_of_rowWith {undone : List String} {x : String} {subject : Subject}
    (h : rowWith original entries undone x = some subject) :
    ∃ owned, original.subjects.get? x = some owned ∧
      subject.aliases = owned.aliases ++
        (liveInto entries undone x).flatMap (fun entry => entry.event.aliasesAdded) ∧
      subject.externalIds = owned.externalIds ++
        (liveInto entries undone x).flatMap FoldEntry.carried := by
  obtain ⟨owned, howned, rfl⟩ := Option.map_eq_some_iff.1 h
  exact ⟨owned, howned, rfl, rfl⟩

/-- What a fold that is spared finds in the store, and records. -/
structure FoldFound (env : SubjectEnv) (store : Store) (entry : FoldEntry) (target : Subject) :
    Prop where
  sourceRow : store.subjects.get? entry.source.id = some entry.source
  storedTarget : store.subjects.get? entry.target = some target
  self : entry.source.id ≠ entry.target
  spared : entry.source.contributors = none ∧ entry.source.assertedBy ≠ ""
  particles : ∀ p, p ∈ entry.event.particleRefs ↔ store.Linked p entry.source.id
  already : ∀ p, p ∈ entry.event.alreadyOnTarget ↔
    store.Linked p entry.target ∧ store.Linked p entry.source.id
  names : ∀ a ∈ entry.event.aliasesAdded, env.lower a ∉ target.aliases.map env.lower
  refs : ∀ r ∈ entry.carried, ∀ held ∈ target.externalIds, held.text ≠ r.text

namespace FoldFound

variable {entry : FoldEntry} {target : Subject}

theorem gave_iff (h : FoldFound env store entry target) (p : String) :
    entry.Gave p ↔ store.Linked p entry.source.id ∧ ¬ store.Linked p entry.target := by
  rw [FoldEntry.Gave, h.particles, h.already]
  tauto

/-- No earlier fold merged the source of this one. -/
theorem fresh (h : FoldFound env store entry target) (hview : FoldView original entries [] store) :
    ∀ e ∈ entries, e.source.id ≠ entry.source.id := by
  intro e he heq
  exact hview.not_mergedAway h.sourceRow ⟨e, he, heq, List.not_mem_nil⟩

/-- The target of this one was merged away by no earlier fold. -/
theorem ahead (h : FoldFound env store entry target) (hview : FoldView original entries [] store) :
    ∀ e ∈ entries, entry.target ≠ e.source.id := by
  intro e he heq
  exact hview.not_mergedAway h.storedTarget ⟨e, he, heq.symm, List.not_mem_nil⟩

theorem targetRow (h : FoldFound env store entry target)
    (hview : FoldView original entries [] store) :
    rowWith original entries [] entry.target = some target := by
  rw [← hview.subjects _ (hview.not_mergedAway h.storedTarget)]
  exact h.storedTarget

/-- What the target has, by itself or through an earlier fold, this one does not give. -/
theorem not_gave (h : FoldFound env store entry target)
    (hview : FoldView original entries [] store) {p : String}
    (hlinked : LinkedWith original entries [] p entry.target) : ¬ entry.Gave p := by
  intro hgave
  refine ((h.gave_iff p).1 hgave).2 ((hview.linked p _).2 ⟨?_, hlinked⟩)
  exact hview.not_mergedAway h.storedTarget

/-- A name among those the target holds folds to none that this fold gives. -/
theorem name_ne (h : FoldFound env store entry target) {a : String} (ha : a ∈ target.aliases) :
    env.lower a ∉ entry.event.aliasesAdded.map env.lower := by
  intro hmem
  obtain ⟨b, hb, hab⟩ := List.mem_map.1 hmem
  exact h.names b hb (hab ▸ List.mem_map_of_mem ha)

theorem ref_ne (h : FoldFound env store entry target) {r : ExternalRef}
    (hr : r ∈ target.externalIds) : r.text ∉ entry.carried.map ExternalRef.text := by
  intro hmem
  obtain ⟨r', hr', heq⟩ := List.mem_map.1 hmem
  exact h.refs r' hr' r hr heq.symm

/-- **An earlier fold into the target gave nothing that this one gives**: the target holds it. -/
theorem disjoint (h : FoldFound env store entry target)
    (hview : FoldView original entries [] store) {e : FoldEntry} (he : e ∈ entries)
    (htarget : e.target = entry.target) : Disjoint env e entry := by
  obtain ⟨owned, -, haliases, hids⟩ := mem_of_rowWith (h.targetRow hview)
  have hlive : e ∈ liveInto entries [] entry.target :=
    mem_liveInto.2 ⟨he, htarget, List.not_mem_nil⟩
  refine ⟨fun p hgave => ?_, fun a ha => ?_, fun r hr => ?_⟩
  · exact h.not_gave hview (Or.inr ⟨e, he, htarget, List.not_mem_nil, hgave⟩)
  · refine h.name_ne ?_
    rw [haliases]
    exact List.mem_append_right _ (List.mem_flatMap.2 ⟨e, hlive, ha⟩)
  · refine h.ref_ne ?_
    rw [hids]
    exact List.mem_append_right _ (List.mem_flatMap.2 ⟨e, hlive, hr⟩)

end FoldFound

theorem Disjoint.symm {entry entry' : FoldEntry} (h : Disjoint env entry entry') :
    Disjoint env entry' entry := by
  obtain ⟨hlinks, hnames, hrefs⟩ := h
  refine ⟨fun p h' h => hlinks p h h', fun b hb hmem => ?_, fun r' hr' hmem => ?_⟩
  · obtain ⟨a, ha, hab⟩ := List.mem_map.1 hmem
    exact hnames a ha (hab ▸ List.mem_map_of_mem hb)
  · obtain ⟨r, hr, heq⟩ := List.mem_map.1 hmem
    exact hrefs r hr (heq ▸ List.mem_map_of_mem hr')

/-- A property of the earlier folds and of the new one is one of all. -/
theorem forall_mem_concat {entry : FoldEntry} {P : FoldEntry → Prop} (hold : ∀ e ∈ entries, P e)
    (hnew : P entry) : ∀ e ∈ entries ++ [entry], P e := by
  intro e he
  rcases List.mem_append.1 he with he | he
  · exact hold e he
  · obtain rfl := List.mem_singleton.1 he
    exact hnew

/-- **A fold that is spared joins the ledger.** -/
theorem ledger_fold {entry : FoldEntry} {target : Subject}
    (hledger : Ledger env original entries) (hview : FoldView original entries [] store)
    (hinStep : InStep original) (h : FoldFound env store entry target) :
    Ledger env original (entries ++ [entry]) := by
  have hsourceLive := hview.not_mergedAway h.sourceRow
  obtain ⟨owned, howned, haliases, hids⟩ := mem_of_rowWith (h.targetRow hview)
  constructor
  case distinct =>
    rw [List.map_append, List.nodup_append']
    refine ⟨hledger.distinct, by simp, ?_⟩
    intro sid hsid hmem
    obtain ⟨e, he, rfl⟩ := List.mem_map.1 hsid
    exact h.fresh hview e he (by simpa using hmem)
  case self => exact forall_mem_concat hledger.self h.self
  case source =>
    refine forall_mem_concat (fun e he => ?_) ?_
    · rw [rowWith_concat_of_ne (h.ahead hview e he)]
      exact hledger.source e he
    · rw [rowWith_concat_of_ne (Ne.symm h.self), ← hview.subjects _ hsourceLive]
      exact h.sourceRow
  case spared => exact forall_mem_concat hledger.spared h.spared
  case particles =>
    refine forall_mem_concat (fun e he p => ?_) fun p => ?_
    · rw [linkedWith_concat, hledger.particles e he]
      simp [h.ahead hview e he]
    · rw [linkedWith_concat, h.particles, hview.linked]
      simp [hsourceLive, Ne.symm h.self]
  case rows =>
    refine forall_mem_concat hledger.rows fun p hp => ?_
    rcases ((hview.linked p _).1 ((h.particles p).1 hp)).2 with hlinked | ⟨e, he, -, -, hgave⟩
    · exact isSome_of_mem_idsOf ((hinStep.linked p _).2 hlinked)
    · exact hledger.rows e he p hgave.1
  case freshLinks =>
    refine forall_mem_concat hledger.freshLinks fun p hgave hlinked => ?_
    exact h.not_gave hview (Or.inl hlinked) hgave
  case freshNames =>
    refine forall_mem_concat hledger.freshNames fun subject hsubject a ha => ?_
    obtain rfl : owned = subject := by simpa [howned] using hsubject
    refine h.name_ne ?_
    rw [haliases]
    exact List.mem_append_left _ ha
  case freshRefs =>
    refine forall_mem_concat hledger.freshRefs fun subject hsubject r hr => ?_
    obtain rfl : owned = subject := by simpa [howned] using hsubject
    refine h.ref_ne ?_
    rw [hids]
    exact List.mem_append_left _ hr
  case others =>
    refine forall_mem_concat (fun e he => ?_) ?_
    · refine forall_mem_concat (hledger.others e he) fun _ htarget => ?_
      exact h.disjoint hview he htarget
    · refine forall_mem_concat (fun e he _ htarget => ?_) fun hdiff => absurd rfl hdiff
      exact (h.disjoint hview he htarget.symm).symm

/-- **The merge of a fold gives the store that the longer ledger reads.** -/
theorem foldView_fold {entry : FoldEntry} {plan : SubjectMergePlan}
    (hview : FoldView original entries [] store) (h : FoldFound env store entry plan.target)
    (htarget : plan.target.id = entry.target) (hsources : plan.sourceIds = [entry.source.id])
    (hnames : plan.aliasesAdded = entry.event.aliasesAdded) (hcarried : plan.carried = entry.carried)
    (heffect : MergeEffect env plan store store') :
    FoldView original (entries ++ [entry]) [] store' := by
  have hsourceLive := hview.not_mergedAway h.sourceRow
  have htargetLive := hview.not_mergedAway h.storedTarget
  constructor
  case gone =>
    intro x hgone
    rw [mergedAway_concat] at hgone
    rw [heffect.subjects, hsources, htarget]
    simp only [List.mem_singleton]
    rcases hgone with hgone | rfl
    · split_ifs with hx hx'
      · rfl
      · exact absurd (hx' ▸ hgone) htargetLive
      · exact hview.gone x hgone
    · rw [if_pos rfl]
  case subjects =>
    intro x hlive
    rw [mergedAway_concat, not_or] at hlive
    rw [heffect.subjects, hsources, htarget]
    simp only [List.mem_singleton]
    rw [if_neg (Ne.symm hlive.2)]
    split_ifs with hx
    · subst hx
      have hrow := h.targetRow hview
      unfold rowWith at hrow ⊢
      obtain ⟨owned, howned, hplan⟩ := Option.map_eq_some_iff.1 hrow
      rw [howned, liveInto_concat, if_pos rfl, SubjectMergePlan.merged, hnames, hcarried, ← hplan]
      simp [Subject.withAliases, Subject.withRefs]
    · rw [rowWith_concat_of_ne hx]
      exact hview.subjects x hlive.1
  case linked =>
    intro p x
    rw [heffect.linked, hsources, htarget, mergedAway_concat, linkedWith_concat, not_or,
      h.gave_iff]
    simp only [List.mem_singleton, exists_eq_left, hview.linked]
    have hself := h.self
    grind
  case particles =>
    intro p
    rw [heffect.particles]
    exact hview.particles p
  case closed =>
    intro e _ _ e' _ _
    exact List.not_mem_nil

/-- The ids of a particle after a merge of one subject, found or not. -/
theorem mem_mergedIds_one {source target x : String} {ids : List String}
    (h : x ∈ mergedIds env [source] target ids) : x ∈ ids ∨ x = target ∧ source ∈ ids := by
  unfold mergedIds at h
  split_ifs at h
  · obtain ⟨i, hi, rfl⟩ := mem_rebound.1 h
    split_ifs with hsource
    · exact Or.inr ⟨rfl, List.mem_singleton.1 hsource ▸ hi⟩
    · exact Or.inl hi
  · exact Or.inl h

/-- A merge of one subject leaves the other ids of a particle. -/
theorem mem_mergedIds_of_ne {source target x : String} {ids : List String} (hx : x ∈ ids)
    (hne : x ≠ source) : x ∈ mergedIds env [source] target ids := by
  unfold mergedIds
  split_ifs
  · exact mem_rebound.2 ⟨x, hx, if_neg (mt List.mem_singleton.1 hne)⟩
  · exact hx

/-- The id of the source stays only where the merge passed over the row. -/
theorem mem_of_source_mem_mergedIds {source target : String} {ids : List String}
    (h : source ∈ mergedIds env [source] target ids) : source ∈ ids := by
  rcases mem_mergedIds_one h with hmem | ⟨-, hmem⟩
  · exact hmem
  · exact hmem

/-- **The merge of a fold** leaves in the rows what the longer ledger says. -/
theorem idsView_fold {entry : FoldEntry} {plan : SubjectMergePlan}
    (hview : FoldView original entries [] store) (hidsView : IdsView original entries [] store)
    (h : FoldFound env store entry plan.target) (htarget : plan.target.id = entry.target)
    (hsources : plan.sourceIds = [entry.source.id]) (heffect : MergeEffect env plan store store') :
    IdsView original (entries ++ [entry]) [] store' := by
  have hsourceLive := hview.not_mergedAway h.sourceRow
  have hids : ∀ p, store'.idsOf p =
      mergedIds env [entry.source.id] entry.target (store.idsOf p) := by
    intro p
    rw [heffect.ids, hsources, htarget]
  have hlinked : ∀ p x, store'.Linked p x ↔ x ≠ entry.source.id ∧
      (store.Linked p x ∨ x = entry.target ∧ store.Linked p entry.source.id) := by
    intro p x
    rw [heffect.linked, hsources, htarget]
    simp
  constructor
  case linked =>
    intro p x hlive hx
    rw [mergedAway_concat, not_or] at hlive
    rw [hids] at hx
    rw [hlinked]
    refine ⟨Ne.symm hlive.2, ?_⟩
    rcases mem_mergedIds_one hx with hmem | ⟨rfl, hmem⟩
    · exact Or.inl (hidsView.linked p x hlive.1 hmem)
    · exact Or.inr ⟨rfl, hidsView.linked p _ hsourceLive hmem⟩
  case left =>
    refine forall_mem_concat (fun e he hlive p hp => ?_) fun _ p hp => ?_
    · rw [hids] at hp
      rcases mem_mergedIds_one hp with hmem | ⟨heq, -⟩
      · exact hidsView.left e he hlive p hmem
      · exact absurd heq.symm (h.ahead hview e he)
    · rw [hids] at hp
      exact (h.particles p).2 (hidsView.linked p _ hsourceLive (mem_of_source_mem_mergedIds hp))
  case owned =>
    intro p x hlive howned
    rw [mergedAway_concat, not_or] at hlive
    rw [hids]
    exact mem_mergedIds_of_ne (hidsView.owned p x hlive.1 howned) (Ne.symm hlive.2)

end FoldStep

/-! ### An undo -/

section UndoStep

variable {env : SubjectEnv} {original store store' : Store} {entries : List FoldEntry}
  {undone : List String} {entry : FoldEntry}

theorem mergedAway_cons {x : String} :
    MergedAway entries (entry.source.id :: undone) x ↔
      MergedAway entries undone x ∧ x ≠ entry.source.id := by
  simp only [MergedAway, List.mem_cons, not_or]
  constructor
  · rintro ⟨e, he, rfl, hne, hlive⟩
    exact ⟨⟨e, he, rfl, hlive⟩, hne⟩
  · rintro ⟨⟨e, he, rfl, hlive⟩, hne⟩
    exact ⟨e, he, rfl, hne, hlive⟩

/-- A fold whose source has no row is live. -/
theorem live_of_get?_eq_none (hledger : Ledger env original entries)
    (hview : FoldView original entries undone store) (hentry : entry ∈ entries)
    (hnone : store.subjects.get? entry.source.id = none) : entry.source.id ∉ undone := by
  intro hundone
  have hback : ¬ MergedAway entries undone entry.source.id := fun ⟨_, _, _, hlive⟩ => hlive hundone
  have hrow := hledger.source entry hentry
  obtain ⟨owned, howned, -⟩ := mem_of_rowWith hrow
  rw [hview.subjects _ hback, rowWith, howned] at hnone
  cases hnone

/-- Every fold into the source of a live fold is live, and is another one. -/
theorem Ledger.live_into_source (hledger : Ledger env original entries)
    (hview : FoldView original entries undone store) (hentry : entry ∈ entries)
    (hlive : entry.source.id ∉ undone) {e : FoldEntry} (he : e ∈ entries)
    (htarget : e.target = entry.source.id) : e.source.id ∉ entry.source.id :: undone := by
  have hne : e.source.id ≠ entry.source.id := by
    intro heq
    obtain rfl := hledger.eq_of_source_eq he hentry heq
    exact hledger.self e he htarget.symm
  simp only [List.mem_cons, not_or]
  exact ⟨hne, hview.closed entry hentry hlive e he htarget⟩

/-- The row that the undone source gets back is the one it had. -/
theorem Ledger.rowWith_source (hledger : Ledger env original entries)
    (hview : FoldView original entries undone store) (hentry : entry ∈ entries)
    (hlive : entry.source.id ∉ undone) :
    rowWith original entries (entry.source.id :: undone) entry.source.id = some entry.source := by
  rw [← hledger.source entry hentry]
  unfold rowWith
  have hinto : liveInto entries (entry.source.id :: undone) entry.source.id =
      liveInto entries [] entry.source.id := by
    refine List.filter_congr fun e he => ?_
    rw [decide_eq_decide]
    refine and_congr_right fun htarget => ?_
    exact iff_of_true (hledger.live_into_source hview hentry hlive he htarget) List.not_mem_nil
  rw [hinto]

/-- The live folds into another subject are the same. -/
theorem liveInto_cons_of_ne (hledger : Ledger env original entries) (hentry : entry ∈ entries)
    {x : String} (hx : entry.target ≠ x) :
    liveInto entries (entry.source.id :: undone) x = liveInto entries undone x := by
  refine List.filter_congr fun e he => ?_
  rw [decide_eq_decide]
  refine and_congr_right fun htarget => ?_
  have hne : e.source.id ≠ entry.source.id := by
    intro heq
    rw [hledger.eq_of_source_eq he hentry heq] at htarget
    exact hx htarget
  simp [hne]

/-- The live folds into the target are those of before but the one undone. -/
theorem liveInto_cons_target (x : String) :
    liveInto entries (entry.source.id :: undone) x =
      (liveInto entries undone x).filter fun e => e.source.id ≠ entry.source.id := by
  rw [liveInto, liveInto, List.filter_filter]
  refine List.filter_congr fun e _ => ?_
  simp only [List.mem_cons, not_or, Bool.decide_and]
  cases decide (e.target = x) <;> cases decide (e.source.id ≠ entry.source.id) <;> simp

/-- The undone source is linked to the particles that its event names. -/
theorem Ledger.linkedWith_source (hledger : Ledger env original entries)
    (hview : FoldView original entries undone store) (hentry : entry ∈ entries)
    (hlive : entry.source.id ∉ undone) {p : String} :
    LinkedWith original entries (entry.source.id :: undone) p entry.source.id ↔
      LinkedWith original entries [] p entry.source.id := by
  refine or_congr Iff.rfl (exists_congr fun e => and_congr_right fun he => ?_)
  refine and_congr_right fun htarget => and_congr_left fun _ => ?_
  exact iff_of_true (hledger.live_into_source hview hentry hlive he htarget) List.not_mem_nil

/-- The target keeps the particles that the fold undone did not give. -/
theorem Ledger.linkedWith_target (hledger : Ledger env original entries) (hentry : entry ∈ entries)
    {p : String} :
    LinkedWith original entries (entry.source.id :: undone) p entry.target ↔
      LinkedWith original entries undone p entry.target ∧ ¬ entry.Gave p := by
  constructor
  · rintro (hlinked | ⟨e, he, htarget, helive, hgave⟩)
    · exact ⟨Or.inl hlinked, fun hgave => hledger.freshLinks entry hentry p hgave hlinked⟩
    · simp only [List.mem_cons, not_or] at helive
      refine ⟨Or.inr ⟨e, he, htarget, helive.2, hgave⟩, ?_⟩
      exact (hledger.others e he entry hentry helive.1 htarget).1 p hgave
  · rintro ⟨hlinked | ⟨e, he, htarget, helive, hgave⟩, hnot⟩
    · exact Or.inl hlinked
    · refine Or.inr ⟨e, he, htarget, ?_, hgave⟩
      simp only [List.mem_cons, not_or]
      refine ⟨fun heq => hnot ?_, helive⟩
      rwa [← hledger.eq_of_source_eq he hentry heq]

/-- Another subject keeps its particles. -/
theorem linkedWith_cons_of_ne (hledger : Ledger env original entries) (hentry : entry ∈ entries)
    {p x : String} (hx : entry.target ≠ x) :
    LinkedWith original entries (entry.source.id :: undone) p x ↔
      LinkedWith original entries undone p x := by
  refine or_congr Iff.rfl (exists_congr fun e => and_congr_right fun he => ?_)
  refine and_congr_right fun htarget => and_congr_left fun _ => ?_
  simp only [List.mem_cons, not_or]
  refine and_iff_right fun heq => ?_
  rw [hledger.eq_of_source_eq he hentry heq] at htarget
  exact hx htarget

/-- What the target owns and what the other folds gave it stays, and what this fold gave goes. -/
theorem filter_owned {β γ : Type} [DecidableEq γ] (name : β → γ) (given : FoldEntry → List β)
    {owned : List β} {into : List FoldEntry}
    (hsource : ∀ e ∈ into, e.source.id = entry.source.id → given e = given entry)
    (howned : ∀ a ∈ owned, name a ∉ (given entry).map name)
    (hothers : ∀ e ∈ into, e.source.id ≠ entry.source.id →
      ∀ a ∈ given e, name a ∉ (given entry).map name) :
    (owned ++ into.flatMap given).filter (fun a => name a ∉ (given entry).map name) =
      owned ++ (into.filter fun e => e.source.id ≠ entry.source.id).flatMap given := by
  rw [List.filter_append]
  congr 1
  · rw [List.filter_eq_self]
    intro a ha
    simpa using howned a ha
  · refine filter_flatMap given _ _ into (fun e he hne a ha => ?_) fun e he heq a ha => ?_
    · exact decide_eq_true (hothers e he (by simpa using hne) a ha)
    · have hmem : name a ∈ (given entry).map name := by
        rw [← hsource e he (by simpa using heq)]
        exact List.mem_map_of_mem ha
      simpa using hmem

/-- The target's row without what the undone fold gave is the row that the others leave. -/
theorem Ledger.rowWith_target (hledger : Ledger env original entries) (hentry : entry ∈ entries)
    {target : Subject} (htarget : rowWith original entries undone entry.target = some target) :
    rowWith original entries (entry.source.id :: undone) entry.target =
      some ((target.withAliases (target.aliases.filter fun name =>
        env.lower name ∉ entry.event.aliasesAdded.map env.lower)).withRefs
          fun refs => refs.filter (·.text ∉ entry.event.refsCarried)) := by
  have hinto : ∀ e ∈ liveInto entries undone entry.target,
      e ∈ entries ∧ e.target = entry.target := fun e he =>
    ⟨(mem_liveInto.1 he).1, (mem_liveInto.1 he).2.1⟩
  have hsame : ∀ e ∈ liveInto entries undone entry.target,
      e.source.id = entry.source.id → e = entry := fun e he heq =>
    hledger.eq_of_source_eq (hinto e he).1 hentry heq
  have hothers : ∀ e ∈ liveInto entries undone entry.target,
      e.source.id ≠ entry.source.id → Disjoint env e entry := fun e he hne =>
    hledger.others e (hinto e he).1 entry hentry hne (hinto e he).2
  obtain ⟨owned, howned, rfl⟩ := Option.map_eq_some_iff.1 htarget
  have hnames := filter_owned env.lower (fun e => e.event.aliasesAdded)
    (fun e he heq => by rw [hsame e he heq])
    (hledger.freshNames entry hentry owned howned)
    (fun e he hne => (hothers e he hne).2.1)
  have hrefs := filter_owned ExternalRef.text FoldEntry.carried
    (fun e he heq => by rw [hsame e he heq])
    (hledger.freshRefs entry hentry owned howned)
    (fun e he hne => (hothers e he hne).2.2)
  rw [rowWith, howned, liveInto_cons_target, Option.map_some, entry.refs]
  exact congrArg some (congrArg₂
    (fun names refs => (owned.withAliases names).withRefs fun _ => refs) hnames hrefs).symm

/-- An undo recreates the source as it was. -/
theorem Ledger.restored_of_undo {actor : String} {relinked : List String}
    (hledger : Ledger env original entries) (hentry : entry ∈ entries)
    (hok : undoFold env actor store entry.event = .ok (store', relinked)) :
    restoreMergedSource env store entry.source entry.event.target entry.event.particleRefs
      entry.event.alreadyOnTarget entry.event.aliasesAdded entry.event.refsCarried =
        .ok (store', relinked) := by
  simp only [undoFold, bind_eq_ok, orRaise_eq_ok, entry.record] at hok
  obtain ⟨record, hrecord, hok⟩ := hok
  obtain rfl := Option.some.inj hrecord
  obtain ⟨hcontributors, hasserted⟩ := hledger.spared entry hentry
  rwa [toSubject_sourceRecordOf actor hcontributors hasserted] at hok

/-- The particles that a fold relinked have rows. -/
theorem Ledger.isSome_of_mem_refs (hledger : Ledger env original entries)
    (hview : FoldView original entries undone store) (hentry : entry ∈ entries) {p : String}
    (hp : p ∈ entry.event.particleRefs) : (store.get? p).isSome := by
  rw [hview.particles]
  exact hledger.rows entry hentry p hp

/-- **An undo that succeeds takes one fold out of the live ones.** -/
theorem foldView_undo {actor : String} {relinked : List String}
    (hledger : Ledger env original entries) (hview : FoldView original entries undone store)
    (hentry : entry ∈ entries)
    (hok : undoFold env actor store entry.event = .ok (store', relinked)) :
    FoldView original entries (entry.source.id :: undone) store' := by
  obtain ⟨hnone, target, htarget, hsubjects, -, mid, hmid, -, hget, heffect⟩ :=
    restoreMergedSource_spec (hledger.restored_of_undo hentry hok)
  have hlive := live_of_get?_eq_none hledger hview hentry hnone
  have hself := hledger.self entry hentry
  have hsourceGone : MergedAway entries undone entry.source.id := ⟨entry, hentry, rfl, hlive⟩
  have htargetLive : ¬ MergedAway entries undone entry.target := hview.not_mergedAway htarget
  have htargetRow : rowWith original entries undone entry.target = some target := by
    rw [← hview.subjects _ htargetLive]
    exact htarget
  constructor
  case gone =>
    intro x hgone
    obtain ⟨hgone, hne⟩ := mergedAway_cons.1 hgone
    rw [hsubjects, if_neg (Ne.symm hne)]
    rcases eq_or_ne entry.event.target x with rfl | hx
    · exact absurd hgone htargetLive
    · rw [if_neg hx]
      exact hview.gone x hgone
  case subjects =>
    intro x hx
    rw [hsubjects]
    split_ifs with hsource htgt
    · rw [← hsource]
      exact (hledger.rowWith_source hview hentry hlive).symm
    · obtain rfl : entry.target = x := htgt
      exact (hledger.rowWith_target hentry htargetRow).symm
    · have hx' : x ≠ entry.source.id := Ne.symm hsource
      rw [rowWith, liveInto_cons_of_ne hledger hentry htgt]
      refine hview.subjects x fun hgone => hx ?_
      exact mergedAway_cons.2 ⟨hgone, hx'⟩
  case linked =>
    intro p x
    have hsome : p ∈ entry.event.particleRefs → (store.get? p).isSome :=
      hledger.isSome_of_mem_refs hview hentry
    rw [heffect.linked, MovedBack, hmid, hview.linked, mergedAway_cons]
    rcases eq_or_ne x entry.source.id with rfl | hsource
    · rw [hledger.linkedWith_source hview hentry hlive, ← hledger.particles entry hentry]
      tauto
    · rcases eq_or_ne x entry.target with rfl | htgt
      · rw [hledger.linkedWith_target hentry]
        have heq : entry.event.target = entry.target := rfl
        rw [heq, FoldEntry.Gave]
        tauto
      · rw [linkedWith_cons_of_ne hledger hentry (Ne.symm htgt)]
        have hne : x ≠ entry.event.target := htgt
        tauto
  case particles =>
    intro p
    rw [heffect.particles, hget]
    exact hview.particles p
  case closed =>
    intro e he helive e' he' htarget'
    simp only [List.mem_cons, not_or] at helive ⊢
    refine ⟨fun heq => ?_, hview.closed e he helive.2 e' he' htarget'⟩
    -- the fold undone was not into the source of a live one: its target has a row
    obtain rfl := hledger.eq_of_source_eq he' hentry heq
    exact htargetLive ⟨e, he, htarget'.symm, htarget' ▸ helive.2⟩

/-- **An undo that succeeds** takes back from the rows what its fold gave and left there. -/
theorem idsView_undo {actor : String} {relinked : List String}
    (hledger : Ledger env original entries) (hidsView : IdsView original entries undone store)
    (hentry : entry ∈ entries) (hview : FoldView original entries undone store)
    (hok : undoFold env actor store entry.event = .ok (store', relinked)) :
    IdsView original entries (entry.source.id :: undone) store' := by
  obtain ⟨hnone, -, -, -, -, mid, hlinked, hids, -, heffect⟩ :=
    restoreMergedSource_spec (hledger.restored_of_undo hentry hok)
  have hlive := live_of_get?_eq_none hledger hview hentry hnone
  have hmoved : ∀ p ∈ entry.event.particleRefs, (store.get? p).isSome := fun _ hp =>
    hledger.isSome_of_mem_refs hview hentry hp
  constructor
  case linked =>
    intro p x hx hmem
    rw [mergedAway_cons, not_and_or, not_not] at hx
    rw [heffect.mem_ids, MovedBack, hids] at hmem
    rw [heffect.linked, MovedBack, hlinked]
    rcases hmem with hmem | ⟨hmem, hstays⟩
    · exact Or.inl hmem
    · rcases hx with hx | rfl
      · exact Or.inr ⟨hidsView.linked p x hx hmem, hstays⟩
      · have hp := hidsView.left entry hentry hlive p hmem
        exact Or.inl ⟨⟨hp, hmoved p hp⟩, rfl⟩
  case left =>
    intro e he helive p hp
    rw [List.mem_cons, not_or] at helive
    rw [heffect.mem_ids, MovedBack, hids] at hp
    rcases hp with ⟨-, heq⟩ | ⟨hmem, -⟩
    · exact absurd heq helive.1
    · exact hidsView.left e he helive.2 p hmem
  case owned =>
    intro p x hx howned
    rw [mergedAway_cons, not_and_or, not_not] at hx
    rw [heffect.mem_ids, MovedBack, hids]
    rcases hx with hx | rfl
    · refine Or.inr ⟨hidsView.owned p x hx howned, ?_⟩
      rintro ⟨⟨hp, -⟩, rfl, hkeep⟩
      exact hledger.freshLinks entry hentry p ⟨hp, hkeep⟩ howned
    · have hp := (hledger.particles entry hentry p).2 (Or.inl howned)
      exact Or.inl ⟨⟨hp, hmoved p hp⟩, rfl⟩

end UndoStep

/-! ### Runs of folds and of undos -/

section FoldRuns

variable {env : SubjectEnv} {original store store' : Store} {entries : List FoldEntry}

/-- What holds while folds are applied: the ledger, the store that it reads, and the index of the
repository. -/
structure FoldState (env : SubjectEnv) (original : Store) (entries : List FoldEntry)
    (undone : List String) (store : Store) : Prop where
  ledger : Ledger env original entries
  view : FoldView original entries undone store
  idsView : IdsView original entries undone store
  indexed : AliasIndexed env store

/-- Before the first fold the store is the original. -/
theorem FoldState.start (hinStep : InStep original) (hindexed : AliasIndexed env original) :
    FoldState env original [] [] original where
  ledger := ⟨List.nodup_nil, by simp, by simp, by simp, by simp, by simp, by simp, by simp, by simp,
    by simp⟩
  view := by
    refine ⟨fun x hgone => ?_, fun x _ => ?_, fun p x => ?_, fun _ => rfl, by simp⟩
    · obtain ⟨e, he, -⟩ := hgone
      cases he
    · cases hget : original.subjects.get? x with
      | none => rw [rowWith, hget]; rfl
      | some subject =>
          rw [rowWith, hget]
          simp [liveInto, Subject.withAliases, Subject.withRefs]
    · simp [MergedAway, LinkedWith]
  idsView := ⟨fun p x _ hx => (hinStep.linked p x).1 hx, by simp,
    fun p x _ hlinked => (hinStep.linked p x).2 hlinked⟩
  indexed := hindexed

/-- **One fold** extends the ledger by itself, or was skipped. -/
theorem FoldState.fold {acc acc' : Store × List SubjectsMerged} {fold : Fold}
    (hinStep : InStep original) (h : FoldState env original entries [] acc.1) (hspared : foldSpared env acc.1 fold)
    (hevents : acc.2 = entries.map FoldEntry.event)
    (hok : applyFoldStep env acc fold = .ok acc') :
    ∃ entries', FoldState env original entries' [] acc'.1 ∧
      acc'.2 = entries'.map FoldEntry.event := by
  rcases applyFoldStep_spec hok with rfl | ⟨source, target, hsource, htarget, result, hmerged, hlog⟩
  · exact ⟨entries, h, hevents⟩
  · obtain ⟨hplan, heffect⟩ := mergeSubjectsMany_spec hmerged
    obtain ⟨hrecord, hinto, hadded, hrefs, hpids, halready⟩ := mergeSubjectsMany_event hmerged
    obtain ⟨source', hsource', htarget', hne, hsources, hnames, hcarried⟩ :=
      planSubjectMerge_one hplan
    obtain rfl : source = source' := by simpa [hsource] using hsource'
    obtain rfl : target = result.plan.target := by simpa [htarget] using htarget'
    simp only [foldSpared, hsource, htarget, sparesMerge, decide_eq_true_eq] at hspared
    obtain ⟨hcontributors, hasserted, htexts⟩ := hspared
    let entry : FoldEntry := ⟨result.event, source, result.plan.carried, hrecord, hrefs⟩
    have htargetId : entry.target = result.plan.target.id := hinto
    have hfound : FoldFound env acc.1 entry result.plan.target := by
      refine ⟨get?_getSubject hsource, ?_, ?_, ⟨hcontributors, hasserted⟩, fun p => ?_, fun p => ?_,
        ?_, ?_⟩
      · rw [htargetId]
        exact get?_getSubject htarget
      · rw [htargetId]
        exact hne
      · rw [hpids, hsources]
        simp [entry]
      · rw [halready, hsources, htargetId]
        simp [entry]
      · intro a ha
        exact hnames a (hadded ▸ ha)
      · intro r hr
        exact htexts r (hcarried r hr).1 (hcarried r hr).2
    refine ⟨entries ++ [entry], ⟨ledger_fold h.ledger h.view hinStep hfound, ?_, ?_, ?_⟩, ?_⟩
    · exact foldView_fold h.view hfound htargetId.symm hsources hadded.symm rfl heffect
    · exact idsView_fold h.view h.idsView hfound htargetId.symm hsources heffect
    · exact h.indexed.merge (planSubjectMerge_spec hplan) heffect
    · rw [hlog, hevents, List.map_append]
      rfl

/-- **All the folds of a plan.** -/
theorem FoldState.folds (hinStep : InStep original) (folds : List Fold) :
    ∀ {acc acc' : Store × List SubjectsMerged} {entries : List FoldEntry},
      FoldState env original entries [] acc.1 → foldsSpared env acc folds →
      acc.2 = entries.map FoldEntry.event → folds.foldlM (applyFoldStep env) acc = .ok acc' →
      ∃ entries', FoldState env original entries' [] acc'.1 ∧
        acc'.2 = entries'.map FoldEntry.event := by
  induction folds with
  | nil =>
      intro acc acc' entries h _ hevents hok
      obtain rfl := Except.ok.inj hok
      exact ⟨entries, h, hevents⟩
  | cons fold folds ih =>
      intro acc acc' entries h hspared hevents hok
      rw [List.foldlM_cons, bind_eq_ok] at hok
      obtain ⟨next, hnext, hrest⟩ := hok
      simp only [foldsSpared, hnext, Bool.and_eq_true] at hspared
      obtain ⟨entries', h', hevents'⟩ := h.fold hinStep hspared.1 hevents hnext
      exact ih h' hspared.2 hevents' hrest

/-- **Some undos, in any order**: the folds of their events are undone. -/
theorem FoldState.undos {actor : String} (undos : List SubjectsMerged) :
    ∀ {store : Store} {undone : List String}, FoldState env original entries undone store →
      (∀ event ∈ undos, event ∈ entries.map FoldEntry.event) →
      undoFolds env actor store undos = .ok store' →
      ∃ undone', FoldState env original entries undone' store' ∧ (∀ x ∈ undone, x ∈ undone') ∧
        ∀ entry ∈ entries, entry.event ∈ undos → entry.source.id ∈ undone' := by
  induction undos with
  | nil =>
      intro store undone h _ hok
      obtain rfl := Except.ok.inj hok
      exact ⟨undone, h, fun _ hx => hx, by simp⟩
  | cons event undos ih =>
      intro store undone h hevents hok
      simp only [undoFolds, List.foldlM_cons, bind_eq_ok] at hok
      obtain ⟨next, hnext, hrest⟩ := hok
      obtain ⟨relinked, hundo⟩ := fst_map_eq_ok.1 hnext
      obtain ⟨entry, hentry, rfl⟩ := List.mem_map.1 (hevents event List.mem_cons_self)
      have hview := foldView_undo h.ledger h.view hentry hundo
      have hidsView := idsView_undo h.ledger h.idsView hentry h.view hundo
      have hindexed : AliasIndexed env next := by
        simp only [undoFold, bind_eq_ok] at hundo
        obtain ⟨record, -, hrestore⟩ := hundo
        exact h.indexed.restore hrestore
      obtain ⟨undone', h', hkept, hdone⟩ := ih ⟨h.ledger, hview, hidsView, hindexed⟩
        (fun other hother => hevents other (List.mem_cons_of_mem _ hother)) hrest
      refine ⟨undone', h', fun x hx => hkept x (List.mem_cons_of_mem _ hx), fun e he hmem => ?_⟩
      rcases List.mem_cons.1 hmem with heq | hmem
      · -- two folds with one event have one source
        have hrecords : some (sourceRecordOf e.source) = some (sourceRecordOf entry.source) := by
          rw [← e.record, ← entry.record, heq]
        have hid : e.source.id = entry.source.id :=
          congrArg SourceRecord.id (Option.some.inj hrecords)
        rw [hid]
        exact hkept _ List.mem_cons_self
      · exact hdone e he hmem

end FoldRuns

/-- The subjects of a store with their names and refs, the index rows, and the subjects of every
particle in both records are those of another. -/
structure SubjectsRestored (original restored : Store) : Prop where
  subjects : ∀ x, restored.subjects.get? x = original.subjects.get? x
  indexRows : ∀ x, restored.indexRows x = original.indexRows x
  linked : ∀ p x, restored.Linked p x ↔ original.Linked p x
  ids : ∀ p x, x ∈ restored.idsOf p ↔ x ∈ original.idsOf p

/-- With every fold undone the store reads as the original. -/
theorem FoldState.restored {env : SubjectEnv} {original store : Store} {entries : List FoldEntry}
    {undone : List String} (h : FoldState env original entries undone store)
    (hinStep : InStep original) (hindexed : AliasIndexed env original)
    (hall : ∀ entry ∈ entries, entry.source.id ∈ undone) : SubjectsRestored original store := by
  have hlive : ∀ x, ¬ MergedAway entries undone x := by
    rintro x ⟨e, he, rfl, hnot⟩
    exact hnot (hall e he)
  have hinto : ∀ x, liveInto entries undone x = [] := by
    intro x
    rw [List.eq_nil_iff_forall_not_mem]
    intro e he
    obtain ⟨hmem, -, hnot⟩ := mem_liveInto.1 he
    exact hnot (hall e hmem)
  have hsubjects : ∀ x, store.subjects.get? x = original.subjects.get? x := by
    intro x
    rw [h.view.subjects x (hlive x), rowWith, hinto]
    cases original.subjects.get? x with
    | none => rfl
    | some subject => simp [Subject.withAliases, Subject.withRefs]
  have hlinked : ∀ p x, store.Linked p x ↔ original.Linked p x := by
    intro p x
    rw [h.view.linked, LinkedWith]
    constructor
    · rintro ⟨-, hlinked | ⟨e, he, -, hnot, -⟩⟩
      · exact hlinked
      · exact absurd (hall e he) hnot
    · intro hlinked
      exact ⟨hlive x, Or.inl hlinked⟩
  refine ⟨hsubjects, fun x => ?_, hlinked, fun p x => ?_⟩
  · rw [h.indexed, hindexed, hsubjects]
  · constructor
    · intro hx
      exact (hinStep.linked p x).2 ((hlinked p x).1 (h.idsView.linked p x (hlive x) hx))
    · intro hx
      exact h.idsView.owned p x (hlive x) ((hinStep.linked p x).1 hx)

/-- **Undoing every fold restores the subjects.**  In a store whose index is derived and whose links
are in step, after any folds that are spared, undoing each of them once, in any order in which
every undo succeeds, gives back the subjects, their index rows and the subjects of every particle. -/
theorem undoFolds_restores (env : SubjectEnv) (actor : String) {original folded restored : Store}
    {folds : List Fold} {events undos : List SubjectsMerged} (hinStep : InStep original)
    (hindexed : AliasIndexed env original) (hspared : foldsSpared env (original, []) folds)
    (hfolds : applyFold env original folds = .ok (folded, events)) (hundos : undos.Perm events)
    (hrestored : undoFolds env actor folded undos = .ok restored) :
    SubjectsRestored original restored := by
  obtain ⟨entries, h, hevents⟩ :=
    FoldState.folds hinStep folds (FoldState.start hinStep hindexed) hspared rfl hfolds
  have hmem : ∀ event, event ∈ undos ↔ event ∈ entries.map FoldEntry.event := by
    intro event
    rw [hundos.mem_iff]
    exact Eq.to_iff (congrArg (event ∈ ·) hevents)
  obtain ⟨undone, h', -, hdone⟩ := h.undos undos (fun event he => (hmem event).1 he) hrestored
  refine h'.restored hinStep hindexed fun entry hentry => ?_
  exact hdone entry hentry ((hmem _).2 (List.mem_map_of_mem hentry))

/-- A subject for one spelling of a file. -/
def spelling (id name : String) (aliases : List String)
    (contributors : Option (List ContributorRef)) : Subject where
  id := id
  canonicalName := name
  aliases := aliases
  assertedBy := "resolver"
  contributors := contributors

/-- Two spellings of a file that share an alias and a particle, the file, and a particle of it. -/
def spellings (contributors : Option (List ContributorRef)) : List SubjectCall :=
  [.insertSubject (spelling "s1" "a.py" ["mod"] contributors),
    .insertSubject (spelling "s2" "a" ["mod"] none),
    .insertSubject (spelling "s3" "src/a.py" [] none),
    .insertParticle { id := "p1", content := "x", subjectIds := ["s1", "s2"] } none,
    .insertParticle { id := "p2", content := "y", subjectIds := ["s3", "s1"] } none]

/-- The store of the three subjects. -/
def spelled (contributors : Option (List ContributorRef)) : Store :=
  (run (applyWellCalled nasaEnv id "model") .empty (spellings contributors)).getD {}

/-- Both spellings folded into the file. -/
def spellingFolds : List Fold := [⟨"s1", "s3"⟩, ⟨"s2", "s3"⟩]

/-- The store and the events of the folds. -/
def spellingsFolded (contributors : Option (List ContributorRef)) : Store × List SubjectsMerged :=
  ((applyFold nasaEnv (spelled contributors) spellingFolds).toOption).getD ({}, [])

/-- The store with the folds undone, the earlier one first. -/
def spellingsUndone (contributors : Option (List ContributorRef)) : Store :=
  ((undoFolds nasaEnv "undo" (spellingsFolded contributors).1
    (spellingsFolded contributors).2).toOption).getD {}

theorem undoFolds_restores_spelled :
    (spellingsFolded none).2.length = 2 ∧
      SubjectsRestored (spelled none) (spellingsUndone none) := by
  have hrun : run (applyWellCalled nasaEnv id "model") .empty (spellings none) =
      some (spelled none) := by decide +kernel
  have hrun' : run (applySubjectCall nasaEnv id "model") .empty (spellings none) =
      some (spelled none) := by decide +kernel
  have hfinds : StepsMeet (applyWellCalled nasaEnv id "model") (CallFinds nasaEnv) .empty
      (spellings none) := by decide +kernel
  have hfolds : (applyFold nasaEnv (spelled none) spellingFolds).toOption =
      some (spellingsFolded none) := by decide +kernel
  have hundone : (undoFolds nasaEnv "undo" (spellingsFolded none).1
      (spellingsFolded none).2).toOption = some (spellingsUndone none) := by decide +kernel
  exact ⟨by decide +kernel, undoFolds_restores nasaEnv "undo" (InStep.empty.run hfinds hrun)
    ((AliasIndexed.empty nasaEnv).run hrun') (by decide +kernel) (toOption_eq_some.1 hfolds)
    (List.Perm.refl _) (toOption_eq_some.1 hundone)⟩

/-- A subject with a contributor, and its undone fold. -/
def editedBy : Option (List ContributorRef) := some [{ id := "agent-1", role := "editor" }]

/-- **A source with contributors does not come back as it was**: its event leaves them out. -/
theorem not_restored_contributors :
    applyFold nasaEnv (spelled editedBy) spellingFolds = .ok (spellingsFolded editedBy) ∧
      undoFolds nasaEnv "undo" (spellingsFolded editedBy).1 (spellingsFolded editedBy).2 =
        .ok (spellingsUndone editedBy) ∧
      ¬ SubjectsRestored (spelled editedBy) (spellingsUndone editedBy) := by
  refine ⟨toOption_eq_some.1 (by decide +kernel), toOption_eq_some.1 (by decide +kernel), ?_⟩
  intro h
  have hne : (spellingsUndone editedBy).subjects.get? "s1" ≠
      (spelled editedBy).subjects.get? "s1" := by decide +kernel
  exact hne (h.subjects "s1")

end ParticlesEngine
