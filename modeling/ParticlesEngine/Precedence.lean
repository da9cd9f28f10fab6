/-
**The later decision wins a detected conflict.**

`operations/query/precedence.py` demotes the earlier of two conflicting claims.  A claim's key is the
date its source was published with the number of the decision record it comes from; either may be
absent, and then stands as the earliest date or as -1.  Keys compare date first.  They are totally
ordered, so a conflict never demotes the greatest key of a connected component; but an absent
component loses to a real one, so two claims that have no component in common are still decided.

Main definitions:

* `adrIdOrdinal`, `precedenceComponents` — the components of a claim's key;
* `buildPrecedenceKeys`, `precedenceDemotions` — the two functions of the module;
* `KeyComponents.Beats` — the order of the keys, read on the components;
* `InConflict` — the conflict graph over the claims present.

Main results:

* `mem_precedenceDemotions` — a claim is demoted exactly when it loses a conflict;
* `exists_unbeaten` — over a total order every component of a graph has a node that loses to none;
* `precedenceDemotions_beaten` — **a claim is demoted exactly when a partner beats it, a pair that is
  not decided is inert, and every component keeps a claim**;
* `numbered_demoted_by_dated` — an undated decision record loses to a dated claim with no number.
-/

import Mathlib.Data.Finset.Card
import Mathlib.Data.Finset.Max
import Mathlib.Data.Prod.Lex
import Mathlib.Data.String.Basic
import Mathlib.Order.WithBot
import ParticlesEngine.Dict
import ParticlesEngine.UpdateOrder

set_option relaxedAutoImplicit false
set_option autoImplicit false

open Dict Relation

/-! ### A winner of every component -/

section Unbeaten

variable {α κ : Type*} [LinearOrder κ]

/-- **Every component of a finite graph has a node that loses to no neighbour.** -/
theorem exists_unbeaten {edge : α → α → Prop} {nodes : Finset α} (key : α → κ)
    (hedge : ∀ a b, edge a b → b ∈ nodes) {a : α} (ha : a ∈ nodes) :
    ∃ b ∈ nodes, EqvGen edge a b ∧ ∀ c, edge b c → ¬ key b < key c := by
  classical
  have hnonempty : (nodes.filter fun b => EqvGen edge a b).Nonempty :=
    ⟨a, Finset.mem_filter.2 ⟨ha, EqvGen.refl a⟩⟩
  obtain ⟨b, hb, hmax⟩ := Finset.exists_max_image _ key hnonempty
  obtain ⟨hb, hab⟩ := Finset.mem_filter.1 hb
  refine ⟨b, hb, hab, fun c hbc => not_lt.2 (hmax c ?_)⟩
  exact Finset.mem_filter.2 ⟨hedge b c hbc, hab.trans _ _ _ (EqvGen.rel _ _ hbc)⟩

end Unbeaten

namespace ParticlesEngine

/-! ### Reading a number -/

/-- What Python says about the characters of a number, and how many digits it reads. -/
structure PyNumbers where
  isspace : Char → Bool
  /-- the value of a decimal digit, of any script -/
  decimal : Char → Option ℕ
  /-- `sys.get_int_max_str_digits()`; no bound when zero -/
  maxStrDigits : ℕ := 4300

section Numbers

variable (py : PyNumbers)

/-- The digits of a number, with single underscores between them. -/
def readDigits : List Char → Option (List ℕ)
  | [] => none
  | [c] => (py.decimal c).map fun d => [d]
  | c :: '_' :: rest => do return (← py.decimal c) :: (← readDigits rest)
  | c :: next :: rest => do return (← py.decimal c) :: (← readDigits (next :: rest))

/-- `int(token)`, of a token without spaces around it; nothing for a `ValueError`. -/
def pyInt (token : List Char) : Option ℤ :=
  let (negative, digits) := match token with
    | '-' :: rest => (true, rest)
    | '+' :: rest => (false, rest)
    | rest => (false, rest)
  (readDigits py digits).bind fun read =>
    if 0 < py.maxStrDigits ∧ py.maxStrDigits < read.length then none
    else
      let value : ℤ := read.foldl (fun n d => 10 * n + d) 0
      some (if negative then -value else value)

/-- `str.strip`. -/
def strip (chars : List Char) : List Char :=
  ((chars.dropWhile py.isspace).reverse.dropWhile py.isspace).reverse

/-- **`_adr_id_ordinal`**: the number of the decision record that a relation is the key of. -/
def adrIdOrdinal (relation : Option DocumentRelation) : Option ℤ :=
  (relation.filter fun rel => rel.key ≠ "").bind fun rel =>
    match rel.key.toList with
    | 'a' :: 'd' :: 'r' :: ':' :: token => pyInt py (strip py token)
    | _ => none

end Numbers

/-! ### Keys -/

/-- `_source_entry_id`. -/
def sourceEntryId (p : Particle) : Option String :=
  (p.provenance.find? fun ref => ref.type = .SOURCE && decide (ref.corpusEntryId ≠ "")).map
    fun ref => ref.corpusEntryId

/-- The components of a precedence key, of which either may be absent. -/
structure KeyComponents where
  publishedAt : Option DateTime
  ordinal : Option ℤ
  deriving DecidableEq, Repr

/-- `_MIN_DT`: the first instant of the first year. -/
def MIN_DT : DateTime := ⟨-62135596800000000, some 0⟩

/-- `PrecedenceKey`: the instant by which the date compares, then the number. -/
abbrev PrecedenceKey := Instant ×ₗ ℤ

namespace KeyComponents

/-- The key of the components, when there is one. -/
def key (components : KeyComponents) : Option PrecedenceKey :=
  match components.publishedAt, components.ordinal with
  | none, none => none
  | publishedAt, ordinal =>
      let dt := (publishedAt.getD MIN_DT).asAware
      some (toLex (dt.utc, ordinal.getD (-1)))

/-- A claim has a key when one of its components is known. -/
def Known (components : KeyComponents) : Prop :=
  components.publishedAt.isSome ∨ components.ordinal.isSome

/-- When the claim was published; the first instant when that is not known. -/
def authored (components : KeyComponents) : Instant := (components.publishedAt.getD MIN_DT).utc

/-- The number of the claim's decision record; -1 when it has none. -/
def number (components : KeyComponents) : ℤ := components.ordinal.getD (-1)

/-- **One claim beats another**: both have a component, and its date is later, or the dates are equal
and its number is higher. -/
def Beats (winner loser : KeyComponents) : Prop :=
  winner.Known ∧ loser.Known ∧
    (loser.authored < winner.authored ∨
      loser.authored = winner.authored ∧ loser.number < winner.number)

/-- Both claims have a date, or both have a number. -/
def Share (a b : KeyComponents) : Prop :=
  (a.publishedAt.isSome ∧ b.publishedAt.isSome) ∨ (a.ordinal.isSome ∧ b.ordinal.isSome)

end KeyComponents

section Precedence

variable (py : PyNumbers) (pubAtById : String → Option DateTime)
variable (supersessionByEntry : String → Option DocumentRelation)

/-- What the key of a particle is built from. -/
def precedenceComponents (p : Particle) : KeyComponents where
  publishedAt := pubAtById p.id
  ordinal := (sourceEntryId p).bind fun entryId => adrIdOrdinal py (supersessionByEntry entryId)

/-- **`build_precedence_keys`**; a particle with no component has no key. -/
def buildPrecedenceKeys (particles : List Particle) : String → Option PrecedenceKey :=
  dictOf (particles.filterMap fun p =>
    (precedenceComponents py pubAtById supersessionByEntry p).key.map fun key => (p.id, key))

end Precedence

/-- The order in which a set yields its elements, which Python leaves open. -/
structure SetOrder where
  yields : Finset String → List String
  nodup_yields : ∀ set, (yields set).Nodup
  mem_yields : ∀ {set a}, a ∈ yields set ↔ a ∈ set

section Demotions

variable (order : SetOrder) (particles : List Particle) (keys : String → Option PrecedenceKey)

/-- One conflict pair: its side with the smaller key is demoted. -/
def demotePair (demote : Finset String) (pair : Finset String) : Finset String :=
  match order.yields pair with
  | [a, b] =>
      if a ∈ particles.map Particle.id ∧ b ∈ particles.map Particle.id then
        match keys a, keys b with
        | some ka, some kb =>
            if ka = kb then demote else insert (if ka < kb then a else b) demote
        | _, _ => demote
      else demote
  | _ => demote

/-- **`precedence_demotions`**. -/
def precedenceDemotions (conflictPairs : List (Finset String)) : Finset String :=
  conflictPairs.foldl (demotePair order particles keys) ∅

end Demotions

/-- Two particles present are in a detected conflict. -/
def InConflict (particles : List Particle) (conflictPairs : List (Finset String)) (a b : String) :
    Prop :=
  a ≠ b ∧ {a, b} ∈ conflictPairs ∧
    a ∈ particles.map Particle.id ∧ b ∈ particles.map Particle.id

/-! ### Who is demoted -/

section Demoted

variable {order : SetOrder} {particles : List Particle} {keys : String → Option PrecedenceKey}

/-- Both ids have a key, and the first one's is smaller. -/
def KeyBelow (keys : String → Option PrecedenceKey) (a b : String) : Prop :=
  ∃ ka kb, keys a = some ka ∧ keys b = some kb ∧ ka < kb

/-- Equal pairs have the same elements, in one order or the other. -/
theorem pair_eq_pair {a b c d : String} (h : ({a, b} : Finset String) = {c, d}) :
    a = c ∧ b = d ∨ a = d ∧ b = c := by
  rw [← Finset.coe_inj, Finset.coe_pair, Finset.coe_pair] at h
  exact Set.pair_eq_pair_iff.1 h

/-- A set that yields two elements is their pair. -/
theorem SetOrder.eq_pair {set : Finset String} {a b : String} (h : order.yields set = [a, b]) :
    a ≠ b ∧ set = {a, b} := by
  have hnodup := order.nodup_yields set
  rw [h] at hnodup
  refine ⟨by simpa using hnodup, ?_⟩
  ext c
  rw [← order.mem_yields, h]
  simp

/-- A pair yields its two elements. -/
theorem SetOrder.yields_pair {a b : String} (hne : a ≠ b) :
    ∃ x y, order.yields {a, b} = [x, y] := by
  have hcard : (order.yields {a, b}).length = 2 := by
    have hset : (order.yields {a, b}).toFinset = {a, b} := by
      ext c
      rw [List.mem_toFinset, order.mem_yields]
    rw [← List.toFinset_card_of_nodup (order.nodup_yields _), hset, Finset.card_pair hne]
  exact List.length_eq_two.1 hcard

/-- **One pair** demotes the side whose key is smaller, when both sides are present. -/
theorem mem_demotePair {demote pair : Finset String} {id : String} :
    id ∈ demotePair order particles keys demote pair ↔ id ∈ demote ∨
      ∃ partner, id ≠ partner ∧ pair = {id, partner} ∧ id ∈ particles.map Particle.id ∧
        partner ∈ particles.map Particle.id ∧ KeyBelow keys id partner := by
  by_cases hpair : ∃ a b, order.yields pair = [a, b]
  · obtain ⟨a, b, hyields⟩ := hpair
    obtain ⟨hne, rfl⟩ := order.eq_pair hyields
    have hloses : (∃ partner, id ≠ partner ∧ ({a, b} : Finset String) = {id, partner} ∧
        id ∈ particles.map Particle.id ∧ partner ∈ particles.map Particle.id ∧
          KeyBelow keys id partner) ↔
        (a ∈ particles.map Particle.id ∧ b ∈ particles.map Particle.id) ∧
          (id = a ∧ KeyBelow keys a b ∨ id = b ∧ KeyBelow keys b a) := by
      constructor
      · rintro ⟨partner, hdiffer, hset, hid, hpartner, hbelow⟩
        rcases pair_eq_pair hset with ⟨rfl, rfl⟩ | ⟨rfl, rfl⟩
        · exact ⟨⟨hid, hpartner⟩, Or.inl ⟨rfl, hbelow⟩⟩
        · exact ⟨⟨hpartner, hid⟩, Or.inr ⟨rfl, hbelow⟩⟩
      · rintro ⟨⟨ha, hb⟩, ⟨rfl, hbelow⟩ | ⟨rfl, hbelow⟩⟩
        · exact ⟨b, hne, rfl, ha, hb, hbelow⟩
        · exact ⟨a, hne.symm, Finset.pair_comm _ _, hb, ha, hbelow⟩
    rw [hloses, demotePair, hyields]
    dsimp only
    split_ifs with hpresent
    · rw [and_iff_right hpresent]
      cases ha : keys a with
      | none => simp [KeyBelow, ha]
      | some ka =>
          cases hb : keys b with
          | none => simp [KeyBelow, ha, hb]
          | some kb =>
              dsimp only
              rcases lt_trichotomy ka kb with hlt | rfl | hlt
              · simp [KeyBelow, ha, hb, hlt, hlt.ne, hlt.asymm, or_comm]
              · simp [KeyBelow, ha, hb]
              · simp [KeyBelow, ha, hb, hlt, hlt.ne', hlt.asymm, or_comm]
    · exact (or_iff_left fun h => hpresent h.1).symm
  · have hskip : demotePair order particles keys demote pair = demote := by
      rw [demotePair]
      split
      · rename_i a b hyields
        exact absurd ⟨a, b, hyields⟩ hpair
      · rfl
    rw [hskip]
    refine (or_iff_left ?_).symm
    rintro ⟨partner, hne, rfl, -⟩
    exact hpair (order.yields_pair hne)

/-- **A particle is demoted exactly when it loses a conflict.** -/
theorem mem_precedenceDemotions {conflictPairs : List (Finset String)} {id : String} :
    id ∈ precedenceDemotions order particles keys conflictPairs ↔
      ∃ partner, InConflict particles conflictPairs id partner ∧ KeyBelow keys id partner := by
  have hloop : ∀ (pairs : List (Finset String)) (demote : Finset String),
      id ∈ pairs.foldl (demotePair order particles keys) demote ↔
        id ∈ demote ∨
          ∃ partner, InConflict particles pairs id partner ∧ KeyBelow keys id partner := by
    intro pairs
    induction pairs with
    | nil => simp [InConflict]
    | cons pair pairs ih =>
        intro demote
        rw [List.foldl_cons, ih, mem_demotePair, or_assoc, ← exists_or]
        refine or_congr_right (exists_congr fun partner => ?_)
        simp only [InConflict, List.mem_cons]
        constructor
        · rintro (⟨hne, rfl, hid, hpartner, hbelow⟩ | ⟨⟨hne, hpair, hid, hpartner⟩, hbelow⟩)
          · exact ⟨⟨hne, Or.inl rfl, hid, hpartner⟩, hbelow⟩
          · exact ⟨⟨hne, Or.inr hpair, hid, hpartner⟩, hbelow⟩
        · rintro ⟨⟨hne, hpair | hpair, hid, hpartner⟩, hbelow⟩
          · exact Or.inl ⟨hne, hpair.symm, hid, hpartner, hbelow⟩
          · exact Or.inr ⟨⟨hne, hpair, hid, hpartner⟩, hbelow⟩
  rw [precedenceDemotions, hloop]
  simp

end Demoted

/-! ### What a conflict is decided by -/

namespace KeyComponents

/-- Components have a key exactly when one of them is known. -/
theorem key_eq_some_iff {components : KeyComponents} {k : PrecedenceKey} :
    components.key = some k ↔
      components.Known ∧ k = toLex (components.authored, components.number) := by
  obtain ⟨_ | publishedAt, _ | ordinal⟩ := components <;>
    simp [key, Known, authored, number, DateTime.asAware, DateTime.utc, eq_comm]

/-- **A smaller key is a lost comparison of the components.** -/
theorem key_lt_iff {loser winner : KeyComponents} :
    (∃ k k', loser.key = some k ∧ winner.key = some k' ∧ k < k') ↔ winner.Beats loser := by
  simp only [key_eq_some_iff, Beats]
  constructor
  · rintro ⟨_, _, ⟨hloser, rfl⟩, ⟨hwinner, rfl⟩, hlt⟩
    exact ⟨hwinner, hloser, Prod.Lex.toLex_lt_toLex.1 hlt⟩
  · rintro ⟨hwinner, hloser, hlt⟩
    exact ⟨_, _, ⟨hloser, rfl⟩, ⟨hwinner, rfl⟩, Prod.Lex.toLex_lt_toLex.2 hlt⟩

/-- A side without a key, or a tie, decides nothing. -/
theorem not_beats_of_inert {a b : KeyComponents}
    (h : ¬ a.Known ∨ ¬ b.Known ∨ (a.authored = b.authored ∧ a.number = b.number)) :
    ¬ a.Beats b ∧ ¬ b.Beats a := by
  rcases h with h | h | ⟨hdate, hnumber⟩
  · exact ⟨fun hbeats => h hbeats.1, fun hbeats => h hbeats.2.1⟩
  · exact ⟨fun hbeats => h hbeats.2.1, fun hbeats => h hbeats.1⟩
  · simp [Beats, hdate, hnumber]

/-- Two dates that differ decide, the later one winning. -/
theorem beats_of_dates {winner loser : KeyComponents} {later earlier : DateTime}
    (hwinner : winner.publishedAt = some later) (hloser : loser.publishedAt = some earlier)
    (hne : earlier.utc ≠ later.utc) : winner.Beats loser ↔ earlier.utc < later.utc := by
  simp [Beats, Known, authored, hwinner, hloser, hne]

/-- Where the dates do not differ, two numbers decide, the higher one winning. -/
theorem beats_of_ordinals {winner loser : KeyComponents} {higher lower : ℤ}
    (hwinner : winner.ordinal = some higher) (hloser : loser.ordinal = some lower)
    (hdates : winner.authored = loser.authored) : winner.Beats loser ↔ lower < higher := by
  simp [Beats, Known, number, hwinner, hloser, hdates]

end KeyComponents

section Precedence

variable {py : PyNumbers} {pubAtById : String → Option DateTime}
variable {supersessionByEntry : String → Option DocumentRelation} {particles : List Particle}

/-- Among particles with ids of their own, the key of one is that of its components. -/
theorem buildPrecedenceKeys_id (hdistinct : (particles.map Particle.id).Nodup) {p : Particle}
    (hp : p ∈ particles) :
    buildPrecedenceKeys py pubAtById supersessionByEntry particles p.id =
      (precedenceComponents py pubAtById supersessionByEntry p).key := by
  have hown : ∀ q ∈ particles, q.id = p.id → q = p :=
    fun q hq hid => List.inj_on_of_nodup_map hdistinct hq hp hid
  unfold buildPrecedenceKeys
  cases hkey : (precedenceComponents py pubAtById supersessionByEntry p).key with
  | none =>
      refine dictOf_eq_none.2 fun pair hpair hid => ?_
      obtain ⟨q, hq, hpair⟩ := List.mem_filterMap.1 hpair
      obtain ⟨k, hk, rfl⟩ := Option.map_eq_some_iff.1 hpair
      rw [hown q hq hid, hkey] at hk
      cases hk
  | some k =>
      refine dictOf_eq_some (List.mem_filterMap.2 ⟨p, hp, by simp [hkey]⟩) fun k' hk' => ?_
      obtain ⟨q, hq, hpair⟩ := List.mem_filterMap.1 hk'
      obtain ⟨k'', hk'', hpair⟩ := Option.map_eq_some_iff.1 hpair
      obtain ⟨hid, rfl⟩ := Prod.mk.inj hpair
      rw [hown q hq hid, hkey] at hk''
      exact (Option.some.inj hk'').symm

/-- A particle present is demoted exactly when a partner's components beat its own. -/
theorem demoted_iff_beaten (hdistinct : (particles.map Particle.id).Nodup) (order : SetOrder)
    (conflictPairs : List (Finset String)) {p : Particle} (hp : p ∈ particles) :
    p.id ∈ precedenceDemotions order particles
        (buildPrecedenceKeys py pubAtById supersessionByEntry particles) conflictPairs ↔
      ∃ q ∈ particles, InConflict particles conflictPairs p.id q.id ∧
        (precedenceComponents py pubAtById supersessionByEntry q).Beats
          (precedenceComponents py pubAtById supersessionByEntry p) := by
  have hbelow : ∀ q ∈ particles,
      KeyBelow (buildPrecedenceKeys py pubAtById supersessionByEntry particles) p.id q.id ↔
        (precedenceComponents py pubAtById supersessionByEntry q).Beats
          (precedenceComponents py pubAtById supersessionByEntry p) := by
    intro q hq
    rw [KeyBelow, buildPrecedenceKeys_id hdistinct hp, buildPrecedenceKeys_id hdistinct hq,
      KeyComponents.key_lt_iff]
  rw [mem_precedenceDemotions]
  constructor
  · rintro ⟨partner, hconflict, hkeys⟩
    obtain ⟨q, hq, rfl⟩ := List.mem_map.1 hconflict.2.2.2
    exact ⟨q, hq, hconflict, (hbelow q hq).1 hkeys⟩
  · rintro ⟨q, hq, hconflict, hbeats⟩
    exact ⟨q.id, hconflict, (hbelow q hq).2 hbeats⟩

theorem mem_demotions_iff (hdistinct : (particles.map Particle.id).Nodup) (order : SetOrder)
    (conflictPairs : List (Finset String)) (id : String) :
    id ∈ precedenceDemotions order particles
        (buildPrecedenceKeys py pubAtById supersessionByEntry particles) conflictPairs ↔
      ∃ p ∈ particles, ∃ q ∈ particles, p.id = id ∧ InConflict particles conflictPairs p.id q.id ∧
        (precedenceComponents py pubAtById supersessionByEntry q).Beats
          (precedenceComponents py pubAtById supersessionByEntry p) := by
  constructor
  · intro hid
    obtain ⟨partner, hconflict, -⟩ := mem_precedenceDemotions.1 hid
    obtain ⟨p, hp, rfl⟩ := List.mem_map.1 hconflict.2.2.1
    obtain ⟨q, hq, hconflict, hbeats⟩ := (demoted_iff_beaten hdistinct order conflictPairs hp).1 hid
    exact ⟨p, hp, q, hq, rfl, hconflict, hbeats⟩
  · rintro ⟨p, hp, q, hq, rfl, hconflict, hbeats⟩
    exact (demoted_iff_beaten hdistinct order conflictPairs hp).2 ⟨q, hq, hconflict, hbeats⟩

/-- **A pair of which no side beats the other is inert.** -/
theorem demotions_filter_of_inert (hdistinct : (particles.map Particle.id).Nodup) (order : SetOrder)
    (conflictPairs : List (Finset String)) {p q : Particle} (hp : p ∈ particles) (hq : q ∈ particles)
    (hinert : ¬ (precedenceComponents py pubAtById supersessionByEntry p).Beats
        (precedenceComponents py pubAtById supersessionByEntry q) ∧
      ¬ (precedenceComponents py pubAtById supersessionByEntry q).Beats
        (precedenceComponents py pubAtById supersessionByEntry p)) :
    precedenceDemotions order particles
        (buildPrecedenceKeys py pubAtById supersessionByEntry particles)
        (conflictPairs.filter (· ≠ {p.id, q.id})) =
      precedenceDemotions order particles
        (buildPrecedenceKeys py pubAtById supersessionByEntry particles) conflictPairs := by
  have hown : ∀ a ∈ particles, ∀ b ∈ particles, a.id = b.id → a = b :=
    fun a ha b hb hid => List.inj_on_of_nodup_map hdistinct ha hb hid
  have hnone : ∀ a ∈ particles, ∀ b ∈ particles, ({a.id, b.id} : Finset String) = {p.id, q.id} →
      ¬ (precedenceComponents py pubAtById supersessionByEntry b).Beats
        (precedenceComponents py pubAtById supersessionByEntry a) := by
    intro a ha b hb hset
    rcases pair_eq_pair hset with ⟨hap, hbq⟩ | ⟨haq, hbp⟩
    · rw [hown a ha p hp hap, hown b hb q hq hbq]
      exact hinert.2
    · rw [hown a ha q hq haq, hown b hb p hp hbp]
      exact hinert.1
  ext id
  rw [mem_demotions_iff hdistinct, mem_demotions_iff hdistinct]
  refine exists_congr fun a => and_congr_right fun ha => exists_congr fun b =>
    and_congr_right fun hb => and_congr_right fun _ => and_congr_left fun hbeats => ?_
  refine and_congr_right fun _ => and_congr_left fun _ => ?_
  rw [List.mem_filter, decide_eq_true_eq]
  exact and_iff_left fun hset => hnone a ha b hb hset hbeats

/-- **Every component of the conflict graph keeps a claim**: the greatest key of the component loses
no conflict. -/
theorem exists_not_demoted (order : SetOrder) (keys : String → Option PrecedenceKey)
    (conflictPairs : List (Finset String)) {p : Particle} (hp : p ∈ particles) :
    ∃ q ∈ particles, EqvGen (InConflict particles conflictPairs) p.id q.id ∧
      q.id ∉ precedenceDemotions order particles keys conflictPairs := by
  have hnodes : ∀ a b, InConflict particles conflictPairs a b →
      b ∈ (particles.map Particle.id).toFinset :=
    fun a b hconflict => List.mem_toFinset.2 hconflict.2.2.2
  have hmem : p.id ∈ (particles.map Particle.id).toFinset :=
    List.mem_toFinset.2 (List.mem_map_of_mem hp)
  let key : String → WithBot PrecedenceKey := keys
  obtain ⟨id, hid, hlinked, hunbeaten⟩ := exists_unbeaten key hnodes hmem
  obtain ⟨q, hq, rfl⟩ := List.mem_map.1 (List.mem_toFinset.1 hid)
  refine ⟨q, hq, hlinked, fun hdemoted => ?_⟩
  obtain ⟨partner, hconflict, k, k', hk, hk', hlt⟩ := mem_precedenceDemotions.1 hdemoted
  have hkey : key q.id = (k : WithBot PrecedenceKey) := hk
  have hkey' : key partner = (k' : WithBot PrecedenceKey) := hk'
  refine hunbeaten partner hconflict ?_
  rw [hkey, hkey']
  exact WithBot.coe_lt_coe.2 hlt

/-- **A claim is demoted exactly when a partner beats it; a pair with an unkeyed side or a tie is
inert; and every component of the conflict graph keeps a claim.** -/
theorem precedenceDemotions_beaten (py : PyNumbers) (pubAtById : String → Option DateTime)
    (supersessionByEntry : String → Option DocumentRelation) (order : SetOrder)
    (particles : List Particle) (conflictPairs : List (Finset String))
    (hdistinct : (particles.map Particle.id).Nodup) :
    let components := precedenceComponents py pubAtById supersessionByEntry
    let demotedOver := precedenceDemotions order particles
      (buildPrecedenceKeys py pubAtById supersessionByEntry particles)
    (∀ id, id ∈ demotedOver conflictPairs ↔ ∃ p ∈ particles, ∃ q ∈ particles, p.id = id ∧
      InConflict particles conflictPairs p.id q.id ∧ (components q).Beats (components p)) ∧
    (∀ p ∈ particles, ∀ q ∈ particles,
      ¬ (components p).Known ∨ ¬ (components q).Known ∨
          ((components p).authored = (components q).authored ∧
            (components p).number = (components q).number) →
        demotedOver (conflictPairs.filter (· ≠ {p.id, q.id})) = demotedOver conflictPairs) ∧
    (∀ p ∈ particles, ∃ q ∈ particles,
      EqvGen (InConflict particles conflictPairs) p.id q.id ∧ q.id ∉ demotedOver conflictPairs) ∧
    ∀ p q,
      (∀ d d', (components p).publishedAt = some d → (components q).publishedAt = some d' →
        d.utc ≠ d'.utc → ((components q).Beats (components p) ↔ d.utc < d'.utc)) ∧
      ∀ n n', (components p).ordinal = some n → (components q).ordinal = some n' →
        (components q).authored = (components p).authored →
          ((components q).Beats (components p) ↔ n < n') := by
  intro components demotedOver
  refine ⟨mem_demotions_iff hdistinct order conflictPairs, fun p hp q hq hinert => ?_,
    fun p hp => exists_not_demoted order _ conflictPairs hp, fun p q => ⟨?_, ?_⟩⟩
  · exact demotions_filter_of_inert hdistinct order conflictPairs hp hq
      (KeyComponents.not_beats_of_inert hinert)
  · intro d d' hd hd' hne
    exact KeyComponents.beats_of_dates hd' hd hne
  · intro n n' hn hn' hdates
    exact KeyComponents.beats_of_ordinals hn' hn hdates

end Precedence

/-! ### A date against a number -/

/-- The characters of a number, in ASCII. -/
def asciiNumbers : PyNumbers where
  isspace := fun c => c = ' '
  decimal := fun c => if c.isDigit then some (c.toNat - 48) else none

/-- A set that yields its elements in some order. -/
noncomputable def listed : SetOrder where
  yields := Finset.toList
  nodup_yields := Finset.nodup_toList
  mem_yields := Finset.mem_toList

/-- An undated decision record, and a dated claim from elsewhere. -/
def decisionRecord : Particle where
  id := "adr"
  content := "an adr decision"
  provenance := [{ type := .SOURCE, corpusEntryId := "entry-adr" }]

def webClaim : Particle where
  id := "web"
  content := "a dated web claim"
  provenance := [{ type := .SOURCE, corpusEntryId := "entry-web" }]

/-- The web claim was published on the first of March 2025. -/
def webPubAt (id : String) : Option DateTime :=
  if id = "web" then some ⟨1740787200000000, some 0⟩ else none

/-- The record's entry is the decision 166. -/
def recordRelation (entryId : String) : Option DocumentRelation :=
  if entryId = "entry-adr" then some { key := "adr:0166" } else none

theorem precedenceDemotions_beaten_records :
    ∃ q ∈ [decisionRecord, webClaim],
      EqvGen (InConflict [decisionRecord, webClaim] [{"adr", "web"}]) decisionRecord.id q.id ∧
        q.id ∉ precedenceDemotions listed [decisionRecord, webClaim]
          (buildPrecedenceKeys asciiNumbers webPubAt recordRelation [decisionRecord, webClaim])
          [{"adr", "web"}] :=
  (precedenceDemotions_beaten asciiNumbers webPubAt recordRelation listed
    [decisionRecord, webClaim] [{"adr", "web"}] (by decide)).2.2.1 decisionRecord (by simp)

/-- **The decision record is demoted, though it has no component in common with a partner.** -/
theorem numbered_demoted_by_dated :
    decisionRecord.id ∈ precedenceDemotions listed [decisionRecord, webClaim]
        (buildPrecedenceKeys asciiNumbers webPubAt recordRelation [decisionRecord, webClaim])
        [{"adr", "web"}] ∧
      ¬ ∃ q ∈ [decisionRecord, webClaim],
        InConflict [decisionRecord, webClaim] [{"adr", "web"}] decisionRecord.id q.id ∧
          (precedenceComponents asciiNumbers webPubAt recordRelation q).Share
            (precedenceComponents asciiNumbers webPubAt recordRelation decisionRecord) := by
  have hrecord : precedenceComponents asciiNumbers webPubAt recordRelation decisionRecord =
      ⟨none, some 166⟩ := by decide +kernel
  have hweb : precedenceComponents asciiNumbers webPubAt recordRelation webClaim =
      ⟨some ⟨1740787200000000, some 0⟩, none⟩ := by decide +kernel
  constructor
  · refine (demoted_iff_beaten (by decide) listed _ (by simp)).2
      ⟨webClaim, by simp, ⟨by decide, ?_, by decide, by decide⟩, ?_⟩
    · exact List.mem_singleton.2 rfl
    · rw [hrecord, hweb]
      exact ⟨Or.inl rfl, Or.inr rfl, Or.inl (by decide)⟩
  · rintro ⟨q, hq, hconflict, hshare⟩
    rcases List.mem_cons.1 hq with rfl | hq
    · exact hconflict.1 rfl
    · obtain rfl := List.mem_singleton.1 hq
      rw [hrecord, hweb] at hshare
      simp [KeyComponents.Share] at hshare

end ParticlesEngine
