/-
**What a token is worth.**

The engine asks the key file at every request, and it may answer from its cache.  A token that a
command has made authenticates as its record until the record is revoked in the file, and from then on
it never does again, whatever the engine had cached; and no other token authenticates.  Once a key has
been seen, the engine never takes itself to be without keys, even when others take the file away.

Main results:

* `token_of_parseToken` — a token that parses is the spelling of what it parses to;
* `Sound.lookup_issued`, `Sound.lookup_ok` — what the engine answers for an issued token, and when it
  answers a record;
* `issued_token_authenticates` — **an issued token authenticates until it is revoked, and never after**;
* `only_issued_tokens_authenticate` — **no other token does**;
* `never_keyless_again` — **an engine that has seen a key never takes itself to be without keys**.
-/

import ParticlesEngine.KeyFileRuns

set_option relaxedAutoImplicit false
set_option autoImplicit false

namespace ParticlesEngine
namespace KeyFile

open MergedDict Runs

variable {cfg : Settings}

/-! ### Tokens that parse -/

theorem eq_of_after? {start text rest : Text} (h : after? start text = some rest) :
    text = start ++ rest := by
  unfold after? at h
  split_ifs at h with hstart
  obtain rfl := Option.some.inj h
  exact (List.prefix_iff_eq_append.1 (List.isPrefixOf_iff_prefix.1 hstart)).symm

/-- A text, but for a newline that ends it. -/
theorem eq_withoutNewline (text : Text) :
    text = withoutNewline text ∨ text = withoutNewline text ++ ['\n'] := by
  unfold withoutNewline
  split_ifs with hlast
  · exact .inr (List.dropLast_append_getLast? _ hlast).symm
  · exact .inl rfl

/-- **A token that parses is the spelling of what it parses to**, but for a newline that ends it. -/
theorem token_of_parseToken {text keyId secret : Text} {role : Role}
    (h : parseToken text = some (role, keyId, secret)) :
    (text = token role keyId secret ∨ text = token role keyId secret ++ ['\n']) ∧
      IsKeyId keyId ∧ IsSecret secret := by
  obtain ⟨rest, hrest, hfound⟩ := Option.bind_eq_some_iff.1 h
  obtain ⟨role', -, hrole⟩ := List.exists_of_findSome?_eq_some hfound
  obtain ⟨body, hbody, hparsed⟩ := Option.bind_eq_some_iff.1 hrole
  unfold parseBody at hparsed
  split at hparsed
  case h_2 => cases hparsed
  case h_1 tail htail =>
    split_ifs at hparsed with hshape
    obtain ⟨rfl, hpair⟩ := Prod.mk.inj (Option.some.inj hparsed)
    obtain ⟨rfl, rfl⟩ := Prod.mk.inj hpair
    have htext : text = KEY_PREFIX ++ (role'.spelling ++ '_' :: (body.take 12 ++ '_' :: tail)) := by
      rw [eq_of_after? hrest, eq_of_after? hbody, ← htail, List.take_append_drop, List.append_assoc]
      rfl
    refine ⟨?_, hshape⟩
    rcases eq_withoutNewline tail with hsame | hsame
    · left
      rw [htext, token, ← hsame]
    · right
      rw [htext, token]
      conv_lhs => rw [hsame]
      simp only [List.append_assoc, List.cons_append]

/-! ### One request -/

variable {ι : Type}

theorem mem_of_get {records : Records} {keyId : Text} {record : KeyRecord}
    (h : get records keyId = some record) : ∃ entry ∈ records, entry.2 = record := by
  obtain ⟨entry, hentry, heq⟩ := Option.map_eq_some_iff.1 h
  exact ⟨entry, List.mem_of_find?_eq_some hentry, heq⟩

/-- **What the engine answers for an issued token**: the record in the file, while it is unrevoked. -/
theorem Sound.lookup_issued {s : State ι} (hs : Sound cfg s) {text : Text} {record kept : KeyRecord}
    (hissued : IssuedSound cfg (held cfg s.shared.node) (text, record))
    (hkept : get (held cfg s.shared.node) record.keyId = some kept) (place : Place) (now : ℤ) :
    (lookup cfg place now s.shared.node s.cache text).1 =
      (load cfg place now s.shared.node s.cache).1.map
        fun _ => if kept.live then some kept else none := by
  obtain ⟨hkey, ⟨secret, hsecret, htoken, hdigest⟩, kept', hkept', hsame⟩ := hissued
  obtain rfl := Option.some.inj (hkept.symm.trans hkept')
  have hruled := (hs.readable.good.of_get hkept).2
  have hfound : lookupIn cfg (held cfg s.shared.node) record.role record.keyId secret =
      if kept.live then some kept else none := by
    have hdigest' : kept.digest = cfg.digest secret := by
      rw [hsame]
      exact hdigest
    have hrole : kept.role = record.role := by rw [hsame]
    unfold lookupIn
    rw [hkept]
    dsimp only
    rw [hruled.acknowledged, hruled.refusal]
    by_cases hlive : kept.live = true <;> simp [hlive, hdigest', hrole]
  dsimp only at htoken
  unfold lookup
  rw [htoken, parseToken_token _ hkey hsecret]
  dsimp only
  cases hload : (load cfg place now s.shared.node s.cache).1 with
  | error error => rfl
  | ok records =>
      obtain rfl := hs.load_ok hload
      rw [Except.map, Except.map, hfound]

/-- A private file in a safe place is read, or answered from the cache. -/
theorem Sound.load_isOk {s : State ι} (hs : Sound cfg s) {place : Place} (hsafe : place.dirSafe = true)
    (hreach : place.reachable = true) (howners : place.ownersIgnored = false) (now : ℤ) {stamp : ℕ}
    {text : FileText} (hnode : s.shared.node = .file stamp true text) :
    (load cfg place now s.shared.node s.cache).1 = .ok (held cfg s.shared.node) := by
  have hreadable := hs.readable
  rw [hnode] at hreadable
  obtain ⟨records, hparse, -⟩ := hreadable
  have hok : ∃ found, (load cfg place now s.shared.node s.cache).1 = .ok found := by
    have hreread : (load.reread cfg now s.cache stamp text).1 = .ok records := by
      unfold load.reread
      rw [hparse]
    unfold load
    rw [hnode]
    dsimp only
    rw [if_neg fun h => h hsafe, if_neg fun h => h hreach, if_neg (by rw [howners]; exact Bool.false_ne_true),
      if_neg fun h => h rfl]
    split
    · split_ifs
      · exact ⟨_, rfl⟩
      · exact ⟨records, hreread⟩
    · exact ⟨records, hreread⟩
  obtain ⟨found, hfound⟩ := hok
  rw [hfound, hs.load_ok hfound]

/-- What a token has to have for its record to be answered. -/
theorem lookupIn_eq_some {records : Records} {role : Role} {keyId secret : Text} {record : KeyRecord}
    (h : lookupIn cfg records role keyId secret = some record) :
    get records keyId = some record ∧ record.live = true ∧ record.digest = cfg.digest secret ∧
      record.role = role := by
  unfold lookupIn at h
  split at h
  case h_1 => cases h
  case h_2 found hget =>
    split_ifs at h with hlive hdigest hrole
    obtain rfl := Option.some.inj h
    exact ⟨hget, hlive, not_not.1 hdigest, not_not.1 hrole⟩

/-- A record is answered only for a token that parses, from what was loaded. -/
theorem lookup_eq_some {place : Place} {now : ℤ} {node : Node} {cache : Cache} {text : Text}
    {record : KeyRecord} (h : (lookup cfg place now node cache text).1 = .ok (some record)) :
    ∃ records role keyId secret, parseToken text = some (role, keyId, secret) ∧
      (load cfg place now node cache).1 = .ok records ∧
      lookupIn cfg records role keyId secret = some record := by
  unfold lookup at h
  split at h
  case h_1 => cases Except.ok.inj h
  case h_2 role keyId secret hparse =>
    dsimp only at h
    cases hload : (load cfg place now node cache).1 with
    | error error =>
        rw [hload] at h
        cases h
    | ok records =>
        rw [hload] at h
        exact ⟨records, role, keyId, secret, hparse, rfl, Except.ok.inj h⟩

/-- **When the engine answers a record**: the file has it unrevoked under the id of the token, with the
token's role and the digest of its secret, and it was made for an issued token. -/
theorem Sound.lookup_ok {s : State ι} (hs : Sound cfg s) {place : Place} {now : ℤ} {text : Text}
    {record : KeyRecord}
    (h : (lookup cfg place now s.shared.node s.cache text).1 = .ok (some record)) :
    ∃ secret, parseToken text = some (record.role, record.keyId, secret) ∧
      record.digest = cfg.digest secret ∧ record.live = true ∧
      ∃ entry ∈ s.shared.issued, SameKey entry.2 record := by
  obtain ⟨records, role, keyId, secret, hparse, hload, hfound⟩ := lookup_eq_some h
  obtain rfl := hs.load_ok hload
  obtain ⟨hget, hlive, hdigest, rfl⟩ := lookupIn_eq_some hfound
  obtain ⟨rfl, -⟩ := hs.readable.good.of_get hget
  obtain ⟨entry, hentry, -, hsame⟩ := hs.origin _ _ hget
  exact ⟨secret, hparse, hdigest, hlive, entry, hentry, hsame⟩

/-! ### Every run -/

variable [DecidableEq ι]

/-- **An issued token authenticates until it is revoked, and never after.** -/
theorem issued_token_authenticates {start s t : State ι} (hstart : Initial start)
    {before after : List (Action ι)}
    (hleaves : StepsMeet (step cfg) LeavesText start (before ++ after))
    (hbefore : run (step cfg) start before = some s) (hafter : run (step cfg) s after = some t)
    {text : Text} {record : KeyRecord} (hissued : (text, record) ∈ s.shared.issued) :
    ∃ kept, get (held cfg t.shared.node) record.keyId = some kept ∧ SameKey record kept ∧
      (∀ old, get (held cfg s.shared.node) record.keyId = some old → old.live = false → kept = old) ∧
      (∀ place now, (lookup cfg place now t.shared.node t.cache text).1 =
        (load cfg place now t.shared.node t.cache).1.map
          fun _ => if kept.live then some kept else none) ∧
      ∀ (place : Place) now stamp file, place.dirSafe = true → place.reachable = true →
        place.ownersIgnored = false → t.shared.node = .file stamp true file →
        (lookup cfg place now t.shared.node t.cache text).1 =
          .ok (if kept.live then some kept else none) := by
  have hs := sound_run hstart hleaves.left hbefore
  obtain ⟨old, hold, hsame⟩ := (hs.issued _ hissued).kept
  obtain ⟨ht, hcarries⟩ := hs.carries_run (hleaves.right hbefore) hafter
  obtain ⟨kept, hkept, hsame', hdead⟩ := hcarries _ _ hold
  have hanswer := ht.lookup_issued ((hs.issued _ hissued).mono hcarries) hkept
  refine ⟨kept, hkept, hsame.trans hsame', fun old' hold' => ?_, hanswer, ?_⟩
  · obtain rfl := Option.some.inj (hold.symm.trans hold')
    exact hdead
  · intro place now stamp file hsafe hreach howners hnode
    rw [hanswer, ht.load_isOk hsafe hreach howners now hnode]
    rfl

/-- The token of the first key. -/
def firstToken : Text := token .AGENT firstId (List.replicate 43 'A')

set_option maxRecDepth 4000 in
theorem revoked_token_refused :
    ∃ s, run (step plainSettings) noKeys (mintFirst ++ revokeFirst) = some s ∧
      (lookup plainSettings {} 7 s.shared.node s.cache firstToken).1 = .ok none := by
  obtain ⟨s, hs⟩ : ∃ s, run (step plainSettings) noKeys (mintFirst ++ revokeFirst) = some s := ⟨_, rfl⟩
  obtain ⟨record, hissued, old, hold, hdead⟩ : ∃ record, (firstToken, record) ∈ s.shared.issued ∧
      ∃ old, get (held plainSettings s.shared.node) record.keyId = some old ∧ old.live = false := by
    obtain rfl := Option.some.inj hs
    exact ⟨_, List.mem_singleton_self _, _, rfl, rfl⟩
  have hleaves : StepsMeet (step plainSettings) LeavesText noKeys ((mintFirst ++ revokeFirst) ++ []) :=
    (List.append_nil _).symm ▸ leavesText_first
  obtain ⟨kept, -, -, hkept, hanswer, -⟩ :=
    issued_token_authenticates initial_noKeys hleaves hs (run_nil s) hissued
  obtain rfl := hkept old hold hdead
  refine ⟨s, hs, ?_⟩
  rw [hanswer, hdead]
  obtain rfl := Option.some.inj hs
  rfl

/-- **No token but an issued one authenticates.** -/
theorem only_issued_tokens_authenticate {start s : State ι} (hstart : Initial start)
    {actions : List (Action ι)} (hleaves : StepsMeet (step cfg) LeavesText start actions)
    (hrun : run (step cfg) start actions = some s) {place : Place} {now : ℤ} {text : Text}
    {record : KeyRecord}
    (h : (lookup cfg place now s.shared.node s.cache text).1 = .ok (some record)) :
    ∃ secret issuedSecret made,
      (text = token record.role record.keyId secret ∨
        text = token record.role record.keyId secret ++ ['\n']) ∧
      (token record.role record.keyId issuedSecret, made) ∈ s.shared.issued ∧
      cfg.digest secret = cfg.digest issuedSecret ∧ SameKey made record ∧ record.live = true := by
  have hs := sound_run hstart hleaves hrun
  obtain ⟨secret, hparse, hdigest, hlive, ⟨issuedText, made⟩, hmade, hsame⟩ := hs.lookup_ok h
  obtain ⟨-, ⟨issuedSecret, -, htoken, hissued⟩, -⟩ := hs.issued _ hmade
  dsimp only at htoken hissued hsame
  have hid : record.keyId = made.keyId := by rw [hsame]
  have hrole : record.role = made.role := by rw [hsame]
  have hdigest' : record.digest = made.digest := by rw [hsame]
  refine ⟨secret, issuedSecret, made, (token_of_parseToken hparse).1, ?_, ?_, hsame, hlive⟩
  · rwa [hid, hrole, ← htoken]
  · rw [← hdigest, hdigest', hissued]

set_option maxRecDepth 4000 in
theorem first_token_issued :
    ∃ s record, run (step plainSettings) noKeys mintFirst = some s ∧
      (lookup plainSettings {} 6 s.shared.node s.cache firstToken).1 = .ok (some record) ∧
      ∃ secret made, (token record.role record.keyId secret, made) ∈ s.shared.issued ∧
        SameKey made record := by
  obtain ⟨s, hs⟩ : ∃ s, run (step plainSettings) noKeys mintFirst = some s := ⟨_, rfl⟩
  obtain ⟨record, hanswer⟩ : ∃ record,
      (lookup plainSettings {} 6 s.shared.node s.cache firstToken).1 = .ok (some record) := by
    obtain rfl := Option.some.inj hs
    exact ⟨_, rfl⟩
  obtain ⟨_, secret, made, -, hmade, -, hsame, -⟩ :=
    only_issued_tokens_authenticate initial_noKeys leavesText_first.left hs hanswer
  exact ⟨s, record, hs, hanswer, secret, made, hmade, hsame⟩

/-- A live key in the cache has been seen. -/
def CacheSeen (s : State ι) : Prop :=
  ∀ records, s.cache.records = some records → anyLive records = true → s.cache.seen = true

/-- A reading keeps that, forgets nothing, and sees the live keys that it answers. -/
theorem cacheSeen_load (cfg : Settings) {cache : Cache}
    (h : ∀ records, cache.records = some records → anyLive records = true → cache.seen = true)
    (place : Place) (now : ℤ) (node : Node) :
    (∀ records, (load cfg place now node cache).2.records = some records → anyLive records = true →
      (load cfg place now node cache).2.seen = true) ∧
    (cache.seen = true → (load cfg place now node cache).2.seen = true) ∧
    ∀ records, (load cfg place now node cache).1 = .ok records → anyLive records = true →
      (load cfg place now node cache).2.seen = true := by
  have hcases := load_cases cfg place now node cache
  generalize load cfg place now node cache = answer at hcases
  cases hcases with
  | refused error =>
      refine ⟨h, id, ?_⟩
      intro records hrecords
      cases hrecords
  | absent =>
      refine ⟨?_, id, ?_⟩
      · intro records hrecords hlive
        obtain rfl := Option.some.inj hrecords
        cases hlive
      · intro records hrecords hlive
        obtain rfl := Except.ok.inj hrecords
        cases hlive
  | kept stamp own text found _ _ hfound =>
      refine ⟨h, id, ?_⟩
      intro records hrecords hlive
      obtain rfl := Except.ok.inj hrecords
      exact h found hfound hlive
  | parsed stamp own text found =>
      refine ⟨?_, fun hseen => ?_, ?_⟩
      · intro records hrecords hlive
        obtain rfl := Option.some.inj hrecords
        exact Bool.or_eq_true_iff.2 (.inr hlive)
      · exact Bool.or_eq_true_iff.2 (.inl hseen)
      · intro records hrecords hlive
        obtain rfl := Except.ok.inj hrecords
        exact Bool.or_eq_true_iff.2 (.inr hlive)

theorem CacheSeen.step {s t : State ι} (hs : CacheSeen s) {action : Action ι}
    (h : step cfg s action = some t) : CacheSeen t ∧ (s.cache.seen = true → t.cache.seen = true) := by
  cases action with
  | command p move =>
      obtain ⟨_, _, rfl⟩ := Option.map_eq_some_iff.1 h
      exact ⟨hs, id⟩
  | read place now =>
      obtain rfl := Option.some.inj h
      have hload := cacheSeen_load cfg hs place now s.shared.node
      exact ⟨hload.1, hload.2.1⟩
  | world change =>
      obtain rfl := Option.some.inj h
      exact ⟨hs, id⟩

/-- **An engine that has seen a key never takes itself to be without keys.** -/
theorem never_keyless_again {start s t : State ι} (hcache : start.cache = {})
    {before after : List (Action ι)} {place : Place} {now : ℤ} {text : Text} {record : KeyRecord}
    (hbefore : run (step cfg) start before = some s)
    (hanswer : (lookup cfg place now s.shared.node s.cache text).1 = .ok (some record))
    (hafter : run (step cfg) s (.read place now :: after) = some t) (later : Place) (time : ℤ) :
    (hasLiveKeys cfg later time t.shared.node t.cache).1 = true := by
  have hstart : CacheSeen start := by
    intro records hrecords
    rw [hcache] at hrecords
    cases hrecords
  have hs : CacheSeen s := run_invariant CacheSeen (fun _ _ _ hu hstep => (hu.step hstep).1) hstart hbefore
  obtain ⟨records, role, keyId, secret, -, hload, hfound⟩ := lookup_eq_some hanswer
  obtain ⟨hget, hlive, -⟩ := lookupIn_eq_some hfound
  obtain ⟨entry, hentry, rfl⟩ := mem_of_get hget
  have hany : anyLive records = true := List.any_eq_true.2 ⟨entry, hentry, hlive⟩
  obtain ⟨s', hread, hafter⟩ := run_cons_eq_some.1 hafter
  obtain rfl := Option.some.inj hread
  -- from the reading on the engine has seen a key, and it does not forget
  have ht : CacheSeen t ∧ t.cache.seen = true := by
    refine run_invariant (fun u => CacheSeen u ∧ u.cache.seen = true) ?_ ?_ hafter
    · rintro u action v ⟨hu, hseen⟩ hstep
      obtain ⟨hv, hkeeps⟩ := hu.step hstep
      exact ⟨hv, hkeeps hseen⟩
    · have hread := cacheSeen_load cfg hs place now s.shared.node
      exact ⟨hread.1, hread.2.2 records hload hany⟩
  have hlater := (cacheSeen_load cfg ht.1 later time t.shared.node).2.1 ht.2
  unfold hasLiveKeys
  generalize load cfg later time t.shared.node t.cache = answer at hlater
  rcases answer with ⟨error | found, cache⟩
  · rfl
  · exact Bool.or_eq_true_iff.2 (.inr hlater)

set_option maxRecDepth 4000 in
theorem removed_file_not_keyless :
    ∃ t, run (step plainSettings) noKeys (mintFirst ++ [.read {} 6, .world .remove]) = some t ∧
      (hasLiveKeys plainSettings {} 20000000 t.shared.node t.cache).1 = true := by
  obtain ⟨s, hs⟩ : ∃ s, run (step plainSettings) noKeys mintFirst = some s := ⟨_, rfl⟩
  obtain ⟨record, hanswer⟩ : ∃ record,
      (lookup plainSettings {} 6 s.shared.node s.cache firstToken).1 = .ok (some record) := by
    obtain rfl := Option.some.inj hs
    exact ⟨_, rfl⟩
  obtain ⟨t, ht⟩ : ∃ t, run (step plainSettings) s [.read {} 6, .world .remove] = some t := ⟨_, rfl⟩
  exact ⟨t, run_append_eq_some.2 ⟨s, hs, ht⟩, never_keyless_again rfl hs hanswer ht {} 20000000⟩

end KeyFile
end ParticlesEngine
