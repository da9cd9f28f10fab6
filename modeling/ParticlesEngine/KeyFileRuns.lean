/-
**No command undoes another.**

A command reads the whole key file and writes it back whole, so two at once could lose a change: a
revocation could be undone by a key that is minted beside it.  Each holds the lock from its read to its
rename, so what it has read is still what the file has when it writes.  Over every interleaving of any
number of commands, some of which die on the way, the records that the file once had stay in it as they
are, but that they may be revoked, and a revocation stays.

Main definitions:

* `Ruled`, `GoodRecords` — records that keep the rules and that read back as they were written;
* `held` — the records that the file has;
* `SameKey`, `Carries` — a record that is kept, and records that are all kept;
* `Sound` — what holds of the file, the commands, the cache and the issued tokens.

Main results:

* `parse_serialise` — **what is written reads back as the same records**;
* `commandStep_cases` — what a step of a command does;
* `Sound.step` — every step keeps the invariant, and carries the records;
* `keys_are_kept` — **over every run, no record is lost and no revocation is undone**.
-/

import ParticlesEngine.KeyFile
import ParticlesEngine.ParticleStore

set_option relaxedAutoImplicit false
set_option autoImplicit false

namespace ParticlesEngine
namespace KeyFile

open MergedDict Runs

variable {cfg : Settings}

/-! ### Records that read back -/

/-- A record that authenticates while it is live, and that is read as it was written. -/
structure Ruled (cfg : Settings) (record : KeyRecord) : Prop where
  refusal : recordRuleRefusal cfg record = none
  acknowledged : unacknowledgedReserved cfg record = false
  parsed : parseItem cfg record = some record

/-- Records under their own ids, each once, that keep the rules. -/
structure GoodRecords (cfg : Settings) (records : Records) : Prop where
  nodup : (records.map Prod.fst).Nodup
  keyed : ∀ entry ∈ records, entry.2.keyId = entry.1
  ruled : ∀ entry ∈ records, Ruled cfg entry.2

theorem goodRecords_nil : GoodRecords cfg [] :=
  ⟨List.nodup_nil, fun _ h => absurd h List.not_mem_nil, fun _ h => absurd h List.not_mem_nil⟩

theorem GoodRecords.of_get {records : Records} (h : GoodRecords cfg records) {keyId : Text}
    {record : KeyRecord} (hget : get records keyId = some record) :
    record.keyId = keyId ∧ Ruled cfg record := by
  have hmem := (mem_iff_get h.nodup).2 hget
  exact ⟨h.keyed _ hmem, h.ruled _ hmem⟩

theorem Ruled.revoke {record : KeyRecord} (h : Ruled cfg record) (now : String) :
    Ruled cfg { record with revokedAt := some now } where
  refusal := h.refusal
  acknowledged := h.acknowledged
  parsed := by
    have hparsed := h.parsed
    unfold parseItem at hparsed ⊢
    dsimp only
    cases hproject : record.project with
    | none => rfl
    | some project =>
        rw [hproject] at hparsed
        dsimp only at hparsed ⊢
        split_ifs at hparsed ⊢ with hbad
        have hsame := congrArg KeyRecord.project (Option.some.inj hparsed)
        rw [hproject] at hsame
        dsimp only at hsame
        rw [hsame]

/-- Storing a record that keeps the rules leaves good records. -/
theorem GoodRecords.setRecord {records : Records} (h : GoodRecords cfg records) {record : KeyRecord}
    (hrecord : Ruled cfg record) : GoodRecords cfg (setRecord records record) := by
  have hnodup := nodup_keys_upsert (fun _ => record) record.keyId h.nodup
  have hentry : ∀ entry ∈ KeyFile.setRecord records record,
      entry.2.keyId = entry.1 ∧ Ruled cfg entry.2 := by
    rintro ⟨keyId, stored⟩ hmem
    have hget := (mem_iff_get hnodup).1 hmem
    rw [get_upsert] at hget
    split_ifs at hget with hkey
    · obtain rfl := Option.some.inj hget
      exact ⟨hkey, hrecord⟩
    · exact h.of_get hget
  exact ⟨hnodup, fun entry hmem => (hentry entry hmem).1, fun entry hmem => (hentry entry hmem).2⟩

/-- **What is written reads back as the same records.** -/
theorem parse_serialise {records : Records} (h : GoodRecords cfg records) :
    ∃ read, parse cfg (serialise records) = .ok read ∧ GoodRecords cfg read ∧
      ∀ keyId, get read keyId = get records keyId := by
  let sorted := (records.map Prod.snd).insertionSort fun a b => a.createdAt ≤ b.createdAt
  have hperm : sorted.Perm (records.map Prod.snd) := List.perm_insertionSort _ _
  have hitems : sorted.mapM (parseItem cfg) = some sorted := by
    have hparsed : ∀ record ∈ sorted, parseItem cfg record = some record := by
      intro record hrecord
      obtain ⟨entry, hentry, rfl⟩ := List.mem_map.1 (hperm.mem_iff.1 hrecord)
      exact (h.ruled entry hentry).parsed
    generalize sorted = items at hparsed
    induction items with
    | nil => rfl
    | cons item items ih =>
        rw [List.mapM_cons, hparsed item List.mem_cons_self,
          ih fun record hrecord => hparsed record (List.mem_cons_of_mem _ hrecord)]
        rfl
  let pairs := sorted.map fun record => (record.keyId, record)
  have hpairs : pairs.Perm records := by
    have hmapped := hperm.map fun record : KeyRecord => (record.keyId, record)
    have hsame : (records.map Prod.snd).map (fun record : KeyRecord => (record.keyId, record)) = records := by
      rw [List.map_map]
      conv_rhs => rw [← List.map_id records]
      refine List.map_congr_left fun entry hentry => ?_
      exact Prod.ext (h.keyed entry hentry) rfl
    rwa [hsame] at hmapped
  have hnodup : (pairs.map Prod.fst).Nodup := (hpairs.map Prod.fst).nodup_iff.2 h.nodup
  refine ⟨pairs, ?_, ⟨hnodup, ?_, ?_⟩, fun keyId => ?_⟩
  · unfold parse serialise
    dsimp only
    rw [hitems]
    dsimp only
    rw [combine_of_nodup _ hnodup]
  · exact fun entry hentry => h.keyed entry (hpairs.mem_iff.1 hentry)
  · exact fun entry hentry => h.ruled entry (hpairs.mem_iff.1 hentry)
  · refine Option.ext fun record => ?_
    rw [← mem_iff_get hnodup, ← mem_iff_get h.nodup, hpairs.mem_iff]

/-! ### New records -/

theorem rootsRefusal_mintRoots {role : Role} {principal : Text} {given kept : Option (List Text)}
    (h : mintRoots cfg role principal given = .ok kept) {record : KeyRecord} (hrole : record.role = role)
    (hprincipal : record.principal = principal) : rootsRefusal cfg record kept = none := by
  cases given with
  | none =>
      obtain rfl := Except.ok.inj h
      rfl
  | some roots =>
      unfold mintRoots at h
      dsimp only at h
      split_ifs at h with hharvester hroots
      obtain ⟨out, hout, hkept⟩ := bind_eq_ok.1 h
      obtain rfl := Except.ok.inj hkept
      -- each root that was taken is its own normal form
      have hnormal : ∀ root ∈ out, normalisedRoot root = .ok root := by
        clear h hroots hkept
        induction roots generalizing out with
        | nil =>
            obtain rfl := Except.ok.inj hout
            exact fun root hroot => absurd hroot List.not_mem_nil
        | cons raw roots ih =>
            rw [List.mapM_cons] at hout
            obtain ⟨first, hfirst, htail⟩ := bind_eq_ok.1 hout
            obtain ⟨rest, hrest, hcons⟩ := bind_eq_ok.1 htail
            obtain rfl := Except.ok.inj hcons
            intro root hroot
            rcases List.mem_cons.1 hroot with rfl | hroot
            · cases hraw : normalisedRoot raw with
              | error e => rw [hraw] at hfirst; cases hfirst
              | ok normal =>
                  rw [hraw] at hfirst
                  obtain rfl := Except.ok.inj hfirst
                  exact normalisedRoot_normalised hraw
            · exact ih rest hrest root hroot
      have hlength : out ≠ [] := by
        rintro rfl
        cases roots with
        | nil => exact hroots rfl
        | cons raw roots =>
            rw [List.mapM_cons] at hout
            obtain ⟨first, -, hrest⟩ := bind_eq_ok.1 hout
            obtain ⟨rest, -, hcons⟩ := bind_eq_ok.1 hrest
            cases hcons
      have hne : FirstByKey.firstByKey id [] out ≠ [] := by
        obtain ⟨root, hroot⟩ := List.exists_mem_of_ne_nil out hlength
        exact List.ne_nil_of_mem (FirstByKey.mem_firstByKey_id.2 hroot)
      unfold rootsRefusal
      dsimp only
      rw [hrole, hprincipal, if_neg fun hnot => hnot hharvester, if_neg hne, Option.map_eq_none_iff, List.find?_eq_none]
      intro root hroot
      rw [hnormal root (FirstByKey.mem_firstByKey_id.1 hroot)]
      simp [Except.toOption]

/-- **The record of a new key keeps the rules.** -/
theorem ruled_record {request : MintRequest} {minting : Minting}
    (h : prepareMint cfg request = .ok minting) (keyId : Text) (createdAt digest : String) :
    Ruled cfg (minting.record keyId createdAt digest) := by
  obtain ⟨⟨⟩, hcheck, h⟩ := bind_eq_ok.1 h
  obtain ⟨memory, hmemory, h⟩ := bind_eq_ok.1 h
  obtain ⟨archive, harchive, h⟩ := bind_eq_ok.1 h
  obtain rfl := Except.ok.inj h
  obtain ⟨⟨⟩, hprincipal, hproject⟩ := bind_eq_ok.1 hcheck
  rw [strip_strip] at hprincipal
  unfold checkPrincipal at hprincipal
  split_ifs at hprincipal with hblank hoperator hname hlabel hreserved
  have hbound : (request.project.map cfg.canonicalProjectKey).isSome = true →
      request.role = .AGENT := by
    intro hsome
    obtain ⟨project, heq⟩ := Option.isSome_iff_exists.1 hsome
    rw [heq] at hproject
    unfold checkProject at hproject
    dsimp only at hproject
    split_ifs at hproject with hrole
    exact not_not.1 hrole
  refine ⟨?_, ?_, ?_⟩
  · unfold recordRuleRefusal Minting.record
    dsimp only
    rw [strip_strip, if_neg (by tauto), if_neg hoperator, if_neg hname, if_neg hlabel, if_neg (by tauto),
      rootsRefusal_mintRoots hmemory rfl rfl, rootsRefusal_mintRoots harchive rfl rfl]
    rfl
  · unfold unacknowledgedReserved Minting.record
    dsimp only
    by_cases hrole : request.role = .OPERATOR <;> simp [hrole]
  · unfold parseItem Minting.record
    dsimp only
    cases hkey : request.project with
    | none => rfl
    | some project =>
        rw [hkey] at hproject
        unfold checkProject at hproject
        dsimp only [Option.map_some] at hproject ⊢
        split_ifs at hproject with hrole hnames
        have hlookalike : cfg.lookalikeReason (cfg.canonicalProjectKey project) = none := by
          cases hreason : cfg.lookalikeReason (cfg.canonicalProjectKey project) with
          | none => rfl
          | some reason =>
              rw [hreason] at hproject
              cases hproject
        rw [if_neg, cfg.canonical_idem]
        rintro (hnot | hhides)
        · exact hnot hnames
        · rw [cfg.hides_refused _ hlookalike] at hhides
          cases hhides

/-! ### The records that the file has -/

/-- The records of the file; none where there is no file that parses. -/
def held (cfg : Settings) : Node → Records
  | .file _ _ text => (parse cfg text).toOption.getD []
  | _ => []

/-- There is no file, or one whose records are good. -/
def Readable (cfg : Settings) : Node → Prop
  | .absent => True
  | .file _ _ text => ∃ records, parse cfg text = .ok records ∧ GoodRecords cfg records
  | _ => False

theorem held_of_parse {stamp : ℕ} {own : Bool} {text : FileText} {records : Records}
    (h : parse cfg text = .ok records) : held cfg (.file stamp own text) = records := by
  unfold held
  dsimp only
  rw [h]
  rfl

theorem Readable.good {node : Node} (h : Readable cfg node) : GoodRecords cfg (held cfg node) := by
  cases node with
  | absent => exact goodRecords_nil
  | isLink => exact h.elim
  | special => exact h.elim
  | file stamp own text =>
      obtain ⟨records, hparse, hgood⟩ := h
      rwa [held_of_parse hparse]

/-- What a reading answers, and the cache that it leaves. -/
inductive Loaded (cfg : Settings) (now : ℤ) (node : Node) (cache : Cache) :
    Except KeyFileUnusable Records × Cache → Prop
  | refused (error : KeyFileUnusable) : Loaded cfg now node cache (.error error, cache)
  | absent (hnode : node = .absent) (hseen : cache.seen = false) :
      Loaded cfg now node cache (.ok [], { cache with stamp := none, records := some [] })
  | kept (stamp : ℕ) (own : Bool) (text : FileText) (records : Records)
      (hnode : node = .file stamp own text) (hstamp : cache.stamp = some stamp)
      (hrecords : cache.records = some records) : Loaded cfg now node cache (.ok records, cache)
  | parsed (stamp : ℕ) (own : Bool) (text : FileText) (records : Records)
      (hnode : node = .file stamp own text) (hparse : parse cfg text = .ok records) :
      Loaded cfg now node cache
        (.ok records, ⟨some stamp, now, some records, cache.seen || anyLive records⟩)

theorem loaded_reread {now : ℤ} {cache : Cache} {stamp : ℕ} {own : Bool} {text : FileText} :
    Loaded cfg now (.file stamp own text) cache (load.reread cfg now cache stamp text) := by
  unfold load.reread
  cases hparse : parse cfg text with
  | error error => exact .refused error
  | ok records => exact .parsed stamp own text records rfl hparse

theorem load_cases (cfg : Settings) (place : Place) (now : ℤ) (node : Node) (cache : Cache) :
    Loaded cfg now node cache (load cfg place now node cache) := by
  unfold load
  cases node with
  | absent =>
      dsimp only
      split_ifs with hunsafe hreach hseen
      · exact .refused _
      · exact .refused _
      · exact .refused _
      · exact .absent rfl (Bool.eq_false_of_not_eq_true hseen)
  | isLink =>
      dsimp only
      split_ifs <;> exact .refused _
  | special =>
      dsimp only
      split_ifs <;> exact .refused _
  | file stamp own text =>
      dsimp only
      -- the file is judged before the cache is looked at
      split
      · exact .refused _
      split
      · exact .refused _
      split
      · exact .refused _
      split
      · exact .refused _
      split
      case h_1 records hrecords =>
        split_ifs with hfresh
        · exact .kept stamp own text records rfl hfresh.1 hrecords
        · exact loaded_reread
      case h_2 => exact loaded_reread

/-- A command that reads the file with nothing cached reads what it has. -/
theorem load_fresh {place : Place} {now : ℤ} {node : Node} {records : Records}
    (h : (load cfg place now node {}).1 = .ok records) : records = held cfg node := by
  have hcases := load_cases cfg place now node {}
  revert h
  generalize load cfg place now node {} = answer at hcases
  intro h
  cases hcases with
  | refused error => cases h
  | absent hnode => rw [hnode]; exact (Except.ok.inj h).symm
  | kept stamp own text found _ _ hrecords => cases hrecords
  | parsed stamp own text found hnode hparse =>
      rw [hnode, held_of_parse hparse]
      exact (Except.ok.inj h).symm

/-! ### The steps of a command -/

/-- A command that has passed its checks. -/
def CommandOk (cfg : Settings) : Command → Prop
  | .mint minting => ∀ keyId createdAt digest, Ruled cfg (minting.record keyId createdAt digest)
  | .revoke _ => True

variable {ι : Type} [DecidableEq ι]

/-- What holds of a process in a phase: it has passed its checks, and from the lock to the rename it
has the lock and knows what the file has. -/
def PhaseSound (cfg : Settings) (p : ι) (shared : Shared ι) : Phase → Prop
  | .waiting command => CommandOk cfg command
  | .holding command => CommandOk cfg command ∧ shared.owner = some p
  | .loaded command records =>
    CommandOk cfg command ∧ shared.owner = some p ∧ records = held cfg shared.node
  | _ => True

/-- What a step of a command does to the file and its lock. -/
inductive CommandStepped (cfg : Settings) (p : ι) (shared : Shared ι) (phase : Phase) :
    Shared ι → Phase → Prop
  | same (phase' : Phase) (hphase : PhaseSound cfg p shared phase') :
      CommandStepped cfg p shared phase shared phase'
  | took (command : Command) (hcommand : CommandOk cfg command) (hfree : shared.owner = none) :
      CommandStepped cfg p shared phase { shared with owner := some p } (.holding command)
  | gave : CommandStepped cfg p shared phase (shared.release p) .done
  | minted (minting : Minting) (keyId secret : Text) (now : String)
      (howner : shared.owner = some p) (hkey : IsKeyId keyId) (hsecret : IsSecret secret)
      (hnew : get (held cfg shared.node) keyId = none)
      (hruled : Ruled cfg (minting.record keyId now (cfg.digest secret))) :
      CommandStepped cfg p shared phase
        { shared.replaceFile
            (setRecord (held cfg shared.node) (minting.record keyId now (cfg.digest secret))) with
          issued := shared.issued ++
            [(token minting.role keyId secret, minting.record keyId now (cfg.digest secret))] }
        .closing
  | revoked (keyId : Text) (record : KeyRecord) (now : String) (howner : shared.owner = some p)
      (hrecord : get (held cfg shared.node) keyId = some record) (hlive : record.live = true) :
      CommandStepped cfg p shared phase
        (shared.replaceFile
          (setRecord (held cfg shared.node) { record with revokedAt := some now })) .closing

theorem commandStep_cases {p : ι} {shared shared' : Shared ι} {phase phase' : Phase} {move : Move}
    (hphase : PhaseSound cfg p shared phase)
    (h : commandStep cfg p shared phase move = some (shared', phase')) :
    CommandStepped cfg p shared phase shared' phase' := by
  unfold commandStep at h
  split at h
  case h_1 =>
    split at h <;> obtain ⟨rfl, rfl⟩ := Prod.mk.inj (Option.some.inj h)
    · exact .same _ trivial
    · exact .same _ (ruled_record ‹_›)
  case h_2 =>
    obtain ⟨rfl, rfl⟩ := Prod.mk.inj (Option.some.inj h)
    exact .same _ trivial
  case h_3 =>
    split_ifs at h with hunsafe hfree <;> obtain ⟨rfl, rfl⟩ := Prod.mk.inj (Option.some.inj h)
    · exact .same _ trivial
    · exact .took _ hphase hfree
  case h_4 =>
    obtain ⟨rfl, rfl⟩ := Prod.mk.inj (Option.some.inj h)
    exact .same _ trivial
  case h_5 =>
    split at h <;> obtain ⟨rfl, rfl⟩ := Prod.mk.inj (Option.some.inj h)
    · exact .same _ trivial
    · exact .same _ ⟨hphase.1, hphase.2, load_fresh ‹_›⟩
  case h_6 =>
    obtain ⟨hcommand, howner, rfl⟩ := hphase
    dsimp only at h
    split_ifs at h with hfresh hallowed <;> obtain ⟨rfl, rfl⟩ := Prod.mk.inj (Option.some.inj h)
    · exact .minted _ _ _ _ howner hfresh.1 hfresh.2.1 hfresh.2.2 (hcommand _ _ _)
    · exact .same _ trivial
  case h_7 =>
    obtain ⟨hcommand, howner, rfl⟩ := hphase
    split at h
    · obtain ⟨rfl, rfl⟩ := Prod.mk.inj (Option.some.inj h)
      exact .same _ trivial
    · split_ifs at h with hlive <;> obtain ⟨rfl, rfl⟩ := Prod.mk.inj (Option.some.inj h)
      · exact .revoked _ _ _ howner ‹_› hlive.1
      · exact .same _ trivial
  case h_8 | h_9 =>
    obtain ⟨rfl, rfl⟩ := Prod.mk.inj (Option.some.inj h)
    exact .gave
  case h_10 => cases h

/-! ### Records that are carried on -/

/-- The same key: only when it was revoked may differ. -/
def SameKey (old new : KeyRecord) : Prop := new = { old with revokedAt := new.revokedAt }

theorem SameKey.trans {a b c : KeyRecord} (hab : SameKey a b) (hbc : SameKey b c) : SameKey a c := by
  unfold SameKey at *
  rw [hbc, hab]

/-- Every key is still there, and one that was revoked is as it was. -/
def Carries (older newer : Records) : Prop :=
  ∀ keyId old, get older keyId = some old →
    ∃ new, get newer keyId = some new ∧ SameKey old new ∧ (old.live = false → new = old)

theorem Carries.of_get_eq {older newer : Records} (h : ∀ keyId, get newer keyId = get older keyId) :
    Carries older newer :=
  fun keyId old hold => ⟨old, (h keyId).trans hold, rfl, fun _ => rfl⟩

theorem Carries.trans {a b c : Records} (hab : Carries a b) (hbc : Carries b c) : Carries a c := by
  intro keyId old hold
  obtain ⟨mid, hmid, hkey, hdead⟩ := hab keyId old hold
  obtain ⟨new, hnew, hkey', hdead'⟩ := hbc keyId mid hmid
  refine ⟨new, hnew, hkey.trans hkey', fun hrevoked => ?_⟩
  obtain rfl := hdead hrevoked
  exact hdead' hrevoked

/-- A new key leaves the others as they are. -/
theorem carries_new {records : Records} {record : KeyRecord} (hnew : get records record.keyId = none) :
    Carries records (setRecord records record) := by
  intro keyId old hold
  refine ⟨old, ?_, rfl, fun _ => rfl⟩
  rw [setRecord, get_upsert, if_neg, hold]
  rintro rfl
  rw [hnew] at hold
  cases hold

/-- A revocation leaves the others as they are, and revokes a key that was not. -/
theorem carries_revoked {records : Records} {record : KeyRecord}
    (hrecord : get records record.keyId = some record) (hlive : record.live = true) (now : String) :
    Carries records (setRecord records { record with revokedAt := some now }) := by
  intro keyId old hold
  rw [setRecord, get_upsert]
  split_ifs with hkey
  · subst hkey
    obtain rfl := Option.some.inj (hold.symm.trans hrecord)
    refine ⟨_, rfl, rfl, fun hdead => ?_⟩
    rw [hlive] at hdead
    cases hdead
  · exact ⟨old, hold, rfl, fun _ => rfl⟩

/-! ### What holds after every run -/

/-- The token and the record that a command made, and that the file has kept. -/
structure IssuedSound (cfg : Settings) (records : Records) (entry : Text × KeyRecord) : Prop where
  key_id : IsKeyId entry.2.keyId
  token : ∃ secret, IsSecret secret ∧ entry.1 = token entry.2.role entry.2.keyId secret ∧
    entry.2.digest = cfg.digest secret
  kept : ∃ record, get records entry.2.keyId = some record ∧ SameKey entry.2 record

theorem IssuedSound.mono {older newer : Records} {entry : Text × KeyRecord}
    (h : IssuedSound cfg older entry) (hcarries : Carries older newer) :
    IssuedSound cfg newer entry where
  key_id := h.key_id
  token := h.token
  kept := by
    obtain ⟨record, hrecord, hkey⟩ := h.kept
    obtain ⟨new, hnew, hkey', -⟩ := hcarries _ _ hrecord
    exact ⟨new, hnew, hkey.trans hkey'⟩

/-- What holds of the file, the commands, the cache and the issued tokens. -/
structure Sound (cfg : Settings) (s : State ι) : Prop where
  readable : Readable cfg s.shared.node
  stamp_lt : ∀ stamp own text, s.shared.node = .file stamp own text → stamp < s.shared.nextStamp
  phase : ∀ p, PhaseSound cfg p s.shared (s.phase p)
  cached_lt : ∀ stamp, s.cache.stamp = some stamp → stamp < s.shared.nextStamp
  /-- what the engine has kept is what the file with that stamp has -/
  cached : ∀ stamp records own text, s.cache.stamp = some stamp → s.cache.records = some records →
    s.shared.node = .file stamp own text → parse cfg text = .ok records
  issued : ∀ entry ∈ s.shared.issued, IssuedSound cfg (held cfg s.shared.node) entry
  /-- every record of the file was made for a token -/
  origin : ∀ keyId record, get (held cfg s.shared.node) keyId = some record →
    ∃ entry ∈ s.shared.issued, entry.2.keyId = keyId ∧ SameKey entry.2 record

/-- There is no file yet, nothing is cached and no command has begun. -/
structure Initial (s : State ι) : Prop where
  node : s.shared.node = .absent
  owner : s.shared.owner = none
  issued : s.shared.issued = []
  cache : s.cache = {}
  phase : ∀ p, s.phase p = .idle

omit [DecidableEq ι] in
theorem Initial.sound {s : State ι} (h : Initial s) : Sound cfg s where
  readable := by rw [h.node]; trivial
  stamp_lt := by
    intro stamp own text hnode
    rw [h.node] at hnode
    cases hnode
  phase := by
    intro p
    rw [h.phase p]
    trivial
  cached_lt := by
    intro stamp hstamp
    rw [h.cache] at hstamp
    cases hstamp
  cached := by
    intro stamp records own text hstamp
    rw [h.cache] at hstamp
    cases hstamp
  issued := by
    intro entry hentry
    rw [h.issued] at hentry
    exact absurd hentry List.not_mem_nil
  origin := by
    intro keyId record hrecord
    rw [h.node] at hrecord
    cases hrecord

/-- Nobody but the commands writes the file: from outside only its mode or its owner changes. -/
def LeavesText (_ : State ι) : Action ι → Prop
  | .world (.chmod _) => True
  | .world _ => False
  | _ => True

omit [DecidableEq ι] in
/-- Where a process stands is as sound as before if the step is not its own. -/
theorem PhaseSound.other {p : ι} {shared shared' : Shared ι} {phase : Phase}
    (h : PhaseSound cfg p shared phase)
    (hsame : shared.owner = some p →
      shared'.owner = some p ∧ held cfg shared'.node = held cfg shared.node) :
    PhaseSound cfg p shared' phase := by
  cases phase with
  | holding command => exact ⟨h.1, (hsame h.2).1⟩
  | loaded command records =>
      obtain ⟨hcommand, howner, rfl⟩ := h
      exact ⟨hcommand, (hsame howner).1, (hsame howner).2.symm⟩
  | idle => exact h
  | waiting command => exact h
  | closing => exact h
  | done => exact h

omit [DecidableEq ι] in
/-- What is written is what the file then has. -/
theorem get_held_replaceFile {shared : Shared ι} {records : Records} (h : GoodRecords cfg records)
    (keyId : Text) :
    get (held cfg (shared.replaceFile records).node) keyId = get records keyId := by
  obtain ⟨read, hparse, -, hget⟩ := parse_serialise h
  unfold Shared.replaceFile
  rw [held_of_parse hparse]
  exact hget keyId

/-- A file that is put in place by the process that has the lock keeps all that holds, if it carries
the records, and each that it has was made for a token. -/
theorem Sound.replace {s : State ι} (hs : Sound cfg s) {p : ι} (howner : s.shared.owner = some p)
    {records : Records} (hgood : GoodRecords cfg records)
    (hcarries : Carries (held cfg s.shared.node) records) {issued : List (Text × KeyRecord)}
    (hissued : ∀ entry ∈ issued, entry ∉ s.shared.issued → IssuedSound cfg records entry)
    (horigin : ∀ keyId record, get records keyId = some record →
      ∃ entry ∈ issued, entry.2.keyId = keyId ∧ SameKey entry.2 record) :
    Sound cfg ⟨{ s.shared.replaceFile records with issued := issued }, s.cache,
        Function.update s.phase p .closing⟩ ∧
      Carries (held cfg s.shared.node) (held cfg (s.shared.replaceFile records).node) := by
  have hget : ∀ keyId, get (held cfg (s.shared.replaceFile records).node) keyId = get records keyId :=
    get_held_replaceFile hgood
  have hback : Carries records (held cfg (s.shared.replaceFile records).node) := .of_get_eq hget
  refine ⟨?_, hcarries.trans hback⟩
  constructor
  case readable =>
    obtain ⟨read, hparse, hread, -⟩ := parse_serialise hgood
    exact ⟨read, hparse, hread⟩
  case stamp_lt =>
    intro stamp own text hnode
    obtain ⟨rfl, -, -⟩ := Node.file.inj hnode
    exact Nat.lt_succ_self _
  case phase =>
    intro q
    dsimp only
    by_cases hq : q = p
    · subst hq
      rw [Function.update_self]
      trivial
    · rw [Function.update_of_ne hq]
      refine (hs.phase q).other fun hother => ?_
      exact absurd (Option.some.inj (hother.symm.trans howner)) hq
  case cached_lt => exact fun stamp hstamp => Nat.lt_succ_of_lt (hs.cached_lt stamp hstamp)
  case cached =>
    intro stamp found own text hstamp _ hnode
    obtain ⟨rfl, -, -⟩ := Node.file.inj hnode
    exact absurd (hs.cached_lt _ hstamp) (Nat.lt_irrefl _)
  case issued =>
    intro entry hentry
    by_cases hold : entry ∈ s.shared.issued
    · exact (hs.issued entry hold).mono (hcarries.trans hback)
    · exact (hissued entry hentry hold).mono hback
  case origin => exact fun keyId record hrecord => horigin keyId record ((hget keyId).symm.trans hrecord)

/-- A step that only gives or takes the lock, or nothing. -/
theorem Sound.relock {s : State ι} (hs : Sound cfg s) {p : ι} {owner : Option ι} {phase : Phase}
    (hphase : PhaseSound cfg p { s.shared with owner := owner } phase)
    (hother : ∀ q, q ≠ p → s.shared.owner = some q → owner = some q) :
    Sound cfg ⟨{ s.shared with owner := owner }, s.cache, Function.update s.phase p phase⟩ where
  readable := hs.readable
  stamp_lt := hs.stamp_lt
  phase := by
    intro q
    dsimp only
    by_cases hq : q = p
    · subst hq
      rw [Function.update_self]
      exact hphase
    · rw [Function.update_of_ne hq]
      exact (hs.phase q).other fun howner => ⟨hother q hq howner, rfl⟩
  cached_lt := hs.cached_lt
  cached := hs.cached
  issued := hs.issued
  origin := hs.origin

/-- **A step of a command keeps all that holds, and carries the records.** -/
theorem Sound.commandStep {s : State ι} (hs : Sound cfg s) {p : ι} {move : Move} {shared' : Shared ι}
    {phase' : Phase} (h : commandStep cfg p s.shared (s.phase p) move = some (shared', phase')) :
    Sound cfg ⟨shared', s.cache, Function.update s.phase p phase'⟩ ∧
      Carries (held cfg s.shared.node) (held cfg shared'.node) := by
  have hgood := hs.readable.good
  cases commandStep_cases (hs.phase p) h with
  | same _ hphase =>
      exact ⟨hs.relock hphase fun _ _ howner => howner, .of_get_eq fun _ => rfl⟩
  | took command hcommand hfree =>
      refine ⟨hs.relock ⟨hcommand, rfl⟩ fun q _ howner => ?_, .of_get_eq fun _ => rfl⟩
      rw [hfree] at howner
      cases howner
  | gave =>
      refine ⟨hs.relock trivial fun q hq howner => ?_, .of_get_eq fun _ => rfl⟩
      rw [howner, if_neg fun heq => hq (Option.some.inj heq)]
  | minted minting keyId secret now howner hkey hsecret hnew hruled =>
      have hcarries : Carries (held cfg s.shared.node)
          (setRecord (held cfg s.shared.node) (minting.record keyId now (cfg.digest secret))) :=
        carries_new hnew
      refine hs.replace howner (hgood.setRecord hruled) hcarries ?_ ?_
      · intro entry hentry hfresh
        rcases List.mem_append.1 hentry with hold | hlast
        · exact absurd hold hfresh
        · obtain rfl := List.mem_singleton.1 hlast
          have hget := (get_upsert (fun _ => minting.record keyId now (cfg.digest secret)) keyId keyId
            (held cfg s.shared.node)).trans (if_pos rfl)
          exact ⟨hkey, ⟨secret, hsecret, rfl, rfl⟩, _, hget, rfl⟩
      · intro other record hrecord
        rw [setRecord, get_upsert] at hrecord
        split_ifs at hrecord with hother
        · obtain rfl := Option.some.inj hrecord
          exact ⟨_, List.mem_append_right _ (List.mem_singleton_self _), hother, rfl⟩
        · obtain ⟨entry, hentry, hid, hkept⟩ := hs.origin other record hrecord
          exact ⟨entry, List.mem_append_left _ hentry, hid, hkept⟩
  | revoked keyId record now howner hrecord hlive =>
      obtain ⟨rfl, hruled⟩ := hgood.of_get hrecord
      have hcarries := carries_revoked hrecord hlive now
      refine hs.replace howner (hgood.setRecord (hruled.revoke now)) hcarries
        (fun entry hentry hfresh => absurd hentry hfresh) ?_
      intro other kept hkept
      rw [setRecord, get_upsert] at hkept
      split_ifs at hkept with hother
      · obtain rfl := Option.some.inj hkept
        obtain ⟨entry, hentry, hid, hsame⟩ := hs.origin _ _ hrecord
        exact ⟨entry, hentry, hid.trans hother, hsame.trans rfl⟩
      · exact hs.origin other kept hkept

omit [DecidableEq ι] in
/-- **What the engine takes from its cache or from the file is what the file has.** -/
theorem Sound.load_ok {s : State ι} (hs : Sound cfg s) {place : Place} {now : ℤ} {records : Records}
    (h : (load cfg place now s.shared.node s.cache).1 = .ok records) :
    records = held cfg s.shared.node := by
  have hcases := load_cases cfg place now s.shared.node s.cache
  revert h
  generalize load cfg place now s.shared.node s.cache = answer at hcases
  intro h
  cases hcases with
  | refused error => cases h
  | absent hnode => rw [hnode]; exact (Except.ok.inj h).symm
  | kept stamp own text found hnode hstamp hrecords =>
      obtain rfl := Except.ok.inj h
      rw [hnode, held_of_parse (hs.cached _ _ _ _ hstamp hrecords hnode)]
  | parsed stamp own text found hnode hparse =>
      rw [hnode, held_of_parse hparse]
      exact (Except.ok.inj h).symm

omit [DecidableEq ι] in
/-- The engine's reading keeps all that holds. -/
theorem Sound.read {s : State ι} (hs : Sound cfg s) (place : Place) (now : ℤ) :
    Sound cfg { s with cache := (load cfg place now s.shared.node s.cache).2 } := by
  have hcases := load_cases cfg place now s.shared.node s.cache
  generalize load cfg place now s.shared.node s.cache = answer at hcases
  suffices hcache : (∀ stamp, answer.2.stamp = some stamp → stamp < s.shared.nextStamp) ∧
      ∀ stamp records own text, answer.2.stamp = some stamp → answer.2.records = some records →
        s.shared.node = .file stamp own text → parse cfg text = .ok records from
    ⟨hs.readable, hs.stamp_lt, hs.phase, hcache.1, hcache.2, hs.issued, hs.origin⟩
  cases hcases with
  | refused error => exact ⟨hs.cached_lt, hs.cached⟩
  | absent => refine ⟨fun _ hstamp => ?_, fun _ _ _ _ hstamp => ?_⟩ <;> cases hstamp
  | kept => exact ⟨hs.cached_lt, hs.cached⟩
  | parsed stamp own text records hnode hparse =>
      refine ⟨fun stamp' hstamp => ?_, fun stamp' records' own' text' _ hrecords hnode' => ?_⟩
      · obtain rfl := Option.some.inj hstamp
        exact hs.stamp_lt _ _ _ hnode
      · obtain ⟨-, -, rfl⟩ := Node.file.inj (hnode.symm.trans hnode')
        obtain rfl := Option.some.inj hrecords
        exact hparse

omit [DecidableEq ι] in
/-- So does a change of the mode or the owner, which gives the file another stamp. -/
theorem Sound.chmod {s : State ι} (hs : Sound cfg s) (own : Bool) :
    Sound cfg { s with shared := worldStep s.shared (.chmod own) } ∧
      held cfg (worldStep s.shared (.chmod own)).node = held cfg s.shared.node := by
  unfold worldStep
  dsimp only
  split
  case h_2 => exact ⟨hs, rfl⟩
  case h_1 stamp own' text hnode =>
    have hheld : held cfg (.file s.shared.nextStamp own text) = held cfg s.shared.node := by
      rw [hnode]
      rfl
    refine ⟨?_, hheld⟩
    constructor
    case readable =>
      have hreadable := hs.readable
      rw [hnode] at hreadable
      exact hreadable
    case stamp_lt =>
      intro stamp' own' text' hnode'
      obtain ⟨rfl, -, -⟩ := Node.file.inj hnode'
      exact Nat.lt_succ_self _
    case phase => exact fun p => (hs.phase p).other fun howner => ⟨howner, hheld⟩
    case cached_lt => exact fun stamp' hstamp => Nat.lt_succ_of_lt (hs.cached_lt stamp' hstamp)
    case cached =>
      intro stamp' records own' text' hstamp _ hnode'
      obtain ⟨rfl, -, -⟩ := Node.file.inj hnode'
      exact absurd (hs.cached_lt _ hstamp) (Nat.lt_irrefl _)
    case issued =>
      intro entry hentry
      rw [hheld]
      exact hs.issued entry hentry
    case origin =>
      intro keyId record hrecord
      rw [hheld] at hrecord
      exact hs.origin keyId record hrecord

/-- **Every step keeps all that holds, and carries the records.** -/
theorem Sound.step {s t : State ι} (hs : Sound cfg s) {action : Action ι}
    (hleaves : LeavesText s action) (h : step cfg s action = some t) :
    Sound cfg t ∧ Carries (held cfg s.shared.node) (held cfg t.shared.node) := by
  cases action with
  | command p move =>
      obtain ⟨⟨shared', phase'⟩, hstep, rfl⟩ := Option.map_eq_some_iff.1 h
      exact hs.commandStep hstep
  | read place now =>
      obtain rfl := Option.some.inj h
      exact ⟨hs.read place now, .of_get_eq fun _ => rfl⟩
  | world change =>
      obtain rfl := Option.some.inj h
      cases change with
      | chmod own =>
          obtain ⟨hsound, hheld⟩ := hs.chmod own
          refine ⟨hsound, .of_get_eq fun _ => ?_⟩
          dsimp only
          rw [hheld]
      | _ => exact hleaves.elim

/-- What holds from the start holds after every run. -/
theorem sound_run {start s : State ι} (hstart : Initial start) {actions : List (Action ι)}
    (hleaves : StepsMeet (step cfg) LeavesText start actions)
    (hrun : run (step cfg) start actions = some s) : Sound cfg s :=
  hleaves.invariant (Sound cfg) (fun _ _ _ hs hmeets hstep => (hs.step hmeets hstep).1) hstart.sound
    (List.append_nil _).symm hrun

/-- The records are carried along every run. -/
theorem Sound.carries_run {s t : State ι} (hs : Sound cfg s) {actions : List (Action ι)}
    (hleaves : StepsMeet (KeyFile.step cfg) LeavesText s actions)
    (hrun : run (KeyFile.step cfg) s actions = some t) :
    Sound cfg t ∧ Carries (held cfg s.shared.node) (held cfg t.shared.node) := by
  refine hleaves.invariant
    (fun u => Sound cfg u ∧ Carries (held cfg s.shared.node) (held cfg u.shared.node))
    ?_ ⟨hs, .of_get_eq fun _ => rfl⟩ (List.append_nil _).symm hrun
  rintro u action v ⟨hu, hcarries⟩ hmeets hstep
  obtain ⟨hv, hcarries'⟩ := hu.step hmeets hstep
  exact ⟨hv, hcarries.trans hcarries'⟩

/-- **Over every run, no key is lost from the file and no revocation is undone.** -/
theorem keys_are_kept {start s t : State ι} (hstart : Initial start) {before after : List (Action ι)}
    (hleaves : StepsMeet (step cfg) LeavesText start (before ++ after))
    (hbefore : run (step cfg) start before = some s) (hafter : run (step cfg) s after = some t) :
    (∀ token record, (token, record) ∈ s.shared.issued →
      ∃ kept, get (held cfg t.shared.node) record.keyId = some kept ∧ SameKey record kept) ∧
    ∀ keyId old, get (held cfg s.shared.node) keyId = some old →
      ∃ new, get (held cfg t.shared.node) keyId = some new ∧ SameKey old new ∧
        (old.live = false → new = old) := by
  have hs := sound_run hstart hleaves.left hbefore
  have hcarries := (hs.carries_run (hleaves.right hbefore) hafter).2
  exact ⟨fun token record hissued => ((hs.issued _ hissued).mono hcarries).kept, hcarries⟩

/-- Settings with one secret's digest. -/
def plainSettings : Settings where
  operatorIdentity := "owner".toList
  reservedPrincipals := ["owner", "operator", "api-user", "claude-code-hook", "audit"].map String.toList
  harvestDepositors := ["claude-code-hook", "audit"].map String.toList
  digest secret :=
    if secret = List.replicate 43 'A' then
      "0f007385b6f9d4b7eeb2748605afe1a984a0a3bfa3f014d09e2a784ce9e5cd1a"
    else ""
  namesAProject project := project ≠ ""
  hidesACharacter _ := false
  lookalikeReason _ := none
  canonicalProjectKey project := project
  canonical_idem _ := rfl
  hides_refused _ _ := rfl

/-- There is no key file, and no command has begun. -/
def noKeys : State ℕ := ⟨⟨.absent, 0, none, []⟩, {}, fun _ => .idle⟩

theorem initial_noKeys : Initial noKeys := ⟨rfl, rfl, rfl, rfl, fun _ => rfl⟩

/-- The id of the first key. -/
def firstId : Text := "0123456789ab".toList

/-- A key is minted while another command waits, and the engine reads the file. -/
def mintFirst : List (Action ℕ) :=
  [.command 0 (.beginMint { role := .AGENT, principal := " laptop".toList }),
    .command 1 (.beginRevoke firstId), .command 0 (.flock true true), .command 0 (.load {} 0),
    .command 0 (.write firstId (List.replicate 43 'A') "2026-01-01T00:00:00+00:00" true),
    .read {} 5, .command 0 .unlock]

/-- The other command revokes it. -/
def revokeFirst : List (Action ℕ) :=
  [.command 1 (.flock true true), .world (.chmod true), .command 1 (.load {} 0),
    .command 1 (.write [] [] "2026-01-02T00:00:00+00:00" true), .command 1 .crash]

theorem leavesText_first : StepsMeet (step plainSettings) LeavesText noKeys (mintFirst ++ revokeFirst) := by
  intro before action after s hactions _
  have hmem : action ∈ mintFirst ++ revokeFirst := by
    rw [hactions]
    exact List.mem_append_right _ List.mem_cons_self
  revert hmem
  simp only [mintFirst, revokeFirst, List.cons_append, List.nil_append, List.mem_cons,
    List.not_mem_nil, or_false]
  rintro (rfl | rfl | rfl | rfl | rfl | rfl | rfl | rfl | rfl | rfl | rfl | rfl) <;> trivial

set_option maxRecDepth 4000 in
theorem minted_key_kept :
    ∃ s t, run (step plainSettings) noKeys mintFirst = some s ∧
      run (step plainSettings) s revokeFirst = some t ∧
      ∃ kept, get (held plainSettings t.shared.node) firstId = some kept ∧
        kept.principal = "laptop".toList := by
  obtain ⟨s, hs⟩ : ∃ s, run (step plainSettings) noKeys mintFirst = some s := ⟨_, rfl⟩
  obtain ⟨t, ht⟩ : ∃ t, run (step plainSettings) s revokeFirst = some t := by
    obtain rfl := Option.some.inj hs
    exact ⟨_, rfl⟩
  obtain ⟨text, record, hissued, hid, hname⟩ : ∃ text record, (text, record) ∈ s.shared.issued ∧
      record.keyId = firstId ∧ record.principal = "laptop".toList := by
    obtain rfl := Option.some.inj hs
    exact ⟨_, _, List.mem_singleton_self _, rfl, rfl⟩
  obtain ⟨kept, hkept, hsame⟩ := (keys_are_kept initial_noKeys leavesText_first hs ht).1 _ _ hissued
  rw [hid] at hkept
  refine ⟨s, t, hs, ht, kept, hkept, ?_⟩
  rw [hsame]
  exact hname

end KeyFile
end ParticlesEngine
