/-
**The engine's key file.**

A per-client key is `ptk_<role>_<id>_<secret>`.  The key file has one record for each: the principal
and the role it stands for, and the digest of its secret.  `keys create` and `keys revoke` read the
whole file and write it back whole, under a lock on a file beside it, by a rename; the engine reads it
on every request and keeps what it read as long as the stamp of the file is the same and the copy is
young.  Any number of commands run at once, each a step at a time, beside the engine and beside others
who may change the file.

Main definitions:

* `Role`, `token`, `parseToken` — a key as its holder has it;
* `KeyRecord`, `checkMint`, `recordRuleRefusal` — a key as the file has it, and the rules for it;
* `FileText`, `parse`, `serialise` — the file as the engine reads it, and as the commands write it;
* `Cache`, `load`, `lookup`, `hasLiveKeys` — the engine's reading of the file;
* `Phase`, `commandStep`, `step` — the commands, the engine and the world, one step after another.

Main results:

* `normalisedRoot_normalised`, `strip_strip` — what is normalised once stays as it is;
* `parseToken_token` — a token reads back as what it was made of.
-/

import ParticlesEngine.MergedDict
import ParticlesEngine.FirstByKey
import ParticlesEngine.Runs
import Mathlib.Data.List.DropRight
import Mathlib.Data.List.Sort

set_option relaxedAutoImplicit false
set_option autoImplicit false

namespace ParticlesEngine
namespace KeyFile

open MergedDict

/-- A text, as its characters. -/
abbrev Text := List Char

/-! ### Tokens -/

/-- The closed role set. -/
inductive Role where
  | READER
  | AGENT
  | OPERATOR
  deriving DecidableEq, Repr

/-- `ROLE_PREFIX`. -/
def Role.spelling : Role → Text
  | READER => "read".toList
  | AGENT => "agent".toList
  | OPERATOR => "op".toList

/-- `KEY_PREFIX`. -/
def KEY_PREFIX : Text := "ptk_".toList

/-- A lowercase hexadecimal digit. -/
def isHex (c : Char) : Bool := ('0' ≤ c && c ≤ '9') || ('a' ≤ c && c ≤ 'f')

/-- A character of base64url. -/
def isBase64Url (c : Char) : Bool :=
  ('A' ≤ c && c ≤ 'Z') || ('a' ≤ c && c ≤ 'z') || ('0' ≤ c && c ≤ '9') || c = '_' || c = '-'

/-- `token_hex(6)` looks like this. -/
def IsKeyId (keyId : Text) : Prop := keyId.length = 12 ∧ keyId.all isHex

/-- And 32 random bytes in base64url without padding like this. -/
def IsSecret (secret : Text) : Prop := secret.length = 43 ∧ secret.all isBase64Url

instance (keyId : Text) : Decidable (IsKeyId keyId) := inferInstanceAs (Decidable (_ ∧ _))

instance (secret : Text) : Decidable (IsSecret secret) := inferInstanceAs (Decidable (_ ∧ _))

/-- The token that `keys create` shows once. -/
def token (role : Role) (keyId secret : Text) : Text :=
  KEY_PREFIX ++ (role.spelling ++ '_' :: (keyId ++ '_' :: secret))

/-- What comes after a given beginning. -/
def after? (start text : Text) : Option Text :=
  if start.isPrefixOf text then some (text.drop start.length) else none

/-- The end anchor of a pattern also matches before a newline that ends the text. -/
def withoutNewline (text : Text) : Text :=
  if text.getLast? = some '\n' then text.dropLast else text

/-- The id and the secret, once the role is read. -/
def parseBody (role : Role) (body : Text) : Option (Role × Text × Text) :=
  match body.drop 12 with
  | '_' :: rest =>
    if IsKeyId (body.take 12) ∧ IsSecret (withoutNewline rest) then
      some (role, body.take 12, withoutNewline rest)
    else none
  | _ => none

/-- `parse_token`. -/
def parseToken (text : Text) : Option (Role × Text × Text) :=
  (after? KEY_PREFIX text).bind fun rest =>
    [Role.READER, .AGENT, .OPERATOR].findSome? fun role =>
      (after? (role.spelling ++ ['_']) rest).bind (parseBody role)

/-- No spelling of a role begins with another. -/
theorem after?_spelling (role other : Role) (rest : Text) :
    after? (other.spelling ++ ['_']) (role.spelling ++ '_' :: rest) =
      if other = role then some rest else none := by
  cases role <;> cases other <;> rfl

theorem withoutNewline_secret {secret : Text} (h : IsSecret secret) :
    withoutNewline secret = secret := by
  refine if_neg fun hlast => ?_
  have hchar := List.all_eq_true.1 h.2 _ (List.mem_of_getLast? hlast)
  revert hchar
  decide

/-- **A token reads back as what it was made of.** -/
theorem parseToken_token (role : Role) {keyId secret : Text} (hkey : IsKeyId keyId)
    (hsecret : IsSecret secret) : parseToken (token role keyId secret) = some (role, keyId, secret) := by
  have hstart : after? KEY_PREFIX (token role keyId secret) =
      some (role.spelling ++ '_' :: (keyId ++ '_' :: secret)) := rfl
  have hbody : parseBody role (keyId ++ '_' :: secret) = some (role, keyId, secret) := by
    have htake : (keyId ++ '_' :: secret).take 12 = keyId := by
      rw [← hkey.1, List.take_left]
    have hdrop : (keyId ++ '_' :: secret).drop 12 = '_' :: secret := by
      rw [← hkey.1, List.drop_left]
    unfold parseBody
    rw [hdrop, htake]
    change (if IsKeyId keyId ∧ IsSecret (withoutNewline secret) then
      some (role, keyId, withoutNewline secret) else none) = _
    rw [withoutNewline_secret hsecret, if_pos ⟨hkey, hsecret⟩]
  unfold parseToken
  rw [hstart, Option.bind_some]
  simp only [List.findSome?_cons, List.findSome?_nil, after?_spelling]
  cases role <;> simp [hbody]

/-! ### Texts -/

/-- The characters that `str.strip` takes off. -/
def isSpace (c : Char) : Bool :=
  let n := c.toNat
  (9 ≤ n && n ≤ 13) || (28 ≤ n && n ≤ 32) || n = 133 || n = 160 || n = 5760 ||
    (8192 ≤ n && n ≤ 8202) || n = 8232 || n = 8233 || n = 8239 || n = 8287 || n = 12288

/-- `str.strip`. -/
def strip (text : Text) : Text := (text.dropWhile isSpace).rdropWhile isSpace

/-- **What is stripped once stays as it is.** -/
theorem strip_strip (text : Text) : strip (strip text) = strip text := by
  have hfront : (strip text).dropWhile isSpace = strip text := by
    obtain ⟨rest, hrest⟩ := List.rdropWhile_prefix isSpace (text.dropWhile isSpace)
    change strip text ++ rest = _ at hrest
    cases hstrip : strip text with
    | nil => rfl
    | cons c kept =>
        refine List.dropWhile_cons_of_neg fun hc => ?_
        have hself := List.dropWhile_idempotent isSpace text
        rw [← hrest, hstrip, List.cons_append, List.dropWhile_cons_of_pos hc] at hself
        have hle := (List.dropWhile_sublist isSpace (l := kept ++ rest)).length_le
        rw [hself, List.length_cons] at hle
        omega
  rw [strip, hfront, strip]
  exact List.rdropWhile_idempotent _ _

/-- `path.split("/")`. -/
def splitSlash : Text → List Text
  | [] => [[]]
  | c :: rest =>
    if c = '/' then [] :: splitSlash rest
    else
      match splitSlash rest with
      | [] => [[c]]
      | first :: more => (c :: first) :: more

/-- A slash before each segment. -/
def joinSlash (segments : List Text) : Text := segments.flatMap fun segment => '/' :: segment

/-- No segment has a slash in it. -/
theorem not_mem_splitSlash {segment : Text} : ∀ {text : Text}, segment ∈ splitSlash text →
    '/' ∉ segment := by
  intro text
  induction text generalizing segment with
  | nil =>
      intro h
      rw [List.mem_singleton.1 h]
      exact List.not_mem_nil
  | cons c rest ih =>
      intro h
      unfold splitSlash at h
      split_ifs at h with hc
      · rcases List.mem_cons.1 h with rfl | h
        · exact List.not_mem_nil
        · exact ih h
      · split at h
        case h_1 =>
          rw [List.mem_singleton.1 h, List.mem_singleton]
          exact fun heq => hc heq.symm
        case h_2 first more hrest =>
          rcases List.mem_cons.1 h with rfl | h
          · rw [List.mem_cons, not_or]
            exact ⟨fun heq => hc heq.symm, ih (hrest ▸ List.mem_cons_self)⟩
          · exact ih (hrest ▸ List.mem_cons_of_mem _ h)

/-- A segment, and then the segments that were joined behind it. -/
theorem splitSlash_append {segments : List Text} (hsegments : ∀ segment ∈ segments, '/' ∉ segment) :
    ∀ {first : Text}, '/' ∉ first → splitSlash (first ++ joinSlash segments) = first :: segments := by
  induction segments with
  | nil =>
      intro first hfirst
      rw [joinSlash, List.flatMap_nil, List.append_nil]
      induction first with
      | nil => rfl
      | cons c rest ih =>
          rw [List.mem_cons, not_or] at hfirst
          rw [splitSlash, if_neg (Ne.symm hfirst.1), ih hfirst.2]
  | cons segment segments ih =>
      intro first hfirst
      have hrest := ih (fun s hs => hsegments s (List.mem_cons_of_mem _ hs))
        (hsegments segment List.mem_cons_self)
      induction first with
      | nil =>
          change splitSlash ('/' :: (segment ++ joinSlash segments)) = _
          rw [splitSlash, if_pos rfl, hrest]
      | cons c rest ih' =>
          rw [List.mem_cons, not_or] at hfirst
          rw [List.cons_append, splitSlash, if_neg (Ne.symm hfirst.1), ih' hfirst.2]

/-- Why a directory is not recorded as a root. -/
inductive RootError where
  | notAbsolute
  | controlCharacter
  | filesystemRoot
  | emptySegment
  deriving DecidableEq, Repr

/-- A segment that a normalised path does not have. -/
def isOddSegment (segment : Text) : Bool := segment = [] || segment = ['.'] || segment = ['.', '.']

/-- A control character. -/
def isControl (c : Char) : Bool := c.toNat < 32 || c.toNat = 127

/-- `normalised_root`. -/
def normalisedRoot (raw : Text) : Except RootError Text :=
  if raw.head? ≠ some '/' then .error .notAbsolute
  else if raw.any isControl then .error .controlCharacter
  else
    let segments := (splitSlash raw).tail
    let segments := if segments.getLast? = some [] then segments.dropLast else segments
    if segments = [] then .error .filesystemRoot
    else if segments.any isOddSegment then .error .emptySegment
    else .ok (joinSlash segments)

/-- The characters of a segment are characters of the path. -/
theorem mem_of_mem_splitSlash {c : Char} {segment : Text} : ∀ {text : Text},
    segment ∈ splitSlash text → c ∈ segment → c ∈ text := by
  intro text
  induction text generalizing segment with
  | nil =>
      intro h hc
      rw [List.mem_singleton.1 h] at hc
      exact hc
  | cons d rest ih =>
      intro h hc
      unfold splitSlash at h
      split_ifs at h
      · rcases List.mem_cons.1 h with rfl | h
        · exact absurd hc List.not_mem_nil
        · exact List.mem_cons_of_mem _ (ih h hc)
      · split at h
        case h_1 =>
          rw [List.mem_singleton.1 h, List.mem_singleton] at hc
          exact hc ▸ List.mem_cons_self
        case h_2 first more hrest =>
          rcases List.mem_cons.1 h with rfl | h
          · rcases List.mem_cons.1 hc with rfl | hc
            · exact List.mem_cons_self
            · exact List.mem_cons_of_mem _ (ih (hrest ▸ List.mem_cons_self) hc)
          · exact List.mem_cons_of_mem _ (ih (hrest ▸ List.mem_cons_of_mem _ h) hc)

/-- What a path has that is its own normal form. -/
structure NormalSegments (segments : List Text) : Prop where
  ne_nil : segments ≠ []
  no_slash : ∀ segment ∈ segments, '/' ∉ segment
  no_odd : segments.any isOddSegment = false
  no_control : ∀ segment ∈ segments, ∀ c ∈ segment, isControl c = false

/-- Segments of a path that are kept are normal, if none is odd. -/
theorem normalSegments_of_subset {raw : Text} {segments : List Text}
    (hcontrol : ¬raw.any isControl = true) (hsub : segments ⊆ splitSlash raw) (hne : segments ≠ [])
    (hodd : ¬segments.any isOddSegment = true) : NormalSegments segments where
  ne_nil := hne
  no_slash := fun _ hsegment => not_mem_splitSlash (hsub hsegment)
  no_odd := Bool.eq_false_of_not_eq_true hodd
  no_control := by
    intro segment hsegment c hc
    rw [List.any_eq_true, not_exists] at hcontrol
    exact Bool.eq_false_of_not_eq_true fun h =>
      hcontrol c ⟨mem_of_mem_splitSlash (hsub hsegment) hc, h⟩

theorem normalSegments_of_ok {raw root : Text} (h : normalisedRoot raw = .ok root) :
    ∃ segments, root = joinSlash segments ∧ NormalSegments segments := by
  unfold normalisedRoot at h
  split_ifs at h with hhead hcontrol
  dsimp only at h
  have htail : (splitSlash raw).tail ⊆ splitSlash raw := fun _ => List.mem_of_mem_tail
  split_ifs at h with hlast hempty hodd hempty hodd
  · exact ⟨_, (Except.ok.inj h).symm, normalSegments_of_subset hcontrol
      (fun _ hs => htail (List.dropLast_subset _ hs)) hempty hodd⟩
  · exact ⟨_, (Except.ok.inj h).symm, normalSegments_of_subset hcontrol htail hempty hodd⟩

theorem normalisedRoot_joinSlash {segments : List Text} (h : NormalSegments segments) :
    normalisedRoot (joinSlash segments) = .ok (joinSlash segments) := by
  have hsplit : splitSlash (joinSlash segments) = [] :: segments := by
    have := @splitSlash_append segments h.no_slash [] List.not_mem_nil
    exact this
  have hhead : (joinSlash segments).head? = some '/' := by
    cases segments with
    | nil => exact absurd rfl h.ne_nil
    | cons segment segments => rfl
  have hcontrol : ¬(joinSlash segments).any isControl = true := by
    rw [List.any_eq_true]
    rintro ⟨c, hc, hcontrol⟩
    obtain ⟨segment, hsegment, hc⟩ := List.mem_flatMap.1 hc
    rcases List.mem_cons.1 hc with rfl | hc
    · revert hcontrol
      decide
    · rw [h.no_control segment hsegment c hc] at hcontrol
      cases hcontrol
  have hlast : ¬segments.getLast? = some [] := by
    intro hlast
    have hodd := List.any_eq_false.1 h.no_odd [] (List.mem_of_getLast? hlast)
    exact hodd rfl
  have hodd : ¬segments.any isOddSegment = true := by
    rw [h.no_odd]
    exact Bool.false_ne_true
  unfold normalisedRoot
  rw [if_neg fun hne => hne hhead, if_neg hcontrol, hsplit]
  dsimp only [List.tail_cons]
  rw [if_neg hlast, if_neg h.ne_nil, if_neg hodd]

/-- **A normalised path is its own normal form.** -/
theorem normalisedRoot_normalised {raw root : Text} (h : normalisedRoot raw = .ok root) :
    normalisedRoot root = .ok root := by
  obtain ⟨segments, rfl, hnormal⟩ := normalSegments_of_ok h
  exact normalisedRoot_joinSlash hnormal

/-! ### Records -/

/-- One key as the file stores it. -/
structure KeyRecord where
  keyId : Text
  principal : Text
  role : Role
  project : Option String
  label : Option String
  createdAt : String
  revokedAt : Option String
  digest : String
  reservedOk : Bool := false
  memoryRoots : Option (List Text) := none
  archiveRoots : Option (List Text) := none
  deriving DecidableEq

/-- `KeyRecord.live`. -/
def KeyRecord.live (record : KeyRecord) : Bool := record.revokedAt.isNone

/-- The configuration, the digest, and the core package's reading of project names. -/
structure Settings where
  /-- `curation.operator_identity` -/
  operatorIdentity : Text
  /-- `reserved_principals()` -/
  reservedPrincipals : List Text
  /-- `HARVEST_DEPOSITORS` -/
  harvestDepositors : List Text
  /-- `_digest` -/
  digest : Text → String
  namesAProject : String → Bool
  hidesACharacter : String → Bool
  lookalikeReason : String → Option String
  canonicalProjectKey : String → String
  canonical_idem : ∀ project,
    canonicalProjectKey (canonicalProjectKey project) = canonicalProjectKey project
  /-- a hidden character is one of the lookalike rules -/
  hides_refused : ∀ project, lookalikeReason project = none → hidesACharacter project = false

section Rules

variable (cfg : Settings)

/-- `is_harvester`. -/
def isHarvester (role : Role) (principal : Text) : Bool :=
  role = .AGENT && cfg.harvestDepositors.contains principal

/-- Why `keys create` or `keys revoke` refuses. -/
inductive KeyRuleError where
  | blankPrincipal
  | notTheOperatorPrincipal
  | operatorsName
  | anonymousLabel
  | reservedName
  | projectRole
  | blankProject
  | lookalike (reason : String)
  | rootsRole
  | noRoots
  | root (raw : Text) (error : RootError)
  | unknownKey (keyId : Text)
  | lockHeld
  | notTheOwner
  deriving DecidableEq, Repr

/-- Refuse a name that the role may not hold. -/
def checkPrincipal (role : Role) (principal : Text) (reservedOk : Bool) : Except KeyRuleError Unit :=
  if principal = [] then .error .blankPrincipal
  else if role = .OPERATOR ∧ principal ≠ cfg.operatorIdentity then .error .notTheOperatorPrincipal
  else if role ≠ .OPERATOR ∧ (principal = cfg.operatorIdentity ∨ principal = "operator".toList) then
    .error .operatorsName
  else if principal = "api-user".toList then .error .anonymousLabel
  else if role ≠ .OPERATOR ∧ cfg.reservedPrincipals.contains principal ∧ ¬reservedOk then
    .error .reservedName
  else .ok ()

/-- Refuse a project that the role may not be bound to. -/
def checkProject (role : Role) : Option String → Except KeyRuleError Unit
  | none => .ok ()
  | some project =>
    if role ≠ .AGENT then .error .projectRole
    else if ¬cfg.namesAProject project then .error .blankProject
    else
      match cfg.lookalikeReason project with
      | some reason => .error (.lookalike reason)
      | none => .ok ()

/-- `check_mint`. -/
def checkMint (role : Role) (principal : Text) (project : Option String) (reservedOk : Bool) :
    Except KeyRuleError Unit := do
  checkPrincipal cfg role (strip principal) reservedOk
  checkProject cfg role project

/-- `_mint_roots`. -/
def mintRoots (role : Role) (principal : Text) :
    Option (List Text) → Except KeyRuleError (Option (List Text))
  | none => .ok none
  | some roots =>
    if ¬isHarvester cfg role principal then .error .rootsRole
    else if roots = [] then .error .noRoots
    else do
      let out ← roots.mapM fun raw => (normalisedRoot raw).mapError (.root raw)
      return some (FirstByKey.firstByKey id [] out)

/-- `unacknowledged_reserved`. -/
def unacknowledgedReserved (record : KeyRecord) : Bool :=
  record.role ≠ .OPERATOR && !record.reservedOk && cfg.reservedPrincipals.contains record.principal

/-- The rule that a record breaks. -/
inductive Refusal where
  | paddedPrincipal
  | operatorRole
  | operatorsName
  | anonymousLabel
  | projectRole
  | rootsRole
  | emptyRoots
  | rootForm (root : Text)
  deriving DecidableEq, Repr

/-- The rules for one of the two root fields. -/
def rootsRefusal (record : KeyRecord) : Option (List Text) → Option Refusal
  | none => none
  | some roots =>
    if ¬isHarvester cfg record.role record.principal then some .rootsRole
    else if roots = [] then some .emptyRoots
    else (roots.find? fun root => (normalisedRoot root).toOption ≠ some root).map .rootForm

/-- `record_rule_refusal`. -/
def recordRuleRefusal (record : KeyRecord) : Option Refusal :=
  if strip record.principal = [] ∨ strip record.principal ≠ record.principal then
    some .paddedPrincipal
  else if record.role = .OPERATOR ∧ record.principal ≠ cfg.operatorIdentity then some .operatorRole
  else if record.role ≠ .OPERATOR ∧
      (record.principal = cfg.operatorIdentity ∨ record.principal = "operator".toList) then
    some .operatorsName
  else if record.principal = "api-user".toList then some .anonymousLabel
  else if record.project.isSome ∧ record.role ≠ .AGENT then some .projectRole
  else (rootsRefusal cfg record record.memoryRoots).or (rootsRefusal cfg record record.archiveRoots)

end Rules

/-! ### The file -/

/-- The records by key id, in the order of the dictionary. -/
abbrev Records := List (Text × KeyRecord)

/-- What the bytes of a file are: the records of a key file, or anything else. -/
inductive FileText where
  | listing (items : List KeyRecord)
  | malformed

/-- Why the key file cannot be trusted. -/
inductive KeyFileUnusable where
  | unsafeDirectory
  | gone
  | isLink
  | unreadable
  | notRegular
  | ownersIgnored
  | notPrivate
  | unparseable
  | lockFile
  deriving DecidableEq, Repr

section File

variable (cfg : Settings)

/-- The project of a record as it is read: in its canonical spelling, if it is one. -/
def parseItem (item : KeyRecord) : Option KeyRecord :=
  match item.project with
  | none => some item
  | some project =>
    if ¬cfg.namesAProject project ∨ cfg.hidesACharacter project then none
    else some { item with project := some (cfg.canonicalProjectKey project) }

/-- `_parse`. -/
def parse : FileText → Except KeyFileUnusable Records
  | .malformed => .error .unparseable
  | .listing items =>
    match items.mapM (parseItem cfg) with
    | none => .error .unparseable
    | some records => .ok (combine (fun _ new => new) (records.map fun record => (record.keyId, record)))

end File

/-- `_serialise`. -/
def serialise (records : Records) : FileText :=
  .listing ((records.map Prod.snd).insertionSort fun a b => a.createdAt ≤ b.createdAt)

/-- What the path of the key file names. -/
inductive Node where
  | absent
  | isLink
  | special
  /-- a file, with the stamp that its inode, size, times, mode and owner make, and whether it is
  the engine's own and private -/
  | file (stamp : ℕ) (own : Bool) (text : FileText)

/-- What the directories and the volume are found to be. -/
structure Place where
  /-- `_check_dir_safe` passes -/
  dirSafe : Bool := true
  /-- the path can be looked at -/
  reachable : Bool := true
  ownersIgnored : Bool := false

/-- `_cache`, and whether the path is among `_seen_with_keys`. -/
structure Cache where
  stamp : Option ℕ := none
  readAt : ℤ := 0
  records : Option Records := none
  seen : Bool := false

/-- `_RELOAD_SECONDS`, in microseconds. -/
def reloadTime : ℤ := 10000000

/-- Whether any of the records is unrevoked. -/
def anyLive (records : Records) : Bool := records.any fun entry => entry.2.live

section Reading

variable (cfg : Settings)

/-- `_load`: what it answers, and the cache it leaves. -/
def load (place : Place) (now : ℤ) (node : Node) (cache : Cache) :
    Except KeyFileUnusable Records × Cache :=
  match node with
  | .absent =>
    if ¬place.dirSafe ∧ (cache.seen ∨ ¬place.reachable) then (.error .unsafeDirectory, cache)
    else if place.dirSafe ∧ ¬place.reachable then (.error .unreadable, cache)
    else if cache.seen then (.error .gone, cache)
    else (.ok [], { cache with stamp := none, records := some [] })
  | .isLink =>
    if ¬place.dirSafe then (.error .unsafeDirectory, cache) else (.error .isLink, cache)
  | .special =>
    if ¬place.dirSafe then (.error .unsafeDirectory, cache) else (.error .notRegular, cache)
  | .file stamp own text =>
    if ¬place.dirSafe then (.error .unsafeDirectory, cache)
    else if ¬place.reachable then (.error .unreadable, cache)
    else if place.ownersIgnored then (.error .ownersIgnored, cache)
    else if ¬own then (.error .notPrivate, cache)
    else
      match cache.records with
      | some records =>
        if cache.stamp = some stamp ∧ now - cache.readAt < reloadTime then (.ok records, cache)
        else reread stamp text
      | none => reread stamp text
where
  /-- The file is read and parsed. -/
  reread (stamp : ℕ) (text : FileText) : Except KeyFileUnusable Records × Cache :=
    match parse cfg text with
    | .error error => (.error error, cache)
    | .ok records => (.ok records, ⟨some stamp, now, some records, cache.seen || anyLive records⟩)

/-- The record that a token authenticates, among the records of the file. -/
def lookupIn (records : Records) (role : Role) (keyId secret : Text) : Option KeyRecord :=
  match get records keyId with
  | none => none
  | some record =>
    if ¬record.live then none
    else if record.digest ≠ cfg.digest secret then none
    -- a key whose prefix disagrees with its record was not minted here
    else if record.role ≠ role then none
    else if unacknowledgedReserved cfg record then none
    else if (recordRuleRefusal cfg record).isSome then none
    else some record

/-- `lookup`. -/
def lookup (place : Place) (now : ℤ) (node : Node) (cache : Cache) (text : Text) :
    Except KeyFileUnusable (Option KeyRecord) × Cache :=
  match parseToken text with
  | none => (.ok none, cache)
  | some (role, keyId, secret) =>
    let (records, cache) := load cfg place now node cache
    (records.map fun records => lookupIn cfg records role keyId secret, cache)

/-- `has_live_keys`: an unusable file counts as holding keys. -/
def hasLiveKeys (place : Place) (now : ℤ) (node : Node) (cache : Cache) : Bool × Cache :=
  match load cfg place now node cache with
  | (.error _, cache) => (true, cache)
  | (.ok records, cache) => (anyLive records || cache.seen, cache)

end Reading

/-! ### Commands -/

/-- What `keys create` is asked for. -/
structure MintRequest where
  role : Role
  principal : Text
  project : Option String := none
  label : Option String := none
  reservedOk : Bool := false
  memoryRoots : Option (List Text) := none
  archiveRoots : Option (List Text) := none

/-- What `mint` has in hand when it takes the lock: all of the record but its id, its times and its
digest. -/
structure Minting where
  role : Role
  principal : Text
  project : Option String
  label : Option String
  reservedOk : Bool
  memoryRoots : Option (List Text)
  archiveRoots : Option (List Text)

/-- The record of a new key. -/
def Minting.record (minting : Minting) (keyId : Text) (createdAt digest : String) : KeyRecord where
  keyId := keyId
  principal := minting.principal
  role := minting.role
  project := minting.project
  label := minting.label
  createdAt := createdAt
  revokedAt := none
  digest := digest
  reservedOk := minting.reservedOk
  memoryRoots := minting.memoryRoots
  archiveRoots := minting.archiveRoots

/-- The checks of `mint`, before it takes the lock. -/
def prepareMint (cfg : Settings) (request : MintRequest) : Except KeyRuleError Minting := do
  let principal := strip request.principal
  let project := request.project.map cfg.canonicalProjectKey
  checkMint cfg request.role principal project request.reservedOk
  let memory ← mintRoots cfg request.role principal request.memoryRoots
  let archive ← mintRoots cfg request.role principal request.archiveRoots
  return {
    role := request.role
    principal := principal
    project := project
    label := request.label
    reservedOk := request.role ≠ .OPERATOR && cfg.reservedPrincipals.contains principal
    memoryRoots := memory
    archiveRoots := archive }

/-- A command that has passed its checks. -/
inductive Command where
  | mint (minting : Minting)
  | revoke (keyId : Text)

/-- Where a process that runs one command stands. -/
inductive Phase where
  | idle
  | waiting (command : Command)
  /-- it has the lock, and reads the file next -/
  | holding (command : Command)
  | loaded (command : Command) (records : Records)
  /-- it has the lock, and nothing left to write -/
  | closing
  | done

/-- The steps of a process. -/
inductive Move where
  | beginMint (request : MintRequest)
  | beginRevoke (keyId : Text)
  /-- the place is judged, the lock file opened and judged, and the lock asked for -/
  | flock (dirSafe lockPrivate : Bool)
  | giveUp
  | load (place : Place) (now : ℤ)
  /-- the file is written whole and renamed into place, if this user may -/
  | write (keyId secret : Text) (now : String) (allowed : Bool)
  | unlock
  | crash

/-- The key file, its lock, and the tokens that were made, each with its record. -/
structure Shared (ι : Type) where
  node : Node
  /-- the stamp of the next file that is put in place -/
  nextStamp : ℕ
  owner : Option ι
  issued : List (Text × KeyRecord)

section Steps

variable {ι : Type} [DecidableEq ι] (cfg : Settings)

/-- `_write`: the file is replaced whole. -/
def Shared.replaceFile (shared : Shared ι) (records : Records) : Shared ι :=
  { shared with
    node := .file shared.nextStamp true (serialise records)
    nextStamp := shared.nextStamp + 1 }

/-- The lock is given back, if the process has it. -/
def Shared.release (shared : Shared ι) (p : ι) : Shared ι :=
  { shared with owner := if shared.owner = some p then none else shared.owner }

/-- `records[key_id] = record`. -/
def setRecord (records : Records) (record : KeyRecord) : Records :=
  upsert (fun _ => record) record.keyId records

/-- One step of a process; none where it does not have that step to take. -/
def commandStep (p : ι) (shared : Shared ι) : Phase → Move → Option (Shared ι × Phase)
  | .idle, .beginMint request =>
    match prepareMint cfg request with
    | .error _ => some (shared, .done)
    | .ok minting => some (shared, .waiting (.mint minting))
  | .idle, .beginRevoke keyId => some (shared, .waiting (.revoke keyId))
  | .waiting command, .flock dirSafe lockPrivate =>
    if ¬dirSafe ∨ ¬lockPrivate then some (shared, .done)
    else if shared.owner = none then some ({ shared with owner := some p }, .holding command)
    else none
  | .waiting _, .giveUp => some (shared, .done)
  | .holding command, .load place now =>
    match (load cfg place now shared.node {}).1 with
    | .error _ => some (shared, .closing)
    | .ok records => some (shared, .loaded command records)
  | .loaded (.mint minting) records, .write keyId secret now allowed =>
    -- an id that is taken is drawn again
    if IsKeyId keyId ∧ IsSecret secret ∧ get records keyId = none then
      let record := minting.record keyId now (cfg.digest secret)
      if allowed then
        some ({ shared.replaceFile (setRecord records record) with
            issued := shared.issued ++ [(token record.role keyId secret, record)] }, .closing)
      else some (shared, .closing)
    else none
  | .loaded (.revoke keyId) records, .write _ _ now allowed =>
    match get records keyId with
    | none => some (shared, .closing)
    | some record =>
      if record.live ∧ allowed then
        some (shared.replaceFile (setRecord records { record with revokedAt := some now }), .closing)
      else some (shared, .closing)
  | .closing, .unlock => some (shared.release p, .done)
  | _, .crash => some (shared.release p, .done)
  | _, _ => none

/-- The file, the engine's cache, and where every process stands. -/
structure State (ι : Type) where
  shared : Shared ι
  cache : Cache
  phase : ι → Phase

/-- What others do to the path of the key file. -/
inductive World where
  | remove
  | putLink
  | putSpecial
  | put (own : Bool) (text : FileText)
  /-- the mode or the owner changes -/
  | chmod (own : Bool)

/-- What happens next. -/
inductive Action (ι : Type) where
  | command (p : ι) (move : Move)
  /-- the engine reads the file, for a token or to see whether there are keys -/
  | read (place : Place) (now : ℤ)
  | world (change : World)

/-- What the path names after a change from outside, and the next stamp. -/
def worldStep (shared : Shared ι) : World → Shared ι
  | .remove => { shared with node := .absent }
  | .putLink => { shared with node := .isLink }
  | .putSpecial => { shared with node := .special }
  | .put own text =>
    { shared with node := .file shared.nextStamp own text, nextStamp := shared.nextStamp + 1 }
  | .chmod own =>
    match shared.node with
    | .file _ _ text =>
      { shared with node := .file shared.nextStamp own text, nextStamp := shared.nextStamp + 1 }
    | _ => shared

/-- One step of the whole. -/
def step (s : State ι) : Action ι → Option (State ι)
  | .command p move =>
    (commandStep cfg p s.shared (s.phase p) move).map fun (shared, phase) =>
      { s with shared := shared, phase := Function.update s.phase p phase }
  | .read place now => some { s with cache := (load cfg place now s.shared.node s.cache).2 }
  | .world change => some { s with shared := worldStep s.shared change }

end Steps

end KeyFile
end ParticlesEngine
