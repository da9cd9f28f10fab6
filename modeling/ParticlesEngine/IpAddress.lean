/-
**IP addresses and networks in text.**

An address is four decimal octets, or eight groups of hexadecimal digits of which one run of zero groups
may be left out, with an optional zone.  A network is an address with a prefix length or a mask.  The
definitions follow Python's `ipaddress`, down to what it refuses: leading zeros in an octet, a second
`::`, an empty zone.  This module names nothing of a particular program.

Main definitions:

* `Addr`, `ipAddress` — an address, and how a text is read as one;
* `Net`, `ipNetwork`, `Net.contains` — a network, and the addresses in it;
* `Addr.str`, `block64` — the text of an address, and of the network that its first half names.

Main results:

* `mem_strV4`, `mem_strV6` — the text of an address without its zone is digits and separators.
-/

import Mathlib.Algebra.Group.Nat.Defs
import Mathlib.Data.Char
import Mathlib.Data.List.Basic
import Mathlib.Data.Nat.Notation
import Mathlib.Tactic.SplitIfs
import Mathlib.Tactic.Common

set_option relaxedAutoImplicit false
set_option autoImplicit false

namespace IpAddress

/-- A text, as its characters. -/
abbrev Text := List Char

/-! ### Addresses -/

/-- An address. -/
inductive Addr where
  | v4 (value : BitVec 32)
  | v6 (value : BitVec 128) (scope : Option Text)
  deriving DecidableEq, Repr

/-- A hexadecimal digit, of either case. -/
def isHex (c : Char) : Bool :=
  c.isDigit || ('a' ≤ c && c ≤ 'f') || ('A' ≤ c && c ≤ 'F')

/-- The value of a hexadecimal digit. -/
def hexDigit (c : Char) : ℕ :=
  if c.isDigit then c.toNat - '0'.toNat
  else if 'a' ≤ c then c.toNat - 'a'.toNat + 10
  else c.toNat - 'A'.toNat + 10

/-- `int(text)` of ASCII digits. -/
def decimal (text : Text) : ℕ := text.foldl (fun n c => 10 * n + (c.toNat - '0'.toNat)) 0

/-- `int(text, 16)`. -/
def hexadecimal (text : Text) : ℕ := text.foldl (fun n c => 16 * n + hexDigit c) 0

/-- `_parse_octet`: up to three ASCII digits without a leading zero, at most 255. -/
def parseOctet (text : Text) : Option ℕ :=
  if text ≠ [] ∧ text.all Char.isDigit ∧ text.length ≤ 3 ∧ (text = ['0'] ∨ text.head? ≠ some '0') ∧
      decimal text ≤ 255 then
    some (decimal text)
  else none

/-- The value of an IPv4 address. -/
def parseV4 (text : Text) : Option (BitVec 32) :=
  match text.splitOn '.' with
  | [a, b, c, d] => do
    let a ← parseOctet a
    let b ← parseOctet b
    let c ← parseOctet c
    let d ← parseOctet d
    return BitVec.ofNat 32 (((a * 256 + b) * 256 + c) * 256 + d)
  | _ => none

/-- `_parse_hextet`: one to four hexadecimal digits. -/
def parseHextet (text : Text) : Option ℕ :=
  if text ≠ [] ∧ text.all isHex ∧ text.length ≤ 4 then some (hexadecimal text) else none

/-- The parts between the colons, an IPv4 address at the end being two of them. -/
def colonParts (text : Text) : Option (List Text) :=
  let parts := text.splitOn ':'
  if parts.length < 3 then none
  else
    match parts.getLast? with
    | some last =>
      if '.' ∈ last then
        (parseV4 last).map fun v =>
          parts.dropLast ++ [Nat.toDigits 16 (v.toNat / 65536), Nat.toDigits 16 (v.toNat % 65536)]
      else some parts
    | none => none

/-- The empty parts with a part on either side. -/
def skips (parts : List Text) : List ℕ :=
  (List.range parts.length).filter fun i => 1 ≤ i ∧ i + 1 < parts.length ∧ parts[i]? = some []

/-- The parts on one side of `::`, which may be a single empty one. -/
def sideParts (parts : List Text) (edge : Option Text) : Option (List Text) :=
  if edge = some [] then if parts.length = 1 then some [] else none else some parts

/-- The eight groups of an IPv6 address. -/
def groups (parts : List Text) : Option (List ℕ) :=
  if 9 < parts.length then none
  else
    match skips parts with
    | [] => if parts.length = 8 then parts.mapM parseHextet else none
    | [skip] => do
      let front ← sideParts (parts.take skip) parts.head?
      let back ← sideParts (parts.drop (skip + 1)) parts.getLast?
      if 8 ≤ front.length + back.length then none
      else
        let front ← front.mapM parseHextet
        let back ← back.mapM parseHextet
        return front ++ List.replicate (8 - (front.length + back.length)) 0 ++ back
    | _ => none

/-- The value of an IPv6 address without a zone. -/
def parseV6Value (text : Text) : Option (BitVec 128) := do
  let parts ← colonParts text
  let values ← groups parts
  return BitVec.ofNat 128 (values.foldl (fun n group => 65536 * n + group) 0)

/-- An IPv6 address, with a zone after `%` if there is one. -/
def parseV6 (text : Text) : Option Addr :=
  if '/' ∈ text then none
  else
    match text.dropWhile (· ≠ '%') with
    | [] => (parseV6Value text).map (Addr.v6 · none)
    | _ :: scope =>
      if scope = [] ∨ '%' ∈ scope then none
      else (parseV6Value (text.takeWhile (· ≠ '%'))).map (Addr.v6 · (some scope))

/-- **`ip_address`**; none where it raises. -/
def ipAddress (text : Text) : Option Addr :=
  match parseV4 text with
  | some value => some (.v4 value)
  | none => parseV6 text

/-- `ipv4_mapped`, the address itself where there is none. -/
def Addr.unmapped : Addr → Addr
  | .v6 value scope =>
    if value >>> 32 = 0xFFFF#128 then .v4 (value.truncate 32) else .v6 value scope
  | addr => addr

/-- `is_loopback`, of an address that is not a mapped one. -/
def Addr.isLoopback : Addr → Bool
  | .v4 value => value >>> 24 = 127#32
  | .v6 value _ => value = 1#128

/-! ### Networks -/

/-- A network: its address and its mask. -/
inductive Net where
  | v4 (address mask : BitVec 32)
  | v6 (address mask : BitVec 128)
  deriving DecidableEq, Repr

/-- The mask of a prefix length. -/
def maskOf (width bits : ℕ) : BitVec width := BitVec.allOnes width <<< (width - bits)

/-- `_prefix_from_prefix_string`: ASCII digits, at most the width. -/
def prefixLength (width : ℕ) (text : Text) : Option ℕ :=
  if text ≠ [] ∧ text.all Char.isDigit ∧ decimal text ≤ width then some (decimal text) else none

/-- The mask after the slash of an IPv4 network: a prefix length, a netmask or a hostmask. -/
def parseMaskV4 (text : Text) : Option (BitVec 32) :=
  match prefixLength 32 text with
  | some bits => some (maskOf 32 bits)
  | none => (parseV4 text).bind fun value =>
    let masks := (List.range 33).map (maskOf 32)
    if value ∈ masks then some value else if ~~~value ∈ masks then some (~~~value) else none

/-- **`ip_network(text, strict=False)`**; none where it raises. -/
def ipNetwork (text : Text) : Option Net :=
  let v4 (address : Text) (mask : Option (BitVec 32)) : Option Net :=
    (parseV4 address).bind fun value => mask.map fun mask => .v4 (value &&& mask) mask
  let v6 (address : Text) (mask : Option (BitVec 128)) : Option Net :=
    match parseV6 address with
    | some (.v6 value _) => mask.map fun mask => .v6 (value &&& mask) mask
    | _ => none
  match text.splitOn '/' with
  | [address] =>
    (v4 address (some (maskOf 32 32))).or (v6 address (some (maskOf 128 128)))
  | [address, mask] =>
    (v4 address (parseMaskV4 mask)).or (v6 address ((prefixLength 128 mask).map (maskOf 128)))
  | _ => none

/-- `address in network`. -/
def Net.contains : Net → Addr → Bool
  | .v4 address mask, .v4 value => value &&& mask = address
  | .v6 address mask, .v6 value _ => value &&& mask = address
  | _, _ => false

/-! ### Texts -/

/-- The eight groups of a value. -/
def groupsOf (value : BitVec 128) : List ℕ :=
  (List.range 8).map fun i => value.toNat / 65536 ^ (7 - i) % 65536

/-- The length of the run of zeros at the front. -/
def zeroRun (groups : List ℕ) : ℕ := (groups.takeWhile (· = 0)).length

/-- The first of the longest runs of zeros: where it starts, and how long it is. -/
def longestZeros (groups : List ℕ) : ℕ × ℕ :=
  (List.range groups.length).foldl
    (fun best i =>
      if best.2 < zeroRun (groups.drop i) then (i, zeroRun (groups.drop i)) else best) (0, 0)

/-- `str` of an IPv6 value: the longest run of two or more zero groups is left out. -/
def strV6 (value : BitVec 128) : Text :=
  let groups := groupsOf value
  let (start, length) := longestZeros groups
  let text (groups : List ℕ) : Text := [':'].intercalate (groups.map (Nat.toDigits 16))
  if 1 < length then text (groups.take start) ++ [':', ':'] ++ text (groups.drop (start + length))
  else text groups

/-- `str` of an IPv4 value. -/
def strV4 (value : BitVec 32) : Text :=
  ['.'].intercalate ((List.range 4).map fun i => Nat.toDigits 10 (value.toNat / 256 ^ (3 - i) % 256))

/-- A zone after the address. -/
def strScope : Option Text → Text
  | some scope => '%' :: scope
  | none => []

/-- `str` of an address. -/
def Addr.str : Addr → Text
  | .v4 value => strV4 value
  | .v6 value scope => strV6 value ++ strScope scope

/-- `str(IPv6Network(f"{ip}/64", strict=False))`, which keeps the zone of an address that is the
network's own. -/
def block64 (value : BitVec 128) (scope : Option Text) : Text :=
  let address := value &&& maskOf 128 64
  strV6 address ++ (if address = value then strScope scope else []) ++ "/64".toList

/-- An address of a documentation network. -/
example : (ipAddress "2001:db8::7".toList).map Addr.str = some "2001:db8::7".toList := by
  decide +kernel

/-! ### The characters of an address -/

theorem isHex_digitChar : ∀ n < 16, isHex (Nat.digitChar n) = true := by decide

theorem isHex_of_mem_toDigits {base : ℕ} (hbase : 1 < base) (hle : base ≤ 16) {c : Char} (n : ℕ) :
    c ∈ Nat.toDigits base n → isHex c = true := by
  induction n using Nat.strongRecOn with
  | ind n ih =>
      rw [Nat.toDigits_eq_if hbase]
      split_ifs with hn
      · intro hmem
        rw [List.mem_singleton.1 hmem]
        exact isHex_digitChar n (by omega)
      · intro hmem
        rcases List.mem_append.1 hmem with hfront | hlast
        · exact ih (n / base) (Nat.div_lt_self (by omega) hbase) hfront
        · rw [List.mem_singleton.1 hlast]
          have hdigit : n % base < base := Nat.mod_lt n (by omega)
          exact isHex_digitChar _ (by omega)

/-- What is in a joined text is in the separator or in a part. -/
theorem mem_of_mem_intercalate {separator : Text} {c : Char} {parts : List Text} :
    c ∈ separator.intercalate parts → c ∈ separator ∨ ∃ part ∈ parts, c ∈ part := by
  induction parts with
  | nil => exact fun hmem => absurd hmem List.not_mem_nil
  | cons part parts ih =>
      cases parts with
      | nil =>
          intro hmem
          rw [List.intercalate_singleton] at hmem
          exact .inr ⟨part, List.mem_cons_self, hmem⟩
      | cons next parts =>
          intro hmem
          rw [List.intercalate_cons_cons, List.mem_append, List.mem_append] at hmem
          rcases hmem with (hmem | hmem) | hmem
          · exact .inr ⟨part, List.mem_cons_self, hmem⟩
          · exact .inl hmem
          · rcases ih hmem with hsep | ⟨other, hother, hin⟩
            · exact .inl hsep
            · exact .inr ⟨other, List.mem_cons_of_mem _ hother, hin⟩

theorem mem_strV4 {value : BitVec 32} {c : Char} (h : c ∈ strV4 value) : isHex c = true ∨ c = '.' := by
  rcases mem_of_mem_intercalate h with hsep | ⟨part, hpart, hin⟩
  · exact .inr (List.mem_singleton.1 hsep)
  · obtain ⟨i, -, rfl⟩ := List.mem_map.1 hpart
    exact .inl (isHex_of_mem_toDigits (by omega) (by omega) _ hin)

/-- **The text of an address without its zone is digits and separators.** -/
theorem mem_strV6 {value : BitVec 128} {c : Char} (h : c ∈ strV6 value) : isHex c = true ∨ c = ':' := by
  have htext : ∀ groups : List ℕ, c ∈ [':'].intercalate (groups.map (Nat.toDigits 16)) →
      isHex c = true ∨ c = ':' := by
    intro groups hmem
    rcases mem_of_mem_intercalate hmem with hsep | ⟨part, hpart, hin⟩
    · exact .inr (List.mem_singleton.1 hsep)
    · obtain ⟨group, -, rfl⟩ := List.mem_map.1 hpart
      exact .inl (isHex_of_mem_toDigits (by omega) (by omega) _ hin)
  unfold strV6 at h
  dsimp only at h
  split_ifs at h
  · rw [List.mem_append, List.mem_append] at h
    rcases h with (hmem | hmem) | hmem
    · exact htext _ hmem
    · simp at hmem
      exact .inr hmem
    · exact htext _ hmem
  · exact htext _ h

end IpAddress
