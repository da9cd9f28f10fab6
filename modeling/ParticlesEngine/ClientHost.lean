/-
**Whose request it is.**

A request comes over a connection whose peer may be a proxy, and each proxy on the way adds the address
of the peer that it was asked by to `X-Forwarded-For`, after whatever the client wrote there.  The engine
believes a field of it only behind the proxies it is told to trust, from the right, and so finds the
client itself.  What the client may spend is counted by its address: by the `/64` of an IPv6 address.

Main definitions:

* `realClientHost` — the client that the engine finds;
* `bucketKey`, `clientBucket` — the bucket that a request spends from;
* `Forwards`, `Reaches` — a request on its way through the trusted proxies;
* `Spending`, `answers` — what requests ask of the limiter, and its answers.

Main results:

* `hops_forwards` — a proxy adds one hop at the end, however it writes it;
* `sender_is_found` — **the engine finds the sender, whatever the sender wrote**;
* `forged_headers_gain_nothing` — **and what it is allowed does not depend on that**.
-/

import ParticlesEngine.IpAddress
import ParticlesEngine.KeyFile
import ParticlesEngine.RateLimiter

set_option relaxedAutoImplicit false
set_option autoImplicit false

namespace ParticlesEngine
namespace ClientHost

open IpAddress TokenBucket MergedDict
open KeyFile (strip)

/-! ### The client of a request -/

/-- What the engine reads of a request. -/
structure Request where
  /-- the peer of the connection; none for a local socket -/
  client : Option Text
  /-- the field lines of `X-Forwarded-For`, in order -/
  forwardedFor : List Text
  /-- the principal that the key of the request resolves to -/
  principal : Option Text := none
  deriving DecidableEq, Repr

/-- `_is_ip`. -/
def isIp (value : Text) : Bool := (ipAddress value).isSome

/-- The address is in one of the networks; a text that is no network has no address. -/
def isTrusted (networks : List Text) (ip : Addr) : Bool :=
  networks.any fun net => (ipNetwork (strip net)).any fun net => net.contains ip

/-- `_ip_in_networks`. -/
def ipInNetworks (host : Text) (networks : List Text) : Bool :=
  match ipAddress (strip host) with
  | some ip => isTrusted networks ip
  | none => false

/-- `_UNREADABLE_HOP`. -/
def UNREADABLE_HOP : Text := "unreadable-forwarded-hop".toList

section Hops

variable (isDigit : Char → Bool) (trusted : List Text)

/-- `str.isdigit`, by whether each character is a digit. -/
def isDigits (text : Text) : Bool := text ≠ [] && text.all isDigit

/-- What a hop has where its address should be: in brackets, or before a port, or all of it. -/
def candidateOf (hop : Text) : Option Text :=
  match hop with
  | '[' :: rest =>
    match rest.dropWhile (· ≠ ']') with
    | [] => none
    | [_] => some (rest.takeWhile (· ≠ ']'))
    | _ :: ':' :: port => if isDigits isDigit port then some (rest.takeWhile (· ≠ ']')) else none
    | _ => none
  | hop =>
    if hop.count ':' = 1 then
      if isDigits isDigit (hop.dropWhile (· ≠ ':')).tail then some (hop.takeWhile (· ≠ ':')) else none
    else some hop

/-- **`_forwarded_hop_address`.** -/
def forwardedHopAddress (hop : Text) : Option Text := (candidateOf isDigit hop).filter isIp

/-- The hops of a combined field: its parts, stripped, without the empty ones. -/
def hopsIn (forwarded : Text) : List Text :=
  ((forwarded.splitOn ',').map strip).filter fun hop => hop ≠ []

/-- The field lines, combined. -/
def combined (lines : List Text) : Text := [','].intercalate lines

/-- The loop over the hops, from the right; none when every hop is trusted. -/
def nearestUntrusted : List Text → Option Text
  | [] => none
  | hop :: hops =>
    match forwardedHopAddress isDigit hop with
    | none => some UNREADABLE_HOP
    | some address => if ipInNetworks address trusted then nearestUntrusted hops else some address

/-- **`_real_client_host`.** -/
def realClientHost (request : Request) : Option Text :=
  request.client.map fun peer =>
    if trusted = [] ∨ ipInNetworks peer trusted = false then peer
    else (nearestUntrusted isDigit trusted (hopsIn (combined request.forwardedFor)).reverse).getD peer

/-- `_LOOPBACK_BUCKET`. -/
def LOOPBACK_BUCKET : Text := "loopback".toList

/-- `_PEERLESS_BUCKET`. -/
def PEERLESS_BUCKET : Text := "peerless".toList

/-- The bucket of an address. -/
def addressBucket (ip : Addr) : Text :=
  if ip.unmapped.isLoopback then LOOPBACK_BUCKET
  else
    match ip.unmapped with
    | .v6 value scope => block64 value scope
    | ip => ip.str

/-- **`_bucket_key`.** -/
def bucketKey (host : Text) : Text :=
  match ipAddress host with
  | some ip => addressBucket ip
  | none => "host:".toList ++ host

/-- **`_client_bucket`.** -/
def clientBucket (request : Request) : Text :=
  match request.principal with
  | some principal => "principal:".toList ++ principal
  | none =>
    match realClientHost isDigit trusted request with
    | some host => bucketKey host
    | none => PEERLESS_BUCKET

end Hops

/-! ### The hops of a field -/

theorem combined_concat {lines : List Text} (h : lines ≠ []) (line : Text) :
    combined (lines ++ [line]) = combined lines ++ ',' :: line := by
  induction lines with
  | nil => exact absurd rfl h
  | cons first lines ih =>
      cases lines with
      | nil => simp [combined]
      | cons second lines =>
          have hrest := ih (List.cons_ne_nil _ _)
          simp only [combined, List.cons_append, List.intercalate_cons_cons] at hrest ⊢
          rw [hrest]
          simp

/-- What stands after the last comma is the last hop. -/
theorem hopsIn_append {forwarded hop : Text} (hcomma : ',' ∉ hop) (hne : strip hop ≠ []) :
    hopsIn (forwarded ++ ',' :: hop) = hopsIn forwarded ++ [strip hop] := by
  unfold hopsIn
  rw [List.splitOn_append_cons_self, List.splitOn_eq_singleton hcomma, List.map_append,
    List.filter_append]
  simp [hne]

theorem hopsIn_self {hop : Text} (hcomma : ',' ∉ hop) (hne : strip hop ≠ []) :
    hopsIn hop = [strip hop] := by
  unfold hopsIn
  rw [List.splitOn_eq_singleton hcomma]
  simp [hne]

/-- A proxy adds a hop: on a line of its own, or after the last line. -/
inductive Forwards (hop : Text) : List Text → List Text → Prop
  | ownLine (lines : List Text) : Forwards hop lines (lines ++ [hop])
  | extended (lines : List Text) (last : Text) :
      Forwards hop (lines ++ [last]) (lines ++ [last ++ ',' :: hop])

/-- **A proxy adds one hop at the end**, however it writes it. -/
theorem hops_forwards {hop : Text} {lines lines' : List Text} (h : Forwards hop lines lines')
    (hcomma : ',' ∉ hop) (hne : strip hop ≠ []) :
    hopsIn (combined lines') = hopsIn (combined lines) ++ [strip hop] := by
  cases h with
  | ownLine =>
      by_cases hlines : lines = []
      · subst hlines
        have hempty : hopsIn (combined []) = [] := by decide
        rw [hempty, List.nil_append, List.nil_append]
        change hopsIn ([','].intercalate [hop]) = _
        rw [List.intercalate_singleton, hopsIn_self hcomma hne]
      · rw [combined_concat hlines, hopsIn_append hcomma hne]
  | extended lines last =>
      have hlast : combined (lines ++ [last ++ ',' :: hop]) = combined (lines ++ [last]) ++ ',' :: hop := by
        by_cases hlines : lines = []
        · subst hlines
          simp [combined]
        · rw [combined_concat hlines, combined_concat hlines]
          simp
      rw [hlast, hopsIn_append hcomma hne]

/-! ### The sender -/

/-- The text, which has no blanks around it, reads as the address. -/
structure Spells (text : Text) (ip : Addr) : Prop where
  strip_eq : strip text = text
  reads : ipAddress text = some ip

instance (text : Text) (ip : Addr) : Decidable (Spells text ip) :=
  decidable_of_iff (strip text = text ∧ ipAddress text = some ip)
    ⟨fun h => ⟨h.1, h.2⟩, fun h => ⟨h.1, h.2⟩⟩

/-- A request of the sender on its way: who it comes from next, and the field lines it has then.  The
sender writes what it likes, and each proxy that the engine trusts adds who asked it. -/
inductive Reaches (isDigit : Char → Bool) (trusted : List Text) (sender : Addr) :
    Addr → List Text → Prop
  | sent (lines : List Text) : Reaches isDigit trusted sender sender lines
  | forwarded {peer : Addr} {lines lines' : List Text} (proxy : Addr) (hop address : Text)
      (hreaches : Reaches isDigit trusted sender peer lines)
      (hproxy : isTrusted trusted proxy = true) (hcomma : ',' ∉ hop)
      (hhop : forwardedHopAddress isDigit (strip hop) = some address) (hspells : Spells address peer)
      (hlines : Forwards hop lines lines') : Reaches isDigit trusted sender proxy lines'

variable {isDigit : Char → Bool} {trusted : List Text} {sender peer : Addr} {lines : List Text}

theorem ipInNetworks_of_spells {text : Text} {ip : Addr} (h : Spells text ip) :
    ipInNetworks text trusted = isTrusted trusted ip := by
  unfold ipInNetworks
  rw [h.strip_eq, h.reads]

theorem ne_nil_of_forwardedHopAddress {hop address : Text}
    (h : forwardedHopAddress isDigit hop = some address) : hop ≠ [] := by
  rintro rfl
  have hcandidate : candidateOf isDigit [] = some [] := by simp [candidateOf]
  have hnot : isIp [] = false := by decide
  unfold forwardedHopAddress at h
  rw [hcandidate, Option.filter_some, hnot] at h
  cases h

/-- A peer that the engine does not trust is the sender. -/
theorem Reaches.eq_sender (h : Reaches isDigit trusted sender peer lines)
    (huntrusted : isTrusted trusted peer = false) : peer = sender := by
  cases h with
  | sent => rfl
  | forwarded proxy hop address hreaches hproxy =>
      rw [hproxy] at huntrusted
      cases huntrusted

/-- **Behind a trusted peer the loop ends at the sender**, before anything that the sender wrote. -/
theorem Reaches.nearestUntrusted (h : Reaches isDigit trusted sender peer lines)
    (hsender : isTrusted trusted sender = false) (hpeer : isTrusted trusted peer = true) :
    ∃ address, nearestUntrusted isDigit trusted (hopsIn (combined lines)).reverse = some address ∧
      Spells address sender := by
  induction h with
  | sent =>
      rw [hsender] at hpeer
      cases hpeer
  | @forwarded peer lines lines' proxy hop address hreaches hproxy hcomma hhop hspells hlines ih =>
      rw [hops_forwards hlines hcomma (ne_nil_of_forwardedHopAddress hhop), List.reverse_append,
        List.reverse_singleton, List.singleton_append, ClientHost.nearestUntrusted, hhop]
      dsimp only
      rw [ipInNetworks_of_spells hspells]
      cases htrusted : isTrusted trusted peer with
      | true =>
          rw [if_pos rfl]
          exact ih htrusted
      | false =>
          rw [if_neg Bool.false_ne_true]
          exact ⟨address, rfl, hreaches.eq_sender htrusted ▸ hspells⟩

/-- **The engine finds the sender.**  A request that reaches the engine from a sender that it does not
trust, over any number of proxies that it trusts, is the sender's, whatever the sender wrote into the
field and however each proxy wrote what it added. -/
theorem sender_is_found (h : Reaches isDigit trusted sender peer lines)
    (hsender : isTrusted trusted sender = false) {host : Text} (hhost : Spells host peer)
    (principal : Option Text) :
    ∃ address, realClientHost isDigit trusted ⟨some host, lines, principal⟩ = some address ∧
      Spells address sender := by
  unfold realClientHost
  rw [Option.map_some, ipInNetworks_of_spells hhost]
  cases hpeer : isTrusted trusted peer with
  | false =>
      refine ⟨host, by simp, ?_⟩
      rw [← h.eq_sender hpeer]
      exact hhost
  | true =>
      have hne : trusted ≠ [] := by
        rintro rfl
        simp [isTrusted] at hpeer
      obtain ⟨address, hfound, hspells⟩ := h.nearestUntrusted hsender hpeer
      exact ⟨address, by simp [hne, hfound], hspells⟩

/-- One sender, over one proxy, with a forged field of three hops. -/
theorem forger_is_found :
    ∃ address, realClientHost Char.isDigit ["10.0.0.0/8".toList]
        ⟨some "10.0.0.1".toList,
          ["127.0.0.1, 10.0.0.9".toList, "::1,  203.0.113.7:4711".toList], none⟩ = some address ∧
      Spells address (.v4 0xCB007107#32) := by
  have hreaches : Reaches Char.isDigit ["10.0.0.0/8".toList] (.v4 0xCB007107#32) (.v4 0x0A000001#32)
      ["127.0.0.1, 10.0.0.9".toList, "::1,  203.0.113.7:4711".toList] :=
    .forwarded (.v4 0x0A000001#32) "  203.0.113.7:4711".toList "203.0.113.7".toList
      (.sent ["127.0.0.1, 10.0.0.9".toList, "::1".toList]) (by decide +kernel) (by decide)
      (by decide +kernel) (by decide +kernel) (.extended ["127.0.0.1, 10.0.0.9".toList] "::1".toList)
  exact sender_is_found hreaches (by decide +kernel) (by decide +kernel) none

/-! ### What a sender is allowed -/

/-- A token that is asked for: by a request that is to be admitted, or by a further model call of it. -/
structure Spending where
  request : Request
  now : ℚ
  deriving DecidableEq, Repr

section Answers

variable (isDigit : Char → Bool) (trusted : List Text)

/-- The call of the limiter. -/
def Spending.call (spending : Spending) : RateCall :=
  ⟨String.ofList (clientBucket isDigit trusted spending.request), spending.now⟩

/-- `enforce_rate_limit` and `_RequestMeter.charge`: no rate, no limit. -/
def enforceRateLimit (ratePerMinute : ℕ) (buckets : Buckets) (spending : Spending) : Buckets × Bool :=
  if ratePerMinute = 0 then (buckets, true)
  else allow MAX_BUCKETS ratePerMinute buckets (spending.call isDigit trusted)

/-- What is answered to some spendings, one after the other. -/
def answers (ratePerMinute : ℕ) : Buckets → List Spending → List (Spending × Bool)
  | _, [] => []
  | buckets, spending :: spendings =>
    (spending, (enforceRateLimit isDigit trusted ratePerMinute buckets spending).2) ::
      answers ratePerMinute (enforceRateLimit isDigit trusted ratePerMinute buckets spending).1 spendings

end Answers

/-- The spending is the sender's: a request of its own, with no key that resolves, that reached the
engine over trusted proxies. -/
def SentBy (isDigit : Char → Bool) (trusted : List Text) (sender : Addr) (spending : Spending) : Prop :=
  spending.request.principal = none ∧ isTrusted trusted sender = false ∧
    ∃ peer host, Reaches isDigit trusted sender peer spending.request.forwardedFor ∧
      spending.request.client = some host ∧ Spells host peer

/-- **A sender spends from the bucket of its address**, whatever it wrote. -/
theorem call_of_sentBy {spending : Spending} (h : SentBy isDigit trusted sender spending) :
    (spending.call isDigit trusted).host = String.ofList (addressBucket sender) := by
  obtain ⟨hprincipal, hsender, peer, host, hreaches, hclient, hhost⟩ := h
  obtain ⟨address, hfound, hspells⟩ :=
    sender_is_found hreaches hsender hhost spending.request.principal
  have hrequest : spending.request = ⟨some host, spending.request.forwardedFor,
      spending.request.principal⟩ := by
    rw [← hclient]
  have hbucket : clientBucket isDigit trusted spending.request = addressBucket sender := by
    unfold clientBucket
    rw [hprincipal, hrequest, hfound]
    change bucketKey address = _
    rw [bucketKey, hspells.reads]
  rw [Spending.call, hbucket]

/-- The spendings of one bucket, among the decisions of the limiter. -/
theorem countP_answers_le {ratePerMinute : ℕ} (hrate : 0 < ratePerMinute) {key : String} {a b : ℚ}
    {sent : Spending → Bool} (spendings : List Spending) :
    ∀ buckets : Buckets,
      (∀ spending ∈ spendings, sent spending = true → (spending.call isDigit trusted).host = key) →
      (answers isDigit trusted ratePerMinute buckets spendings).countP
          (fun d => sent d.1 ∧ a ≤ d.1.now ∧ d.1.now ≤ b ∧ d.2 = true) ≤
        admittedFor key a b (decisions (allow MAX_BUCKETS ratePerMinute) buckets
          (spendings.map (Spending.call isDigit trusted))) := by
  induction spendings with
  | nil =>
      intro buckets _
      exact le_rfl
  | cons spending spendings ih =>
      intro buckets hkey
      have hstep : enforceRateLimit isDigit trusted ratePerMinute buckets spending =
          allow MAX_BUCKETS ratePerMinute buckets (spending.call isDigit trusted) :=
        if_neg (Nat.pos_iff_ne_zero.1 hrate)
      have hrest := ih (allow MAX_BUCKETS ratePerMinute buckets (spending.call isDigit trusted)).1
        fun other hother => hkey other (List.mem_cons_of_mem _ hother)
      rw [answers, hstep, List.map_cons, decisions, admittedFor, List.countP_cons, List.countP_cons]
      refine Nat.add_le_add hrest ?_
      split_ifs with hcounted hdecided
      · exact le_rfl
      · exfalso
        simp only [decide_eq_true_eq] at hcounted hdecided
        exact hdecided ⟨hkey spending List.mem_cons_self hcounted.1, hcounted.2⟩
      · exact Nat.zero_le _
      · exact le_rfl

/-- Where the windows fit, the limiter decides as the one that forgets nothing. -/
theorem decisions_of_windowsFit (ratePerMinute : ℕ) {calls : List RateCall}
    (hsorted : (calls.map RateCall.now).Pairwise (· ≤ ·)) (hfits : WindowsFit MAX_BUCKETS calls) :
    decisions (allow MAX_BUCKETS ratePerMinute) [] calls =
      decisions (allowUnbounded ratePerMinute) [] calls := by
  cases calls with
  | nil => rfl
  | cons call calls =>
      rw [List.map_cons] at hsorted
      have hlater : ∀ later ∈ call :: calls, call.now ≤ later.now := by
        intro later hlater
        rcases List.mem_cons.1 hlater with rfl | hmem
        · exact le_rfl
        · exact (List.pairwise_cons.1 hsorted).1 later.now (List.mem_map_of_mem hmem)
      have htracks : Tracks [] call.now [] [] :=
        ⟨fun _ => .inl rfl, List.nodup_nil, (fun _ bucket hget => nomatch hget),
          fun _ hitem => absurd hitem List.not_mem_nil⟩
      exact decisions_eq _ [] call.now hsorted hlater (fun _ h => absurd h List.not_mem_nil) hfits
        htracks

/-- The limiter admits no more from a bucket than the rate allows. -/
theorem admittedFor_le (ratePerMinute : ℕ) {calls : List RateCall}
    (hsorted : (calls.map RateCall.now).Pairwise (· ≤ ·)) (hfits : WindowsFit MAX_BUCKETS calls)
    (key : String) (a : ℚ) {t : ℚ} (ht : 0 ≤ t) :
    (admittedFor key a (a + t) (decisions (allow MAX_BUCKETS ratePerMinute) [] calls) : ℚ) ≤
      ratePerMinute + ratePerMinute * t / 60 := by
  rw [decisions_of_windowsFit ratePerMinute hsorted hfits, admittedFor_decisions, get_nil]
  have hbound := admitted_le (Nat.cast_nonneg ratePerMinute) (refill_nonneg ratePerMinute)
    (le_add_of_nonneg_right ht : a ≤ a + t)
    ((calls.filter fun call => call.host = key).map RateCall.now) none
    (hsorted.sublist (List.filter_sublist.map _)) (fun _ _ _ hget => nomatch hget)
  refine hbound.trans (le_of_eq ?_)
  ring

/-- **Forged headers gain nothing.**  Of all that the senders with one bucket ask for, whatever they
write into their headers and whichever trusted proxies they come over, no more is granted in any time
than the rate allows one client, as long as no minute sees more clients than the limiter holds. -/
theorem forged_headers_gain_nothing {ratePerMinute : ℕ} (hrate : 0 < ratePerMinute)
    {spendings : List Spending} (hsorted : (spendings.map Spending.now).Pairwise (· ≤ ·))
    (hfits : WindowsFit MAX_BUCKETS (spendings.map (Spending.call isDigit trusted)))
    {bucket : Text} {sent : Spending → Bool}
    (hsent : ∀ spending ∈ spendings, sent spending = true →
      ∃ sender, addressBucket sender = bucket ∧ SentBy isDigit trusted sender spending)
    (a : ℚ) {t : ℚ} (ht : 0 ≤ t) :
    (((answers isDigit trusted ratePerMinute [] spendings).countP
        fun d => sent d.1 ∧ a ≤ d.1.now ∧ d.1.now ≤ a + t ∧ d.2 = true : ℕ) : ℚ) ≤
      ratePerMinute + ratePerMinute * t / 60 := by
  have hcalls : ((spendings.map (Spending.call isDigit trusted)).map RateCall.now).Pairwise (· ≤ ·) := by
    rw [List.map_map]
    exact hsorted
  have hkey : ∀ spending ∈ spendings, sent spending = true →
      (spending.call isDigit trusted).host = String.ofList bucket := by
    intro spending hspending hown
    obtain ⟨sender, hbucket, hby⟩ := hsent spending hspending hown
    rw [call_of_sentBy hby, hbucket]
  have hcount := countP_answers_le (a := a) (b := a + t) hrate spendings [] hkey
  refine le_trans (Nat.cast_le.2 hcount) ?_
  exact admittedFor_le ratePerMinute hcalls hfits _ a ht

/-- The same sender with two forged fields, half a minute apart. -/
def forgedTwice : List Spending :=
  [⟨⟨some "10.0.0.1".toList, ["198.51.100.1,203.0.113.7".toList], none⟩, 0⟩,
    ⟨⟨some "10.0.0.1".toList, ["198.51.100.2".toList, "203.0.113.7:80".toList], none⟩, 30⟩]

theorem forgedTwice_granted :
    (((answers Char.isDigit ["10.0.0.0/8".toList] 1 [] forgedTwice).countP
        fun d => true ∧ (0 : ℚ) ≤ d.1.now ∧ d.1.now ≤ 0 + 30 ∧ d.2 = true : ℕ) : ℚ) ≤
      (1 : ℕ) + (1 : ℕ) * 30 / 60 := by
  refine forged_headers_gain_nothing Nat.one_pos (by decide +kernel)
    (windowsFit_of_length (by decide)) (?_ : ∀ spending ∈ forgedTwice, true = true →
      ∃ sender, addressBucket sender = "203.0.113.7".toList ∧
        SentBy Char.isDigit ["10.0.0.0/8".toList] sender spending) 0 (by norm_num)
  intro spending hspending _
  refine ⟨.v4 0xCB007107#32, by decide +kernel, ?_⟩
  rcases List.mem_cons.1 hspending with rfl | hspending
  · refine ⟨rfl, by decide +kernel, .v4 0x0A000001#32, "10.0.0.1".toList, ?_, rfl, by decide +kernel⟩
    exact .forwarded _ "203.0.113.7".toList "203.0.113.7".toList (.sent ["198.51.100.1".toList])
      (by decide +kernel) (by decide) (by decide +kernel) (by decide +kernel) (.extended [] _)
  · obtain rfl := List.mem_singleton.1 hspending
    refine ⟨rfl, by decide +kernel, .v4 0x0A000001#32, "10.0.0.1".toList, ?_, rfl, by decide +kernel⟩
    exact .forwarded _ "203.0.113.7:80".toList "203.0.113.7".toList (.sent ["198.51.100.2".toList])
      (by decide +kernel) (by decide) (by decide +kernel) (by decide +kernel) (.ownLine _)

end ClientHost
end ParticlesEngine
