import Mathlib.Data.List.OfFn
import SenderPolicy.Proofs.Course.Exchanges
import SenderPolicy.Proofs.Record.Terms

/-!
# Networks are leading bits

An address lies in a network if both are of one family and begin with the same bits. The client is
compared with addresses in this way wherever a length is given: with the address that a directive
holds, kept as it is written, and with the addresses of an answer. An address is also compared with
the client's as a whole, and then an IPv4-mapped spelling stands for the IPv4 address; in a network
it does not.

## Main definitions

* `Address.bits`: the bits of an address, the leading one first
* `Network.truncated`: a network whose address has no bits set behind its length
* `Address.around`: the mechanism of the network around an address
* `MatchAlike`: a directive that holds a network, and one that looks addresses up

## Main results

* `Network.contains_iff_bits`: members begin with the bits of the network
* `inNetwork_iff`: the client is in a network exactly if it begins with its bits
* `inNetwork_iff_leading_bits`: networks of directives and of answers
* `isClient_iff_inNetwork`: an address is the client's as a whole, or in another spelling
-/

namespace SenderPolicy

/-! ## Words and their leading bits -/

namespace Network

variable {width : Nat}

/-- The bits of a word, the leading one first. -/
def bitsOf (word : BitVec width) : List Bool :=
  List.ofFn fun i : Fin width => word.getMsbD i

@[simp] theorem length_bitsOf (word : BitVec width) : (bitsOf word).length = width := by
  simp [bitsOf]

theorem bitsOf_inj {word word' : BitVec width} : bitsOf word = bitsOf word' ↔ word = word' := by
  constructor
  · intro h
    rw [bitsOf, bitsOf, List.ofFn_inj] at h
    exact BitVec.eq_of_getMsbD_eq fun i hi => congrFun h ⟨i, hi⟩
  · rintro rfl
    rfl

theorem take_bitsOf_eq_iff {word word' : BitVec width} {n : Nat} (hn : n ≤ width) :
    (bitsOf word).take n = (bitsOf word').take n ↔ ∀ i < n, word.getMsbD i = word'.getMsbD i := by
  constructor
  · intro h i hi
    have same := congrArg (fun bits => bits[i]?) h
    simpa [bitsOf, List.getElem?_take, hi, Nat.lt_of_lt_of_le hi hn] using same
  · intro h
    refine List.ext_getElem (by simp) fun i hi _ => ?_
    have hi : i < n := by simpa [hn] using hi
    simpa [bitsOf] using h i hi

/-- A member begins with the bits of the network. -/
theorem contains_iff_bits {net : Network width} {member : BitVec width} :
    net.contains member = true ↔
      (bitsOf net.address).take net.length.val = (bitsOf member).take net.length.val := by
  rw [contains_iff, take_bitsOf_eq_iff (Nat.le_of_lt_succ net.length.isLt)]

/-- The network with the bits behind its length cleared. -/
def truncated (net : Network width) : Network width :=
  ⟨net.address &&& mask width net.length.val, net.length⟩

/-- An address may be kept as it is written: the bits behind the length do not count. -/
theorem contains_truncated (net : Network width) (member : BitVec width) :
    net.truncated.contains member = net.contains member := by
  simp only [contains, truncated, BitVec.and_assoc, BitVec.and_self]

end Network

/-! ## Addresses of both families -/

namespace Address

/-- The number of bits of an address, by which the families differ. -/
def width : Address → Nat
  | v4 _ => 32
  | v6 _ => 128

/-- The bits of an address, the leading one first. -/
def bits : Address → List Bool
  | v4 word => Network.bitsOf word
  | v6 word => Network.bitsOf word

@[simp] theorem length_bits (a : Address) : a.bits.length = a.width := by
  cases a <;> exact Network.length_bitsOf _

theorem bits_inj {a b : Address} : a.bits = b.bits ↔ a = b := by
  constructor
  · intro h
    -- the number of bits tells the families apart
    have family := congrArg List.length h
    rw [length_bits, length_bits] at family
    cases a with
    | v4 word =>
      cases b with
      | v4 word' => exact congrArg v4 (Network.bitsOf_inj.mp h)
      | v6 word' => exact absurd family (show 32 ≠ 128 by decide)
    | v6 word =>
      cases b with
      | v4 word' => exact absurd family (show 128 ≠ 32 by decide)
      | v6 word' => exact congrArg v6 (Network.bitsOf_inj.mp h)
  · rintro rfl
    rfl

/-- The mechanism of the network around an address. -/
def around (lengths : CidrLengths) : Address → Mechanism
  | v4 word => .network4 ⟨word, lengths.ip4⟩
  | v6 word => .network6 ⟨word, lengths.ip6⟩

open Text

theorem isDigit_of_readOctet {cs : List Char} {octet : BitVec 8} (h : readOctet cs = some octet) :
    ∀ c ∈ cs, c.isDigit = true := by
  unfold readOctet at h
  split at h
  · split at h
    · rename_i n hr
      unfold readDigits at hr
      split at hr
      · rename_i digits
        exact List.all_eq_true.mp digits.2
      · cases hr
    · cases h
  · cases h

/-- An IPv4 literal has no colon. -/
theorem colon_not_mem_of_readV4Chars {cs : List Char} {word : BitVec 32}
    (h : readV4Chars cs = some word) : ':' ∉ cs := by
  intro colon
  unfold readV4Chars at h
  split at h
  · rename_i a b c d cut
    simp only [Option.bind_eq_bind, Option.bind_eq_some_iff] at h
    obtain ⟨_, ha, _, hb, _, hc, _, hd, -⟩ := h
    rw [← joined_pieces '.' cs, cut] at colon
    obtain dot | ⟨p, hp, inside⟩ := mem_joined colon
    · exact absurd dot (by decide)
    · have digits : ∀ x ∈ p, x.isDigit = true := by
        simp only [List.mem_cons, List.not_mem_nil, or_false] at hp
        rcases hp with rfl | rfl | rfl | rfl
        · exact isDigit_of_readOctet ha
        · exact isDigit_of_readOctet hb
        · exact isDigit_of_readOctet hc
        · exact isDigit_of_readOctet hd
      exact absurd (digits ':' inside) (by decide)
  · cases h

theorem cutGap_of_not_mem {cs : List Char} (h : ':' ∉ cs) : cutGap cs = none := by
  induction cs with
  | nil => rfl
  | cons c cs ih =>
    rw [List.mem_cons, not_or] at h
    rw [cutGap, ih h.2]
    · rfl
    · rintro _ rfl
      exact absurd rfl h.1

/-- An IPv6 literal has a colon. -/
theorem colon_mem_of_readV6Groups {cs : List Char} {gs : List (BitVec 16)}
    (h : readV6Groups cs = some gs) : ':' ∈ cs := by
  refine Decidable.byContradiction fun hc => ?_
  have undivided : pieces (· = ':') cs = [cs] :=
    pieces_of_forall fun c hm => decide_eq_false fun he => hc (he ▸ hm)
  rw [readV6Groups, cutGap_of_not_mem hc] at h
  simp only [undivided, readGroups, readLastGroups] at h
  -- one piece makes up one group, or two
  cases hg : readGroup cs with
  | some g => simp [hg] at h
  | none => cases hv : readV4Chars cs <;> simp [hg, hv] at h

theorem read_of_readV4 {s : String} {word : BitVec 32} (h : readV4 s = some word) :
    read s = some (v4 word) := by
  simp only [read, h]

theorem read_of_readV6 {s : String} {word : BitVec 128} (h : readV6 s = some word) :
    read s = some (v6 word) := by
  obtain ⟨gs, hg, -⟩ := Option.map_eq_some_iff.mp h
  have other : readV4 s = none := by
    rw [readV4, Option.eq_none_iff_forall_ne_some]
    exact fun _ hv => colon_not_mem_of_readV4Chars hv (colon_mem_of_readV6Groups hg)
  simp only [read, other, h, Option.map_some]

end Address

/-- The number of leading bits that are shared within an address's family. -/
def CidrLengths.lengthOf (lengths : CidrLengths) : Address → Nat
  | .v4 _ => lengths.ip4.val
  | .v6 _ => lengths.ip6.val

/-! ## Clients and networks -/

namespace Identity

/-- The client is in a network exactly if it begins with the bits of an address of its family. -/
theorem inNetwork_iff {identity : Identity} {text : String} {lengths : CidrLengths} :
    identity.inNetwork text lengths = true ↔
      ∃ a, Address.read text = some a ∧ a.width = identity.client.width ∧
        a.bits.take (lengths.lengthOf identity.client) =
          identity.client.bits.take (lengths.lengthOf identity.client) := by
  unfold inNetwork
  cases Address.read text with
  | none => simp
  | some a =>
    cases a with
    | v4 word =>
      cases identity.client with
      | v4 client => simp [Network.contains_iff_bits, CidrLengths.lengthOf, Address.bits, Address.width]
      | v6 client => simp [Address.width]
    | v6 word =>
      cases identity.client with
      | v4 client => simp [Address.width]
      | v6 client => simp [Network.contains_iff_bits, CidrLengths.lengthOf, Address.bits, Address.width]

/-- Networks of the whole length hold one address. -/
theorem inNetwork_iff_of_whole {identity : Identity} {text : String} {lengths : CidrLengths}
    (whole : lengths.lengthOf identity.client = identity.client.width) :
    identity.inNetwork text lengths = true ↔ Address.read text = some identity.client := by
  rw [inNetwork_iff, whole]
  constructor
  · rintro ⟨a, hr, hw, hb⟩
    rw [← Address.length_bits, List.take_length, Address.length_bits, ← hw, ← Address.length_bits,
      List.take_length, Address.bits_inj] at hb
    exact hb ▸ hr
  · intro hr
    exact ⟨_, hr, rfl, rfl⟩

end Identity

/-! ## Networks of directives and of answers

A directive `ip4:x/n` or `ip6:x/n` holds the address that `x` denotes, with all its bits. It matches
the clients that a directive `a/n` (`a//n`) matches when `x` alone is answered. -/

namespace Record

theorem LengthDenotes.unique {width : Nat} {digits : Option (List Char)}
    {length length' : Fin (width + 1)} (h : LengthDenotes width digits length)
    (h' : LengthDenotes width digits length') : length' = length := by
  cases h with
  | absent =>
    cases h'
    rfl
  | present h =>
    cases h' with
    | present h' => exact Fin.ext (h'.symm.trans h)

/-- The mechanism is written with the literal of an address, and with digits that denote the length
for its family. -/
inductive HoldsNetwork (literal : List Char) (lengths : CidrLengths) : Mechanism → Prop
  | four {digits : Option (List Char)} {mechanism : Mechanism}
      (hm : MechanismParts.Denotes (.network4 literal digits) mechanism)
      (hl : LengthDenotes 32 digits lengths.ip4) : HoldsNetwork literal lengths mechanism
  | six {digits : Option (List Char)} {mechanism : Mechanism}
      (hm : MechanismParts.Denotes (.network6 literal digits) mechanism)
      (hl : LengthDenotes 128 digits lengths.ip6) : HoldsNetwork literal lengths mechanism

/-- The network of a directive is around the address that its literal denotes. -/
theorem HoldsNetwork.exists_around {literal : List Char} {lengths : CidrLengths}
    {mechanism : Mechanism} (h : HoldsNetwork literal lengths mechanism) :
    ∃ a, Address.read (String.ofList literal) = some a ∧ mechanism = a.around lengths := by
  cases h with
  | four hm hl =>
    cases hm with
    | network4 ha hl' =>
      refine ⟨_, Address.read_of_readV4 ha, ?_⟩
      rw [Address.around, hl'.unique hl]
  | six hm hl =>
    cases hm with
    | network6 ha hl' =>
      refine ⟨_, Address.read_of_readV6 ha, ?_⟩
      rw [Address.around, hl'.unique hl]

end Record

namespace Evaluation

variable {ctx : Context} {s : State} {text : String} {lengths : CidrLengths}

/-- A directive that holds an address matches the clients of the network around its text. -/
theorem mechanismStep_around {a : Address} (hr : Address.read text = some a) :
    mechanismStep ctx s (a.around lengths) = s.settle (s.identity.inNetwork text lengths) := by
  unfold Identity.inNetwork
  rw [hr]
  cases a with
  | v4 word =>
    simp only [Address.around, mechanismStep]
    cases s.identity.client <;> rfl
  | v6 word =>
    simp only [Address.around, mechanismStep]
    cases s.identity.client <;> rfl

/-- The only address of an answer matches the clients of the network around its text. -/
theorem resume_addresses (request : Dns.Request) (frames : List Frame) :
    Machine.resume ctx (.ok [text]) ⟨.await request (.addresses lengths), s, frames⟩ =
      (s.settle (s.identity.inNetwork text lengths)).above frames := by
  simp [Machine.resume, Listener.resume, addressesAnswered, recordsOf]

/-- A directive that holds a network and one that looks addresses up, at the same point of a check:
the first matches in one step the clients that the second matches once a text is all the answer. -/
structure MatchAlike (ctx : Context) (s : State) (frames : List Frame) (qualifier : Qualifier)
    (mechanism : Mechanism) (spec : Option String) (lengths : CidrLengths) (text : String) :
    Prop where
  settles : Machine.step ctx ⟨.proceed, s, .directive ⟨qualifier, mechanism⟩ :: frames⟩ =
    some ⟨.proceed, { s with matched := some (s.identity.inNetwork text lengths) },
      .commitment qualifier :: frames⟩
  asks : ∀ host, s.depth < maxTerms →
    Macro.expand s.values ctx.localNames .domain (spec.getD s.domain) = .ok host →
      Machine.step ctx ⟨.proceed, s, .directive ⟨qualifier, .address spec lengths⟩ :: frames⟩ =
        some ⟨.await ⟨host, s.identity.addressType⟩ (.addresses lengths),
          State.entered { s with matched := none }, .commitment qualifier :: frames⟩
  hears : ∀ asked request t below,
    Course ctx ⟨.proceed, s, .directive ⟨qualifier, .address spec lengths⟩ :: frames⟩ asked
        ⟨.await request (.addresses lengths), t, below⟩ →
      Machine.resume ctx (.ok [text]) ⟨.await request (.addresses lengths), t, below⟩ =
        ⟨.proceed, { t with matched := some (s.identity.inNetwork text lengths) }, below⟩

/-- The directives of the network around an address and of lookups match alike. -/
theorem matchAlike_around {a : Address} (frames : List Frame) (qualifier : Qualifier)
    (spec : Option String) (undecided : s.verdict = none) (hr : Address.read text = some a) :
    MatchAlike ctx s frames qualifier (a.around lengths) spec lengths text where
  settles := by
    rw [step_directive frames undecided, mechanismStep_around hr]
    rfl
  asks host room named := by
    have used : expandTo ctx (.addresses lengths) (spec.getD s.domain)
        (State.entered { s with matched := none }) = (Purpose.addresses lengths).use ctx (.ok host)
          (State.entered { s with matched := none }) := expandTo_of_expand ctx rfl named
    rw [step_entered frames undecided room rfl, used]
    rfl
  hears asked request t below course := by
    have same : t.identity = s.identity := course.identity
    rw [← same]
    exact resume_addresses request below

end Evaluation

namespace Identity

open Evaluation

/-- Whether the client is in a network is a matter of its leading bits and of those of an address of
its family. A longer network holds no more clients; one without bits holds the family, and one of
the whole length a single address. The bits behind the length do not count, so a directive that
holds an address as it is written matches the clients of a directive whose lookup is answered with
it alone. -/
theorem inNetwork_iff_leading_bits (identity : Identity) (text : String) (lengths : CidrLengths) :
    (identity.inNetwork text lengths = true ↔
      ∃ a, Address.read text = some a ∧ a.width = identity.client.width ∧
        a.bits.take (lengths.lengthOf identity.client) =
          identity.client.bits.take (lengths.lengthOf identity.client)) ∧
    (∀ shorter : CidrLengths,
      shorter.lengthOf identity.client ≤ lengths.lengthOf identity.client →
        identity.inNetwork text lengths = true → identity.inNetwork text shorter = true) ∧
    (lengths.lengthOf identity.client = 0 → (identity.inNetwork text lengths = true ↔
      ∃ a, Address.read text = some a ∧ a.width = identity.client.width)) ∧
    (lengths.lengthOf identity.client = identity.client.width →
      (identity.inNetwork text lengths = true ↔ Address.read text = some identity.client)) ∧
    (∀ {width : Nat} (net : Network width) (member : BitVec width),
      net.truncated.contains member = net.contains member) ∧
    (∀ (literal : List Char) (mechanism : Mechanism),
      Record.HoldsNetwork literal lengths mechanism →
        ∀ (ctx : Context) (s : State) (host : String) (frames : List Frame),
          mechanismStep ctx s mechanism =
            s.settle (s.identity.inNetwork (String.ofList literal) lengths) ∧
          (((Purpose.addresses lengths).use ctx (.ok host) s).above frames).resume ctx
            (.ok [String.ofList literal]) = (mechanismStep ctx s mechanism).above frames) ∧
    ∀ (literal : List Char) (mechanism : Mechanism),
      Record.HoldsNetwork literal lengths mechanism →
        ∀ (ctx : Context) (s : State) (frames : List Frame) (qualifier : Qualifier)
            (spec : Option String), s.verdict = none →
          MatchAlike ctx s frames qualifier mechanism spec lengths (String.ofList literal) := by
  refine ⟨inNetwork_iff, ?_, ?_, inNetwork_iff_of_whole, Network.contains_truncated, ?_, ?_⟩
  · intro shorter hle h
    obtain ⟨a, hr, hw, hb⟩ := inNetwork_iff.mp h
    refine inNetwork_iff.mpr ⟨a, hr, hw, ?_⟩
    have fewer := congrArg (List.take (shorter.lengthOf identity.client)) hb
    rwa [List.take_take, List.take_take, Nat.min_eq_left hle] at fewer
  · intro none
    rw [inNetwork_iff, none]
    simp
  · intro literal mechanism h ctx s host frames
    obtain ⟨a, hr, rfl⟩ := h.exists_around
    refine ⟨mechanismStep_around hr, ?_⟩
    rw [mechanismStep_around hr]
    exact resume_addresses _ frames
  · intro literal mechanism h ctx s frames qualifier spec undecided
    obtain ⟨a, hr, rfl⟩ := h.exists_around
    exact matchAlike_around frames qualifier spec undecided hr

/-! ## The client in other spellings -/

theorem normal_client {address sender helo : String} {timestamp : Int} {identity : Identity}
    (h : read address sender helo timestamp = .ok identity) :
    identity.client.normal = identity.client := by
  unfold read at h
  split at h
  · cases h
  · rename_i client _
    dsimp only at h
    split at h
    · cases h
    · cases h
      exact client.normal_normal

theorem isClient_iff {identity : Identity} {text : String} : identity.isClient text = true ↔
    ∃ a, Address.read text = some a ∧ a.normal = identity.client := by
  rw [isClient, decide_eq_true_iff, Option.map_eq_some_iff]

/-- An address is the client's if the client is alone in its network, or if it is the IPv4-mapped
spelling of the client's, whose networks hold no IPv4 address. -/
theorem isClient_iff_inNetwork {address sender helo : String} {timestamp : Int}
    {identity : Identity} (h : read address sender helo timestamp = .ok identity) (text : String) :
    (identity.isClient text = true ↔ identity.inNetwork text .full = true ∨
      ∃ word inner, Address.read text = some (.v6 word) ∧ Address.mapped? word = some inner ∧
        identity.client = .v4 inner) ∧
    (∀ word inner, Address.read text = some (.v6 word) → identity.client = .v4 inner →
      ∀ lengths, identity.inNetwork text lengths = false) := by
  have whole : CidrLengths.full.lengthOf identity.client = identity.client.width := by
    cases identity.client <;> rfl
  rw [isClient_iff, inNetwork_iff_of_whole whole]
  refine ⟨⟨?_, ?_⟩, ?_⟩
  · rintro ⟨a, hr, hn⟩
    cases a with
    | v4 word => exact .inl (hn ▸ hr)
    | v6 word =>
      cases hm : Address.mapped? word with
      | none =>
        rw [Address.normal, hm] at hn
        exact .inl (hn ▸ hr)
      | some inner =>
        rw [Address.normal, hm] at hn
        exact .inr ⟨word, inner, hr, hm, hn.symm⟩
  · rintro (hr | ⟨word, inner, hr, hm, hc⟩)
    · exact ⟨_, hr, normal_client h⟩
    · exact ⟨_, hr, by rw [Address.normal, hm, hc]⟩
  · intro word inner hr hc lengths
    simp [inNetwork, hr, hc]

/-- An IPv4 client is found again in its IPv4-mapped spelling. -/
theorem isClient_iff_inNetwork_of_mapped :
    ∃ identity, read "192.0.2.1" "user@example.com" "mx.example.org" 0 = .ok identity ∧
      identity.isClient "::ffff:192.0.2.1" = true := by
  have spelled : Address.read "::ffff:192.0.2.1" = some (.v6 0xffffc0000201#128) := by decide
  have mapped : Address.mapped? 0xffffc0000201#128 = some 0xc0000201#32 := by decide
  refine ⟨⟨.v4 0xc0000201#32, "user@example.com", "user", "example.com", "mx.example.org", 0⟩,
    by decide, ?_⟩
  have agree := @isClient_iff_inNetwork "192.0.2.1" "user@example.com" "mx.example.org" 0
    ⟨.v4 0xc0000201#32, "user@example.com", "user", "example.com", "mx.example.org", 0⟩ (by decide)
  exact (agree "::ffff:192.0.2.1").1.mpr (.inr ⟨_, _, spelled, mapped, rfl⟩)

/-- The IPv4-mapped spelling of the client's address is the client's, and yet not in the network of
the client alone. -/
theorem mapped_client_outside_network :
    ∃ identity, read "192.0.2.1" "user@example.com" "mx.example.org" 0 = .ok identity ∧
      identity.isClient "::ffff:192.0.2.1" = true ∧
      identity.inNetwork "::ffff:192.0.2.1" .full = false :=
  ⟨_, rfl, by decide, by decide⟩

end Identity

end SenderPolicy
