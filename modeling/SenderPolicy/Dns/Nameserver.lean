import SenderPolicy.Address.Reader

/-!
# Servers that a resolver asks

A server listens at an address and a UDP number, which is 53 unless it is given behind the address.
An IPv6 address in front of a number stands in brackets, where another number may name its zone.

## Main definitions

* `Nameserver`: where a server listens
* `Nameserver.read`: the server of a text
-/

namespace SenderPolicy.Dns

open Text

/-- Where a server listens. -/
structure Nameserver where
  address : Address
  udpNumber : Nat
deriving DecidableEq, Repr

namespace Nameserver

/-- The number at which servers listen unless it is given. -/
def usualNumber : Nat := 53

/-- A decimal number below a bound, leading zeros allowed. -/
def readBelow (bound : Nat) (cs : List Char) : Option Nat :=
  match readDigits cs with
  | some n => if n < bound then some n else none
  | none => none

/-- The number at which a server listens. -/
def readNumber (cs : List Char) : Option Nat :=
  readBelow UInt16.size cs

/-- An IPv4 address with a number behind it. -/
def readV4Socket (cs : List Char) : Option Nameserver :=
  match pieces (· = ':') cs with
  | [address, number] => do
    return ⟨.v4 (← Address.readV4Chars address), ← readNumber number⟩
  | _ => none

/-- What stands between brackets: an IPv6 address, and the number of its zone if it has one. -/
def readZoned (cs : List Char) : Option (BitVec 128) :=
  match pieces (· = '%') cs with
  | [address] => (Address.readV6Groups address).map Address.ofGroups
  | [address, zone] => do
    let _ ← readBelow UInt32.size zone
    return Address.ofGroups (← Address.readV6Groups address)
  | _ => none

/-- An IPv6 address in brackets with a number behind it, read on from behind the opening bracket. -/
def readV6Socket (cs : List Char) : Option Nameserver :=
  match pieces (· = ']') cs with
  | [inside, ':' :: number] => do
    return ⟨.v6 (← readZoned inside), ← readNumber number⟩
  | _ => none

/-- The server of a text. -/
def read (s : String) : Option Nameserver :=
  let socket :=
    match s.toList with
    | '[' :: cs => readV6Socket cs
    | cs => readV4Socket cs
  match socket with
  | some server => some server
  | none => (Address.read s).map (⟨·, usualNumber⟩)

end Nameserver

end SenderPolicy.Dns
