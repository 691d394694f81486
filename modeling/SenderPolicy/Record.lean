import SenderPolicy.Address
import SenderPolicy.Result

/-!
# Policy records

A record lists directives, tried in order, and modifiers, read after them. A directive is a
mechanism, which matches some clients, with the qualifier that it gives to those it matches.

## Main definitions

* `Mechanism`, `Directive`, `Modifier`: the terms of a record
* `Decoration`: what a policy adds to the end of every record it evaluates
* `Record`: the terms of a record in order, with the text they were read from
-/

namespace SenderPolicy

/-- The lengths of the two networks around an address that a mechanism looks up. -/
structure CidrLengths where
  ip4 : Fin 33
  ip6 : Fin 129
deriving DecidableEq, Repr

/-- The lengths of a mechanism that is written without any: the address alone. -/
def CidrLengths.full : CidrLengths := ⟨32, 128⟩

/-- Which clients a directive matches. -/
inductive Mechanism where
  /-- Every client. -/
  | all
  /-- The clients that another domain's policy passes. -/
  | included (domain : String)
  /-- The clients in a network around an address of the domain. -/
  | address (domain : Option String) (lengths : CidrLengths)
  /-- The clients in a network around an address of a mail exchange of the domain. -/
  | exchange (domain : Option String) (lengths : CidrLengths)
  /-- The clients whose validated name is within the domain. -/
  | pointer (domain : Option String)
  /-- The clients in an IPv4 network. -/
  | network4 (network : Network 32)
  /-- The clients in an IPv6 network. -/
  | network6 (network : Network 128)
  /-- Every client, provided the domain has an address. -/
  | existing (domain : String)
deriving DecidableEq, Repr

/-- The word that names a mechanism in a record. -/
def Mechanism.keyword : Mechanism → String
  | all => "all"
  | included _ => "include"
  | address _ _ => "a"
  | exchange _ _ => "mx"
  | pointer _ => "ptr"
  | network4 _ => "ip4"
  | network6 _ => "ip6"
  | existing _ => "exists"

/-- A mechanism and what it says about the clients it matches. -/
structure Directive where
  qualifier : Qualifier
  mechanism : Mechanism
deriving DecidableEq, Repr

/-- What a record says beside its directives. -/
inductive Modifier where
  /-- The domain whose policy decides when no directive matches. -/
  | redirect (domain : String)
  /-- The domain that publishes an explanation for failures. -/
  | explanation (domain : String)
  /-- A modifier without meaning, kept as it is written. -/
  | unknown (name : String) (value : String)
deriving DecidableEq, Repr

namespace Modifier

/-- The word in front of a modifier's equals sign. -/
def name : Modifier → String
  | redirect _ => "redirect"
  | explanation _ => "exp"
  | unknown name _ => name

/-- The text behind a modifier's equals sign. -/
def value : Modifier → String
  | redirect domain => domain
  | explanation domain => domain
  | unknown _ value => value

/-- The modifier may stand once in a record. -/
def isSingle : Modifier → Bool
  | redirect _ | explanation _ => true
  | unknown _ _ => false

/-- Both modifiers are of one kind, of which a record may hold one. -/
def clashes : Modifier → Modifier → Bool
  | redirect _, redirect _ => true
  | explanation _, explanation _ => true
  | _, _ => false

theorem clashes_comm (m m' : Modifier) : m.clashes m' = m'.clashes m := by
  cases m <;> cases m' <;> rfl

end Modifier

/-- What a policy adds to the end of every record it evaluates. -/
inductive Decoration where
  /-- The result is neutral when no directive matches. -/
  | neutralWithoutMatch
  /-- The template explains a failure for which the record gives no explanation. -/
  | explanation (template : String)
deriving DecidableEq, Repr

/-- The terms of a record, with the text they were read from. -/
structure Record where
  text : String
  directives : List Directive
  modifiers : List Modifier
  decorations : List Decoration
deriving DecidableEq, Repr

end SenderPolicy
