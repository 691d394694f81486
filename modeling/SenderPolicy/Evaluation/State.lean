import SenderPolicy.Dns
import SenderPolicy.Identity.Client
import SenderPolicy.Macro.Expansion
import SenderPolicy.Policy

/-!
# The state of a check

A check keeps the identities it is about, what it has found out, and how far the evaluation of
the current domain has come. All of it is carried across lookups.

## Main definitions

* `Context`: the receiver's policy and what its resolver is set to
* `State`: the state of a check
* `State.values`: the values that templates refer to
* `State.conclude`: the result, committed once
-/

namespace SenderPolicy.Evaluation

/-- What a check does not change: the receiver's policy, its own names, and the number of exchanges
or names that one mechanism considers. -/
structure Context where
  policy : Policy
  localNames : List String
  recordLimit : Nat

/-- The most terms with lookups that a check enters. -/
def maxTerms : Nat := 10

/-- The state of a check. -/
structure State where
  identity : Identity
  /-- The receiver's name, once given or needed. -/
  receivingDomain : Option String
  /-- The client's validated name, once it was looked up. -/
  clientDomain : Option String
  /-- The domain under evaluation. -/
  domain : String
  /-- The number of terms with lookups entered so far. -/
  depth : Nat
  /-- The qualifier that a directive or the end of a record has committed. -/
  verdict : Option Qualifier
  /-- The explanation of a failure, once expanded. -/
  explanation : Option String
  /-- Explanations are not evaluated. -/
  isMuted : Bool
  /-- The mechanism under evaluation matches, once that is known. -/
  matched : Option Bool
  /-- The text of a record that is still to be read. -/
  text : Option String
  /-- A record that is still to be evaluated. -/
  record : Option Record
  /-- The result of the check, once committed. -/
  result : Option Result
deriving DecidableEq, Repr

namespace State

/-- The state in which the sender's domain is about to be evaluated. -/
def initial (identity : Identity) (receivingDomain : Option String) : State where
  identity := identity
  receivingDomain := receivingDomain
  clientDomain := none
  domain := identity.senderDomain
  depth := 0
  verdict := none
  explanation := none
  isMuted := false
  matched := none
  text := none
  record := none
  result := none

/-- The values that templates refer to. -/
def values (s : State) : Macro.Values where
  address := s.identity.client.dotted
  sender := s.identity.sender
  localPart := s.identity.localPart
  senderDomain := s.identity.senderDomain
  helo := s.identity.helo
  domain := s.domain
  family := s.identity.client.familyLabel
  readableAddress := s.identity.client.write
  clientDomain := s.clientDomain
  receivingDomain := s.receivingDomain
  timestamp := s.identity.timestamp

/-- The result of a check is committed once. -/
def conclude (s : State) (result : Result) : State :=
  match s.result with
  | none => { s with result := some result }
  | some _ => s

@[simp] theorem conclude_identity (s : State) (result : Result) :
    (s.conclude result).identity = s.identity := by
  unfold conclude
  split <;> rfl

@[simp] theorem conclude_depth (s : State) (result : Result) :
    (s.conclude result).depth = s.depth := by
  unfold conclude
  split <;> rfl

@[simp] theorem conclude_clientDomain (s : State) (result : Result) :
    (s.conclude result).clientDomain = s.clientDomain := by
  unfold conclude
  split <;> rfl

end State

end SenderPolicy.Evaluation
