import SenderPolicy.Executor
import SenderPolicy.Outcome

/-!
# Checks

A check asks whether a client may send mail for a sender. It never fails: whatever goes wrong is
reported as a result. Identities that cannot be read are reported at once.

## Main definitions

* `Inquiry`: the texts that a connection shows
* `Inquiry.begin`: the identities of a check that is about to start, or its outcome if there is
  nothing to evaluate
* `check`, `checkAll`: the lookups and outcomes of one check, and of checks that start at once
-/

namespace SenderPolicy

open Evaluation

/-- The texts that a connection shows, and the receiver's name if it is given. -/
structure Inquiry where
  address : String
  sender : String
  helo : String
  receivingDomain : Option String
deriving DecidableEq, Repr

/-- A check that is about to start, or its outcome if the identities cannot be read. -/
def Inquiry.begin (inquiry : Inquiry) (timestamp : Int) : Except Outcome Identity :=
  match Identity.read inquiry.address inquiry.sender inquiry.helo timestamp with
  | .ok identity => .ok identity
  | .error cause => .error (.ofResult cause.result
      (.ofTexts inquiry.address inquiry.sender inquiry.helo) none)

/-- The outcome of a check by its last state; a check that was lost could not be completed for
now. -/
def outcomeOf (identity : Identity) : Option State → Outcome
  | some last => .ofResult (last.result.getD .neutral) identity.headerFields last.explanation
  | none => .ofResult .tempError identity.headerFields none

/-- The machine of a check that is about to start. -/
def machineOf (identity : Identity) (receivingDomain : Option String) : Machine :=
  .begin (.initial identity receivingDomain)

/-- The lookups and the outcome of one check. -/
def check (ctx : Context) (service : Dns.Service) (executor : Executor) (timestamp : Int)
    (inquiry : Inquiry) : List Dns.Request × Outcome :=
  match inquiry.begin timestamp with
  | .error outcome => ([], outcome)
  | .ok identity =>
    let (requests, states) :=
      executor.execute ctx service [machineOf identity inquiry.receivingDomain]
    (requests, outcomeOf identity states.head?.join)

/-- The outcomes of checks in order: those of the ones with identities are taken from the list. -/
def merge : List (Except Outcome Identity) → List (Option State) → List Outcome
  | [], _ => []
  | .error outcome :: checks, states => outcome :: merge checks states
  | .ok identity :: checks, state :: states => outcomeOf identity state :: merge checks states
  | .ok identity :: checks, [] => outcomeOf identity none :: merge checks []

/-- The lookups and the outcomes of checks that start at once. -/
def checkAll (ctx : Context) (service : Dns.Service) (executor : Executor) (timestamp : Int)
    (inquiries : List Inquiry) : List Dns.Request × List Outcome :=
  let checks := inquiries.map (Inquiry.begin · timestamp)
  let machines := inquiries.filterMap fun inquiry =>
    (inquiry.begin timestamp).toOption.map (machineOf · inquiry.receivingDomain)
  let (requests, states) := executor.execute ctx service machines
  (requests, merge checks states)

end SenderPolicy
