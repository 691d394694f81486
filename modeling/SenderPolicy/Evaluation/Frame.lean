import SenderPolicy.Evaluation.State

/-!
# Frames and listeners

The work that is left of a check is a stack of frames. A frame finishes at once, leaves further
frames in its place, waits for a lookup, or fails. What waits for a lookup is a listener, which
goes on with the answer in the same four ways. Frames and listeners are data, so that a check can
be put aside at every lookup.

## Main definitions

* `Purpose`: what the expansion of a template is for
* `Frame`: a piece of work that is left
* `Listener`: what waits for an answer
* `Signal`, `Reaction`: how a frame or a listener ends
-/

namespace SenderPolicy.Evaluation

/-- What the expansion of a template is for. -/
inductive Purpose where
  /-- A domain whose addresses are compared with the client's. -/
  | addresses (lengths : CidrLengths)
  /-- A domain whose mail exchanges are considered. -/
  | exchanges (lengths : CidrLengths)
  /-- A domain that the client's names are to be within. -/
  | pointer
  /-- A domain that is to have an address. -/
  | existence
  /-- A domain whose policy is included. -/
  | inclusion
  /-- A domain whose policy takes over. -/
  | redirection
  /-- A domain that publishes an explanation. -/
  | explanationDomain
  /-- A published explanation. -/
  | explanation
  /-- The receiver's explanation. -/
  | defaultExplanation
deriving DecidableEq, Repr

/-- Where the templates of a purpose stand. -/
def Purpose.site : Purpose → Macro.Site
  | explanation | defaultExplanation => .explanation
  | _ => .domain

/-- A piece of work that is left of a check. -/
inductive Frame where
  /-- Commit the result; the last frame of every check. -/
  | conclusion
  /-- Evaluate the policy of the current domain. -/
  | evaluation
  /-- A stage on the way to the record. -/
  | stage (stage : Policy.Stage)
  /-- Evaluate the terms of the record. -/
  | terms
  /-- Try a directive. -/
  | directive (directive : Directive)
  /-- Commit the qualifier if the mechanism has matched. -/
  | commitment (qualifier : Qualifier)
  /-- Follow a modifier. -/
  | modifier (modifier : Modifier)
  /-- Follow a decoration. -/
  | decoration (decoration : Decoration)
  /-- Turn the result of an included policy into a match, and put back what the inclusion set
  aside. -/
  | restoration (domain : String) (explanation : Option String) (isMuted : Bool)
  /-- Silence the explanations of a record whose redirection has been followed. -/
  | arrival
  /-- Expand a template again, now that the client's name is known. -/
  | expansion (template : String) (purpose : Purpose)

/-- What waits for an answer. -/
inductive Listener where
  /-- The records of the type set aside for policies. -/
  | policyRecords (domain : String) (isStrict : Bool)
  /-- The text records, with the record that the other type holds. -/
  | textRecords (isStrict : Bool) (other : Option String)
  /-- The addresses of a domain. -/
  | addresses (lengths : CidrLengths)
  /-- The mail exchanges of a domain. -/
  | exchanges (lengths : CidrLengths)
  /-- The addresses of an exchange, with the exchanges to come. -/
  | exchangeAddresses (rest : List String) (lengths : CidrLengths)
  /-- The client's names, to be compared with a domain. -/
  | pointers (target : String)
  /-- The addresses of a name of the client, with the names to come. -/
  | pointerAddresses (rest : List String)
  /-- The addresses of a domain, of which there is to be one. -/
  | existence
  /-- The published explanation. -/
  | explanationTexts
  /-- The client's names, of which the first is validated. -/
  | clientNames
  /-- The addresses of the client's first name. -/
  | clientAddresses (name : String)
deriving DecidableEq, Repr

/-- How a frame or a listener ends. -/
inductive Signal where
  /-- Go on with the next frame. -/
  | proceed
  /-- Put the check aside until the answer is there. -/
  | await (request : Dns.Request) (listener : Listener)
  /-- Give the next frames the chance to handle the cause. -/
  | raise (cause : Error)
deriving DecidableEq, Repr

/-- The state behind a frame or a listener, the frames it leaves, the next one first, and how it
ends. -/
structure Reaction where
  state : State
  frames : List Frame
  signal : Signal

namespace Reaction

/-- The end of a frame that leaves nothing. -/
def done (s : State) : Reaction := ⟨s, [], .proceed⟩

/-- The end of a frame that leaves other frames in its place. -/
def leave (s : State) (frames : List Frame) : Reaction := ⟨s, frames, .proceed⟩

/-- The end of a frame that needs a lookup. -/
def await (s : State) (host : String) (type : Dns.RecordType) (listener : Listener) : Reaction :=
  ⟨s, [], .await ⟨host, type⟩ listener⟩

/-- The end of a frame that fails. -/
def fail (s : State) (cause : Error) : Reaction := ⟨s, [], .raise cause⟩

end Reaction

end SenderPolicy.Evaluation
