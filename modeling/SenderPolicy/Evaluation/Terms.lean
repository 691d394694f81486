import SenderPolicy.Evaluation.Acquisition

/-!
# Terms under evaluation

A directive is tried unless an earlier one has committed its qualifier. Mechanisms that look
something up, and redirections, are counted; the check fails when it enters one too many.

## Main definitions

* `State.counted`: enter a term with lookups
* `mechanismStep`: the reaction of a mechanism
* `modifierStep`, `decorationStep`: the reactions of what follows the directives
* `exchangesAnswered`, `pointersAnswered` and their like: the reactions to the answers
-/

namespace SenderPolicy.Evaluation

/-- Enters a term with lookups; one too many is a cause. -/
def State.counted (s : State) (enter : State → Reaction) : Reaction :=
  if s.depth < maxTerms then enter { s with depth := s.depth + 1 }
  else .fail s (.tooManyTerms maxTerms)

/-- The mechanism under evaluation matches, or does not. -/
def State.settle (s : State) (isMatch : Bool) : Reaction :=
  .done { s with matched := some isMatch }

/-- Looks the next exchange's addresses up; without another exchange there is no match. -/
def nextExchange (lengths : CidrLengths) (s : State) : List String → Reaction
  | [] => s.settle false
  | host :: rest => .await s host s.identity.addressType (.exchangeAddresses rest lengths)

/-- Looks the next name's addresses up; without another name there is no match. -/
def nextPointer (s : State) : List String → Reaction
  | [] => s.settle false
  | name :: rest => .await s name s.identity.addressType (.pointerAddresses rest)

/-- The reaction of a mechanism. A mechanism without a domain is about the current one. -/
def mechanismStep (ctx : Context) (s : State) : Mechanism → Reaction
  | .all => s.settle true
  | .network4 net =>
    match s.identity.client with
    | .v4 client => s.settle (net.contains client)
    | .v6 _ => s.settle false
  | .network6 net =>
    match s.identity.client with
    | .v4 _ => s.settle false
    | .v6 client => s.settle (net.contains client)
  | .address domain lengths =>
    s.counted (expandTo ctx (.addresses lengths) (domain.getD s.domain))
  | .exchange domain lengths =>
    s.counted (expandTo ctx (.exchanges lengths) (domain.getD s.domain))
  | .pointer domain => s.counted (expandTo ctx .pointer (domain.getD s.domain))
  | .existing domain => s.counted (expandTo ctx .existence domain)
  | .included domain => s.counted (expandTo ctx .inclusion domain)

/-- The reaction of a directive: its mechanism is evaluated above the frame that commits its
qualifier. -/
def directiveStep (ctx : Context) (s : State) (d : Directive) : Reaction :=
  if s.verdict.isSome then .done s
  else
    -- what an earlier mechanism has found does not count for this one
    let reaction := mechanismStep ctx { s with matched := none } d.mechanism
    { reaction with frames := reaction.frames ++ [.commitment d.qualifier] }

/-- Commits a qualifier if the mechanism has matched. -/
def State.commit (s : State) (qualifier : Qualifier) : State :=
  if s.matched = some true then { s with verdict := some qualifier } else s

/-- The reaction of a modifier. -/
def modifierStep (ctx : Context) (s : State) : Modifier → Reaction
  | .redirect domain =>
    -- a record that has decided is not taken over
    if s.verdict.isSome then .done s else s.counted (expandTo ctx .redirection domain)
  | .explanation domain =>
    if s.verdict = some .fail ∧ ¬s.isMuted then expandTo ctx .explanationDomain domain s
    else .done s
  | .unknown _ _ => .done s

/-- The reaction of a decoration. -/
def decorationStep (ctx : Context) (s : State) : Decoration → Reaction
  | .neutralWithoutMatch =>
    .done (if s.verdict.isNone then { s with verdict := some .neutral } else s)
  | .explanation template =>
    if s.verdict = some .fail ∧ s.explanation = none ∧ ¬s.isMuted then explainBy ctx template s
    else .done s

/-- The frames of the terms of a record: directives, modifiers and decorations, each in order. -/
def framesOf (record : Record) : List Frame :=
  record.directives.map .directive ++ record.modifiers.map .modifier ++
    record.decorations.map .decoration

/-- What holds of all directives, modifiers and decorations holds of the frames of a record. -/
theorem forall_mem_framesOf {P : Frame → Prop} (record : Record) (directive : ∀ d, P (.directive d))
    (modifier : ∀ m, P (.modifier m)) (decoration : ∀ d, P (.decoration d)) :
    ∀ f ∈ framesOf record, P f := by
  intro f hf
  simp only [framesOf, List.mem_append, List.mem_map] at hf
  obtain (⟨d, -, rfl⟩ | ⟨m, -, rfl⟩) | ⟨d, -, rfl⟩ := hf
  · exact directive d
  · exact modifier m
  · exact decoration d

/-- The reaction of a record that is to be evaluated. -/
def termsStep (s : State) : Reaction :=
  match s.record with
  | some record => .leave { s with record := none } (framesOf record)
  | none => .fail s (.nothingToEvaluate s.domain)

/-! ## Answers -/

/-- The reaction to the addresses of a domain. -/
def addressesAnswered (lengths : CidrLengths) (answer : Dns.Answer) (s : State) : Reaction :=
  match recordsOf answer with
  | .error cause => .fail s cause
  | .ok addresses => s.settle (addresses.any fun a => s.identity.inNetwork a lengths)

/-- The reaction to the mail exchanges of a domain. -/
def exchangesAnswered (ctx : Context) (lengths : CidrLengths) (answer : Dns.Answer) (s : State) :
    Reaction :=
  match recordsOf answer with
  | .error cause => .fail s cause
  | .ok exchanges => nextExchange lengths s (exchanges.take ctx.recordLimit)

/-- The reaction to the addresses of an exchange. -/
def exchangeAddressesAnswered (rest : List String) (lengths : CidrLengths) (answer : Dns.Answer)
    (s : State) : Reaction :=
  match recordsOf answer with
  | .error cause => .fail s cause
  | .ok addresses =>
    if addresses.any fun a => s.identity.inNetwork a lengths then s.settle true
    else nextExchange lengths s rest

/-- The reaction to the client's names; a failed lookup names nothing. -/
def pointersAnswered (ctx : Context) (target : String) (answer : Dns.Answer) (s : State) :
    Reaction :=
  match answer with
  | .error _ => nextPointer s []
  | .ok names =>
    -- the limit counts the names of the answer, also those outside the target
    nextPointer s ((names.take ctx.recordLimit).filter fun name => Domain.isWithin name target)

/-- The reaction to the addresses of a name; a failed lookup skips the name. -/
def pointerAddressesAnswered (rest : List String) (answer : Dns.Answer) (s : State) : Reaction :=
  match answer with
  | .error _ => nextPointer s rest
  | .ok addresses => if addresses.any s.identity.isClient then s.settle true else nextPointer s rest

/-- The reaction to the addresses of a domain, of which there is to be one. -/
def existenceAnswered (answer : Dns.Answer) (s : State) : Reaction :=
  match recordsOf answer with
  | .error cause => .fail s cause
  | .ok addresses => s.settle (!addresses.isEmpty)

/-- The reaction to a published explanation: the text is expanded if it is the only one; otherwise
the receiver explains. -/
def explanationAnswered (ctx : Context) (answer : Dns.Answer) (s : State) : Reaction :=
  match answer with
  | .ok [text] => expandTo ctx .explanation text s
  | _ => explainByDefault ctx s

end SenderPolicy.Evaluation
