import SenderPolicy.Evaluation.Acquisition
import SenderPolicy.Outcome

/-!
# Direct evaluation

What a policy says can be read off without a machine: a domain is evaluated by acquiring its
record, trying its directives in order, and following its modifiers and decorations in order;
another domain that a term refers to is evaluated by recursion. Lookups are answered on the spot,
and the first error ends the evaluation.

## Main definitions

* `Knowledge`, `Eval`: what all evaluations of a check share, and a computation that adds to it
* `Standing`: how far the evaluation of a domain has come
* `acquire`: the record of a domain
* `evaluate`: the evaluation of a domain
* `Direct.outcome`: the lookups and the outcome of a check
-/

namespace SenderPolicy.Evaluation.Direct

/-! ## Computations with lookups

What is known grows from lookup to lookup and survives failures; an included policy adds to what
the including one knows. Everything else is passed down and handed back. -/

/-- What all evaluations of a check share. -/
structure Knowledge where
  /-- The number of terms with lookups entered so far. -/
  depth : Nat
  /-- The client's validated name, once it was looked up. -/
  clientDomain : Option String
  /-- The receiver's name, once given or needed. -/
  receivingDomain : Option String
  /-- The lookups made so far, in order. -/
  requests : List Dns.Request
deriving DecidableEq, Repr

/-- A computation that makes lookups and can fail. What was found out before a failure stays. -/
abbrev Eval := ExceptT Error (StateM Knowledge)

/-- What an evaluation does not change. -/
structure Situation where
  ctx : Context
  service : Dns.Service
  identity : Identity

/-- Makes a lookup. -/
def ask (given : Situation) (host : String) (type : Dns.RecordType) : Eval Dns.Answer := do
  modify fun k => { k with requests := k.requests ++ [⟨host, type⟩] }
  return given.service ⟨host, type⟩

/-- Makes a lookup whose failure is an error. -/
def askRecords (given : Situation) (host : String) (type : Dns.RecordType) :
    Eval (List String) := do
  match ← ask given host type with
  | .ok records => return records
  | .error cause => throw (.lookup cause)

/-- Makes a lookup whose failure is an empty answer. -/
def askNames (given : Situation) (host : String) (type : Dns.RecordType) :
    Eval (List String) := do
  match ← ask given host type with
  | .ok records => return records
  | .error _ => return []

/-- Enters a term with lookups. -/
def count : Eval Unit := do
  if (← get).depth < maxTerms then modify fun k => { k with depth := k.depth + 1 }
  else throw (.tooManyTerms maxTerms)

/-! ## Templates -/

/-- The values that templates refer to while a domain is evaluated. -/
def valuesOf (identity : Identity) (domain : String) (k : Knowledge) : Macro.Values where
  address := identity.client.dotted
  sender := identity.sender
  localPart := identity.localPart
  senderDomain := identity.senderDomain
  helo := identity.helo
  domain := domain
  family := identity.client.familyLabel
  readableAddress := identity.client.write
  clientDomain := k.clientDomain
  receivingDomain := k.receivingDomain
  timestamp := identity.timestamp

/-- Validates the client's first name: it counts if its addresses hold the client's. -/
def validateClient (given : Situation) : Eval Unit := do
  match ← askNames given given.identity.reverseName .ptr with
  | [] => modify fun k => { k with clientDomain := some "unknown" }
  | name :: _ =>
    -- a failed lookup validates nothing
    let addresses ← askNames given name given.identity.addressType
    let valid := addresses.any given.identity.isClient
    modify fun k => { k with clientDomain := some (if valid then name else "unknown") }

/-- Settles the receiver's name before the first explanation that refers to it. -/
def settleReceiver (given : Situation) (site : Macro.Site) (template : String) : Eval Unit := do
  if site = .explanation ∧ (← get).receivingDomain = none ∧
      Macro.mentionsReceivingDomain template then
    modify fun k => { k with
      receivingDomain := some (Macro.fallbackReceivingDomain given.ctx.localNames) }

/-- The text of a template, or the reason why it is refused. The client's name is validated when a
template first asks for it. -/
def expand (given : Situation) (site : Macro.Site) (domain template : String) :
    Eval (Except Error String) := do
  settleReceiver given site template
  let attempt (k : Knowledge) : Except Macro.Obstacle String :=
    Macro.expand (valuesOf given.identity domain k) given.ctx.localNames site template
  match attempt (← get) with
  | .ok text => return .ok text
  | .error (.refused cause) => return .error cause
  | .error .clientDomainUnknown =>
    validateClient given
    match attempt (← get) with
    | .ok text => return .ok text
    | .error (.refused cause) => return .error cause
    -- the validation has given the client a name, so it is not asked for again
    | .error .clientDomainUnknown => return .error (.malformedTemplate template)

/-- The domain of a template; a refused template is an error. -/
def target (given : Situation) (domain template : String) : Eval String := do
  match ← expand given .domain domain template with
  | .ok text => return text
  | .error cause => throw cause

/-! ## The record of a domain -/

/-- What the stages have found of a record: its text, which is still to be read, and the record. -/
structure Found where
  text : Option String
  record : Option Record
deriving DecidableEq, Repr

/-- The text of the published record. -/
def published (given : Situation) (domain : String) (isStrict : Bool) : Eval (Option String) := do
  let other ← liftExcept (selectPolicy (← askRecords given domain .spf))
  if ¬isStrict ∧ other.isSome then return other
  let text ← liftExcept (selectPolicy (← askRecords given domain .txt))
  if isStrict then liftExcept (agreed other text) else return text
where
  /-- A result that may be an error. -/
  liftExcept {α : Type} (result : Except Error α) : Eval α :=
    match result with
    | .ok value => return value
    | .error cause => throw cause

/-- One stage on the way to the record of a domain. -/
def acquireStage (given : Situation) (domain : String) (found : Found) :
    Policy.Stage → Eval Found
  | .overrides table =>
    return { found with record := (table.lookup domain).or found.record }
  | .wellFormed => do
    if ¬Domain.WellFormed domain then throw (.malformedDomain domain)
    return found
  | .published isStrict => do
    if found.record.isSome ∨ found.text.isSome then return found
    return { found with text := ← published given domain isStrict }
  | .bestGuess text =>
    if found.record.isNone ∧ found.text.isNone then return { found with text := some text }
    else return found
  | .parsed =>
    match found.text with
    | none => return found
    | some text =>
      match Record.parse text with
      | .ok record => return { text := none, record := some record }
      | .error cause => throw cause
  | .fallbacks table => return { found with record := found.record.or (table.lookup domain) }
  | .required => do
    if found.record.isNone then throw (.nothingPublished domain)
    return found
  | .trustedForwarder forwarder =>
    if Text.sameFolded domain forwarder then return found
    else return { found with record := found.record.map (permitForwarder forwarder) }
  | .neutralWithoutMatch =>
    return { found with record := found.record.map fun record =>
      if record.directives = [] then record else decorate .neutralWithoutMatch record }
  | .explanation template =>
    return { found with record := found.record.map (decorate (.explanation template)) }

/-- The record of a domain: what the stages of the policy find one after the other. -/
def acquire (given : Situation) (domain : String) : Eval Record := do
  let found ← given.ctx.policy.stages.foldlM (acquireStage given domain) ⟨none, none⟩
  match found.record with
  | some record => return record
  | none => throw (.nothingToEvaluate domain)

/-! ## The terms of a record -/

/-- How far the evaluation of a domain has come. -/
structure Standing where
  /-- The domain under evaluation. -/
  domain : String
  /-- The qualifier that a directive or the end of a record has committed. -/
  verdict : Option Qualifier
  /-- The explanation of a failure, once expanded. -/
  explanation : Option String
  /-- Explanations are not evaluated. -/
  isMuted : Bool
deriving DecidableEq, Repr

/-- An evaluation on behalf of another policy, for which a missing policy is an error. -/
def onBehalf (refer : Error → Error) (evaluation : Eval Standing) : Eval Standing :=
  tryCatch evaluation fun cause =>
    throw (if cause.result = .none then refer cause else cause)

/-- One of the exchanges has an address whose network holds the client; no later one is looked up
then. -/
def exchangesMatch (given : Situation) (lengths : CidrLengths) : List String → Eval Bool
  | [] => return false
  | host :: rest => do
    let addresses ← askRecords given host given.identity.addressType
    if addresses.any fun a => given.identity.inNetwork a lengths then return true
    else exchangesMatch given lengths rest

/-- One of the names has the client's address; no later one is looked up then. -/
def namesMatch (given : Situation) : List String → Eval Bool
  | [] => return false
  | name :: rest => do
    let addresses ← askNames given name given.identity.addressType
    if addresses.any given.identity.isClient then return true
    else namesMatch given rest

/-- The mechanism matches the client. Another policy is evaluated as given. -/
def mechanismMatches (given : Situation) (evaluate : Standing → Eval Standing) (domain : String) :
    Mechanism → Eval Bool
  | .all => return true
  | .network4 net =>
    match given.identity.client with
    | .v4 client => return net.contains client
    | .v6 _ => return false
  | .network6 net =>
    match given.identity.client with
    | .v4 _ => return false
    | .v6 client => return net.contains client
  | .address spec lengths => do
    count
    let host ← target given domain (spec.getD domain)
    let addresses ← askRecords given host given.identity.addressType
    return addresses.any fun a => given.identity.inNetwork a lengths
  | .exchange spec lengths => do
    count
    let host ← target given domain (spec.getD domain)
    let exchanges ← askRecords given host .mx
    exchangesMatch given lengths (exchanges.take given.ctx.recordLimit)
  | .pointer spec => do
    count
    let within ← target given domain (spec.getD domain)
    let names ← askNames given given.identity.reverseName .ptr
    namesMatch given
      ((names.take given.ctx.recordLimit).filter fun name => Domain.isWithin name within)
  | .existing spec => do
    count
    let host ← target given domain spec
    return !(← askRecords given host .a).isEmpty
  | .included spec => do
    count
    let included ← target given domain spec
    -- the included policy decides nothing but the match, and explains nothing
    let standing ← onBehalf (.includedWithoutPolicy included)
      (evaluate ⟨included, none, none, true⟩)
    return standing.verdict = some .pass

/-- Tries a directive, unless a qualifier is committed. -/
def tryDirective (given : Situation) (evaluate : Standing → Eval Standing) (standing : Standing)
    (directive : Directive) : Eval Standing := do
  if standing.verdict.isSome then return standing
  if ← mechanismMatches given evaluate standing.domain directive.mechanism then
    return { standing with verdict := some directive.qualifier }
  else return standing

/-- Explains a failure by a template of the receiver; a refused template explains nothing. -/
def explainBy (given : Situation) (template : String) (standing : Standing) : Eval Standing := do
  match ← expand given .explanation standing.domain template with
  | .ok text => return { standing with explanation := some text }
  | .error _ => return standing

/-- Explains a failure by the receiver's template, if there is one. -/
def explainByDefault (given : Situation) (standing : Standing) : Eval Standing :=
  match given.ctx.policy.defaultExplanation with
  | some template => explainBy given template standing
  | none => return standing

/-- Explains a failure by the one text that a domain publishes; whatever goes wrong leaves the
receiver's explanation. -/
def explainByPublished (given : Situation) (spec : String) (standing : Standing) :
    Eval Standing := do
  match ← expand given .domain standing.domain spec with
  | .error _ => explainByDefault given standing
  | .ok host =>
    match ← askNames given host .txt with
    | [template] =>
      match ← expand given .explanation standing.domain template with
      | .ok text => return { standing with explanation := some text }
      | .error _ => explainByDefault given standing
    | _ => explainByDefault given standing

/-- Follows a modifier. Another policy is evaluated as given. -/
def followModifier (given : Situation) (evaluate : Standing → Eval Standing)
    (standing : Standing) : Modifier → Eval Standing
  | .redirect spec => do
    if standing.verdict.isSome then return standing
    count
    let redirected ← target given standing.domain spec
    -- the target goes on where this record stands, and explains what it decides
    let last ← onBehalf (.redirectedWithoutPolicy redirected)
      (evaluate { standing with domain := redirected })
    return { last with isMuted := true }
  | .explanation spec =>
    if standing.verdict = some .fail ∧ ¬standing.isMuted then
      explainByPublished given spec standing
    else return standing
  | .unknown _ _ => return standing

/-- Follows a decoration. -/
def followDecoration (given : Situation) (standing : Standing) : Decoration → Eval Standing
  | .neutralWithoutMatch =>
    return { standing with verdict := standing.verdict.or (some .neutral) }
  | .explanation template =>
    if standing.verdict = some .fail ∧ standing.explanation = none ∧ ¬standing.isMuted then
      explainBy given template standing
    else return standing

/-- The evaluation of a domain. Every domain that a term refers to costs a term, so an allowance
above the number of terms is never used up. -/
def evaluate (given : Situation) : Nat → Standing → Eval Standing
  | 0, _ => throw (.tooManyTerms maxTerms)
  | allowance + 1, standing => do
    let record ← acquire given standing.domain
    let standing ← record.directives.foldlM
      (tryDirective given (evaluate given allowance)) standing
    let standing ← record.modifiers.foldlM
      (followModifier given (evaluate given allowance)) standing
    record.decorations.foldlM (followDecoration given) standing

/-! ## Whole checks -/

/-- The evaluation of the sender's domain. -/
def evaluateSender (given : Situation) : Eval Standing :=
  evaluate given (maxTerms + 1) ⟨given.identity.senderDomain, none, none, false⟩

/-- The result and the explanation of an evaluation that has ended. -/
def conclude : Except Error Standing → Result × Option String
  | .ok standing => ((standing.verdict.map Qualifier.result).getD .neutral, standing.explanation)
  | .error cause => (cause.result, none)

/-- The lookups and the outcome of a check. -/
def outcome (given : Situation) (receivingDomain : Option String) :
    List Dns.Request × Outcome :=
  let (ended, k) := (evaluateSender given).run.run ⟨0, none, receivingDomain, []⟩
  let (result, explanation) := conclude ended
  (k.requests, .ofResult result given.identity.headerFields explanation)

end SenderPolicy.Evaluation.Direct
