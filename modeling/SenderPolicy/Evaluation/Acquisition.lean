import SenderPolicy.Evaluation.Template

/-!
# The record of a domain

The stages of the receiver's policy find the record of the current domain. What one stage finds
is handed to the next in two places of the state: a text that is still to be read, and a record
that is still to be evaluated.

## Main definitions

* `selectPolicy`: the one record among the texts of an answer
* `agreed`: the record of two types that have to agree
* `permitForwarder`: a record that includes the trusted forwarder
* `stageStep`: the reaction of a stage
* `policyAnswered`, `textAnswered`: the reactions to the answers that hold records
-/

namespace SenderPolicy.Evaluation

open Policy

/-- The one record among the texts of an answer; a second one is refused. -/
def selectPolicy (texts : List String) : Except Error (Option String) :=
  match texts.filter Record.isPolicy with
  | [] => .ok none
  | [text] => .ok (some text)
  | _ :: _ :: _ => .error .severalRecords

/-- The record of two types that have to agree: what the text type holds, if the other holds the
same or nothing. -/
def agreed (other text : Option String) : Except Error (Option String) :=
  match other, text with
  | some _, none => .error .onlySpfType
  | some other, some text => if other = text then .ok (some text) else .error .recordsDiffer
  | none, text => .ok text

/-- The records of an answer; a failed lookup is a cause. -/
def recordsOf : Dns.Answer → Except Error (List String)
  | .ok records => .ok records
  | .error cause => .error (.lookup cause)

/-- The directive that permits the clients of a forwarder. -/
def forwarderDirective (domain : String) : Directive :=
  ⟨.pass, .included domain⟩

/-- The directive turns away, or says nothing about, all clients. -/
def closesRecord (d : Directive) : Bool :=
  d.mechanism = .all && (d.qualifier = .fail || d.qualifier = .neutral)

/-- Directives with one more, in front of a last one that leaves nothing to decide. -/
def insertBeforeClose (added : Directive) (ds : List Directive) : List Directive :=
  match ds.getLast? with
  -- behind a directive that matches everyone the new one would never be tried
  | some last => if closesRecord last then ds.dropLast ++ [added, last] else ds ++ [added]
  | none => [added]

/-- A record that includes the trusted forwarder. -/
def permitForwarder (domain : String) (record : Record) : Record :=
  { record with directives := insertBeforeClose (forwarderDirective domain) record.directives }

/-- A record with one more decoration. -/
def decorate (decoration : Decoration) (record : Record) : Record :=
  { record with decorations := record.decorations ++ [decoration] }

/-- The reaction of a stage. -/
def stageStep (s : State) : Stage → Reaction
  | .overrides table =>
    match table.lookup s.domain with
    | some record => .done { s with record := some record }
    | none => .done s
  | .wellFormed =>
    if Domain.WellFormed s.domain then .done s else .fail s (.malformedDomain s.domain)
  | .published isStrict =>
    -- a local record takes the place of the published one
    if s.record.isSome ∨ s.text.isSome then .done s
    else .await s s.domain .spf (.policyRecords s.domain isStrict)
  | .bestGuess text =>
    if s.record.isNone ∧ s.text.isNone then .done { s with text := some text } else .done s
  | .parsed =>
    match s.text with
    | none => .done s
    | some text =>
      match Record.parse text with
      -- the text is spent, also if it cannot be read
      | .ok record => .done { s with text := none, record := some record }
      | .error cause => .fail { s with text := none } cause
  | .fallbacks table =>
    if s.record.isNone then .done { s with record := table.lookup s.domain } else .done s
  | .required =>
    if s.record.isNone then .fail s (.nothingPublished s.domain) else .done s
  | .trustedForwarder domain =>
    -- the forwarder's own record does not include itself
    if Text.sameFolded s.domain domain then .done s
    else .done { s with record := s.record.map (permitForwarder domain) }
  | .neutralWithoutMatch =>
    .done { s with record := s.record.map fun record =>
      if record.directives = [] then record else decorate .neutralWithoutMatch record }
  | .explanation template =>
    .done { s with record := s.record.map (decorate (.explanation template)) }

/-- The reaction to the records of the type set aside for policies. -/
def policyAnswered (domain : String) (isStrict : Bool) (answer : Dns.Answer) (s : State) :
    Reaction :=
  match recordsOf answer >>= selectPolicy with
  | .error cause => .fail s cause
  | .ok other =>
    -- the text records are not asked for unless they are needed
    if ¬isStrict ∧ other.isSome then .done { s with text := other }
    else .await s domain .txt (.textRecords isStrict other)

/-- The reaction to the text records. -/
def textAnswered (isStrict : Bool) (other : Option String) (answer : Dns.Answer) (s : State) :
    Reaction :=
  let found := do
    let text ← recordsOf answer >>= selectPolicy
    if isStrict then agreed other text else return text
  match found with
  | .error cause => .fail s cause
  | .ok text => .done { s with text := text }

end SenderPolicy.Evaluation
