import SenderPolicy.Evaluation.Frame

/-!
# Templates during a check

The template of a term or of an explanation is expanded for a purpose, and the text is put to use
at once. A template that asks for the client's name before it is validated is put aside: the
client's address is looked up in the reverse tree, the addresses of its first name are looked up,
and only then is the template expanded again. The name counts if they contain the client's
address; otherwise it is `unknown`.

## Main definitions

* `expandFor`: expand a template, or put it aside until the client's name is known
* `Purpose.use`: what is done with the text, or with the refusal, of a template
* `State.clientValidated`: the client's name after its validation
-/

namespace SenderPolicy.Evaluation

/-- The receiver's name, settled before the first explanation that refers to it. -/
def State.settleReceiver (s : State) (ctx : Context) (site : Macro.Site) (template : String) :
    State :=
  if site = .explanation ∧ s.receivingDomain = none ∧ Macro.mentionsReceivingDomain template then
    { s with receivingDomain := some (Macro.fallbackReceivingDomain ctx.localNames) }
  else s

/-- Expands a template and puts the text to use; a template that needs the client's name is put
aside until it is known. -/
def expandFor (ctx : Context) (template : String) (purpose : Purpose)
    (use : Except Error String → State → Reaction) (s : State) : Reaction :=
  let s := s.settleReceiver ctx purpose.site template
  match Macro.expand s.values ctx.localNames purpose.site template with
  | .ok text => use (.ok text) s
  | .error (.refused cause) => use (.error cause) s
  | .error .clientDomainUnknown =>
    -- behind the lookups the frame expands the same template for the same purpose
    ⟨s, [.expansion template purpose], .await ⟨s.identity.reverseName, .ptr⟩ .clientNames⟩

/-- Keeps an explanation; a template that is refused explains nothing. -/
def keepExplanation (expanded : Except Error String) (s : State) : Reaction :=
  match expanded with
  | .ok text => .done { s with explanation := some text }
  | .error _ => .done s

/-- Explains a failure by a template of the receiver. -/
def explainBy (ctx : Context) (template : String) (s : State) : Reaction :=
  expandFor ctx template .defaultExplanation keepExplanation s

/-- Explains a failure by the receiver's template, if there is one. -/
def explainByDefault (ctx : Context) (s : State) : Reaction :=
  match ctx.policy.defaultExplanation with
  | some template => explainBy ctx template s
  | none => .done s

/-- Sets the including policy aside and evaluates the included one, whose explanations count for
nothing. -/
def State.beginInclusion (s : State) (target : String) : Reaction :=
  .leave { s with domain := target, explanation := none, isMuted := true, verdict := none }
    [.evaluation, .restoration s.domain s.explanation s.isMuted]

/-- Puts back what an inclusion set aside. -/
def State.restore (s : State) (domain : String) (explanation : Option String) (isMuted : Bool) :
    State :=
  { s with domain := domain, explanation := explanation, isMuted := isMuted, verdict := none }

/-- What is done with the text, or with the refusal, of a template. A refused explanation, or a
refused domain that should publish one, leaves the receiver's explanation; any other refusal ends
the check. -/
def Purpose.use (ctx : Context) : Purpose → Except Error String → State → Reaction
  | addresses lengths, .ok host, s => .await s host s.identity.addressType (.addresses lengths)
  | exchanges lengths, .ok host, s => .await s host .mx (.exchanges lengths)
  -- what is looked up is the client's name; the target is compared with it later
  | pointer, .ok target, s => .await s s.identity.reverseName .ptr (.pointers target)
  | existence, .ok host, s => .await s host .a .existence
  | inclusion, .ok target, s => s.beginInclusion target
  | redirection, .ok target, s => .leave { s with domain := target } [.evaluation, .arrival]
  | explanationDomain, .ok host, s => .await s host .txt .explanationTexts
  | explanation, .ok text, s => .done { s with explanation := some text }
  | explanationDomain, .error _, s => explainByDefault ctx s
  | explanation, .error _, s => explainByDefault ctx s
  | defaultExplanation, expanded, s => keepExplanation expanded s
  | _, .error cause, s => .fail s cause

/-- The text of a receiver's template is kept, and a refusal is passed over. -/
theorem use_defaultExplanation (ctx : Context) :
    Purpose.use ctx .defaultExplanation = keepExplanation := by
  funext expanded s
  cases expanded <;> rfl

/-- Expands a template for a purpose. -/
def expandTo (ctx : Context) (purpose : Purpose) (template : String) (s : State) : Reaction :=
  expandFor ctx template purpose (purpose.use ctx) s

/-- The client's name after its validation: the name, if its addresses contain the client's, else
`unknown`. A failed lookup validates nothing. -/
def State.clientValidated (s : State) (name : String) (answer : Dns.Answer) : State :=
  let isValid :=
    match answer with
    | .ok addresses => addresses.any s.identity.isClient
    | .error _ => false
  { s with clientDomain := some (if isValid then name else "unknown") }

/-- Starts the validation of the client's first name. -/
def clientNamed (answer : Dns.Answer) (s : State) : Reaction :=
  match answer with
  | .ok (name :: _) => .await s name s.identity.addressType (.clientAddresses name)
  | _ => .done { s with clientDomain := some "unknown" }

end SenderPolicy.Evaluation
