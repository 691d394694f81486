import SenderPolicy.Evaluation.Terms

/-!
# The evaluation machine

A check is run as a stack machine. A step takes the topmost frame and puts what it leaves in its
place; a cause is offered to one frame after the other until one of them handles it; and at a
lookup the machine stops and can be put aside.

## Main definitions

* `Frame.check`, `Frame.catch`: what a frame does in its turn, and with a cause raised above it
* `Listener.resume`: what a listener does with its answer
* `Machine`, `Machine.step`: the machine and its steps
* `Machine.begin`: a check that is about to start
* `Machine.resume`: the machine that goes on with an answer
-/

namespace SenderPolicy.Evaluation

/-! ## Frames and listeners in their turn -/

/-- What a frame does in its turn. -/
def Frame.check (ctx : Context) (s : State) : Frame → Reaction
  | conclusion => .done (s.conclude ((s.verdict.map Qualifier.result).getD .neutral))
  | evaluation => .leave s (ctx.policy.stages.map .stage ++ [.terms])
  | stage st => stageStep s st
  | terms => termsStep s
  | directive d => directiveStep ctx s d
  | commitment qualifier => .done (s.commit qualifier)
  | modifier m => modifierStep ctx s m
  | decoration d => decorationStep ctx s d
  | restoration domain explanation isMuted =>
    -- only a pass of the included policy is a match
    .done { s.restore domain explanation isMuted with matched := some (s.verdict = some .pass) }
  | arrival => .done { s with isMuted := true }
  | expansion template purpose => expandTo ctx purpose template s

/-- A missing policy of another domain is an error of the policy that refers to it. -/
def escalate (refer : Error → Error) (cause : Error) : Error :=
  if cause.result = .none then refer cause else cause

/-- What a frame does with a cause raised above it: the state behind it, and the cause that the
next frame is offered, if it is not handled. -/
def Frame.catch (cause : Error) (s : State) : Frame → State × Option Error
  | conclusion => (s.conclude cause.result, none)
  | restoration domain explanation isMuted =>
    -- the cause names the domain that was included
    (s.restore domain explanation isMuted,
      some (escalate (.includedWithoutPolicy s.domain) cause))
  | arrival => (s, some (escalate (.redirectedWithoutPolicy s.domain) cause))
  | _ => (s, some cause)

/-- What a listener does with its answer. -/
def Listener.resume (ctx : Context) (answer : Dns.Answer) (s : State) : Listener → Reaction
  | policyRecords domain isStrict => policyAnswered domain isStrict answer s
  | textRecords isStrict other => textAnswered isStrict other answer s
  | addresses lengths => addressesAnswered lengths answer s
  | exchanges lengths => exchangesAnswered ctx lengths answer s
  | exchangeAddresses rest lengths => exchangeAddressesAnswered rest lengths answer s
  | pointers target => pointersAnswered ctx target answer s
  | pointerAddresses rest => pointerAddressesAnswered rest answer s
  | existence => existenceAnswered answer s
  | explanationTexts => explanationAnswered ctx answer s
  | clientNames => clientNamed answer s
  | clientAddresses name => .done (s.clientValidated name answer)

/-! ## The machine

The signal says what the next step is about: the topmost frame, a cause on its way down, or
nothing, while an answer is awaited. -/

/-- The machine: how its last frame ended, the state, and the frames that are left. -/
structure Machine where
  signal : Signal
  state : State
  frames : List Frame

/-- The machine behind a reaction, with the frames below it. -/
def Reaction.above (reaction : Reaction) (frames : List Frame) : Machine :=
  ⟨reaction.signal, reaction.state, reaction.frames ++ frames⟩

namespace Machine

/-- A check that is about to start. -/
def begin (s : State) : Machine :=
  ⟨.proceed, s, [.evaluation, .conclusion]⟩

/-- A step of the machine; none at a lookup and at the end. A cause that no frame handles leaves
the check neutral. -/
def step (ctx : Context) (m : Machine) : Option Machine :=
  match m.signal, m.frames with
  | .await _ _, _ => none
  | .proceed, [] => none
  | .proceed, frame :: frames => some ((frame.check ctx m.state).above frames)
  | .raise _, [] => some ⟨.proceed, m.state.conclude .neutral, []⟩
  | .raise cause, frame :: frames =>
    match frame.catch cause m.state with
    | (s, none) => some ⟨.proceed, s, frames⟩
    | (s, some cause) => some ⟨.raise cause, s, frames⟩

/-- The machine that goes on with an answer; one that awaits none stays as it is. -/
def resume (ctx : Context) (answer : Dns.Answer) (m : Machine) : Machine :=
  match m.signal with
  | .await _ listener => (listener.resume ctx answer m.state).above m.frames
  | _ => m

end Machine

end SenderPolicy.Evaluation
