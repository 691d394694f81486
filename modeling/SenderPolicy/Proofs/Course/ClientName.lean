import SenderPolicy.Check
import SenderPolicy.Proofs.Course.Expansions

/-!
# The client's validated name

A template that asks for the client's name starts its validation: the client's names are looked up
in the reverse tree, and the addresses of the first of them. Whatever is answered, this happens once
in a check, and it ends with a name that was validated or with `unknown`. The template itself waits
in a frame of its own and is put to use once the name is known.

## Main definitions

* `Validation`: the exchanges that validate the client's name, and what has become of it
* `Validating`: how far the validation has come, at a point of a check
* `Deferred`: a template waits for the client's name

## Main results

* `step_asks`: a step asks for the client's names only while the name is unknown
* `Validating.step`, `Validating.answer`, `Validating.course`: the validation, step by step
* `Deferred.course`: a template is put to use once
* `client_validated_once`: the client's name along every course of a check
-/

namespace SenderPolicy.Evaluation

/-! ## Exchanges that validate -/

/-- The listener is one of the two that the validation of the client's name has. -/
def Listener.validates : Listener → Bool
  | clientNames | clientAddresses _ => true
  | _ => false

/-- An answer is awaited for the validation of the client's name. -/
def Signal.validates : Signal → Bool
  | await _ listener => listener.validates
  | _ => false

/-- The exchange is part of the validation of the client's name. -/
def Exchange.validates (e : Exchange) : Bool :=
  e.listener.validates

/-- The exchange that asks for the client's names. -/
def namesExchange (identity : Identity) (answer : Dns.Answer) : Exchange :=
  ⟨⟨identity.reverseName, .ptr⟩, .clientNames, answer⟩

/-- The exchange that asks for the addresses of a name. -/
def addressesExchange (identity : Identity) (name : String) (answer : Dns.Answer) : Exchange :=
  ⟨⟨name, identity.addressType⟩, .clientAddresses name, answer⟩

/-- The addresses of the answer contain the client's. -/
def Verifies (identity : Identity) (answer : Dns.Answer) : Prop :=
  ∃ addresses, answer = .ok addresses ∧ addresses.any identity.isClient = true

/-- The exchanges that validate the client's name, in order, and what has become of it. -/
inductive Validation (identity : Identity) : List Exchange → Option String → Prop
  | unasked : Validation identity [] none
  | named (name : String) (others : List String) :
      Validation identity [namesExchange identity (.ok (name :: others))] none
  | nameless {answer : Dns.Answer} (h : ∀ name others, answer ≠ .ok (name :: others)) :
      Validation identity [namesExchange identity answer] (some "unknown")
  | verified {name : String} {answer : Dns.Answer} (others : List String)
      (h : Verifies identity answer) :
      Validation identity
        [namesExchange identity (.ok (name :: others)), addressesExchange identity name answer]
        (some name)
  | unverified (name : String) {answer : Dns.Answer} (others : List String)
      (h : ¬ Verifies identity answer) :
      Validation identity
        [namesExchange identity (.ok (name :: others)), addressesExchange identity name answer]
        (some "unknown")

section Verification

variable {s : State} {name : String} {answer : Dns.Answer}

theorem State.clientValidated_of_verifies (h : Verifies s.identity answer) :
    (s.clientValidated name answer).clientDomain = some name := by
  obtain ⟨addresses, rfl, ha⟩ := h
  simp [clientValidated, ha]

theorem State.clientValidated_of_not (h : ¬ Verifies s.identity answer) :
    (s.clientValidated name answer).clientDomain = some "unknown" := by
  cases answer with
  | error failure => rfl
  | ok addresses =>
    have ha : ¬ addresses.any s.identity.isClient = true := fun ha => h ⟨addresses, rfl, ha⟩
    simp only [clientValidated, if_neg ha]

end Verification

/-! ## What steps ask for -/

/-- The client's name is what it was, and its validation begins only while it is unknown. -/
structure Asks (s t : State) (signal : Signal) : Prop where
  kept : t.clientDomain = s.clientDomain
  unknown : ∀ request listener, signal = .await request listener → listener.validates = true →
    s.clientDomain = none ∧ request = ⟨s.identity.reverseName, .ptr⟩ ∧ listener = .clientNames

section Asks

variable {ctx : Context} {s t : State} {signal : Signal} {r : Reaction}

/-- Without a lookup for the client's name there is nothing to show. -/
theorem Asks.of_plain (kept : t.clientDomain = s.clientDomain)
    (plain : signal.validates = false) : Asks s t signal where
  kept := kept
  unknown request listener hs hl := by
    subst hs
    exact absurd hl (Bool.eq_false_iff.mp plain)

/-- What a template names is not looked up for the client's name. -/
theorem Purpose.Awaits.plain {purpose : Purpose} {listener : Listener}
    (h : purpose.Awaits listener) : listener.validates = false :=
  h.of_forall (P := fun l => l.validates = false)
    (fun _ => rfl) (fun _ => rfl) (fun _ => rfl) rfl rfl

theorem Expanded.asks {purpose : Purpose} (h : Expanded s purpose r) :
    Asks s r.state r.signal := by
  cases h with
  | aside _ _ _ unknown _ _ asked =>
    refine ⟨rfl, ?_⟩
    rintro _ _ ⟨⟩ -
    exact ⟨unknown, asked, rfl⟩
  | lookup _ _ _ _ awaits => exact .of_plain rfl awaits.plain
  | _ => exact .of_plain rfl rfl

/-- No frame knows the client's name before it is validated. -/
theorem Turn.asks {f : Frame} (h : Turn ctx s f r) : Asks s r.state r.signal := by
  cases h with
  | concluded => exact .of_plain (s.conclude_clientDomain _) rfl
  | committed qualifier =>
    refine .of_plain ?_ rfl
    rcases s.commit_eq qualifier with hc | hc <;> rw [hc] <;> rfl
  | entered _ _ _ _ _ _ expanded => exact ⟨expanded.asks.kept, expanded.asks.unknown⟩
  | enteredRedirect _ _ _ _ expanded => exact ⟨expanded.asks.kept, expanded.asks.unknown⟩
  | explains _ _ _ _ expanded => exact expanded.asks
  | explainsByDefault _ _ _ _ expanded => exact expanded.asks
  | expanded _ _ _ expanded => exact expanded.asks
  | _ => exact .of_plain rfl rfl

/-- Nor does a listener that is not one of the validation. -/
theorem Heard.asks {l : Listener} (h : Heard ctx s l r) (hl : l.validates = false) :
    Asks s r.state r.signal := by
  cases h with
  | clientNamed | clientNameless | clientValidated => cases hl
  | explains _ expanded => exact expanded.asks
  | _ => exact .of_plain rfl rfl

theorem Frame.catch_clientDomain (cause : Error) (s : State) (f : Frame) :
    (f.catch cause s).1.clientDomain = s.clientDomain := by
  cases f with
  | conclusion => exact s.conclude_clientDomain _
  | _ => rfl

/-- A step asks for the client's names only while the name is unknown. -/
theorem step_asks {m m' : Machine} (hs : m.step ctx = some m') :
    Asks m.state m'.state m'.signal := by
  obtain ⟨signal, s, frames⟩ := m
  cases signal with
  | await request listener => cases frames <;> cases hs
  | proceed =>
    cases frames with
    | nil => cases hs
    | cons f below =>
      cases hs
      exact (check_turn ctx s f).asks
  | raise cause =>
    cases frames with
    | nil =>
      cases hs
      exact .of_plain (s.conclude_clientDomain _) rfl
    | cons f below =>
      have kept := f.catch_clientDomain cause s
      simp only [Machine.step] at hs
      -- a cause is handled or handed on, and nothing is asked for in either case
      split at hs
      all_goals
        rename_i caught
        rw [caught] at kept
        cases hs
        exact .of_plain kept rfl

/-- Once the client's name is known, it stays, and is not asked for. -/
theorem Asks.known {name : String} (h : Asks s t signal) (known : s.clientDomain = some name) :
    t.clientDomain = some name ∧ signal.validates = false := by
  refine ⟨h.kept.trans known, ?_⟩
  cases signal with
  | await request listener =>
    by_contra hl
    rw [(h.unknown request listener rfl (Bool.not_eq_false _ ▸ hl)).1] at known
    cases known
  | _ => rfl

end Asks

/-! ## The validation, step by step -/

/-- How far the validation of the client's name has come, at a point of a check. -/
inductive Validating : Machine → List Exchange → Prop
  | unasked {m : Machine} (unknown : m.state.clientDomain = none)
      (first : ∀ request listener, m.signal = .await request listener →
        listener.validates = true →
          request = ⟨m.state.identity.reverseName, .ptr⟩ ∧ listener = .clientNames) :
      Validating m []
  | named {m : Machine} {name : String} (others : List String)
      (unknown : m.state.clientDomain = none)
      (hs : m.signal = .await ⟨name, m.state.identity.addressType⟩ (.clientAddresses name)) :
      Validating m [namesExchange m.state.identity (.ok (name :: others))]
  | known {m : Machine} {asked : List Exchange} {name : String}
      (validated : Validation m.state.identity asked (some name))
      (known : m.state.clientDomain = some name)
      (idle : m.signal.validates = false) : Validating m asked

namespace Validating

variable {ctx : Context} {m m' : Machine} {asked exchanges : List Exchange}

theorem validation (h : Validating m asked) :
    Validation m.state.identity asked m.state.clientDomain := by
  cases h with
  | unasked unknown =>
    rw [unknown]
    exact .unasked
  | named others unknown =>
    rw [unknown]
    exact .named _ others
  | known validated known =>
    rw [known]
    exact validated

/-- What asks for nothing but the beginning of the validation does not take it further. -/
theorem of_asks (h : Validating m asked) (asks : Asks m.state m'.state m'.signal)
    (same : m'.state.identity = m.state.identity)
    (apart : ∀ name request, m.signal ≠ .await request (.clientAddresses name)) :
    Validating m' asked := by
  cases h with
  | unasked before =>
    refine .unasked (asks.kept.trans before) fun request listener hs hl => ?_
    rw [same]
    exact (asks.unknown request listener hs hl).2
  | named _ _ hs => exact absurd hs (apart _ _)
  | known validated known =>
    obtain ⟨known, idle⟩ := asks.known known
    exact .known (same ▸ validated) known idle

theorem step (h : Validating m asked) (hs : m.step ctx = some m') : Validating m' asked := by
  refine h.of_asks (step_asks hs) (Course.step hs (.refl m')).identity fun name request hw => ?_
  simp [Machine.step, hw] at hs

/-- An answer to a lookup of the validation takes it further. -/
theorem heard (h : Validating m asked) {request : Dns.Request} {listener : Listener}
    (hs : m.signal = .await request listener) (hl : listener.validates = true)
    (answer : Dns.Answer) :
    Validating (m.resume ctx answer) (asked ++ [⟨request, listener, answer⟩]) := by
  obtain ⟨signal, s, frames⟩ := m
  subst hs
  cases h with
  | known _ _ idle => exact absurd hl (Bool.eq_false_iff.mp idle)
  | unasked unknown first =>
    obtain ⟨hr, rfl⟩ : request = ⟨s.identity.reverseName, .ptr⟩ ∧ listener = .clientNames :=
      first request listener rfl hl
    subst hr
    have nameless (h : ∀ name others, answer ≠ .ok (name :: others)) :
        Validating ⟨.proceed, { s with clientDomain := some "unknown" }, frames⟩
          [namesExchange s.identity answer] :=
      .known (.nameless h) rfl rfl
    cases answer with
    | error failure => exact nameless nofun
    | ok names =>
      cases names with
      | nil => exact nameless nofun
      | cons name others => exact .named others unknown rfl
  | @named name others _ hs =>
    obtain ⟨rfl, rfl⟩ : request = ⟨name, s.identity.addressType⟩ ∧
        listener = .clientAddresses name := by
      injection hs with hr hl
      exact ⟨hr, hl⟩
    by_cases verified : Verifies s.identity answer
    · exact .known (.verified others verified) (State.clientValidated_of_verifies verified) rfl
    · exact .known (.unverified name others verified) (State.clientValidated_of_not verified) rfl

theorem answer (h : Validating m asked) {request : Dns.Request} {listener : Listener}
    (hs : m.signal = .await request listener) (answer : Dns.Answer) :
    Validating (m.resume ctx answer)
      (asked ++ [⟨request, listener, answer⟩].filter Exchange.validates) := by
  cases hl : listener.validates with
  | true =>
    have part : Exchange.validates ⟨request, listener, answer⟩ = true := hl
    rw [List.filter_cons_of_pos part, List.filter_nil]
    exact h.heard hs hl answer
  | false =>
    have apart : ¬ Exchange.validates ⟨request, listener, answer⟩ = true := Bool.eq_false_iff.mp hl
    rw [List.filter_cons_of_neg apart, List.filter_nil, List.append_nil]
    have same := (Course.answer hs answer (.refl (m.resume ctx answer))).identity
    obtain ⟨signal, s, frames⟩ := m
    subst hs
    refine h.of_asks ((resume_heard ctx answer s listener).asks hl) same fun name request' hw => ?_
    cases hw
    cases hl

/-- The validation all the way. -/
theorem course (h : Validating m asked) (hc : Course ctx m exchanges m') :
    Validating m' (asked ++ exchanges.filter Exchange.validates) := by
  induction hc generalizing asked with
  | refl =>
    rw [List.filter_nil, List.append_nil]
    exact h
  | step hs _ ih => exact ih (h.step hs)
  | answer hs a _ ih =>
    have later := ih (h.answer hs a)
    rwa [List.append_assoc, ← List.filter_append] at later

end Validating

section Courses

variable {ctx : Context} {m m' : Machine} {exchanges : List Exchange}

/-- Once the client's name is known, it stays, and is not validated again. -/
theorem Course.known {name : String} (h : Course ctx m exchanges m')
    (known : m.state.clientDomain = some name) (idle : m.signal.validates = false) :
    m'.state.clientDomain = some name ∧ exchanges.filter Exchange.validates = [] := by
  induction h with
  | refl => exact ⟨known, rfl⟩
  | step hs _ ih =>
    obtain ⟨known, idle⟩ := (step_asks hs).known known
    exact ih known idle
  | @answer m _ request listener exchanges hs a _ ih =>
    have other : listener.validates = false := by
      rw [hs] at idle
      exact idle
    obtain ⟨signal, s, frames⟩ := m
    subst hs
    obtain ⟨known, idle⟩ := ((resume_heard ctx a s listener).asks other).known known
    obtain ⟨known, unasked⟩ := ih known idle
    have apart : ¬ Exchange.validates ⟨request, listener, a⟩ = true := Bool.eq_false_iff.mp other
    exact ⟨known, (List.filter_cons_of_neg apart).trans unasked⟩

/-- The answers of the validation raise nothing. -/
theorem resume_of_validates (h : m.signal.validates = true) (answer : Dns.Answer) (cause : Error) :
    (m.resume ctx answer).signal ≠ .raise cause := by
  obtain ⟨signal, s, frames⟩ := m
  cases signal with
  | await request listener =>
    cases listener with
    | clientNames =>
      cases answer with
      | error failure => nofun
      | ok names => cases names <;> nofun
    | clientAddresses name => nofun
    | _ => cases h
  | _ => cases h

end Courses

/-! ## Templates that wait -/

/-- A template that was to be expanded in a state waits for the client's name: the frame that
expands it again lies on the frames below, and has its turn as soon as the name is known. -/
structure Deferred (ctx : Context) (purpose : Purpose) (template : String) (s : State)
    (below : List Frame) (m : Machine) : Prop where
  state : ∃ r c, m.state = { s with receivingDomain := r, clientDomain := c }
  precedes : s.Precedes ctx.localNames m.state
  frames : m.frames = .expansion template purpose :: below
  turn : m.signal.validates = true ∧ m.state.clientDomain = none ∨
    m.signal = .proceed ∧ m.state.clientDomain ≠ none

/-- A template was put to use: behind no other exchanges than those of the validation, the machine
is at what is made of the template's expansion, and there is no frame left to make it again. -/
def HandsOver (ctx : Context) (purpose : Purpose) (template : String) (s : State)
    (below : List Frame) (asked : List Exchange) (m : Machine) : Prop :=
  ∃ expanded t, (∀ e ∈ asked, e.validates = true) ∧ Expands ctx purpose template s expanded t ∧
    m = (purpose.use ctx expanded t).above below ∧
    ∀ template', .expansion template' purpose ∉ (purpose.use ctx expanded t).frames

section Templates

variable {ctx : Context} {purpose : Purpose} {template : String} {s t : State}
  {below : List Frame} {m m' : Machine} {exchanges : List Exchange}

theorem explainBy_frames (ctx : Context) (template : String) (s : State) (f : Frame)
    (h : f ∈ (explainBy ctx template s).frames) : f = .expansion template .defaultExplanation := by
  unfold explainBy expandFor at h
  simp only at h
  split at h
  · cases h
  · cases h
  · exact List.mem_singleton.mp h

theorem explainByDefault_frames (ctx : Context) (s : State) (f : Frame)
    (h : f ∈ (explainByDefault ctx s).frames) :
    ∃ template, f = .expansion template .defaultExplanation := by
  unfold explainByDefault at h
  split at h
  · exact ⟨_, explainBy_frames ctx _ s f h⟩
  · cases h

/-- What is made of an expansion does not expand for the same purpose. -/
theorem use_frames (ctx : Context) (purpose : Purpose) (expanded : Except Error String) (t : State)
    (template : String) : .expansion template purpose ∉ (purpose.use ctx expanded t).frames := by
  intro h
  cases expanded with
  | ok text => cases purpose <;> simp [Purpose.use, keepExplanation, State.beginInclusion,
      Reaction.await, Reaction.leave, Reaction.done] at h
  | error cause =>
    cases purpose with
    | explanationDomain | explanation =>
      obtain ⟨_, ⟨⟩⟩ := explainByDefault_frames ctx t _ h
    | _ => simp [Purpose.use, keepExplanation, Reaction.fail, Reaction.done] at h

/-- A template is put to use at once, or waits. -/
theorem expandTo_deferred (ctx : Context) (purpose : Purpose) (template : String) (s : State)
    (below : List Frame) :
    HandsOver ctx purpose template s below [] ((expandTo ctx purpose template s).above below) ∨
      Deferred ctx purpose template s below ((expandTo ctx purpose template s).above below) ∧
        s.clientDomain = none := by
  rcases expandTo_cases ctx purpose template s with ⟨expanded, t, he, hr⟩ |
    ⟨_, unknown, ⟨r, rfl⟩, precedes, hr⟩
  · rw [hr]
    exact .inl ⟨expanded, t, List.forall_mem_nil _, he, rfl, use_frames ctx purpose expanded t⟩
  · rw [hr]
    exact .inr ⟨⟨⟨r, s.clientDomain, rfl⟩, precedes, rfl, .inl ⟨rfl, unknown⟩⟩, unknown⟩

/-- The next step of a template that waits puts it to use. -/
theorem Deferred.step (h : Deferred ctx purpose template s below m) (hs : m.step ctx = some m') :
    HandsOver ctx purpose template s below [] m' := by
  obtain ⟨signal, t, frames⟩ := m
  obtain ⟨state, precedes, rfl, turn⟩ := h
  rcases turn with ⟨validates, -⟩ | ⟨rfl, known⟩
  · cases signal with
    | await => cases hs
    | _ => cases validates
  · cases hs
    rcases expandTo_deferred ctx purpose template t below with ⟨expanded, u, _, he, hm, fresh⟩ |
      ⟨-, unknown⟩
    · refine ⟨expanded, u, List.forall_mem_nil _,
        ⟨?_, precedes.trans he.precedes, he.expanded⟩, hm, fresh⟩
      obtain ⟨r, c, rfl⟩ := state
      obtain ⟨r', c', rfl⟩ := he.state
      exact ⟨r', c', rfl⟩
    · exact absurd unknown known

/-- The template waits until the name is known. -/
theorem Deferred.answer (h : Deferred ctx purpose template s below m) {request : Dns.Request}
    {listener : Listener} (hs : m.signal = .await request listener) (answer : Dns.Answer) :
    listener.validates = true ∧
      Deferred ctx purpose template s below (m.resume ctx answer) := by
  obtain ⟨signal, t, frames⟩ := m
  subst hs
  obtain ⟨⟨r, c, rfl⟩, precedes, rfl, turn⟩ := h
  rcases turn with ⟨validates, rfl⟩ | ⟨⟨⟩, -⟩
  refine ⟨validates, ?_⟩
  have unknown : s.clientDomain = none := precedes.client.elim id Eq.symm
  have named (name : String) : Deferred ctx purpose template s below
      ⟨.proceed, { s with receivingDomain := r, clientDomain := some name },
        .expansion template purpose :: below⟩ :=
    ⟨⟨r, some name, rfl⟩, ⟨rfl, rfl, precedes.receiver, .inl unknown⟩, rfl,
      .inr ⟨rfl, Option.some_ne_none name⟩⟩
  cases listener with
  | clientNames =>
    cases answer with
    | error failure => exact named "unknown"
    | ok names =>
      cases names with
      | nil => exact named "unknown"
      | cons name others => exact ⟨⟨r, none, rfl⟩, precedes, rfl, .inl ⟨rfl, rfl⟩⟩
  | clientAddresses name => exact named _
  | _ => cases validates

/-- A template is put to use once: until then it waits for the client's name, and nothing else is
asked. -/
theorem Deferred.course (h : Deferred ctx purpose template s below m)
    (hc : Course ctx m exchanges m') :
    (∀ e ∈ exchanges, e.validates = true) ∧ Deferred ctx purpose template s below m' ∨
      ∃ asked rest point, exchanges = asked ++ rest ∧
        HandsOver ctx purpose template s below asked point ∧ Course ctx point rest m' := by
  induction hc with
  | refl => exact .inl ⟨List.forall_mem_nil _, h⟩
  | step hs rest => exact .inr ⟨[], _, _, rfl, h.step hs, rest⟩
  | answer hs a _ ih =>
    obtain ⟨validates, later⟩ := h.answer hs a
    rcases ih later with ⟨asked, waits⟩ | ⟨asked, rest, point, rfl, handed, course⟩
    · exact .inl ⟨List.forall_mem_cons.mpr ⟨validates, asked⟩, waits⟩
    · obtain ⟨expanded, t, ha, he, hp, fresh⟩ := handed
      exact .inr ⟨_ :: asked, rest, point, rfl,
        ⟨expanded, t, List.forall_mem_cons.mpr ⟨validates, ha⟩, he, hp, fresh⟩, course⟩

/-- Every template is put to use once. -/
theorem expandTo_course
    (hc : Course ctx ((expandTo ctx purpose template s).above below) exchanges m) :
    (∀ e ∈ exchanges, e.validates = true) ∧ Deferred ctx purpose template s below m ∨
      ∃ asked rest point, exchanges = asked ++ rest ∧
        HandsOver ctx purpose template s below asked point ∧ Course ctx point rest m := by
  rcases expandTo_deferred ctx purpose template s below with handed | ⟨waits, -⟩
  · exact .inr ⟨[], exchanges, _, rfl, handed, hc⟩
  · exact waits.course hc

end Templates

/-! ## The client's name -/

/-- Along every course of a check the client's name is validated once: what was asked and answered
for it decides what it is, a known name stays and is not asked for again, no answer for it raises a
cause, and every template that is expanded is put to use once, at the latest behind the answers. -/
theorem client_validated_once {ctx : Context} {identity : Identity}
    {receivingDomain : Option String} {exchanges : List Exchange} {m : Machine}
    (h : Course ctx (machineOf identity receivingDomain) exchanges m) :
    Validation identity (exchanges.filter Exchange.validates) m.state.clientDomain ∧
    (∀ name later m', m.state.clientDomain = some name → Course ctx m later m' →
      m'.state.clientDomain = some name ∧ later.filter Exchange.validates = [] ∧
      ∀ site template, Macro.expand m'.state.values ctx.localNames site template ≠
        .error .clientDomainUnknown) ∧
    (m.signal.validates = true → ∀ answer cause, (m.resume ctx answer).signal ≠ .raise cause) ∧
    ∀ purpose template s below later m',
      Course ctx ((expandTo ctx purpose template s).above below) later m' →
        (∀ e ∈ later, e.validates = true) ∧ Deferred ctx purpose template s below m' ∨
          ∃ asked rest point, later = asked ++ rest ∧
            HandsOver ctx purpose template s below asked point ∧ Course ctx point rest m' := by
  have validating : Validating m (exchanges.filter Exchange.validates) :=
    Validating.course (.unasked rfl fun _ _ hs => by cases hs) h
  have same : m.state.identity = identity := h.identity
  refine ⟨same ▸ validating.validation, fun name later m' known course => ?_,
    fun validates answer cause => resume_of_validates validates answer cause,
    fun _ _ _ _ _ _ course => expandTo_course course⟩
  have idle : m.signal.validates = false := by
    generalize exchanges.filter Exchange.validates = asked at validating
    cases validating with
    | unasked unknown | named _ unknown =>
      rw [unknown] at known
      cases known
    | known _ _ idle => exact idle
  obtain ⟨known, unasked⟩ := course.known known idle
  refine ⟨known, unasked, fun site template unknown => ?_⟩
  rw [show m'.state.clientDomain = none from Macro.expand_eq_unknown unknown] at known
  cases known

/-- A domain that is to exist under the client's name: the first of two names is verified. -/
theorem client_validated_once_of_existence :
    ∃ exchanges m, Course ⟨.standard, [], 10⟩
        (machineOf ⟨.v4 1#32, "a@b", "a", "b", "b", 0⟩ none) exchanges m ∧
      Validation ⟨.v4 1#32, "a@b", "a", "b", "b", 0⟩ (exchanges.filter Exchange.validates)
        (some "n.b") := by
  -- the record of the sender's domain, up to the lookups of its one term
  have looked := (((@Course.refl ⟨.standard, [], 10⟩
    (machineOf ⟨.v4 1#32, "a@b", "a", "b", "b", 0⟩ none)).snoc rfl).snoc rfl).snoc rfl
  have opened := ((((((looked.snoc_answer rfl (.ok [])).snoc_answer rfl
    (.ok ["v=spf1 exists:%\x7bp\x7d.x"])).snoc rfl).snoc rfl).snoc rfl).snoc rfl).snoc rfl
  have named := ((opened.snoc rfl).snoc_answer rfl (.ok ["n.b", "m.b"])).snoc_answer rfl
    (.ok ["0.0.0.2", "0.0.0.1"])
  exact ⟨_, _, named, (client_validated_once named).1⟩

end SenderPolicy.Evaluation
