import SenderPolicy.Check
import SenderPolicy.Proofs.Course.Missing

/-!
# Strict records

A receiver may be strict: a record counts only if both types hold it, or the text type alone. A
check of such a receiver is followed by the check that is not strict. Where the strict check has
found a record of the one type and looks the other up, the relaxed one has it already; if the strict
check goes on behind that lookup, the texts were the same, and the relaxed one is where it is.
Strictness therefore adds errors and lookups, and changes nothing else.

## Main definitions

* `Context.strictly`: a receiver that is strict, or is not
* `Machine.relaxed`: where the check is that is not strict

## Main results

* `Frame.check_relaxed`, `Listener.resume_relaxed`: frames and listeners of relaxed checks
* `Machine.step_relaxed`: steps of relaxed checks
* `Orderly.finish_relaxed`: a strict check that does not fail is the relaxed one with more lookups
* `strict_only_errs`: strictness adds nothing but errors
-/

namespace SenderPolicy.Evaluation

/-- What a check does not change, of a receiver that is strict or is not. -/
def Context.strictly (ctx : Context) (isStrict : Bool) : Context :=
  { ctx with policy := { ctx.policy with isStrict := isStrict } }

/-! ## What a relaxed check has in place -/

/-- The frame of a relaxed check. -/
def Frame.relaxed : Frame → Frame
  | stage (.published _) => stage (.published false)
  | f => f

/-- The listener of a relaxed check. -/
def Listener.relaxed : Listener → Listener
  | policyRecords domain _ => policyRecords domain false
  | textRecords _ other => textRecords false other
  | l => l

/-- How a frame of a relaxed check ends: the other type is not looked up behind a record. -/
def Signal.relaxed : Signal → Signal
  | await _ (.textRecords true (some _)) => proceed
  | await request listener => await request listener.relaxed
  | signal => signal

/-- The state of a relaxed check: what is to be compared with the other type is taken at once. -/
def State.relaxed (s : State) : Signal → State
  | .await _ (.textRecords true (some text)) => { s with text := some text }
  | _ => s

def Reaction.relaxed (r : Reaction) : Reaction :=
  ⟨r.state.relaxed r.signal, r.frames.map Frame.relaxed, r.signal.relaxed⟩

def Machine.relaxed (m : Machine) : Machine :=
  ⟨m.signal.relaxed, m.state.relaxed m.signal, m.frames.map Frame.relaxed⟩

theorem relaxed_above (r : Reaction) (below : List Frame) :
    (r.above below).relaxed = r.relaxed.above (below.map Frame.relaxed) := by
  simp [Reaction.above, Machine.relaxed, Reaction.relaxed]

theorem relaxed_onto (r : Reaction) (f : Frame) :
    (r.onto f).relaxed = r.relaxed.onto f.relaxed := by
  simp [Reaction.onto, Reaction.relaxed]

/-! ## Frames -/

section Frames

variable {ctx : Context} {s : State} {r : Reaction}

/-- What a template names is looked up as in a relaxed check. -/
theorem Purpose.Awaits.relaxed_eq {purpose : Purpose} {listener : Listener}
    (h : purpose.Awaits listener) (host : String) (type : Dns.RecordType) (t : State) :
    (Reaction.await t host type listener).relaxed = .await t host type listener :=
  h.of_forall (P := fun l => (Reaction.await t host type l).relaxed = .await t host type l)
    (fun _ => rfl) (fun _ => rfl) (fun _ => rfl) rfl rfl

theorem Expanded.relaxed_eq {purpose : Purpose} (h : Expanded s purpose r) : r.relaxed = r := by
  cases h with
  | lookup _ host type _ awaits => exact awaits.relaxed_eq host type _
  | _ => rfl

/-- The frames of a record are those of a relaxed check. -/
theorem map_relaxed_framesOf (record : Record) :
    (framesOf record).map Frame.relaxed = framesOf record := by
  simp [framesOf, Function.comp_def, Frame.relaxed]

/-- What the frame leaves depends on strictness: it begins an evaluation, or looks the published
record up. -/
def Frame.heedsStrictness : Frame → Bool
  | evaluation | stage (.published _) => true
  | _ => false

/-- Other frames leave what they leave in a relaxed check. -/
theorem Turn.relaxed_eq {f : Frame} (h : Turn ctx s f r) (hf : f.heedsStrictness = false) :
    r.relaxed = r := by
  cases h with
  | begun | asked => cases hf
  | opened record =>
    exact congrArg (fun frames => (⟨_, frames, .proceed⟩ : Reaction)) (map_relaxed_framesOf record)
  | entered d _ r _ _ _ expanded =>
    rw [relaxed_onto, expanded.relaxed_eq]
    rfl
  | enteredRedirect _ _ _ _ expanded => exact expanded.relaxed_eq
  | explains _ _ _ _ expanded => exact expanded.relaxed_eq
  | explainsByDefault _ _ _ _ expanded => exact expanded.relaxed_eq
  | expanded _ _ _ expanded => exact expanded.relaxed_eq
  | _ => rfl

theorem Frame.relaxed_eq {f : Frame} (h : f.heedsStrictness = false) : f.relaxed = f := by
  cases f with
  | stage st =>
    cases st with
    | published => cases h
    | _ => rfl
  | _ => rfl

/-- Strictness decides which stages there are, and nothing else about frames. -/
theorem Frame.check_strictly (ctx : Context) (isStrict : Bool) (s : State) {f : Frame}
    (h : f.heedsStrictness = false) : f.check (ctx.strictly isStrict) s = f.check ctx s := by
  cases f with
  | evaluation => cases h
  | _ => rfl

theorem map_relaxed_stages (ctx : Context) :
    (ctx.policy.stages.map Frame.stage).map Frame.relaxed =
      (ctx.strictly false).policy.stages.map .stage := by
  simp [Policy.stages, Context.strictly, Option.toList_map, Function.comp_def, Frame.relaxed]

/-- What a frame leaves in a relaxed check. -/
theorem Frame.check_relaxed (ctx : Context) (s : State) (f : Frame) :
    (f.check ctx s).relaxed = f.relaxed.check (ctx.strictly false) s := by
  cases h : f.heedsStrictness with
  | false =>
    rw [(check_turn ctx s f).relaxed_eq h, relaxed_eq h, check_strictly ctx false s h]
  | true =>
    cases f with
    | evaluation =>
      simp only [Frame.relaxed, Frame.check, Reaction.relaxed, Reaction.leave, List.map_append,
        map_relaxed_stages]
      rfl
    | stage st =>
      cases st with
      | published isStrict =>
        simp only [Frame.relaxed, Frame.check, stageStep]
        split <;> rfl
      | _ => cases h
    | _ => cases h

theorem Frame.catch_relaxed (cause : Error) (s : State) (f : Frame) :
    f.relaxed.catch cause s = f.catch cause s := by
  cases f with
  | stage st => cases st <;> rfl
  | _ => rfl

end Frames

/-- A step of a check is one of the relaxed check. -/
theorem Machine.step_relaxed {ctx : Context} {m m' : Machine} (hs : m.step ctx = some m') :
    m.relaxed.step (ctx.strictly false) = some m'.relaxed := by
  obtain ⟨signal, s, frames⟩ := m
  cases signal with
  | await request listener => cases frames <;> cases hs
  | proceed =>
    cases frames with
    | nil => cases hs
    | cons f below =>
      cases hs
      rw [relaxed_above, Frame.check_relaxed]
      rfl
  | raise cause =>
    cases frames with
    | nil =>
      cases hs
      rfl
    | cons f below =>
      simp only [Machine.step] at hs
      split at hs
      all_goals
        rename_i caught
        cases hs
        simp only [Machine.relaxed, Machine.step, Signal.relaxed, State.relaxed, List.map_cons,
          f.catch_relaxed, caught]

/-! ## Listeners -/

section Listeners

variable {ctx : Context} {s : State} {r : Reaction}

/-- What the listener does depends on strictness: it waits for records that are published. -/
def Listener.heedsStrictness : Listener → Bool
  | policyRecords _ _ | textRecords _ _ => true
  | _ => false

/-- Other listeners do what they do in a relaxed check. -/
theorem Heard.relaxed_eq {l : Listener} (h : Heard ctx s l r) (hl : l.heedsStrictness = false) :
    r.relaxed = r := by
  cases h with
  | policyText | askedText | text => cases hl
  | explains _ expanded => exact expanded.relaxed_eq
  | _ => rfl

theorem Listener.resume_strictly (ctx : Context) (isStrict : Bool) (answer : Dns.Answer)
    (s : State) (l : Listener) :
    l.resume (ctx.strictly isStrict) answer s = l.resume ctx answer s := by
  cases l <;> rfl

/-- The first answer leads a relaxed check to where it leads a strict one, which looks the other type
up behind a record. -/
theorem policyAnswered_relaxed (domain : String) (isStrict : Bool) (answer : Dns.Answer)
    (s : State) :
    (policyAnswered domain isStrict answer s).relaxed = policyAnswered domain false answer s := by
  unfold policyAnswered
  cases recordsOf answer >>= selectPolicy with
  | error cause => rfl
  | ok other => cases other <;> cases isStrict <;> rfl

/-- Without a record of the other type there is nothing to agree with. -/
theorem textAnswered_relaxed (isStrict : Bool) (answer : Dns.Answer) (s : State) :
    (textAnswered isStrict none answer s).relaxed = textAnswered false none answer s := by
  unfold textAnswered
  cases recordsOf answer >>= selectPolicy with
  | error cause => rfl
  | ok text => cases text <;> cases isStrict <;> rfl

/-- What a listener does in a relaxed check, unless it has a record to compare. -/
theorem Listener.resume_relaxed (answer : Dns.Answer) (s : State) {l : Listener}
    (h : ∀ text, l ≠ .textRecords true (some text)) :
    (l.resume ctx answer s).relaxed = l.relaxed.resume (ctx.strictly false) answer s := by
  cases l with
  | policyRecords domain isStrict => exact policyAnswered_relaxed domain isStrict answer s
  | textRecords isStrict other =>
    cases other with
    | none => exact textAnswered_relaxed isStrict answer s
    | some text =>
      cases isStrict with
      | true => exact absurd rfl (h text)
      | false =>
        simp only [Listener.resume, Listener.relaxed]
        unfold textAnswered
        cases recordsOf answer >>= selectPolicy <;> rfl
  | _ =>
    rw [(resume_heard ctx answer s _).relaxed_eq rfl, resume_strictly]
    rfl

/-- A record that is compared with the other type is found there, or the check fails. -/
theorem textAnswered_agreed (text : String) (answer : Dns.Answer) (s : State) :
    (∃ cause, textAnswered true (some text) answer s = .fail s cause) ∨
      textAnswered true (some text) answer s = .done { s with text := some text } := by
  unfold textAnswered
  cases recordsOf answer >>= selectPolicy with
  | error cause => exact .inl ⟨cause, rfl⟩
  | ok found =>
    cases found with
    | none => exact .inl ⟨.onlySpfType, rfl⟩
    | some found =>
      by_cases same : text = found
      · exact .inr (by simp [agreed, bind, Except.bind, same])
      · exact .inl ⟨.recordsDiffer, by simp [agreed, bind, Except.bind, same]⟩

end Listeners

/-- The relaxed check awaits the same answer, unless it has a record in place, and goes on to where
the check goes on to. -/
theorem Machine.resume_relaxed {ctx : Context} {m : Machine} {request : Dns.Request}
    {listener : Listener} (hs : m.signal = .await request listener)
    (h : ∀ text, listener ≠ .textRecords true (some text)) (answer : Dns.Answer) :
    m.relaxed.signal = .await request listener.relaxed ∧
      m.relaxed.resume (ctx.strictly false) answer = (m.resume ctx answer).relaxed := by
  obtain ⟨signal, s, frames⟩ := m
  subst hs
  have awaits : Signal.relaxed (.await request listener) = .await request listener.relaxed ∧
      s.relaxed (.await request listener) = s := by
    cases listener with
    | textRecords isStrict other =>
      cases isStrict with
      | false => exact ⟨rfl, rfl⟩
      | true =>
        cases other with
        | none => exact ⟨rfl, rfl⟩
        | some text => exact absurd rfl (h text)
    | _ => exact ⟨rfl, rfl⟩
  refine ⟨awaits.1, ?_⟩
  simp only [Machine.relaxed, Machine.resume, awaits]
  rw [← Listener.resume_relaxed answer s h]
  exact (relaxed_above _ _).symm

/-- Behind the lookup of the other type the relaxed check is where it was before, or the check
fails. -/
theorem Machine.resume_agreed {ctx : Context} {m : Machine} {request : Dns.Request}
    {text : String} (hs : m.signal = .await request (.textRecords true (some text)))
    (answer : Dns.Answer) :
    (∃ cause, (m.resume ctx answer).signal = .raise cause) ∨
      (m.resume ctx answer).relaxed = m.relaxed := by
  obtain ⟨signal, s, frames⟩ := m
  subst hs
  simp only [Machine.resume, Listener.resume]
  rcases textAnswered_agreed text answer s with ⟨cause, hr⟩ | hr
  · exact .inl ⟨cause, congrArg Reaction.signal hr⟩
  · rw [hr]
    exact .inr rfl

/-! ## Whole checks -/

/-- The result is none of those that errors have. -/
def State.IsSound (s : State) : Prop :=
  s.result ≠ some .tempError ∧ s.result ≠ some .permError

section Whole

variable {ctx : Context} {service : Dns.Service} {m : Machine}

/-- A listener that fails ends the check with an error. -/
theorem Orderly.unsound_of_resume {request : Dns.Request} {listener : Listener}
    {answer : Dns.Answer} {cause : Error} (ho : Orderly m)
    (hs : m.signal = .await request listener) (hr : (m.resume ctx answer).signal = .raise cause) :
    ¬ ((m.resume ctx answer).finish ctx service).2.IsSound := by
  obtain ⟨exchanges, completes, -⟩ := completes_finish ctx service (m.resume ctx answer)
  have ordered : Orderly (m.resume ctx answer) := ho.resume hs
  have raised : cause.result ≠ .none := by
    obtain ⟨signal, s, frames⟩ := m
    subst hs
    exact result_of_resume hr
  generalize m.resume ctx answer = m' at *
  obtain ⟨signal, s, frames⟩ := m'
  subst hr
  have result := (completes.of_raise ordered).2
  have same : resultUpon frames cause = cause.result := if_neg fun h => raised h.1
  rintro ⟨temporary, permanent⟩
  rw [result, same] at temporary permanent
  rcases result_of_cause cause with h | h | h
  · exact raised h
  · exact temporary (congrArg some h)
  · exact permanent (congrArg some h)

/-- A check that does not fail is the relaxed check, with lookups that it makes besides. -/
theorem Orderly.finish_relaxed (ho : Orderly m) (sound : (m.finish ctx service).2.IsSound) :
    (m.relaxed.finish (ctx.strictly false) service).2 = (m.finish ctx service).2 ∧
      (m.relaxed.finish (ctx.strictly false) service).1.Sublist (m.finish ctx service).1 := by
  -- on the points that are still to come, with the answers of the service
  induction m using (continues_wellFounded ctx).induction with
  | _ m ih =>
    cases hs : m.step ctx with
    | some m' =>
      rw [Machine.finish_of_step hs] at sound ⊢
      rw [Machine.finish_of_step (Machine.step_relaxed hs)]
      exact ih m' (.inl hs) (ho.step hs) sound
    | none =>
      rcases step_eq_none hs with ⟨request, listener, hw⟩ | ⟨hp, hf⟩
      · have later := ih (m.resume ctx (service request)) (.inr ⟨request, listener, _, hw, rfl⟩)
          (ho.resume hw)
        rw [Machine.finish_of_await hw] at sound ⊢
        obtain ⟨same, sub⟩ := later sound
        by_cases held : ∃ text, listener = .textRecords true (some text)
        · -- the relaxed check has the record already and makes no lookup
          obtain ⟨text, rfl⟩ := held
          have here : (m.resume ctx (service request)).relaxed = m.relaxed := by
            rcases Machine.resume_agreed hw (service request) with ⟨cause, raised⟩ | agreed
            · exact absurd sound (ho.unsound_of_resume hw raised)
            · exact agreed
          rw [here] at same sub
          exact ⟨same, sub.cons request⟩
        · obtain ⟨hw', resumed⟩ :=
            Machine.resume_relaxed hw (fun text h => held ⟨text, h⟩) (service request)
          rw [Machine.finish_of_await hw', resumed]
          exact ⟨same, sub.cons_cons request⟩
      · obtain ⟨signal, s, frames⟩ := m
        subst hp hf
        have ended : (⟨.proceed, s, []⟩ : Machine).relaxed = ⟨.proceed, s, []⟩ := rfl
        rw [ended, Machine.finish_of_end, Machine.finish_of_end]
        exact ⟨rfl, .slnil⟩

end Whole

/-- The lookups and the outcome of a check whose caller makes the lookups. -/
theorem check_blocking {ctx : Context} {service : Dns.Service} {timestamp : Int}
    {inquiry : Inquiry} {identity : Identity} (h : inquiry.begin timestamp = .ok identity) :
    check ctx service .blocking timestamp inquiry =
      (((machineOf identity inquiry.receivingDomain).finish ctx service).1,
        outcomeOf identity
          (some ((machineOf identity inquiry.receivingDomain).finish ctx service).2)) := by
  unfold check
  simp [h, Executor.execute]

/-- Strictness adds nothing but errors: whatever is looked up, if the check of a strict receiver does
not end with an error, the check of one that is not strict has the same outcome, and makes no other
lookups and none in another order. -/
theorem strict_only_errs (ctx : Context) (service : Dns.Service) (timestamp : Int)
    (inquiry : Inquiry)
    (temporary : (check (ctx.strictly true) service .blocking timestamp inquiry).2.result ≠
      .tempError)
    (permanent : (check (ctx.strictly true) service .blocking timestamp inquiry).2.result ≠
      .permError) :
    (check (ctx.strictly false) service .blocking timestamp inquiry).2 =
        (check (ctx.strictly true) service .blocking timestamp inquiry).2 ∧
      (check (ctx.strictly false) service .blocking timestamp inquiry).1.Sublist
        (check (ctx.strictly true) service .blocking timestamp inquiry).1 := by
  cases begun : inquiry.begin timestamp with
  | error outcome =>
    -- identities that cannot be read are reported, whatever is looked up
    have reported (isStrict : Bool) :
        check (ctx.strictly isStrict) service .blocking timestamp inquiry = ([], outcome) := by
      unfold check
      rw [begun]
    rw [reported, reported]
    exact ⟨rfl, .refl _⟩
  | ok identity =>
    rw [check_blocking begun] at temporary permanent
    rw [check_blocking begun, check_blocking begun]
    have sound : ((machineOf identity inquiry.receivingDomain).finish (ctx.strictly true)
        service).2.IsSound := by
      refine ⟨fun h => temporary ?_, fun h => permanent ?_⟩
      · simp only [outcomeOf, Outcome.ofResult, h, Option.getD_some]
      · simp only [outcomeOf, Outcome.ofResult, h, Option.getD_some]
    have ordered : Orderly (machineOf identity inquiry.receivingDomain) :=
      .begin identity inquiry.receivingDomain
    obtain ⟨same, sub⟩ := ordered.finish_relaxed sound
    exact ⟨congrArg (outcomeOf identity ∘ some) same, sub⟩

/-- A receiver that sets nothing but its strictness. -/
def plainReceiver : Context := ⟨.standard, [], 10⟩

/-- A service that publishes the same record everywhere, as either type. -/
def everywhere : Dns.Service := fun _ => .ok ["v=spf1 +all"]

/-- A record of both types: the strict receiver looks up both, and both let the client pass. -/
theorem strict_only_errs_of_agreement :
    ∃ inquiry : Inquiry,
      (check (plainReceiver.strictly true) everywhere .blocking 0 inquiry).1 =
        [⟨"b", .spf⟩, ⟨"b", .txt⟩] ∧
      (check (plainReceiver.strictly true) everywhere .blocking 0 inquiry).2.result = .pass ∧
      (check (plainReceiver.strictly false) everywhere .blocking 0 inquiry).2.result = .pass ∧
      (check (plainReceiver.strictly false) everywhere .blocking 0 inquiry).1.Sublist
        [⟨"b", .spf⟩, ⟨"b", .txt⟩] := by
  -- the lookups of both types, the stages behind them, and the terms of the record
  have looked := (((@Course.refl (plainReceiver.strictly true)
    (machineOf ⟨.v4 1#32, "a@b", "a", "b", "b", 0⟩ none)).snoc rfl).snoc rfl).snoc rfl
  have opened := ((((((looked.snoc_answer rfl (.ok ["v=spf1 +all"])).snoc_answer rfl
    (.ok ["v=spf1 +all"])).snoc rfl).snoc rfl).snoc rfl).snoc rfl).snoc rfl
  obtain ⟨last, completes, passes⟩ : ∃ last, Completes (plainReceiver.strictly true)
      (machineOf ⟨.v4 1#32, "a@b", "a", "b", "b", 0⟩ none) _ last ∧ last.result = some .pass :=
    ⟨_, ((((opened.snoc rfl).snoc rfl).snoc rfl).snoc rfl).snoc rfl, rfl⟩
  have finished := @Completes.finish_eq _ _ _ everywhere _ completes
    (List.forall_mem_cons.mpr ⟨rfl, List.forall_mem_singleton.mpr rfl⟩)
  have begun : Inquiry.begin ⟨"0.0.0.1", "a@b", "b", none⟩ 0 =
    .ok ⟨.v4 1#32, "a@b", "a", "b", "b", 0⟩ := rfl
  have strict := @check_blocking (plainReceiver.strictly true) everywhere _ _ _ begun
  rw [finished] at strict
  have pass : (outcomeOf ⟨.v4 1#32, "a@b", "a", "b", "b", 0⟩ (some last)).result = .pass := by
    simp only [outcomeOf, Outcome.ofResult, passes, Option.getD_some]
  have relaxed := strict_only_errs plainReceiver everywhere 0 ⟨"0.0.0.1", "a@b", "b", none⟩
    (by rw [strict, pass]; decide) (by rw [strict, pass]; decide)
  rw [strict] at relaxed
  refine ⟨⟨"0.0.0.1", "a@b", "b", none⟩, ?_⟩
  rw [strict, relaxed.1]
  exact ⟨rfl, pass, pass, relaxed.2⟩

end SenderPolicy.Evaluation
