import SenderPolicy.Proofs.Course.Exchanges
import SenderPolicy.Proofs.Course.Stages
import SenderPolicy.Proofs.Record.Acceptance

/-!
# Failed lookups

A lookup that a policy cannot do without ends the check when it fails: that of a record, of the
addresses and exchanges that a mechanism is about, and of the domain that is to exist. Every other
lookup that fails is as good as one that finds nothing: the names of the client and their
addresses, whether a mechanism or a template asks for them, and a published explanation. Nothing
but a failed lookup ends a check for now, and no policy on the way down makes anything else of it.

## Main definitions

* `Listener.isHard`: the listener hands a failure on
* `Exchange.softened`: the exchange with an empty answer, if its failure is of no account
* `Machine.Failed`: a check that a failed lookup ends or has ended

## Main results

* `raise_of_check`: the causes that frames raise in their turn
* `resume_of_hard`, `resume_of_soft`: what listeners make of a failure
* `tempError_iff_failure`: the failures that a check ends with
-/

namespace SenderPolicy.Evaluation

/-! ## Causes in their turn -/

/-- A cause is a missing policy, a failed lookup or an error. -/
theorem result_of_cause (cause : Error) :
    cause.result = .none ∨ cause.result = .tempError ∨ cause.result = .permError := by
  cases cause <;> simp [Error.result]

section Causes

variable {ctx : Context} {s : State} {cause : Error}

/-- What a stage raises is a missing policy or an error. -/
theorem raise_of_stageStep {st : Policy.Stage} (h : (stageStep s st).signal = .raise cause) :
    cause.result = .none ∨ cause.result = .permError := by
  cases st with
  | overrides | bestGuess | fallbacks | trustedForwarder =>
    simp only [stageStep] at h
    split at h <;> cases h
  | published =>
    simp only [stageStep] at h
    split at h <;> cases h
  | neutralWithoutMatch | explanation => cases h
  | wellFormed | required =>
    simp only [stageStep] at h
    split at h <;> cases h
    exact Or.inl rfl
  | parsed =>
    simp only [stageStep] at h
    split at h
    · cases h
    · split at h
      · cases h
      · rename_i hp
        cases h
        exact (Record.result_of_parse hp).imp And.right And.right

/-- A template that is no explanation is refused with an error, and nothing else is raised. -/
theorem Expanded.raise {purpose : Purpose} {r : Reaction} (he : Expanded s purpose r)
    (h : r.signal = .raise cause) : cause.result = .permError := by
  cases he with
  | refused _ _ _ hc =>
    cases h
    exact hc
  | _ => cases h

/-- A missing policy is raised on the way to the terms of a record; everything else that frames
raise in their turn is an error. -/
theorem raise_of_check {f : Frame} (h : (f.check ctx s).signal = .raise cause) :
    f.isAcquiring ∧ cause.result = .none ∨ cause.result = .permError := by
  have turn := check_turn ctx s f
  generalize hr : f.check ctx s = r at turn h
  cases turn with
  | lost st =>
    rw [← hr] at h
    exact (raise_of_stageStep h).imp_left fun hc => ⟨rfl, hc⟩
  | missing =>
    cases h
    exact Or.inl ⟨rfl, rfl⟩
  | exhausted | exhaustedRedirect =>
    cases h
    exact Or.inr rfl
  | entered _ _ _ _ _ _ expanded => exact Or.inr (expanded.raise h)
  | enteredRedirect _ _ _ _ expanded => exact Or.inr (expanded.raise h)
  | explains _ _ _ _ expanded => exact Or.inr (expanded.raise h)
  | explainsByDefault _ _ _ _ expanded => exact Or.inr (expanded.raise h)
  | expanded _ _ _ expanded => exact Or.inr (expanded.raise h)
  | _ => cases h

end Causes

/-! ## Answers -/

/-- The listener hands a failure on: it waits for the record of a domain, for the addresses or the
exchanges that a mechanism is about, for the addresses of an exchange, or for those of a domain that
is to exist. -/
def Listener.isHard : Listener → Bool
  | policyRecords _ _ | textRecords _ _ | addresses _ | exchanges _ | exchangeAddresses _ _
  | existence => true
  | pointers _ | pointerAddresses _ | explanationTexts | clientNames | clientAddresses _ => false

section Answers

variable {ctx : Context} {s : State} {listener : Listener}

/-- A listener that hands failures on fails. -/
theorem resume_of_hard (h : listener.isHard) (failure : Dns.LookupError) :
    listener.resume ctx (.error failure) s = .fail s (.lookup failure) := by
  cases listener with
  | pointers | pointerAddresses | explanationTexts | clientNames | clientAddresses => cases h
  | _ => rfl

/-- Any other listener takes a failure for an empty answer. -/
theorem resume_of_soft (h : listener.isHard = false) (failure : Dns.LookupError) :
    listener.resume ctx (.error failure) s = listener.resume ctx (.ok []) s := by
  cases listener with
  | pointers target => simp [Listener.resume, pointersAnswered]
  | pointerAddresses | explanationTexts | clientNames | clientAddresses => rfl
  | _ => cases h

theorem result_of_selectPolicy {texts : List String} {cause : Error}
    (h : selectPolicy texts = .error cause) : cause.result = .permError := by
  unfold selectPolicy at h
  split at h <;> cases h
  rfl

theorem result_of_agreed {other text : Option String} {cause : Error}
    (h : agreed other text = .error cause) : cause.result = .permError := by
  unfold agreed at h
  split at h
  · cases h
    rfl
  · split at h <;> cases h
    rfl
  · cases h

/-- What a listener raises upon an answer is an error. -/
theorem raise_of_resume {records : List String} {cause : Error}
    (h : (listener.resume ctx (.ok records) s).signal = .raise cause) :
    cause.result = .permError := by
  cases listener with
  | policyRecords domain isStrict =>
    simp only [Listener.resume, policyAnswered] at h
    split at h
    · rename_i he
      cases h
      exact result_of_selectPolicy he
    · split at h <;> cases h
  | textRecords isStrict other =>
    simp only [Listener.resume, textAnswered] at h
    split at h
    · rename_i he
      cases h
      rcases Error.bind_eq_error_iff.mp he with he | ⟨text, -, he⟩
      · exact result_of_selectPolicy he
      · split at he
        · exact result_of_agreed he
        · cases he
    · cases h
  | explanationTexts =>
    simp only [Listener.resume, explanationAnswered] at h
    split at h
    · exact (expandTo_expanded ctx .explanation _ s).raise h
    · have expanded : Expanded s .explanation (explainByDefault ctx s) :=
        explainByDefault_expanded ctx s s.receivingDomain rfl
      exact expanded.raise h
  | addresses | existence | clientAddresses => cases h
  | exchanges lengths =>
    simp only [Listener.resume, exchangesAnswered, recordsOf] at h
    generalize List.take ctx.recordLimit records = hosts at h
    cases hosts <;> cases h
  | exchangeAddresses rest lengths =>
    simp only [Listener.resume, exchangeAddressesAnswered, recordsOf] at h
    split at h
    · cases h
    · cases rest <;> cases h
  | pointers target =>
    simp only [Listener.resume, pointersAnswered] at h
    generalize List.filter _ _ = names at h
    cases names <;> cases h
  | pointerAddresses rest =>
    simp only [Listener.resume, pointerAddressesAnswered] at h
    split at h
    · cases h
    · cases rest <;> cases h
  | clientNames => cases records <;> cases h

/-- No answer is taken for a missing policy. -/
theorem result_of_resume {answer : Dns.Answer} {cause : Error}
    (h : (listener.resume ctx answer s).signal = .raise cause) : cause.result ≠ .none := by
  cases answer with
  | ok records =>
    rw [raise_of_resume h]
    nofun
  | error failure =>
    cases hl : listener.isHard with
    | true =>
      rw [resume_of_hard hl] at h
      cases h
      nofun
    | false =>
      rw [resume_of_soft hl] at h
      rw [raise_of_resume h]
      nofun

end Answers

/-! ## Failures of a check -/

/-- The lookup has failed. -/
def Exchange.failed (e : Exchange) : Bool :=
  match e.answer with
  | .error _ => true
  | .ok _ => false

/-- The exchange with an empty answer, if its failure is of no account. -/
def Exchange.softened (e : Exchange) : Exchange :=
  if e.failed ∧ e.listener.isHard = false then { e with answer := .ok [] } else e

/-- A failed lookup ends the check, or has ended it. -/
def Machine.Failed (m : Machine) : Prop :=
  match m.signal with
  | .proceed => m.frames = [] ∧ m.state.result = some .tempError
  | .raise cause => cause.result = .tempError
  | .await _ _ => False

section Checks

variable {ctx : Context} {m m' : Machine} {exchanges : List Exchange}

/-- No qualifier stands for a missing policy or a failed lookup. -/
theorem result_of_verdict (verdict : Option Qualifier) :
    (verdict.map Qualifier.result).getD .neutral ≠ .none ∧
      (verdict.map Qualifier.result).getD .neutral ≠ .tempError := by
  cases verdict with
  | none => exact ⟨nofun, nofun⟩
  | some qualifier => cases qualifier <;> exact ⟨nofun, nofun⟩

/-- No frame fails a check in its turn. -/
theorem Orderly.not_failed_of_check {s : State} {f : Frame} {below : List Frame}
    (h : Orderly ⟨.proceed, s, f :: below⟩) : ¬((f.check ctx s).above below).Failed := by
  have running : s.result = none := h.running (List.cons_ne_nil _ _)
  intro failed
  unfold Machine.Failed at failed
  split at failed
  · obtain ⟨hf, ht⟩ := failed
    have hb : below = [] := (List.append_eq_nil_iff.mp hf).2
    cases hc : f.isConclusion with
    | false => exact h.stacked.1.ne_nil hc hb
    | true =>
      cases f with
      | conclusion =>
        simp only [Frame.check, Reaction.above, Reaction.done, State.conclude, running,
          Option.some.injEq] at ht
        exact (result_of_verdict s.verdict).2 ht
      | _ => cases hc
  · rename_i cause hs
    rcases raise_of_check hs with ⟨-, hr⟩ | hr <;> rw [failed] at hr <;> cases hr
  · exact failed

/-- Steps make no failure, and lose none. -/
theorem Orderly.failed_of_step (h : Orderly m) (hs : m.step ctx = some m') :
    m'.Failed ↔ m.Failed := by
  obtain ⟨signal, s, frames⟩ := m
  cases frames with
  | nil =>
    cases (h.ended rfl).1
    cases hs
  | cons f below =>
    cases signal with
    | await request listener => simp [Machine.step] at hs
    | proceed =>
      cases hs
      exact iff_of_false h.not_failed_of_check fun failed => List.cons_ne_nil _ _ failed.1
    | raise cause =>
      cases hf : f.isConclusion with
      | true =>
        cases f with
        | conclusion =>
          have hb : below = [] := h.stacked.1
          have running : s.result = none := h.running (List.cons_ne_nil _ _)
          cases hs
          simp [Machine.Failed, State.conclude, running, hb]
        | _ => cases hf
      | false =>
        obtain ⟨t, cause', handed, -, same, -⟩ := @step_raise ctx cause s f below hf
        rw [handed] at hs
        cases hs
        exact same

/-- An answer fails a check if it is a failure that its listener hands on. -/
theorem Orderly.failed_of_resume {request : Dns.Request} {listener : Listener}
    {answer : Dns.Answer} (h : Orderly m) (hs : m.signal = .await request listener) :
    (m.resume ctx answer).Failed ↔
      listener.isHard ∧ Exchange.failed ⟨request, listener, answer⟩ := by
  obtain ⟨signal, s, frames⟩ := m
  subst hs
  -- an answer that is no failure does not fail the check
  have answered (records : List String) :
      ¬((listener.resume ctx (.ok records) s).above frames).Failed := by
    intro failed
    unfold Machine.Failed at failed
    split at failed
    · have hne := @Orderly.frames_ne_nil ctx _ ⟨.await request listener, s, frames⟩ h (Or.inl rfl)
      exact hne (List.append_eq_nil_iff.mp failed.1).2
    · rename_i hr
      rw [raise_of_resume hr] at failed
      cases failed
    · exact failed
  cases answer with
  | ok records => exact iff_of_false (answered records) fun hf => nomatch hf.2
  | error failure =>
    change ((listener.resume ctx (.error failure) s).above frames).Failed ↔ _
    cases hl : listener.isHard with
    | true =>
      rw [resume_of_hard hl]
      exact iff_of_true rfl ⟨rfl, rfl⟩
    | false =>
      rw [resume_of_soft hl]
      exact iff_of_false (answered []) fun hf => nomatch hf.1

/-- A check fails for now if it had failed before, or if a failure was handed on. -/
theorem Completes.tempError_iff {last : State} (h : Completes ctx m exchanges last)
    (ho : Orderly m) :
    last.result = some .tempError ↔ m.Failed ∨ ∃ e ∈ exchanges, e.listener.isHard ∧ e.failed := by
  unfold Completes at h
  generalize he : (⟨.proceed, last, []⟩ : Machine) = finish at h
  -- on the course: what a step or an answer adds is what the exchanges in front say
  induction h with
  | refl =>
    subst he
    simp [Machine.Failed]
  | step hs _ ih => rw [ih (ho.step hs) he, ho.failed_of_step hs]
  | @answer m _ request listener _ hs a _ ih =>
    have none_before : ¬m.Failed := by simp [Machine.Failed, hs]
    rw [ih (ho.resume hs) he, ho.failed_of_resume hs]
    simp [none_before]

/-- Failures of no account can be left out. -/
theorem Course.softened (h : Course ctx m exchanges m') :
    Course ctx m (exchanges.map Exchange.softened) m' := by
  induction h with
  | refl => exact .refl _
  | step hs _ ih => exact .step hs ih
  | @answer m _ request listener _ hs a _ ih =>
    rw [List.map_cons, Exchange.softened]
    split
    · rename_i soft
      obtain ⟨failed, hl⟩ := soft
      cases a with
      | ok records => cases failed
      | error failure =>
        have same : m.resume ctx (.error failure) = m.resume ctx (.ok []) := by
          simp only [Machine.resume, hs, resume_of_soft hl]
        exact .answer hs (.ok []) (same ▸ ih)
    · exact .answer hs a ih

end Checks

/-- A check fails for now if, and only if, a lookup failed that a policy cannot do without: that of
a record, of the addresses or exchanges of a mechanism, of the addresses of an exchange, or of a
domain that is to exist. Any other failure is as good as an empty answer: with empty answers in the
place of such failures the check makes the same lookups and comes to the same end, and so do all
checks that differ in nothing but them. -/
theorem tempError_iff_failure {ctx : Context} {identity : Identity}
    {receivingDomain : Option String} {exchanges : List Exchange} {last : State}
    (h : Completes ctx (machineOf identity receivingDomain) exchanges last) :
    ((outcomeOf identity (some last)).result = .tempError ↔
      ∃ e ∈ exchanges, e.listener.isHard ∧ e.failed) ∧
    Completes ctx (machineOf identity receivingDomain) (exchanges.map Exchange.softened) last ∧
    ∀ exchanges' last', Completes ctx (machineOf identity receivingDomain) exchanges' last' →
      exchanges'.map Exchange.softened = exchanges.map Exchange.softened → last' = last := by
  have begun : Orderly (machineOf identity receivingDomain) := .begin identity receivingDomain
  refine ⟨?_, h.softened, fun exchanges' last' h' same => ?_⟩
  · have ended : last.result ≠ none := ((Course.orderly h begun).ended rfl).2
    obtain ⟨result, hr⟩ := Option.ne_none_iff_exists'.mp ended
    have failed := h.tempError_iff begun
    rw [hr, Option.some.injEq] at failed
    simp only [outcomeOf, Outcome.ofResult, hr, Option.getD_some, failed]
    simp [machineOf, Machine.begin, Machine.Failed]
  · have softened : Completes ctx _ _ last' := Course.softened h'
    rw [same] at softened
    exact Completes.unique (Course.softened h) softened

/-- The client's names cannot be looked up, which is as good as none, and then the addresses of the
domain, which ends the check. -/
theorem tempError_iff_failure_of_addresses :
    ∃ exchanges last, Completes ⟨.standard, [], 10⟩
        (machineOf ⟨.v4 1#32, "a@b", "a", "b", "b", 0⟩ none) exchanges last ∧
      exchanges.map (fun e => (e.request.type, e.failed, e.listener.isHard)) =
        [(.spf, false, true), (.txt, false, true), (.ptr, true, false), (.a, true, true)] ∧
      (outcomeOf ⟨.v4 1#32, "a@b", "a", "b", "b", 0⟩ (some last)).result = .tempError := by
  have answered := ((((((@Course.refl ⟨.standard, [], 10⟩
    (machineOf ⟨.v4 1#32, "a@b", "a", "b", "b", 0⟩ none)).snoc rfl).snoc rfl).snoc rfl).snoc_answer
    rfl (.ok [])).snoc_answer rfl (.ok ["v=spf1 ptr a"]))
  -- the record, up to its first directive, whose lookup fails and which does not match
  have tried := ((((answered.snoc rfl).snoc rfl).snoc rfl).snoc rfl).snoc rfl |>.snoc rfl
  have passed := (tried.snoc_answer rfl (.error (.timeout "b"))).snoc rfl |>.snoc rfl
  -- the cause of the second directive, on its way down
  have failed :=
    ((((passed.snoc_answer rfl (.error (.timeout "b"))).snoc rfl).snoc rfl).snoc rfl).snoc rfl
  exact ⟨_, _, failed, rfl, (tempError_iff_failure failed).1.mpr ⟨_, List.mem_append_right _
    List.mem_cons_self, rfl, rfl⟩⟩

end SenderPolicy.Evaluation
