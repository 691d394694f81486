import SenderPolicy.Proofs.Course.Failures

/-!
# Missing policies

A check ends with nothing to say when its own domain has no policy: the name is malformed, nothing
was found, or what is assumed of such domains is no record. All of that is found out before the
record of the domain is opened. From then on every domain that is evaluated was referred to by
another policy, and what is missing there is an error of the policy that refers to it.

## Main definitions

* `Referred`: every domain that is still to be evaluated was referred to
* `Remains`: what is left of a check at a point of it
* `Unpublished`: the lookups of a domain that publishes no record
* `Policy.AssumesNothing`: what a policy has for domains without a record is no record

## Main results

* `Completes.result_ne_none`: a check whose own record is opened does not end without a policy
* `Remains.none_iff_of_stages`: the check of the sender's domain, stage by stage
* `none_iff_unpublished`: the checks that end without a policy
-/

namespace SenderPolicy.Evaluation

/-! ## Policies that refer -/

/-- The frame evaluates a domain, or is on the way to the terms of its record. -/
def Frame.isSeeking : Frame → Bool
  | evaluation | stage _ | terms => true
  | _ => false

/-- Every domain that is still to be evaluated was referred to by a policy below. -/
def Referred : List Frame → Prop
  | [] => True
  | f :: below => (f.isSeeking → below.any Frame.refers) ∧ Referred below

section Referred

variable {ctx : Context} {s : State} {f : Frame} {fs below : List Frame} {r : Reaction}

/-- Upon a policy that refers, anything may be left. -/
theorem Referred.append_of_refers (fs : List Frame) (h : below.any Frame.refers)
    (hb : Referred below) : Referred (fs ++ below) := by
  induction fs with
  | nil => exact hb
  | cons f fs ih => exact ⟨fun _ => List.any_append.trans (by rw [h, Bool.or_true]), ih⟩

/-- Frames that evaluate no domain may be left anywhere. -/
theorem Referred.append_of_plain (hf : ∀ f ∈ fs, f.isSeeking = false) (hb : Referred below) :
    Referred (fs ++ below) := by
  induction fs with
  | nil => exact hb
  | cons f fs ih =>
    rw [List.forall_mem_cons] at hf
    exact ⟨fun h => Bool.noConfusion (hf.1.symm.trans h), ih hf.2⟩

theorem framesOf_isSeeking (record : Record) : ∀ f ∈ framesOf record, f.isSeeking = false :=
  forall_mem_framesOf record (fun _ => rfl) (fun _ => rfl) fun _ => rfl

theorem Expanded.referred {purpose : Purpose} (he : Expanded s purpose r) (h : Referred below) :
    Referred (r.frames ++ below) := by
  cases he with
  | aside => exact h.append_of_plain (by simp [Frame.isSeeking])
  -- a term that leads to another domain refers to it
  | included | redirected => exact ⟨fun _ => rfl, nofun, h⟩
  | _ => exact h

theorem Turn.referred (ht : Turn ctx s f r) (h : Referred (f :: below)) :
    Referred (r.frames ++ below) := by
  obtain ⟨hf, hb⟩ := h
  cases ht with
  | begun => exact hb.append_of_refers _ (hf rfl)
  | opened record => exact hb.append_of_plain (framesOf_isSeeking record)
  | settled | exhausted => exact hb.append_of_plain (by simp [Reaction.onto, Frame.isSeeking,
      Reaction.done, Reaction.fail])
  | entered d _ _ _ _ _ expanded =>
    have upon : Referred (.commitment d.qualifier :: below) :=
      ⟨fun h => Bool.noConfusion h, hb⟩
    simpa [Reaction.onto] using expanded.referred upon
  | enteredRedirect _ _ _ _ expanded => exact expanded.referred hb
  | explains _ _ _ _ expanded => exact expanded.referred hb
  | explainsByDefault _ _ _ _ expanded => exact expanded.referred hb
  | expanded _ _ _ expanded => exact expanded.referred hb
  | _ => exact hb

theorem Heard.referred {listener : Listener} (hh : Heard ctx s listener r) (h : Referred below) :
    Referred (r.frames ++ below) := by
  cases hh with
  | explains _ expanded => exact expanded.referred h
  | _ => exact h

end Referred

/-! ## Behind the opening of a record -/

/-- The check has a policy for its own domain: whatever is missing from now on is missing from a
policy that refers to it. -/
structure Provided (m : Machine) : Prop where
  referred : Referred m.frames
  raised : ∀ cause, m.signal = .raise cause → resultUpon m.frames cause ≠ .none
  ended : m.frames = [] → m.state.result ≠ some .none

namespace Provided

variable {ctx : Context} {m m' : Machine}

theorem resultUpon_ne_none {frames : List Frame} {cause : Error}
    (h : frames.any Frame.refers ∨ cause.result ≠ .none) : resultUpon frames cause ≠ .none := by
  unfold resultUpon
  split
  · nofun
  · rename_i hn
    exact h.elim (fun hr hc => hn ⟨hc, hr⟩) id

theorem check {s : State} {f : Frame} {below : List Frame} (h : Provided ⟨.proceed, s, f :: below⟩)
    (ho : Orderly ⟨.proceed, s, f :: below⟩) : Provided ((f.check ctx s).above below) where
  referred := (check_turn ctx s f).referred h.referred
  raised := by
    intro cause hc
    refine resultUpon_ne_none ?_
    rcases raise_of_check hc with ⟨ha, -⟩ | hr
    · have hs : f.isSeeking := by cases f <;> simp_all [Frame.isAcquiring, Frame.isSeeking]
      refine Or.inl ?_
      simp only [Reaction.above, List.any_append, h.referred.1 hs, Bool.or_true]
    · rw [hr]
      exact Or.inr (by decide)
  ended := by
    intro hf
    have hb : below = [] := (List.append_eq_nil_iff.mp hf).2
    cases hc : f.isConclusion with
    | false => exact absurd hb (ho.stacked.1.ne_nil hc)
    | true =>
      have running : s.result = none := ho.running (List.cons_ne_nil _ _)
      cases f with
      | conclusion =>
        simp only [Frame.check, Reaction.above, Reaction.done, State.conclude, running, ne_eq,
          Option.some.injEq]
        exact (result_of_verdict s.verdict).1
      | _ => cases hc

/-- Steps keep what is provided. -/
theorem step (h : Provided m) (ho : Orderly m) (hs : m.step ctx = some m') : Provided m' := by
  obtain ⟨signal, s, frames⟩ := m
  cases frames with
  | nil =>
    cases (ho.ended rfl).1
    cases hs
  | cons f below =>
    cases signal with
    | await request listener => simp [Machine.step] at hs
    | proceed =>
      cases hs
      exact h.check ho
    | raise cause =>
      have upon := h.raised cause rfl
      cases hf : f.isConclusion with
      | true =>
        cases f with
        | conclusion =>
          have hb : below = [] := ho.stacked.1
          have running : s.result = none := ho.running (List.cons_ne_nil _ _)
          cases hs
          refine ⟨h.referred.2, by rintro _ ⟨⟩, fun _ => ?_⟩
          simpa [State.conclude, running, resultUpon, hb, Frame.refers] using upon
        | _ => cases hf
      | false =>
        obtain ⟨t, cause', handed, -, -, same⟩ := @step_raise ctx cause s f below hf
        rw [handed] at hs
        cases hs
        refine ⟨h.referred.2, ?_, fun hb => absurd hb (ho.stacked.1.ne_nil hf)⟩
        rintro _ ⟨⟩
        exact same ▸ upon

/-- Answers keep what is provided. -/
theorem resume {request : Dns.Request} {listener : Listener} {answer : Dns.Answer}
    (h : Provided m) (ho : Orderly m) (hs : m.signal = .await request listener) :
    Provided (m.resume ctx answer) := by
  obtain ⟨signal, s, frames⟩ := m
  subst hs
  refine ⟨(resume_heard ctx answer s listener).referred h.referred, ?_, fun hf => ?_⟩
  · exact fun cause hc => resultUpon_ne_none (Or.inr (result_of_resume hc))
  · have hne := @Orderly.frames_ne_nil ctx _ ⟨.await request listener, s, frames⟩ ho (Or.inl rfl)
    exact absurd (List.append_eq_nil_iff.mp hf).2 hne

/-- The terms of the sender's own record are there. -/
theorem of_framesOf (s : State) (record : Record) :
    Provided ⟨.proceed, s, framesOf record ++ [.conclusion]⟩ where
  referred := Referred.append_of_plain (framesOf_isSeeking record)
    ⟨fun h => Bool.noConfusion h, trivial⟩
  raised := by rintro _ ⟨⟩
  ended := by simp

end Provided

/-- A check that has a policy for its own domain does not end without one. -/
theorem Completes.result_ne_none {ctx : Context} {m : Machine} {exchanges : List Exchange}
    {last : State} (h : Completes ctx m exchanges last) (ho : Orderly m) (hp : Provided m) :
    last.result ≠ some .none := by
  have kept : Orderly ⟨.proceed, last, []⟩ ∧ Provided ⟨.proceed, last, []⟩ :=
    Course.invariant h (P := fun m => Orderly m ∧ Provided m)
      (fun _ _ hm hs => ⟨hm.1.step hs, hm.2.step hm.1 hs⟩)
      (fun _ _ _ hm hs _ => ⟨hm.1.resume hs, hm.2.resume hm.1 hs⟩) ⟨ho, hp⟩
  exact kept.2.ended rfl

/-! ## The domain of the sender

The stages of a domain that nothing refers to lie right upon the terms and the conclusion. -/

/-- The stages that are left for the domain of the sender, and what comes behind them. -/
def senderFrames (stages : List Policy.Stage) : List Frame :=
  stages.map .stage ++ [.terms, .conclusion]

/-- What a policy has for domains that publish no record is no record: its guess lacks the version
token, or there is no guess and no fallback. -/
def Policy.AssumesNothing (policy : Policy) (domain : String) : Prop :=
  match policy.bestGuess with
  | some text => Record.isPolicy text = false
  | none => policy.fallbacks.bind (·.lookup domain) = none

/-- The exchanges are those of a domain that publishes no record: both types are asked for, and no
text of the answers carries the version token. -/
def Unpublished (policy : Policy) (domain : String) (exchanges : List Exchange) : Prop :=
  ∃ other texts, exchanges =
      [⟨⟨domain, .spf⟩, .policyRecords domain policy.isStrict, .ok other⟩,
        ⟨⟨domain, .txt⟩, .textRecords policy.isStrict none, .ok texts⟩] ∧
    ∀ text ∈ other ++ texts, Record.isPolicy text = false

section Sender

variable {ctx : Context} {s : State} {sts : List Policy.Stage} {exchanges : List Exchange}
  {last : State}

/-- What is left of a check at a point of it: it is orderly, and comes to its end. -/
structure Remains (ctx : Context) (m : Machine) (exchanges : List Exchange) (last : State) :
    Prop where
  completes : Completes ctx m exchanges last
  orderly : Orderly m

theorem Remains.step {m m' : Machine} (h : Remains ctx m exchanges last)
    (hs : m.step ctx = some m') : Remains ctx m' exchanges last :=
  ⟨(Completes.of_step_iff hs).mp h.completes, h.orderly.step hs⟩

theorem Remains.answered {m : Machine} {request : Dns.Request} {listener : Listener}
    (h : Remains ctx m exchanges last) (hs : m.signal = .await request listener) :
    ∃ answer rest, exchanges = ⟨request, listener, answer⟩ :: rest ∧
      Remains ctx (m.resume ctx answer) rest last := by
  obtain ⟨answer, rest, he, answered⟩ := (Completes.of_await_iff hs).mp h.completes
  exact ⟨answer, rest, he, answered, h.orderly.resume hs⟩

/-- Behind a stage is what it leaves. -/
theorem Remains.of_stage {st : Policy.Stage} {r : Reaction}
    (h : Remains ctx ⟨.proceed, s, senderFrames (st :: sts)⟩ exchanges last)
    (hs : stageStep s st = r) : Remains ctx (r.above (senderFrames sts)) exchanges last :=
  h.step (congrArg (fun r => some (Reaction.above r (senderFrames sts))) hs)

/-- A stage that is done leaves the next one. -/
theorem Remains.of_done {st : Policy.Stage} {t : State}
    (h : Remains ctx ⟨.proceed, s, senderFrames (st :: sts)⟩ exchanges last)
    (hs : stageStep s st = .done t) :
    Remains ctx ⟨.proceed, t, senderFrames sts⟩ exchanges last :=
  h.of_stage hs

/-- A cause that is raised upon the stages of the sender ends the check with its result. -/
theorem Remains.of_raise {cause : Error}
    (h : Remains ctx ⟨.raise cause, s, senderFrames sts⟩ exchanges last) :
    exchanges = [] ∧ last.result = some cause.result := by
  obtain ⟨rfl, hl⟩ := h.completes.of_raise h.orderly
  have alone : (senderFrames sts).any Frame.refers = false := by
    simp [senderFrames, Frame.refers]
  exact ⟨rfl, by simpa [resultUpon, alone] using hl⟩

/-- A stage that fails ends the check with the result of its cause. -/
theorem Remains.of_fail {st : Policy.Stage} {t : State} {cause : Error}
    (h : Remains ctx ⟨.proceed, s, senderFrames (st :: sts)⟩ exchanges last)
    (hs : stageStep s st = .fail t cause) :
    exchanges = [] ∧ last.result = some cause.result :=
  (h.of_stage hs).of_raise

/-- A record of a well-formed name stays found, whatever stage comes. -/
theorem stageStep_of_record (st : Policy.Stage) (hr : s.record ≠ none) (ht : s.text = none)
    (hw : Domain.WellFormed s.domain) :
    ∃ t, stageStep s st = .done t ∧ t.record ≠ none ∧ t.text = none ∧ t.domain = s.domain := by
  have some_record : s.record.isSome := Option.isSome_iff_ne_none.mpr hr
  have not_none : s.record.isNone = false := by simpa using some_record
  cases st with
  | overrides table =>
    simp only [stageStep]
    split
    · exact ⟨_, rfl, by simp, ht, rfl⟩
    · exact ⟨s, rfl, hr, ht, rfl⟩
  | wellFormed => exact ⟨s, by simp [stageStep, hw], hr, ht, rfl⟩
  | published isStrict => exact ⟨s, by simp [stageStep, some_record], hr, ht, rfl⟩
  | bestGuess text => exact ⟨s, by simp [stageStep, not_none], hr, ht, rfl⟩
  | parsed => exact ⟨s, by simp [stageStep, ht], hr, ht, rfl⟩
  | fallbacks table => exact ⟨s, by simp [stageStep, not_none], hr, ht, rfl⟩
  | required => exact ⟨s, by simp [stageStep, not_none], hr, ht, rfl⟩
  | trustedForwarder domain =>
    simp only [stageStep]
    split
    · exact ⟨s, rfl, hr, ht, rfl⟩
    · exact ⟨_, rfl, by simpa using hr, ht, rfl⟩
  | neutralWithoutMatch => exact ⟨_, rfl, by simpa using hr, ht, rfl⟩
  | explanation template => exact ⟨_, rfl, by simpa using hr, ht, rfl⟩

/-- The opening of the sender's record provides for the check. -/
theorem Remains.result_ne_none_of_terms
    (h : Remains ctx ⟨.proceed, s, [.terms, .conclusion]⟩ exchanges last) (hr : s.record ≠ none) :
    last.result ≠ some .none := by
  obtain ⟨record, hr⟩ := Option.ne_none_iff_exists'.mp hr
  have opens : Machine.step ctx ⟨.proceed, s, [.terms, .conclusion]⟩ =
      some ⟨.proceed, { s with record := none }, framesOf record ++ [.conclusion]⟩ := by
    simp [Machine.step, Frame.check, termsStep, hr, Reaction.leave, Reaction.above]
  obtain ⟨completes, orderly⟩ := h.step opens
  exact completes.result_ne_none orderly (.of_framesOf _ record)

/-- A check that has found a record for the sender does not end without a policy. -/
theorem Remains.result_ne_none_of_record
    (h : Remains ctx ⟨.proceed, s, senderFrames sts⟩ exchanges last) (hr : s.record ≠ none)
    (ht : s.text = none) (hw : Domain.WellFormed s.domain) : last.result ≠ some .none := by
  induction sts generalizing s with
  | nil => exact h.result_ne_none_of_terms hr
  | cons st sts ih =>
    obtain ⟨t, hs, hr', ht', hd⟩ := stageStep_of_record st hr ht hw
    exact ih (h.of_done hs) hr' ht' (hd ▸ hw)

/-- A text of the sender leaves the check without a policy if it lacks the version token. -/
theorem Remains.none_iff_of_text {text : String}
    (h : Remains ctx ⟨.proceed, s, senderFrames (.parsed :: sts)⟩ exchanges last)
    (ht : s.text = some text) (hw : Domain.WellFormed s.domain) :
    (last.result = some .none ↔ Record.isPolicy text = false) ∧
      (last.result = some .none → exchanges = []) := by
  rw [← Bool.not_eq_true, Record.isPolicy_iff]
  cases hp : Record.parse text with
  | ok record =>
    have reads : stageStep s .parsed = .done { s with text := none, record := some record } := by
      simp [stageStep, ht, hp]
    have found := (h.of_done reads).result_ne_none_of_record (Option.some_ne_none _) rfl hw
    have version := (Record.parse_eq_ok_iff.mp hp).1
    exact ⟨iff_of_false found (not_not_intro version), fun hn => absurd hn found⟩
  | error cause =>
    have refuses : stageStep s .parsed = .fail { s with text := none } cause := by
      simp [stageStep, ht, hp]
    obtain ⟨he, hl⟩ := h.of_fail refuses
    refine ⟨?_, fun _ => he⟩
    rw [hl, Option.some.injEq]
    rcases Record.result_of_parse hp with ⟨hv, hr⟩ | ⟨hv, hr⟩ <;> simp [hv, hr]

/-- Without a record, the stage that requires one ends the check. -/
theorem Remains.of_required
    (h : Remains ctx ⟨.proceed, s, senderFrames (.required :: sts)⟩ exchanges last)
    (hr : s.record = none) : exchanges = [] ∧ last.result = some .none := by
  have requires : stageStep s .required = .fail s (.nothingPublished s.domain) := by
    simp [stageStep, hr]
  exact h.of_fail requires

/-- The stages of the sender behind the lookup of its record. -/
def stagesBehindLookup (policy : Policy) (later : List Policy.Stage) : List Policy.Stage :=
  (policy.bestGuess.map .bestGuess).toList ++
    .parsed :: ((policy.fallbacks.map .fallbacks).toList ++ .required :: later)

/-- A domain without a record is left without a policy if nothing is assumed of such domains. -/
theorem Remains.none_iff_of_nothing
    (h : Remains ctx ⟨.proceed, s, senderFrames (stagesBehindLookup ctx.policy sts)⟩ exchanges last)
    (hr : s.record = none) (ht : s.text = none) (hw : Domain.WellFormed s.domain) :
    (last.result = some .none ↔ Policy.AssumesNothing ctx.policy s.domain) ∧
      (last.result = some .none → exchanges = []) := by
  unfold Policy.AssumesNothing
  unfold stagesBehindLookup at h
  cases hg : ctx.policy.bestGuess with
  | some guess =>
    rw [hg] at h
    have guesses : stageStep s (.bestGuess guess) = .done { s with text := some guess } := by
      simp [stageStep, hr, ht]
    exact (h.of_done guesses).none_iff_of_text rfl hw
  | none =>
    rw [hg] at h
    have passes : stageStep s .parsed = .done s := by simp [stageStep, ht]
    have passed := h.of_done passes
    cases hf : ctx.policy.fallbacks with
    | none =>
      rw [hf] at passed
      obtain ⟨he, hl⟩ := passed.of_required hr
      exact ⟨iff_of_true hl rfl, fun _ => he⟩
    | some table =>
      rw [hf] at passed
      have looks : stageStep s (.fallbacks table) =
          .done { s with record := table.lookup s.domain } := by
        simp [stageStep, hr]
      have looked := passed.of_done looks
      cases hl : table.lookup s.domain with
      | none =>
        rw [hl] at looked
        obtain ⟨he, hn⟩ := looked.of_required rfl
        exact ⟨iff_of_true hn hl, fun _ => he⟩
      | some record =>
        rw [hl] at looked
        have found := looked.result_ne_none_of_record (Option.some_ne_none _) ht hw
        refine ⟨iff_of_false found ?_, fun hn => absurd hn found⟩
        simp [hl]

/-! ## What is published for the domain of the sender -/

theorem selectPolicy_eq_none {texts : List String} (h : selectPolicy texts = .ok none) :
    ∀ text ∈ texts, Record.isPolicy text = false := by
  unfold selectPolicy at h
  split at h
  · rename_i hf
    simpa using hf
  · cases h
  · cases h

theorem selectPolicy_of_none {texts : List String}
    (h : ∀ text ∈ texts, Record.isPolicy text = false) : selectPolicy texts = .ok none := by
  have hf : texts.filter Record.isPolicy = [] := by simpa using h
  simp [selectPolicy, hf]

theorem isPolicy_of_selectPolicy {texts : List String} {text : String}
    (h : selectPolicy texts = .ok (some text)) : Record.isPolicy text := by
  unfold selectPolicy at h
  split at h
  · cases h
  · rename_i hf
    cases h
    exact (List.mem_filter.mp (hf ▸ List.mem_singleton_self text)).2
  · cases h

theorem policyAnswered_ok (domain : String) (isStrict : Bool) (texts : List String) (s : State) :
    policyAnswered domain isStrict (.ok texts) s =
      match selectPolicy texts with
      | .error cause => .fail s cause
      | .ok other =>
        if ¬isStrict ∧ other.isSome then .done { s with text := other }
        else .await s domain .txt (.textRecords isStrict other) := rfl

/-- The first answer fails, holds the record, or leads to the text records. -/
theorem policyAnswered_cases (domain : String) (isStrict : Bool) (answer : Dns.Answer) (s : State) :
    (∃ cause, policyAnswered domain isStrict answer s = .fail s cause) ∨
    (∃ text, policyAnswered domain isStrict answer s = .done { s with text := some text } ∧
      Record.isPolicy text) ∨
    ∃ other texts, policyAnswered domain isStrict answer s =
        .await s domain .txt (.textRecords isStrict other) ∧
      answer = .ok texts ∧ (isStrict = false → other = none) ∧
      (other = none → ∀ text ∈ texts, Record.isPolicy text = false) := by
  cases answer with
  | error failure => exact Or.inl ⟨_, rfl⟩
  | ok texts =>
    rw [policyAnswered_ok]
    cases hs : selectPolicy texts with
    | error cause => exact Or.inl ⟨cause, rfl⟩
    | ok other =>
      cases other with
      | none => exact Or.inr (Or.inr ⟨none, texts, by simp, rfl, fun _ => rfl,
          fun _ => selectPolicy_eq_none hs⟩)
      | some text =>
        cases isStrict with
        | false => exact Or.inr (Or.inl ⟨text, by simp, isPolicy_of_selectPolicy hs⟩)
        | true => exact Or.inr (Or.inr ⟨some text, texts, by simp, rfl, nofun, nofun⟩)

/-- What two types agree on is what the text type holds. -/
theorem agreed_eq_ok {other text found : Option String} (h : agreed other text = .ok found) :
    found = text ∧ (text = none → other = none) := by
  unfold agreed at h
  split at h
  · cases h
  · split at h <;> cases h
    exact ⟨rfl, nofun⟩
  · cases h
    exact ⟨rfl, fun _ => rfl⟩

theorem textAnswered_ok (isStrict : Bool) (other : Option String) (texts : List String)
    (s : State) :
    textAnswered isStrict other (.ok texts) s =
      match selectPolicy texts >>= fun text => if isStrict then agreed other text else .ok text with
      | .error cause => .fail s cause
      | .ok text => .done { s with text := text } := rfl

/-- The second answer fails, holds the record, or holds none. -/
theorem textAnswered_cases (isStrict : Bool) (other : Option String) (answer : Dns.Answer)
    (s : State) :
    (∃ cause, textAnswered isStrict other answer s = .fail s cause) ∨
    (∃ text, textAnswered isStrict other answer s = .done { s with text := some text } ∧
      Record.isPolicy text) ∨
    ∃ texts, textAnswered isStrict other answer s = .done { s with text := none } ∧
      answer = .ok texts ∧ (isStrict → other = none) ∧
      ∀ text ∈ texts, Record.isPolicy text = false := by
  cases answer with
  | error failure => exact Or.inl ⟨_, rfl⟩
  | ok texts =>
    rw [textAnswered_ok]
    cases hf : selectPolicy texts >>= fun text =>
      if isStrict then agreed other text else .ok text with
    | error cause => exact Or.inl ⟨cause, rfl⟩
    | ok found =>
      obtain ⟨text, hs, ha⟩ := Error.bind_eq_ok_iff.mp hf
      have held : found = text ∧ (isStrict → text = none → other = none) := by
        cases isStrict with
        | true => exact (agreed_eq_ok ha).imp_right fun hn _ => hn
        | false =>
          cases ha
          exact ⟨rfl, nofun⟩
      obtain ⟨rfl, hn⟩ := held
      cases found with
      | some text => exact Or.inr (Or.inl ⟨text, rfl, isPolicy_of_selectPolicy hs⟩)
      | none =>
        exact Or.inr (Or.inr ⟨texts, rfl, rfl, fun h => hn h rfl, selectPolicy_eq_none hs⟩)

/-- What an answer leaves for the stage that reads it carries the version token. -/
theorem isPolicy_of_resume {listener : Listener} {answer : Dns.Answer} {text : String}
    (hl : listener.isAcquiring) (hp : (listener.resume ctx answer s).signal = .proceed)
    (ht : (listener.resume ctx answer s).state.text = some text) : Record.isPolicy text := by
  cases listener with
  | policyRecords domain isStrict =>
    simp only [Listener.resume] at hp ht
    rcases policyAnswered_cases domain isStrict answer s with ⟨cause, hr⟩ | ⟨found, hr, hv⟩ |
      ⟨other, texts, hr, -⟩ <;> rw [hr] at hp ht
    · cases hp
    · cases ht
      exact hv
    · cases hp
  | textRecords isStrict other =>
    simp only [Listener.resume] at hp ht
    rcases textAnswered_cases isStrict other answer s with ⟨cause, hr⟩ | ⟨found, hr, hv⟩ |
      ⟨texts, hr, -⟩ <;> rw [hr] at hp ht
    · cases hp
    · cases ht
      exact hv
    · cases ht
  | _ => cases hl

/-- A text that carries the version token leaves the check with a policy. -/
theorem Remains.result_ne_none_of_text {text : String}
    (h : Remains ctx ⟨.proceed, s, senderFrames (stagesBehindLookup ctx.policy sts)⟩ exchanges last)
    (ht : s.text = some text) (hv : Record.isPolicy text) (hw : Domain.WellFormed s.domain) :
    last.result ≠ some .none := by
  have read {later : List Policy.Stage}
      (h : Remains ctx ⟨.proceed, s, senderFrames (.parsed :: later)⟩ exchanges last) :
      last.result ≠ some .none := by
    rw [ne_eq, (h.none_iff_of_text ht hw).1, hv]
    exact Bool.noConfusion
  unfold stagesBehindLookup at h
  cases hg : ctx.policy.bestGuess with
  | none =>
    rw [hg] at h
    exact read h
  | some guess =>
    -- a text that was found is not guessed in its place
    rw [hg] at h
    have passes : stageStep s (.bestGuess guess) = .done s := by simp [stageStep, ht]
    exact read (h.of_done passes)

/-- What an answer raises for the sender is no missing policy. -/
theorem Remains.result_ne_none_of_answer {listener : Listener} {answer : Dns.Answer} {t : State}
    {cause : Error}
    (h : Remains ctx ((Reaction.fail t cause).above (senderFrames sts)) exchanges last)
    (hr : listener.resume ctx answer s = .fail t cause) : last.result ≠ some .none := by
  rw [(of_raise h).2, ne_eq, Option.some.injEq]
  exact result_of_resume (by rw [hr]; rfl)

/-- The text records are the last that can hold the record of the sender. -/
theorem Remains.none_iff_of_texts {isStrict : Bool} {other : Option String}
    (h : Remains ctx ⟨.await ⟨s.domain, .txt⟩ (.textRecords isStrict other), s,
      senderFrames (stagesBehindLookup ctx.policy sts)⟩ exchanges last)
    (hr : s.record = none) (hs : isStrict = false → other = none)
    (hw : Domain.WellFormed s.domain) : last.result = some .none ↔ other = none ∧ ∃ texts,
      exchanges = [⟨⟨s.domain, .txt⟩, .textRecords isStrict none, .ok texts⟩] ∧
      (∀ text ∈ texts, Record.isPolicy text = false) ∧
      Policy.AssumesNothing ctx.policy s.domain := by
  obtain ⟨answer, rest, rfl, answered⟩ := h.answered rfl
  change Remains ctx ((textAnswered isStrict other answer s).above _) rest last at answered
  constructor
  · intro hn
    rcases textAnswered_cases isStrict other answer s with ⟨cause, hf⟩ | ⟨text, hf, hv⟩ |
      ⟨texts, hf, rfl, hs', hv⟩ <;> rw [hf] at answered
    · have failed : (Listener.textRecords isStrict other).resume ctx answer s = .fail s cause := hf
      exact absurd hn (answered.result_ne_none_of_answer failed)
    · exact absurd hn (answered.result_ne_none_of_text rfl hv hw)
    · obtain ⟨assumes, unasked⟩ := answered.none_iff_of_nothing hr rfl hw
      obtain rfl : other = none := by
        cases isStrict with
        | false => exact hs rfl
        | true => exact hs' rfl
      exact ⟨rfl, texts, by rw [unasked hn], hv, assumes.mp hn⟩
  · rintro ⟨rfl, texts, ⟨⟩, hv, assumes⟩
    have hf : textAnswered isStrict none (.ok texts) s = .done { s with text := none } := by
      rw [textAnswered_ok, selectPolicy_of_none hv]
      cases isStrict <;> rfl
    rw [hf] at answered
    exact (answered.none_iff_of_nothing hr rfl hw).1.mpr assumes

/-- A well-formed name for which nothing is held locally is left without a policy if it publishes no
record and nothing is assumed of such domains. -/
theorem Remains.none_iff_of_published
    (h : Remains ctx ⟨.proceed, s, senderFrames (.published ctx.policy.isStrict ::
      stagesBehindLookup ctx.policy sts)⟩ exchanges last)
    (hr : s.record = none) (ht : s.text = none) (hw : Domain.WellFormed s.domain) :
    last.result = some .none ↔
      Unpublished ctx.policy s.domain exchanges ∧ Policy.AssumesNothing ctx.policy s.domain := by
  have asks : stageStep s (.published ctx.policy.isStrict) =
      .await s s.domain .spf (.policyRecords s.domain ctx.policy.isStrict) := by
    simp [stageStep, hr, ht]
  obtain ⟨answer, rest, rfl, answered⟩ := (h.of_stage asks).answered rfl
  change Remains ctx ((policyAnswered s.domain ctx.policy.isStrict answer s).above _) rest last
    at answered
  constructor
  · intro hn
    rcases policyAnswered_cases s.domain ctx.policy.isStrict answer s with ⟨cause, hf⟩ |
      ⟨text, hf, hv⟩ | ⟨other, texts, hf, rfl, hs, hv⟩ <;> rw [hf] at answered
    · have failed : (Listener.policyRecords s.domain ctx.policy.isStrict).resume ctx answer s =
          .fail s cause := hf
      exact absurd hn (answered.result_ne_none_of_answer failed)
    · exact absurd hn (answered.result_ne_none_of_text rfl hv hw)
    · obtain ⟨rfl, texts', rfl, hv', assumes⟩ := (answered.none_iff_of_texts hr hs hw).mp hn
      exact ⟨⟨texts, texts', rfl, List.forall_mem_append.mpr ⟨hv rfl, hv'⟩⟩, assumes⟩
  · rintro ⟨⟨other, texts, heq, hv⟩, assumes⟩
    cases heq
    rw [List.forall_mem_append] at hv
    have hf : policyAnswered s.domain ctx.policy.isStrict (.ok other) s =
        .await s s.domain .txt (.textRecords ctx.policy.isStrict none) := by
      rw [policyAnswered_ok, selectPolicy_of_none hv.1]
      simp
    rw [hf] at answered
    exact (answered.none_iff_of_texts hr (fun _ => rfl) hw).mpr ⟨rfl, texts, rfl, hv.2, assumes⟩

/-- In front of the lookup there are the records that replace published ones, and the stage that
refuses malformed names. -/
theorem stages_eq_lookup (policy : Policy) :
    ∃ later, policy.stages = (policy.overrides.map .overrides).toList ++
      .wellFormed :: .published policy.isStrict :: stagesBehindLookup policy later := by
  refine ⟨(policy.trustedForwarder.map .trustedForwarder).toList ++ [.neutralWithoutMatch] ++
    (policy.defaultExplanation.map .explanation).toList, ?_⟩
  simp only [Policy.stages, stagesBehindLookup, List.append_assoc, List.cons_append,
    List.nil_append]

/-- Behind the records that replace published ones, a check is left without a policy if the name is
malformed, or if there is no such record and the name is left without one. -/
theorem Remains.none_iff_of_wellFormed
    (h : Remains ctx ⟨.proceed, s, senderFrames (.wellFormed :: .published ctx.policy.isStrict ::
      stagesBehindLookup ctx.policy sts)⟩ exchanges last) (ht : s.text = none) :
    last.result = some .none ↔ ¬Domain.WellFormed s.domain ∨ s.record = none ∧
      Unpublished ctx.policy s.domain exchanges ∧ Policy.AssumesNothing ctx.policy s.domain := by
  by_cases hw : Domain.WellFormed s.domain
  · have passes : stageStep s .wellFormed = .done s := by simp [stageStep, hw]
    have passed := h.of_done passes
    by_cases hr : s.record = none
    · rw [passed.none_iff_of_published hr ht hw]
      simp [hw, hr]
    · have found := passed.result_ne_none_of_record hr ht hw
      simp [hw, hr, found]
  · have refuses : stageStep s .wellFormed = .fail s (.malformedDomain s.domain) := by
      simp [stageStep, hw]
    exact iff_of_true (h.of_fail refuses).2 (Or.inl hw)

/-- A check is left without a policy if the sender's name is malformed, or if no record replaces a
published one, none is published, and none is assumed. -/
theorem Remains.none_iff_of_stages
    (h : Remains ctx ⟨.proceed, s, senderFrames ctx.policy.stages⟩ exchanges last)
    (hr : s.record = none) (ht : s.text = none) :
    last.result = some .none ↔ ¬Domain.WellFormed s.domain ∨
      ctx.policy.overrides.bind (·.lookup s.domain) = none ∧
      Unpublished ctx.policy s.domain exchanges ∧ Policy.AssumesNothing ctx.policy s.domain := by
  obtain ⟨later, hs⟩ := stages_eq_lookup ctx.policy
  rw [hs] at h
  cases hov : ctx.policy.overrides with
  | none =>
    rw [hov] at h
    simpa [hr] using h.none_iff_of_wellFormed ht
  | some table =>
    rw [hov] at h
    have looks : stageStep s (.overrides table) =
        .done { s with record := table.lookup s.domain } := by
      cases hl : table.lookup s.domain with
      | none =>
        have same : { s with record := (none : Option Record) } = s := by rw [← hr]
        simp [stageStep, hl, same]
      | some record => simp [stageStep, hl]
    exact (h.of_done looks).none_iff_of_wellFormed ht

end Sender

/-! ## Whole checks -/

/-- A check has nothing to say if, and only if, there is no policy for the domain of the sender: its
name is malformed; or no record replaces a published one, none is published, and what is assumed of
such domains is no record. Once the record of the sender is opened there is always something to say:
whatever is missing or wrong in a policy that another one refers to is an error. And a text that an
answer holds is never read as no record at all. -/
theorem none_iff_unpublished {ctx : Context} {identity : Identity}
    {receivingDomain : Option String} {exchanges : List Exchange} {last : State}
    (h : Completes ctx (machineOf identity receivingDomain) exchanges last) :
    ((outcomeOf identity (some last)).result = .none ↔
      ¬Domain.WellFormed identity.senderDomain ∨
      ctx.policy.overrides.bind (·.lookup identity.senderDomain) = none ∧
      Unpublished ctx.policy identity.senderDomain exchanges ∧
      Policy.AssumesNothing ctx.policy identity.senderDomain) ∧
    ∀ before after m, Course ctx (machineOf identity receivingDomain) before m →
      Completes ctx m after last →
      (m.signal = .proceed → m.frames = [.terms, .conclusion] → m.state.record ≠ none →
        (outcomeOf identity (some last)).result ≠ .none) ∧
      (∀ cause, m.signal = .raise cause → m.frames.any Frame.refers →
        cause.result ≠ .tempError → (outcomeOf identity (some last)).result = .permError) ∧
      ∀ request listener, m.signal = .await request listener → listener.isAcquiring →
        ∀ answer text, (m.resume ctx answer).signal = .proceed →
          (m.resume ctx answer).state.text = some text →
          ∀ cause, Record.parse text = .error cause → cause.result = .permError := by
  have begun : Orderly (machineOf identity receivingDomain) := .begin identity receivingDomain
  have ended : last.result ≠ none := ((Course.orderly h begun).ended rfl).2
  have outcome (result : Result) :
      (outcomeOf identity (some last)).result = result ↔ last.result = some result := by
    obtain ⟨r, hr⟩ := Option.ne_none_iff_exists'.mp ended
    simp [outcomeOf, Outcome.ofResult, hr]
  constructor
  · have opens : Machine.step ctx (machineOf identity receivingDomain) =
        some ⟨.proceed, .initial identity receivingDomain, senderFrames ctx.policy.stages⟩ := by
      simp [machineOf, Machine.begin, Machine.step, Frame.check, Reaction.leave, Reaction.above,
        senderFrames]
    rw [outcome]
    have began : Remains ctx (machineOf identity receivingDomain) exchanges last := ⟨h, begun⟩
    exact (began.step opens).none_iff_of_stages rfl rfl
  · intro before after m reached rest
    have ordered : Orderly m := reached.orderly begun
    obtain ⟨signal, s, frames⟩ := m
    refine ⟨?_, ?_, ?_⟩
    · rintro rfl rfl hr
      rw [ne_eq, outcome]
      have remains : Remains ctx ⟨.proceed, s, [.terms, .conclusion]⟩ after last := ⟨rest, ordered⟩
      exact remains.result_ne_none_of_terms hr
    · rintro cause rfl referred hc
      rw [outcome, (rest.of_raise ordered).2, Option.some.injEq, resultUpon]
      split
      · rfl
      · rename_i hn
        rcases result_of_cause cause with hr | hr | hr
        · exact absurd ⟨hr, referred⟩ hn
        · exact absurd hr hc
        · exact hr
    · rintro request listener rfl hl answer text hp ht cause hf
      have version : Record.isPolicy text := isPolicy_of_resume hl hp ht
      rw [Record.isPolicy_iff] at version
      exact ((Record.result_of_parse hf).resolve_left fun hn => hn.1 version).2

/-- An inclusion of a domain that publishes nothing: what is missing is an error of the policy that
includes it. -/
theorem none_iff_unpublished_of_inclusion :
    ∃ exchanges last, Completes ⟨.standard, [], 10⟩
        (machineOf ⟨.v4 1#32, "a@b", "a", "b", "b", 0⟩ none) exchanges last ∧
      exchanges.map (fun e => e.request.host) = ["b", "b", "c.d", "c.d"] ∧
      (outcomeOf ⟨.v4 1#32, "a@b", "a", "b", "b", 0⟩ (some last)).result = .permError := by
  -- the record of the sender's domain, up to its inclusion
  have looked := ((@Course.refl ⟨.standard, [], 10⟩
    (machineOf ⟨.v4 1#32, "a@b", "a", "b", "b", 0⟩ none)).snoc rfl).snoc rfl |>.snoc rfl
  have opened := ((((((looked.snoc_answer rfl (.ok [])).snoc_answer rfl
    (.ok ["v=spf1 include:c.d"])).snoc rfl).snoc rfl).snoc rfl).snoc rfl).snoc rfl |>.snoc rfl
  -- the included domain, for which neither type holds a record
  have asked := ((opened.snoc rfl).snoc rfl).snoc rfl |>.snoc_answer rfl (.ok [])
  have missing := ((asked.snoc_answer rfl (.ok ["v=spf10"])).snoc rfl).snoc rfl
  have ended := (((((((missing.snoc rfl).snoc rfl).snoc rfl).snoc rfl).snoc rfl).snoc rfl).snoc
    rfl).snoc rfl
  obtain ⟨-, points⟩ := none_iff_unpublished ended
  have handled := (points _ _ _ missing (.step rfl (.step rfl (.step rfl (.step rfl (.step rfl
    (.step rfl (.step rfl (.step rfl (.refl _)))))))))).2.1
  exact ⟨_, _, ended, rfl, handled _ rfl rfl nofun⟩

end SenderPolicy.Evaluation
