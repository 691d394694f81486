import SenderPolicy.Proofs.Course.Missing

/-!
# The acquisition of a record

Where a domain is evaluated, nothing is left of the record of any other domain. The stages up to
the one that requires a record then come to one of a few ends, which the name, the receiver's tables
and the answers to at most two lookups decide: a malformed name has no policy, whatever tables hold;
a table that replaces published records is used without a lookup; a text that is published is read
or refused, and nothing takes its place; and only a domain that publishes nothing has a record
assumed, by guess or from a table.

## Main definitions

* `HoldsText`, `Publishes`: what the answers for a domain hold
* `Acquires`: the lookups for the record of a domain, and what they come to
* `Acquired`: the machine that has acquired a record, or has failed to

## Main results

* `Acquires.course`: every end of an acquisition is one that a machine comes to
* `exists_acquires`: a machine comes to no other
* `record_acquired`: both, at every evaluation of a domain in a check
-/

namespace SenderPolicy.Evaluation

/-! ## What is published

One answer holds several records, one, or none; only texts with the version token count. -/

/-- What the answer for the text records comes to, with the record that the other type holds. -/
inductive HoldsText (isStrict : Bool) (other : Option String) :
    Dns.Answer → Except Error (Option String) → Prop
  | failed (cause : Dns.LookupError) :
      HoldsText isStrict other (.error cause) (.error (.lookup cause))
  | several (texts : List String) (h : 1 < texts.countP Record.isPolicy) :
      HoldsText isStrict other (.ok texts) (.error .severalRecords)
  /-- Both types have to hold the record. -/
  | missing (texts : List String) (text : String) (none_held : texts.filter Record.isPolicy = [])
      (strict : isStrict) (held : other = some text) :
      HoldsText isStrict other (.ok texts) (.error .onlySpfType)
  | differs (texts : List String) (text text' : String)
      (one : texts.filter Record.isPolicy = [text]) (strict : isStrict)
      (held : other = some text') (h : text' ≠ text) :
      HoldsText isStrict other (.ok texts) (.error .recordsDiffer)
  | held (texts : List String) (found : Option String)
      (h : texts.filter Record.isPolicy = found.toList)
      (agrees : isStrict → ∀ text ∈ other, found = some text) :
      HoldsText isStrict other (.ok texts) (.ok found)

/-- The lookups of what a domain publishes, and what they come to: a record or none, or a cause. -/
inductive Publishes (isStrict : Bool) (domain : String) :
    List Exchange → Except Error (Option String) → Prop
  | failed (cause : Dns.LookupError) : Publishes isStrict domain
      [⟨⟨domain, .spf⟩, .policyRecords domain isStrict, .error cause⟩] (.error (.lookup cause))
  | several (texts : List String) (h : 1 < texts.countP Record.isPolicy) :
      Publishes isStrict domain
        [⟨⟨domain, .spf⟩, .policyRecords domain isStrict, .ok texts⟩] (.error .severalRecords)
  /-- The text records are not asked for. -/
  | held (texts : List String) (text : String) (one : texts.filter Record.isPolicy = [text])
      (lenient : isStrict = false) : Publishes isStrict domain
        [⟨⟨domain, .spf⟩, .policyRecords domain isStrict, .ok texts⟩] (.ok (some text))
  /-- The text records are asked for as well. -/
  | both (texts : List String) (other : Option String) (answer : Dns.Answer)
      (outcome : Except Error (Option String))
      (h : texts.filter Record.isPolicy = other.toList) (needed : isStrict ∨ other = none)
      (text : HoldsText isStrict other answer outcome) : Publishes isStrict domain
        [⟨⟨domain, .spf⟩, .policyRecords domain isStrict, .ok texts⟩,
          ⟨⟨domain, .txt⟩, .textRecords isStrict other, answer⟩] outcome

/-- The lookups for the record of a domain, and what they come to. -/
inductive Acquires (policy : Policy) (domain : String) :
    List Exchange → Except Error Record → Prop
  /-- Malformed names are refused, also if a table holds a record. -/
  | malformed (h : ¬Domain.WellFormed domain) :
      Acquires policy domain [] (.error (.malformedDomain domain))
  | overridden (record : Record) (wellFormed : Domain.WellFormed domain)
      (h : policy.overrides.bind (·.lookup domain) = some record) :
      Acquires policy domain [] (.ok record)
  | failed (exchanges : List Exchange) (cause : Error) (wellFormed : Domain.WellFormed domain)
      (none_held : policy.overrides.bind (·.lookup domain) = none)
      (h : Publishes policy.isStrict domain exchanges (.error cause)) :
      Acquires policy domain exchanges (.error cause)
  /-- What is published is read, and nothing takes its place if it cannot be. -/
  | published (exchanges : List Exchange) (text : String) (wellFormed : Domain.WellFormed domain)
      (none_held : policy.overrides.bind (·.lookup domain) = none)
      (h : Publishes policy.isStrict domain exchanges (.ok (some text))) :
      Acquires policy domain exchanges (Record.parse text)
  /-- A guess is used for a domain that publishes nothing, and no table is consulted. -/
  | guessed (exchanges : List Exchange) (text : String) (wellFormed : Domain.WellFormed domain)
      (none_held : policy.overrides.bind (·.lookup domain) = none)
      (h : Publishes policy.isStrict domain exchanges (.ok none))
      (guess : policy.bestGuess = some text) :
      Acquires policy domain exchanges (Record.parse text)
  | fallenBack (exchanges : List Exchange) (record : Record)
      (wellFormed : Domain.WellFormed domain)
      (none_held : policy.overrides.bind (·.lookup domain) = none)
      (h : Publishes policy.isStrict domain exchanges (.ok none)) (guess : policy.bestGuess = none)
      (held : policy.fallbacks.bind (·.lookup domain) = some record) :
      Acquires policy domain exchanges (.ok record)
  | missing (exchanges : List Exchange) (wellFormed : Domain.WellFormed domain)
      (none_held : policy.overrides.bind (·.lookup domain) = none)
      (h : Publishes policy.isStrict domain exchanges (.ok none)) (guess : policy.bestGuess = none)
      (fallback : policy.fallbacks.bind (·.lookup domain) = none) :
      Acquires policy domain exchanges (.error (.nothingPublished domain))

/-! ## Stages in a row -/

/-- The stages behind the one that requires a record. -/
def stagesBehindRecord (policy : Policy) : List Policy.Stage :=
  (policy.trustedForwarder.map .trustedForwarder).toList ++ [.neutralWithoutMatch] ++
    (policy.defaultExplanation.map .explanation).toList

/-- Stages that are left, upon the terms of the record and what lies below. -/
def stagesUpon (stages : List Policy.Stage) (below : List Frame) : List Frame :=
  stages.map .stage ++ .terms :: below

/-- The machine that has acquired a record for the stages behind it, or has failed to. -/
def Acquired (ctx : Context) (s : State) (below : List Frame) :
    Except Error Record → Machine → Prop
  | .ok record, m => m =
      ⟨.proceed, { s with record := some record },
        stagesUpon (stagesBehindRecord ctx.policy) below⟩
  | .error cause, m => ∃ t, m = ⟨.raise cause, t, below⟩

/-- A machine comes to an end of an acquisition, with the exchanges on the way. -/
def Comes (ctx : Context) (s : State) (below : List Frame) (m : Machine)
    (exchanges : List Exchange) (outcome : Except Error Record) : Prop :=
  ∃ m', Acquired ctx s below outcome m' ∧ Course ctx m exchanges m'

section Rows

variable {ctx : Context} {s t : State} {below : List Frame} {st : Policy.Stage}
  {sts later : List Policy.Stage}

theorem stages_eq_behind (policy : Policy) :
    policy.stages = (policy.overrides.map .overrides).toList ++ .wellFormed ::
      .published policy.isStrict :: stagesBehindLookup policy (stagesBehindRecord policy) := by
  simp only [Policy.stages, stagesBehindLookup, stagesBehindRecord, List.append_assoc,
    List.cons_append, List.nil_append]

theorem step_stage {r : Reaction} (h : stageStep s st = r) :
    Machine.step ctx ⟨.proceed, s, stagesUpon (st :: sts) below⟩ =
      some (r.above (stagesUpon sts below)) :=
  congrArg (fun r => some (Reaction.above r (stagesUpon sts below))) h

theorem course_of_done (h : stageStep s st = .done t) :
    Course ctx ⟨.proceed, s, stagesUpon (st :: sts) below⟩ []
      ⟨.proceed, t, stagesUpon sts below⟩ :=
  .step (step_stage h) (.refl _)

/-- Stages that change nothing are passed. -/
theorem course_of_passes (h : ∀ st ∈ sts, stageStep s st = .done s) :
    Course ctx ⟨.proceed, s, stagesUpon (sts ++ later) below⟩ []
      ⟨.proceed, s, stagesUpon later below⟩ := by
  induction sts with
  | nil => exact .refl _
  | cons st sts ih =>
    rw [List.forall_mem_cons] at h
    exact (course_of_done h.1).trans (ih h.2)

/-- A cause passes the stages that are left, and the terms. -/
theorem course_of_raise (cause : Error) (s : State) (sts : List Policy.Stage) :
    Course ctx ⟨.raise cause, s, stagesUpon sts below⟩ [] ⟨.raise cause, s, below⟩ := by
  induction sts with
  | nil => exact .step rfl (.refl _)
  | cons st sts ih => exact .step rfl ih

theorem course_of_fail {cause : Error} (h : stageStep s st = .fail t cause) :
    Course ctx ⟨.proceed, s, stagesUpon (st :: sts) below⟩ [] ⟨.raise cause, t, below⟩ :=
  .step (step_stage h) (course_of_raise cause t sts)

end Rows

/-! ## Answers -/

section Answers

variable {ctx : Context} {s : State} {below : List Frame} {isStrict : Bool}
  {sts : List Policy.Stage} {exchanges : List Exchange} {last : State}

theorem selectPolicy_of_filter {texts : List String} (other : Option String)
    (h : texts.filter Record.isPolicy = other.toList) : selectPolicy texts = .ok other := by
  unfold selectPolicy
  rw [h]
  cases other <;> rfl

theorem selectPolicy_of_several {texts : List String} (h : 1 < texts.countP Record.isPolicy) :
    selectPolicy texts = .error .severalRecords := by
  rw [List.countP_eq_length_filter] at h
  unfold selectPolicy
  split
  · rename_i hf
    simp [hf] at h
  · rename_i text hf
    simp [hf] at h
  · rfl

/-- The texts of an answer hold one record or none, or several. -/
theorem filter_cases (texts : List String) :
    (∃ other : Option String, texts.filter Record.isPolicy = other.toList) ∨
      1 < texts.countP Record.isPolicy := by
  rw [List.countP_eq_length_filter]
  cases texts.filter Record.isPolicy with
  | nil => exact .inl ⟨none, rfl⟩
  | cons text rest =>
    cases rest with
    | nil => exact .inl ⟨some text, rfl⟩
    | cons _ _ => exact .inr (by simp)

/-- What the answers hold is left for the stage that reads it. -/
def publishedReaction (s : State) : Except Error (Option String) → Reaction
  | .ok found => .done { s with text := found }
  | .error cause => .fail s cause

theorem HoldsText.answered {other : Option String} {answer : Dns.Answer}
    {outcome : Except Error (Option String)} (h : HoldsText isStrict other answer outcome)
    (s : State) : textAnswered isStrict other answer s = publishedReaction s outcome := by
  cases h with
  | failed cause => rfl
  | several texts h =>
    rw [textAnswered_ok, selectPolicy_of_several h]
    rfl
  | missing texts text none_held strict held =>
    rw [textAnswered_ok, selectPolicy_of_filter none none_held, strict, held]
    rfl
  | differs texts text text' one strict held h =>
    rw [textAnswered_ok, selectPolicy_of_filter (some text) one, strict, held]
    simp [agreed, h, bind, Except.bind, publishedReaction]
  | held texts found h agrees =>
    rw [textAnswered_ok, selectPolicy_of_filter found h]
    cases isStrict with
    | false => rfl
    | true =>
      cases other with
      | none => rfl
      | some text =>
        rw [agrees rfl text rfl]
        simp [agreed, bind, Except.bind, publishedReaction]

theorem exists_holdsText (isStrict : Bool) (other : Option String) (answer : Dns.Answer) :
    ∃ outcome, HoldsText isStrict other answer outcome := by
  cases answer with
  | error cause => exact ⟨_, .failed cause⟩
  | ok texts =>
    rcases filter_cases texts with ⟨found, hf⟩ | several
    · by_cases agrees : isStrict → ∀ text ∈ other, found = some text
      · exact ⟨_, .held texts found hf agrees⟩
      · obtain ⟨strict, text, held, differs⟩ : isStrict ∧ ∃ text, other = some text ∧
            found ≠ some text := by simpa using agrees
        cases found with
        | none => exact ⟨_, .missing texts text hf strict held⟩
        | some text' =>
          exact ⟨_, .differs texts text' text hf strict held fun h => differs (by rw [h])⟩
    · exact ⟨_, .several texts several⟩

/-- The first answer, if it fails or holds several records, or the only one that is needed. -/
theorem policyAnswered_of_filter {texts : List String} (other : Option String) (domain : String)
    (isStrict : Bool) (h : texts.filter Record.isPolicy = other.toList) (s : State) :
    policyAnswered domain isStrict (.ok texts) s =
      if ¬isStrict ∧ other.isSome then .done { s with text := other }
      else .await s domain .txt (.textRecords isStrict other) := by
  rw [policyAnswered_ok, selectPolicy_of_filter other h]

/-- The machine that awaits the first answer. -/
def askingMachine (s : State) (isStrict : Bool) (sts : List Policy.Stage) (below : List Frame) :
    Machine :=
  ⟨.await ⟨s.domain, .spf⟩ (.policyRecords s.domain isStrict), s, stagesUpon sts below⟩

theorem resume_askingMachine (answer : Dns.Answer) :
    (askingMachine s isStrict sts below).resume ctx answer =
      (policyAnswered s.domain isStrict answer s).above (stagesUpon sts below) := rfl

/-- What is published is what a machine finds. -/
theorem Publishes.course {outcome : Except Error (Option String)}
    (h : Publishes isStrict s.domain exchanges outcome) :
    Course ctx (askingMachine s isStrict sts below) exchanges
      ((publishedReaction s outcome).above (stagesUpon sts below)) := by
  cases h with
  | failed cause => exact .answer rfl _ (.refl _)
  | several texts h =>
    refine .answer rfl _ ?_
    have answered : policyAnswered s.domain isStrict (.ok texts) s = .fail s .severalRecords := by
      rw [policyAnswered_ok, selectPolicy_of_several h]
    rw [resume_askingMachine, answered]
    exact .refl _
  | held texts text one lenient =>
    refine .answer rfl _ ?_
    have answered := policyAnswered_of_filter (some text) s.domain isStrict one s
    rw [if_pos (by simp [lenient])] at answered
    rw [resume_askingMachine, answered]
    exact .refl _
  | both texts other answer outcome h needed text =>
    refine .answer rfl _ ?_
    have answered := policyAnswered_of_filter other s.domain isStrict h s
    rw [if_neg (by rcases needed with h | h <;> simp [h])] at answered
    rw [resume_askingMachine, answered]
    refine .answer rfl answer ?_
    rw [← text.answered]
    exact .refl _

/-- A machine finds nothing else. -/
theorem exists_publishes
    (h : Completes ctx (askingMachine s isStrict sts below) exchanges last) :
    ∃ asked rest outcome, exchanges = asked ++ rest ∧
      Publishes isStrict s.domain asked outcome := by
  obtain ⟨answer, rest, rfl, answered⟩ := (Completes.of_await_iff rfl).mp h
  cases answer with
  | error cause => exact ⟨[_], rest, _, rfl, .failed cause⟩
  | ok texts =>
    rcases filter_cases texts with ⟨other, hf⟩ | several
    · by_cases needed : isStrict ∨ other = none
      · have asks := policyAnswered_of_filter other s.domain isStrict hf s
        rw [if_neg (by rcases needed with h | h <;> simp [h])] at asks
        rw [resume_askingMachine, asks] at answered
        obtain ⟨answer, rest, rfl, -⟩ := (Completes.of_await_iff rfl).mp answered
        obtain ⟨outcome, text⟩ := exists_holdsText isStrict other answer
        exact ⟨[_, _], rest, outcome, rfl, .both texts other answer outcome hf needed text⟩
      · rw [not_or, Bool.not_eq_true, ← ne_eq, Option.ne_none_iff_exists'] at needed
        obtain ⟨lenient, text, rfl⟩ := needed
        exact ⟨[_], rest, _, rfl, .held texts text hf lenient⟩
    · exact ⟨[_], rest, _, rfl, .several texts several⟩

end Answers

/-! ## What becomes of a text -/

section Texts

variable {ctx : Context} {s t : State} {below : List Frame}

/-- A record stays as it is up to the stage that requires one. -/
theorem passes_of_record {st : Policy.Stage} (hr : s.record.isSome) (ht : s.text = none)
    (wellFormed : Domain.WellFormed s.domain)
    (hst : st ∈ .wellFormed :: .published ctx.policy.isStrict ::
      stagesBehindLookup ctx.policy []) : stageStep s st = .done s := by
  have held : s.record.isNone = false := by simpa using hr
  simp only [stagesBehindLookup, List.mem_cons, List.mem_append, Option.mem_toList,
    Option.map_eq_some_iff, List.not_mem_nil, or_false] at hst
  rcases hst with rfl | rfl | ⟨guess, -, rfl⟩ | rfl | ⟨table, -, rfl⟩ | rfl
  · exact if_pos wellFormed
  · exact if_pos (.inl hr)
  · exact if_neg fun h => by simp [held] at h
  · simp [stageStep, ht]
  · simp [stageStep, held]
  · simp [stageStep, held]

theorem stagesBehindLookup_append (policy : Policy) (later : List Policy.Stage) :
    stagesBehindLookup policy later = stagesBehindLookup policy [] ++ later := by
  simp [stagesBehindLookup]

theorem Comes.of_course {m m₁ : Machine} {exchanges : List Exchange}
    {outcome : Except Error Record} (h : Course ctx m exchanges m₁)
    (rest : Comes ctx s below m₁ [] outcome) : Comes ctx s below m exchanges outcome := by
  obtain ⟨m', acquired, course⟩ := rest
  refine ⟨m', acquired, ?_⟩
  have := h.trans course
  rwa [List.append_nil] at this

/-- A record is what the stage that requires one is passed with. -/
theorem comes_of_record {record : Record} (sts : List Policy.Stage) (ht : s.text = none)
    (wellFormed : Domain.WellFormed s.domain)
    (hsts : sts ⊆ .wellFormed :: .published ctx.policy.isStrict ::
      stagesBehindLookup ctx.policy []) :
    Comes ctx s below ⟨.proceed, { s with record := some record },
      stagesUpon (sts ++ stagesBehindRecord ctx.policy) below⟩ [] (.ok record) := by
  refine ⟨_, rfl, course_of_passes fun st hst => ?_⟩
  exact passes_of_record rfl ht wellFormed (hsts hst)

/-- The stages that are left once a text is read. -/
theorem stages_parsed (policy : Policy) :
    (policy.fallbacks.map Policy.Stage.fallbacks).toList ++
        .required :: stagesBehindRecord policy =
      ((policy.fallbacks.map Policy.Stage.fallbacks).toList ++ [.required]) ++
        stagesBehindRecord policy := by
  simp

theorem parsed_subset (policy : Policy) :
    (policy.fallbacks.map Policy.Stage.fallbacks).toList ++ [.required] ⊆
      .wellFormed :: .published policy.isStrict :: stagesBehindLookup policy [] := by
  intro st hst
  refine List.mem_cons_of_mem _ (List.mem_cons_of_mem _ ?_)
  exact List.mem_append_right _ (List.mem_cons_of_mem _ hst)

/-- A text is read, and nothing takes its place if it cannot be. -/
theorem comes_of_text (text : String) (ht : s.text = none)
    (wellFormed : Domain.WellFormed s.domain) :
    Comes ctx s below ⟨.proceed, { s with text := some text },
      stagesUpon (.parsed :: ((ctx.policy.fallbacks.map .fallbacks).toList ++
        .required :: stagesBehindRecord ctx.policy)) below⟩ [] (Record.parse text) := by
  cases hp : Record.parse text with
  | error cause =>
    refine ⟨⟨.raise cause, s, below⟩, ⟨s, rfl⟩, course_of_fail ?_⟩
    simp [stageStep, hp, ← ht]
  | ok record =>
    have reads : stageStep { s with text := some text } .parsed =
        .done { s with record := some record } := by simp [stageStep, hp, ← ht]
    refine .of_course (course_of_done reads) ?_
    rw [stages_parsed]
    exact comes_of_record _ ht wellFormed (parsed_subset ctx.policy)

/-- A text that is published leaves no room for a guess. -/
theorem comes_of_published (text : String) (ht : s.text = none)
    (wellFormed : Domain.WellFormed s.domain) :
    Comes ctx s below ⟨.proceed, { s with text := some text },
      stagesUpon (stagesBehindLookup ctx.policy (stagesBehindRecord ctx.policy)) below⟩ []
      (Record.parse text) := by
  refine .of_course (course_of_passes fun st hst => ?_) (comes_of_text text ht wellFormed)
  obtain ⟨guess, -, rfl⟩ := Option.map_eq_some_iff.mp (Option.mem_toList.mp hst)
  simp [stageStep]

theorem comes_of_guess {text : String} (hr : s.record = none) (ht : s.text = none)
    (wellFormed : Domain.WellFormed s.domain) (guess : ctx.policy.bestGuess = some text) :
    Comes ctx s below ⟨.proceed, s,
      stagesUpon (stagesBehindLookup ctx.policy (stagesBehindRecord ctx.policy)) below⟩ []
      (Record.parse text) := by
  have guesses : stageStep s (.bestGuess text) = .done { s with text := some text } := by
    simp [stageStep, hr, ht]
  rw [stagesBehindLookup, guess]
  exact .of_course (course_of_done guesses) (comes_of_text text ht wellFormed)

/-- Without a guess, a table may hold a record. -/
theorem course_of_fallbacks (below : List Frame) (hr : s.record = none) (ht : s.text = none)
    (guess : ctx.policy.bestGuess = none) :
    Course ctx ⟨.proceed, s,
        stagesUpon (stagesBehindLookup ctx.policy (stagesBehindRecord ctx.policy)) below⟩ []
      ⟨.proceed, { s with record := ctx.policy.fallbacks.bind (·.lookup s.domain) },
        stagesUpon (.required :: stagesBehindRecord ctx.policy) below⟩ := by
  have parsed : stageStep s .parsed = .done s := by simp [stageStep, ht]
  rw [stagesBehindLookup, guess]
  refine .step (step_stage parsed) ?_
  cases hf : ctx.policy.fallbacks with
  | none =>
    have same : { s with record := (none : Option Record) } = s := by rw [← hr]
    simp only [Option.bind_none, same]
    exact .refl _
  | some table =>
    have looks : stageStep s (.fallbacks table) =
        .done { s with record := table.lookup s.domain } := by simp [stageStep, hr]
    exact course_of_done looks

/-- A table that replaces published records comes first. -/
theorem course_of_overrides (ctx : Context) (below : List Frame) (hr : s.record = none) :
    Course ctx ⟨.proceed, s, .evaluation :: below⟩ []
      ⟨.proceed, { s with record := ctx.policy.overrides.bind (·.lookup s.domain) },
        stagesUpon (.wellFormed :: .published ctx.policy.isStrict ::
          stagesBehindLookup ctx.policy (stagesBehindRecord ctx.policy)) below⟩ := by
  have same : { s with record := (none : Option Record) } = s := by rw [← hr]
  have begins : Machine.step ctx ⟨.proceed, s, .evaluation :: below⟩ =
      some ⟨.proceed, s, stagesUpon ctx.policy.stages below⟩ := by
    simp [Machine.step, Frame.check, Reaction.leave, Reaction.above, stagesUpon]
  refine .step begins ?_
  rw [stages_eq_behind]
  cases ho : ctx.policy.overrides with
  | none =>
    simp only [Option.bind_none, same]
    exact .refl _
  | some table =>
    refine course_of_done ?_
    simp only [stageStep, Option.bind_some]
    cases table.lookup s.domain with
    | none => simp only [same]
    | some record => rfl

/-- Without such a record, a well-formed name is looked up. -/
theorem course_of_asking (below : List Frame) (hr : s.record = none) (ht : s.text = none)
    (wellFormed : Domain.WellFormed s.domain)
    (none_held : ctx.policy.overrides.bind (·.lookup s.domain) = none) :
    Course ctx ⟨.proceed, s, .evaluation :: below⟩ []
      (askingMachine s ctx.policy.isStrict
        (stagesBehindLookup ctx.policy (stagesBehindRecord ctx.policy)) below) := by
  have same : { s with record := (none : Option Record) } = s := by rw [← hr]
  have begins := course_of_overrides ctx below hr
  rw [none_held, same] at begins
  have checks : stageStep s .wellFormed = .done s := if_pos wellFormed
  have asks : stageStep s (.published ctx.policy.isStrict) =
      .await s s.domain .spf (.policyRecords s.domain ctx.policy.isStrict) := by
    simp [stageStep, hr, ht]
  exact begins.trans ((course_of_done checks).trans (.step (step_stage asks) (.refl _)))

end Texts

/-! ## The ends of an acquisition -/

section Ends

variable {ctx : Context} {s : State} {below : List Frame} {exchanges : List Exchange}

/-- Every end of an acquisition is one that a machine comes to. -/
theorem Acquires.course {outcome : Except Error Record} (below : List Frame) (hr : s.record = none)
    (ht : s.text = none) (h : Acquires ctx.policy s.domain exchanges outcome) :
    Comes ctx s below ⟨.proceed, s, .evaluation :: below⟩ exchanges outcome := by
  -- what is published is found by the machine that asks for it
  have asked {published : Except Error (Option String)}
      (wellFormed : Domain.WellFormed s.domain)
      (none_held : ctx.policy.overrides.bind (·.lookup s.domain) = none)
      (hp : Publishes ctx.policy.isStrict s.domain exchanges published) :=
    (course_of_asking below hr ht wellFormed none_held).trans hp.course
  have same : { s with text := (none : Option String) } = s := by rw [← ht]
  cases h with
  | malformed h =>
    have refuses : stageStep { s with record := ctx.policy.overrides.bind (·.lookup s.domain) }
        .wellFormed = .fail _ (.malformedDomain s.domain) := if_neg h
    exact ⟨_, ⟨_, rfl⟩, (course_of_overrides ctx below hr).trans (course_of_fail refuses)⟩
  | overridden record wellFormed h =>
    have begins := course_of_overrides ctx below hr
    rw [h, stagesBehindLookup_append] at begins
    exact .of_course begins (comes_of_record _ ht wellFormed (List.Subset.refl _))
  | failed _ cause wellFormed none_held hp =>
    refine ⟨_, ⟨s, rfl⟩, ?_⟩
    have := (asked wellFormed none_held hp).trans (course_of_raise cause s _)
    rwa [List.append_nil] at this
  | published _ text wellFormed none_held hp =>
    exact .of_course (asked wellFormed none_held hp) (comes_of_published text ht wellFormed)
  | guessed _ text wellFormed none_held hp guess =>
    have found := asked wellFormed none_held hp
    rw [publishedReaction, same] at found
    exact .of_course found (comes_of_guess hr ht wellFormed guess)
  | fallenBack _ record wellFormed none_held hp guess held =>
    have found := asked wellFormed none_held hp
    rw [publishedReaction, same] at found
    have looked := course_of_fallbacks below hr ht guess
    rw [held] at looked
    refine .of_course found (.of_course looked ?_)
    refine comes_of_record [.required] ht wellFormed fun st hst => ?_
    exact parsed_subset ctx.policy (List.mem_append_right _ hst)
  | missing _ wellFormed none_held hp guess fallback =>
    have found := asked wellFormed none_held hp
    rw [publishedReaction, same] at found
    have looked := course_of_fallbacks below hr ht guess
    rw [fallback] at looked
    have requires : stageStep { s with record := none } .required =
        .fail _ (.nothingPublished s.domain) := rfl
    exact .of_course found (.of_course looked ⟨_, ⟨_, rfl⟩, course_of_fail requires⟩)

/-- A machine comes to no other end. -/
theorem exists_acquires {last : State} (hr : s.record = none) (ht : s.text = none)
    (h : Completes ctx ⟨.proceed, s, .evaluation :: below⟩ exchanges last) :
    ∃ asked rest outcome, exchanges = asked ++ rest ∧
      Acquires ctx.policy s.domain asked outcome := by
  by_cases wellFormed : Domain.WellFormed s.domain
  · cases held : ctx.policy.overrides.bind (·.lookup s.domain) with
    | some record => exact ⟨[], exchanges, _, rfl, .overridden record wellFormed held⟩
    | none =>
      have asking : Completes ctx (askingMachine s ctx.policy.isStrict
          (stagesBehindLookup ctx.policy (stagesBehindRecord ctx.policy)) below) exchanges last :=
        (Completes.of_course_iff (course_of_asking below hr ht wellFormed held)).mp h
      obtain ⟨asked, rest, published, rfl, hp⟩ := exists_publishes asking
      refine ⟨asked, rest, ?_⟩
      cases published with
      | error cause => exact ⟨_, rfl, .failed _ cause wellFormed held hp⟩
      | ok found =>
        cases found with
        | some text => exact ⟨_, rfl, .published _ text wellFormed held hp⟩
        | none =>
          cases guess : ctx.policy.bestGuess with
          | some text => exact ⟨_, rfl, .guessed _ text wellFormed held hp guess⟩
          | none =>
            cases fallback : ctx.policy.fallbacks.bind (·.lookup s.domain) with
            | some record => exact ⟨_, rfl, .fallenBack _ record wellFormed held hp guess fallback⟩
            | none => exact ⟨_, rfl, .missing _ wellFormed held hp guess fallback⟩
  · exact ⟨[], exchanges, _, rfl, .malformed wellFormed⟩

end Ends

/-- Wherever a domain comes to be evaluated, nothing is left of the record of another one, and the
stages up to the one that requires a record come to the ends that `Acquires` lists: every one of
them is what a machine comes to with those answers, and whatever the answers are it comes to one of
them. Names without a policy, failed lookups and contradictory records differ in their results. -/
theorem record_acquired {ctx : Context} {identity : Identity} {receivingDomain : Option String}
    {terms lookups : Nat} {s : State} {below : List Frame}
    (h : Reaches ctx (machineOf identity receivingDomain) terms lookups
      ⟨.proceed, s, .evaluation :: below⟩) :
    (s.record = none ∧ s.text = none) ∧
    (∀ asked outcome, Acquires ctx.policy s.domain asked outcome →
      Comes ctx s below ⟨.proceed, s, .evaluation :: below⟩ asked outcome) ∧
    (∀ exchanges last, Completes ctx ⟨.proceed, s, .evaluation :: below⟩ exchanges last →
      ∃ asked rest outcome m, exchanges = asked ++ rest ∧
        Acquires ctx.policy s.domain asked outcome ∧ Acquired ctx s below outcome m ∧
        Completes ctx m rest last) ∧
    (∀ service : Dns.Service, ∃ asked outcome, Acquires ctx.policy s.domain asked outcome ∧
      ∀ e ∈ asked, e.answer = service e.request) ∧
    (Error.malformedDomain s.domain).result = .none ∧
    (Error.nothingPublished s.domain).result = .none ∧
    (∀ cause, (Error.lookup cause).result = .tempError) ∧
    ∀ cause ∈ [Error.severalRecords, .onlySpfType, .recordsDiffer],
      cause.result = .permError := by
  have acquiring := h.acquiring
  have running : ¬(⟨.proceed, s, .evaluation :: below⟩ : Machine).IsOver := fun ended => by
    cases ended.turns
  have apart : Apart (.evaluation :: below) := apart_cons below rfl
  have hr : s.record = none := acquiring.record_eq_none running apart
  have ht : s.text = none := acquiring.text_eq_none running apart
  refine ⟨⟨hr, ht⟩, fun _ _ acquires => acquires.course below hr ht, ?_, ?_, rfl, rfl, fun _ => rfl,
    by decide⟩
  · intro exchanges last completes
    obtain ⟨asked, rest, outcome, rfl, acquires⟩ := exists_acquires hr ht completes
    obtain ⟨m, acquired, course⟩ := acquires.course below hr ht
    exact ⟨asked, rest, outcome, m, rfl, acquires, acquired,
      (Completes.of_course_iff course).mp completes⟩
  · intro service
    obtain ⟨exchanges, completes, -, answered⟩ :=
      completes_finish ctx service ⟨.proceed, s, .evaluation :: below⟩
    obtain ⟨asked, rest, outcome, rfl, acquires⟩ := exists_acquires hr ht completes
    exact ⟨asked, outcome, acquires, fun e he => answered e (List.mem_append_left _ he)⟩

/-- An included domain whose first answer holds a record: the text records are not asked for. -/
theorem record_acquired_of_inclusion :
    ∃ s below, Reaches ⟨.standard, [], 10⟩ (machineOf ⟨.v4 1#32, "a@b", "a", "b", "b", 0⟩ none) 1 2
        ⟨.proceed, s, .evaluation :: .restoration "b" none false :: below⟩ ∧
      s.domain = "c.d" ∧ (s.record = none ∧ s.text = none) ∧
      Comes ⟨.standard, [], 10⟩ s (.restoration "b" none false :: below)
        ⟨.proceed, s, .evaluation :: .restoration "b" none false :: below⟩
        [⟨⟨"c.d", .spf⟩, .policyRecords "c.d" false, .ok ["v=spf1 -all", "v=spf10"]⟩]
        (Record.parse "v=spf1 -all") := by
  -- the record of the sender's domain, up to its inclusion
  have looked := ((@Reaches.refl ⟨.standard, [], 10⟩
    (machineOf ⟨.v4 1#32, "a@b", "a", "b", "b", 0⟩ none)).step rfl).step rfl |>.step rfl
  have opened := (((((looked.answer rfl (.ok [])).answer rfl
    (.ok ["v=spf1 include:c.d"])).step rfl).step rfl).step rfl).step rfl
  have included := (opened.step rfl).step rfl
  obtain ⟨s, below, reached, domain⟩ : ∃ s below, Reaches ⟨.standard, [], 10⟩
      (machineOf ⟨.v4 1#32, "a@b", "a", "b", "b", 0⟩ none) 1 2
      ⟨.proceed, s, .evaluation :: .restoration "b" none false :: below⟩ ∧ s.domain = "c.d" :=
    ⟨_, _, included, rfl⟩
  have wellFormed : Domain.WellFormed s.domain := by
    rw [domain]
    decide
  have published : Publishes false s.domain _ _ :=
    .held ["v=spf1 -all", "v=spf10"] "v=spf1 -all" (by decide) rfl
  have acquires : Acquires .standard s.domain _ _ := .published _ _ wellFormed rfl published
  have comes := (record_acquired reached).2.1 _ _ acquires
  rw [domain] at comes
  exact ⟨s, below, reached, domain, (record_acquired reached).1, comes⟩

end SenderPolicy.Evaluation
