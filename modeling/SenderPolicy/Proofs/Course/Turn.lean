import SenderPolicy.Evaluation.Machine

/-!
# What frames and listeners do in their turn

What a frame does in its turn is said once, as a list of cases: which part of the state it changes,
which frames it leaves, and how it ends. What holds of every course of a check is read off the
cases, without another look at the frames themselves.

## Main definitions

* `Expanded`: what a template leads to, by what it is expanded for
* `Turn`: what a frame does in its turn
* `Heard`: what a listener does with its answer

## Main results

* `expandTo_expanded`, `check_turn`, `resume_heard`: there are no other cases
* `expandTo_of_expand`, `expandTo_of_unknown`: the template of a domain, with what is known
* `step_directive`, `step_entered`: a directive that is tried
-/

namespace SenderPolicy.Evaluation

/-! ## Templates -/

/-- The purpose is to explain a failure, and a refusal is no error. -/
def Purpose.explains : Purpose → Bool
  | explanationDomain | explanation | defaultExplanation => true
  | _ => false

/-- The listener takes the answer to what a template of the purpose names. -/
def Purpose.Awaits : Purpose → Listener → Prop
  | addresses lengths, l => l = .addresses lengths
  | exchanges lengths, l => l = .exchanges lengths
  | pointer, l => ∃ target, l = .pointers target
  | existence, l => l = .existence
  | explanationDomain, l => l = .explanationTexts
  | _, _ => False

/-- What holds of the listeners of all purposes holds of one that takes an answer. -/
theorem Purpose.Awaits.of_forall {purpose : Purpose} {listener : Listener} {P : Listener → Prop}
    (h : purpose.Awaits listener) (addresses : ∀ lengths, P (.addresses lengths))
    (exchanges : ∀ lengths, P (.exchanges lengths)) (pointers : ∀ target, P (.pointers target))
    (existence : P .existence) (explanationTexts : P .explanationTexts) : P listener := by
  cases purpose with
  | addresses lengths =>
    cases h
    exact addresses lengths
  | exchanges lengths =>
    cases h
    exact exchanges lengths
  | pointer =>
    obtain ⟨target, rfl⟩ := h
    exact pointers target
  | existence =>
    cases h
    exact existence
  | explanationDomain =>
    cases h
    exact explanationTexts
  | _ => cases h

/-- What a template leads to, by what it is expanded for. The receiver's name may be settled on the
way to an explanation, and is kept on the way to anything else. -/
inductive Expanded (s : State) : Purpose → Reaction → Prop
  /-- The template is put aside until the client's name is known; it may be that of the receiver, in
  place of a published one. -/
  | aside {purpose purpose' : Purpose} (r : Option String) (template : String)
      (request : Dns.Request) (unknown : s.clientDomain = none)
      (same : purpose' = purpose ∨ purpose.explains ∧ purpose'.explains ∧
        purpose' = .defaultExplanation)
      (kept : purpose.explains = false → r = s.receivingDomain)
      (asked : request = ⟨s.identity.reverseName, .ptr⟩) :
      Expanded s purpose
        ⟨{ s with receivingDomain := r }, [.expansion template purpose'],
          .await request .clientNames⟩
  | refused {purpose : Purpose} (r : Option String) (cause : Error)
      (h : purpose.explains = false) (hc : cause.result = .permError)
      (kept : purpose.explains = false → r = s.receivingDomain) :
      Expanded s purpose (.fail { s with receivingDomain := r } cause)
  | explained {purpose : Purpose} (r explanation : Option String) (h : purpose.explains) :
      Expanded s purpose
        (.done { s with receivingDomain := r, explanation := explanation })
  | lookup {purpose : Purpose} (r : Option String) (host : String) (type : Dns.RecordType)
      (listener : Listener) (h : purpose.Awaits listener)
      (kept : purpose.explains = false → r = s.receivingDomain) :
      Expanded s purpose (.await { s with receivingDomain := r } host type listener)
  | included (r : Option String) (target : String) (kept : r = s.receivingDomain) :
      Expanded s .inclusion (State.beginInclusion { s with receivingDomain := r } target)
  | redirected (r : Option String) (target : String) (kept : r = s.receivingDomain) :
      Expanded s .redirection
        (.leave { s with receivingDomain := r, domain := target } [.evaluation, .arrival])

theorem site_of_explains {purpose : Purpose} (h : purpose.explains = false) :
    purpose.site = .domain := by
  cases purpose <;> simp_all [Purpose.explains, Purpose.site]

theorem settleReceiver_eq (s : State) (ctx : Context) (site : Macro.Site) (template : String) :
    ∃ r, s.settleReceiver ctx site template = { s with receivingDomain := r } ∧
      (site = .domain → r = s.receivingDomain) := by
  unfold State.settleReceiver
  split
  · rename_i h
    exact ⟨_, rfl, fun hs => by rw [h.1] at hs; cases hs⟩
  · exact ⟨s.receivingDomain, rfl, fun _ => rfl⟩

/-- A domain does not refer to the receiver. -/
theorem settleReceiver_domain (s : State) (ctx : Context) (template : String) :
    s.settleReceiver ctx .domain template = s :=
  if_neg fun h => nomatch h.1

section Templates

variable (ctx : Context) {purpose : Purpose} {template : String} {s : State}

/-- A template that names a domain at once is put to use. -/
theorem expandTo_of_expand {target : String} (hp : purpose.site = .domain)
    (named : Macro.expand s.values ctx.localNames .domain template = .ok target) :
    expandTo ctx purpose template s = purpose.use ctx (.ok target) s := by
  unfold expandTo expandFor
  simp only [hp, settleReceiver_domain, named]

/-- A template that asks for the client's name while it is unknown is put aside. -/
theorem expandTo_of_unknown (hp : purpose.site = .domain)
    (unknown : Macro.expand s.values ctx.localNames .domain template =
      .error .clientDomainUnknown) :
    expandTo ctx purpose template s = ⟨s, [.expansion template purpose],
      .await ⟨s.identity.reverseName, .ptr⟩ .clientNames⟩ := by
  unfold expandTo expandFor
  simp only [hp, settleReceiver_domain, unknown]

end Templates

/-- An expansion succeeds, is refused, or asks for the client's name while it is unknown. -/
theorem expandFor_eq (ctx : Context) (template : String) (purpose : Purpose)
    (use : Except Error String → State → Reaction) (s : State) :
    ∃ r, (purpose.explains = false → r = s.receivingDomain) ∧
      ((∃ text, expandFor ctx template purpose use s =
          use (.ok text) { s with receivingDomain := r }) ∨
      (∃ cause, cause.result = .permError ∧ expandFor ctx template purpose use s =
          use (.error cause) { s with receivingDomain := r }) ∨
      s.clientDomain = none ∧ expandFor ctx template purpose use s =
        ⟨{ s with receivingDomain := r }, [.expansion template purpose],
          .await ⟨s.identity.reverseName, .ptr⟩ .clientNames⟩) := by
  obtain ⟨r, hr, hk⟩ := settleReceiver_eq s ctx purpose.site template
  refine ⟨r, fun h => hk (site_of_explains h), ?_⟩
  unfold expandFor
  simp only [hr]
  cases he : Macro.expand (State.values { s with receivingDomain := r }) ctx.localNames
      purpose.site template with
  | ok text => exact Or.inl ⟨text, rfl⟩
  | error obstacle =>
    cases obstacle with
    | refused cause => exact Or.inr (Or.inl ⟨cause, Macro.expand_refused he, rfl⟩)
    | clientDomainUnknown => exact Or.inr (Or.inr ⟨Macro.expand_eq_unknown he, rfl⟩)

/-- A template of the receiver explains, or is put aside. -/
theorem explainBy_expanded (ctx : Context) (template : String) (s : State) (r : Option String)
    {purpose : Purpose} (h : purpose.explains) :
    Expanded s purpose (explainBy ctx template { s with receivingDomain := r }) := by
  unfold explainBy
  obtain ⟨r', -, ⟨text, he⟩ | ⟨cause, -, he⟩ | ⟨hc, he⟩⟩ := expandFor_eq ctx template
    .defaultExplanation keepExplanation { s with receivingDomain := r }
  · rw [he]
    exact .explained r' (some text) h
  · rw [he]
    exact .explained r' s.explanation h
  · rw [he]
    exact .aside r' template _ hc (Or.inr ⟨h, rfl, rfl⟩) (fun hn => by rw [hn] at h; cases h) rfl

theorem explainByDefault_expanded (ctx : Context) (s : State) (r : Option String)
    {purpose : Purpose} (h : purpose.explains) :
    Expanded s purpose (explainByDefault ctx { s with receivingDomain := r }) := by
  unfold explainByDefault
  split
  · exact explainBy_expanded ctx _ s r h
  · exact .explained r s.explanation h

/-- There is nothing else that a template leads to. -/
theorem expandTo_expanded (ctx : Context) (purpose : Purpose) (template : String) (s : State) :
    Expanded s purpose (expandTo ctx purpose template s) := by
  unfold expandTo
  obtain ⟨r, hk, ⟨text, he⟩ | ⟨cause, hc, he⟩ | ⟨hc, he⟩⟩ :=
    expandFor_eq ctx template purpose (purpose.use ctx) s
  · rw [he]
    cases purpose with
    | addresses lengths => exact .lookup r text _ _ rfl hk
    | exchanges lengths => exact .lookup r text _ _ rfl hk
    | pointer => exact .lookup r _ _ _ ⟨text, rfl⟩ hk
    | existence => exact .lookup r text _ _ rfl hk
    | inclusion => exact .included r text (hk rfl)
    | redirection => exact .redirected r text (hk rfl)
    | explanationDomain => exact .lookup r text _ _ rfl hk
    | explanation => exact .explained r (some text) rfl
    | defaultExplanation => exact .explained r (some text) rfl
  · rw [he]
    cases purpose with
    | explanationDomain => exact explainByDefault_expanded ctx s r rfl
    | explanation => exact explainByDefault_expanded ctx s r rfl
    | defaultExplanation => exact .explained r s.explanation rfl
    | _ => exact .refused r cause rfl hc hk
  · rw [he]
    exact .aside r template _ hc (Or.inl rfl) hk rfl

/-! ## Frames -/

/-- What the domain of a mechanism is expanded for; mechanisms without lookups have none. -/
def purposeOf : Mechanism → Option Purpose
  | .all | .network4 _ | .network6 _ => none
  | .address _ lengths => some (.addresses lengths)
  | .exchange _ lengths => some (.exchanges lengths)
  | .pointer _ => some .pointer
  | .existing _ => some .existence
  | .included _ => some .inclusion

/-- The state with one more term entered. -/
def State.entered (s : State) : State :=
  { s with depth := s.depth + 1 }

/-- What is done before a frame is left below: the frame lies under all that it leaves. -/
def Reaction.onto (r : Reaction) (f : Frame) : Reaction :=
  ⟨r.state, r.frames ++ [f], r.signal⟩

theorem Reaction.above_onto (r : Reaction) (f : Frame) (below : List Frame) :
    (r.onto f).above below = r.above (f :: below) := by
  simp [onto, above]

/-- A commitment decides, or changes nothing. -/
theorem State.commit_eq (s : State) (qualifier : Qualifier) :
    s.commit qualifier = { s with verdict := some qualifier } ∨ s.commit qualifier = s := by
  unfold State.commit
  split
  · exact Or.inl rfl
  · exact Or.inr rfl

/-- What a frame does in its turn. -/
inductive Turn (ctx : Context) (s : State) : Frame → Reaction → Prop
  | concluded : Turn ctx s .conclusion
      (.done (s.conclude ((s.verdict.map Qualifier.result).getD .neutral)))
  | begun : Turn ctx s .evaluation (.leave s (ctx.policy.stages.map .stage ++ [.terms]))
  /-- A stage hands on what is found, which has no modifier that the record had not. -/
  | found (st : Policy.Stage) (text : Option String) (record : Option Record)
      (single : (∀ r ∈ s.record, r.IsSingle) → ∀ r ∈ record, r.IsSingle) :
      Turn ctx s (.stage st) (.done { s with text := text, record := record })
  | lost (st : Policy.Stage) (text : Option String) (cause : Error) :
      Turn ctx s (.stage st) (.fail { s with text := text } cause)
  | asked (isStrict : Bool) : Turn ctx s (.stage (.published isStrict))
      (.await s s.domain .spf (.policyRecords s.domain isStrict))
  | opened (record : Record) (h : s.record = some record) :
      Turn ctx s .terms (.leave { s with record := none } (framesOf record))
  | missing (h : s.record = none) : Turn ctx s .terms (.fail s (.nothingToEvaluate s.domain))
  | passed (d : Directive) (h : s.verdict ≠ none) : Turn ctx s (.directive d) (.done s)
  | settled (d : Directive) (isMatch : Bool) (h : s.verdict = none)
      (plain : purposeOf d.mechanism = none) :
      Turn ctx s (.directive d)
        (Reaction.onto (.done { s with matched := some isMatch }) (.commitment d.qualifier))
  | exhausted (d : Directive) (purpose : Purpose) (h : s.verdict = none)
      (looks : purposeOf d.mechanism = some purpose) (full : ¬s.depth < maxTerms) :
      Turn ctx s (.directive d)
        (Reaction.onto (.fail { s with matched := none } (.tooManyTerms maxTerms))
          (.commitment d.qualifier))
  | entered (d : Directive) (purpose : Purpose) (r : Reaction) (h : s.verdict = none)
      (looks : purposeOf d.mechanism = some purpose) (room : s.depth < maxTerms)
      (expanded : Expanded (State.entered { s with matched := none }) purpose r) :
      Turn ctx s (.directive d) (r.onto (.commitment d.qualifier))
  | committed (qualifier : Qualifier) :
      Turn ctx s (.commitment qualifier) (.done (s.commit qualifier))
  | decided (domain : String) (h : s.verdict ≠ none) :
      Turn ctx s (.modifier (.redirect domain)) (.done s)
  | exhaustedRedirect (domain : String) (h : s.verdict = none) (full : ¬s.depth < maxTerms) :
      Turn ctx s (.modifier (.redirect domain)) (.fail s (.tooManyTerms maxTerms))
  | enteredRedirect (domain : String) (r : Reaction) (h : s.verdict = none)
      (room : s.depth < maxTerms) (expanded : Expanded s.entered .redirection r) :
      Turn ctx s (.modifier (.redirect domain)) r
  | explains (domain : String) (r : Reaction) (h : s.verdict = some .fail)
      (heard : s.isMuted = false) (expanded : Expanded s .explanationDomain r) :
      Turn ctx s (.modifier (.explanation domain)) r
  | silent (domain : String) : Turn ctx s (.modifier (.explanation domain)) (.done s)
  | unknown (name value : String) : Turn ctx s (.modifier (.unknown name value)) (.done s)
  | neutral (h : s.verdict = none) : Turn ctx s (.decoration .neutralWithoutMatch)
      (.done { s with verdict := some .neutral })
  | unchanged (d : Decoration) : Turn ctx s (.decoration d) (.done s)
  | explainsByDefault (template : String) (r : Reaction) (h : s.verdict = some .fail)
      (heard : s.isMuted = false) (expanded : Expanded s .defaultExplanation r) :
      Turn ctx s (.decoration (.explanation template)) r
  | restored (domain : String) (explanation : Option String) (isMuted : Bool) :
      Turn ctx s (.restoration domain explanation isMuted)
        (.done { s.restore domain explanation isMuted with
          matched := some (s.verdict = some .pass) })
  | arrived : Turn ctx s .arrival (.done { s with isMuted := true })
  | expanded (template : String) (purpose : Purpose) (r : Reaction)
      (expanded : Expanded s purpose r) : Turn ctx s (.expansion template purpose) r

/-- What a stage does is no more than `Turn` says. -/
theorem stageStep_turn (ctx : Context) (s : State) (st : Policy.Stage) :
    Turn ctx s (.stage st) (stageStep s st) := by
  -- a stage does nothing, decorates the record, or takes the record of a table
  have same : Turn ctx s (.stage st) (.done s) := .found st s.text s.record id
  have kept {f : Record → Record} (hf : ∀ r, (f r).modifiers = r.modifiers) :
      Turn ctx s (.stage st) (.done { s with record := s.record.map f }) := by
    refine .found st s.text (s.record.map f) fun single r hr => ?_
    obtain ⟨r', hr', rfl⟩ := Option.map_eq_some_iff.mp hr
    unfold Record.IsSingle
    rw [hf]
    exact single r' hr'
  have looked {table : Policy.Table} {record : Option Record}
      (h : record = table.lookup s.domain) :
      Turn ctx s (.stage st) (.done { s with record := record }) := by
    refine .found st s.text record fun _ r hr => ?_
    exact Record.isSingle_of_parse (Policy.Table.parse_of_lookup (h ▸ hr))
  cases st with
  | overrides table =>
    simp only [stageStep]
    split
    · exact looked (Eq.symm ‹_›)
    · exact same
  | wellFormed =>
    simp only [stageStep]
    split
    · exact same
    · exact .lost _ s.text _
  | published isStrict =>
    simp only [stageStep]
    split
    · exact same
    · exact .asked isStrict
  | bestGuess text =>
    simp only [stageStep]
    split
    · exact .found _ (some text) s.record id
    · exact same
  | parsed =>
    simp only [stageStep]
    split
    · exact same
    · split
      · rename_i record hp
        refine .found _ none (some record) fun _ r hr => ?_
        cases hr
        exact Record.isSingle_of_parse hp
      · exact .lost _ none _
  | fallbacks table =>
    simp only [stageStep]
    split
    · exact looked rfl
    · exact same
  | required =>
    simp only [stageStep]
    split
    · exact .lost _ s.text _
    · exact same
  | trustedForwarder domain =>
    simp only [stageStep]
    split
    · exact same
    · exact kept fun _ => rfl
  | neutralWithoutMatch =>
    simp only [stageStep]
    exact kept fun r => by split <;> rfl
  | explanation template =>
    simp only [stageStep]
    exact kept fun _ => rfl

theorem counted_cases {s : State} {enter : State → Reaction} {P : Reaction → Prop}
    (full : ¬s.depth < maxTerms → P (.fail s (.tooManyTerms maxTerms)))
    (room : s.depth < maxTerms → P (enter s.entered)) : P (s.counted enter) := by
  unfold State.counted
  split
  · exact room ‹_›
  · exact full ‹_›

/-- A directive without a committed qualifier is settled at once, or enters a term. -/
theorem directiveStep_turn (ctx : Context) (s : State) (d : Directive) :
    Turn ctx s (.directive d) (directiveStep ctx s d) := by
  unfold directiveStep
  split
  · exact .passed d (by rw [← Option.isSome_iff_ne_none]; assumption)
  · rename_i hv
    rw [Bool.not_eq_true, Option.isSome_eq_false_iff, Option.isNone_iff_eq_none] at hv
    -- the mechanisms with lookups differ in their purpose and template alone
    have counted (purpose : Purpose) (template : String)
        (looks : purposeOf d.mechanism = some purpose) :
        Turn ctx s (.directive d)
          ((State.counted { s with matched := none } (expandTo ctx purpose template)).onto
            (.commitment d.qualifier)) := by
      apply counted_cases (P := fun r => Turn ctx s (.directive d) (r.onto _))
      · exact fun full => .exhausted d purpose hv looks full
      · exact fun room => .entered d purpose _ hv looks room (expandTo_expanded ctx _ _ _)
    obtain ⟨qualifier, mechanism⟩ := d
    cases mechanism with
    | all => exact .settled _ true hv rfl
    | network4 net =>
      simp only [mechanismStep]
      split <;> exact .settled _ _ hv rfl
    | network6 net =>
      simp only [mechanismStep]
      split <;> exact .settled _ _ hv rfl
    | address spec lengths => exact counted (.addresses lengths) _ rfl
    | exchange spec lengths => exact counted (.exchanges lengths) _ rfl
    | pointer spec => exact counted .pointer _ rfl
    | existing spec => exact counted .existence _ rfl
    | included spec => exact counted .inclusion _ rfl

theorem modifierStep_turn (ctx : Context) (s : State) (m : Modifier) :
    Turn ctx s (.modifier m) (modifierStep ctx s m) := by
  cases m with
  | redirect domain =>
    simp only [modifierStep]
    split
    · exact .decided domain (by rw [← Option.isSome_iff_ne_none]; assumption)
    · rename_i hv
      rw [Bool.not_eq_true, Option.isSome_eq_false_iff, Option.isNone_iff_eq_none] at hv
      apply counted_cases (P := Turn ctx s _)
      · exact fun full => .exhaustedRedirect domain hv full
      · exact fun room => .enteredRedirect domain _ hv room (expandTo_expanded ctx _ _ _)
  | explanation domain =>
    simp only [modifierStep]
    split
    · rename_i h
      exact .explains domain _ h.1 (Bool.not_eq_true _ ▸ h.2) (expandTo_expanded ctx _ _ _)
    · exact .silent domain
  | unknown name value => exact .unknown name value

theorem decorationStep_turn (ctx : Context) (s : State) (d : Decoration) :
    Turn ctx s (.decoration d) (decorationStep ctx s d) := by
  cases d with
  | neutralWithoutMatch =>
    simp only [decorationStep]
    split
    · rename_i hv
      exact .neutral (Option.isNone_iff_eq_none.mp hv)
    · exact .unchanged _
  | explanation template =>
    simp only [decorationStep]
    split
    · rename_i h
      exact .explainsByDefault template _ h.1 (Bool.not_eq_true _ ▸ h.2.2)
        (explainBy_expanded ctx template s s.receivingDomain rfl)
    · exact .unchanged _

section Tried

variable {ctx : Context} {s : State} {d : Directive}

/-- A directive is tried while nothing is decided: its mechanism is evaluated above the frame that
commits its qualifier. -/
theorem check_directive (undecided : s.verdict = none) : Frame.check ctx s (.directive d) =
    (mechanismStep ctx { s with matched := none } d.mechanism).onto (.commitment d.qualifier) := by
  have tried : ¬s.verdict.isSome = true := by simp [undecided]
  exact if_neg tried

theorem step_directive (below : List Frame) (undecided : s.verdict = none) :
    Machine.step ctx ⟨.proceed, s, .directive d :: below⟩ =
      some ((mechanismStep ctx { s with matched := none } d.mechanism).above
        (.commitment d.qualifier :: below)) := by
  simp only [Machine.step, check_directive undecided, Reaction.above_onto]

/-- A directive that is tried and looks something up enters a term with its template. -/
theorem step_entered {purpose : Purpose} {template : String} (below : List Frame)
    (undecided : s.verdict = none) (room : s.depth < maxTerms)
    (looks : mechanismStep ctx { s with matched := none } d.mechanism =
      State.counted { s with matched := none } (expandTo ctx purpose template)) :
    Machine.step ctx ⟨.proceed, s, .directive d :: below⟩ =
      some ((expandTo ctx purpose template (State.entered { s with matched := none })).above
        (.commitment d.qualifier :: below)) := by
  rw [step_directive below undecided, looks, State.counted, if_pos room]
  rfl

end Tried

/-- There is nothing else that a frame does. -/
theorem check_turn (ctx : Context) (s : State) (f : Frame) : Turn ctx s f (f.check ctx s) := by
  cases f with
  | conclusion => exact .concluded
  | evaluation => exact .begun
  | stage st => exact stageStep_turn ctx s st
  | terms =>
    simp only [Frame.check, termsStep]
    split
    · exact .opened _ ‹_›
    · exact .missing ‹_›
  | directive d => exact directiveStep_turn ctx s d
  | commitment qualifier => exact .committed qualifier
  | modifier m => exact modifierStep_turn ctx s m
  | decoration d => exact decorationStep_turn ctx s d
  | restoration domain explanation isMuted => exact .restored domain explanation isMuted
  | arrival => exact .arrived
  | expansion template purpose => exact .expanded template purpose _ (expandTo_expanded ctx _ _ s)

/-! ## Listeners -/

/-- The listener is that of a mechanism, and its answers settle whether the mechanism matches. -/
def Listener.settles : Listener → Bool
  | addresses _ | exchanges _ | exchangeAddresses _ _ | pointers _ | pointerAddresses _
  | existence => true
  | _ => false

/-- What a listener does with its answer. -/
inductive Heard (ctx : Context) (s : State) : Listener → Reaction → Prop
  | failed (l : Listener) (cause : Error) : Heard ctx s l (.fail s cause)
  | policyText (domain : String) (isStrict : Bool) (text : Option String) :
      Heard ctx s (.policyRecords domain isStrict) (.done { s with text := text })
  | askedText (domain : String) (isStrict : Bool) (other : Option String) :
      Heard ctx s (.policyRecords domain isStrict)
        (.await s domain .txt (.textRecords isStrict other))
  | text (isStrict : Bool) (other text : Option String) :
      Heard ctx s (.textRecords isStrict other) (.done { s with text := text })
  | settled (l : Listener) (isMatch : Bool) (h : l.settles) :
      Heard ctx s l (.done { s with matched := some isMatch })
  | exchange (lengths : CidrLengths) (host : String) (rest : List String)
      (h : rest.length < ctx.recordLimit) :
      Heard ctx s (.exchanges lengths)
        (.await s host s.identity.addressType (.exchangeAddresses rest lengths))
  | nextExchange (lengths : CidrLengths) (host : String) (rest : List String) :
      Heard ctx s (.exchangeAddresses (host :: rest) lengths)
        (.await s host s.identity.addressType (.exchangeAddresses rest lengths))
  | name (target host : String) (rest : List String) (h : rest.length < ctx.recordLimit) :
      Heard ctx s (.pointers target)
        (.await s host s.identity.addressType (.pointerAddresses rest))
  | nextName (host : String) (rest : List String) :
      Heard ctx s (.pointerAddresses (host :: rest))
        (.await s host s.identity.addressType (.pointerAddresses rest))
  | explains (r : Reaction) (expanded : Expanded s .explanation r) :
      Heard ctx s .explanationTexts r
  | clientNamed (name : String) :
      Heard ctx s .clientNames (.await s name s.identity.addressType (.clientAddresses name))
  | clientNameless : Heard ctx s .clientNames (.done { s with clientDomain := some "unknown" })
  | clientValidated (name validated : String) :
      Heard ctx s (.clientAddresses name) (.done { s with clientDomain := some validated })

/-- There is nothing else that a listener does. -/
theorem resume_heard (ctx : Context) (answer : Dns.Answer) (s : State) (l : Listener) :
    Heard ctx s l (l.resume ctx answer s) := by
  cases l with
  | policyRecords domain isStrict =>
    simp only [Listener.resume, policyAnswered]
    split
    · exact .failed _ _
    · split
      · exact .policyText domain isStrict _
      · exact .askedText domain isStrict _
  | textRecords isStrict other =>
    simp only [Listener.resume, textAnswered]
    split
    · exact .failed _ _
    · exact .text isStrict other _
  | addresses lengths =>
    simp only [Listener.resume, addressesAnswered]
    split
    · exact .failed _ _
    · exact .settled _ _ rfl
  | exchanges lengths =>
    simp only [Listener.resume, exchangesAnswered]
    split
    · exact .failed _ _
    · rename_i exchanges _
      -- one exchange is looked up, and fewer than the limit are left
      have hl := List.length_take_le ctx.recordLimit exchanges
      cases ht : exchanges.take ctx.recordLimit with
      | nil => exact .settled _ false rfl
      | cons host rest =>
        rw [ht] at hl
        exact .exchange lengths host rest hl
  | exchangeAddresses rest lengths =>
    simp only [Listener.resume, exchangeAddressesAnswered]
    split
    · exact .failed _ _
    · split
      · exact .settled _ true rfl
      · cases rest with
        | nil => exact .settled _ false rfl
        | cons host rest => exact .nextExchange lengths host rest
  | pointers target =>
    simp only [Listener.resume, pointersAnswered]
    split
    · exact .settled _ false rfl
    · rename_i names
      have hl : ((names.take ctx.recordLimit).filter fun name =>
          Domain.isWithin name target).length ≤ ctx.recordLimit :=
        Nat.le_trans (List.length_filter_le _ _) (List.length_take_le _ _)
      cases hf : (names.take ctx.recordLimit).filter fun name => Domain.isWithin name target with
      | nil => exact .settled _ false rfl
      | cons host rest =>
        rw [hf] at hl
        exact .name target host rest hl
  | pointerAddresses rest =>
    -- a failed lookup leads to the next name, as addresses of others do
    have next : Heard ctx s (.pointerAddresses rest) (nextPointer s rest) := by
      cases rest with
      | nil => exact .settled _ false rfl
      | cons host rest => exact .nextName host rest
    simp only [Listener.resume, pointerAddressesAnswered]
    split
    · exact next
    · split
      · exact .settled _ true rfl
      · exact next
  | existence =>
    simp only [Listener.resume, existenceAnswered]
    split
    · exact .failed _ _
    · exact .settled _ _ rfl
  | explanationTexts =>
    simp only [Listener.resume, explanationAnswered]
    split
    · exact .explains _ (expandTo_expanded ctx .explanation _ s)
    · exact .explains _ (explainByDefault_expanded ctx s s.receivingDomain rfl)
  | clientNames =>
    simp only [Listener.resume, clientNamed]
    split
    · exact .clientNamed _
    · exact .clientNameless
  | clientAddresses name => exact .clientValidated name _

/-! ## What stays the same -/

section Identities

variable {ctx : Context} {s : State} {r : Reaction}

theorem Expanded.identity {purpose : Purpose} (h : Expanded s purpose r) :
    r.state.identity = s.identity := by
  cases h <;> rfl

theorem State.commit_identity (s : State) (qualifier : Qualifier) :
    (s.commit qualifier).identity = s.identity := by
  unfold State.commit
  split <;> rfl

/-- No frame changes the identities of the check. -/
theorem Turn.identity {f : Frame} (h : Turn ctx s f r) : r.state.identity = s.identity := by
  cases h with
  | concluded => exact s.conclude_identity _
  | committed qualifier => exact s.commit_identity qualifier
  | entered _ _ _ _ _ _ expanded => exact expanded.identity
  | enteredRedirect _ _ _ _ expanded => exact expanded.identity
  | explains _ _ _ _ expanded => exact expanded.identity
  | explainsByDefault _ _ _ _ expanded => exact expanded.identity
  | expanded _ _ _ expanded => exact expanded.identity
  | _ => rfl

/-- Nor does a listener. -/
theorem Heard.identity {l : Listener} (h : Heard ctx s l r) : r.state.identity = s.identity := by
  cases h with
  | explains _ expanded => exact expanded.identity
  | _ => rfl

end Identities

end SenderPolicy.Evaluation
