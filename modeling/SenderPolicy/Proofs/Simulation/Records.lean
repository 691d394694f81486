import SenderPolicy.Proofs.Simulation.Templates

/-!
# Stages that follow the acquisition of a record

The stages of a policy hand what they find of a record from one to the next. The text of a record
is spent by the stage that reads it, and no later stage brings another, so the terms are evaluated
in a state in which nothing is left of the record.

## Main results

* `follows_stage`: a stage in its turn
* `text_of_acquireStage`: which stages leave no text
* `follows_acquire`: the stages of a policy, and the frame of the terms behind them
-/

namespace SenderPolicy.Evaluation.Direct

variable {α β : Type} {given : Situation} {origin : Standing} {matched : Option Bool}
  {k : Knowledge}

/-- What the stages have found is what the state holds. -/
def FoundIn (given : Situation) (origin : Standing) (matched : Option Bool) (found : Found)
    (k : Knowledge) (s : State) : Prop :=
  s = origin.state given found matched k

/-- While the record of a domain is acquired, any error is about that domain. -/
theorem acquisition_fails {found : Found} {cause : Error} :
    Fails origin cause k (origin.state given found matched k) :=
  ⟨⟨rfl, rfl, rfl⟩, rfl, rfl, fun _ => rfl⟩

/-! ## Stages in their turn -/

theorem follows_found (found : Found) :
    Follows given origin (.done (origin.state given found matched k)) k (pure found)
      (FoundIn given origin matched) :=
  Follows.pure (show FoundIn given origin matched found k _ from rfl)

/-- The errors of a lookup and those of its answer are the errors of one result. -/
theorem askRecords_bind (host : String) (type : Dns.RecordType)
    (select : List String → Except Error α) (f : α → Eval β) :
    (askRecords given host type >>= fun records => published.liftExcept (select records) >>= f) =
      ask given host type >>= fun answer =>
        published.liftExcept (recordsOf answer >>= select) >>= f := by
  rw [askRecords, bind_assoc]
  congr 1
  funext answer
  cases answer <;> rfl

theorem liftExcept_ok (value : α) : published.liftExcept (.ok value) = pure value := rfl

/-- The listener of the text records. -/
theorem follows_textAnswered {found : Found} {isStrict : Bool} {other : Option String}
    (answer : Dns.Answer) :
    Follows given origin (textAnswered isStrict other answer (origin.state given found matched k)) k
      (published.liftExcept (recordsOf answer >>= selectPolicy) >>= fun text =>
        (if isStrict then published.liftExcept (agreed other text) else return text) >>= fun text =>
          return { found with text := text })
      (FoundIn given origin matched) := by
  unfold textAnswered
  cases recordsOf answer >>= selectPolicy with
  | error cause => exact Follows.fail acquisition_fails
  | ok text =>
    cases isStrict with
    | false => exact follows_found _
    | true =>
      have same : (Except.ok text >>= agreed other) = agreed other text := rfl
      simp only [published.liftExcept, pure_bind, if_true, same]
      cases agreed other text with
      | error cause => exact Follows.fail acquisition_fails
      | ok text => exact follows_found _

/-- The published record: its listeners hand a text to the next stage. -/
theorem follows_published {found : Found} (isStrict : Bool) :
    Follows given origin
      (.await (origin.state given found matched k) origin.domain .spf
        (.policyRecords origin.domain isStrict)) k
      (do return { found with text := ← published given origin.domain isStrict })
      (FoundIn given origin matched) := by
  simp only [published, bind_assoc]
  rw [askRecords_bind]
  apply Follows.ask
  simp only [Listener.resume, policyAnswered]
  cases recordsOf (given.service ⟨origin.domain, .spf⟩) >>= selectPolicy with
  | error cause => exact Follows.fail acquisition_fails
  | ok other =>
    simp only [liftExcept_ok, pure_bind]
    split
    · exact follows_found _
    · simp only [bind_assoc]
      rw [askRecords_bind]
      apply Follows.ask
      exact follows_textAnswered _

/-- A stage in its turn. -/
theorem follows_stage (found : Found) (st : Policy.Stage) :
    Follows given origin (stageStep (origin.state given found matched k) st) k
      (acquireStage given origin.domain found st) (FoundIn given origin matched) := by
  obtain ⟨text, record⟩ := found
  cases st with
  | overrides table =>
    simp only [stageStep, acquireStage, Standing.state_domain]
    cases table.lookup origin.domain with
    | none => exact follows_found ⟨text, record⟩
    | some local' => exact follows_found ⟨text, some local'⟩
  | wellFormed =>
    simp only [stageStep, acquireStage, Standing.state_domain]
    by_cases h : Domain.WellFormed origin.domain
    · simp only [h, if_true, not_true, if_false]
      exact follows_found ⟨text, record⟩
    · simp only [h, if_false, not_false_eq_true, if_true]
      exact Follows.fail acquisition_fails
  | published isStrict =>
    refine Follows.ite (fun _ => ?_) fun _ => ?_
    · exact follows_found ⟨text, record⟩
    · exact follows_published isStrict
  | bestGuess guess =>
    refine Follows.ite (fun _ => ?_) fun _ => ?_
    · exact follows_found ⟨some guess, record⟩
    · exact follows_found ⟨text, record⟩
  | parsed =>
    cases text with
    | none => exact follows_found ⟨none, record⟩
    | some text =>
      simp only [stageStep, acquireStage, Standing.state_text]
      cases Record.parse text with
      | ok parsed => exact follows_found ⟨none, some parsed⟩
      -- the text that cannot be read is spent
      | error cause =>
        exact Follows.fail (@acquisition_fails given origin matched k ⟨none, record⟩ cause)
  | fallbacks table =>
    cases record with
    | none => exact follows_found ⟨text, table.lookup origin.domain⟩
    | some record => exact follows_found ⟨text, some record⟩
  | required =>
    cases record with
    | none => exact Follows.fail acquisition_fails
    | some record => exact follows_found ⟨text, some record⟩
  | trustedForwarder domain =>
    refine Follows.ite (fun _ => ?_) fun _ => ?_
    · exact follows_found ⟨text, record⟩
    · exact follows_found ⟨text, record.map (permitForwarder domain)⟩
  | neutralWithoutMatch => exact follows_found _
  | explanation template => exact follows_found _

/-! ## All stages

Only two stages find a text, and both come before the stage that reads it. -/

/-- The stage can leave a text that is still to be read. -/
def findsText : Policy.Stage → Bool
  | .published _ | .bestGuess _ => true
  | _ => false

/-- A stage leaves no text if it reads the text, or has none and finds none. -/
theorem text_of_acquireStage {domain : String} {found found' : Found} {st : Policy.Stage}
    {k' : Knowledge} (h : resultOf k (acquireStage given domain found st) = (.ok found', k'))
    (hs : st = .parsed ∨ findsText st = false ∧ found.text = none) : found'.text = none := by
  have kept {found₁ : Found} (h : resultOf k (pure found₁) = (.ok found', k'))
      (h₁ : found₁.text = none) : found'.text = none := by
    rw [resultOf_pure] at h
    cases h
    exact h₁
  have failed {cause : Error} (h : resultOf k (throw cause : Eval Found) = (.ok found', k')) :
      found'.text = none := by
    rw [resultOf_throw] at h
    cases h
  have ht (hne : st ≠ .parsed) : found.text = none := (hs.resolve_left hne).2
  cases st with
  | parsed =>
    obtain ⟨text, record⟩ := found
    cases text with
    | none => exact kept h rfl
    | some text =>
      simp only [acquireStage] at h
      split at h
      · exact kept h rfl
      · exact failed h
  | published isStrict => simp [findsText] at hs
  | bestGuess text => simp [findsText] at hs
  | overrides table => exact kept h (ht nofun)
  | wellFormed =>
    simp only [acquireStage] at h
    split at h
    · exact failed h
    · exact kept h (ht nofun)
  | fallbacks table => exact kept h (ht nofun)
  | required =>
    simp only [acquireStage] at h
    split at h
    · exact failed h
    · exact kept h (ht nofun)
  | trustedForwarder domain =>
    simp only [acquireStage] at h
    split at h
    · exact kept h (ht nofun)
    · exact kept h (ht nofun)
  | neutralWithoutMatch => exact kept h (ht nofun)
  | explanation template => exact kept h (ht nofun)

/-- The text of a record is read behind the stages that find it. -/
theorem stages_eq (policy : Policy) : ∃ front back,
    policy.stages = front ++ .parsed :: back ∧ ∀ st ∈ back, findsText st = false := by
  refine ⟨(policy.overrides.map .overrides).toList ++ [.wellFormed, .published policy.isStrict] ++
      (policy.bestGuess.map .bestGuess).toList,
    (policy.fallbacks.map .fallbacks).toList ++ [.required] ++
      (policy.trustedForwarder.map .trustedForwarder).toList ++ [.neutralWithoutMatch] ++
      (policy.defaultExplanation.map .explanation).toList, ?_, ?_⟩
  · simp only [Policy.stages, List.append_assoc, List.cons_append, List.nil_append]
  · simp only [List.mem_append, List.mem_singleton, Option.mem_toList, Option.map_eq_some_iff]
    rintro st ((((⟨table, -, rfl⟩ | rfl) | ⟨domain, -, rfl⟩) | rfl) | ⟨template, -, rfl⟩) <;> rfl

/-- The stages of a policy in their turn: what they leave is a record, or nothing. -/
theorem follows_stages (stages : List Policy.Stage) (found : Found) :
    Follows given origin (.leave (origin.state given found matched k) (stages.map .stage)) k
      (stages.foldlM (acquireStage given origin.domain) found) (FoundIn given origin matched) := by
  refine Follows.foldlM (fun _ _ _ => rfl) stages (fun st _ found k s _ hs => ?_) rfl
  rw [show s = _ from hs]
  exact Follows.frame (follows_stage found st)

/-- Once its text is read, a record is all that can be found. -/
theorem follows_stages_read (stages : List Policy.Stage) (hs : ∀ st ∈ stages, findsText st = false)
    {found : Found} (h : found.text = none) :
    Follows given origin (.leave (origin.state given found matched k) (stages.map .stage)) k
      (stages.foldlM (acquireStage given origin.domain) found)
      fun found k s => FoundIn given origin matched found k s ∧ found.text = none := by
  -- no stage that is left finds a text
  refine Follows.foldlM (fun _ _ _ => rfl) stages (fun st hst found k s _ hf => ?_) ⟨rfl, h⟩
  rw [show s = _ from hf.1]
  refine (Follows.frame (follows_stage found st)).mono fun found' k' s' hr hf' => ⟨hf', ?_⟩
  exact text_of_acquireStage hr (Or.inr ⟨hs st hst, hf.2⟩)

/-- The stages of a policy leave no text. -/
theorem follows_acquired :
    Follows given origin
      (.leave (origin.state given .nothing matched k) (given.ctx.policy.stages.map .stage)) k
      (given.ctx.policy.stages.foldlM (acquireStage given origin.domain) ⟨none, none⟩)
      fun found k s => FoundIn given origin matched found k s ∧ found.text = none := by
  obtain ⟨front, back, hs, hb⟩ := stages_eq given.ctx.policy
  -- in front of the stage that reads the text there may be one, behind it there is none
  rw [hs, List.map_append, List.foldlM_append]
  refine (follows_stages front ⟨none, none⟩).bind _ (handsOn_map (fun _ _ _ => rfl) _) ?_
  intro found k' s hf _
  rw [List.map_cons, List.foldlM_cons, show s = _ from hf]
  refine Follows.bind (back.map .stage) (r := .leave _ [.stage .parsed])
    (P := fun found k s => FoundIn given origin matched found k s ∧ found.text = none)
    ((Follows.frame (follows_stage found .parsed)).mono fun found' k' s' hr hf' =>
      ⟨hf', text_of_acquireStage hr (Or.inl rfl)⟩)
    (handsOn_map (fun _ _ _ => rfl) _) ?_
  intro found' k' s' hf' _
  rw [show s' = _ from hf'.1]
  exact follows_stages_read back hb hf'.2

/-- The record of a domain is acquired, and its terms are evaluated. -/
theorem follows_acquire {f : Record → Eval α} {Q : α → Knowledge → State → Prop}
    (use : ∀ record k', Grows k k' → Follows given origin
      (.leave (origin.state given .nothing matched k') (framesOf record)) k' (f record) Q) :
    Follows given origin (.leave (origin.state given .nothing matched k) [.evaluation]) k
      (acquire given origin.domain >>= f) Q := by
  rw [acquire, bind_assoc]
  refine Follows.frame (follows_acquired.bind [.terms] (by simp [HandsOn, Frame.catch]) ?_)
  rintro ⟨text, record⟩ k' _ ⟨rfl, rfl⟩ hk'
  refine Follows.frame ?_
  cases record with
  | none => exact Follows.fail acquisition_fails
  | some record => exact use record k' hk'

end SenderPolicy.Evaluation.Direct
