import SenderPolicy.Evaluation.Rank

/-!
# Frames lower the rank

What a frame leaves ranks below the frame itself. A template that is put aside keeps its frame, but
brings the validation of the client's name under way, which it does only while the name is unknown.

## Main results

* `expandTo_lower`: a template leaves less than it took, also when it is put aside
* `counted_lower`: a term with lookups brings the check closer to the last one that it enters
* `check_lower`: a frame leaves less than it took
-/

namespace SenderPolicy.Evaluation

/-! ## Templates

Expanding a template changes neither the number of terms entered nor the client's name, so a text
that is put to use is compared by the frames and the lookup that it leaves. -/

@[simp] theorem settleReceiver_depth (s : State) (ctx : Context) (site : Macro.Site)
    (template : String) : (s.settleReceiver ctx site template).depth = s.depth := by
  unfold State.settleReceiver
  split <;> rfl

@[simp] theorem settleReceiver_clientDomain (s : State) (ctx : Context) (site : Macro.Site)
    (template : String) : (s.settleReceiver ctx site template).clientDomain = s.clientDomain := by
  unfold State.settleReceiver
  split <;> rfl

/-- A template is put to use, or put aside while the client's name is unknown. -/
theorem expandFor_cases {ctx : Context} {template : String} {purpose : Purpose}
    {use : Except Error String → State → Reaction} {s : State} {P : Reaction → Prop}
    (used : ∀ text, P (use text (s.settleReceiver ctx purpose.site template)))
    (aside : s.clientDomain = none →
      P ⟨s.settleReceiver ctx purpose.site template, [.expansion template purpose],
        .await ⟨(s.settleReceiver ctx purpose.site template).identity.reverseName, .ptr⟩
          .clientNames⟩) :
    P (expandFor ctx template purpose use s) := by
  unfold expandFor
  simp only
  split
  · exact used _
  · exact used _
  · rename_i h
    apply aside
    have := Macro.expand_eq_unknown h
    simpa [State.values] using this

/-- A template that is put aside brings the validation of the client's name under way. -/
theorem aside_lower {s t : State} {template : String} {purpose : Purpose} {request : Dns.Request}
    {frames : List Frame} {signal : Signal} (hd : t.depth = s.depth)
    (hc : t.clientDomain = s.clientDomain) (hs : s.clientDomain = none) (hp : signal.IsPlain) :
    Lower (rankOf t [.expansion template purpose] (.await request .clientNames))
      (rankOf s frames signal) := by
  refine Or.inr ⟨by simp only [rankOf, hd], Or.inl ?_⟩
  simp only [rankOf, hp s.validationAhead, State.validationAhead_congr hc]
  simp [State.validationAhead, hs, Signal.validationAhead]

theorem done_lower {s t : State} {frames : List Frame} {signal : Signal} (hd : t.depth = s.depth)
    (hc : t.clientDomain = s.clientDomain) (hp : signal.IsPlain)
    (hw : 0 < total Frame.workAhead frames + signal.workAhead) :
    Lower (Reaction.done t).rank (rankOf s frames signal) := by
  refine lower_of_parts hd ((State.validationAhead_congr hc).trans (hp _).symm) ?_
  simp only [Reaction.done, total_nil, Signal.stagesAhead_proceed, Signal.listsAhead_proceed,
    Signal.workAhead_proceed]
  omega

theorem fail_lower {s t : State} {cause : Error} {frames : List Frame} {signal : Signal}
    (hd : t.depth = s.depth) (hc : t.clientDomain = s.clientDomain) (hp : signal.IsPlain)
    (hw : 1 < total Frame.workAhead frames + signal.workAhead) :
    Lower (Reaction.fail t cause).rank (rankOf s frames signal) := by
  refine lower_of_parts hd ((State.validationAhead_congr hc).trans (hp _).symm) ?_
  simp only [Reaction.fail, total_nil, Signal.stagesAhead_raise, Signal.listsAhead_raise,
    Signal.workAhead_raise]
  omega

theorem keepExplanation_lower {s t : State} {text : Except Error String} {frames : List Frame}
    {signal : Signal} (hd : t.depth = s.depth) (hc : t.clientDomain = s.clientDomain)
    (hp : signal.IsPlain) (hw : 0 < total Frame.workAhead frames + signal.workAhead) :
    Lower (keepExplanation text t).rank (rankOf s frames signal) := by
  unfold keepExplanation
  split
  · exact done_lower hd hc hp hw
  · exact done_lower hd hc hp hw

theorem explainBy_lower {ctx : Context} {template : String} {s t : State} {frames : List Frame}
    {signal : Signal} (hd : t.depth = s.depth) (hc : t.clientDomain = s.clientDomain)
    (hp : signal.IsPlain) (hw : 0 < total Frame.workAhead frames + signal.workAhead) :
    Lower (explainBy ctx template t).rank (rankOf s frames signal) := by
  unfold explainBy
  apply expandFor_cases (P := fun r => Lower r.rank (rankOf s frames signal))
  · exact fun text => keepExplanation_lower (by simpa) (by simpa) hp hw
  · exact fun h => aside_lower (by simpa) (by simpa) (by rw [← hc, h]) hp

theorem explainByDefault_lower {ctx : Context} {s t : State} {frames : List Frame}
    {signal : Signal} (hd : t.depth = s.depth) (hc : t.clientDomain = s.clientDomain)
    (hp : signal.IsPlain) (hw : 0 < total Frame.workAhead frames + signal.workAhead) :
    Lower (explainByDefault ctx t).rank (rankOf s frames signal) := by
  unfold explainByDefault
  split
  · exact explainBy_lower hd hc hp hw
  · exact done_lower hd hc hp hw

theorem proceed_isPlain : Signal.proceed.IsPlain := fun _ => rfl

/-- A template that is put to use leaves less than it took. -/
theorem use_lower {ctx : Context} {purpose : Purpose} {text : Except Error String} {s t : State}
    {template : String} (hd : t.depth = s.depth) (hc : t.clientDomain = s.clientDomain) :
    Lower (purpose.use ctx text t).rank (rankOf s [.expansion template purpose] .proceed) := by
  have hw : total Frame.workAhead [.expansion template purpose] + Signal.workAhead .proceed = 4 :=
    rfl
  cases text with
  | error cause =>
    -- a refusal ends the check, or leaves the explanation to the receiver
    cases purpose with
    | explanationDomain | explanation =>
      exact explainByDefault_lower hd hc proceed_isPlain (by omega)
    | defaultExplanation => exact keepExplanation_lower hd hc proceed_isPlain (by omega)
    | _ => exact fail_lower hd hc proceed_isPlain (by omega)
  | ok text =>
    cases purpose with
    | explanation | defaultExplanation => exact done_lower hd hc proceed_isPlain (by omega)
    -- a lookup, or another domain with one evaluation less ahead
    | _ =>
      simp [Purpose.use, State.beginInclusion, Reaction.leave, Reaction.await, Reaction.rank,
        Lower, rankOf, Signal.validationAhead, Signal.stagesAhead, Signal.listsAhead,
        Signal.workAhead, Frame.domainsAhead, Frame.stagesAhead, Frame.listsAhead,
        Frame.workAhead, State.validationAhead, hd, hc]

/-- A template leaves less than it took, also when it is put aside. -/
theorem expandTo_lower {ctx : Context} {purpose : Purpose} {template : String} {s t : State}
    (hd : t.depth = s.depth) (hc : t.clientDomain = s.clientDomain) :
    Lower (expandTo ctx purpose template t).rank
      (rankOf s [.expansion template purpose] .proceed) := by
  unfold expandTo
  apply expandFor_cases
    (P := fun r => Lower r.rank (rankOf s [.expansion template purpose] .proceed))
  · exact fun text => use_lower (by simpa) (by simpa)
  · exact fun h => aside_lower (by simpa) (by simpa) (by rw [← hc, h]) proceed_isPlain

/-! ## Frames in their turn

Stages and terms are ranked by the third and the fourth part, directives and modifiers by the work
that they leave, except for the terms with lookups, which the first part counts. -/

theorem stageStep_lower (s : State) (st : Policy.Stage) :
    Lower (stageStep s st).rank (rankOf s [.stage st] .proceed) := by
  have fewer {t : State} {signal : Signal} (hd : t.depth = s.depth)
      (hc : t.clientDomain = s.clientDomain) (hp : signal.IsPlain) (h : signal.stagesAhead < 3) :
      Lower (rankOf t [] signal) (rankOf s [.stage st] .proceed) :=
    lower_of_parts hd ((hp _).trans (State.validationAhead_congr hc))
      (by simp [Frame.domainsAhead, Frame.stagesAhead, h])
  -- whatever a stage does, it leaves no frame and at most one lookup
  cases st <;> simp only [stageStep] <;> (repeat' split) <;>
    exact fewer rfl rfl (fun _ => rfl) (by simp [Reaction.done, Reaction.fail, Reaction.await,
      Signal.stagesAhead])

theorem total_framesOf (record : Record) : total Frame.domainsAhead (framesOf record) = 0 ∧
    total Frame.stagesAhead (framesOf record) = 0 := by
  have h : ∀ f ∈ framesOf record, Frame.domainsAhead f = 0 ∧ Frame.stagesAhead f = 0 :=
    forall_mem_framesOf record (fun _ => ⟨rfl, rfl⟩) (fun _ => ⟨rfl, rfl⟩) fun _ => ⟨rfl, rfl⟩
  exact ⟨total_eq_zero fun f hf => (h f hf).1, total_eq_zero fun f hf => (h f hf).2⟩

theorem termsStep_lower (s : State) :
    Lower (termsStep s).rank (rankOf s [.terms] .proceed) := by
  unfold termsStep
  split
  · rename_i record _
    refine lower_of_parts rfl rfl ?_
    simp [Reaction.leave, Signal.stagesAhead, Frame.domainsAhead, Frame.stagesAhead,
      (total_framesOf record).1, (total_framesOf record).2]
  · refine lower_of_parts rfl rfl ?_
    simp [Reaction.fail, Signal.stagesAhead, Frame.domainsAhead, Frame.stagesAhead]

/-- A counted term brings the check closer to the last one that it enters. -/
theorem counted_lower {s t : State} {enter : State → Reaction} {frames below : List Frame}
    (hd : t.depth = s.depth) (hc : t.clientDomain = s.clientDomain)
    (hw : 1 + total Frame.workAhead below < total Frame.workAhead frames)
    (hb : total Frame.domainsAhead below = 0 ∧ total Frame.stagesAhead below = 0 ∧
      total Frame.listsAhead below = 0)
    (h : ∀ u, (enter u).state.depth = u.depth) :
    Lower (rankOf (t.counted enter).state ((t.counted enter).frames ++ below)
      (t.counted enter).signal) (rankOf s frames .proceed) := by
  unfold State.counted
  split
  · -- one term less is left to enter
    refine Or.inl ?_
    simp only [rankOf, h, hd] at *
    omega
  · refine lower_of_parts hd (State.validationAhead_congr hc) ?_
    simp only [Reaction.fail, List.nil_append, hb.1, hb.2.1, hb.2.2, Signal.stagesAhead_raise,
      Signal.listsAhead_raise, Signal.workAhead_raise, Signal.stagesAhead_proceed,
      Signal.listsAhead_proceed, Signal.workAhead_proceed]
    omega

/-- No use of a text changes the number of terms entered. -/
theorem expandTo_depth (ctx : Context) (purpose : Purpose) (template : String) (s : State) :
    (expandTo ctx purpose template s).state.depth = s.depth := by
  have keep : ∀ text (t : State), (keepExplanation text t).state.depth = t.depth := by
    intro text t
    unfold keepExplanation
    split <;> rfl
  have byDefault : ∀ t : State, (explainByDefault ctx t).state.depth = t.depth := by
    intro t
    unfold explainByDefault
    split
    · unfold explainBy
      apply expandFor_cases (P := fun r => r.state.depth = t.depth)
      · intro text
        rw [keep, settleReceiver_depth]
      · intro _
        simp
    · rfl
  unfold expandTo
  apply expandFor_cases (P := fun r => r.state.depth = s.depth)
  · intro text
    cases text <;> cases purpose <;>
      simp [Purpose.use, Reaction.await, Reaction.fail, Reaction.leave, Reaction.done,
        State.beginInclusion, keep, byDefault]
  · intro _
    simp

theorem directiveStep_lower (ctx : Context) (s : State) (d : Directive) :
    Lower (directiveStep ctx s d).rank (rankOf s [.directive d] .proceed) := by
  unfold directiveStep
  split
  · -- a qualifier is committed, so the directive is passed over
    exact done_lower rfl rfl proceed_isPlain (by simp [Frame.workAhead])
  · -- the mechanism is settled at once, or is a term with lookups
    have settled (t : State) (isMatch : Bool) (hd : t.depth = s.depth)
        (hc : t.clientDomain = s.clientDomain) :
        Lower (rankOf (t.settle isMatch).state ((t.settle isMatch).frames ++
          [.commitment d.qualifier]) (t.settle isMatch).signal)
          (rankOf s [.directive d] .proceed) :=
      lower_of_parts hd (State.validationAhead_congr hc)
        (by simp [State.settle, Reaction.done, Frame.domainsAhead, Frame.stagesAhead,
          Frame.listsAhead, Frame.workAhead])
    have counted (enter : State → Reaction) (h : ∀ u, (enter u).state.depth = u.depth) :
        Lower (rankOf (State.counted { s with matched := none } enter).state
          ((State.counted { s with matched := none } enter).frames ++ [.commitment d.qualifier])
          (State.counted { s with matched := none } enter).signal)
          (rankOf s [.directive d] .proceed) :=
      counted_lower rfl rfl (by simp [Frame.workAhead])
        (by simp [Frame.domainsAhead, Frame.stagesAhead, Frame.listsAhead]) h
    simp only [Reaction.rank]
    cases hm : d.mechanism with
    | all => exact settled _ _ rfl rfl
    | network4 net | network6 net =>
      simp only [mechanismStep]
      split <;> exact settled _ _ rfl rfl
    | address | exchange | pointer | existing | included =>
      exact counted _ (expandTo_depth ctx _ _)

theorem modifierStep_lower (ctx : Context) (s : State) (m : Modifier) :
    Lower (modifierStep ctx s m).rank (rankOf s [.modifier m] .proceed) := by
  cases m with
  | redirect domain =>
    simp only [modifierStep]
    split
    · exact done_lower rfl rfl proceed_isPlain (by simp [Frame.workAhead])
    · have := @counted_lower s s _ [.modifier (.redirect domain)] [] rfl rfl
        (by simp [Frame.workAhead]) ⟨rfl, rfl, rfl⟩ (expandTo_depth ctx .redirection domain)
      rwa [List.append_nil] at this
  | explanation domain =>
    simp only [modifierStep]
    split
    · have h := @expandTo_lower ctx .explanationDomain domain s s rfl rfl
      simp only [Lower, Reaction.rank, rankOf, total_cons, total_nil, Frame.domainsAhead,
        Frame.stagesAhead, Frame.listsAhead, Frame.workAhead] at h ⊢
      omega
    · exact done_lower rfl rfl proceed_isPlain (by simp [Frame.workAhead])
  | unknown name value => exact done_lower rfl rfl proceed_isPlain (by simp [Frame.workAhead])

theorem decorationStep_lower (ctx : Context) (s : State) (d : Decoration) :
    Lower (decorationStep ctx s d).rank (rankOf s [.decoration d] .proceed) := by
  cases d with
  | neutralWithoutMatch =>
    refine done_lower ?_ ?_ proceed_isPlain (by simp [Frame.workAhead]) <;> split <;> rfl
  | explanation template =>
    simp only [decorationStep]
    split
    · exact explainBy_lower rfl rfl proceed_isPlain (by simp [Frame.workAhead])
    · exact done_lower rfl rfl proceed_isPlain (by simp [Frame.workAhead])

/-- A frame leaves less than it took. -/
theorem check_lower (ctx : Context) (s : State) (f : Frame) :
    Lower (f.check ctx s).rank (rankOf s [f] .proceed) := by
  cases f with
  | conclusion => exact done_lower (by simp) (by simp) proceed_isPlain (by simp [Frame.workAhead])
  | evaluation =>
    -- stages lead to no further evaluation
    have none_ahead : total Frame.domainsAhead (ctx.policy.stages.map Frame.stage) = 0 :=
      total_eq_zero (by simp [Frame.domainsAhead])
    refine lower_of_parts rfl rfl (Or.inl ?_)
    simp [Frame.check, Reaction.leave, none_ahead, Frame.domainsAhead]
  | stage st => exact stageStep_lower s st
  | terms => exact termsStep_lower s
  | directive d => exact directiveStep_lower ctx s d
  | commitment q =>
    refine done_lower ?_ ?_ proceed_isPlain (by simp [Frame.workAhead]) <;>
      unfold State.commit <;> split <;> rfl
  | modifier m => exact modifierStep_lower ctx s m
  | decoration d => exact decorationStep_lower ctx s d
  | restoration | arrival => exact done_lower rfl rfl proceed_isPlain (by simp [Frame.workAhead])
  | expansion template purpose => exact expandTo_lower rfl rfl

end SenderPolicy.Evaluation
