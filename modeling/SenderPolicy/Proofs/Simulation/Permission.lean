import SenderPolicy.Proofs.Course.Missing
import SenderPolicy.Proofs.Course.Redirection
import SenderPolicy.Proofs.Course.Strictness
import SenderPolicy.Proofs.Simulation.Steady

/-!
# Permission by the trusted forwarder

A receiver that trusts a forwarder evaluates every record with one directive more, which passes the
clients that the forwarder's policy passes. A check with that directive and a check without it go
through the same terms, one after the other: what was a pass stays a pass, and what is not changed
to a pass stays what it was. Nested policies are no exception as long as the directive that includes
them passes those it matches. A directive that turns the clients of another policy away turns more
of them away once the forwarder's clients pass that policy: it is then found to match in the check
with the forwarder, and not to match in the check without it.

## Main definitions

* `Context.trusting`: a receiver with another trusted forwarder, or with none
* `Finds`: a check tries a directive of a domain's record, which matches or not
* `Excluded`: a directive for an included policy matches only with the forwarder, and does not pass
  the clients it matches
* `Favors`: a verdict is a pass, or the same as another
* `Meets`: two checks have come to the same term

## Main results

* `acquire_permits`: the record of a domain, with the forwarder and without it
* `Runs.finds`: the machine finds what direct evaluation comes to
* `Meets.tried`, `Meets.followed`: one term after the other
* `compares`: the evaluation of a domain
* `forwarder_permits`: a check that passes without the forwarder passes with it, unless a directive
  matches only with it that does not pass the clients it matches
-/

namespace SenderPolicy.Evaluation

/-- The receiver with another trusted forwarder, or with none. -/
def Context.trusting (ctx : Context) (forwarder : Option String) : Context :=
  { ctx with policy := { ctx.policy with trustedForwarder := forwarder } }

namespace Direct

/-- The same check by a receiver with another trusted forwarder, or with none. -/
def Situation.trusting (given : Situation) (forwarder : Option String) : Situation :=
  { given with ctx := given.ctx.trusting forwarder }

variable {given : Situation} {forwarder domain : String} {receivingDomain : Option String}
  {k k₀ k' k₀' : Knowledge}

/-! ## Records with the forwarder's directive -/

/-- The record permits the forwarder and says nothing else beyond another record. -/
structure Amends (forwarder : String) (record₀ record : Record) : Prop where
  directives : ∃ front added back, record₀.directives = front ++ back ∧
    record.directives = front ++ (added ++ back) ∧ ∀ d ∈ added, d = forwarderDirective forwarder
  modifiers : record.modifiers = record₀.modifiers

theorem insertBeforeClose_eq (added : Directive) (ds : List Directive) :
    ∃ front back, ds = front ++ back ∧ insertBeforeClose added ds = front ++ ([added] ++ back) := by
  unfold insertBeforeClose
  split
  · rename_i last hl
    split
    · exact ⟨ds.dropLast, [last], (List.dropLast_append_getLast? last hl).symm, rfl⟩
    · exact ⟨ds, [], (List.append_nil ds).symm, rfl⟩
  · rename_i hl
    rw [List.getLast?_eq_none_iff] at hl
    exact ⟨[], [], hl, rfl⟩

/-- The stage that permits the forwarder stands between the stages that find a record and those that
decorate it. -/
theorem stages_trusting (policy : Policy) : ∃ front back : List Policy.Stage,
    (∀ forwarder, Policy.stages { policy with trustedForwarder := forwarder } =
      front ++ ((forwarder.map .trustedForwarder).toList ++ back)) ∧
    ∀ st ∈ back, st = .neutralWithoutMatch ∨ ∃ template, st = .explanation template := by
  refine ⟨(policy.overrides.map .overrides).toList ++ [.wellFormed, .published policy.isStrict] ++
      (policy.bestGuess.map .bestGuess).toList ++ [.parsed] ++
      (policy.fallbacks.map .fallbacks).toList ++ [.required],
    [.neutralWithoutMatch] ++ (policy.defaultExplanation.map .explanation).toList,
    fun forwarder => by simp only [Policy.stages, List.append_assoc], ?_⟩
  rw [List.singleton_append, List.forall_mem_cons]
  refine ⟨.inl rfl, fun st hst => .inr ?_⟩
  rw [Option.mem_toList, Option.map_eq_some_iff] at hst
  obtain ⟨template, -, rfl⟩ := hst
  exact ⟨template, rfl⟩

/-- The last stages decorate the record that was found, whatever it is. -/
theorem foldlM_decorates {back : List Policy.Stage}
    (hb : ∀ st ∈ back, st = .neutralWithoutMatch ∨ ∃ template, st = .explanation template) :
    ∃ close : Record → Record,
      (∀ record, (close record).directives = record.directives ∧
        (close record).modifiers = record.modifiers) ∧
      ∀ (given : Situation) domain found, back.foldlM (acquireStage given domain) found =
        pure { found with record := found.record.map close } := by
  induction back with
  | nil => exact ⟨id, fun _ => ⟨rfl, rfl⟩, fun _ _ found => by rw [Option.map_id]; rfl⟩
  | cons st back ih =>
    rw [List.forall_mem_cons] at hb
    obtain ⟨close, same, closes⟩ := ih hb.2
    have next {decorated : Record → Record}
        (hd : ∀ record, (decorated record).directives = record.directives ∧
          (decorated record).modifiers = record.modifiers)
        (hs : ∀ (given : Situation) domain found, acquireStage given domain found st =
          pure { found with record := found.record.map decorated }) :
        ∃ close : Record → Record,
          (∀ record, (close record).directives = record.directives ∧
            (close record).modifiers = record.modifiers) ∧
          ∀ (given : Situation) domain found,
            (st :: back).foldlM (acquireStage given domain) found =
              pure { found with record := found.record.map close } := by
      refine ⟨close ∘ decorated, fun record => ?_, fun given domain found => ?_⟩
      · exact ⟨(same _).1.trans (hd record).1, (same _).2.trans (hd record).2⟩
      · rw [List.foldlM_cons, hs, pure_bind, closes, ← Option.map_map]
    rcases hb.1 with rfl | ⟨template, rfl⟩
    · refine next (fun record => ?_) fun _ _ _ => rfl
      split
      · exact ⟨rfl, rfl⟩
      · exact ⟨rfl, rfl⟩
    · exact @next (decorate (.explanation template)) (fun _ => ⟨rfl, rfl⟩) fun _ _ _ => rfl

/-- Where the record of a domain is found without the forwarder, it is found with it, and permits
it, unless it is the forwarder's own. -/
theorem acquire_permits {record₀ : Record}
    (acquired : resultOf k₀ (acquire (given.trusting none) domain) = (.ok record₀, k₀'))
    (k : Knowledge) :
    ∃ record k', resultOf k (acquire (given.trusting (some forwarder)) domain) = (.ok record, k') ∧
      Amends forwarder record₀ record := by
  obtain ⟨front, back, stages, decorates⟩ := stages_trusting given.ctx.policy
  obtain ⟨close, same, closes⟩ := foldlM_decorates decorates
  have trusted (forwarder : Option String) :
      (given.trusting forwarder).ctx.policy.stages =
        front ++ ((forwarder.map .trustedForwarder).toList ++ back) := stages forwarder
  simp only [acquire, trusted, List.foldlM_append, closes, bind_assoc] at acquired ⊢
  obtain ⟨found, l, searched, acquired⟩ := resultOf_bind_eq_ok acquired
  -- the stages that search are the same
  have steady : Steady (front.foldlM (acquireStage (given.trusting none) domain) ⟨none, none⟩) :=
    .foldlM (steady_acquireStage domain) front _
  obtain ⟨l', searched'⟩ := steady.elsewhere searched k
  have searched' : resultOf k (front.foldlM
      (acquireStage (given.trusting (some forwarder)) domain) ⟨none, none⟩) = (.ok found, l') :=
    searched'
  obtain ⟨text, record⟩ := found
  cases record with
  | none => cases acquired
  | some record =>
    cases acquired
    rw [resultOf_bind, searched']
    simp only [Option.map_some, Option.toList_some, List.foldlM_cons, List.foldlM_nil, acquireStage]
    obtain ⟨directives, modifiers⟩ := same record
    by_cases own : Text.sameFolded domain forwarder
    · refine ⟨_, _, by simp only [if_pos own]; rfl, ⟨[], [], record.directives, ?_⟩, rfl⟩
      exact ⟨directives, directives, List.forall_mem_nil _⟩
    · refine ⟨_, _, by simp only [if_neg own]; rfl, ?_, ?_⟩
      · obtain ⟨front, back, hr, hi⟩ :=
          insertBeforeClose_eq (forwarderDirective forwarder) record.directives
        exact ⟨front, [forwarderDirective forwarder], back, directives.trans hr,
          (same _).1.trans hi, List.forall_mem_singleton.mpr rfl⟩
      · exact (same _).2.trans modifiers.symm

/-! ## One term in both checks -/

/-- A verdict is a pass, or the same as another. -/
def Favors (v₀ v : Option Qualifier) : Prop :=
  v = some .pass ∨ v = v₀

/-- A check that the service answers tries a directive of the record of a domain, with nothing
decided yet, and finds that it matches, or that it does not. -/
def Finds (given : Situation) (receivingDomain : Option String) (domain : String) (d : Directive)
    (isMatch : Bool) : Prop :=
  ∃ s t below,
    Visits given (machineOf given.identity receivingDomain) ⟨.proceed, s, .directive d :: below⟩ ∧
    s.domain = domain ∧ s.verdict = none ∧
    Visits given ⟨.proceed, s, .directive d :: below⟩
      ⟨.proceed, t, .commitment d.qualifier :: below⟩ ∧
    t.matched = some isMatch

/-- A directive that does not pass the clients it matches matches for an included policy in the
check with the forwarder, and does not match in the check without it. -/
def Excluded (given : Situation) (forwarder : String) (receivingDomain : Option String) : Prop :=
  ∃ domain qualifier spec, qualifier ≠ .pass ∧
    Finds (given.trusting none) receivingDomain domain ⟨qualifier, .included spec⟩ false ∧
    Finds (given.trusting (some forwarder)) receivingDomain domain ⟨qualifier, .included spec⟩ true

/-- Two checks, one without the forwarder and one with it, have come to points of the evaluation of
one domain. -/
structure Meets (given : Situation) (forwarder : String) (receivingDomain : Option String)
    (allowance : Nat) (standing₀ : Standing) (k₀ : Knowledge) (frames₀ : List Frame)
    (standing : Standing) (k : Knowledge) (frames : List Frame) : Prop where
  without : Runs (given.trusting none) receivingDomain allowance standing₀ k₀ frames₀
  trusting : Runs (given.trusting (some forwarder)) receivingDomain allowance standing k frames
  domain : standing.domain = standing₀.domain

variable {allowance : Nat} {standing₀ standing last₀ last : Standing} {below₀ below : List Frame}
  {purpose : Purpose} {template text₀ text : String} {d : Directive}

theorem ofLetter_valuesOf (client : k₀.clientDomain = none ∨ k.clientDomain = k₀.clientDomain)
    (letter : Char) :
    (valuesOf given.identity domain k₀).ofLetter given.ctx.localNames .domain letter =
        .error .clientDomainUnknown ∨
      (valuesOf given.identity domain k).ofLetter given.ctx.localNames .domain letter =
        (valuesOf given.identity domain k₀).ofLetter given.ctx.localNames .domain letter := by
  simp only [Macro.Values.ofLetter, valuesOf]
  rcases client with hc | hc
  · simp only [hc]
    split <;> simp_all
  · simp only [hc]
    refine .inr ?_
    split <;> simp_all

/-- A template comes to one text at most if the client's name is not known in two ways. -/
theorem attempt_unique
    (agree : ∀ name₀ name, k₀.clientDomain = some name₀ → k.clientDomain = some name → name = name₀)
    (h₀ : attempt given .domain domain template k₀ = .ok text₀)
    (h : attempt given .domain domain template k = .ok text) : text = text₀ := by
  have later {k₀ k : Knowledge} {text₀ text : String}
      (client : k₀.clientDomain = none ∨ k.clientDomain = k₀.clientDomain)
      (h₀ : attempt given .domain domain template k₀ = .ok text₀)
      (h : attempt given .domain domain template k = .ok text) : text = text₀ := by
    have same := Macro.expand_eq_of_ofLetter (ofLetter_valuesOf client)
      (fun unknown => by rw [attempt, unknown] at h₀; cases h₀)
    exact Except.ok.inj (h.symm.trans (same.trans h₀))
  cases hc₀ : k₀.clientDomain with
  | none => exact later (.inl hc₀) h₀ h
  | some name₀ =>
    cases hc : k.clientDomain with
    | none => exact (later (.inl hc) h h₀).symm
    | some name =>
      cases agree name₀ name hc₀ hc
      exact later (.inr (hc.trans hc₀.symm)) h₀ h

theorem exchangesMatch_trusting (forwarder : Option String) (lengths : CidrLengths)
    (hosts : List String) :
    exchangesMatch (given.trusting forwarder) lengths hosts =
      exchangesMatch given lengths hosts := by
  induction hosts with
  | nil => rfl
  | cons host rest ih =>
    rw [exchangesMatch, exchangesMatch, ih]
    rfl

theorem namesMatch_trusting (forwarder : Option String) (names : List String) :
    namesMatch (given.trusting forwarder) names = namesMatch given names := by
  induction names with
  | nil => rfl
  | cons name rest ih =>
    rw [namesMatch, namesMatch, ih]
    rfl

theorem Enters.text_eq
    (h₀ : Enters (given.trusting none) receivingDomain allowance standing₀ purpose template text₀ k₀
      below₀)
    (h : Enters (given.trusting (some forwarder)) receivingDomain allowance standing purpose template
      text k below)
    (domain : standing.domain = standing₀.domain) : text = text₀ := by
  have named : attempt given .domain standing₀.domain template k = .ok text := domain ▸ h.named
  exact attempt_unique
    (fun name₀ name known₀ known => (h.known name known).unique (h₀.known name₀ known₀))
    h₀.named named

/-- A directive whose mechanism looks something up is counted, and its template put to use. -/
theorem Runs.enteredDirective {tail : String → Eval Bool} {b : Bool} (hp : purpose.site = .domain)
    (h : Runs given receivingDomain (allowance + 1) standing k (.directive d :: below))
    (hv : standing.verdict = none)
    (looks : ∀ s : State, s.domain = standing.domain → mechanismStep given.ctx s d.mechanism =
      s.counted (expandTo given.ctx purpose template))
    (entered : resultOf k (count >>= fun _ => target given standing.domain template >>= tail) =
      (.ok b, k')) :
    ∃ text k₁, Enters given receivingDomain allowance standing purpose template text k₁
      (.commitment d.qualifier :: below) ∧ resultOf k₁ (tail text) = (.ok b, k') := by
  change ∃ text k₁, Enters given receivingDomain allowance standing purpose template text k₁
    ([.commitment d.qualifier] ++ below) ∧ resultOf k₁ (tail text) = (.ok b, k')
  refine h.entered hp (fun matched => ⟨none, ?_⟩) entered
  have looked := looks (standing.state given .nothing none k) rfl
  rw [check_directive hv, ← looked]
  rfl

/-- A check finds of a directive what direct evaluation comes to. -/
theorem Runs.finds {b : Bool}
    (h : Runs given receivingDomain (allowance + 1) standing k (.directive d :: below))
    (hv : standing.verdict = none)
    (hx : resultOf k (mechanismMatches given (evaluate given allowance) standing.domain
      d.mechanism) = (.ok b, k')) : Finds given receivingDomain standing.domain d b := by
  have evaluates := h.evaluates
  obtain ⟨⟨matched, visited⟩, -⟩ := h
  have tried : Visits given
      ⟨.proceed, standing.state given .nothing matched k, .directive d :: below⟩
      ((mechanismStep given.ctx (standing.state given .nothing none k) d.mechanism).above
        (.commitment d.qualifier :: below)) :=
    (Visits.refl given _).step (step_directive below hv)
  obtain ⟨s, rfl, -, found⟩ := (@follows_mechanism _ _ standing _ _ _ rfl hv evaluates
    d.mechanism).visits hx (by rintro _ rfl; rfl) tried
  exact ⟨_, _, below, visited, rfl, hv, found, rfl⟩

/-- A mechanism that looks names up, but evaluates no policy, matches the same in both checks. -/
theorem Meets.looks {b₀ b : Bool}
    (h : Meets given forwarder receivingDomain (allowance + 1) standing₀ k₀ (.directive d :: below₀)
      standing k (.directive d :: below)) (spec : Option String) (tail : String → Eval Bool)
    (hv₀ : standing₀.verdict = none) (hv : standing.verdict = none) (hp : purpose.site = .domain)
    (looks : ∀ ctx s, mechanismStep ctx s d.mechanism =
      State.counted s (expandTo ctx purpose (spec.getD s.domain)))
    (steady : ∀ text, Steady (tail text))
    (h₀ : resultOf k₀ (count >>= fun _ => target (given.trusting none) standing₀.domain
      (spec.getD standing₀.domain) >>= tail) = (.ok b₀, k₀'))
    (h₁ : resultOf k (count >>= fun _ => target (given.trusting (some forwarder)) standing.domain
      (spec.getD standing.domain) >>= tail) = (.ok b, k')) : b = b₀ := by
  obtain ⟨text₀, l₀, entered₀, h₀⟩ := h.without.enteredDirective hp hv₀
    (fun s hs => hs ▸ looks _ s) h₀
  obtain ⟨text, l, entered, h₁⟩ := h.trusting.enteredDirective hp hv (fun s hs => hs ▸ looks _ s) h₁
  rw [h.domain] at entered
  obtain rfl := entered₀.text_eq entered h.domain
  obtain ⟨l', h₀⟩ := (steady text).elsewhere h₀ l
  rw [h₀] at h₁
  cases h₁
  rfl

/-! ## Policies that terms refer to -/

/-- The evaluation of a domain with the forwarder comes to a pass, or to what it comes to without
the forwarder, unless a directive excludes. -/
def Compares (given : Situation) (forwarder : String) (receivingDomain : Option String)
    (allowance : Nat) : Prop :=
  ∀ {standing₀ standing last₀ last : Standing} {k₀ k k₀' k' : Knowledge} {below₀ below : List Frame},
    Meets given forwarder receivingDomain allowance standing₀ k₀ (.evaluation :: below₀) standing k
      (.evaluation :: below) →
    standing₀.verdict = none → standing.verdict = none →
    resultOf k₀ (evaluate (given.trusting none) allowance standing₀) = (.ok last₀, k₀') →
    resultOf k (evaluate (given.trusting (some forwarder)) allowance standing) = (.ok last, k') →
    Excluded given forwarder receivingDomain ∨
      Favors (some last₀.decided) (some last.decided)

theorem decided_eq_pass : standing.decided = .pass ↔ standing.verdict = some .pass := by
  unfold Standing.decided
  cases standing.verdict <;> simp

theorem resultOf_of_onBehalf {refer : Error → Error} {x : Eval Standing}
    (h : resultOf k (onBehalf refer x) = (.ok last, k')) : resultOf k x = (.ok last, k') := by
  rw [resultOf_onBehalf] at h
  split at h
  · cases h
    assumption
  · cases h

/-- An included policy is evaluated above the frame that puts back what the inclusion sets aside. -/
theorem Enters.included {template text : String} {frames : List Frame}
    (h : Enters given receivingDomain allowance standing .inclusion template text k frames) :
    Runs given receivingDomain allowance ⟨text, none, none, true⟩ k (.evaluation ::
      .restoration standing.domain standing.explanation standing.isMuted :: frames) :=
  ⟨h.visited, h.bounded, h.allowed⟩

/-- The target of a redirection is evaluated above what the redirecting record has left. -/
theorem Enters.redirected {template text : String} {frames : List Frame}
    (h : Enters given receivingDomain allowance standing .redirection template text k frames) :
    Runs given receivingDomain allowance { standing with domain := text } k
      (.evaluation :: .arrival :: frames) :=
  ⟨h.visited, h.bounded, h.allowed⟩

/-- An inclusion matches as it does without the forwarder, or it matches and passes the client. -/
theorem Meets.includes {qualifier : Qualifier} {spec : String} {b₀ b : Bool}
    (compares : Compares given forwarder receivingDomain allowance)
    (h : Meets given forwarder receivingDomain (allowance + 1) standing₀ k₀
      (.directive ⟨qualifier, .included spec⟩ :: below₀) standing k
      (.directive ⟨qualifier, .included spec⟩ :: below))
    (hv₀ : standing₀.verdict = none) (hv : standing.verdict = none)
    (h₀ : resultOf k₀ (mechanismMatches (given.trusting none)
      (evaluate (given.trusting none) allowance) standing₀.domain (.included spec)) = (.ok b₀, k₀'))
    (h₁ : resultOf k (mechanismMatches (given.trusting (some forwarder))
      (evaluate (given.trusting (some forwarder)) allowance) standing.domain (.included spec)) =
        (.ok b, k')) :
    Excluded given forwarder receivingDomain ∨ b = b₀ ∨
      b = true ∧ qualifier = .pass := by
  have found₀ := h.without.finds hv₀ h₀
  have found := h.trusting.finds hv h₁
  rw [h.domain] at found
  obtain ⟨text₀, l₀, entered₀, h₀⟩ := h.without.enteredDirective rfl hv₀ (fun _ _ => rfl) h₀
  obtain ⟨text, l, entered, h₁⟩ := h.trusting.enteredDirective rfl hv (fun _ _ => rfl) h₁
  obtain rfl := entered₀.text_eq entered h.domain
  obtain ⟨last₀, l₀', evaluated₀, h₀⟩ := resultOf_bind_eq_ok h₀
  obtain ⟨last, l', evaluated, h₁⟩ := resultOf_bind_eq_ok h₁
  cases h₀
  cases h₁
  rcases compares ⟨entered₀.included, entered.included, rfl⟩ rfl rfl
    (resultOf_of_onBehalf evaluated₀) (resultOf_of_onBehalf evaluated) with excluded | passes | same
  · exact .inl excluded
  · -- the included policy passes the client, so the directive matches with the forwarder
    have passes : last.verdict = some .pass := decided_eq_pass.mp (Option.some.inj passes)
    by_cases hq : qualifier = .pass
    · exact .inr (.inr ⟨decide_eq_true passes, hq⟩)
    · by_cases passes₀ : last₀.verdict = some .pass
      · exact .inr (.inl (by rw [passes, passes₀]))
      · rw [decide_eq_false passes₀] at found₀
        rw [decide_eq_true passes] at found
        exact .inl ⟨_, qualifier, spec, hq, found₀, found⟩
  · refine .inr (.inl ?_)
    rw [decide_eq_decide, ← decided_eq_pass, ← decided_eq_pass, Option.some.inj same]

/-! ## The directives of a record -/

/-- A mechanism matches as it does without the forwarder, or it matches and passes the client. -/
theorem Meets.matches {b₀ b : Bool}
    (compares : Compares given forwarder receivingDomain allowance)
    (h : Meets given forwarder receivingDomain (allowance + 1) standing₀ k₀ (.directive d :: below₀)
      standing k (.directive d :: below))
    (hv₀ : standing₀.verdict = none) (hv : standing.verdict = none)
    (h₀ : resultOf k₀ (mechanismMatches (given.trusting none)
      (evaluate (given.trusting none) allowance) standing₀.domain d.mechanism) = (.ok b₀, k₀'))
    (h₁ : resultOf k (mechanismMatches (given.trusting (some forwarder))
      (evaluate (given.trusting (some forwarder)) allowance) standing.domain d.mechanism) =
        (.ok b, k')) :
    Excluded given forwarder receivingDomain ∨ b = b₀ ∨
      b = true ∧ d.qualifier = .pass := by
  obtain ⟨qualifier, mechanism⟩ := d
  cases mechanism with
  | all =>
    cases h₀
    cases h₁
    exact .inr (.inl rfl)
  | network4 net =>
    simp only [mechanismMatches, Situation.trusting] at h₀ h₁
    split at h₀ <;> simp_all [resultOf_pure]
  | network6 net =>
    simp only [mechanismMatches, Situation.trusting] at h₀ h₁
    split at h₀ <;> simp_all [resultOf_pure]
  | address spec lengths =>
    exact .inr (.inl (h.looks spec _ hv₀ hv rfl (fun _ _ => rfl)
      (fun _ => (steady_askRecords _ _).bind fun _ => .pure _) h₀ h₁))
  | exchange spec lengths =>
    simp only [mechanismMatches, exchangesMatch_trusting] at h₀ h₁
    exact .inr (.inl (h.looks spec _ hv₀ hv rfl (fun _ _ => rfl)
      (fun _ => (steady_askRecords _ _).bind fun _ => steady_exchangesMatch _ _) h₀ h₁))
  | pointer spec =>
    simp only [mechanismMatches, namesMatch_trusting] at h₀ h₁
    exact .inr (.inl (h.looks spec _ hv₀ hv rfl (fun _ _ => rfl)
      (fun _ => (steady_askNames _ _).bind fun _ => steady_namesMatch _) h₀ h₁))
  | existing spec =>
    exact .inr (.inl (h.looks (some spec) _ hv₀ hv rfl (fun _ _ => rfl)
      (fun _ => (steady_askRecords _ _).bind fun _ => .pure _) h₀ h₁))
  | included spec => exact h.includes compares hv₀ hv h₀ h₁

/-- A directive that has been tried: it is passed over, or its qualifier is committed on a match. -/
theorem tryDirective_eq_ok {evaluate : Standing → Eval Standing}
    (h : resultOf k (tryDirective given evaluate standing d) = (.ok last, k')) :
    standing.verdict.isSome ∧ last = standing ∨ standing.verdict = none ∧ ∃ b,
      resultOf k (mechanismMatches given evaluate standing.domain d.mechanism) = (.ok b, k') ∧
        last = if b then { standing with verdict := some d.qualifier } else standing := by
  unfold tryDirective at h
  split at h
  · rename_i decided
    cases h
    exact .inl ⟨decided, rfl⟩
  · rename_i undecided
    obtain ⟨b, l, matched, h⟩ := resultOf_bind_eq_ok h
    refine .inr ⟨by simpa using undecided, b, ?_⟩
    cases b <;> cases h <;> exact ⟨matched, rfl⟩

theorem domain_of_tryDirective {evaluate : Standing → Eval Standing}
    (h : resultOf k (tryDirective given evaluate standing d) = (.ok last, k')) :
    last.domain = standing.domain := by
  rcases tryDirective_eq_ok h with ⟨-, rfl⟩ | ⟨-, b, -, rfl⟩
  · rfl
  · cases b <;> rfl

/-- A directive that has been tried in both checks. -/
theorem Meets.tried (compares : Compares given forwarder receivingDomain allowance)
    (h : Meets given forwarder receivingDomain (allowance + 1) standing₀ k₀ (.directive d :: below₀)
      standing k (.directive d :: below))
    (favors : Favors standing₀.verdict standing.verdict)
    (h₀ : resultOf k₀ (tryDirective (given.trusting none) (evaluate (given.trusting none) allowance)
      standing₀ d) = (.ok last₀, k₀'))
    (h₁ : resultOf k (tryDirective (given.trusting (some forwarder))
      (evaluate (given.trusting (some forwarder)) allowance) standing d) = (.ok last, k')) :
    Excluded given forwarder receivingDomain ∨
      Meets given forwarder receivingDomain (allowance + 1) last₀ k₀' below₀ last k' below ∧
        Favors last₀.verdict last.verdict := by
  have meets :
      Meets given forwarder receivingDomain (allowance + 1) last₀ k₀' below₀ last k' below :=
    ⟨h.without.tried h₀, h.trusting.tried h₁,
      (domain_of_tryDirective h₁).trans (h.domain.trans (domain_of_tryDirective h₀).symm)⟩
  rcases tryDirective_eq_ok h₁ with ⟨decided, rfl⟩ | ⟨undecided, b, matched, rfl⟩
  · refine .inr ⟨meets, ?_⟩
    rcases favors with passes | same
    · exact .inl passes
    · rcases tryDirective_eq_ok h₀ with ⟨-, rfl⟩ | ⟨hv₀, -⟩
      · exact .inr same
      · rw [same, hv₀] at decided
        cases decided
  · have hv₀ : standing₀.verdict = none := by
      rcases favors with passes | same
      · rw [undecided] at passes
        cases passes
      · exact same.symm.trans undecided
    rcases tryDirective_eq_ok h₀ with ⟨decided, -⟩ | ⟨-, b₀, matched₀, rfl⟩
    · rw [hv₀] at decided
      cases decided
    · refine (h.matches compares hv₀ undecided matched₀ matched).imp_right fun agree => ⟨meets, ?_⟩
      rcases agree with rfl | ⟨rfl, hq⟩
      · cases b
        · exact favors
        · exact .inr rfl
      · exact .inl (congrArg some hq)

/-- Directives that have been tried in both checks, one after the other. -/
theorem Meets.triedAll (compares : Compares given forwarder receivingDomain allowance)
    (ds : List Directive)
    (h : Meets given forwarder receivingDomain (allowance + 1) standing₀ k₀
      (ds.map .directive ++ below₀) standing k (ds.map .directive ++ below))
    (favors : Favors standing₀.verdict standing.verdict)
    (h₀ : resultOf k₀ (ds.foldlM (tryDirective (given.trusting none)
      (evaluate (given.trusting none) allowance)) standing₀) = (.ok last₀, k₀'))
    (h₁ : resultOf k (ds.foldlM (tryDirective (given.trusting (some forwarder))
      (evaluate (given.trusting (some forwarder)) allowance)) standing) = (.ok last, k')) :
    Excluded given forwarder receivingDomain ∨
      Meets given forwarder receivingDomain (allowance + 1) last₀ k₀' below₀ last k' below ∧
        Favors last₀.verdict last.verdict := by
  induction ds generalizing standing₀ standing k₀ k with
  | nil =>
    cases h₀
    cases h₁
    exact .inr ⟨h, favors⟩
  | cons d ds ih =>
    rw [List.foldlM_cons] at h₀ h₁
    obtain ⟨next₀, l₀, tried₀, h₀⟩ := resultOf_bind_eq_ok h₀
    obtain ⟨next, l, tried, h₁⟩ := resultOf_bind_eq_ok h₁
    rcases h.tried compares favors tried₀ tried with excluded | ⟨meets, favors⟩
    · exact .inl excluded
    · exact ih meets favors h₀ h₁

/-- Directives that pass the clients they match. -/
theorem Runs.permitted {added : List Directive}
    (h : Runs given receivingDomain (allowance + 1) standing k (added.map .directive ++ below))
    (passing : ∀ d ∈ added, d.qualifier = .pass)
    (hx : resultOf k (added.foldlM (tryDirective given (evaluate given allowance)) standing) =
      (.ok last, k')) :
    Runs given receivingDomain (allowance + 1) last k' below ∧ last.domain = standing.domain ∧
      Favors standing.verdict last.verdict := by
  induction added generalizing standing k with
  | nil =>
    cases hx
    exact ⟨h, rfl, .inr rfl⟩
  | cons d added ih =>
    rw [List.forall_mem_cons] at passing
    rw [List.foldlM_cons] at hx
    obtain ⟨next, l, tried, hx⟩ := resultOf_bind_eq_ok hx
    obtain ⟨runs, domain, favors⟩ := ih (h.tried tried) passing.2 hx
    refine ⟨runs, domain.trans (domain_of_tryDirective tried), ?_⟩
    rcases favors with passes | same
    · exact .inl passes
    · rcases tryDirective_eq_ok tried with ⟨-, rfl⟩ | ⟨-, b, -, rfl⟩
      · exact .inr same
      · cases b
        · exact .inr same
        · exact .inl (same.trans (congrArg some passing.1))

/-- The directives of a record, and those of the record that permits the forwarder. -/
theorem Meets.directives {record₀ record : Record}
    (compares : Compares given forwarder receivingDomain allowance)
    (amends : Amends forwarder record₀ record)
    (h : Meets given forwarder receivingDomain (allowance + 1) standing₀ k₀
      (record₀.directives.map .directive ++ below₀) standing k
      (record.directives.map .directive ++ below))
    (favors : Favors standing₀.verdict standing.verdict)
    (h₀ : resultOf k₀ (record₀.directives.foldlM (tryDirective (given.trusting none)
      (evaluate (given.trusting none) allowance)) standing₀) = (.ok last₀, k₀'))
    (h₁ : resultOf k (record.directives.foldlM (tryDirective (given.trusting (some forwarder))
      (evaluate (given.trusting (some forwarder)) allowance)) standing) = (.ok last, k')) :
    Excluded given forwarder receivingDomain ∨
      Meets given forwarder receivingDomain (allowance + 1) last₀ k₀' below₀ last k' below ∧
        Favors last₀.verdict last.verdict := by
  obtain ⟨front, added, back, hd₀, hd, permit⟩ := amends.directives
  rw [hd₀, hd] at h
  rw [hd₀, List.foldlM_append] at h₀
  rw [hd, List.foldlM_append] at h₁
  simp only [List.map_append, List.append_assoc] at h
  obtain ⟨mid₀, l₀, fronted₀, h₀⟩ := resultOf_bind_eq_ok h₀
  obtain ⟨mid, l, fronted, h₁⟩ := resultOf_bind_eq_ok h₁
  rw [List.foldlM_append] at h₁
  obtain ⟨next, l', permitted, h₁⟩ := resultOf_bind_eq_ok h₁
  rcases h.triedAll compares front favors fronted₀ fronted with excluded | ⟨meets, favors⟩
  · exact .inl excluded
  · -- the directive of the forwarder is tried in one of the checks only
    obtain ⟨runs, domain, permits⟩ := meets.trusting.permitted
      (fun d hd => congrArg Directive.qualifier (permit d hd)) permitted
    refine Meets.triedAll compares back ⟨meets.without, runs, domain.trans meets.domain⟩ ?_ h₀ h₁
    rcases permits with passes | same
    · exact .inl passes
    · exact same ▸ favors

/-! ## What follows the directives -/

/-- Behind a redirection the record does not redirect again. -/
theorem Runs.spent {spec : String} {ms : List Modifier}
    (h : Runs given receivingDomain allowance standing k
      (.modifier (.redirect spec) :: (ms.map .modifier ++ below))) :
    ∀ m ∈ ms, (Frame.modifier m).isSpent := by
  obtain ⟨⟨matched, exchanges, course, -⟩, -⟩ := h
  obtain ⟨terms, reached⟩ := course.reaches .refl
  have own : ∀ f ∈ ms.map Frame.modifier, f.isBoundary → f = .arrival :=
    List.forall_mem_map.mpr fun _ _ boundary => by cases boundary
  exact List.forall_mem_map.mp ((reached.handedOver.1 rfl).spent own)

/-- A redirection is counted, and its template put to use. -/
theorem Runs.enteredRedirect {spec : String} {tail : String → Eval Standing}
    (h : Runs given receivingDomain (allowance + 1) standing k
      (.modifier (.redirect spec) :: below))
    (hv : standing.verdict = none)
    (entered : resultOf k (count >>= fun _ => target given standing.domain spec >>= tail) =
      (.ok last, k')) :
    ∃ text k₁, Enters given receivingDomain allowance standing .redirection spec text k₁ below ∧
      resultOf k₁ (tail text) = (.ok last, k') := by
  change ∃ text k₁, Enters given receivingDomain allowance standing .redirection spec text k₁
    ([] ++ below) ∧ resultOf k₁ (tail text) = (.ok last, k')
  refine h.entered (show Purpose.redirection.site = .domain from rfl)
    (fun matched => ⟨matched, ?_⟩) entered
  have undecided : ¬(standing.state given .nothing matched k).verdict.isSome = true := by simp [hv]
  simp only [Frame.check, modifierStep, if_neg undecided, List.append_nil]

/-- Modifiers keep a verdict, and those that do not redirect decide nothing. -/
theorem verdict_of_followed {evaluate : Standing → Eval Standing} {ms : List Modifier}
    (h : ∀ m ∈ ms, standing.verdict.isSome ∨ (Frame.modifier m).isSpent)
    (hx : resultOf k (ms.foldlM (followModifier given evaluate) standing) = (.ok last, k')) :
    last.verdict = standing.verdict :=
  Yields.foldlM (P := fun next => next.verdict = standing.verdict) ms
    (fun m hm _ same => fun _ _ _ hx =>
      (yields_followModifier (same ▸ h m hm) hx).trans same) rfl hx

/-- The modifiers of a record that has decided nothing, in both checks. -/
theorem Meets.followed (compares : Compares given forwarder receivingDomain allowance)
    (ms : List Modifier)
    (h : Meets given forwarder receivingDomain (allowance + 1) standing₀ k₀
      (ms.map .modifier ++ below₀) standing k (ms.map .modifier ++ below))
    (hv₀ : standing₀.verdict = none) (hv : standing.verdict = none)
    (h₀ : resultOf k₀ (ms.foldlM (followModifier (given.trusting none)
      (evaluate (given.trusting none) allowance)) standing₀) = (.ok last₀, k₀'))
    (h₁ : resultOf k (ms.foldlM (followModifier (given.trusting (some forwarder))
      (evaluate (given.trusting (some forwarder)) allowance)) standing) = (.ok last, k')) :
    Excluded given forwarder receivingDomain ∨
      Favors (some last₀.decided) (some last.decided) := by
  -- on the modifiers, up to the redirection; behind it none redirects again
  induction ms generalizing k₀ k with
  | nil =>
    cases h₀
    cases h₁
    exact .inr (.inr (by rw [Standing.decided, Standing.decided, hv₀, hv]))
  | cons m ms ih =>
    rw [List.foldlM_cons] at h₀ h₁
    obtain ⟨next₀, l₀, followed₀, h₀⟩ := resultOf_bind_eq_ok h₀
    obtain ⟨next, l, followed, h₁⟩ := resultOf_bind_eq_ok h₁
    -- a modifier that does not redirect has nothing to do yet
    have passedOver (idle₀ : next₀ = standing₀) (idle : next = standing) :
        Excluded given forwarder receivingDomain ∨
          Favors (some last₀.decided) (some last.decided) := by
      have runs₀ := h.without.followed followed₀
      have runs := h.trusting.followed followed
      rw [idle₀] at runs₀ h₀
      rw [idle] at runs h₁
      exact ih ⟨runs₀, runs, h.domain⟩ h₀ h₁
    cases m with
    | unknown name value =>
      cases followed₀
      cases followed
      exact passedOver rfl rfl
    | explanation spec =>
      simp only [followModifier, hv₀, hv, reduceCtorEq, false_and, if_false] at followed₀ followed
      cases followed₀
      cases followed
      exact passedOver rfl rfl
    | redirect spec =>
      have undecided₀ : ¬standing₀.verdict.isSome = true := by simp [hv₀]
      have undecided : ¬standing.verdict.isSome = true := by simp [hv]
      simp only [followModifier, if_neg undecided₀] at followed₀
      simp only [followModifier, if_neg undecided] at followed
      obtain ⟨text₀, i₀, entered₀, followed₀⟩ := h.without.enteredRedirect hv₀ followed₀
      obtain ⟨text, i, entered, followed⟩ := h.trusting.enteredRedirect hv followed
      obtain rfl := entered₀.text_eq entered h.domain
      obtain ⟨target₀, j₀, evaluated₀, followed₀⟩ := resultOf_bind_eq_ok followed₀
      obtain ⟨target, j, evaluated, followed⟩ := resultOf_bind_eq_ok followed
      cases followed₀
      cases followed
      refine (compares ⟨entered₀.redirected, entered.redirected, rfl⟩ hv₀ hv
        (resultOf_of_onBehalf evaluated₀) (resultOf_of_onBehalf evaluated)).imp_right fun favors => ?_
      -- what is left keeps what the target has decided
      have spent : ∀ m ∈ ms, (Frame.modifier m).isSpent := h.trusting.spent
      have kept₀ := verdict_of_followed (fun m hm => .inr (spent m hm)) h₀
      have kept := verdict_of_followed (fun m hm => .inr (spent m hm)) h₁
      unfold Standing.decided
      rwa [kept₀, kept]

theorem decided_of_decorations (decorations : List Decoration)
    (hx : resultOf k (decorations.foldlM (followDecoration given) standing) = (.ok last, k')) :
    last.decided = standing.decided :=
  Yields.foldlM (P := fun next => next.decided = standing.decided) decorations
    (fun d _ _ same => fun _ _ _ hx => (yields_followDecoration d hx).trans same) rfl hx

/-- The evaluation of a domain, with the forwarder and without it. -/
theorem compares (given : Situation) (forwarder : String) (receivingDomain : Option String)
    (allowance : Nat) : Compares given forwarder receivingDomain allowance := by
  -- on the allowance, which is lower where a term refers to another domain
  induction allowance with
  | zero =>
    intro _ _ _ _ _ _ _ _ _ _ _ _ _ h₀ _
    cases h₀
  | succ allowance ih =>
    intro standing₀ standing last₀ last k₀ k k₀' k' below₀ below h hv₀ hv h₀ h₁
    rw [evaluate] at h₀ h₁
    obtain ⟨record₀, l₀, acquired₀, h₀⟩ := resultOf_bind_eq_ok h₀
    obtain ⟨record, l, acquired, h₁⟩ := resultOf_bind_eq_ok h₁
    have opened₀ := h.without.opened acquired₀
    have opened := h.trusting.opened acquired
    obtain ⟨record', l', acquired', amends⟩ := @acquire_permits _ forwarder _ _ _ _ acquired₀ k
    rw [h.domain, acquired'] at acquired
    cases acquired
    simp only [framesOf, List.append_assoc] at opened₀ opened
    obtain ⟨mid₀, i₀, tried₀, h₀⟩ := resultOf_bind_eq_ok h₀
    obtain ⟨mid, i, tried, h₁⟩ := resultOf_bind_eq_ok h₁
    obtain ⟨next₀, j₀, followed₀, decorated₀⟩ := resultOf_bind_eq_ok h₀
    obtain ⟨next, j, followed, decorated⟩ := resultOf_bind_eq_ok h₁
    rw [decided_of_decorations _ decorated₀, decided_of_decorations _ decorated]
    have begun : Meets given forwarder receivingDomain (allowance + 1) standing₀ l₀ _ standing l _ :=
      ⟨opened₀, opened, h.domain⟩
    rcases begun.directives ih amends (.inr (hv.trans hv₀.symm)) tried₀ tried with
      excluded | ⟨meets, favors⟩
    · exact .inl excluded
    rw [amends.modifiers] at meets followed
    cases decided : mid.verdict with
    | some qualifier =>
      have kept : next.verdict = some qualifier :=
        (verdict_of_followed (fun _ _ => .inl (by rw [decided]; rfl)) followed).trans decided
      refine .inr ?_
      rcases favors with passes | same
      · exact .inl (congrArg some (decided_eq_pass.mpr (kept.trans (decided.symm.trans passes))))
      · have decided₀ : mid₀.verdict = some qualifier := same.symm.trans decided
        have kept₀ : next₀.verdict = some qualifier :=
          (verdict_of_followed (fun _ _ => .inl (by rw [decided₀]; rfl)) followed₀).trans decided₀
        exact .inr (by rw [Standing.decided, Standing.decided, kept, kept₀])
    | none =>
      have undecided₀ : mid₀.verdict = none := by
        rcases favors with passes | same
        · rw [decided] at passes
          cases passes
        · exact same.symm.trans decided
      exact meets.followed ih _ undecided₀ decided followed₀ followed

/-! ## Whole checks -/

/-- The lookups and the result of a check are those of direct evaluation. -/
theorem check_eq_evaluateSender {ctx : Context} {service : Dns.Service} {timestamp : Int}
    {inquiry : Inquiry} {identity : Identity} (begun : inquiry.begin timestamp = .ok identity) :
    let run := resultOf (.initial inquiry.receivingDomain) (evaluateSender ⟨ctx, service, identity⟩)
    (check ctx service .blocking timestamp inquiry).1 = run.2.requests ∧
      (check ctx service .blocking timestamp inquiry).2.result = (conclude run.1).1 := by
  obtain ⟨ended, known, final, hx, finished, concluded, -⟩ :=
    finish_follows ⟨ctx, service, identity⟩ inquiry.receivingDomain (Nat.lt_succ_self maxTerms)
  have hx : resultOf (.initial inquiry.receivingDomain)
    (evaluateSender ⟨ctx, service, identity⟩) = (ended, known) := hx
  dsimp only
  rw [check_blocking begun, finished, outcomeOf, Outcome.ofResult, concluded, hx]
  exact ⟨rfl, rfl⟩

/-- The sender's domain has a record if its evaluation comes to something. -/
theorem acquired_of_evaluateSender (h : resultOf k (evaluateSender given) = (.ok last, k')) :
    ∃ record l, resultOf k (acquire given given.identity.senderDomain) = (.ok record, l) := by
  rw [evaluateSender, evaluate] at h
  obtain ⟨record, l, acquired, -⟩ := resultOf_bind_eq_ok h
  exact ⟨record, l, acquired⟩

/-- Once the record of the sender's domain is opened, whatever is missing is missing from the policy
of another domain. -/
theorem result_ne_none_of_acquired {record : Record}
    (acquired : resultOf (.initial receivingDomain) (acquire given given.identity.senderDomain) =
      (.ok record, k')) :
    (conclude (resultOf (.initial receivingDomain) (evaluateSender given)).1).1 ≠ .none := by
  obtain ⟨ended, known, final, hx, finished, concluded, -⟩ :=
    finish_follows given receivingDomain (Nat.lt_succ_self maxTerms)
  have hx : resultOf (.initial receivingDomain) (evaluateSender given) = (ended, known) := hx
  have begun := Runs.begin given receivingDomain (Nat.lt_succ_self maxTerms)
  obtain ⟨⟨matched, exchanges, course, answered⟩, -⟩ := begun.opened acquired
  obtain ⟨behind, completes, -⟩ := completes_finish given.ctx given.service _
  have provided := completes.result_ne_none (course.orderly (.begin given.identity receivingDomain))
    (.of_framesOf _ record)
  rw [course.finish_eq answered] at finished
  rw [congrArg Prod.snd finished, concluded] at provided
  rw [hx]
  exact fun h => provided (congrArg some h)

theorem conclude_eq_pass (ended : Except Error Standing) :
    (conclude ended).1 = .pass ↔ ∃ last, ended = .ok last ∧ last.decided = .pass := by
  cases ended with
  | error cause =>
    rcases result_of_cause cause with hc | hc | hc <;> simp [conclude, hc]
  | ok last =>
    simp only [conclude, Except.ok.injEq, exists_eq_left', Standing.decided]
    cases last.verdict with
    | none => simp
    | some qualifier => cases qualifier <;> simp [Qualifier.result]

/-- The evaluation of the sender's domain passes with the forwarder if it passes without, unless it
ends with an error or a directive excludes. -/
theorem conclude_permits (given : Situation) (forwarder : String) (receivingDomain : Option String)
    (passes : (conclude (resultOf (.initial receivingDomain)
      (evaluateSender (given.trusting none))).1).1 = .pass)
    (temporary : (conclude (resultOf (.initial receivingDomain)
      (evaluateSender (given.trusting (some forwarder)))).1).1 ≠ .tempError)
    (permanent : (conclude (resultOf (.initial receivingDomain)
      (evaluateSender (given.trusting (some forwarder)))).1).1 ≠ .permError) :
    (conclude (resultOf (.initial receivingDomain)
        (evaluateSender (given.trusting (some forwarder)))).1).1 = .pass ∨
      Excluded given forwarder receivingDomain := by
  obtain ⟨last₀, hx₀, passed⟩ := (conclude_eq_pass _).mp passes
  have h₀ : resultOf _ (evaluateSender (given.trusting none)) = (.ok last₀, _) := Prod.ext hx₀ rfl
  generalize h₁ : resultOf (.initial receivingDomain)
    (evaluateSender (given.trusting (some forwarder))) = run at temporary permanent ⊢
  obtain ⟨ended, known⟩ := run
  cases ended with
  | error cause =>
    obtain ⟨record₀, l₀, acquired₀⟩ := acquired_of_evaluateSender h₀
    obtain ⟨record, l, acquired, -⟩ := @acquire_permits _ forwarder _ _ _ _ acquired₀ (.initial _)
    have provided := result_ne_none_of_acquired acquired
    rw [h₁] at provided
    rcases result_of_cause cause with hc | hc | hc
    · exact absurd hc provided
    · exact absurd hc temporary
    · exact absurd hc permanent
  | ok last =>
    have meets : Meets given forwarder receivingDomain (maxTerms + 1)
        (.ofSender given.identity) (.initial _) [.evaluation, .conclusion]
        (.ofSender given.identity) (.initial _) [.evaluation, .conclusion] :=
      ⟨.begin _ _ (Nat.lt_succ_self maxTerms), .begin _ _ (Nat.lt_succ_self maxTerms), rfl⟩
    rw [evaluateSender] at h₀ h₁
    rcases compares given forwarder receivingDomain _ meets rfl rfl h₀ h₁ with excluded | favors
    · exact .inr excluded
    · refine .inl ((conclude_eq_pass _).mpr ⟨last, rfl, ?_⟩)
      rcases favors with same | same
      · exact Option.some.inj same
      · exact (Option.some.inj same).trans passed

end Direct

open Direct

/-- The check of an inquiry tries a directive of the record of a domain, and finds that it matches,
or that it does not. -/
def CheckFinds (ctx : Context) (service : Dns.Service) (timestamp : Int) (inquiry : Inquiry)
    (domain : String) (d : Directive) (isMatch : Bool) : Prop :=
  ∃ identity, inquiry.begin timestamp = .ok identity ∧
    Finds ⟨ctx, service, identity⟩ inquiry.receivingDomain domain d isMatch

/-- A receiver that trusts a forwarder turns no more clients away: a check that passes without the
forwarder passes with it, provided that it does not end with an error then, and that there is no
directive for an included policy which does not pass the clients that it matches, and which is found
to match with the forwarder, but not without it. -/
theorem forwarder_permits (ctx : Context) (service : Dns.Service) (timestamp : Int)
    (inquiry : Inquiry) (forwarder : String)
    (passes : (check (ctx.trusting none) service .blocking timestamp inquiry).2.result = .pass)
    (temporary : (check (ctx.trusting (some forwarder)) service .blocking timestamp
      inquiry).2.result ≠ .tempError)
    (permanent : (check (ctx.trusting (some forwarder)) service .blocking timestamp
      inquiry).2.result ≠ .permError) :
    (check (ctx.trusting (some forwarder)) service .blocking timestamp inquiry).2.result = .pass ∨
      ∃ domain qualifier spec, qualifier ≠ .pass ∧
        CheckFinds (ctx.trusting none) service timestamp inquiry domain
          ⟨qualifier, .included spec⟩ false ∧
        CheckFinds (ctx.trusting (some forwarder)) service timestamp inquiry domain
          ⟨qualifier, .included spec⟩ true := by
  cases begun : inquiry.begin timestamp with
  | error outcome =>
    -- identities that cannot be read are reported, whoever is trusted
    simp only [check, begun] at passes ⊢
    exact .inl passes
  | ok identity =>
    rw [(check_eq_evaluateSender begun).2] at passes temporary permanent ⊢
    have permits :=
      conclude_permits ⟨ctx, service, identity⟩ forwarder _ passes temporary permanent
    exact permits.imp_right fun ⟨domain, qualifier, spec, hq, found₀, found⟩ =>
      ⟨domain, qualifier, spec, hq, ⟨identity, begun, found₀⟩, ⟨identity, begun, found⟩⟩

/-- A record that includes another domain, in front of a directive for all clients. The record of
that domain passes nobody, and the directive for the forwarder, which is tried in it, passes
everybody. -/
theorem forwarder_permits_of_inclusion :
    ∃ (service : Dns.Service) (inquiry : Inquiry),
      service ⟨"b", .spf⟩ = .ok ["v=spf1 include:c.d +all"] ∧
      service ⟨"c.d", .spf⟩ = .ok ["v=spf1 ?all"] ∧
      (check (plainReceiver.trusting none) service .blocking 0 inquiry).1 =
        [⟨"b", .spf⟩, ⟨"c.d", .spf⟩] ∧
      (check (plainReceiver.trusting none) service .blocking 0 inquiry).2.result = .pass ∧
      (check (plainReceiver.trusting (some "f.g")) service .blocking 0 inquiry).1 =
        [⟨"b", .spf⟩, ⟨"c.d", .spf⟩, ⟨"f.g", .spf⟩] ∧
      ((check (plainReceiver.trusting (some "f.g")) service .blocking 0 inquiry).2.result = .pass ∨
        ∃ domain qualifier spec, qualifier ≠ .pass ∧
          CheckFinds (plainReceiver.trusting none) service 0 inquiry domain
            ⟨qualifier, .included spec⟩ false ∧
          CheckFinds (plainReceiver.trusting (some "f.g")) service 0 inquiry domain
            ⟨qualifier, .included spec⟩ true) := by
  let service : Dns.Service := fun request =>
    .ok [if request.host = "b" then "v=spf1 include:c.d +all"
      else if request.host = "c.d" then "v=spf1 ?all" else "v=spf1 +all"]
  have begun : Inquiry.begin ⟨"0.0.0.1", "a@b", "b", none⟩ 0 =
    .ok ⟨.v4 1#32, "a@b", "a", "b", "b", 0⟩ := rfl
  have without := @check_eq_evaluateSender (plainReceiver.trusting none) service _ _ _ begun
  have trusting :=
    @check_eq_evaluateSender (plainReceiver.trusting (some "f.g")) service _ _ _ begun
  have passes : (check (plainReceiver.trusting none) service .blocking 0
      ⟨"0.0.0.1", "a@b", "b", none⟩).2.result = .pass :=
    without.2.trans (by decide +kernel)
  have permits : (check (plainReceiver.trusting (some "f.g")) service .blocking 0
      ⟨"0.0.0.1", "a@b", "b", none⟩).2.result = .pass :=
    trusting.2.trans (by decide +kernel)
  exact ⟨service, ⟨"0.0.0.1", "a@b", "b", none⟩, rfl, rfl, without.1.trans (by decide +kernel),
    passes, trusting.1.trans (by decide +kernel),
    forwarder_permits plainReceiver service 0 ⟨"0.0.0.1", "a@b", "b", none⟩ "f.g" passes
      (by rw [permits]; decide) (by rw [permits]; decide)⟩

/-- A record that excludes the clients of another domain: the directive for the forwarder in the
record of that domain makes the check fail. -/
theorem forwarder_excludes :
    ∃ (service : Dns.Service) (inquiry : Inquiry),
      service ⟨"b", .spf⟩ = .ok ["v=spf1 -include:c.d +all"] ∧
      (check (plainReceiver.trusting none) service .blocking 0 inquiry).2.result = .pass ∧
      (check (plainReceiver.trusting (some "f.g")) service .blocking 0 inquiry).2.result = .fail := by
  let service : Dns.Service := fun request =>
    .ok [if request.host = "b" then "v=spf1 -include:c.d +all"
      else if request.host = "c.d" then "v=spf1 ?all" else "v=spf1 +all"]
  have begun : Inquiry.begin ⟨"0.0.0.1", "a@b", "b", none⟩ 0 =
    .ok ⟨.v4 1#32, "a@b", "a", "b", "b", 0⟩ := rfl
  exact ⟨service, ⟨"0.0.0.1", "a@b", "b", none⟩, rfl,
    (check_eq_evaluateSender begun).2.trans (by decide +kernel),
    (check_eq_evaluateSender begun).2.trans (by decide +kernel)⟩

end SenderPolicy.Evaluation
