import SenderPolicy.Proofs.Course.Expansions

/-!
# Explanations of a failure

Once a directive has committed a fail outside of inclusions, everything that is left of the check is
decided by the answers to come: the directives are passed over, the record's own explanation is
looked up, the receiver's takes its place where there is none, and the policies that have redirected
stay silent.

## Main definitions

* `explained`, `defaultExplained`, `publishedExplained`: the explanations that templates come to
* `Explains`: what an explanation comes to, and the state behind it
* `Outermost`: what lies below a record that is evaluated outside of inclusions
* `ExplainedBy`: the explanation of a record that has committed a fail

## Main results

* `Completes.of_directives`: directives are passed over
* `Completes.of_explanation`: the record's own explanation
* `Completes.of_decorations`: the receiver's explanation, and the end of the check
* `Completes.of_fail`: what explains a fail
-/

namespace SenderPolicy.Evaluation

/-! ## What templates come to -/

/-- The explanation that a template comes to, unless it is refused. -/
def explained (ctx : Context) (values : Macro.Values) (template : String) : Option String :=
  (Macro.expand values ctx.localNames .explanation template).toOption

/-- The explanation that the receiver gives, if there is one. -/
def defaultExplained (ctx : Context) (values : Macro.Values) : Option String :=
  ctx.policy.defaultExplanation.bind (explained ctx values)

/-- The explanation that is published: the one text of the answer. -/
def publishedExplained (ctx : Context) (values : Macro.Values) : Dns.Answer → Option String
  | .ok [text] => explained ctx values text
  | _ => none

/-- What an explanation comes to, by the values that are known at any later time, and the state
behind it. -/
structure Explains (ctx : Context) (text : Macro.Values → Option String) (s t : State) : Prop where
  state : ∃ r c e, t = { s with receivingDomain := r, clientDomain := c, explanation := e }
  precedes : s.Precedes ctx.localNames t
  text : ∀ u, t.Precedes ctx.localNames u → t.explanation = text u.values

section Templates

variable {ctx : Context} {s t u : State} {purpose : Purpose} {template : String}
  {expanded : Except Error String} {text : Macro.Values → Option String} {frames : List Frame}
  {exchanges : List Exchange} {last : State}

/-- A template comes to the same at any later time. -/
theorem Expands.later (he : Expands ctx purpose template s expanded t)
    (hp : t.Precedes ctx.localNames u) :
    Macro.expand u.values ctx.localNames purpose.site template = expanded.mapError .refused := by
  rw [← he.expanded]
  refine hp.expand ?_
  rw [he.expanded]
  cases expanded <;> nofun

theorem Expands.explained (he : Expands ctx purpose template s expanded t)
    (hs : purpose.site = .explanation) (hp : t.Precedes ctx.localNames u) :
    explained ctx u.values template = expanded.toOption := by
  rw [Evaluation.explained, ← hs, he.later hp]
  cases expanded <;> rfl

/-- What an explanation comes to behind an expansion. -/
theorem Explains.of_expands {text' : Macro.Values → Option String}
    (he : Expands ctx purpose template s expanded t) (h : Explains ctx text t u)
    (same : ∀ v, t.Precedes ctx.localNames v → text v.values = text' v.values) :
    Explains ctx text' s u := by
  obtain ⟨⟨r, c, rfl⟩, precedes, -⟩ := he
  obtain ⟨⟨r', c', e', rfl⟩, precedes', text⟩ := h
  exact ⟨⟨r', c', e', rfl⟩, precedes.trans precedes', fun v hv =>
    (text v hv).trans (same v (precedes'.trans hv))⟩

/-- What an expansion has come to is kept as the explanation. -/
theorem Explains.of_kept {e : Option String} (he : Expands ctx purpose template s expanded t)
    (h : ∀ u, t.Precedes ctx.localNames u → e = text u.values) :
    Explains ctx text s { t with explanation := e } := by
  obtain ⟨⟨r, c, rfl⟩, precedes, -⟩ := he
  refine ⟨⟨r, c, e, rfl⟩, ?_, fun u hu => ?_⟩
  · exact ⟨rfl, rfl, precedes.receiver, precedes.client⟩
  · exact h u ⟨hu.identity, hu.domain, hu.receiver, hu.client⟩

/-- A template of the receiver explains, unless it is refused. -/
theorem Completes.of_explainBy
    (h : Completes ctx ((explainBy ctx template s).above frames) exchanges last)
    (hn : s.explanation = none) :
    ∃ asked rest t, exchanges = asked ++ rest ∧ (∀ e ∈ asked, e.explains = false) ∧
      Explains ctx (fun values => explained ctx values template) s t ∧
      Completes ctx ⟨.proceed, t, frames⟩ rest last := by
  rw [explainBy, ← use_defaultExplanation ctx] at h
  obtain ⟨asked, rest, expanded, t, rfl, plain, he, used⟩ := of_expandTo h
  refine ⟨asked, rest, { t with explanation := expanded.toOption }, rfl, plain,
    .of_kept he fun u hu => (he.explained rfl hu).symm, ?_⟩
  cases expanded with
  | ok text => exact used
  | error cause =>
    -- a refusal leaves the state as it is, without an explanation
    have same : { t with explanation := (none : Option String) } = t := by
      obtain ⟨⟨r, c, rfl⟩, -, -⟩ := he
      rw [← hn]
    rw [show (Except.error cause : Except Error String).toOption = none from rfl, same]
    exact used

/-- Without an explanation of the record the receiver explains. -/
theorem Completes.of_explainByDefault
    (h : Completes ctx ((explainByDefault ctx s).above frames) exchanges last)
    (hn : s.explanation = none) :
    ∃ asked rest t, exchanges = asked ++ rest ∧ (∀ e ∈ asked, e.explains = false) ∧
      Explains ctx (defaultExplained ctx) s t ∧ Completes ctx ⟨.proceed, t, frames⟩ rest last := by
  unfold explainByDefault at h
  unfold defaultExplained
  split at h
  · rename_i template hd
    rw [hd]
    exact h.of_explainBy hn
  · rename_i hd
    rw [hd]
    exact ⟨[], exchanges, s, rfl, List.forall_mem_nil _,
      ⟨⟨s.receivingDomain, s.clientDomain, s.explanation, rfl⟩, .refl s, fun _ _ => hn⟩, h⟩

/-- A published explanation counts if there is one text and it is not refused; otherwise the
receiver explains. -/
theorem Completes.of_explanationAnswered {answer : Dns.Answer}
    (h : Completes ctx ((explanationAnswered ctx answer s).above frames) exchanges last)
    (hn : s.explanation = none) :
    ∃ asked rest t, exchanges = asked ++ rest ∧ (∀ e ∈ asked, e.explains = false) ∧
      Explains ctx (fun values =>
        (publishedExplained ctx values answer).or (defaultExplained ctx values)) s t ∧
      Completes ctx ⟨.proceed, t, frames⟩ rest last := by
  unfold explanationAnswered at h
  split at h
  · rename_i text
    obtain ⟨asked, rest, expanded, t, rfl, plain, he, used⟩ := of_expandTo h
    cases expanded with
    | ok found =>
      refine ⟨asked, rest, { t with explanation := some found }, rfl, plain,
        .of_kept he fun u hu => ?_, used⟩
      simp [publishedExplained, he.explained rfl hu, Except.toOption]
    | error cause =>
      have unexplained : t.explanation = none := by
        obtain ⟨⟨r, c, rfl⟩, -, -⟩ := he
        exact hn
      obtain ⟨asked', rest', u, rfl, plain', explains, rest⟩ := of_explainByDefault used unexplained
      refine ⟨asked ++ asked', rest', u, (List.append_assoc _ _ _).symm,
        List.forall_mem_append.mpr ⟨plain, plain'⟩, .of_expands he explains fun v hv => ?_, rest⟩
      simp [publishedExplained, he.explained rfl hv, Except.toOption]
  · rename_i other
    have unpublished (values : Macro.Values) : publishedExplained ctx values answer = none := by
      unfold publishedExplained
      split
      · exact absurd rfl (other _)
      · rfl
    simp only [unpublished, Option.none_or]
    exact h.of_explainByDefault hn

end Templates

/-! ## The terms behind a committed fail -/

/-- The frame has nothing to decide any more: it explains, decorates, or ends an evaluation that was
no inclusion. -/
def Frame.isSpent : Frame → Bool
  | conclusion | arrival | decoration _ => true
  | modifier (.explanation _) | modifier (.unknown _ _) => true
  | _ => false

/-- The template of the receiver that a decoration explains by. -/
def templateOf : Decoration → Option String
  | .explanation template => some template
  | .neutralWithoutMatch => none

section Terms

variable {ctx : Context} {s : State} {frames : List Frame} {exchanges : List Exchange}
  {last : State}

/-- Directives are passed over once one has decided. -/
theorem Completes.of_directives {directives : List Directive} (hv : s.verdict ≠ none)
    (h : Completes ctx ⟨.proceed, s, directives.map .directive ++ frames⟩ exchanges last) :
    Completes ctx ⟨.proceed, s, frames⟩ exchanges last := by
  induction directives with
  | nil => exact h
  | cons d directives ih =>
    have passed : Frame.check ctx s (.directive d) = .done s := by
      rw [Frame.check, directiveStep, if_pos (Option.isSome_iff_ne_none.mpr hv)]
    exact ih ((of_done_iff passed).mp h)

/-- So are redirections, and modifiers without meaning. -/
theorem Completes.of_modifiers {modifiers : List Modifier} (hv : s.verdict ≠ none)
    (plain : ∀ spec, .explanation spec ∉ modifiers)
    (h : Completes ctx ⟨.proceed, s, modifiers.map .modifier ++ frames⟩ exchanges last) :
    Completes ctx ⟨.proceed, s, frames⟩ exchanges last := by
  induction modifiers with
  | nil => exact h
  | cons m modifiers ih =>
    have passed : Frame.check ctx s (.modifier m) = .done s := by
      cases m with
      | redirect domain =>
        rw [Frame.check, modifierStep, if_pos (Option.isSome_iff_ne_none.mpr hv)]
      | explanation spec => exact absurd List.mem_cons_self (plain spec)
      | unknown name value => rfl
    exact ih (fun spec hm => plain spec (List.mem_cons_of_mem m hm)) ((of_done_iff passed).mp h)

/-- Silence behind a redirection: nothing explains, and the check ends with a fail. -/
theorem Completes.of_muted {fs : List Frame} (hs : ∀ f ∈ fs, f.isSpent ∧ f.isConclusion = false)
    (hv : s.verdict = some .fail) (hm : s.isMuted) (hr : s.result = none)
    (h : Completes ctx ⟨.proceed, s, fs ++ [.conclusion]⟩ exchanges last) :
    exchanges = [] ∧ last = { s with result := some .fail } := by
  induction fs with
  | nil =>
    have concluded : Frame.check ctx s .conclusion = .done { s with result := some .fail } := by
      simp [Frame.check, State.conclude, hr, hv, Qualifier.result]
    exact of_end_iff.mp ((of_done_iff concluded).mp h)
  | cons f fs ih =>
    rw [List.forall_mem_cons] at hs
    have passed : f.check ctx s = .done s := by
      cases f with
      | arrival => simp [Frame.check, ← hm]
      | decoration d => cases d <;> simp [Frame.check, decorationStep, hv, hm]
      | modifier m => cases m <;> simp_all [Frame.check, modifierStep, Frame.isSpent]
      | conclusion => cases hs.1.2
      | _ => cases hs.1.1
    exact ih hs.2 ((of_done_iff passed).mp h)

/-- What lies below a record that is evaluated outside of inclusions: nothing of it decides any
more, and the first of it ends the evaluation of the record's domain. -/
structure Outermost (base : List Frame) : Prop where
  spent : ∀ f ∈ base, f.isSpent
  boundary : ∃ f rest, base = f :: rest ∧ f.isBoundary

/-- The check ends with the fail, and nothing explains it any more. -/
theorem Completes.of_outermost {base : List Frame} (outermost : Outermost base)
    (stacked : Stacked base) (hv : s.verdict = some .fail) (hr : s.result = none)
    (h : Completes ctx ⟨.proceed, s, base⟩ exchanges last) :
    exchanges = [] ∧ ∃ isMuted, last = { s with isMuted := isMuted, result := some .fail } := by
  obtain ⟨spent, f, rest, rfl, hf⟩ := outermost
  obtain ⟨fs, hb, hfs⟩ := stacked.exists_conclusion (List.cons_ne_nil f rest)
  cases fs with
  | nil =>
    rw [hb] at h
    have concluded : Frame.check ctx s .conclusion = .done { s with result := some .fail } := by
      simp [Frame.check, State.conclude, hr, hv, Qualifier.result]
    obtain ⟨he, hl⟩ := of_end_iff.mp ((of_done_iff concluded).mp h)
    exact ⟨he, s.isMuted, hl⟩
  | cons g fs =>
    obtain ⟨rfl, rfl⟩ := List.cons.inj hb
    rw [List.forall_mem_cons] at hfs spent
    cases f with
    | arrival =>
      have silent : ∀ f ∈ fs, f.isSpent ∧ f.isConclusion = false := fun f hm =>
        ⟨spent.2 f (List.mem_append_left _ hm), hfs.2 f hm⟩
      obtain ⟨he, hl⟩ := of_muted silent (s := { s with isMuted := true }) hv rfl hr
        ((of_done_iff rfl).mp h)
      exact ⟨he, true, hl⟩
    | conclusion => cases hfs.1
    | restoration => cases spent.1
    | _ => cases hf

/-- The decorations of a record explain by the first template that is not refused, unless there is
an explanation. -/
theorem Completes.of_decorations {decorations : List Decoration} {base : List Frame}
    (outermost : Outermost base) (stacked : Stacked base) (hv : s.verdict = some .fail)
    (hm : s.isMuted = false) (hr : s.result = none)
    (h : Completes ctx ⟨.proceed, s, decorations.map .decoration ++ base⟩ exchanges last) :
    (∀ e ∈ exchanges, e.explains = false) ∧ s.Precedes ctx.localNames last ∧
      last.result = some .fail ∧ last.explanation = s.explanation.or
        ((decorations.filterMap templateOf).findSome? (explained ctx last.values)) := by
  induction decorations generalizing s exchanges with
  | nil =>
    obtain ⟨rfl, isMuted, rfl⟩ := h.of_outermost outermost stacked hv hr
    refine ⟨List.forall_mem_nil _, ⟨rfl, rfl, rfl, Or.inr rfl⟩, rfl, ?_⟩
    simp
  | cons d decorations ih =>
    have passed (hd : Frame.check ctx s (.decoration d) = .done s) :=
      ih hv hm hr ((of_done_iff hd).mp h)
    cases d with
    | neutralWithoutMatch => exact passed (by simp [Frame.check, decorationStep, hv])
    | explanation template =>
      cases hx : s.explanation with
      | some text =>
        obtain ⟨plain, precedes, hl, he⟩ :=
          passed (by simp [Frame.check, decorationStep, hx])
        exact ⟨plain, precedes, hl, by simp [he, hx]⟩
      | none =>
        have explains : Machine.step ctx
            ⟨.proceed, s, .decoration (.explanation template) ::
              (decorations.map .decoration ++ base)⟩ =
            some ((explainBy ctx template s).above (decorations.map .decoration ++ base)) := by
          simp [Machine.step, Frame.check, decorationStep, hv, hm, hx]
        obtain ⟨asked, rest, t, rfl, plain, ⟨⟨r, c, e, rfl⟩, precedes, text⟩, h⟩ :=
          ((of_step_iff explains).mp h).of_explainBy hx
        obtain ⟨plain', precedes', hl, he⟩ :=
          ih (s := { s with receivingDomain := r, clientDomain := c, explanation := e }) hv hm hr h
        refine ⟨List.forall_mem_append.mpr ⟨plain, plain'⟩, precedes.trans precedes', hl, ?_⟩
        rw [he, text last precedes', List.filterMap_cons]
        simp only [templateOf, List.findSome?_cons, Option.none_or]
        cases explained ctx last.values template <;> rfl

/-- The record's own explanation: its domain is refused, or the texts of the domain are asked
for. -/
theorem Completes.of_explanation {spec : String}
    (h : Completes ctx ((expandTo ctx .explanationDomain spec s).above frames) exchanges last)
    (hn : s.explanation = none) :
    (∃ host answer asked asked' rest t,
      exchanges = asked ++ ⟨⟨host, .txt⟩, .explanationTexts, answer⟩ :: (asked' ++ rest) ∧
      (∀ e ∈ asked ++ asked', e.explains = false) ∧
      (∀ u, t.Precedes ctx.localNames u →
        Macro.expand u.values ctx.localNames .domain spec = .ok host) ∧
      Explains ctx (fun values =>
        (publishedExplained ctx values answer).or (defaultExplained ctx values)) s t ∧
      Completes ctx ⟨.proceed, t, frames⟩ rest last) ∨
    ∃ cause asked rest t, exchanges = asked ++ rest ∧ (∀ e ∈ asked, e.explains = false) ∧
      (∀ u, t.Precedes ctx.localNames u →
        Macro.expand u.values ctx.localNames .domain spec = .error (.refused cause)) ∧
      Explains ctx (defaultExplained ctx) s t ∧ Completes ctx ⟨.proceed, t, frames⟩ rest last := by
  obtain ⟨asked, rest, expanded, t, rfl, plain, he, used⟩ := of_expandTo h
  have unexplained : t.explanation = none := by
    obtain ⟨⟨r, c, rfl⟩, -, -⟩ := he
    exact hn
  cases expanded with
  | ok host =>
    obtain ⟨answer, rest, rfl, answered⟩ := (of_await_iff rfl).mp used
    obtain ⟨asked', rest, u, rfl, plain', explains, rest⟩ :=
      of_explanationAnswered answered unexplained
    exact Or.inl ⟨host, answer, asked, asked', _, u, rfl,
      List.forall_mem_append.mpr ⟨plain, plain'⟩,
      fun v hv => he.later (explains.precedes.trans hv), .of_expands he explains fun _ _ => rfl,
      rest⟩
  | error cause =>
    obtain ⟨asked', rest, u, rfl, plain', explains, rest⟩ := of_explainByDefault used unexplained
    exact Or.inr ⟨cause, asked ++ asked', _, u, (List.append_assoc _ _ _).symm,
      List.forall_mem_append.mpr ⟨plain, plain'⟩,
      fun v hv => he.later (explains.precedes.trans hv), .of_expands he explains fun _ _ => rfl,
      rest⟩

end Terms

/-! ## What explains a fail -/

/-- The explanation of a record that has committed a fail, by the values that are known in the end,
and the exchanges about published explanations: if the record names a domain that is not refused,
its texts are asked for, and the one text of the answer explains unless it is refused; in every
other case the receiver explains. -/
def ExplainedBy (ctx : Context) (values : Macro.Values) (modifiers : List Modifier)
    (exchanges : List Exchange) (explanation : Option String) : Prop :=
  (∀ spec host, .explanation spec ∈ modifiers →
    Macro.expand values ctx.localNames .domain spec = .ok host → ∃ answer,
      exchanges.filter Exchange.explains = [⟨⟨host, .txt⟩, .explanationTexts, answer⟩] ∧
      explanation = (publishedExplained ctx values answer).or (defaultExplained ctx values)) ∧
  ((∀ spec host, .explanation spec ∈ modifiers →
      Macro.expand values ctx.localNames .domain spec ≠ .ok host) →
    exchanges.filter Exchange.explains = [] ∧ explanation = defaultExplained ctx values)

theorem filter_explains {exchanges : List Exchange} (h : ∀ e ∈ exchanges, e.explains = false) :
    exchanges.filter Exchange.explains = [] :=
  List.filter_eq_nil_iff.mpr fun e he => by simp [h e he]

section ExplainedBy

variable {ctx : Context} {values : Macro.Values} {modifiers : List Modifier} {spec : String}
  {exchanges : List Exchange} {explanation : Option String}

/-- The texts of the record's domain were asked for. -/
theorem ExplainedBy.of_answer {host : String} {answer : Dns.Answer}
    (only : ∀ spec', .explanation spec' ∈ modifiers → spec' = spec)
    (hm : .explanation spec ∈ modifiers)
    (named : Macro.expand values ctx.localNames .domain spec = .ok host)
    (asked : exchanges.filter Exchange.explains = [⟨⟨host, .txt⟩, .explanationTexts, answer⟩])
    (he : explanation = (publishedExplained ctx values answer).or (defaultExplained ctx values)) :
    ExplainedBy ctx values modifiers exchanges explanation := by
  constructor
  · intro spec' host' hs hx
    rw [only spec' hs, named] at hx
    cases hx
    exact ⟨answer, asked, he⟩
  · intro none_named
    exact absurd named (none_named spec host hm)

/-- Nothing was asked for, as the record names no domain, or one that is refused. -/
theorem ExplainedBy.of_refusal
    (refused : ∀ spec', .explanation spec' ∈ modifiers →
      ∀ host, Macro.expand values ctx.localNames .domain spec' ≠ .ok host)
    (unasked : exchanges.filter Exchange.explains = [])
    (he : explanation = defaultExplained ctx values) :
    ExplainedBy ctx values modifiers exchanges explanation :=
  ⟨fun spec' host hs hx => absurd hx (refused spec' hs host), fun _ => ⟨unasked, he⟩⟩

/-- A record that explains once falls apart around its explanation. -/
theorem exists_of_single (single : modifiers.Pairwise fun m m' => m.clashes m' = false)
    (hm : .explanation spec ∈ modifiers) :
    ∃ front back, modifiers = front ++ .explanation spec :: back ∧
      (∀ spec', .explanation spec' ∉ front) ∧ (∀ spec', .explanation spec' ∉ back) ∧
      ∀ spec', .explanation spec' ∈ modifiers → spec' = spec := by
  obtain ⟨front, back, rfl⟩ := List.append_of_mem hm
  rw [List.pairwise_append, List.pairwise_cons] at single
  have hfront (spec' : String) : .explanation spec' ∉ front := fun h =>
    Bool.noConfusion (single.2.2 _ h _ List.mem_cons_self)
  have hback (spec' : String) : .explanation spec' ∉ back := fun h =>
    Bool.noConfusion (single.2.1.1 _ h)
  refine ⟨front, back, rfl, hfront, hback, fun spec' hs => ?_⟩
  rcases List.mem_append.mp hs with hs | hs
  · exact absurd hs (hfront spec')
  · rcases List.mem_cons.mp hs with hs | hs
    · exact Modifier.explanation.inj hs
    · exact absurd hs (hback spec')

end ExplainedBy

section Commitment

variable {ctx : Context} {s t : State} {exchanges : List Exchange} {last : State}
  {modifiers : List Modifier} {decorations : List Decoration} {base : List Frame}

/-- Behind the record's own explanation the receiver's is all that is left to come. -/
theorem Completes.of_explained {text : Macro.Values → Option String}
    (outermost : Outermost base) (stacked : Stacked base)
    (decorated : decorations.filterMap templateOf = ctx.policy.defaultExplanation.toList)
    (hv : s.verdict = some .fail) (hm : s.isMuted = false) (hr : s.result = none)
    (explains : Explains ctx text s t) (plain : ∀ spec, .explanation spec ∉ modifiers)
    (h : Completes ctx ⟨.proceed, t, modifiers.map .modifier ++
      (decorations.map .decoration ++ base)⟩ exchanges last) :
    exchanges.filter Exchange.explains = [] ∧ t.Precedes ctx.localNames last ∧
      last.domain = s.domain ∧ last.result = some .fail ∧
      last.explanation = (text last.values).or (defaultExplained ctx last.values) := by
  obtain ⟨⟨r, c, e, rfl⟩, precedes, text⟩ := explains
  have decided : s.verdict ≠ none := by simp [hv]
  obtain ⟨unasked, precedes', hl, he⟩ := of_decorations
    (s := { s with receivingDomain := r, clientDomain := c, explanation := e }) outermost stacked hv
    hm hr (h.of_modifiers decided plain)
  refine ⟨filter_explains unasked, precedes', precedes'.domain, hl, ?_⟩
  rw [he, text last precedes', decorated, defaultExplained]
  cases ctx.policy.defaultExplanation <;> simp

/-- What explains the fail that a directive commits outside of inclusions. -/
theorem Completes.of_fail {left : List Directive} (outermost : Outermost base)
    (stacked : Stacked base) (single : modifiers.Pairwise fun m m' => m.clashes m' = false)
    (decorated : decorations.filterMap templateOf = ctx.policy.defaultExplanation.toList)
    (hv : s.verdict = some .fail) (hm : s.isMuted = false) (hn : s.explanation = none)
    (hr : s.result = none)
    (h : Completes ctx ⟨.proceed, s, left.map .directive ++ (modifiers.map .modifier ++
      (decorations.map .decoration ++ base))⟩ exchanges last) :
    last.domain = s.domain ∧ last.result = some .fail ∧
      ExplainedBy ctx last.values modifiers exchanges last.explanation := by
  have decided : s.verdict ≠ none := by simp [hv]
  have terms := h.of_directives decided
  by_cases hspec : ∃ spec, .explanation spec ∈ modifiers
  · obtain ⟨spec, hspec⟩ := hspec
    obtain ⟨front, back, rfl, hfront, hback, only⟩ := exists_of_single single hspec
    simp only [List.map_append, List.map_cons, List.append_assoc, List.cons_append] at terms
    have explains : Machine.step ctx ⟨.proceed, s, .modifier (.explanation spec) ::
          (back.map .modifier ++ (decorations.map .decoration ++ base))⟩ =
        some ((expandTo ctx .explanationDomain spec s).above
          (back.map .modifier ++ (decorations.map .decoration ++ base))) := by
      simp [Machine.step, Frame.check, modifierStep, hv, hm]
    rcases ((of_step_iff explains).mp (terms.of_modifiers decided hfront)).of_explanation hn with
      ⟨host, answer, asked, asked', rest, t, rfl, plain, named, explains, h⟩ |
      ⟨cause, asked, rest, t, rfl, plain, refused, explains, h⟩
    · obtain ⟨unasked, precedes, hd, hl, he⟩ :=
        h.of_explained outermost stacked decorated hv hm hr explains hback
      rw [List.forall_mem_append] at plain
      have explaining : Exchange.explains ⟨⟨host, .txt⟩, .explanationTexts, answer⟩ = true := rfl
      have once : (asked ++ ⟨⟨host, .txt⟩, .explanationTexts, answer⟩ :: (asked' ++ rest)).filter
          Exchange.explains = [⟨⟨host, .txt⟩, .explanationTexts, answer⟩] := by
        rw [List.filter_append, List.filter_cons_of_pos explaining, List.filter_append,
          filter_explains plain.1, filter_explains plain.2, unasked]
        rfl
      refine ⟨hd, hl, .of_answer only hspec (named last precedes) once ?_⟩
      rw [he, Option.or_assoc, Option.or_self]
    · obtain ⟨unasked, precedes, hd, hl, he⟩ :=
        h.of_explained outermost stacked decorated hv hm hr explains hback
      refine ⟨hd, hl, .of_refusal (fun spec' hs host hx => ?_) ?_ ?_⟩
      · rw [only spec' hs, refused last precedes] at hx
        cases hx
      · rw [List.filter_append, filter_explains plain, unasked, List.append_nil]
      · rw [he, Option.or_self]
  · rw [not_exists] at hspec
    have unexplained : Explains ctx (fun _ => none) s s :=
      ⟨⟨s.receivingDomain, s.clientDomain, s.explanation, rfl⟩, .refl s, fun _ _ => hn⟩
    obtain ⟨unasked, -, hd, hl, he⟩ :=
      terms.of_explained outermost stacked decorated hv hm hr unexplained hspec
    exact ⟨hd, hl, .of_refusal (fun spec hs => absurd hs (hspec spec)) unasked he⟩

end Commitment

end SenderPolicy.Evaluation
