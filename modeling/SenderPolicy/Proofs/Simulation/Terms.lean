import SenderPolicy.Proofs.Simulation.Mechanisms

/-!
# Terms that follow the evaluation of a record

The frames of a record follow its directives, modifiers and decorations one after the other. Every
domain that a term refers to is evaluated after one more term has been entered, so the evaluation of
a domain is followed by induction on the terms that can still be entered.

## Main results

* `follows_directive`, `follows_modifier`, `follows_decoration`: the terms of a record in their turn
* `follows_evaluate`: the frame that evaluates a domain
-/

namespace SenderPolicy.Evaluation.Direct

variable {α : Type} {given : Situation} {origin standing : Standing} {matched : Option Bool}
  {k : Knowledge}

/-! ## Directives -/

/-- The state of the machine while directives are tried: they explain nothing. -/
structure Tries (given : Situation) (origin standing : Standing) (k : Knowledge) (s : State) :
    Prop where
  state : ∃ matched, s = standing.state given .nothing matched k
  explanation : standing.explanation = origin.explanation

theorem Tries.stands {s : State} (h : Tries given origin standing k s) :
    Stands given origin standing k s :=
  ⟨h.state, fun _ => h.explanation⟩

/-- The frame below a mechanism commits the qualifier of its directive. -/
theorem follows_commitment (ho : standing.explanation = origin.explanation) (qualifier : Qualifier)
    (isMatch : Bool) :
    Follows given origin
      (.leave (standing.state given .nothing (some isMatch) k) [.commitment qualifier]) k
      (if isMatch then pure { standing with verdict := some qualifier } else pure standing)
      (Tries given origin) := by
  refine Follows.frame ?_
  cases isMatch with
  | false => exact Follows.pure ⟨⟨some false, rfl⟩, ho⟩
  | true => exact Follows.pure ⟨⟨some true, rfl⟩, ho⟩

/-- A directive in its turn. -/
theorem follows_directive {evaluate : Standing → Eval Standing}
    (ho : standing.explanation = origin.explanation) (evaluates : Evaluates given k evaluate)
    (d : Directive) :
    Follows given origin (directiveStep given.ctx (standing.state given .nothing matched k) d) k
      (tryDirective given evaluate standing d) (Tries given origin) := by
  refine Follows.ite (fun _ => ?_) fun hv => ?_
  · exact Follows.pure ⟨⟨matched, rfl⟩, ho⟩
  · rw [Standing.state_verdict, Bool.not_eq_true, Option.isSome_eq_false_iff,
      Option.isNone_iff_eq_none] at hv
    refine Follows.bind _ (follows_mechanism ho hv evaluates d.mechanism)
      (by simp [HandsOn, Frame.catch]) ?_
    rintro isMatch k' s rfl hk'
    exact follows_commitment ho d.qualifier isMatch

/-! ## Explanations

Explanations come behind a verdict, and nothing that goes wrong with them ends the check. -/

/-- A template of the receiver. -/
theorem follows_explainBy (hv : standing.verdict ≠ none) (template : String) :
    Follows given origin
      (Evaluation.explainBy given.ctx template (standing.state given .nothing matched k)) k
      (explainBy given template standing) (Stands given origin) := by
  rw [Evaluation.explainBy, ← use_defaultExplanation given.ctx, explainBy]
  refine follows_expandTo .defaultExplanation fun text k' _ _ => ?_
  cases text with
  | ok text => exact Follows.pure ⟨⟨matched, rfl⟩, fun h => absurd h hv⟩
  | error cause => exact Follows.pure ⟨⟨matched, rfl⟩, fun h => absurd h hv⟩

/-- The receiver's own explanation, if there is one. -/
theorem follows_explainByDefault (hv : standing.verdict ≠ none) :
    Follows given origin
      (Evaluation.explainByDefault given.ctx (standing.state given .nothing matched k)) k
      (explainByDefault given standing) (Stands given origin) := by
  unfold Evaluation.explainByDefault explainByDefault
  cases given.ctx.policy.defaultExplanation with
  | none => exact Follows.pure ⟨⟨matched, rfl⟩, fun h => absurd h hv⟩
  | some template => exact follows_explainBy hv template

/-- The explanation that a domain publishes, or the receiver's. -/
theorem follows_explainByPublished (hv : standing.verdict ≠ none) (spec : String) :
    Follows given origin
      (expandTo given.ctx .explanationDomain spec (standing.state given .nothing matched k)) k
      (explainByPublished given spec standing) (Stands given origin) := by
  rw [explainByPublished]
  refine follows_expandTo .explanationDomain fun host k₁ _ _ => ?_
  cases host with
  | error cause => exact follows_explainByDefault hv
  | ok host =>
    refine follows_askNames (fun s texts => explanationAnswered given.ctx (.ok texts) s) ?_
      fun texts k₂ _ => ?_
    · intro answer s
      cases answer <;> rfl
    · rcases texts with _ | ⟨template, _ | ⟨_, _⟩⟩
      · exact follows_explainByDefault hv
      · refine follows_expandTo .explanation fun text k₃ _ _ => ?_
        cases text with
        | error cause => exact follows_explainByDefault hv
        | ok text => exact Follows.pure ⟨⟨matched, rfl⟩, fun h => absurd h hv⟩
      · exact follows_explainByDefault hv

/-! ## Modifiers and decorations -/

/-- A redirection hands the evaluation over, and with it the explanation of what it decides. -/
theorem follows_redirection {evaluate : Standing → Eval Standing}
    (ho : standing.explanation = origin.explanation) (hv : standing.verdict = none)
    {k₀ : Knowledge} (evaluates : Evaluates given k₀ evaluate) (hk₀ : k₀.depth < k.depth)
    (hk : k.depth ≤ maxTerms) (redirected : String) :
    Follows given origin
      (.leave (Standing.state given { standing with domain := redirected } .nothing matched k)
        [.evaluation, .arrival]) k
      (onBehalf (.redirectedWithoutPolicy redirected)
          (evaluate { standing with domain := redirected }) >>=
        fun last => pure { last with isMuted := true })
      (Stands given origin) := by
  refine follows_onBehalf { standing with domain := redirected } id
    (evaluates { standing with domain := redirected } matched k hv hk₀ hk) (fun _ _ => rfl) ?_ ?_
  · intro cause k' s hf
    refine ⟨hf.holds, hf.result, hf.explanation.trans ho, ?_⟩
    exact fun h => absurd h (escalate_result_ne_none (by simp [Error.result]))
  · rintro last k' _ ⟨⟨matched', rfl⟩, he⟩ _
    exact Follows.frame (Follows.pure ⟨⟨matched', rfl⟩, fun h => (he h).trans ho⟩)

/-- A modifier in its turn. -/
theorem follows_modifier {evaluate : Standing → Eval Standing} {s : State}
    (h : Stands given origin standing k s) (evaluates : Evaluates given k evaluate)
    (m : Modifier) :
    Follows given origin (modifierStep given.ctx s m) k
      (followModifier given evaluate standing m) (Stands given origin) := by
  obtain ⟨⟨matched, rfl⟩, he⟩ := h
  cases m with
  | redirect spec =>
    refine Follows.ite (fun _ => ?_) fun hv => ?_
    · exact Follows.pure ⟨⟨matched, rfl⟩, he⟩
    · rw [Standing.state_verdict, Bool.not_eq_true, Option.isSome_eq_false_iff,
        Option.isNone_iff_eq_none] at hv
      refine follows_counted (he hv) fun k₁ hk₁ hb => ?_
      refine follows_target rfl (fun _ _ => rfl) (he hv) fun redirected k₂ hk₂ => ?_
      exact follows_redirection (he hv) hv evaluates (Nat.lt_of_lt_of_le hk₁ hk₂.depth)
        (hk₂.bounded hb) redirected
  | explanation spec =>
    refine Follows.ite (fun hv => ?_) fun _ => ?_
    · exact follows_explainByPublished (by rw [show standing.verdict = _ from hv.1]; simp) spec
    · exact Follows.pure ⟨⟨matched, rfl⟩, he⟩
  | unknown name value => exact Follows.pure ⟨⟨matched, rfl⟩, he⟩

/-- A decoration in its turn. -/
theorem follows_decoration {s : State} (h : Stands given origin standing k s) (d : Decoration) :
    Follows given origin (decorationStep given.ctx s d) k
      (followDecoration given standing d) (Stands given origin) := by
  obtain ⟨⟨matched, rfl⟩, he⟩ := h
  cases d with
  | neutralWithoutMatch =>
    obtain ⟨domain, verdict, explanation, isMuted⟩ := standing
    cases verdict with
    | none => exact Follows.pure ⟨⟨matched, rfl⟩, nofun⟩
    | some verdict => exact Follows.pure ⟨⟨matched, rfl⟩, nofun⟩
  | explanation template =>
    refine Follows.ite (fun hv => ?_) fun _ => ?_
    · exact follows_explainBy (by rw [show standing.verdict = _ from hv.1]; simp) template
    · exact Follows.pure ⟨⟨matched, rfl⟩, he⟩

/-! ## Domains -/

/-- The frames of a record. -/
theorem follows_terms {evaluate : Standing → Eval Standing} (record : Record)
    (evaluates : Evaluates given k evaluate) :
    Follows given origin (.leave (origin.state given .nothing matched k) (framesOf record)) k
      (do
        let standing ← record.directives.foldlM (tryDirective given evaluate) origin
        let standing ← record.modifiers.foldlM (followModifier given evaluate) standing
        record.decorations.foldlM (followDecoration given) standing)
      (Stands given origin) := by
  -- a committed qualifier explains nothing yet, so directives keep the explanation
  have directives : Follows given origin
      (.leave (origin.state given .nothing matched k) (record.directives.map .directive)) k
      (record.directives.foldlM (tryDirective given evaluate) origin) (Tries given origin) := by
    refine Follows.foldlM (fun _ _ _ => rfl) record.directives ?_ ⟨⟨matched, rfl⟩, rfl⟩
    rintro d _ standing k' _ hk' ⟨⟨matched', rfl⟩, ho⟩
    exact Follows.frame (follows_directive ho (evaluates.mono hk') d)
  rw [framesOf, List.append_assoc]
  refine directives.bind _ ?_ fun standing k₁ s₁ h₁ hk₁ => ?_
  · exact List.forall_mem_append.mpr
      ⟨handsOn_map (fun _ _ _ => rfl) _, handsOn_map (fun _ _ _ => rfl) _⟩
  -- modifiers may explain, but only what has been committed
  have modifiers : Follows given origin (.leave s₁ (record.modifiers.map .modifier)) k₁
      (record.modifiers.foldlM (followModifier given evaluate) standing) (Stands given origin) := by
    refine Follows.foldlM (fun _ _ _ => rfl) record.modifiers ?_ h₁.stands
    intro m _ standing k' s hk' h
    exact Follows.frame (follows_modifier h (evaluates.mono (hk₁.trans hk')) m)
  refine modifiers.bind _ (handsOn_map (fun _ _ _ => rfl) _) fun standing k₂ s₂ h₂ _ => ?_
  refine Follows.foldlM (fun _ _ _ => rfl) record.decorations ?_ h₂
  exact fun d _ standing k' s _ h => Follows.frame (follows_decoration h d)

/-- The frame that evaluates a domain, by induction on the terms that can still be entered. -/
theorem follows_evaluate (allowance : Nat) (hv : origin.verdict = none) (hk : k.depth ≤ maxTerms)
    (ha : maxTerms < k.depth + allowance) :
    Follows given origin (.leave (origin.state given .nothing matched k) [.evaluation]) k
      (evaluate given allowance origin) (Stands given origin) := by
  induction allowance generalizing origin matched k with
  | zero => exact absurd hk (Nat.not_le.mpr ha)
  | succ allowance ih =>
    rw [evaluate]
    refine follows_acquire fun record k₁ hk₁ => follows_terms record ?_
    intro origin' matched' k₂ hv' hk₂ hb
    refine ih hv' hb ?_
    -- the term that refers to another domain has used up one of the allowance
    have := hk₁.depth
    omega

end SenderPolicy.Evaluation.Direct
