import SenderPolicy.Proofs.Simulation.Following

/-!
# Templates that follow their expansion

A template that is put aside leaves a frame that expands it again. Behind the lookups the frame
finds the client's name known and the receiver's name settled, so it goes on as direct evaluation
does.

## Main results

* `follows_validateClient`: the listeners that validate the client's name
* `follows_expandTo`: a template in its turn, put aside or not
* `follows_target`: a template whose refusal ends the check
-/

namespace SenderPolicy.Evaluation.Direct

variable {α : Type} {given : Situation} {origin standing : Standing} {found : Found}
  {matched : Option Bool} {k : Knowledge}

/-! ## The client's name -/

/-- What is known behind the validation of the client's name: a name, and what was known before. -/
structure Validated (k k' : Knowledge) : Prop where
  named : k'.clientDomain ≠ none
  depth : k'.depth = k.depth
  receivingDomain : k'.receivingDomain = k.receivingDomain

/-- The listeners that validate the client's name. -/
theorem follows_validateClient :
    Follows given origin
      (.await (standing.state given found matched k) given.identity.reverseName .ptr .clientNames)
      k (validateClient given)
      fun _ k' s => s = standing.state given found matched k' ∧ Validated k k' := by
  have named {k₁ : Knowledge} (name : String) (hk : k₁.depth = k.depth)
      (hr : k₁.receivingDomain = k.receivingDomain) :
      Follows given origin
        (.done { standing.state given found matched k₁ with clientDomain := some name }) k₁
        (modify fun k => { k with clientDomain := some name })
        fun _ k' s => s = standing.state given found matched k' ∧ Validated k k' :=
    Follows.modify rfl (.of_eq rfl) ⟨rfl, by simp, hk, hr⟩
  simp only [validateClient, askNames, bind_assoc]
  apply Follows.ask
  cases given.service ⟨given.identity.reverseName, .ptr⟩ with
  | error cause =>
    simp only [pure_bind]
    apply named "unknown" <;> rfl
  | ok names =>
    simp only [pure_bind]
    cases names with
    | nil => apply named "unknown" <;> rfl
    | cons name rest =>
      simp only [Listener.resume, clientNamed, Standing.state_identity]
      apply Follows.ask
      cases given.service ⟨name, given.identity.addressType⟩ with
      | error cause =>
        simp only [pure_bind]
        apply named "unknown" <;> rfl
      | ok addresses =>
        simp only [pure_bind]
        apply named (if addresses.any given.identity.isClient then name else "unknown") <;> rfl

/-! ## The receiver's name -/

/-- What is known once the receiver's name is settled for a template. -/
def Knowledge.settle (given : Situation) (site : Macro.Site) (template : String) (k : Knowledge) :
    Knowledge :=
  if site = .explanation ∧ k.receivingDomain = none ∧ Macro.mentionsReceivingDomain template then
    { k with receivingDomain := some (Macro.fallbackReceivingDomain given.ctx.localNames) }
  else k

theorem resultOf_settleReceiver (site : Macro.Site) (template : String) :
    resultOf k (settleReceiver given site template) = (.ok (), k.settle given site template) := by
  rw [settleReceiver, resultOf_bind, resultOf_get, Knowledge.settle]
  dsimp only
  split <;> rfl

theorem state_settleReceiver (site : Macro.Site) (template : String) :
    (standing.state given found matched k).settleReceiver given.ctx site template =
      standing.state given found matched (k.settle given site template) := by
  rw [State.settleReceiver, Knowledge.settle]
  split <;> split <;> first | rfl | contradiction

theorem settle_requests (site : Macro.Site) (template : String) :
    (k.settle given site template).requests = k.requests := by
  rw [Knowledge.settle]
  split <;> rfl

theorem settle_depth (site : Macro.Site) (template : String) :
    (k.settle given site template).depth = k.depth := by
  rw [Knowledge.settle]
  split <;> rfl

/-- The receiver's name is settled once. -/
theorem settle_settled {k' : Knowledge} {site : Macro.Site} {template : String}
    (h : k'.receivingDomain = (k.settle given site template).receivingDomain) :
    k'.settle given site template = k' := by
  rw [Knowledge.settle] at h ⊢
  split
  -- a template that still asked for the name would have settled it before
  · rename_i settles
    split at h
    · rw [settles.2.1] at h
      cases h
    · rename_i settled
      exact absurd ⟨settles.1, h ▸ settles.2.1, settles.2.2⟩ settled
  · rfl

/-! ## Templates in their turn -/

/-- What a template comes to with what is known. -/
def attempt (given : Situation) (site : Macro.Site) (domain template : String) (k : Knowledge) :
    Except Macro.Obstacle String :=
  Macro.expand (valuesOf given.identity domain k) given.ctx.localNames site template

/-- A template asks for the client's name only while it is unknown. -/
theorem attempt_ne_unknown {site : Macro.Site} {domain template : String}
    (h : k.clientDomain ≠ none) :
    attempt given site domain template k ≠ .error .clientDomainUnknown :=
  fun hu => h (Macro.expand_eq_unknown hu)

/-- The text of a template once the client's name is known. -/
def expandNamed (given : Situation) (site : Macro.Site) (domain template : String) :
    Eval (Except Error String) := do
  match attempt given site domain template (← get) with
  | .ok text => return .ok text
  | .error (.refused cause) => return .error cause
  | .error .clientDomainUnknown => return .error (.malformedTemplate template)

theorem resultOf_expand (site : Macro.Site) (domain template : String)
    (f : Except Error String → Eval α) :
    resultOf k (expand given site domain template >>= f) =
      match attempt given site domain template (k.settle given site template) with
      | .ok text => resultOf (k.settle given site template) (f (.ok text))
      | .error (.refused cause) => resultOf (k.settle given site template) (f (.error cause))
      | .error .clientDomainUnknown => resultOf (k.settle given site template)
          (validateClient given >>= fun _ => expandNamed given site domain template >>= f) := by
  simp only [expand, bind_assoc, resultOf_bind _ (settleReceiver _ _ _), resultOf_settleReceiver,
    resultOf_bind _ get, resultOf_get]
  unfold attempt expandNamed attempt
  generalize Macro.expand (valuesOf given.identity domain (k.settle given site template))
    given.ctx.localNames site template = attempted
  cases attempted with
  | ok text => rfl
  | error obstacle =>
    cases obstacle with
    | refused cause => rfl
    | clientDomainUnknown => exact congrArg (resultOf _) (bind_assoc _ _ _)

/-- What an expansion comes to: a text, or an error of the policy. -/
def IsExpansion : Except Error String → Prop
  | .ok _ => True
  | .error cause => cause.result = .permError

theorem handsOn_expansion {template : String} {purpose : Purpose} :
    HandsOn (.expansion template purpose) := fun _ _ => rfl

section Expansion

variable {purpose : Purpose} {template : String} {f : Except Error String → Eval α}
  {Q : α → Knowledge → State → Prop}

/-- A frame that expands a template again finds the client's name. -/
theorem follows_expandNamed
    (settled : k.settle given purpose.site template = k) (named : k.clientDomain ≠ none)
    (use : ∀ text, IsExpansion text → Follows given origin
      (purpose.use given.ctx text (standing.state given found matched k)) k (f text) Q) :
    Follows given origin
      (expandTo given.ctx purpose template (standing.state given found matched k)) k
      (expandNamed given purpose.site standing.domain template >>= f) Q := by
  have known := @attempt_ne_unknown given k purpose.site standing.domain template named
  unfold expandTo expandFor
  simp only [state_settleReceiver, settled]
  change Follows given origin
    (match attempt given purpose.site standing.domain template k with
      | .ok text => _
      | .error (.refused cause) => _
      | .error .clientDomainUnknown => _) k _ Q
  cases ha : attempt given purpose.site standing.domain template k with
  | ok text =>
    refine (use (.ok text) trivial).of_resultOf rfl (.of_eq rfl) ?_
    rw [expandNamed, bind_assoc, resultOf_bind, resultOf_get]
    simp only [ha, pure_bind]
  | error obstacle =>
    cases obstacle with
    | refused cause =>
      refine (use (.error cause) (Macro.expand_refused ha)).of_resultOf rfl (.of_eq rfl) ?_
      rw [expandNamed, bind_assoc, resultOf_bind, resultOf_get]
      simp only [ha, pure_bind]
    | clientDomainUnknown => exact absurd ha known

/-- A template in its turn follows its expansion, also when it is put aside. -/
theorem follows_expandTo (purpose : Purpose)
    (use : ∀ text k', IsExpansion text → Grows k k' → Follows given origin
      (purpose.use given.ctx text (standing.state given found matched k')) k' (f text) Q) :
    Follows given origin
      (expandTo given.ctx purpose template (standing.state given found matched k)) k
      (expand given purpose.site standing.domain template >>= f) Q := by
  have hr := @settle_requests given k purpose.site template
  have hd := @settle_depth given k purpose.site template
  have hf := @resultOf_expand _ given k purpose.site standing.domain template f
  unfold expandTo expandFor
  simp only [state_settleReceiver]
  change Follows given origin
    (match attempt given purpose.site standing.domain template
        (k.settle given purpose.site template) with
      | .ok text => _
      | .error (.refused cause) => _
      | .error .clientDomainUnknown => _) k _ Q
  cases ha : attempt given purpose.site standing.domain template
      (k.settle given purpose.site template) with
  | ok text =>
    rw [ha] at hf
    exact (use (.ok text) _ trivial (.of_eq hd)).of_resultOf hr (.of_eq hd) hf
  | error obstacle =>
    cases obstacle with
    | refused cause =>
      rw [ha] at hf
      exact (use (.error cause) _ (Macro.expand_refused ha) (.of_eq hd)).of_resultOf hr
        (.of_eq hd) hf
    | clientDomainUnknown =>
      rw [ha] at hf
      refine Follows.of_resultOf ?_ hr (.of_eq hd) hf
      -- the frame that is left finds the template settled and the client named
      refine follows_validateClient.bind _ (by simpa using handsOn_expansion) ?_
      rintro _ k' _ ⟨rfl, validated⟩ hk'
      refine Follows.frame (follows_expandNamed (settle_settled validated.receivingDomain)
        validated.named fun text ht => use text k' ht ?_)
      exact (Grows.of_eq hd).trans hk'

end Expansion

/-- A template whose refusal ends the check. -/
theorem follows_target {purpose : Purpose} {template : String} {f : String → Eval α}
    {Q : α → Knowledge → State → Prop} (hp : purpose.site = .domain)
    (refused : ∀ cause s, purpose.use given.ctx (.error cause) s = .fail s cause)
    (ho : standing.explanation = origin.explanation)
    (use : ∀ host k', Grows k k' → Follows given origin
      (purpose.use given.ctx (.ok host) (standing.state given found matched k')) k' (f host) Q) :
    Follows given origin
      (expandTo given.ctx purpose template (standing.state given found matched k)) k
      (target given standing.domain template >>= f) Q := by
  rw [target, bind_assoc, ← hp]
  refine follows_expandTo _ fun text k' ht hk' => ?_
  cases text with
  | ok host =>
    rw [pure_bind]
    exact use host k' hk'
  | error cause =>
    -- a refused template is an error of the policy, not a missing one
    rw [refused]
    exact Follows.fail (Standing.fails ho (by simp [show cause.result = .permError from ht]))

end SenderPolicy.Evaluation.Direct
