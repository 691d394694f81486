import SenderPolicy.Proofs.Course.Verdict
import SenderPolicy.Proofs.Simulation.Records

/-!
# The stages of a check

While the record of a domain is acquired, the stages that are left lie on top of the frames, in the
order of the policy. That order decides what a stage can find: a text is left only in front of the
stage that reads it, a record only in front of the terms, and a name is looked up for its record
only behind the stage that refuses malformed names. Everywhere else nothing is found, so that no
evaluation meets what another one has left.

## Main definitions

* `stagesOnTop`: the stages that are left of the acquisition of a record
* `Acquiring`: what holds of the acquisition at every point of a check

## Main results

* `Acquiring.step`, `Acquiring.heard`: steps and answers keep it
* `Reaches.acquiring`: it holds at every point of a check
-/

namespace SenderPolicy.Evaluation

open Direct (findsText stages_eq)

/-! ## The order of the stages -/

/-- What stands at the front of the end of a list, by where that end begins. -/
theorem suffix_append_cons {α : Type} {front back ys : List α} {x y : α}
    (h : y :: ys <:+ front ++ x :: back) :
    y ∈ front ∧ x ∈ ys ∨ y = x ∨ y :: ys <:+ back := by
  obtain ⟨pre, hp⟩ := h
  rcases List.append_eq_append_iff.mp hp with ⟨mid, rfl, hm⟩ | ⟨mid, rfl, hm⟩
  · cases mid with
    | nil => exact Or.inr (Or.inl (List.cons.inj hm).1)
    | cons z mid =>
      obtain ⟨rfl, rfl⟩ := List.cons.inj hm
      exact Or.inl ⟨by simp, by simp⟩
  · cases mid with
    | nil => exact Or.inr (Or.inl (List.cons.inj hm).1.symm)
    | cons z mid =>
      obtain ⟨rfl, rfl⟩ := List.cons.inj hm
      exact Or.inr (Or.inr (List.suffix_append mid (y :: ys)))

section Order

variable {policy : Policy} {st : Policy.Stage} {sts : List Policy.Stage}

/-- A stage that finds a text comes before the one that reads it. -/
theorem parsed_mem_of_findsText (h : st :: sts <:+ policy.stages) (hf : findsText st) :
    .parsed ∈ sts := by
  obtain ⟨front, back, hs, hb⟩ := stages_eq policy
  rw [hs] at h
  rcases suffix_append_cons h with ⟨-, hm⟩ | rfl | h
  · exact hm
  · cases hf
  · rw [hb st (h.mem List.mem_cons_self)] at hf
    cases hf

/-- In front of the stage that refuses malformed names there is at most a table of records, and it
does not come again. -/
theorem stages_eq_checked (policy : Policy) :
    ∃ later, policy.stages =
      (policy.overrides.map .overrides).toList ++ .wellFormed :: later ∧ .wellFormed ∉ later := by
  refine ⟨.published policy.isStrict :: ((policy.bestGuess.map .bestGuess).toList ++ [.parsed] ++
    (policy.fallbacks.map .fallbacks).toList ++ [.required] ++
    (policy.trustedForwarder.map .trustedForwarder).toList ++ [.neutralWithoutMatch] ++
    (policy.defaultExplanation.map .explanation).toList), ?_, by simp⟩
  simp only [Policy.stages, List.append_assoc, List.cons_append, List.nil_append]

/-- Records are looked up behind the stage that refuses malformed names. -/
theorem wellFormed_not_mem_of_published {isStrict : Bool}
    (h : .published isStrict :: sts <:+ policy.stages) : .wellFormed ∉ sts := by
  obtain ⟨later, hs, hl⟩ := stages_eq_checked policy
  rw [hs] at h
  rcases suffix_append_cons h with ⟨hm, -⟩ | h | h
  · obtain ⟨table, -, ht⟩ := Option.map_eq_some_iff.mp (Option.mem_toList.mp hm)
    cases ht
  · cases h
  · exact fun hm => hl (h.mem (List.mem_cons_of_mem _ hm))

theorem wellFormed_mem_stages (policy : Policy) : .wellFormed ∈ policy.stages := by
  obtain ⟨later, hs, -⟩ := stages_eq_checked policy
  rw [hs]
  exact List.mem_append_right _ List.mem_cons_self

end Order

/-! ## Stages on top -/

/-- The stages on top of the frames, the next one first. -/
def stagesOnTop : List Frame → List Policy.Stage
  | .stage st :: below => st :: stagesOnTop below
  | _ => []

theorem stagesOnTop_stages (stages : List Policy.Stage) (below : List Frame) :
    stagesOnTop (stages.map .stage ++ .terms :: below) = stages := by
  induction stages with
  | nil => rfl
  | cons st stages ih => simp [stagesOnTop, ih]

/-- The frame is on the way to the terms of a record. -/
def Frame.isAcquiring : Frame → Bool
  | stage _ | terms => true
  | _ => false

/-- No frame on top is on the way to the terms of a record. -/
def Apart (frames : List Frame) : Prop :=
  ∀ f ∈ frames.head?, f.isAcquiring = false

theorem apart_nil : Apart [] :=
  nofun

theorem apart_cons {f : Frame} (below : List Frame) (hf : f.isAcquiring = false) :
    Apart (f :: below) := by
  rintro _ ⟨⟩
  exact hf

theorem Apart.stagesOnTop {frames : List Frame} (h : Apart frames) : stagesOnTop frames = [] := by
  cases frames with
  | nil => rfl
  | cons f below =>
    cases f with
    | stage st => cases h _ rfl
    | _ => rfl

theorem Settled.apart {frames : List Frame} (h : Settled frames) : Apart frames := by
  obtain ⟨f, below, rfl, hf⟩ := h
  rintro _ ⟨⟩
  cases f <;> simp_all [Frame.isAcquiring, Frame.isLeading]

/-- Below a frame that is not a stage, nothing is on the way to the terms of a record. -/
theorem Frame.Fits.apart {f : Frame} {below : List Frame} (h : f.Fits below)
    (hs : f.isStage = false) : Apart below := by
  cases hf : f.isConclusion with
  | true =>
    cases f with
    | conclusion =>
      have hb : below = [] := h
      exact hb ▸ apart_nil
    | _ => cases hf
  | false => exact (h.settled hf hs).apart

/-! ## What the stages have found -/

/-- The listener waits for the record of a domain. -/
def Listener.isAcquiring : Listener → Bool
  | policyRecords _ _ | textRecords _ _ => true
  | _ => false

/-- The record of a domain is awaited. -/
def Signal.acquires : Signal → Bool
  | await _ listener => listener.isAcquiring
  | _ => false

/-- What holds of the acquisition of records at every point of a check. -/
structure Acquiring (ctx : Context) (m : Machine) : Prop where
  /-- The stages that are left are the last ones of the policy. -/
  stages : stagesOnTop m.frames <:+ ctx.policy.stages
  /-- A text is left for the stage that reads it. -/
  text : ¬m.IsOver → m.state.text ≠ none → .parsed ∈ stagesOnTop m.frames
  /-- A record is left for the stages and for the terms. -/
  record : ¬m.IsOver → m.state.record ≠ none → ¬Apart m.frames
  /-- The domain is well formed once the stage that refuses others is passed. -/
  checked : ¬m.IsOver → ¬Apart m.frames →
    .wellFormed ∈ stagesOnTop m.frames ∨ Domain.WellFormed m.state.domain
  /-- A record is awaited in front of the stage that reads it, and from a well-formed name. -/
  awaited : ∀ request listener, m.signal = .await request listener → listener.isAcquiring →
    .parsed ∈ stagesOnTop m.frames ∧ Domain.WellFormed request.host
  /-- The second lookup for a record asks the name of the first. -/
  asked : ∀ request domain isStrict, m.signal = .await request (.policyRecords domain isStrict) →
    request.host = domain

namespace Acquiring

variable {ctx : Context} {s t : State} {f : Frame} {fs below : List Frame} {p q : Signal}

/-- What holds where no record is awaited. -/
theorem of_acquires (stages : stagesOnTop fs <:+ ctx.policy.stages)
    (text : s.text ≠ none → .parsed ∈ stagesOnTop fs) (record : s.record ≠ none → ¬Apart fs)
    (checked : ¬Apart fs → .wellFormed ∈ stagesOnTop fs ∨ Domain.WellFormed s.domain)
    (hq : q.acquires = false) : Acquiring ctx ⟨q, s, fs⟩ where
  stages := stages
  text := fun _ => text
  record := fun _ => record
  checked := fun _ => checked
  awaited := by
    rintro request listener rfl hl
    rw [show Signal.acquires (.await request listener) = listener.isAcquiring from rfl, hl] at hq
    cases hq
  asked := by
    rintro request domain isStrict rfl
    cases hq

/-- Apart from the stages and the terms, nothing is found of a record. -/
theorem of_apart (ha : Apart fs) (text : s.text = none) (record : s.record = none)
    (hq : q.acquires = false) : Acquiring ctx ⟨q, s, fs⟩ := by
  refine .of_acquires ?_ (absurd text) (absurd record) (absurd ha) hq
  rw [ha.stagesOnTop]
  exact List.nil_suffix

/-- A check that is over has only its stages left. -/
theorem of_isOver (h : (⟨q, s, fs⟩ : Machine).IsOver)
    (stages : stagesOnTop fs <:+ ctx.policy.stages) : Acquiring ctx ⟨q, s, fs⟩ where
  stages := stages
  text := fun hn => absurd h hn
  record := fun hn => absurd h hn
  checked := fun hn => absurd h hn
  awaited := by
    rintro request listener rfl
    rcases h with ⟨cause, ⟨⟩⟩ | ⟨⟨⟩, -⟩
  asked := by
    rintro request domain isStrict rfl
    rcases h with ⟨cause, ⟨⟩⟩ | ⟨⟨⟩, -⟩

theorem text_eq_none (h : Acquiring ctx ⟨p, s, fs⟩) (hn : ¬(⟨p, s, fs⟩ : Machine).IsOver)
    (ha : Apart fs) : s.text = none := by
  refine Decidable.byContradiction fun ht => ?_
  have hm := h.text hn ht
  rw [ha.stagesOnTop] at hm
  cases hm

theorem record_eq_none (h : Acquiring ctx ⟨p, s, fs⟩) (hn : ¬(⟨p, s, fs⟩ : Machine).IsOver)
    (ha : Apart fs) : s.record = none :=
  Decidable.byContradiction fun hr => h.record hn hr ha

/-- What was found stays found while the frames stay. -/
theorem keep (h : Acquiring ctx ⟨p, s, fs⟩) (hp : ¬(⟨p, s, fs⟩ : Machine).IsOver)
    (text : t.text = s.text) (record : t.record = s.record) (domain : t.domain = s.domain)
    (hq : q.acquires = false) : Acquiring ctx ⟨q, t, fs⟩ :=
  .of_acquires h.stages (fun ht => h.text hp (text ▸ ht)) (fun hr => h.record hp (record ▸ hr))
    (fun hn => domain ▸ h.checked hp hn) hq

end Acquiring

/-! ## Frames and listeners apart from the acquisition -/

/-- Nothing of a record has been found or lost, and no record is awaited. -/
structure Reaction.Unfound (s : State) (r : Reaction) : Prop where
  text : r.state.text = s.text
  record : r.state.record = s.record
  signal : r.signal.acquires = false
  frames : Apart r.frames

theorem Apart.append {fs below : List Frame} (hf : Apart fs) (hb : Apart below) :
    Apart (fs ++ below) := by
  cases fs with
  | nil => exact hb
  | cons f fs => exact hf

theorem Expanded.unfound {s : State} {purpose : Purpose} {r : Reaction}
    (he : Expanded s purpose r) : r.Unfound s := by
  cases he with
  | aside r template request unknown same => exact ⟨rfl, rfl, rfl, apart_cons _ rfl⟩
  | refused r cause => exact ⟨rfl, rfl, rfl, apart_nil⟩
  | explained r explanation => exact ⟨rfl, rfl, rfl, apart_nil⟩
  | lookup r host type listener h =>
    refine ⟨rfl, rfl, ?_, apart_nil⟩
    cases purpose with
    | pointer =>
      obtain ⟨target, rfl⟩ := h
      rfl
    | inclusion | redirection | explanation | defaultExplanation => cases h
    | _ =>
      cases h
      rfl
  | included r target => exact ⟨rfl, rfl, rfl, apart_cons _ rfl⟩
  | redirected r target => exact ⟨rfl, rfl, rfl, apart_cons _ rfl⟩

/-- Only evaluations lead to stages, and only stages and terms have to do with records. -/
theorem Turn.unfound {ctx : Context} {s : State} {f : Frame} {r : Reaction} (ht : Turn ctx s f r)
    (hf : f.isAcquiring = false) (he : f ≠ .evaluation) : r.Unfound s := by
  have plain (t : State) (text : t.text = s.text) (record : t.record = s.record) :
      Reaction.Unfound s (.done t) := ⟨text, record, rfl, apart_nil⟩
  have failed (t : State) (cause : Error) (text : t.text = s.text) (record : t.record = s.record) :
      Reaction.Unfound s (.fail t cause) := ⟨text, record, rfl, apart_nil⟩
  have onto {t : State} {r : Reaction} (h : r.Unfound t) (text : t.text = s.text)
      (record : t.record = s.record) (qualifier : Qualifier) :
      (r.onto (.commitment qualifier)).Unfound s :=
    ⟨h.text.trans text, h.record.trans record, h.signal, h.frames.append (apart_cons [] rfl)⟩
  cases ht with
  | begun => exact absurd rfl he
  | found | lost | asked | opened | missing => cases hf
  | concluded =>
    unfold State.conclude
    split <;> exact plain _ rfl rfl
  | settled d isMatch h looks =>
    exact onto (plain { s with matched := some isMatch } rfl rfl) rfl rfl d.qualifier
  | exhausted d purpose h looks full =>
    exact onto (failed { s with matched := none } _ rfl rfl) rfl rfl d.qualifier
  | entered d purpose r h looks room expanded => exact onto expanded.unfound rfl rfl d.qualifier
  | committed qualifier =>
    rcases s.commit_eq qualifier with hc | hc <;> rw [hc] <;> exact plain _ rfl rfl
  | exhaustedRedirect => exact failed _ _ rfl rfl
  | enteredRedirect domain r h room expanded =>
    exact ⟨expanded.unfound.text, expanded.unfound.record, expanded.unfound.signal,
      expanded.unfound.frames⟩
  | explains domain r h heard expanded => exact expanded.unfound
  | explainsByDefault template r h heard expanded => exact expanded.unfound
  | expanded template purpose r expanded => exact expanded.unfound
  | _ => exact plain _ rfl rfl

/-! ## Stages in their turn -/

/-- A stage has a text to leave if it finds one, or does not read the one that is there. -/
theorem text_of_stageStep {s : State} {st : Policy.Stage}
    (hq : ∀ cause, (stageStep s st).signal ≠ .raise cause)
    (ht : (stageStep s st).state.text ≠ none) :
    findsText st ∨ st ≠ .parsed ∧ s.text ≠ none := by
  cases st with
  | published | bestGuess => exact Or.inl rfl
  | parsed =>
    simp only [stageStep] at hq ht
    split at ht
    · rename_i h
      exact absurd h ht
    · split at ht <;> exact absurd rfl ht
  | overrides | fallbacks | trustedForwarder | wellFormed | required =>
    refine Or.inr ⟨by simp, ?_⟩
    simp only [stageStep] at ht
    split at ht <;> exact ht
  | neutralWithoutMatch | explanation => exact Or.inr ⟨by simp, ht⟩

/-- The stage that refuses malformed names is passed by well-formed ones. -/
theorem wellFormed_of_stageStep {s : State}
    (hq : ∀ cause, (stageStep s .wellFormed).signal ≠ .raise cause) :
    Domain.WellFormed s.domain := by
  refine Decidable.byContradiction fun h => ?_
  simp only [stageStep, if_neg h] at hq
  exact hq _ rfl

/-! ## Steps and answers -/

/-- A cause takes one frame away and leaves none, whether it is handed on or handled. -/
theorem Machine.step_raise {ctx : Context} {cause : Error} {s : State} {f : Frame}
    {below : List Frame} {m : Machine}
    (hs : Machine.step ctx ⟨.raise cause, s, f :: below⟩ = some m) :
    ∃ q t, m = ⟨q, t, below⟩ := by
  cases f <;> simp only [Machine.step, Frame.catch, Option.some.injEq] at hs <;>
    exact ⟨_, _, hs.symm⟩

namespace Acquiring

variable {ctx : Context} {s : State} {f : Frame} {fs below : List Frame} {p : Signal}

/-- The stages that are left when a frame is gone. -/
theorem stages_below (h : Acquiring ctx ⟨p, s, f :: below⟩) (fits : f.Fits below) :
    stagesOnTop below <:+ ctx.policy.stages := by
  cases hf : f.isStage with
  | true =>
    cases f with
    | stage st => exact (List.suffix_cons st _).trans h.stages
    | _ => cases hf
  | false =>
    rw [(fits.apart hf).stagesOnTop]
    exact List.nil_suffix

/-- A stage in its turn keeps the order of the acquisition. -/
theorem stage {st : Policy.Stage} (h : Acquiring ctx ⟨.proceed, s, .stage st :: below⟩)
    (hb : ¬Apart below) : Acquiring ctx ((stageStep s st).above below) := by
  have hn : ¬(⟨.proceed, s, .stage st :: below⟩ : Machine).IsOver := fun ended => by
    cases ended.turns
  have ha : ¬Apart (.stage st :: below) := fun ha => by cases ha _ rfl
  have left : stagesOnTop below <:+ ctx.policy.stages :=
    (List.suffix_cons st (stagesOnTop below)).trans h.stages
  -- what is left for a later stage is left behind this one
  have later {st' : Policy.Stage} (hm : st' ∈ st :: stagesOnTop below) (hne : st ≠ st') :
      st' ∈ stagesOnTop below :=
    (List.mem_cons.mp hm).resolve_left (Ne.symm hne)
  have checked (hq : ∀ cause, (stageStep s st).signal ≠ .raise cause) :
      .wellFormed ∈ stagesOnTop below ∨ Domain.WellFormed s.domain := by
    by_cases hw : st = .wellFormed
    · subst hw
      exact Or.inr (wellFormed_of_stageStep hq)
    · exact (h.checked hn ha).imp_left fun hm => later hm hw
  have text (hq : ∀ cause, (stageStep s st).signal ≠ .raise cause)
      (ht : (stageStep s st).state.text ≠ none) : .parsed ∈ stagesOnTop below := by
    rcases text_of_stageStep hq ht with hf | ⟨hp, ht⟩
    · exact parsed_mem_of_findsText h.stages hf
    · exact later (h.text hn ht) hp
  have turn := stageStep_turn ctx s st
  generalize stageStep s st = r at turn checked text
  cases turn with
  | found text' record =>
    exact .of_acquires left (text nofun) (fun _ => hb) (fun _ => checked nofun) rfl
  | lost st text' cause => exact of_isOver (Or.inl ⟨cause, rfl⟩) left
  | asked isStrict =>
    have hp : .parsed ∈ stagesOnTop below := parsed_mem_of_findsText h.stages rfl
    have hw : Domain.WellFormed s.domain :=
      (checked nofun).resolve_left (wellFormed_not_mem_of_published h.stages)
    refine ⟨left, fun _ _ => hp, fun _ _ => hb, fun _ _ => Or.inr hw, ?_, ?_⟩
    · rintro _ _ ⟨⟩ -
      exact ⟨hp, hw⟩
    · rintro _ _ _ ⟨⟩
      rfl

/-- A frame in its turn keeps the order of the acquisition. -/
theorem turn (h : Acquiring ctx ⟨.proceed, s, f :: below⟩)
    (ho : Orderly ⟨.proceed, s, f :: below⟩) :
    Acquiring ctx ((f.check ctx s).above below) := by
  have hn : ¬(⟨.proceed, s, f :: below⟩ : Machine).IsOver := fun ended => by cases ended.turns
  -- a frame that is neither a stage nor the terms leads to no record and has found none
  have plain (hf : f.isAcquiring = false) (he : f ≠ .evaluation) :
      Acquiring ctx ((f.check ctx s).above below) := by
    have ha : Apart (f :: below) := apart_cons below hf
    have hr := (check_turn ctx s f).unfound hf he
    have hb : Apart below :=
      ho.stacked.1.apart (by cases f <;> simp_all [Frame.isAcquiring, Frame.isStage])
    exact of_apart (hr.frames.append hb) (hr.text.trans (h.text_eq_none hn ha))
      (hr.record.trans (h.record_eq_none hn ha)) hr.signal
  cases f with
  | stage st =>
    refine h.stage ?_
    obtain ⟨g, rest, rfl, hg⟩ := ho.stacked.1
    intro ha
    have hg' := ha g rfl
    rcases hg with rfl | ⟨st', rfl⟩ <;> cases hg'
  | terms =>
    have ht : s.text = none := Decidable.byContradiction fun ht => by cases h.text hn ht
    have turn := check_turn ctx s .terms
    generalize Frame.check ctx s .terms = r at turn ⊢
    cases turn with
    | opened record hr =>
      have hs := (stacked_framesOf (ho.single record hr) ho.stacked.1 ho.stacked.2).1
      exact of_apart hs.apart ht rfl rfl
    | missing =>
      exact of_isOver (Or.inl ⟨_, rfl⟩) (h.stages_below ho.stacked.1)
  | evaluation =>
    have ha : Apart (.evaluation :: below) := apart_cons below rfl
    have hst := stagesOnTop_stages ctx.policy.stages below
    simp only [Frame.check, Reaction.above, Reaction.leave, List.append_assoc,
      List.singleton_append]
    refine .of_acquires ?_ (absurd (h.text_eq_none hn ha)) (absurd (h.record_eq_none hn ha))
      (fun _ => Or.inl ?_) rfl
    · simp only [hst, List.suffix_rfl]
    · rw [hst]
      exact wellFormed_mem_stages ctx.policy
  | _ => exact plain rfl (by simp)

/-- Steps keep the order of the acquisition. -/
theorem step {m m' : Machine} (h : Acquiring ctx m) (ho : Orderly m) (hs : m.step ctx = some m') :
    Acquiring ctx m' := by
  obtain ⟨signal, s, frames⟩ := m
  cases signal with
  | await request listener => simp [Machine.step] at hs
  | proceed =>
    cases frames with
    | nil => simp [Machine.step] at hs
    | cons f below =>
      simp only [Machine.step, Option.some.injEq] at hs
      subst hs
      exact h.turn ho
  | raise cause =>
    cases frames with
    | nil => cases (ho.ended rfl).1
    | cons f below =>
      have ended : m'.IsOver := ho.step_isOver (Or.inl ⟨cause, rfl⟩) hs
      have hst := h.stages_below ho.stacked.1
      obtain ⟨q, t, rfl⟩ := Machine.step_raise hs
      exact of_isOver ended hst

/-- Answers keep the order of the acquisition. -/
theorem heard {request : Dns.Request} {listener : Listener} {r : Reaction}
    (h : Acquiring ctx ⟨.await request listener, s, fs⟩)
    (ho : Orderly ⟨.await request listener, s, fs⟩) (hh : Heard ctx s listener r) :
    Acquiring ctx (r.above fs) := by
  have hn : ¬(⟨.await request listener, s, fs⟩ : Machine).IsOver := fun ended => by
    cases ended.awaits
  cases hh with
  | failed l cause => exact of_isOver (Or.inl ⟨cause, rfl⟩) h.stages
  | policyText domain isStrict text =>
    exact .of_acquires h.stages (fun _ => (h.awaited _ _ rfl rfl).1) (h.record hn) (h.checked hn)
      rfl
  | text isStrict other text =>
    exact .of_acquires h.stages (fun _ => (h.awaited _ _ rfl rfl).1) (h.record hn) (h.checked hn)
      rfl
  | askedText domain isStrict other =>
    obtain ⟨hp, hw⟩ := h.awaited _ _ rfl rfl
    rw [h.asked _ _ _ rfl] at hw
    refine ⟨h.stages, fun _ => h.text hn, fun _ => h.record hn, fun _ => h.checked hn, ?_, nofun⟩
    rintro _ _ ⟨⟩ -
    exact ⟨hp, hw⟩
  | explains r expanded =>
    have ha : Apart fs := (ho.awaited rfl).apart
    have hr := expanded.unfound
    exact of_apart (hr.frames.append ha) (hr.text.trans (h.text_eq_none hn ha))
      (hr.record.trans (h.record_eq_none hn ha)) hr.signal
  | _ => exact h.keep hn rfl rfl rfl rfl

end Acquiring

/-- The order of the acquisition at every point of a check. -/
theorem Reaches.acquiring {ctx : Context} {identity : Identity} {receivingDomain : Option String}
    {terms lookups : Nat} {m : Machine}
    (h : Reaches ctx (machineOf identity receivingDomain) terms lookups m) : Acquiring ctx m := by
  have begun : Orderly (machineOf identity receivingDomain) := .begin identity receivingDomain
  induction h with
  | refl => exact .of_apart (apart_cons _ rfl) rfl rfl rfl
  | step before hs ih => exact ih.step (before.orderly begun) hs
  | @answer _ _ m _ listener before hs answer ih =>
    have ho := before.orderly begun
    obtain ⟨signal, s, frames⟩ := m
    subst hs
    exact ih.heard ho (resume_heard ctx answer s listener)

end SenderPolicy.Evaluation
