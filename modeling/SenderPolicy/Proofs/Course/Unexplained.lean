import SenderPolicy.Proofs.Course.Decision
import SenderPolicy.Proofs.Course.Phases

/-!
# Checks without explanations

What only explanations depend on can be left out of a check: the receiver's template and names,
the time, the explanation kept so far, and the stages and decorations that explain. As long as no
failure is committed outside of inclusions, every step of a check is then a step of the check
without explanations, or changes nothing about it, and both ask for the same lookups.

## Main definitions

* `Context.unexplained`, `State.unexplained`, `Machine.unexplained`: what is left without
  explanations
* `Unheard`: nothing has been explained so far

## Main results

* `Frame.check_unexplained`, `Listener.resume_unexplained`: frames and listeners without
  explanations
* `Machine.step_unexplained`: steps without explanations
* `Unheard.step`, `Unheard.resume`: nothing is explained before a failure is committed
-/

namespace SenderPolicy

/-! ## Templates of domains

Only explanations refer to the receiver and to the time. -/

namespace Macro

variable (values : Values) (localNames localNames' : List String) (receivingDomain : Option String)
  (timestamp : Int)

theorem ofLetter_domain (letter : Char) :
    { values with receivingDomain := receivingDomain, timestamp := timestamp }.ofLetter localNames'
      .domain letter = values.ofLetter localNames .domain letter := by
  unfold Values.ofLetter
  split <;> simp_all

theorem expandElement_domain (template : String) (e : Element) :
    expandElement { values with receivingDomain := receivingDomain, timestamp := timestamp }
      localNames' .domain template e = expandElement values localNames .domain template e := by
  cases e with
  | cell content =>
    simp only [expandElement, expandCell]
    split
    · rfl
    · rw [ofLetter_domain values localNames]
  | _ => rfl

/-- A domain refers neither to the receiver nor to the time. -/
theorem expand_domain (template : String) :
    expand { values with receivingDomain := receivingDomain, timestamp := timestamp } localNames'
      .domain template = expand values localNames .domain template := by
  simp only [expand, expandPiece]
  congr 3
  funext e
  exact expandElement_domain values localNames localNames' receivingDomain timestamp template e

end Macro

/-! ## What is left without explanations -/

/-- The identities apart from the time. -/
def Identity.timeless (identity : Identity) : Identity :=
  { identity with timestamp := 0 }

namespace Evaluation

/-- A record without the decorations that explain. -/
def unexplainedRecord (record : Record) : Record :=
  { record with decorations := record.decorations.filter fun d => (templateOf d).isNone }

/-- What a check does not change, without what explanations depend on. -/
def Context.unexplained (ctx : Context) : Context :=
  { ctx with policy := { ctx.policy with defaultExplanation := none }, localNames := [] }

/-- The state without what explanations depend on. -/
def State.unexplained (s : State) : State :=
  { s with
    identity := s.identity.timeless, receivingDomain := none, explanation := none,
    record := s.record.map unexplainedRecord }

/-- The frame without what explanations depend on; a stage or a decoration that explains is none. -/
def Frame.unexplained : Frame → Option Frame
  | stage (.explanation _) => none
  | decoration (.explanation _) => none
  | restoration domain _ isMuted => some (restoration domain none isMuted)
  | f => some f

def Reaction.unexplained (r : Reaction) : Reaction :=
  ⟨r.state.unexplained, r.frames.filterMap Frame.unexplained, r.signal⟩

def Machine.unexplained (m : Machine) : Machine :=
  ⟨m.signal, m.state.unexplained, m.frames.filterMap Frame.unexplained⟩

section Reactions

variable {s : State}

@[simp] theorem unexplained_done : (Reaction.done s).unexplained = .done s.unexplained := rfl

@[simp] theorem unexplained_leave (frames : List Frame) :
    (Reaction.leave s frames).unexplained =
      .leave s.unexplained (frames.filterMap Frame.unexplained) := rfl

theorem unexplained_above (r : Reaction) (below : List Frame) :
    (r.above below).unexplained =
      r.unexplained.above (below.filterMap Frame.unexplained) := by
  simp [Reaction.above, Machine.unexplained, Reaction.unexplained, List.filterMap_append]

theorem unexplained_conclude (s : State) (result : Result) :
    (s.conclude result).unexplained = s.unexplained.conclude result := by
  obtain ⟨_, _, _, _, _, _, _, _, _, _, _, _ | _⟩ := s <;> rfl

theorem unexplained_commit (s : State) (q : Qualifier) :
    (s.commit q).unexplained = s.unexplained.commit q := by
  unfold State.commit
  split
  · exact (if_pos (c := s.matched = some true) ‹_›).symm
  · exact (if_neg (c := s.matched = some true) ‹_›).symm

end Reactions

/-! ## Records -/

/-- A record that was read has no decoration. -/
theorem unexplainedRecord_of_parse {text : String} {record : Record}
    (h : Record.parse text = .ok record) : unexplainedRecord record = record := by
  have none_left := decorations_of_parse h
  obtain ⟨_, _, _, decorations⟩ := record
  cases none_left
  rfl

theorem map_unexplainedRecord_lookup (table : Policy.Table) (domain : String) :
    (table.lookup domain).map unexplainedRecord = table.lookup domain := by
  cases hl : table.lookup domain with
  | none => rfl
  | some record =>
    exact congrArg some (unexplainedRecord_of_parse (Policy.Table.parse_of_lookup hl))

theorem unexplainedRecord_decorate (template : String) (record : Record) :
    unexplainedRecord (decorate (.explanation template) record) = unexplainedRecord record := by
  simp [unexplainedRecord, decorate, templateOf]

/-- Frames that have nothing to do with explanations are kept. -/
theorem filterMap_unexplained {frames : List Frame} (h : ∀ f ∈ frames, f.unexplained = some f) :
    frames.filterMap Frame.unexplained = frames := by
  induction frames with
  | nil => rfl
  | cons f frames ih =>
    rw [List.forall_mem_cons] at h
    rw [List.filterMap_cons_some h.1, ih h.2]

theorem filterMap_framesOf (record : Record) :
    (framesOf record).filterMap Frame.unexplained = framesOf (unexplainedRecord record) := by
  have directives : (record.directives.map Frame.directive).filterMap Frame.unexplained =
      record.directives.map .directive := by
    refine filterMap_unexplained fun f hf => ?_
    obtain ⟨d, -, rfl⟩ := List.mem_map.mp hf
    rfl
  have modifiers : (record.modifiers.map Frame.modifier).filterMap Frame.unexplained =
      record.modifiers.map .modifier := by
    refine filterMap_unexplained fun f hf => ?_
    obtain ⟨m, -, rfl⟩ := List.mem_map.mp hf
    rfl
  have decorations (ds : List Decoration) :
      (ds.map Frame.decoration).filterMap Frame.unexplained =
        (ds.filter fun d => (templateOf d).isNone).map .decoration := by
    induction ds with
    | nil => rfl
    | cons d ds ih =>
      cases d with
      | neutralWithoutMatch => exact congrArg (_ :: ·) ih
      | explanation template => exact ih
  simp only [framesOf, List.filterMap_append, directives, modifiers, decorations,
    unexplainedRecord]

theorem stages_eq_unexplained (ctx : Context) :
    ctx.policy.stages = ctx.unexplained.policy.stages ++
      (ctx.policy.defaultExplanation.map .explanation).toList := by
  simp [Policy.stages, Context.unexplained]

/-- The stages without the one that explains. -/
theorem filterMap_stages (ctx : Context) :
    (ctx.policy.stages.map Frame.stage).filterMap Frame.unexplained =
      ctx.unexplained.policy.stages.map .stage := by
  have kept : (ctx.unexplained.policy.stages.map Frame.stage).filterMap Frame.unexplained =
      ctx.unexplained.policy.stages.map .stage := by
    refine filterMap_unexplained fun f hf => ?_
    obtain ⟨st, hst, rfl⟩ := List.mem_map.mp hf
    obtain ⟨front, hs, unexplained⟩ := stages_eq_explanation ctx.unexplained.policy
    rw [hs, Context.unexplained, Option.map_none, Option.toList_none, List.append_nil] at hst
    have := List.filterMap_eq_nil_iff.mp unexplained st hst
    cases st with
    | explanation template => cases this
    | _ => rfl
  rw [stages_eq_unexplained, List.map_append, List.filterMap_append, kept]
  cases ctx.policy.defaultExplanation <;> simp [Frame.unexplained]

/-! ## Frames and listeners -/

section Frames

variable {ctx : Context} {s : State}

/-- A template that explains nothing is expanded to the same text, for the same use. -/
theorem expandTo_unexplained {purpose : Purpose} (h : purpose.explains = false)
    (template : String) (s : State) :
    (expandTo ctx purpose template s).unexplained =
      expandTo ctx.unexplained purpose template s.unexplained := by
  have text : Macro.expand s.unexplained.values ctx.unexplained.localNames .domain template =
      Macro.expand s.values ctx.localNames .domain template :=
    Macro.expand_domain s.values ctx.localNames _ none 0 template
  simp only [expandTo, expandFor, site_of_explains h, settleReceiver_domain, text]
  cases Macro.expand s.values ctx.localNames .domain template with
  | error obstacle =>
    cases obstacle with
    | clientDomainUnknown => rfl
    | refused cause =>
      cases purpose with
      | explanationDomain | explanation | defaultExplanation => cases h
      | _ => rfl
  | ok text =>
    cases purpose with
    | explanationDomain | explanation | defaultExplanation => cases h
    | _ => rfl

theorem counted_unexplained {enter enter' : State → Reaction}
    (h : ∀ s, (enter s).unexplained = enter' s.unexplained) (s : State) :
    (s.counted enter).unexplained = s.unexplained.counted enter' := by
  unfold State.counted
  split
  · exact (h _).trans (if_pos (c := s.depth < maxTerms) ‹_›).symm
  · exact (if_neg (c := s.depth < maxTerms) ‹_›).symm

theorem mechanismStep_unexplained (s : State) (mechanism : Mechanism) :
    (mechanismStep ctx s mechanism).unexplained =
      mechanismStep ctx.unexplained s.unexplained mechanism := by
  cases mechanism with
  | all => rfl
  | network4 net | network6 net =>
    have client : s.unexplained.identity.client = s.identity.client := rfl
    simp only [mechanismStep, client]
    cases s.identity.client <;> rfl
  | _ => exact counted_unexplained (expandTo_unexplained rfl _) s

theorem directiveStep_unexplained (s : State) (d : Directive) :
    (directiveStep ctx s d).unexplained = directiveStep ctx.unexplained s.unexplained d := by
  unfold directiveStep
  split
  · exact (if_pos (c := s.verdict.isSome = true) ‹_›).symm
  · refine .trans ?_ (if_neg (c := s.verdict.isSome = true) ‹_›).symm
    have tried : (mechanismStep ctx { s with matched := none } d.mechanism).unexplained =
        mechanismStep ctx.unexplained { s.unexplained with matched := none } d.mechanism :=
      mechanismStep_unexplained { s with matched := none } d.mechanism
    rw [← tried]
    simp [Reaction.unexplained, List.filterMap_append, Frame.unexplained]

/-- Nothing is to be explained: no failure is committed outside of inclusions. -/
def State.Quiet (s : State) : Prop :=
  s.isMuted = false → s.verdict ≠ some .fail

namespace State.Quiet

theorem not_heard (h : s.Quiet) : ¬(s.verdict = some .fail ∧ ¬s.isMuted) :=
  fun heard => h (Bool.not_eq_true _ ▸ heard.2) heard.1

theorem congr {t : State} (h : s.Quiet) (hv : t.verdict = s.verdict)
    (hm : t.isMuted = s.isMuted) : t.Quiet := by
  unfold Quiet
  rw [hv, hm]
  exact h

theorem conclude (h : s.Quiet) (result : Result) : (s.conclude result).Quiet := by
  unfold State.conclude
  split
  · exact h
  · exact h

end State.Quiet

theorem modifierStep_unexplained (h : s.Quiet) (m : Modifier) :
    (modifierStep ctx s m).unexplained = modifierStep ctx.unexplained s.unexplained m := by
  cases m with
  | redirect domain =>
    simp only [modifierStep]
    split
    · exact (if_pos (c := s.verdict.isSome = true) ‹_›).symm
    · refine .trans ?_ (if_neg (c := s.verdict.isSome = true) ‹_›).symm
      exact counted_unexplained (expandTo_unexplained rfl domain) s
  | explanation domain =>
    simp only [modifierStep]
    rw [if_neg h.not_heard]
    exact (if_neg (c := s.verdict = some .fail ∧ ¬s.isMuted) h.not_heard).symm
  | unknown name value => rfl

theorem decorationStep_unexplained (s : State) :
    (decorationStep ctx s .neutralWithoutMatch).unexplained =
      decorationStep ctx.unexplained s.unexplained .neutralWithoutMatch := by
  simp only [decorationStep, unexplained_done]
  congr 1
  split
  · exact (if_pos (c := s.verdict.isNone = true) ‹_›).symm
  · exact (if_neg (c := s.verdict.isNone = true) ‹_›).symm

/-- A decoration that explains does nothing when nothing is to be explained. -/
theorem decorationStep_of_quiet (h : s.Quiet) (template : String) :
    decorationStep ctx s (.explanation template) = .done s :=
  if_neg fun heard => h.not_heard ⟨heard.1, heard.2.2⟩

theorem termsStep_unexplained (s : State) :
    (termsStep s).unexplained = termsStep s.unexplained := by
  obtain ⟨_, _, _, _, _, _, _, _, _, _, record, _⟩ := s
  cases record with
  | none => rfl
  | some record =>
    simp only [termsStep, unexplained_leave, filterMap_framesOf]
    rfl

theorem isSome_record_unexplained (s : State) :
    s.unexplained.record.isSome = s.record.isSome :=
  Option.isSome_map

theorem isNone_record_unexplained (s : State) :
    s.unexplained.record.isNone = s.record.isNone :=
  Option.isNone_map

/-- A stage that explains nothing finds the same. -/
theorem stageStep_unexplained (s : State) {st : Policy.Stage} (h : templateOfStage st = none) :
    (stageStep s st).unexplained = stageStep s.unexplained st := by
  cases st with
  | explanation template => cases h
  | overrides table =>
    have held := map_unexplainedRecord_lookup table s.domain
    have domain : s.unexplained.domain = s.domain := rfl
    simp only [stageStep, domain]
    cases hl : table.lookup s.domain with
    | none => rfl
    | some record =>
      rw [hl] at held
      simp only [unexplained_done, State.unexplained, held]
  | wellFormed =>
    simp only [stageStep]
    split
    · exact (if_pos (c := Domain.WellFormed s.domain) ‹_›).symm
    · exact (if_neg (c := Domain.WellFormed s.domain) ‹_›).symm
  | published isStrict =>
    have text : s.unexplained.text = s.text := rfl
    simp only [stageStep, isSome_record_unexplained, text]
    split <;> rfl
  | bestGuess guess =>
    have text : s.unexplained.text = s.text := rfl
    simp only [stageStep, isNone_record_unexplained, text]
    split <;> rfl
  | parsed =>
    have text : s.unexplained.text = s.text := rfl
    simp only [stageStep, text]
    cases s.text with
    | none => rfl
    | some text =>
      cases hp : Record.parse text with
      | error cause =>
        simp only [hp]
        rfl
      | ok record =>
        simp only [hp, unexplained_done, State.unexplained, Option.map_some,
          unexplainedRecord_of_parse hp]
  | fallbacks table =>
    have held := map_unexplainedRecord_lookup table s.domain
    simp only [stageStep, isNone_record_unexplained]
    split
    · simp only [unexplained_done, State.unexplained, held]
    · rfl
  | required =>
    simp only [stageStep, isNone_record_unexplained]
    split <;> rfl
  | trustedForwarder domain =>
    simp only [stageStep]
    split
    · exact (if_pos (c := Text.sameFolded s.domain domain = true) ‹_›).symm
    · refine .trans ?_ (if_neg (c := Text.sameFolded s.domain domain = true) ‹_›).symm
      simp only [unexplained_done, State.unexplained, Option.map_map]
      rfl
  | neutralWithoutMatch =>
    simp only [stageStep, unexplained_done, State.unexplained, Option.map_map]
    congr 3
    funext record
    simp only [Function.comp_apply]
    split
    · exact (if_pos (c := record.directives = []) ‹_›).symm
    · refine .trans ?_ (if_neg (c := record.directives = []) ‹_›).symm
      simp [unexplainedRecord, decorate, List.filter_append, templateOf]

/-- A stage that explains adds nothing else. -/
theorem stageStep_explanation (s : State) (template : String) :
    ∃ t, stageStep s (.explanation template) = .done t ∧ t.unexplained = s.unexplained := by
  refine ⟨_, rfl, ?_⟩
  simp only [State.unexplained, Option.map_map]
  congr 2
  funext record
  exact unexplainedRecord_decorate template record

/-- The frame goes on with an explanation. -/
def Frame.isExplaining : Frame → Bool
  | expansion _ purpose => purpose.explains
  | _ => false

/-- A frame that is left does the same without explanations. -/
theorem Frame.check_unexplained {f g : Frame} (hq : s.Quiet) (hf : f.isExplaining = false)
    (hg : f.unexplained = some g) :
    (f.check ctx s).unexplained = g.check ctx.unexplained s.unexplained := by
  cases f with
  | conclusion =>
    cases hg
    exact congrArg Reaction.done (unexplained_conclude s _)
  | evaluation =>
    cases hg
    simp only [Frame.check, unexplained_leave, List.filterMap_append, filterMap_stages]
    rfl
  | stage st =>
    cases st with
    | explanation template => cases hg
    | _ =>
      cases hg
      exact stageStep_unexplained s rfl
  | terms =>
    cases hg
    exact termsStep_unexplained s
  | directive d =>
    cases hg
    exact directiveStep_unexplained s d
  | commitment q =>
    cases hg
    exact congrArg Reaction.done (unexplained_commit s q)
  | modifier m =>
    cases hg
    exact modifierStep_unexplained hq m
  | decoration d =>
    cases d with
    | explanation template => cases hg
    | neutralWithoutMatch =>
      cases hg
      exact @decorationStep_unexplained ctx s
  | restoration domain explanation isMuted =>
    cases hg
    rfl
  | arrival =>
    cases hg
    rfl
  | expansion template purpose =>
    cases hg
    exact expandTo_unexplained hf template s

/-- A frame that is not left does nothing. -/
theorem Frame.check_explanation {f : Frame} (hq : s.Quiet) (hf : f.unexplained = none) :
    ∃ t, f.check ctx s = .done t ∧ t.unexplained = s.unexplained := by
  cases f with
  | stage st =>
    cases st with
    | explanation template =>
      exact stageStep_explanation s template
    | _ => cases hf
  | decoration d =>
    cases d with
    | explanation template => exact ⟨s, decorationStep_of_quiet hq template, rfl⟩
    | neutralWithoutMatch => cases hf
  | _ => cases hf

/-- A frame hands the same cause on, or handles it, without explanations. -/
theorem Frame.catch_unexplained {f g : Frame} (hg : f.unexplained = some g) (cause : Error) :
    ((f.catch cause s).1.unexplained, (f.catch cause s).2) = g.catch cause s.unexplained := by
  cases f with
  | conclusion =>
    cases hg
    exact congrArg (·, none) (unexplained_conclude s cause.result)
  | stage st =>
    cases st <;> cases hg
    all_goals rfl
  | decoration d =>
    cases d <;> cases hg
    rfl
  | _ =>
    cases hg
    rfl

theorem Frame.catch_explanation {f : Frame} (hf : f.unexplained = none) (cause : Error) :
    f.catch cause s = (s, some cause) := by
  cases f with
  | stage | decoration => rfl
  | _ => cases hf

theorem nextExchange_unexplained (lengths : CidrLengths) (s : State) (hosts : List String) :
    (nextExchange lengths s hosts).unexplained = nextExchange lengths s.unexplained hosts := by
  cases hosts <;> rfl

theorem nextPointer_unexplained (s : State) (names : List String) :
    (nextPointer s names).unexplained = nextPointer s.unexplained names := by
  cases names <;> rfl

/-- What does not wait for a published explanation does the same without explanations. -/
theorem Listener.resume_unexplained {listener : Listener} (hl : listener ≠ .explanationTexts)
    (answer : Dns.Answer) (s : State) :
    (listener.resume ctx answer s).unexplained =
      listener.resume ctx.unexplained answer s.unexplained := by
  cases listener with
  | policyRecords domain isStrict =>
    simp only [Listener.resume, policyAnswered]
    split
    · rfl
    · split <;> rfl
  | textRecords isStrict other =>
    simp only [Listener.resume, textAnswered]
    split <;> rfl
  | addresses lengths =>
    simp only [Listener.resume, addressesAnswered]
    split <;> rfl
  | exchanges lengths =>
    simp only [Listener.resume, exchangesAnswered]
    split
    · rfl
    · exact nextExchange_unexplained lengths s _
  | exchangeAddresses rest lengths =>
    have same : s.unexplained.identity.inNetwork = s.identity.inNetwork := rfl
    simp only [Listener.resume, exchangeAddressesAnswered, same]
    split
    · rfl
    · split
      · rfl
      · exact nextExchange_unexplained lengths s rest
  | pointers target =>
    simp only [Listener.resume, pointersAnswered]
    split <;> exact nextPointer_unexplained s _
  | pointerAddresses rest =>
    have same : s.unexplained.identity.isClient = s.identity.isClient := rfl
    simp only [Listener.resume, pointerAddressesAnswered, same]
    split
    · exact nextPointer_unexplained s rest
    · split
      · rfl
      · exact nextPointer_unexplained s rest
  | existence =>
    simp only [Listener.resume, existenceAnswered]
    split <;> rfl
  | explanationTexts => exact absurd rfl hl
  | clientNames =>
    simp only [Listener.resume, clientNamed]
    split <;> rfl
  | clientAddresses name => rfl

end Frames

/-! ## Before a failure is committed -/

/-- Nothing has been explained so far, and nothing is about to be. -/
structure Unheard (m : Machine) : Prop where
  quiet : m.state.Quiet
  explaining : ∀ f ∈ m.frames, f.isExplaining = false
  awaited : m.signal.explains = false

namespace Unheard

variable {ctx : Context} {s : State} {f : Frame} {below : List Frame} {m m' : Machine}

theorem begin (identity : Identity) (receivingDomain : Option String) :
    Unheard (.begin (.initial identity receivingDomain)) where
  quiet := fun _ => nofun
  explaining := by
    intro f hf
    simp only [Machine.begin, List.mem_cons, List.not_mem_nil, or_false] at hf
    rcases hf with rfl | rfl <;> rfl
  awaited := rfl

/-- A template that explains nothing leads to nothing that does. -/
theorem of_expanded {purpose : Purpose} {r : Reaction} (he : Expanded s purpose r)
    (hp : purpose.explains = false) (hq : s.Quiet)
    (hb : ∀ f ∈ below, f.isExplaining = false) : Unheard (r.above below) := by
  cases he with
  | @aside _ purpose' r template request unknown same =>
    refine ⟨hq, List.forall_mem_cons.mpr ⟨?_, hb⟩, rfl⟩
    rcases same with rfl | ⟨he, -⟩
    · exact hp
    · rw [hp] at he
      cases he
  | refused => exact ⟨hq, hb, rfl⟩
  | explained r explanation he =>
    rw [hp] at he
    cases he
  | lookup r host type listener awaits => exact ⟨hq, hb, awaits.explains hp⟩
  | included =>
    exact ⟨nofun, List.forall_mem_cons.mpr ⟨rfl, List.forall_mem_cons.mpr ⟨rfl, hb⟩⟩, rfl⟩
  | redirected =>
    exact ⟨hq, List.forall_mem_cons.mpr ⟨rfl, List.forall_mem_cons.mpr ⟨rfl, hb⟩⟩, rfl⟩

/-- Until a failure is committed outside of inclusions, a frame in its turn explains nothing. -/
theorem turn {r : Reaction} (h : Unheard ⟨.proceed, s, f :: below⟩)
    (ho : Orderly ⟨.proceed, s, f :: below⟩) (hd : ¬Decides .fail ⟨.proceed, s, f :: below⟩)
    (ht : Turn ctx s f r) : Unheard (r.above below) := by
  have quiet : s.Quiet := h.quiet
  obtain ⟨own, hb⟩ := List.forall_mem_cons.mp h.explaining
  cases ht with
  | concluded => exact ⟨quiet.conclude _, hb, rfl⟩
  | begun =>
    refine ⟨quiet, List.forall_mem_append.mpr ⟨List.forall_mem_append.mpr ⟨?_, ?_⟩, hb⟩, rfl⟩
    · intro f hf
      obtain ⟨st, -, rfl⟩ := List.mem_map.mp hf
      rfl
    · exact List.forall_mem_singleton.mpr rfl
  | opened record =>
    refine ⟨quiet, List.forall_mem_append.mpr ⟨?_, hb⟩, rfl⟩
    exact forall_mem_framesOf record (fun _ => rfl) (fun _ => rfl) fun _ => rfl
  | settled | exhausted => exact ⟨quiet, List.forall_mem_cons.mpr ⟨rfl, hb⟩, rfl⟩
  | entered d purpose r hv looks room expanded =>
    rw [Reaction.above_onto]
    exact of_expanded expanded (explains_of_purposeOf looks) quiet
      (List.forall_mem_cons.mpr ⟨rfl, hb⟩)
  | enteredRedirect domain r hv room expanded => exact of_expanded expanded rfl quiet hb
  | committed q =>
    refine ⟨?_, hb, rfl⟩
    show (s.commit q).Quiet
    unfold State.commit
    split
    · -- a failure is not committed here unless it is one of an inclusion
      rename_i matched
      rintro audible ⟨⟩
      exact hd ⟨rfl, matched, below, rfl, (ho.audible audible · <| List.mem_cons_of_mem _ ·)⟩
    · exact quiet
  | explains domain r hv heard => exact absurd hv (quiet heard)
  | explainsByDefault template r hv heard => exact absurd hv (quiet heard)
  | neutral => exact ⟨fun _ => nofun, hb, rfl⟩
  | restored => exact ⟨fun _ => nofun, hb, rfl⟩
  | arrived => exact ⟨nofun, hb, rfl⟩
  | expanded template purpose r expanded => exact of_expanded expanded own quiet hb
  | _ => exact ⟨quiet, hb, rfl⟩

/-- Until a failure is committed outside of inclusions, a step explains nothing. -/
theorem step (h : Unheard m) (ho : Orderly m) (hd : ¬Decides .fail m)
    (hs : m.step ctx = some m') : Unheard m' := by
  obtain ⟨signal, s, frames⟩ := m
  cases signal with
  | await request listener => cases hs
  | proceed =>
    cases frames with
    | nil => cases hs
    | cons f below =>
      cases hs
      exact h.turn ho hd (check_turn ctx s f)
  | raise cause =>
    cases frames with
    | nil => cases (ho.ended rfl).1
    | cons f below =>
      have hb := (List.forall_mem_cons.mp h.explaining).2
      cases f with
      | conclusion =>
        cases hs
        exact ⟨h.quiet.conclude _, hb, rfl⟩
      | restoration =>
        cases hs
        exact ⟨fun _ => nofun, hb, rfl⟩
      | _ =>
        cases hs
        exact ⟨h.quiet, hb, rfl⟩

/-- No published explanation is awaited. -/
theorem ne_explanationTexts {request : Dns.Request} {listener : Listener} (h : Unheard m)
    (hs : m.signal = .await request listener) : listener ≠ .explanationTexts := by
  rintro rfl
  have awaited := h.awaited
  rw [hs] at awaited
  cases awaited

/-- Answers explain nothing either. -/
theorem resume {request : Dns.Request} {listener : Listener} (h : Unheard m)
    (hs : m.signal = .await request listener) (answer : Dns.Answer) :
    Unheard (m.resume ctx answer) := by
  have keeps := (resume_heard ctx answer m.state listener).keeps (h.ne_explanationTexts hs)
  obtain ⟨signal, s, frames⟩ := m
  subst hs
  refine ⟨?_, ?_, keeps.explains⟩
  · exact State.Quiet.congr h.quiet keeps.verdict keeps.isMuted
  · show ∀ f ∈ (listener.resume ctx answer s).frames ++ frames, f.isExplaining = false
    rw [keeps.frames]
    exact h.explaining

end Unheard

section Machines

variable {ctx : Context} {s : State} {f g : Frame} {below : List Frame} {q : Signal}
  {m m' : Machine}

/-- A frame that is not left lies upon the same frames. -/
theorem Machine.unexplained_cons_none (hf : f.unexplained = none) :
    Machine.unexplained ⟨q, s, f :: below⟩ = Machine.unexplained ⟨q, s, below⟩ := by
  simp only [Machine.unexplained, List.filterMap_cons_none hf]

theorem Machine.unexplained_cons_some (hf : f.unexplained = some g) :
    Machine.unexplained ⟨q, s, f :: below⟩ =
      ⟨q, s.unexplained, g :: below.filterMap Frame.unexplained⟩ := by
  simp only [Machine.unexplained, List.filterMap_cons_some hf]

/-- A step is one of the check without explanations, or changes nothing about it. -/
theorem Machine.step_unexplained (h : Unheard m) (hs : m.step ctx = some m') :
    m'.unexplained = m.unexplained ∨
      m.unexplained.step ctx.unexplained = some m'.unexplained := by
  obtain ⟨signal, s, frames⟩ := m
  cases signal with
  | await request listener => cases hs
  | proceed =>
    cases frames with
    | nil => cases hs
    | cons f below =>
      cases hs
      cases hf : f.unexplained with
      | none =>
        obtain ⟨t, ht, same⟩ := @Frame.check_explanation ctx s f h.quiet hf
        left
        rw [Machine.unexplained_cons_none hf, ht]
        exact congrArg (Machine.mk _ · _) same
      | some g =>
        have own := (List.forall_mem_cons.mp h.explaining).1
        right
        rw [Machine.unexplained_cons_some hf, unexplained_above,
          Frame.check_unexplained h.quiet own hf]
        rfl
  | raise cause =>
    cases frames with
    | nil =>
      cases hs
      right
      exact congrArg (fun t => some (Machine.mk _ t _)) (unexplained_conclude s .neutral).symm
    | cons f below =>
      simp only [Machine.step] at hs
      cases hf : f.unexplained with
      | none =>
        left
        rw [Frame.catch_explanation hf] at hs
        cases hs
        exact (Machine.unexplained_cons_none hf).symm
      | some g =>
        right
        rw [Machine.unexplained_cons_some hf]
        simp only [Machine.step, ← Frame.catch_unexplained hf cause]
        -- what the frame makes of the cause is the same without explanations
        generalize f.catch cause s = caught at hs ⊢
        obtain ⟨t, handed⟩ := caught
        cases handed <;> cases hs <;> rfl

/-- An answer is one to the check without explanations. -/
theorem Machine.resume_unexplained {request : Dns.Request} {listener : Listener}
    (h : Unheard m) (hs : m.signal = .await request listener) (answer : Dns.Answer) :
    (m.resume ctx answer).unexplained = m.unexplained.resume ctx.unexplained answer := by
  have waits := h.ne_explanationTexts hs
  obtain ⟨signal, s, frames⟩ := m
  subst hs
  show ((listener.resume ctx answer s).above frames).unexplained = _
  rw [unexplained_above, Listener.resume_unexplained waits]
  rfl

end Machines

end Evaluation

end SenderPolicy
