import SenderPolicy.Proofs.Course.Explanations
import SenderPolicy.Proofs.Course.Inclusion

/-!
# The phases of a check

Outside of inclusions a check is in one of three phases: it is on the way to the record of a domain,
it tries the directives of a record, or it has passed all of them. Only in the second is a fail
committed, by a directive of the record that was opened last; a redirection leads from the third
back to the first. Up to then nothing is explained, whatever the policies that are included do.

## Main definitions

* `Decorated`: a record explains by the template of the receiver
* `Seeking`, `Trying`, `Late`: the phases of a check
* `CommitsFail`: a directive is about to commit a fail

## Main results

* `Decorated.of_stageStep`: the stages add the template of the receiver, and no other
* `Seeking.step`, `Trying.step`, `Late.step`: from phase to phase
* `Seeking.resume`, `Trying.resume`, `Late.resume`: answers within a phase
-/

namespace SenderPolicy.Evaluation

/-! ## Decorated records -/

/-- The template that a stage adds to the record. -/
def templateOfStage : Policy.Stage → Option String
  | .explanation template => some template
  | _ => none

/-- The record, with what the stages are still to add, explains by the template of the receiver. -/
def Decorated (ctx : Context) (stages : List Policy.Stage) (record : Record) : Prop :=
  record.decorations.filterMap templateOf ++ stages.filterMap templateOfStage =
    ctx.policy.defaultExplanation.toList

section Decorated

variable {ctx : Context} {s : State} {st : Policy.Stage} {sts : List Policy.Stage}

/-- The template of the receiver is added by the last stage, if there is one. -/
theorem stages_eq_explanation (policy : Policy) :
    ∃ front, policy.stages = front ++ (policy.defaultExplanation.map .explanation).toList ∧
      front.filterMap templateOfStage = [] := by
  -- the other stages add nothing, whether they are set or not
  have optional {α : Type} (stageOf : α → Policy.Stage) (setting : Option α)
      (h : ∀ a, templateOfStage (stageOf a) = none) :
      (setting.map stageOf).toList.filterMap templateOfStage = [] := by
    cases setting with
    | none => rfl
    | some a => exact List.filterMap_cons_none (h a)
  refine ⟨_, rfl, ?_⟩
  simp only [List.filterMap_append, optional .overrides _ fun _ => rfl,
    optional .bestGuess _ fun _ => rfl, optional .fallbacks _ fun _ => rfl,
    optional .trustedForwarder _ fun _ => rfl]
  rfl

theorem filterMap_explanation (template : Option String) :
    (template.map Policy.Stage.explanation).toList.filterMap templateOfStage = template.toList := by
  cases template <;> rfl

/-- Behind a stage that adds no template the template of the receiver is still to be added. -/
theorem templates_of_suffix (h : st :: sts <:+ ctx.policy.stages)
    (hst : templateOfStage st = none) :
    sts.filterMap templateOfStage = ctx.policy.defaultExplanation.toList := by
  obtain ⟨front, hs, hf⟩ := stages_eq_explanation ctx.policy
  obtain ⟨before, hb⟩ := h
  rw [hs] at hb
  rcases List.append_eq_append_iff.mp hb with ⟨mid, rfl, hm⟩ | ⟨mid, rfl, hm⟩
  · rw [List.filterMap_append, List.append_eq_nil_iff] at hf
    have total := congrArg (List.filterMap templateOfStage) hm
    rwa [List.filterMap_append, hf.2, List.nil_append, filterMap_explanation,
      List.filterMap_cons_none hst] at total
  · have hm' : st ∈ (ctx.policy.defaultExplanation.map Policy.Stage.explanation).toList :=
      hm ▸ List.mem_append_right mid List.mem_cons_self
    obtain ⟨template, -, rfl⟩ := Option.map_eq_some_iff.mp (Option.mem_toList.mp hm')
    cases hst

/-- A record that was read is not decorated yet. -/
theorem decorations_of_parse {text : String} {record : Record}
    (h : Record.parse text = .ok record) : record.decorations = [] := by
  obtain ⟨-, terms, -, rfl, -⟩ := Record.parse_eq_ok_iff.mp h
  rfl

/-- A record that a stage finds is decorated by the stages behind it. -/
theorem Decorated.of_found {text : String} {record : Record} (hs : st :: sts <:+ ctx.policy.stages)
    (hst : templateOfStage st = none) (h : Record.parse text = .ok record) :
    Decorated ctx sts record := by
  rw [Decorated, decorations_of_parse h, templates_of_suffix hs hst]
  rfl

/-- Stages keep what is still to be added. -/
theorem Decorated.of_stageStep (hs : st :: sts <:+ ctx.policy.stages)
    (hd : ∀ record ∈ s.record, Decorated ctx (st :: sts) record) :
    ∀ record ∈ (stageStep s st).state.record, Decorated ctx sts record := by
  -- a stage leaves the record as it is, takes that of a table, or changes it
  have same (hst : templateOfStage st = none) :
      ∀ record ∈ s.record, Decorated ctx sts record := by
    intro record hr
    have hd := hd record hr
    rwa [Decorated, List.filterMap_cons_none hst] at hd
  have looked {table : Policy.Table} (hst : templateOfStage st = none) :
      ∀ record ∈ table.lookup s.domain, Decorated ctx sts record := fun record hr =>
    .of_found hs hst (Policy.Table.parse_of_lookup hr)
  have changed {f : Record → Record}
      (hf : ∀ record, Decorated ctx (st :: sts) record → Decorated ctx sts (f record)) :
      ∀ record ∈ s.record.map f, Decorated ctx sts record := by
    intro _ hm
    obtain ⟨record, hr, rfl⟩ := Option.map_eq_some_iff.mp hm
    exact hf record (hd record hr)
  cases st with
  | overrides table =>
    simp only [stageStep]
    split
    · rename_i record hl
      exact hl ▸ looked rfl
    · exact same rfl
  | wellFormed | published | bestGuess | required =>
    simp only [stageStep]
    split <;> exact same rfl
  | parsed =>
    simp only [stageStep]
    split
    · exact same rfl
    · split
      · rename_i record hp
        rintro _ ⟨⟩
        exact .of_found hs rfl hp
      · exact same rfl
  | fallbacks table =>
    simp only [stageStep]
    split
    · exact looked rfl
    · exact same rfl
  | trustedForwarder domain =>
    simp only [stageStep]
    split
    · exact same rfl
    · exact changed fun _ hr => hr
  | neutralWithoutMatch =>
    refine changed fun record hr => ?_
    split
    · exact hr
    · simpa [Decorated, decorate, List.filterMap_cons, templateOf, templateOfStage] using hr
  | explanation template =>
    refine changed fun record hr => ?_
    simpa [Decorated, decorate, List.filterMap_cons, templateOf, templateOfStage] using hr

end Decorated

/-! ## Quiet frames and listeners -/

/-- Nothing is raised, and no published explanation is awaited. -/
structure Signal.IsQuiet (q : Signal) : Prop where
  explains : q.explains = false
  raises : ∀ cause, q ≠ .raise cause

/-- A cause is on its way down. -/
def Machine.Raises (m : Machine) : Prop :=
  ∃ cause, m.signal = .raise cause

/-- An answer leaves the frames below as they are. -/
theorem Machine.suffix_resume (ctx : Context) (answer : Dns.Answer) (m : Machine) :
    m.frames <:+ (m.resume ctx answer).frames := by
  unfold Machine.resume
  split
  · exact List.suffix_append _ _
  · exact List.suffix_rfl

/-- What a listener leaves as it is while no published explanation is awaited. -/
structure Reaction.Keeps (s : State) (r : Reaction) : Prop where
  frames : r.frames = []
  explains : r.signal.explains = false
  domain : r.state.domain = s.domain
  explanation : r.state.explanation = s.explanation
  isMuted : r.state.isMuted = s.isMuted
  verdict : r.state.verdict = s.verdict
  record : r.state.record = s.record
  result : r.state.result = s.result

theorem Heard.keeps {ctx : Context} {s : State} {listener : Listener} {r : Reaction}
    (hh : Heard ctx s listener r) (hl : listener ≠ .explanationTexts) : r.Keeps s := by
  cases hh with
  | explains => exact absurd rfl hl
  | _ => exact ⟨rfl, rfl, rfl, rfl, rfl, rfl, rfl, rfl⟩

theorem Signal.isQuiet_proceed : Signal.IsQuiet .proceed :=
  ⟨rfl, nofun⟩

theorem Signal.isQuiet_await {request : Dns.Request} {listener : Listener}
    (h : (Signal.await request listener).explains = false) :
    (Signal.await request listener).IsQuiet :=
  ⟨h, nofun⟩

/-- A signal that explains nothing is quiet, or raises a cause. -/
theorem Signal.isQuiet_or {q : Signal} (h : q.explains = false) :
    q.IsQuiet ∨ ∃ cause, q = .raise cause := by
  cases q with
  | raise cause => exact Or.inr ⟨cause, rfl⟩
  | _ => exact Or.inl ⟨h, nofun⟩

/-- What an answer does while no published explanation is awaited. -/
theorem Signal.IsQuiet.resume {ctx : Context} {request : Dns.Request} {listener : Listener}
    (h : (Signal.await request listener).IsQuiet) (answer : Dns.Answer) (s : State) :
    listener ≠ .explanationTexts ∧ (listener.resume ctx answer s).Keeps s ∧
      ∀ frames, Machine.resume ctx answer ⟨.await request listener, s, frames⟩ =
        ⟨(listener.resume ctx answer s).signal, (listener.resume ctx answer s).state, frames⟩ := by
  have unexplained : listener ≠ .explanationTexts := by
    rintro rfl
    cases h.explains
  have keeps := (resume_heard ctx answer s listener).keeps unexplained
  refine ⟨unexplained, keeps, fun frames => ?_⟩
  simp only [Machine.resume, Reaction.above, keeps.frames, List.nil_append]

/-! ## On the way to a record -/

/-- A fail is not committed yet, and may be explained once it is. -/
structure State.Underway (domain : String) (s : State) : Prop where
  domain : s.domain = domain
  explanation : s.explanation = none
  isMuted : s.isMuted = false
  verdict : s.verdict ≠ some .fail

theorem State.Underway.keep {domain : String} {s : State} {r : Reaction} (h : s.Underway domain)
    (hk : r.Keeps s) : r.state.Underway domain :=
  ⟨hk.domain.trans h.domain, hk.explanation.trans h.explanation, hk.isMuted.trans h.isMuted,
    hk.verdict ▸ h.verdict⟩

/-- The check is on the way to the record of a domain outside of inclusions. -/
inductive Seeking (ctx : Context) (base : List Frame) (domain : String) : Machine → Prop
  | evaluation {s : State} (underway : s.Underway domain) :
      Seeking ctx base domain ⟨.proceed, s, .evaluation :: base⟩
  | stages {q : Signal} {s : State} {sts : List Policy.Stage} (quiet : q.IsQuiet)
      (underway : s.Underway domain) (left : sts <:+ ctx.policy.stages)
      (decorated : ∀ record ∈ s.record, Decorated ctx sts record) :
      Seeking ctx base domain ⟨q, s, sts.map .stage ++ .terms :: base⟩

/-- A redirection has led the check to another domain. -/
def Redirected (ctx : Context) (m : Machine) : Prop :=
  ∃ below domain, Outermost (.arrival :: below) ∧ Seeking ctx (.arrival :: below) domain m

section Seeking

variable {ctx : Context} {base : List Frame} {domain : String} {m m' : Machine}

/-- On the way to a record, a check stays on it, raises a cause, or opens the record. -/
theorem Seeking.step (h : Seeking ctx base domain m) (ha : Acquiring ctx m)
    (hs : m.step ctx = some m') :
    Seeking ctx base domain m' ∨ m'.Raises ∨ ∃ record, m.signal = .proceed ∧
      m.frames = .terms :: base ∧ m.state.record = some record ∧ m.state.Underway domain ∧
      Decorated ctx [] record ∧
      m' = ⟨.proceed, { m.state with record := none }, framesOf record ++ base⟩ := by
  cases h with
  | @evaluation s underway =>
    have unfound : s.record = none :=
      ha.record_eq_none (fun ended => by cases ended.turns) (apart_cons base rfl)
    cases hs
    refine Or.inl ?_
    simp only [Frame.check, Reaction.above, Reaction.leave, List.append_assoc,
      List.singleton_append]
    exact .stages Signal.isQuiet_proceed underway List.suffix_rfl (by simp [unfound])
  | @stages q s sts quiet underway left decorated =>
    cases q with
    | await request listener => simp [Machine.step] at hs
    | raise cause => exact absurd rfl (quiet.raises cause)
    | proceed =>
      cases sts with
      | nil =>
        have turn := check_turn ctx s .terms
        simp only [Machine.step, List.map_nil, List.nil_append, Option.some.injEq] at hs
        subst hs
        generalize Frame.check ctx s .terms = r at turn
        cases turn with
        | opened record hr =>
          exact Or.inr (Or.inr ⟨record, rfl, rfl, hr, underway, decorated record hr, rfl⟩)
        | missing => exact Or.inr (Or.inl ⟨_, rfl⟩)
      | cons st sts =>
        have turn := stageStep_turn ctx s st
        have decorated := Decorated.of_stageStep left decorated
        have behind : sts <:+ ctx.policy.stages := (List.suffix_cons st sts).trans left
        simp only [Machine.step, List.map_cons, List.cons_append, Frame.check,
          Option.some.injEq] at hs
        subst hs
        generalize stageStep s st = r at turn decorated
        cases turn with
        | found text record =>
          exact Or.inl (.stages Signal.isQuiet_proceed
            ⟨underway.domain, underway.explanation, underway.isMuted, underway.verdict⟩ behind
            decorated)
        | lost => exact Or.inr (Or.inl ⟨_, rfl⟩)
        | asked isStrict =>
          exact Or.inl (.stages (Signal.isQuiet_await rfl) underway behind decorated)

/-- Answers keep a check on the way to a record, or raise a cause. -/
theorem Seeking.resume {request : Dns.Request} {listener : Listener} (answer : Dns.Answer)
    (h : Seeking ctx base domain m) (hs : m.signal = .await request listener) :
    listener ≠ .explanationTexts ∧
      (Seeking ctx base domain (m.resume ctx answer) ∨ (m.resume ctx answer).Raises) := by
  cases h with
  | evaluation => cases hs
  | @stages q s sts quiet underway left decorated =>
    subst hs
    obtain ⟨unexplained, keeps, resumed⟩ := @Signal.IsQuiet.resume ctx _ _ quiet answer s
    refine ⟨unexplained, ?_⟩
    rw [resumed]
    refine (Signal.isQuiet_or keeps.explains).imp (fun quiet' => ?_) id
    exact .stages quiet' (underway.keep keeps) left (keeps.record ▸ decorated)

end Seeking

/-! ## Behind the directives of a record -/

/-- The frame follows a redirection. -/
def Frame.redirects : Frame → Bool
  | modifier (.redirect _) | expansion _ .redirection => true
  | _ => false

/-- The frame follows the modifiers or the decorations of a record. -/
def Frame.isTrailing : Frame → Bool
  | modifier _ | decoration _ | expansion _ .redirection => true
  | _ => false

theorem isSpent_of_isTrailing {f : Frame} (h : f.isTrailing) (hr : f.redirects = false) :
    f.isSpent ∧ f.isBoundary = false := by
  cases f with
  | modifier m => cases m <;> simp_all [Frame.isSpent, Frame.isBoundary, Frame.redirects]
  | decoration => exact ⟨rfl, rfl⟩
  | expansion template purpose =>
    cases purpose <;> simp_all [Frame.isTrailing, Frame.redirects]
  | _ => cases h

/-- The directives of a record outside of inclusions are behind the check, and no fail is committed:
the record may still redirect, while nothing below it decides. -/
structure Late (m : Machine) : Prop where
  quiet : m.signal.IsQuiet
  frames : ∃ top base, m.frames = top ++ base ∧ (∀ f ∈ top, f.isTrailing) ∧
    top.countP Frame.redirects ≤ 1 ∧ (∀ f ∈ base, f.isSpent) ∧ (m.state.isMuted → top = [])
  explanation : m.state.isMuted = false → m.state.explanation = none
  verdict : m.state.verdict ≠ some .fail
  ended : m.frames = [] → m.state.result ≠ some .fail

section Late

variable {ctx : Context} {m m' : Machine} {s : State} {f : Frame} {below : List Frame}

/-- Nothing is explained before a fail is committed. -/
theorem check_of_spent (hf : f.isSpent) (hb : f.isBoundary = false) (hv : s.verdict ≠ some .fail) :
    ∃ verdict, verdict ≠ some .fail ∧ f.check ctx s = .done { s with verdict := verdict } := by
  cases f with
  | decoration d =>
    cases d with
    | neutralWithoutMatch =>
      cases hn : s.verdict with
      | none => exact ⟨some .neutral, nofun, by simp [Frame.check, decorationStep, hn]⟩
      | some q =>
        have decided : s.verdict.isNone = false := by simp [hn]
        exact ⟨s.verdict, hv, by simp only [Frame.check, decorationStep, decided]; rfl⟩
    | explanation template =>
      exact ⟨s.verdict, hv, by simp [Frame.check, decorationStep, hv]⟩
  | modifier m =>
    cases m with
    | redirect domain => cases hf
    | explanation spec => exact ⟨s.verdict, hv, by simp [Frame.check, modifierStep, hv]⟩
    | unknown name value => exact ⟨s.verdict, hv, rfl⟩
  | conclusion | arrival => cases hb
  | _ => cases hf

/-- No other qualifier stands for a fail. -/
theorem result_ne_fail {verdict : Option Qualifier} (h : verdict ≠ some .fail) :
    (verdict.map Qualifier.result).getD .neutral ≠ .fail := by
  cases verdict with
  | none => nofun
  | some q =>
    cases q with
    | fail => exact absurd rfl h
    | _ => nofun

/-- Where nothing redirects any more, a check is late. -/
theorem Late.of_spent (spent : ∀ f ∈ below, f.isSpent)
    (hn : s.isMuted = false → s.explanation = none) (hv : s.verdict ≠ some .fail)
    (ended : below = [] → s.result ≠ some .fail) : Late ⟨.proceed, s, below⟩ :=
  ⟨Signal.isQuiet_proceed, ⟨[], below, rfl, List.forall_mem_nil _, Nat.zero_le 1, spent,
    fun _ => rfl⟩, hn, hv, ended⟩

/-- A redirection in its turn: it leads to another domain, or is put aside. -/
theorem Late.of_redirection {r : Reaction} (he : Expanded s .redirection r)
    (spent : ∀ f ∈ below, f.isSpent) (hm : s.isMuted = false) (hn : s.explanation = none)
    (hv : s.verdict ≠ some .fail) :
    Late (r.above below) ∨ (r.above below).Raises ∨ Redirected ctx (r.above below) := by
  cases he with
  | aside r template request unknown same =>
    rcases same with rfl | ⟨hp, -⟩
    · refine Or.inl ⟨Signal.isQuiet_await rfl, ?_, fun _ => hn, hv, nofun⟩
      exact ⟨[.expansion template .redirection], below, rfl, by simp [Frame.isTrailing],
        by simp [Frame.redirects], spent, fun h => Bool.noConfusion (hm.symm.trans h)⟩
    · cases hp
  | refused r cause => exact Or.inr (Or.inl ⟨cause, rfl⟩)
  | explained r explanation hp => cases hp
  | lookup r host type listener hl => cases hl
  | redirected r target =>
    refine Or.inr (Or.inr ⟨below, target, ⟨?_, _, _, rfl, rfl⟩, .evaluation ⟨rfl, hn, hm, hv⟩⟩)
    exact List.forall_mem_cons.mpr ⟨rfl, spent⟩

/-- A term that redirects, with nothing below it that does. -/
theorem Late.of_redirects (hf : f.redirects) (running : s.result = none)
    (spent : ∀ f ∈ below, f.isSpent) (hm : s.isMuted = false) (hn : s.explanation = none)
    (hv : s.verdict ≠ some .fail) :
    Late ((f.check ctx s).above below) ∨ ((f.check ctx s).above below).Raises ∨
      Redirected ctx ((f.check ctx s).above below) := by
  have turn := check_turn ctx s f
  generalize f.check ctx s = r at turn
  cases f with
  | modifier m =>
    cases m with
    | redirect domain =>
      cases turn with
      | decided =>
        exact Or.inl (.of_spent spent (fun _ => hn) hv fun _ => by simp [Reaction.done, running])
      | exhaustedRedirect => exact Or.inr (Or.inl ⟨_, rfl⟩)
      | enteredRedirect domain r undecided room expanded =>
        exact Late.of_redirection expanded spent hm hn hv
    | _ => cases hf
  | expansion template purpose =>
    cases purpose with
    | redirection =>
      cases turn with
      | expanded template purpose r expanded => exact Late.of_redirection expanded spent hm hn hv
    | _ => cases hf
  | _ => cases hf

/-- A frame that neither redirects nor ends an evaluation keeps the phase. -/
theorem Late.of_check {top base : List Frame} (hf : f.isSpent) (hb : f.isBoundary = false)
    (running : s.result = none) (trailing : ∀ f ∈ top, f.isTrailing)
    (once : top.countP Frame.redirects ≤ 1) (spent : ∀ f ∈ base, f.isSpent)
    (muted : s.isMuted → top = []) (hn : s.isMuted = false → s.explanation = none)
    (hv : s.verdict ≠ some .fail) : Late ((f.check ctx s).above (top ++ base)) := by
  obtain ⟨verdict, hv', hc⟩ := @check_of_spent ctx s f hf hb hv
  rw [hc]
  exact ⟨Signal.isQuiet_proceed, ⟨top, base, rfl, trailing, once, spent, muted⟩, hn, hv',
    fun _ => by simp [Reaction.above, Reaction.done, running]⟩

/-- The end of an evaluation keeps the phase, and the last one commits no fail. -/
theorem Late.of_boundary (hf : f.isSpent) (hb : f.isBoundary)
    (ho : Orderly ⟨.proceed, s, f :: below⟩) (spent : ∀ f ∈ below, f.isSpent)
    (hn : s.isMuted = false → s.explanation = none) (hv : s.verdict ≠ some .fail) :
    Late ((f.check ctx s).above below) := by
  have running : s.result = none := ho.running (List.cons_ne_nil _ _)
  cases f with
  | conclusion =>
    have concluded : Frame.check ctx s .conclusion = .done { s with
        result := some ((s.verdict.map Qualifier.result).getD .neutral) } := by
      simp [Frame.check, State.conclude, running]
    rw [concluded]
    exact .of_spent spent hn hv fun _ hf => result_ne_fail hv (Option.some.inj hf)
  | arrival =>
    refine .of_spent spent (fun h => Bool.noConfusion h) hv fun _ => ?_
    simp [Frame.check, Reaction.done, running]
  | restoration => cases hf
  | _ => cases hb

/-- Behind the directives a check stays behind them, raises a cause, or is on the way to the record
of another domain. -/
theorem Late.step (h : Late m) (ho : Orderly m) (hs : m.step ctx = some m') :
    Late m' ∨ m'.Raises ∨ Redirected ctx m' := by
  obtain ⟨q, s, frames⟩ := m
  obtain ⟨quiet, ⟨top, base, rfl, trailing, once, spent, muted⟩, explanation, verdict, -⟩ := h
  cases q with
  | await request listener => simp [Machine.step] at hs
  | raise cause => exact absurd rfl (quiet.raises cause)
  | proceed =>
    cases top with
    | nil =>
      cases base with
      | nil => cases hs
      | cons f base =>
        rw [List.forall_mem_cons] at spent
        have running : s.result = none := ho.running (List.cons_ne_nil _ _)
        cases hs
        refine Or.inl ?_
        cases hb : f.isBoundary with
        | false =>
          exact @Late.of_check ctx s f [] base spent.1 hb running (List.forall_mem_nil _)
            (Nat.zero_le 1) spent.2 (fun _ => rfl) explanation verdict
        | true => exact Late.of_boundary spent.1 hb ho spent.2 explanation verdict
    | cons f top =>
      rw [List.forall_mem_cons] at trailing
      have running : s.result = none := ho.running (List.cons_ne_nil _ _)
      have hm : s.isMuted = false := by
        cases hm : s.isMuted with
        | false => rfl
        | true => cases muted hm
      cases hs
      cases hr : f.redirects with
      | false =>
        obtain ⟨hf, hb⟩ := isSpent_of_isTrailing trailing.1 hr
        rw [List.countP_cons_of_neg (by simp [hr])] at once
        exact Or.inl (Late.of_check hf hb running trailing.2 once spent
          (fun h => Bool.noConfusion (hm.symm.trans h)) explanation verdict)
      | true =>
        -- what is left below does not redirect
        have none_left : top.countP Frame.redirects = 0 := by
          rw [List.countP_cons_of_pos hr] at once
          omega
        rw [List.countP_eq_zero] at none_left
        have last : ∀ f ∈ top ++ base, f.isSpent := List.forall_mem_append.mpr ⟨fun f hf =>
          (isSpent_of_isTrailing (trailing.2 f hf) (by simpa using none_left f hf)).1, spent⟩
        exact Late.of_redirects hr running last hm (explanation hm) verdict

/-- Answers keep a check behind the directives, or raise a cause. -/
theorem Late.resume {request : Dns.Request} {listener : Listener} (answer : Dns.Answer)
    (h : Late m) (hs : m.signal = .await request listener) :
    listener ≠ .explanationTexts ∧
      (Late (m.resume ctx answer) ∨ (m.resume ctx answer).Raises) := by
  obtain ⟨q, s, frames⟩ := m
  subst hs
  obtain ⟨quiet, ⟨top, base, hf, trailing, once, spent, muted⟩, explanation, verdict, ended⟩ := h
  obtain ⟨unexplained, keeps, resumed⟩ := @Signal.IsQuiet.resume ctx _ _ quiet answer s
  refine ⟨unexplained, ?_⟩
  rw [resumed]
  refine (Signal.isQuiet_or keeps.explains).imp (fun quiet' => ?_) id
  exact ⟨quiet', ⟨top, base, hf, trailing, once, spent, fun h => muted (keeps.isMuted ▸ h)⟩,
    fun h => keeps.explanation.trans (explanation (keeps.isMuted ▸ h)), keeps.verdict ▸ verdict,
    fun h => keeps.result ▸ ended h⟩

end Late

/-! ## Trying the directives of a record -/

/-- What lies below the directives of a record. -/
def trailingFrames (record : Record) (base : List Frame) : List Frame :=
  record.modifiers.map .modifier ++ (record.decorations.map .decoration ++ base)

/-- The directives of a record are tried outside of inclusions: the next one is about to be, or one
is waiting for its mechanism, or for the domain that it includes. -/
inductive Trying (record : Record) (base : List Frame) (domain : String) : Machine → Prop
  | directives {s : State} {tried left : List Directive} (h : record.directives = tried ++ left)
      (underway : s.Underway domain) :
      Trying record base domain
        ⟨.proceed, s, left.map .directive ++ trailingFrames record base⟩
  | mechanism {q : Signal} {s : State} {top : List Frame} {tried left : List Directive}
      {d : Directive} (h : record.directives = tried ++ d :: left) (quiet : q.IsQuiet)
      (underway : s.Underway domain)
      (ht : top = [] ∨ ∃ template purpose, top = [.expansion template purpose] ∧
        purpose.explains = false ∧ purpose ≠ .redirection) :
      Trying record base domain ⟨q, s, top ++
        .commitment d.qualifier :: (left.map .directive ++ trailingFrames record base)⟩
  | inclusion {m : Machine} {s : State} {tried left : List Directive} {d : Directive}
      (h : record.directives = tried ++ d :: left) (underway : s.Underway domain)
      (enclosed : Enclosed s (.commitment d.qualifier ::
        (left.map .directive ++ trailingFrames record base)) m) (calm : ¬m.Raises) :
      Trying record base domain m

/-- A directive of the record is about to commit a fail outside of inclusions. -/
structure CommitsFail (record : Record) (base : List Frame) (domain : String) (m : Machine) :
    Prop where
  signal : m.signal = .proceed
  matched : m.state.matched = some true
  underway : m.state.Underway domain
  frames : ∃ tried d left, record.directives = tried ++ d :: left ∧ d.qualifier = .fail ∧
    m.frames = .commitment .fail :: (left.map .directive ++ trailingFrames record base)

section Trying

variable {ctx : Context} {record : Record} {base : List Frame} {domain : String} {m m' : Machine}
  {s : State}

/-- A record redirects once. -/
theorem countP_redirects {modifiers : List Modifier}
    (single : modifiers.Pairwise fun m m' => m.clashes m' = false) :
    (modifiers.map Frame.modifier).countP Frame.redirects ≤ 1 := by
  induction modifiers with
  | nil => exact Nat.zero_le 1
  | cons m modifiers ih =>
    rw [List.pairwise_cons] at single
    rw [List.map_cons]
    cases hr : (Frame.modifier m).redirects with
    | false =>
      rw [List.countP_cons_of_neg (by simp [hr])]
      exact ih single.2
    | true =>
      -- a second redirection would clash with the first
      have none_left : (modifiers.map Frame.modifier).countP Frame.redirects = 0 := by
        rw [List.countP_eq_zero]
        intro f hf
        obtain ⟨m', hm', rfl⟩ := List.mem_map.mp hf
        have apart := single.1 m' hm'
        cases m <;> cases m' <;> simp_all [Frame.redirects, Modifier.clashes]
      rw [List.countP_cons_of_pos hr]
      omega

/-- Behind its directives a record is late. -/
theorem Late.of_record (outermost : Outermost base) (single : record.IsSingle)
    (underway : s.Underway domain) (running : s.result = none) :
    Late ⟨.proceed, s, trailingFrames record base⟩ where
  quiet := Signal.isQuiet_proceed
  frames := by
    refine ⟨record.modifiers.map .modifier ++ record.decorations.map .decoration, base,
      (List.append_assoc _ _ _).symm, ?_, ?_, outermost.spent, fun h => ?_⟩
    · simp only [List.mem_append, List.mem_map]
      rintro f (⟨m, -, rfl⟩ | ⟨d, -, rfl⟩) <;> rfl
    · have undecorated : (record.decorations.map Frame.decoration).countP Frame.redirects = 0 := by
        rw [List.countP_eq_zero]
        simp [Frame.redirects]
      rw [List.countP_append, undecorated, Nat.add_zero]
      exact countP_redirects single
    · rw [underway.isMuted] at h
      cases h
  explanation := fun _ => underway.explanation
  verdict := underway.verdict
  ended := fun _ => by simp [running]

/-- A directive that knows whether it matches is about to be committed. -/
theorem Trying.of_matched {tried left : List Directive} {d : Directive}
    (h : record.directives = tried ++ d :: left) (underway : s.Underway domain) :
    Trying record base domain ⟨.proceed, s,
      .commitment d.qualifier :: (left.map .directive ++ trailingFrames record base)⟩ :=
  @Trying.mechanism record base domain .proceed s [] tried left d h Signal.isQuiet_proceed underway
    (Or.inl rfl)

/-- A template of a mechanism in its turn. -/
theorem Trying.of_expanded {purpose : Purpose} {r : Reaction} {tried left : List Directive}
    {d : Directive} (h : record.directives = tried ++ d :: left) (underway : s.Underway domain)
    (he : Expanded s purpose r) (hp : purpose.explains = false) (hr : purpose ≠ .redirection) :
    Trying record base domain (r.above (.commitment d.qualifier ::
        (left.map .directive ++ trailingFrames record base))) ∨
      (r.above (.commitment d.qualifier ::
        (left.map .directive ++ trailingFrames record base))).Raises := by
  obtain ⟨hd, he', hm, hv⟩ := underway
  cases he with
  | aside r template request unknown same =>
    rcases same with rfl | ⟨hp', -⟩
    · exact Or.inl (.mechanism h (Signal.isQuiet_await rfl) ⟨hd, he', hm, hv⟩
        (Or.inr ⟨template, _, rfl, hp, hr⟩))
    · rw [hp] at hp'
      cases hp'
  | refused r cause => exact Or.inr ⟨cause, rfl⟩
  | explained r explanation hp' =>
    rw [hp] at hp'
    cases hp'
  | lookup r host type listener awaits =>
    have quiet : (Signal.await ⟨host, type⟩ listener).IsQuiet :=
      Signal.isQuiet_await (awaits.explains hp)
    refine Or.inl ?_
    rw [Reaction.above]
    exact .mechanism h quiet ⟨hd, he', hm, hv⟩ (Or.inl rfl)
  | included r target =>
    exact Or.inl (.inclusion (s := { s with receivingDomain := r }) h ⟨hd, he', hm, hv⟩
      (.begin _ target _) (by rintro ⟨cause, ⟨⟩⟩))
  | redirected r target => exact absurd rfl hr

/-- A directive in its turn. -/
theorem Trying.of_directive {tried left : List Directive} {d : Directive}
    (h : record.directives = tried ++ d :: left) (underway : s.Underway domain) {r : Reaction}
    (turn : Turn ctx s (.directive d) r) :
    Trying record base domain (r.above (left.map .directive ++ trailingFrames record base)) ∨
      (r.above (left.map .directive ++ trailingFrames record base)).Raises := by
  cases turn with
  | passed =>
    exact Or.inl (.directives (h.trans (List.append_cons tried d left)) underway)
  | settled d isMatch =>
    exact Or.inl (.of_matched (s := { s with matched := some isMatch }) h
      ⟨underway.domain, underway.explanation, underway.isMuted, underway.verdict⟩)
  | exhausted => exact Or.inr ⟨_, rfl⟩
  | entered d purpose r hv looks room expanded =>
    rw [Reaction.above_onto]
    refine of_expanded (s := State.entered { s with matched := none }) h ⟨underway.domain,
      underway.explanation, underway.isMuted, underway.verdict⟩ expanded
      (explains_of_purposeOf looks) ?_
    rintro rfl
    cases hm : d.mechanism <;> simp [hm, purposeOf] at looks

/-- The commitment of a directive: a fail, or another directive. -/
theorem Trying.of_commitment {tried left : List Directive} {d : Directive}
    (h : record.directives = tried ++ d :: left) (underway : s.Underway domain) :
    CommitsFail record base domain ⟨.proceed, s, .commitment d.qualifier ::
        (left.map .directive ++ trailingFrames record base)⟩ ∨
      Trying record base domain ⟨.proceed, s.commit d.qualifier,
        left.map .directive ++ trailingFrames record base⟩ := by
  have next (t : State) (ht : t.Underway domain) : Trying record base domain
      ⟨.proceed, t, left.map .directive ++ trailingFrames record base⟩ :=
    .directives (h.trans (List.append_cons tried d left)) ht
  unfold State.commit
  split
  · rename_i matched
    by_cases hq : d.qualifier = .fail
    · exact Or.inl ⟨rfl, matched, underway, tried, d, left, h, hq, by rw [hq]⟩
    · exact Or.inr (next _ ⟨underway.domain, underway.explanation, underway.isMuted,
        fun hv => hq (Option.some.inj hv)⟩)
  · exact Or.inr (next s underway)

/-- While its directives are tried, a record goes on with them, commits a fail, raises a cause, or
leaves them behind. -/
theorem Trying.step (h : Trying record base domain m) (outermost : Outermost base)
    (single : record.IsSingle) (ho : Orderly m) (hs : m.step ctx = some m') :
    CommitsFail record base domain m ∨ Trying record base domain m' ∨ Late m' ∨ m'.Raises ∨
      Redirected ctx m' := by
  have raised (hr : m'.Raises) : CommitsFail record base domain m ∨
      Trying record base domain m' ∨ Late m' ∨ m'.Raises ∨ Redirected ctx m' :=
    Or.inr (Or.inr (Or.inr (Or.inl hr)))
  cases h with
  | @directives s tried left h underway =>
    cases left with
    | nil =>
      have running : s.result = none := ho.running (by
        obtain ⟨f, rest, rfl, -⟩ := outermost.boundary
        simp [trailingFrames])
      have late := Late.of_record outermost single underway running
      exact Or.inr (Or.inr (late.step ho hs))
    | cons d left =>
      cases hs
      rcases Trying.of_directive h underway (check_turn ctx s (.directive d)) with ht | hr
      · exact Or.inr (Or.inl ht)
      · exact raised hr
  | @mechanism q s top tried left d h quiet underway ht =>
    cases q with
    | await request listener => simp [Machine.step] at hs
    | raise cause => exact absurd rfl (quiet.raises cause)
    | proceed =>
      rcases ht with rfl | ⟨template, purpose, rfl, hp, hr⟩
      · cases hs
        rcases @Trying.of_commitment record base domain s tried left d h underway with hc | ht
        · exact Or.inl hc
        · exact Or.inr (Or.inl ht)
      · have expanded := expandTo_expanded ctx purpose template s
        cases hs
        rcases Trying.of_expanded h underway expanded hp hr with ht | hr
        · exact Or.inr (Or.inl ht)
        · exact raised hr
  | @inclusion m s tried left d h underway enclosed calm =>
    by_cases hr : m'.Raises
    · exact raised hr
    · rcases enclosed.step hs with inside | ⟨hf, hb⟩
      · exact Or.inr (Or.inl (.inclusion h underway inside hr))
      · obtain ⟨q, t, frames⟩ := m
        subst hf
        cases q with
        | await request listener => simp [Machine.step] at hs
        | raise cause => exact absurd ⟨cause, rfl⟩ calm
        | proceed =>
          -- the frame of the inclusion puts back what it has set aside
          cases hs
          exact Or.inr (Or.inl (.of_matched h
            ⟨underway.domain, underway.explanation, underway.isMuted,
              (Option.some_ne_none _).symm⟩))

/-- Answers keep a record at its directives, or raise a cause. -/
theorem Trying.resume {request : Dns.Request} {listener : Listener} (answer : Dns.Answer)
    (h : Trying record base domain m) (hs : m.signal = .await request listener) :
    listener ≠ .explanationTexts ∧
      (Trying record base domain (m.resume ctx answer) ∨ (m.resume ctx answer).Raises) := by
  cases h with
  | directives => cases hs
  | @mechanism q s top tried left d h quiet underway ht =>
    subst hs
    obtain ⟨unexplained, keeps, resumed⟩ := @Signal.IsQuiet.resume ctx _ _ quiet answer s
    refine ⟨unexplained, ?_⟩
    rw [resumed]
    exact (Signal.isQuiet_or keeps.explains).imp
      (fun quiet' => .mechanism h quiet' (underway.keep keeps) ht) id
  | @inclusion m s tried left d h underway enclosed calm =>
    have unexplained : listener ≠ .explanationTexts := by
      rintro rfl
      have silent := enclosed.signal
      rw [hs] at silent
      cases silent
    refine ⟨unexplained, ?_⟩
    by_cases hr : (m.resume ctx answer).Raises
    · exact Or.inr hr
    · refine Or.inl (.inclusion h underway (enclosed.next (Or.inr ⟨_, _, answer, hs, rfl⟩) ?_) hr)
      obtain ⟨fs, hf, -⟩ := enclosed.frames
      exact List.IsSuffix.trans ⟨fs, hf.symm⟩ (Machine.suffix_resume ctx answer m)

end Trying

end SenderPolicy.Evaluation
