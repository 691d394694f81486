import SenderPolicy.Proofs.Course.ClientName
import SenderPolicy.Proofs.Course.Clearing
import SenderPolicy.Proofs.Course.Phases

/-!
# Redirections

A redirection hands the check over to another domain for good. What the redirecting record has left,
its other modifiers and its decorations, still lies on the stack and has its turn behind the policy
of the other domain, but there is nothing for it to do any more: explanations are silenced, nothing
redirects a second time, and a record without a match is neutral either way. This is so at every
link of a chain of redirections, outside of inclusions and inside of them. Only a missing policy of
the other domain is an error of the policy that has redirected.

## Main definitions

* `SpentOnTop`, `HandedOver`: what lies below a redirection
* `Targets`: what the template of a redirection comes to
* `Machine.StandsFor`: an evaluation comes to what another has come to

## Main results

* `HandedOver.step`, `HandedOver.resume`: below a redirection nothing is left to do
* `Clears.of_targets`: a redirection comes to its target, at once or behind the client's name
* `standsFor_of_left`: what a redirecting record has left changes nothing
* `redirection_hands_over`: a redirection is the evaluation of its target
-/

namespace SenderPolicy.Evaluation

/-! ## Below a redirection -/

/-- Nothing that lies on top decides or redirects, down to the end of the inclusion or of the
check. -/
def SpentOnTop : List Frame → Prop
  | [] => True
  | f :: below => f.isConclusion ∨ f.isRestoration ∨ f.isSpent ∧ SpentOnTop below

/-- The frame redirects, or lies below the target of a redirection. -/
def Frame.handsOver : Frame → Bool
  | arrival => true
  | f => f.redirects

/-- Nothing below a redirection decides or redirects, up to the end of the inclusion or of the
check. -/
def HandedOver : List Frame → Prop
  | [] => True
  | f :: below => (f.handsOver → SpentOnTop below) ∧ HandedOver below

theorem SpentOnTop.append {fs below : List Frame} (hf : ∀ f ∈ fs, f.isSpent)
    (hb : SpentOnTop below) : SpentOnTop (fs ++ below) := by
  induction fs with
  | nil => exact hb
  | cons f fs ih =>
    rw [List.forall_mem_cons] at hf
    exact .inr (.inr ⟨hf.1, ih hf.2⟩)

/-- Above the end of the inclusion or of the check, all frames are spent. -/
theorem SpentOnTop.spent {fs below : List Frame} (h : SpentOnTop (fs ++ below))
    (own : ∀ f ∈ fs, f.isBoundary → f = .arrival) : ∀ f ∈ fs, f.isSpent := by
  induction fs with
  | nil => exact List.forall_mem_nil _
  | cons f fs ih =>
    rw [List.forall_mem_cons] at own ⊢
    rcases h with hc | hr | ⟨hs, hb⟩
    · cases f with
      | conclusion => cases own.1 rfl
      | _ => cases hc
    · cases f with
      | restoration => cases own.1 rfl
      | _ => cases hr
    · exact ⟨hs, ih hb own.2⟩

theorem HandedOver.append {fs below : List Frame} (hf : ∀ f ∈ fs, ¬f.handsOver)
    (hb : HandedOver below) : HandedOver (fs ++ below) := by
  induction fs with
  | nil => exact hb
  | cons f fs ih =>
    rw [List.forall_mem_cons] at hf
    exact ⟨fun h => absurd h hf.1, ih hf.2⟩

/-- What ends an evaluation has nothing below it that is left to do, or ends an inclusion or the
check. -/
theorem HandedOver.spentOnTop {f : Frame} {below : List Frame} (h : HandedOver (f :: below))
    (hf : f.isBoundary) : SpentOnTop (f :: below) := by
  cases f with
  | conclusion => exact .inl rfl
  | restoration => exact .inr (.inl rfl)
  | arrival => exact .inr (.inr ⟨rfl, h.1 rfl⟩)
  | _ => cases hf

/-- The modifiers of a record redirect once. -/
theorem handedOver_modifiers {modifiers : List Modifier} {below : List Frame}
    (single : modifiers.Pairwise fun m m' => m.clashes m' = false) (hs : SpentOnTop below)
    (hb : HandedOver below) : HandedOver (modifiers.map .modifier ++ below) := by
  induction modifiers with
  | nil => exact hb
  | cons m modifiers ih =>
    rw [List.pairwise_cons] at single
    refine ⟨fun handsOver => ?_, ih single.2⟩
    refine SpentOnTop.append (fun f hf => ?_) hs
    obtain ⟨m', hm', rfl⟩ := List.mem_map.mp hf
    have apart := single.1 m' hm'
    cases m <;> cases m' <;>
      simp_all [Frame.handsOver, Frame.redirects, Modifier.clashes, Frame.isSpent]

/-- The frames of a record, upon the end of the evaluation of its domain. -/
theorem handedOver_framesOf {record : Record} {below : List Frame} (single : record.IsSingle)
    (fits : Frame.terms.Fits below) (hb : HandedOver below) :
    HandedOver (framesOf record ++ below) := by
  obtain ⟨f, rest, rfl, hf⟩ := fits
  have spent : SpentOnTop (record.decorations.map .decoration ++ f :: rest) :=
    .append (List.forall_mem_map.mpr fun _ _ => rfl) (hb.spentOnTop hf)
  have decorations : HandedOver (record.decorations.map .decoration ++ f :: rest) :=
    hb.append (List.forall_mem_map.mpr fun _ _ h => by cases h)
  simp only [framesOf, List.append_assoc]
  exact .append (List.forall_mem_map.mpr fun _ _ h => by cases h)
    (handedOver_modifiers single spent decorations)

section Steps

variable {ctx : Context} {s : State} {f : Frame} {r : Reaction} {below : List Frame}
  {m m' : Machine}

theorem redirection_of_redirects {template : String} {purpose : Purpose}
    (h : (Frame.expansion template purpose).redirects) : purpose = .redirection := by
  cases purpose with
  | redirection => rfl
  | _ => cases h

theorem HandedOver.of_expanded {purpose : Purpose} (he : Expanded s purpose r)
    (hp : purpose = .redirection → SpentOnTop below) (hb : HandedOver below) :
    HandedOver (r.above below).frames := by
  cases he with
  | aside r template request unknown same =>
    refine ⟨fun handsOver => ?_, hb⟩
    rcases same with rfl | ⟨-, -, rfl⟩
    · exact hp (redirection_of_redirects handsOver)
    · cases handsOver
  | included r target =>
    refine .append (fun f hf => ?_) hb
    simp only [State.beginInclusion, Reaction.leave, List.mem_cons, List.not_mem_nil,
      or_false] at hf
    rcases hf with rfl | rfl <;> exact Bool.false_ne_true
  | redirected r target => exact ⟨(by cases ·), fun _ => hp rfl, hb⟩
  | _ => exact hb

/-- A frame in its turn leaves nothing to do below a redirection. -/
theorem HandedOver.turn (ho : Orderly ⟨.proceed, s, f :: below⟩) (ht : Turn ctx s f r)
    (h : HandedOver (f :: below)) : HandedOver (r.above below).frames := by
  obtain ⟨spent, hb⟩ := h
  cases ht with
  | begun =>
    simp only [Reaction.above, Reaction.leave]
    refine .append (fun g hg => ?_) hb
    simp only [List.mem_append, List.mem_map, List.mem_singleton] at hg
    rcases hg with ⟨_, -, rfl⟩ | rfl <;> exact Bool.false_ne_true
  | opened record hr => exact handedOver_framesOf (ho.single record hr) ho.stacked.1 hb
  | settled d | exhausted d => exact ⟨(by cases ·), hb⟩
  | entered d purpose r _ looks _ expanded =>
    rw [Reaction.above_onto]
    refine .of_expanded expanded (fun hp => ?_) ⟨(by cases ·), hb⟩
    subst hp
    obtain ⟨qualifier, mechanism⟩ := d
    cases mechanism <;> cases looks
  | enteredRedirect domain r _ _ expanded =>
    exact .of_expanded expanded (fun _ => spent rfl) hb
  | explains domain r _ _ expanded => exact .of_expanded expanded (by cases ·) hb
  | explainsByDefault template r _ _ expanded =>
    exact .of_expanded expanded (by cases ·) hb
  | expanded template purpose r expanded =>
    exact .of_expanded expanded (fun hp => spent (by rw [hp]; rfl)) hb
  | _ => exact hb

theorem HandedOver.step (ho : Orderly m) (h : HandedOver m.frames) (hs : m.step ctx = some m') :
    HandedOver m'.frames := by
  obtain ⟨signal, s, frames⟩ := m
  cases signal with
  | await request listener => simp [Machine.step] at hs
  | proceed =>
    cases frames with
    | nil => cases hs
    | cons f below =>
      cases hs
      exact h.turn ho (check_turn ctx s f)
  | raise cause =>
    cases frames with
    | nil =>
      cases hs
      exact h
    | cons f below =>
      obtain ⟨q, t, rfl⟩ := Machine.step_raise hs
      exact h.2

theorem HandedOver.resume {request : Dns.Request} {listener : Listener} (answer : Dns.Answer)
    (h : HandedOver m.frames) (hs : m.signal = .await request listener) :
    HandedOver (m.resume ctx answer).frames := by
  obtain ⟨signal, s, frames⟩ := m
  subst hs
  have heard := resume_heard ctx answer s listener
  simp only [Machine.resume]
  generalize listener.resume ctx answer s = r at heard
  cases heard with
  | explains r expanded => exact .of_expanded expanded (by cases ·) h
  | _ => exact h

/-- Below a redirection nothing is left to do, at every point of a check. -/
theorem Reaches.handedOver {identity : Identity} {receivingDomain : Option String}
    {terms lookups : Nat} (h : Reaches ctx (machineOf identity receivingDomain) terms lookups m) :
    HandedOver m.frames := by
  induction h with
  | refl => exact ⟨(by cases ·), (by cases ·), trivial⟩
  | step before hs ih => exact ih.step (before.orderly (.begin identity receivingDomain)) hs
  | answer before hs answer ih => exact ih.resume answer hs

end Steps

/-! ## The template of a redirection -/

/-- The target that the template of a redirection comes to, at once or behind the exchanges that
validate the client's name, and the state behind them. -/
inductive Targets (ctx : Context) (template : String) (s : State) :
    List Exchange → State → String → Prop
  | atOnce {target : String}
      (named : Macro.expand s.values ctx.localNames .domain template = .ok target) :
      Targets ctx template s [] s target
  | validated {asked : List Exchange} {name target : String}
      (unknown : Macro.expand s.values ctx.localNames .domain template =
        .error .clientDomainUnknown)
      (validation : Validation s.identity asked (some name))
      (named : Macro.expand (State.values { s with clientDomain := some name }) ctx.localNames
        .domain template = .ok target) :
      Targets ctx template s asked { s with clientDomain := some name } target

section Targets

variable {ctx : Context} {s t u : State} {template target : String} {own below : List Frame}
  {asked exchanges : List Exchange} {m : Machine} {frames : List Frame}

/-- A template that names a domain redirects to it. -/
theorem expandTo_redirection
    (named : Macro.expand s.values ctx.localNames .domain template = .ok target) :
    expandTo ctx .redirection template s =
      .leave { s with domain := target } [.evaluation, .arrival] :=
  expandTo_of_expand ctx rfl named

/-- The validation of the client's name comes before the frames that wait for it. -/
theorem Clears.of_validation {name : String} (h : Validation s.identity asked (some name)) :
    Clears ctx below ⟨.await ⟨s.identity.reverseName, .ptr⟩ .clientNames, s, frames⟩
        (asked ++ exchanges) m ↔
      Clears ctx below ⟨.proceed, { s with clientDomain := some name }, frames⟩ exchanges m := by
  have named (first : String) (others : List String) (answer : Dns.Answer) :
      Clears ctx below ⟨.await ⟨s.identity.reverseName, .ptr⟩ .clientNames, s, frames⟩
          ([namesExchange s.identity (.ok (first :: others)),
            addressesExchange s.identity first answer] ++ exchanges) m ↔
        Clears ctx below ⟨.proceed, s.clientValidated first answer, frames⟩ exchanges m :=
    (Clears.of_await_iff rfl).trans (Clears.of_await_iff rfl)
  cases h with
  | @nameless answer unnamed =>
    have heard : clientNamed answer s = .done { s with clientDomain := some "unknown" } := by
      unfold clientNamed
      split
      · exact absurd rfl (unnamed _ _)
      · rfl
    refine (Clears.of_await_iff rfl).trans ?_
    simp only [Machine.resume, Listener.resume, heard]
    rfl
  | @verified _ answer others verifies =>
    rw [named, ← @State.clientValidated_of_verifies s name answer verifies]
    rfl
  | @unverified first answer others verifies =>
    rw [named, ← @State.clientValidated_of_not s first answer verifies]
    rfl

/-- The frames that a redirection leaves are cleared away behind the exchanges of its template. -/
theorem Clears.of_targets (h : Targets ctx template s asked u target) :
    Clears ctx below ((expandTo ctx .redirection template s).above (own ++ below))
        (asked ++ exchanges) m ↔
      Clears ctx below ⟨.proceed, { u with domain := target },
        .evaluation :: (.arrival :: own ++ below)⟩ exchanges m := by
  cases h with
  | atOnce named =>
    rw [expandTo_redirection named]
    rfl
  | @validated _ name _ unknown validation named =>
    rw [expandTo_of_unknown ctx rfl unknown]
    refine (Clears.of_validation validation).trans ?_
    -- with a name that is known the template is expanded again
    refine (Clears.of_step_iff (f := .expansion template .redirection) rfl rfl).trans ?_
    simp only [Frame.check, expandTo_redirection named]
    rfl

end Targets

/-! ## What a redirecting record has left -/

section Left

variable {ctx : Context} {s : State} {rest below : List Frame} {exchanges : List Exchange}
  {m : Machine}

/-- In silence, a frame that is spent does no more than to find the record neutral. -/
theorem check_of_left {f : Frame} (spent : f.isSpent) (own : f.isBoundary → f = .arrival)
    (muted : s.isMuted) : ∃ verdict, verdict.getD .neutral = s.verdict.getD .neutral ∧
      f.check ctx s = .done { s with verdict := verdict } := by
  cases f with
  | decoration d =>
    cases d with
    | neutralWithoutMatch =>
      cases hv : s.verdict with
      | none => exact ⟨some .neutral, rfl, by simp [Frame.check, decorationStep, hv]⟩
      | some q =>
        have decided : s.verdict.isNone = false := by simp [hv]
        refine ⟨s.verdict, by rw [hv], ?_⟩
        simp only [Frame.check, decorationStep, decided]
        rfl
    | explanation template =>
      exact ⟨s.verdict, rfl, if_neg fun h => h.2.2 muted⟩
  | modifier m =>
    cases m with
    | redirect => cases spent
    | explanation template => exact ⟨s.verdict, rfl, if_neg fun h => h.2 muted⟩
    | unknown => exact ⟨s.verdict, rfl, rfl⟩
  | arrival => exact ⟨s.verdict, rfl, by rw [Frame.check, ← muted]⟩
  | conclusion => cases own rfl
  | _ => cases spent

/-- What is left of a redirecting record does nothing but commit a neutral qualifier where none is
committed. -/
theorem clears_spent (spent : ∀ f ∈ rest, f.isSpent) (own : ∀ f ∈ rest, f.isBoundary → f = .arrival)
    (muted : s.isMuted) (h : Clears ctx below ⟨.proceed, s, rest ++ below⟩ exchanges m) :
    exchanges = [] ∧ ∃ verdict, verdict.getD .neutral = s.verdict.getD .neutral ∧
      m = ⟨.proceed, { s with verdict := verdict }, below⟩ := by
  induction rest generalizing s with
  | nil =>
    obtain ⟨rfl, rfl⟩ := (Clears.of_cleared_iff (m := ⟨.proceed, s, below⟩) rfl rfl).mp h
    exact ⟨rfl, s.verdict, rfl, rfl⟩
  | cons f rest ih =>
    rw [List.forall_mem_cons] at spent own
    obtain ⟨verdict, hv, hc⟩ := @check_of_left ctx s f spent.1 own.1 muted
    rw [List.cons_append, Clears.of_done_iff hc] at h
    obtain ⟨rfl, verdict', hv', rfl⟩ :=
      ih (s := { s with verdict := verdict }) spent.2 own.2 muted h
    exact ⟨rfl, verdict', hv'.trans hv, rfl⟩

/-- A cause that has been made out to be a permanent error is handed on as it is. -/
theorem clears_spent_of_raise {cause : Error} (hc : cause.result ≠ .none)
    (spent : ∀ f ∈ rest, f.isSpent) (own : ∀ f ∈ rest, f.isBoundary → f = .arrival)
    (h : Clears ctx below ⟨.raise cause, s, rest ++ below⟩ exchanges m) :
    exchanges = [] ∧ m = ⟨.raise cause, s, below⟩ := by
  induction rest with
  | nil => exact (Clears.of_cleared_iff (m := ⟨.raise cause, s, below⟩) rfl rfl).mp h
  | cons f rest ih =>
    rw [List.forall_mem_cons] at spent own
    have handed : f.catch cause s = (s, some cause) := by
      cases f with
      | conclusion => cases own.1 rfl
      | restoration => cases own.1 rfl
      | arrival => simp only [Frame.catch, escalate, if_neg hc]
      | _ => rfl
    have turn : Machine.step ctx ⟨.raise cause, s, f :: (rest ++ below)⟩ =
        some ⟨.raise cause, s, rest ++ below⟩ := by
      simp only [Machine.step, handed]
    rw [List.cons_append, Clears.of_step_iff rfl turn] at h
    exact ih spent.2 own.2 h

end Left

/-! ## Redirections as evaluations of their targets -/

/-- An evaluation has come to what another one has come to: to the same qualifier, where none is as
good as a neutral one, to the same explanation, and to the same cause, unless the cause is that
nothing was found. What else there is in the state is the same; explanations may be silenced. -/
structure Machine.StandsFor (m m' : Machine) : Prop where
  verdict : m.state.verdict.getD .neutral = m'.state.verdict.getD .neutral
  explanation : m.state.explanation = m'.state.explanation
  state : ∃ verdict isMuted, m.state = { m'.state with verdict := verdict, isMuted := isMuted }
  signal : m.signal = .proceed ∧ m'.signal = .proceed ∨
    ∃ cause cause', m.signal = .raise cause ∧ m'.signal = .raise cause' ∧
      cause.result = (if cause'.result = .none then .permError else cause'.result) ∧
      (cause'.result ≠ .none → cause = cause')

section Redirections

variable {ctx : Context} {identity : Identity} {receivingDomain : Option String}
  {terms lookups : Nat} {s u : State} {spec target : String} {rest below : List Frame}
  {asked exchanges : List Exchange} {m m' : Machine}

/-- What a redirecting record has left changes nothing about what its target has come to. -/
theorem standsFor_of_left {q : Signal} (spent : ∀ f ∈ rest, f.isSpent)
    (own : ∀ f ∈ rest, f.isBoundary → f = .arrival)
    (idle : (⟨q, s, []⟩ : Machine).awaits = false)
    (h : Clears ctx below ⟨q, s, .arrival :: (rest ++ below)⟩ exchanges m) :
    exchanges = [] ∧ m.StandsFor ⟨q, s, below⟩ := by
  cases q with
  | await request listener => cases idle
  | proceed =>
    rw [Clears.of_done_iff (t := { s with isMuted := true }) rfl] at h
    obtain ⟨rfl, verdict, hv, rfl⟩ := clears_spent spent own rfl h
    exact ⟨rfl, hv, rfl, ⟨verdict, true, rfl⟩, .inl ⟨rfl, rfl⟩⟩
  | raise cause =>
    rw [Clears.of_step_iff rfl rfl] at h
    have escalated : (escalate (.redirectedWithoutPolicy s.domain) cause).result =
        if cause.result = .none then .permError else cause.result := escalate_result rfl
    obtain ⟨rfl, rfl⟩ := clears_spent_of_raise (by rw [escalated]; split <;> simp_all) spent own h
    refine ⟨rfl, rfl, rfl, ⟨s.verdict, s.isMuted, rfl⟩, .inr ⟨_, cause, rfl, rfl, escalated, ?_⟩⟩
    exact fun hc => if_neg hc

/-- A redirection is the evaluation of its target, with one more term entered, in the place of all
that the redirecting record has left, be it a record of the sender's domain, of an included one, or
one that others have redirected to. It asks for the same and comes to the same; only a missing
policy of the target has become an error. -/
theorem redirection_hands_over
    (reached : Reaches ctx (machineOf identity receivingDomain) terms lookups
      ⟨.proceed, s, .modifier (.redirect spec) :: (rest ++ below)⟩)
    (own : ∀ f ∈ rest, f.isBoundary → f = .arrival) (undecided : s.verdict = none)
    (room : s.depth < maxTerms) (targets : Targets ctx spec s.entered asked u target) :
    (∀ exchanges m,
      Clears ctx below ⟨.proceed, s, .modifier (.redirect spec) :: (rest ++ below)⟩
        (asked ++ exchanges) m →
      ∃ m', Clears ctx below ⟨.proceed, { u with domain := target }, .evaluation :: below⟩
        exchanges m' ∧ m.StandsFor m') ∧
    (∀ exchanges m',
      Clears ctx below ⟨.proceed, { u with domain := target }, .evaluation :: below⟩
        exchanges m' →
      ∃ m, Clears ctx below ⟨.proceed, s, .modifier (.redirect spec) :: (rest ++ below)⟩
        (asked ++ exchanges) m ∧ m.StandsFor m') ∧
    ∀ service : Dns.Service, ∃ exchanges m',
      Clears ctx below ⟨.proceed, { u with domain := target }, .evaluation :: below⟩
        exchanges m' ∧ ∀ e ∈ exchanges, e.answer = service e.request := by
  have spent : ∀ f ∈ rest, f.isSpent := (reached.handedOver.1 rfl).spent own
  -- the redirection comes to the evaluation of its target, above what it has left
  have entered (exchanges : List Exchange) (m : Machine) :
      Clears ctx below ⟨.proceed, s, .modifier (.redirect spec) :: (rest ++ below)⟩
          (asked ++ exchanges) m ↔
        Clears ctx below ⟨.proceed, { u with domain := target },
          .evaluation :: (.arrival :: rest ++ below)⟩ exchanges m := by
    have turn : Frame.check ctx s (.modifier (.redirect spec)) =
        expandTo ctx .redirection spec s.entered := by
      have tried : ¬s.verdict.isSome = true := by simp [undecided]
      simp only [Frame.check, modifierStep, if_neg tried, State.counted, if_pos room]
      rfl
    refine (Clears.of_step_iff rfl rfl).trans ?_
    rw [turn]
    exact Clears.of_targets targets
  refine ⟨fun exchanges m h => ?_, fun exchanges m' h => ?_,
    fun service => exists_clears ctx service _ ⟨[.evaluation], rfl⟩⟩
  · obtain ⟨before, behind, mid, rfl, evaluated, left⟩ :=
      ((entered exchanges m).mp h).split [.evaluation] (.arrival :: rest) rfl
    obtain ⟨q, v, frames⟩ := mid
    obtain ⟨rfl, idle⟩ := evaluated.ends
    obtain ⟨rfl, stands⟩ := standsFor_of_left spent own idle left
    rw [List.append_nil]
    exact ⟨_, evaluated.upon [.evaluation] rfl below, stands⟩
  · obtain ⟨q, v, frames⟩ := m'
    obtain ⟨hf, idle⟩ := h.ends
    obtain rfl : below = frames := hf.symm
    have evaluated := h.upon [.evaluation] rfl (.arrival :: rest ++ below)
    obtain ⟨behind, m, left, -⟩ := exists_clears ctx (fun _ => .ok [])
      ⟨q, v, .arrival :: rest ++ below⟩ ⟨.arrival :: rest, rfl⟩
    obtain ⟨rfl, stands⟩ := standsFor_of_left spent own idle left
    have whole := evaluated.append left
    rw [List.append_nil] at whole
    exact ⟨m, (entered exchanges m).mpr whole, stands⟩

end Redirections

/-- A record that redirects and has its explanation left behind the redirection: the target fails
the client, and nothing else is asked for. -/
theorem redirection_hands_over_of_fail :
    ∃ rest exchanges m, Clears ⟨{ Policy.standard with defaultExplanation := none }, [], 10⟩
      [.conclusion] ⟨.proceed, State.initial ⟨.v4 1#32, "a@b", "a", "b", "b", 0⟩ none,
        .modifier (.redirect "c.d") :: (rest ++ [.conclusion])⟩ exchanges m ∧
      .modifier (.explanation "e.f") ∈ rest ∧ m.state.verdict.getD .neutral = .fail ∧
      exchanges.map Exchange.request = [⟨"c.d", .spf⟩, ⟨"c.d", .txt⟩] := by
  -- the record of the sender's domain, up to its redirection
  have looked := ((@Reaches.refl ⟨{ Policy.standard with defaultExplanation := none }, [], 10⟩
    (machineOf ⟨.v4 1#32, "a@b", "a", "b", "b", 0⟩ none)).step rfl).step rfl |>.step rfl
  have reached := ((((looked.answer rfl (.ok [])).answer rfl
    (.ok ["v=spf1 redirect=c.d exp=e.f"])).step rfl).step rfl).step rfl |>.step rfl
  -- the record of the target, up to its only directive
  have evaluated : Clears ⟨{ Policy.standard with defaultExplanation := none }, [], 10⟩
      [.conclusion] ⟨.proceed, { State.initial ⟨.v4 1#32, "a@b", "a", "b", "b", 0⟩ none with
        depth := 1, domain := "c.d" }, [.evaluation, .conclusion]⟩ _ _ :=
    .step [] rfl rfl <| .step [_, _, _, _, _] rfl rfl <| .step [_, _, _, _] rfl rfl <|
    .answer rfl (.ok []) <| .answer rfl (.ok ["v=spf1 -all"]) <|
    .step [_, _, _] rfl rfl <| .step [_, _] rfl rfl <| .step [_] rfl rfl <| .step [] rfl rfl <|
    .step [_] rfl rfl <| .step [_] rfl rfl <| .step [] rfl rfl <| .cleared rfl rfl
  have own : ∀ f ∈ [Frame.modifier (.explanation "e.f")], f.isBoundary → f = .arrival :=
    List.forall_mem_singleton.mpr nofun
  obtain ⟨m, clears, stands⟩ :=
    (@redirection_hands_over _ _ _ _ _ _ _ _ _ [.modifier (.explanation "e.f")] [.conclusion] _
      reached own rfl (by decide) (.atOnce rfl)).2.1 _ _ evaluated
  exact ⟨_, _, m, clears, List.mem_singleton.mpr rfl, stands.verdict, rfl⟩

end SenderPolicy.Evaluation
