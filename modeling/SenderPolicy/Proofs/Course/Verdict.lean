import SenderPolicy.Check
import SenderPolicy.Proofs.Course.Reaches

/-!
# The verdict of a check

A check has one frame that commits its result, at the bottom of all others, and comes to it once. A
cause that is raised ends everything above that frame: the frames between are only offered the
cause, none of them has a turn any more, and no lookup is made. What becomes of the cause on the way
down is decided by the policies that refer to each other, for which a missing policy is an error.

## Main definitions

* `Machine.concludes`: the next step commits a result
* `Commits`: a machine is reached from another, with the results committed in between
* `resultUpon`: the result of a cause that is raised upon frames

## Main results

* `Orderly.step_conclusions`: a result is committed by the step that takes the last frame away
* `Orderly.run_raise`: where a cause ends
* `concluded_once`: a check commits one result, and a cause is final
-/

namespace SenderPolicy.Evaluation

/-! ## The last frame -/

/-- The conclusion is the last frame, and no other frame is one. -/
theorem Stacked.exists_conclusion {frames : List Frame} (h : Stacked frames) (hne : frames ≠ []) :
    ∃ fs, frames = fs ++ [.conclusion] ∧ ∀ f ∈ fs, f.isConclusion = false := by
  induction frames with
  | nil => exact absurd rfl hne
  | cons f below ih =>
    cases hf : f.isConclusion with
    | true =>
      cases f with
      | conclusion =>
        have hb : below = [] := h.1
        exact ⟨[], by rw [hb]; rfl, nofun⟩
      | _ => cases hf
    | false =>
      obtain ⟨fs, rfl, hfs⟩ := ih h.2 (h.1.ne_nil hf)
      exact ⟨f :: fs, rfl, List.forall_mem_cons.mpr ⟨hf, hfs⟩⟩

/-- A stack that is not empty has one conclusion. -/
theorem Stacked.conclusions {frames : List Frame} (h : Stacked frames) (hne : frames ≠ []) :
    frames.countP Frame.isConclusion = 1 := by
  obtain ⟨fs, rfl, hfs⟩ := h.exists_conclusion hne
  rw [List.countP_append, List.countP_eq_zero.mpr fun f hf => by simp [hfs f hf]]
  rfl

namespace Machine

/-- The next step commits a result: the conclusion is at work, in its turn or with a cause, or a
cause has found no frame. -/
def concludes (m : Machine) : Bool :=
  match m.signal, m.frames with
  | .proceed, .conclusion :: _ | .raise _, .conclusion :: _ | .raise _, [] => true
  | _, _ => false

/-- The next step is the turn of a frame. -/
def turns (m : Machine) : Bool :=
  match m.signal, m.frames with
  | .proceed, _ :: _ => true
  | _, _ => false

end Machine

/-- The machine is reached from another: the results committed in between. -/
inductive Commits (ctx : Context) (start : Machine) : Nat → Machine → Prop
  | refl : Commits ctx start 0 start
  | step {results : Nat} {m m' : Machine} (before : Commits ctx start results m)
      (hs : m.step ctx = some m') : Commits ctx start (results + m.concludes.toNat) m'
  | answer {results : Nat} {m : Machine} {request : Dns.Request} {listener : Listener}
      (before : Commits ctx start results m) (hs : m.signal = .await request listener)
      (answer : Dns.Answer) : Commits ctx start results (m.resume ctx answer)

theorem Commits.reaches {ctx : Context} {start m : Machine} {results : Nat}
    (h : Commits ctx start results m) : ∃ terms lookups, Reaches ctx start terms lookups m := by
  induction h with
  | refl => exact ⟨0, 0, .refl⟩
  | step _ hs ih =>
    obtain ⟨terms, lookups, ih⟩ := ih
    exact ⟨_, _, ih.step hs⟩
  | answer _ hs a ih =>
    obtain ⟨terms, lookups, ih⟩ := ih
    exact ⟨_, _, ih.answer hs a⟩

namespace Orderly

variable {ctx : Context} {m m' : Machine} {s : State} {frames : List Frame} {cause : Error}

/-- A result is committed by the step that takes the last frame away, and by no other. -/
theorem concludes_iff (h : Orderly m) (hs : m.step ctx = some m') :
    m.concludes ↔ m'.frames = [] := by
  obtain ⟨signal, s, frames⟩ := m
  cases frames with
  | nil =>
    -- a check without frames has ended
    cases (h.ended rfl).1
    simp [Machine.step] at hs
  | cons f below =>
    cases hf : f.isConclusion with
    | true =>
      cases f with
      | conclusion =>
        have hb : below = [] := h.stacked.1
        subst hb
        cases signal with
        | await request listener => simp [Machine.step] at hs
        | proceed | raise =>
          simp only [Machine.step, Frame.catch, Option.some.injEq] at hs
          subst hs
          exact ⟨fun _ => rfl, fun _ => rfl⟩
      | _ => cases hf
    | false =>
      have hb : below ≠ [] := h.stacked.1.ne_nil hf
      have hc : Machine.concludes ⟨signal, s, f :: below⟩ = false := by
        cases f with
        | conclusion => cases hf
        | _ => cases signal <;> rfl
      rw [hc]
      refine ⟨fun hn => Bool.noConfusion hn, fun hm => absurd ?_ hb⟩
      -- the frames below are still there, whatever the frame has left upon them
      cases signal with
      | await request listener => simp [Machine.step] at hs
      | proceed =>
        simp only [Machine.step, Option.some.injEq] at hs
        subst hs
        exact (List.append_eq_nil_iff.mp hm).2
      | raise cause =>
        cases f with
        | conclusion => cases hf
        | _ =>
          simp only [Machine.step, Frame.catch, Option.some.injEq] at hs
          subst hs
          exact hm

/-- A check that still has a step or a lookup to come has frames. -/
theorem frames_ne_nil (h : Orderly m) (hm : m.awaits ∨ m.step ctx = some m') : m.frames ≠ [] := by
  intro hf
  obtain ⟨signal, s, frames⟩ := m
  cases hf
  cases (h.ended rfl).1
  simp [Machine.awaits, Machine.step] at hm

/-- With the conclusion a result is committed, and without it none. -/
theorem step_conclusions (h : Orderly m) (hs : m.step ctx = some m') :
    m.concludes.toNat + m'.frames.countP Frame.isConclusion =
      m.frames.countP Frame.isConclusion := by
  rw [h.stacked.conclusions (h.frames_ne_nil (Or.inr hs))]
  by_cases hf : m'.frames = []
  · rw [hf, (h.concludes_iff hs).mpr hf]
    rfl
  · rw [(h.step hs).stacked.conclusions hf,
      Bool.eq_false_iff.mpr fun hc => hf ((h.concludes_iff hs).mp hc)]
    rfl

/-- An answer takes no conclusion away and brings none. -/
theorem resume_conclusions {answer : Dns.Answer} {request : Dns.Request} {listener : Listener}
    (h : Orderly m) (hs : m.signal = .await request listener) :
    (m.resume ctx answer).frames.countP Frame.isConclusion =
      m.frames.countP Frame.isConclusion := by
  have hne : m.frames ≠ [] := @frames_ne_nil ctx m m h (Or.inl (by simp [Machine.awaits, hs]))
  rw [h.stacked.conclusions hne]
  refine (h.resume hs).stacked.conclusions fun hf => hne ?_
  obtain ⟨signal, s, frames⟩ := m
  cases hs
  exact (List.append_eq_nil_iff.mp hf).2

end Orderly

/-- The results committed so far and the conclusion that is left are one. -/
theorem Commits.conclusions {ctx : Context} {start m : Machine} {results : Nat}
    (h : Commits ctx start results m) (ho : Orderly start) :
    results + m.frames.countP Frame.isConclusion = start.frames.countP Frame.isConclusion := by
  -- on the points of the check: what a step commits is what it takes away
  induction h with
  | refl => exact Nat.zero_add _
  | step before hs ih =>
    obtain ⟨terms, lookups, hr⟩ := before.reaches
    rw [← ih, ← (hr.orderly ho).step_conclusions hs, Nat.add_assoc]
  | answer before hs a ih =>
    obtain ⟨terms, lookups, hr⟩ := before.reaches
    rw [← ih, (hr.orderly ho).resume_conclusions hs]

/-! ## Causes -/

/-- The frame stands for a policy that refers to another one. -/
def Frame.refers : Frame → Bool
  | restoration _ _ _ | arrival => true
  | _ => false

/-- The result of a check whose cause is raised upon the frames: a missing policy is an error once
the cause passes a policy that refers to it. -/
def resultUpon (frames : List Frame) (cause : Error) : Result :=
  if cause.result = .none ∧ frames.any Frame.refers then .permError else cause.result

/-- A cause is on its way down, or the check has ended. -/
def Machine.IsOver (m : Machine) : Prop :=
  (∃ cause, m.signal = .raise cause) ∨ m.signal = .proceed ∧ m.frames = []

namespace Machine.IsOver

variable {m : Machine}

theorem turns (h : m.IsOver) : m.turns = false := by
  rcases h with ⟨cause, hs⟩ | ⟨hs, hf⟩
  · simp [Machine.turns, hs]
  · simp [Machine.turns, hs, hf]

theorem awaits (h : m.IsOver) : m.awaits = false := by
  rcases h with ⟨cause, hs⟩ | ⟨hs, -⟩ <;> simp [Machine.awaits, hs]

end Machine.IsOver

section Causes

variable {ctx : Context} {m m' : Machine} {terms lookups : Nat}

/-- A cause is handed on until the conclusion ends the check. -/
theorem Orderly.step_isOver (h : Orderly m) (hm : m.IsOver) (hs : m.step ctx = some m') :
    m'.IsOver := by
  obtain ⟨signal, s, frames⟩ := m
  rcases hm with ⟨cause, rfl⟩ | ⟨rfl, rfl⟩
  · cases frames with
    | nil => cases (h.ended rfl).1
    | cons f below =>
      cases f with
      | conclusion =>
        have hb : below = [] := h.stacked.1
        subst hb
        simp only [Machine.step, Frame.catch, Option.some.injEq] at hs
        subst hs
        exact Or.inr ⟨rfl, rfl⟩
      | _ =>
        simp only [Machine.step, Frame.catch, Option.some.injEq] at hs
        subst hs
        exact Or.inl ⟨_, rfl⟩
  · simp [Machine.step] at hs

/-- Behind a cause no frame has a turn any more, and no lookup is made. -/
theorem Reaches.isOver {start : Machine} (h : Reaches ctx start terms lookups m)
    (ho : Orderly start) (hf : start.IsOver) : m.IsOver := by
  induction h with
  | refl => exact hf
  | step before hs ih => exact (before.orderly ho).step_isOver ih hs
  | @answer _ _ m _ _ _ hs _ ih =>
    have ha : m.awaits = false := ih.awaits
    simp [Machine.awaits, hs] at ha

/-- What a referring policy makes of a cause has the result that the check comes to. -/
theorem resultUpon_escalate {refer : Error → Error} {cause : Error} {f : Frame}
    {below : List Frame} (hr : (refer cause).result = .permError) (hf : f.refers) :
    resultUpon below (escalate refer cause) = resultUpon (f :: below) cause := by
  unfold resultUpon escalate
  by_cases hc : cause.result = .none
  · simp [hc, hr, hf]
  · simp [hc]

/-- A frame that refers to nothing hands a cause on as it is. -/
theorem resultUpon_cons {cause : Error} {f : Frame} {below : List Frame} (hf : f.refers = false) :
    resultUpon (f :: below) cause = resultUpon below cause := by
  simp [resultUpon, hf]

/-- A referring policy makes an error of a missing policy, and of nothing else. -/
theorem escalate_result {refer : Error → Error} {cause : Error}
    (hr : (refer cause).result = .permError) :
    (escalate refer cause).result =
      if cause.result = .none then .permError else cause.result := by
  unfold escalate
  split
  · exact hr
  · rfl

/-- No policy makes a failed lookup of anything else, or anything else of a failed lookup. -/
theorem escalate_eq_tempError {refer : Error → Error} {cause : Error}
    (hr : (refer cause).result = .permError) :
    (escalate refer cause).result = .tempError ↔ cause.result = .tempError := by
  rw [escalate_result hr]
  split
  · simp [*]
  · rfl

/-- A frame other than the conclusion hands a cause on, to the same result. -/
theorem step_raise {cause : Error} {s : State} {f : Frame} {below : List Frame}
    (hf : f.isConclusion = false) :
    ∃ t cause', Machine.step ctx ⟨.raise cause, s, f :: below⟩ =
        some ⟨.raise cause', t, below⟩ ∧ t.identity = s.identity ∧
      (cause'.result = .tempError ↔ cause.result = .tempError) ∧
      resultUpon below cause' = resultUpon (f :: below) cause := by
  cases f with
  | conclusion => cases hf
  | restoration | arrival =>
    exact ⟨_, _, rfl, rfl, escalate_eq_tempError rfl, resultUpon_escalate rfl rfl⟩
  | _ => exact ⟨s, cause, rfl, rfl, Iff.rfl, (resultUpon_cons rfl).symm⟩

/-- A cause ends the check with its result, unless a policy that refers to a missing one is among
the frames. -/
theorem Orderly.run_raise {cause : Error} {s : State} {frames : List Frame}
    (h : Orderly ⟨.raise cause, s, frames⟩) :
    ∃ last, Machine.run ctx ⟨.raise cause, s, frames⟩ = ⟨.proceed, last, []⟩ ∧
      last.result = some (resultUpon frames cause) := by
  -- on the frames, each of which is offered what the one above has made of the cause
  induction frames generalizing cause s with
  | nil => cases (h.ended rfl).1
  | cons f below ih =>
    cases f with
    | conclusion =>
      have hb : below = [] := h.stacked.1
      have running : s.result = none := h.running (List.cons_ne_nil _ _)
      subst hb
      refine ⟨s.conclude cause.result, (Machine.run_of_step rfl).trans (Machine.run_of_stopped rfl),
        ?_⟩
      simp [State.conclude, running, resultUpon, Frame.refers]
    | restoration domain explanation isMuted =>
      have hs : Machine.step ctx
          ⟨.raise cause, s, .restoration domain explanation isMuted :: below⟩ =
        some ⟨.raise (escalate (.includedWithoutPolicy s.domain) cause),
          s.restore domain explanation isMuted, below⟩ := rfl
      rw [Machine.run_of_step hs,
        ← @resultUpon_escalate (.includedWithoutPolicy s.domain) cause _ _ rfl rfl]
      exact ih (h.step hs)
    | arrival =>
      have hs : Machine.step ctx ⟨.raise cause, s, .arrival :: below⟩ =
        some ⟨.raise (escalate (.redirectedWithoutPolicy s.domain) cause), s, below⟩ := rfl
      rw [Machine.run_of_step hs,
        ← @resultUpon_escalate (.redirectedWithoutPolicy s.domain) cause _ _ rfl rfl]
      exact ih (h.step hs)
    | _ =>
      rw [Machine.run_of_step rfl, resultUpon_cons rfl]
      exact ih (@Orderly.step ctx _ _ h rfl)

end Causes

/-! ## Whole checks -/

/-- Whatever it is answered, a check commits one result: what it has committed and the conclusions
that are left are one, and the conclusion is the last frame. A cause is final: behind it no frame
has a turn and no lookup is made, and the check ends with the cause's result, or with an error where
the cause is a missing policy that another one refers to. -/
theorem concluded_once {ctx : Context} {identity : Identity} {receivingDomain : Option String}
    {results : Nat} {m : Machine}
    (h : Commits ctx (machineOf identity receivingDomain) results m) :
    results + m.frames.countP Frame.isConclusion = 1 ∧
    (m.frames ≠ [] → m.frames.getLast? = some .conclusion ∧ m.state.result = none) ∧
    (m.frames = [] → m.signal = .proceed ∧ m.state.result ≠ none) ∧
    ∀ cause, m.signal = .raise cause →
      (∀ terms lookups m', Reaches ctx m terms lookups m' →
        m'.turns = false ∧ m'.awaits = false) ∧
      (m.run ctx).signal = .proceed ∧ (m.run ctx).frames = [] ∧
        (m.run ctx).state.result = some (resultUpon m.frames cause) := by
  have begun : Orderly (machineOf identity receivingDomain) := .begin identity receivingDomain
  obtain ⟨terms, lookups, reached⟩ := h.reaches
  have ho : Orderly m := reached.orderly begun
  refine ⟨h.conclusions begun, fun hne => ⟨?_, ho.running hne⟩, ho.ended, fun cause hs => ⟨?_, ?_⟩⟩
  · obtain ⟨fs, hf, -⟩ := ho.stacked.exists_conclusion hne
    rw [hf, List.getLast?_concat]
  · intro terms lookups m' hm'
    have ended : m'.IsOver := hm'.isOver ho (Or.inl ⟨cause, hs⟩)
    exact ⟨ended.turns, ended.awaits⟩
  · obtain ⟨signal, s, frames⟩ := m
    cases hs
    obtain ⟨last, hr, hl⟩ := @Orderly.run_raise ctx cause s frames ho
    rw [hr]
    exact ⟨rfl, rfl, hl⟩

/-- A redirection to a domain that publishes nothing: the missing policy is an error of the one that
redirects, and no result was committed before. -/
theorem concluded_once_of_redirection :
    ∃ m cause,
      Commits ⟨.standard, [], 10⟩ (machineOf ⟨.v4 1#32, "a@b", "a", "b", "b", 0⟩ none) 0 m ∧
      m.signal = .raise cause ∧ cause.result = .none ∧
      (m.run ⟨.standard, [], 10⟩).state.result = some .permError := by
  -- the record of the sender's domain, up to its redirection
  have looked := ((@Commits.refl ⟨.standard, [], 10⟩
    (machineOf ⟨.v4 1#32, "a@b", "a", "b", "b", 0⟩ none)).step rfl).step rfl |>.step rfl
  have redirected := ((((((looked.answer rfl (.ok [])).answer rfl
    (.ok ["v=spf1 redirect=c.d"])).step rfl).step rfl).step rfl).step rfl).step rfl |>.step rfl
  -- the target, for which neither type holds a record
  have failed := ((((((redirected.step rfl).step rfl).step rfl).answer rfl (.ok [])).answer rfl
    (.ok [])).step rfl).step rfl
  obtain ⟨-, -, -, final⟩ := concluded_once failed
  exact ⟨_, .nothingPublished "c.d", failed, rfl, rfl, (final _ rfl).2.2.2⟩

end SenderPolicy.Evaluation
