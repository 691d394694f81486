import SenderPolicy.Evaluation.Run
import SenderPolicy.Proofs.Course.Stack

/-!
# The points of a check

A check comes from one point to the next by a step, or by an answer, which may say anything and may
depend on everything that came before. The terms that are entered and the lookups that are answered
are counted on the way.

## Main definitions

* `Machine.enters`: the next step enters a term with lookups
* `Machine.Continues`: one point of a check comes right before another
* `Reaches`: a machine is reached from another, with the terms and the lookups in between

## Main results

* `continues_wellFounded`: no check goes on forever
* `Reaches.orderly`: the frames lie in order at every point of a check
* `reaches_run`, `reaches_finish`: runs and whole checks are made of such points
-/

namespace SenderPolicy.Evaluation

/-- The mechanism looks something up. -/
def looksUp : Mechanism → Bool
  | .address _ _ | .exchange _ _ | .pointer _ | .existing _ | .included _ => true
  | .all | .network4 _ | .network6 _ => false

/-- The frame enters a term with lookups in its turn: the term is not passed over. -/
def Frame.enters (s : State) : Frame → Bool
  | directive d => s.verdict.isNone && looksUp d.mechanism
  | modifier (.redirect _) => s.verdict.isNone
  | _ => false

namespace Machine

/-- The next step enters a term with lookups. -/
def enters (m : Machine) : Bool :=
  match m.signal, m.frames with
  | .proceed, f :: _ => f.enters m.state
  | _, _ => false

/-- An answer is awaited. -/
def awaits (m : Machine) : Bool :=
  match m.signal with
  | .await _ _ => true
  | _ => false

/-- One point of a check comes right before another, by a step or by an answer. -/
def Continues (ctx : Context) (m' m : Machine) : Prop :=
  m.step ctx = some m' ∨
    ∃ request listener answer, m.signal = .await request listener ∧ m' = m.resume ctx answer

end Machine

/-- No check goes on forever, whatever it is answered. -/
theorem continues_wellFounded (ctx : Context) : WellFounded (Machine.Continues ctx) := by
  refine Subrelation.wf (r := InvImage WellFoundedRelation.rel Machine.rank) ?_
    (InvImage.wf _ WellFoundedRelation.wf)
  -- steps and answers both lower the rank, whatever the answer is
  rintro m' m (hs | ⟨request, listener, answer, hs, rfl⟩)
  · exact (Machine.rank_step hs).lex
  · exact (Machine.rank_resume hs).lex

/-- The machine is reached from another: the terms entered and the lookups answered in between. -/
inductive Reaches (ctx : Context) (start : Machine) : Nat → Nat → Machine → Prop
  | refl : Reaches ctx start 0 0 start
  | step {terms lookups : Nat} {m m' : Machine} (before : Reaches ctx start terms lookups m)
      (hs : m.step ctx = some m') : Reaches ctx start (terms + m.enters.toNat) lookups m'
  | answer {terms lookups : Nat} {m : Machine} {request : Dns.Request} {listener : Listener}
      (before : Reaches ctx start terms lookups m) (hs : m.signal = .await request listener)
      (answer : Dns.Answer) : Reaches ctx start terms (lookups + 1) (m.resume ctx answer)

namespace Reaches

variable {ctx : Context} {start m m' : Machine} {terms terms' lookups lookups' : Nat}

theorem trans (h : Reaches ctx start terms lookups m) (h' : Reaches ctx m terms' lookups' m') :
    Reaches ctx start (terms + terms') (lookups + lookups') m' := by
  -- on the later points: each of them comes behind all of the earlier ones
  induction h' with
  | refl => exact h
  | step _ hs ih =>
    rw [← Nat.add_assoc]
    exact ih.step hs
  | answer _ hs a ih => exact ih.answer hs a

/-- The frames lie in order at every point of a check. -/
theorem orderly (h : Reaches ctx start terms lookups m) (hs : Orderly start) : Orderly m := by
  induction h with
  | refl => exact hs
  | step _ hs ih => exact ih.step hs
  | answer _ hs _ ih => exact ih.resume hs

end Reaches

/-! ## Runs and whole checks -/

/-- A run comes to a point where no step is left, without an answer. -/
theorem reaches_run (ctx : Context) (m : Machine) :
    ∃ terms, Reaches ctx m terms 0 (m.run ctx) := by
  -- a run consists of steps only, so the terms are counted and no lookup is
  fun_induction Machine.run ctx m with
  | case1 m h => exact ⟨0, .refl⟩
  | case2 m m' h ih =>
    obtain ⟨terms, ih⟩ := ih
    exact ⟨_, Reaches.trans (.step .refl h) ih⟩

/-- A machine that takes no step awaits an answer or has come to its end. -/
theorem step_eq_none {ctx : Context} {m : Machine} (hs : m.step ctx = none) :
    (∃ request listener, m.signal = .await request listener) ∨
      m.signal = .proceed ∧ m.frames = [] := by
  obtain ⟨signal, s, frames⟩ := m
  cases signal with
  | await request listener => exact Or.inl ⟨request, listener, rfl⟩
  | proceed =>
    cases frames with
    | nil => exact Or.inr ⟨rfl, rfl⟩
    | cons f below => simp [Machine.step] at hs
  | raise cause =>
    cases frames with
    | nil => simp [Machine.step] at hs
    -- every frame hands a cause on or handles it, which is a step in either case
    | cons f below => cases f <;> simp [Machine.step, Frame.catch] at hs

/-- The end of a whole check is one of its points, and every lookup was answered on the way. -/
theorem reaches_finish (ctx : Context) (service : Dns.Service) (m : Machine) :
    ∃ terms last, Reaches ctx m terms (m.finish ctx service).1.length last ∧
      last.signal = .proceed ∧ last.frames = [] ∧ last.state = (m.finish ctx service).2 := by
  -- on the points that are still to come, with the answers of the service
  induction m using (continues_wellFounded ctx).induction with
  | _ m ih =>
    cases hs : m.step ctx with
    | some m' =>
      obtain ⟨terms, last, hr, hl⟩ := ih m' (Or.inl hs)
      rw [Machine.finish_of_step hs]
      have hr' := Reaches.trans (.step .refl hs) hr
      simp only [Nat.zero_add] at hr'
      exact ⟨_, last, hr', hl⟩
    | none =>
      rcases step_eq_none hs with ⟨request, listener, hw⟩ | ⟨hp, hf⟩
      · obtain ⟨terms, last, hr, hl⟩ :=
          ih (m.resume ctx (service request)) (Or.inr ⟨request, listener, _, hw, rfl⟩)
        rw [Machine.finish_of_await hw]
        have hr' := Reaches.trans (.answer .refl hw (service request)) hr
        simp only [Nat.zero_add] at hr'
        rw [Nat.add_comm] at hr'
        exact ⟨_, last, hr', hl⟩
      · obtain ⟨signal, s, frames⟩ := m
        cases hp
        cases hf
        rw [Machine.finish_of_end]
        exact ⟨0, _, .refl, rfl, rfl, rfl⟩

end SenderPolicy.Evaluation
