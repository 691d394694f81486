import SenderPolicy.Evaluation.Rank.Answers

/-!
# Runs of the machine

Steps and answers lower the rank of a machine. A machine therefore stops at a lookup or at its end,
and a check comes to its end after finitely many lookups, whatever they are answered with.

## Main definitions

* `Machine.rank`: what every step and every answer lowers
* `Machine.run`: the machine when it stops at a lookup or at its end
* `Machine.finish`: the lookups of a whole check and its last state
* `Machine.steps`: the machine behind a number of steps

## Main results

* `rank_step`, `rank_resume`: steps and answers lower the rank
* `step_run`: a machine that has run takes no step
* `run_of_steps`: a run is over when enough steps are taken
* `finish_of_step`, `finish_of_await`, `finish_of_end`: a whole check, step by step
-/

namespace SenderPolicy.Evaluation.Machine

/-! ## Steps and answers -/

/-- What every step and every answer lowers. -/
def rank (m : Machine) : Rank :=
  rankOf m.state m.frames m.signal

/-- Every step lowers the rank. -/
theorem rank_step {ctx : Context} {m m' : Machine} (h : m.step ctx = some m') :
    Lower m'.rank m.rank := by
  obtain ⟨signal, s, frames⟩ := m
  cases signal with
  | await request listener => simp [step] at h
  | proceed =>
    cases frames with
    | nil => simp [step] at h
    | cons f frames =>
      simp only [step, Option.some.injEq] at h
      subst h
      exact (check_lower ctx s f).above frames
  | raise cause =>
    cases frames with
    | nil =>
      simp only [step, Option.some.injEq] at h
      subst h
      exact lower_of_parts (by simp) (State.validationAhead_congr (by simp)) (by simp)
    | cons f frames =>
      have popped {t : State} {signal : Signal} (hd : t.depth = s.depth)
          (hc : t.clientDomain = s.clientDomain) (hs : signal = .proceed ∨ ∃ e, signal = .raise e) :
          Lower (rankOf t frames signal) (rankOf s (f :: frames) (.raise cause)) := by
        have hw : 1 ≤ f.workAhead := by cases f <;> simp [Frame.workAhead]
        refine lower_of_parts hd ?_ ?_
        · rw [← State.validationAhead_congr hc]
          rcases hs with rfl | ⟨e, rfl⟩ <;> rfl
        · rcases hs with rfl | ⟨e, rfl⟩ <;> simp only [total_cons, Signal.stagesAhead_proceed,
            Signal.stagesAhead_raise, Signal.listsAhead_proceed, Signal.listsAhead_raise,
            Signal.workAhead_proceed, Signal.workAhead_raise] <;> omega
      simp only [step] at h
      -- only the conclusion handles a cause; the other frames pass one on
      cases f with
      | conclusion =>
        simp only [Frame.catch, Option.some.injEq] at h
        subst h
        exact popped (by simp) (by simp) (Or.inl rfl)
      | _ =>
        simp only [Frame.catch, Option.some.injEq] at h
        subst h
        exact popped rfl rfl (Or.inr ⟨_, rfl⟩)

/-- Every answer lowers the rank. -/
theorem rank_resume {ctx : Context} {answer : Dns.Answer} {m : Machine} {request : Dns.Request}
    {listener : Listener} (h : m.signal = .await request listener) :
    Lower (m.resume ctx answer).rank m.rank := by
  obtain ⟨signal, s, frames⟩ := m
  subst h
  exact (resume_lower ctx answer s request listener).above frames

/-! ## Runs

A run goes on from step to step; a whole check goes on from run to run, with the answers of a
service in between. -/

/-- The machine when it stops, at a lookup or at its end. -/
def run (ctx : Context) (m : Machine) : Machine :=
  match _h : m.step ctx with
  | none => m
  | some m' => run ctx m'
termination_by m.rank
decreasing_by exact (rank_step _h).lex

/-- A machine that has run takes no step. -/
theorem step_run (ctx : Context) (m : Machine) : (m.run ctx).step ctx = none := by
  fun_induction run ctx m with
  | case1 m h => exact h
  | case2 m m' h ih => exact ih

/-- A run lowers the rank, unless the machine had stopped before. -/
theorem rank_run (ctx : Context) (m : Machine) :
    m.run ctx = m ∨ Lower (m.run ctx).rank m.rank := by
  fun_induction run ctx m with
  | case1 m h => exact Or.inl rfl
  | case2 m m' h ih =>
    rcases ih with ih | ih
    · exact Or.inr (by rw [ih]; exact rank_step h)
    · exact Or.inr (ih.trans (rank_step h))

/-- The lookups of a whole check, in order, and its last state. -/
def finish (ctx : Context) (service : Dns.Service) (m : Machine) : List Dns.Request × State :=
  match _h : (m.run ctx).signal with
  | .await request _ =>
    let (requests, last) := finish ctx service ((m.run ctx).resume ctx (service request))
    (request :: requests, last)
  | _ => ([], (m.run ctx).state)
termination_by m.rank
decreasing_by
  -- the answer lowers the rank of the machine that has run, which is not above that of the machine
  have lower := @rank_resume ctx (service request) _ _ _ _h
  rcases rank_run ctx m with h | h
  · rw [h] at lower ⊢
    exact lower.lex
  · exact (lower.trans h).lex

/-! ## Whole checks, step by step

A whole check is known by its first step or its first answer, so that nothing else needs to look
into its recursion. -/

/-- A run goes on behind its first step. -/
theorem run_of_step {ctx : Context} {m m' : Machine} (h : m.step ctx = some m') :
    m.run ctx = m'.run ctx := by
  rw [run]
  split
  · rename_i h'
    rw [h] at h'
    cases h'
  · rename_i m'' h'
    rw [h] at h'
    cases h'
    rfl

/-- A machine that takes no step has run. -/
theorem run_of_stopped {ctx : Context} {m : Machine} (h : m.step ctx = none) : m.run ctx = m := by
  rw [run]
  split
  · rfl
  · rename_i m' h'
    rw [h] at h'
    cases h'

/-- The machine behind a number of steps, or where it stops before. -/
def steps (ctx : Context) : Nat → Machine → Machine
  | 0, m => m
  | n + 1, m =>
    match m.step ctx with
    | some m' => steps ctx n m'
    | none => m

/-- A run is over when enough steps are taken. -/
theorem run_of_steps {ctx : Context} {m : Machine} (n : Nat)
    (h : (m.steps ctx n).step ctx = none) : m.run ctx = m.steps ctx n := by
  induction n generalizing m with
  | zero => exact run_of_stopped h
  | succ n ih =>
    rw [steps] at h ⊢
    cases hs : m.step ctx with
    | some m' =>
      rw [hs] at h
      rw [run_of_step hs]
      exact ih h
    | none => exact run_of_stopped hs

/-- A step changes neither the lookups that are left of a check nor its last state. -/
theorem finish_of_step {ctx : Context} {service : Dns.Service} {m m' : Machine}
    (h : m.step ctx = some m') : m.finish ctx service = m'.finish ctx service := by
  rw [finish, finish, run_of_step h]

/-- A check that is put aside makes its lookup and goes on with the answer. -/
theorem finish_of_await {ctx : Context} {service : Dns.Service} {m : Machine}
    {request : Dns.Request} {listener : Listener} (h : m.signal = .await request listener) :
    m.finish ctx service =
      (request :: ((m.resume ctx (service request)).finish ctx service).1,
        ((m.resume ctx (service request)).finish ctx service).2) := by
  have stopped : m.run ctx = m := run_of_stopped (by simp [step, h])
  rw [finish]
  split
  · rename_i request' listener' h'
    rw [stopped, h] at h'
    cases h'
    rw [stopped]
  · rename_i h'
    rw [stopped] at h'
    exact absurd h (h' request listener)

/-- A check without frames has ended. -/
theorem finish_of_end (ctx : Context) (service : Dns.Service) (s : State) :
    (⟨.proceed, s, []⟩ : Machine).finish ctx service = ([], s) := by
  have stopped : (⟨.proceed, s, []⟩ : Machine).run ctx = ⟨.proceed, s, []⟩ := run_of_stopped rfl
  rw [finish]
  split
  · rename_i h'
    rw [stopped] at h'
    cases h'
  · rw [stopped]

end SenderPolicy.Evaluation.Machine
