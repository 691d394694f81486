import SenderPolicy.Proofs.Course.Verdict

/-!
# The exchanges of a check

A check is known by its exchanges: what it asked, what was to hear the answer, and what the answer
was. Steps are determined by the machine, so the answers alone decide how a check goes on; they may
come from anywhere, and a second lookup of the same name may be answered in another way than the
first.

## Main definitions

* `Exchange`: a lookup with its answer
* `Course`: a machine is reached from another, with the exchanges in between
* `Completes`: a machine comes to its end, with the exchanges on the way

## Main results

* `Course.invariant`: what steps and answers keep holds all the way
* `Completes.of_step_iff`, `Completes.of_await_iff`, `Completes.of_course_iff`: a check, step by
  step
* `Completes.unique`: the answers decide how a check ends
* `Completes.of_raise`: a cause ends a check without another exchange
* `Course.finish_eq`, `completes_finish`: a check that a service answers
-/

namespace SenderPolicy.Evaluation

/-- A lookup of a check: what was asked, what was to hear the answer, and what the answer was. -/
structure Exchange where
  request : Dns.Request
  listener : Listener
  answer : Dns.Answer

/-- A machine is reached from another, with the exchanges in between. -/
inductive Course (ctx : Context) : Machine → List Exchange → Machine → Prop
  | refl (m : Machine) : Course ctx m [] m
  | step {m m₁ m₂ : Machine} {exchanges : List Exchange} (hs : m.step ctx = some m₁)
      (rest : Course ctx m₁ exchanges m₂) : Course ctx m exchanges m₂
  | answer {m m₂ : Machine} {request : Dns.Request} {listener : Listener}
      {exchanges : List Exchange} (hs : m.signal = .await request listener) (answer : Dns.Answer)
      (rest : Course ctx (m.resume ctx answer) exchanges m₂) :
      Course ctx m (⟨request, listener, answer⟩ :: exchanges) m₂

/-- A machine comes to its end with a state, with the exchanges on the way. -/
def Completes (ctx : Context) (m : Machine) (exchanges : List Exchange) (last : State) : Prop :=
  Course ctx m exchanges ⟨.proceed, last, []⟩

variable {ctx : Context} {m m₁ m₂ : Machine} {exchanges exchanges' : List Exchange}

/-! ## Courses -/

namespace Course

theorem trans (h : Course ctx m exchanges m₁) (h' : Course ctx m₁ exchanges' m₂) :
    Course ctx m (exchanges ++ exchanges') m₂ := by
  induction h with
  | refl => exact h'
  | step hs _ ih => exact .step hs (ih h')
  | answer hs a _ ih => exact .answer hs a (ih h')

theorem snoc (h : Course ctx m exchanges m₁) (hs : m₁.step ctx = some m₂) :
    Course ctx m exchanges m₂ := by
  simpa using h.trans (.step hs (.refl m₂))

theorem snoc_answer (h : Course ctx m exchanges m₁) {request : Dns.Request} {listener : Listener}
    (hs : m₁.signal = .await request listener) (answer : Dns.Answer) :
    Course ctx m (exchanges ++ [⟨request, listener, answer⟩]) (m₁.resume ctx answer) :=
  h.trans (.answer hs answer (.refl _))

/-- What every step and every answer keeps holds all the way. -/
theorem invariant {P : Machine → Prop} (h : Course ctx m exchanges m₁)
    (step : ∀ m m', P m → m.step ctx = some m' → P m')
    (answer : ∀ m request listener, P m → m.signal = .await request listener →
      ∀ a, P (m.resume ctx a)) (hm : P m) : P m₁ := by
  induction h with
  | refl => exact hm
  | step hs _ ih => exact ih (step _ _ hm hs)
  | answer hs a _ ih => exact ih (answer _ _ _ hm hs a)

theorem orderly (h : Course ctx m exchanges m₁) (hm : Orderly m) : Orderly m₁ :=
  h.invariant (fun _ _ hm hs => hm.step hs) (fun _ _ _ hm hs _ => hm.resume hs) hm

/-- Exchanges are the lookups that are counted. -/
theorem reaches {start : Machine} {terms lookups : Nat} (h : Course ctx m exchanges m₁)
    (before : Reaches ctx start terms lookups m) :
    ∃ terms, Reaches ctx start terms (lookups + exchanges.length) m₁ := by
  induction h generalizing terms lookups with
  | refl => exact ⟨terms, before⟩
  | step hs _ ih => exact ih (before.step hs)
  | answer hs a _ ih =>
    obtain ⟨terms, h⟩ := ih (before.answer hs a)
    rw [Nat.add_assoc, Nat.add_comm 1] at h
    exact ⟨terms, h⟩

/-- The identities are those that the check was begun with. -/
theorem identity (h : Course ctx m exchanges m₁) : m₁.state.identity = m.state.identity := by
  refine h.invariant (P := fun m' => m'.state.identity = m.state.identity) ?_ ?_ rfl
  · intro m' m'' hm hs
    rw [← hm]
    obtain ⟨signal, s, frames⟩ := m'
    cases signal with
    | await request listener => simp [Machine.step] at hs
    | proceed =>
      cases frames with
      | nil => cases hs
      | cons f below =>
        cases hs
        exact (check_turn ctx s f).identity
    | raise cause =>
      cases frames with
      | nil =>
        cases hs
        exact s.conclude_identity _
      | cons f below =>
        cases hf : f.isConclusion with
        | true =>
          cases f with
          | conclusion =>
            cases hs
            exact s.conclude_identity _
          | _ => cases hf
        | false =>
          obtain ⟨t, cause', handed, same, -⟩ := @step_raise ctx cause s f below hf
          rw [handed] at hs
          cases hs
          exact same
  · intro m' request listener hm hs answer
    rw [← hm]
    obtain ⟨signal, s, frames⟩ := m'
    subst hs
    exact (resume_heard ctx answer s listener).identity

end Course

/-! ## Checks that come to their end -/

namespace Completes

variable {last last' : State}

/-- A step changes neither the exchanges of a check nor its end. -/
theorem of_step_iff (hs : m.step ctx = some m₁) :
    Completes ctx m exchanges last ↔ Completes ctx m₁ exchanges last := by
  constructor
  · intro h
    cases h with
    | refl => cases hs
    | step hs' rest =>
      rw [hs] at hs'
      cases hs'
      exact rest
    | answer hw => simp [Machine.step, hw] at hs
  · exact .step hs

/-- A frame that leaves nothing is gone behind its turn. -/
theorem of_done_iff {s t : State} {f : Frame} {below : List Frame} (hd : f.check ctx s = .done t) :
    Completes ctx ⟨.proceed, s, f :: below⟩ exchanges last ↔
      Completes ctx ⟨.proceed, t, below⟩ exchanges last :=
  of_step_iff (congrArg (fun r => some (Reaction.above r below)) hd)

/-- A check that awaits an answer goes on with it. -/
theorem of_await_iff {request : Dns.Request} {listener : Listener}
    (hs : m.signal = .await request listener) :
    Completes ctx m exchanges last ↔ ∃ answer rest,
      exchanges = ⟨request, listener, answer⟩ :: rest ∧
        Completes ctx (m.resume ctx answer) rest last := by
  constructor
  · intro h
    cases h with
    | refl => cases hs
    | step hs' => simp [Machine.step, hs] at hs'
    | answer hw a rest =>
      rw [hs] at hw
      cases hw
      exact ⟨a, _, rfl, rest⟩
  · rintro ⟨a, rest, rfl, h⟩
    exact .answer hs a h

/-- A check without frames has ended. -/
theorem of_end_iff {s : State} :
    Completes ctx ⟨.proceed, s, []⟩ exchanges last ↔ exchanges = [] ∧ last = s := by
  constructor
  · intro h
    cases h with
    | refl => exact ⟨rfl, rfl⟩
    | step hs => cases hs
    | answer hw => cases hw
  · rintro ⟨rfl, rfl⟩
    exact .refl _

/-- A course comes before the rest of a check. -/
theorem of_course_iff (h : Course ctx m exchanges m₁) :
    Completes ctx m (exchanges ++ exchanges') last ↔ Completes ctx m₁ exchanges' last := by
  induction h with
  | refl => exact Iff.rfl
  | step hs _ ih => exact (of_step_iff hs).trans ih
  | answer hs a _ ih =>
    rw [of_await_iff hs]
    constructor
    · rintro ⟨_, _, ⟨⟩, rest⟩
      exact ih.mp rest
    · intro rest
      exact ⟨a, _, rfl, ih.mpr rest⟩

/-- The answers decide how a check ends. -/
theorem unique (h : Completes ctx m exchanges last) (h' : Completes ctx m exchanges last') :
    last' = last := by
  unfold Completes at h
  generalize he : (⟨.proceed, last, []⟩ : Machine) = finish at h
  induction h with
  | refl =>
    subst he
    exact (of_end_iff.mp h').2
  | step hs _ ih => exact ih ((of_step_iff hs).mp h') he
  | answer hs a _ ih =>
    obtain ⟨a', rest', heq, h'⟩ := (of_await_iff hs).mp h'
    cases heq
    exact ih h' he

/-- A run comes before the rest of a check. -/
theorem of_run_iff : Completes ctx (m.run ctx) exchanges last ↔ Completes ctx m exchanges last := by
  fun_induction Machine.run ctx m with
  | case1 m hs => exact Iff.rfl
  | case2 m m' hs ih => exact ih.trans (of_step_iff hs).symm

/-- A cause ends a check without another exchange. -/
theorem of_raise {cause : Error} {s : State} {frames : List Frame}
    (h : Completes ctx ⟨.raise cause, s, frames⟩ exchanges last)
    (ho : Orderly ⟨.raise cause, s, frames⟩) :
    exchanges = [] ∧ last.result = some (resultUpon frames cause) := by
  obtain ⟨final, hr, hl⟩ := @Orderly.run_raise ctx cause s frames ho
  rw [← of_run_iff, hr, of_end_iff] at h
  obtain ⟨rfl, rfl⟩ := h
  exact ⟨rfl, hl⟩

end Completes

/-! ## Checks that a service answers -/

section Services

variable {service : Dns.Service} {last : State}

/-- The lookups on the way to a point come before those behind it. -/
theorem Course.finish_eq (h : Course ctx m exchanges m₁)
    (answered : ∀ e ∈ exchanges, e.answer = service e.request) :
    m.finish ctx service =
      (exchanges.map Exchange.request ++ (m₁.finish ctx service).1,
        (m₁.finish ctx service).2) := by
  induction h with
  | refl => rfl
  | step hs _ ih => rw [Machine.finish_of_step hs, ih answered]
  | @answer _ _ request _ _ hs a _ ih =>
    obtain ⟨given, later⟩ := List.forall_mem_cons.mp answered
    obtain rfl : a = service request := given
    rw [Machine.finish_of_await hs, ih later, List.map_cons, List.cons_append]

/-- A check that has come to its end with the answers of a service. -/
theorem Completes.finish_eq (h : Completes ctx m exchanges last)
    (answered : ∀ e ∈ exchanges, e.answer = service e.request) :
    m.finish ctx service = (exchanges.map Exchange.request, last) := by
  rw [Course.finish_eq h answered, Machine.finish_of_end, List.append_nil]

end Services

/-- A check that a service answers comes to its end, and its exchanges are what the service was
asked and has answered. -/
theorem completes_finish (ctx : Context) (service : Dns.Service) (m : Machine) :
    ∃ exchanges, Completes ctx m exchanges (m.finish ctx service).2 ∧
      exchanges.map Exchange.request = (m.finish ctx service).1 ∧
      ∀ e ∈ exchanges, e.answer = service e.request := by
  -- on the points that are still to come, with the answers of the service
  induction m using (continues_wellFounded ctx).induction with
  | _ m ih =>
    cases hs : m.step ctx with
    | some m' =>
      obtain ⟨exchanges, h, hr⟩ := ih m' (Or.inl hs)
      rw [Machine.finish_of_step hs]
      exact ⟨exchanges, .step hs h, hr⟩
    | none =>
      rcases step_eq_none hs with ⟨request, listener, hw⟩ | ⟨hp, hf⟩
      · obtain ⟨exchanges, h, hr, ha⟩ :=
          ih (m.resume ctx (service request)) (Or.inr ⟨request, listener, _, hw, rfl⟩)
        rw [Machine.finish_of_await hw]
        exact ⟨_, .answer hw _ h, by simp [hr], List.forall_mem_cons.mpr ⟨rfl, ha⟩⟩
      · obtain ⟨signal, s, frames⟩ := m
        cases hp
        cases hf
        rw [Machine.finish_of_end]
        exact ⟨[], .refl _, rfl, nofun⟩

end SenderPolicy.Evaluation
