import SenderPolicy.Proofs.Course.Exchanges

/-!
# Frames that are cleared away

What a frame does depends on the state and on nothing that lies below it. The frames above a given
part of the stack are therefore cleared away in the same manner whatever that part is: with the same
exchanges, in the same state, and with the same cause if there is one. A piece of a check can be
looked at by itself, and can be compared with what would stand in its place.

## Main definitions

* `Clears`: the frames above given ones are cleared away, with the exchanges on the way

## Main results

* `Clears.of_step_iff`, `Clears.of_await_iff`, `Clears.of_cleared_iff`: step by step
* `Clears.append`, `Clears.split`: frames are cleared away from the top down
* `Clears.upon`: what lies below does not matter
* `exists_clears`: a service clears away any frames
-/

namespace SenderPolicy.Evaluation

/-- The frames above the given ones are cleared away: the last of them is gone for the first time,
and no answer is awaited. -/
inductive Clears (ctx : Context) (below : List Frame) : Machine → List Exchange → Machine → Prop
  | cleared {m : Machine} (hf : m.frames = below) (idle : m.awaits = false) :
      Clears ctx below m [] m
  | step {m m₁ m₂ : Machine} {f : Frame} (own : List Frame) {exchanges : List Exchange}
      (hf : m.frames = f :: (own ++ below)) (hs : m.step ctx = some m₁)
      (rest : Clears ctx below m₁ exchanges m₂) : Clears ctx below m exchanges m₂
  | answer {m m₂ : Machine} {request : Dns.Request} {listener : Listener}
      {exchanges : List Exchange} (hs : m.signal = .await request listener) (answer : Dns.Answer)
      (rest : Clears ctx below (m.resume ctx answer) exchanges m₂) :
      Clears ctx below m (⟨request, listener, answer⟩ :: exchanges) m₂

/-! ## Steps above given frames -/

section Steps

variable {ctx : Context} {m m' : Machine} {f : Frame} {own below : List Frame}

/-- A step does the same whatever lies below its frame. -/
theorem step_above (own : List Frame) (hf : m.frames = f :: (own ++ below))
    (hs : m.step ctx = some m') : ∃ own', m'.frames = own' ++ below ∧ ∀ base,
      Machine.step ctx ⟨m.signal, m.state, f :: (own ++ base)⟩ =
        some ⟨m'.signal, m'.state, own' ++ base⟩ := by
  obtain ⟨q, s, frames⟩ := m
  subst hf
  cases q with
  | await request listener => cases hs
  | proceed =>
    cases hs
    exact ⟨(f.check ctx s).frames ++ own, by simp [Reaction.above],
      fun base => by simp [Machine.step, Reaction.above]⟩
  | raise cause =>
    -- a cause takes the frame away, handled or not
    refine ⟨own, ?_⟩
    cases f <;> cases hs <;> exact ⟨rfl, fun _ => rfl⟩

/-- An answer is taken in the same manner whatever lies below. -/
theorem resume_above {request : Dns.Request} {listener : Listener} (answer : Dns.Answer)
    (hf : m.frames = own ++ below) (hs : m.signal = .await request listener) :
    ∃ own', (m.resume ctx answer).frames = own' ++ below ∧ ∀ base,
      Machine.resume ctx answer ⟨m.signal, m.state, own ++ base⟩ =
        ⟨(m.resume ctx answer).signal, (m.resume ctx answer).state, own' ++ base⟩ := by
  obtain ⟨q, s, frames⟩ := m
  subst hf hs
  exact ⟨(listener.resume ctx answer s).frames ++ own, by simp [Machine.resume, Reaction.above],
    fun base => by simp [Machine.resume, Reaction.above]⟩

theorem awaits_of_await {request : Dns.Request} {listener : Listener}
    (hs : m.signal = .await request listener) : m.awaits = true := by
  simp only [Machine.awaits, hs]

/-- A machine that takes a step awaits nothing. -/
theorem awaits_of_step (hs : m.step ctx = some m') : m.awaits = false := by
  cases ha : m.awaits with
  | false => rfl
  | true =>
    unfold Machine.awaits at ha
    split at ha
    · simp [Machine.step, *] at hs
    · cases ha

end Steps

namespace Clears

variable {ctx : Context} {q : Signal} {s t : State} {f : Frame} {own fs below : List Frame}
  {m m₁ m₂ mid : Machine} {exchanges exchanges' : List Exchange}

/-! ## Step by step -/

/-- What is left lies below, and no answer is awaited. -/
theorem ends (h : Clears ctx below m exchanges m₂) : m₂.frames = below ∧ m₂.awaits = false := by
  induction h with
  | cleared hf idle => exact ⟨hf, idle⟩
  | step _ _ _ _ ih => exact ih
  | answer _ _ _ ih => exact ih

/-- A step changes nothing about how the frames are cleared away. -/
theorem of_step_iff (hf : m.frames = f :: (own ++ below)) (hs : m.step ctx = some m₁) :
    Clears ctx below m exchanges m₂ ↔ Clears ctx below m₁ exchanges m₂ := by
  constructor
  · intro h
    cases h with
    | cleared hn =>
      rw [hn, ← List.cons_append, List.self_eq_append_left] at hf
      cases hf
    | step _ _ hs' rest =>
      rw [hs] at hs'
      cases hs'
      exact rest
    | answer hw => cases (awaits_of_step hs).symm.trans (awaits_of_await hw)
  · exact .step own hf hs

/-- A frame that leaves nothing is gone behind its turn. -/
theorem of_done_iff (hd : f.check ctx s = .done t) :
    Clears ctx below ⟨.proceed, s, f :: (own ++ below)⟩ exchanges m ↔
      Clears ctx below ⟨.proceed, t, own ++ below⟩ exchanges m :=
  of_step_iff rfl (congrArg (fun r => some (Reaction.above r (own ++ below))) hd)

/-- A machine that awaits an answer goes on with it. -/
theorem of_await_iff {request : Dns.Request} {listener : Listener} {answer : Dns.Answer}
    (hs : m.signal = .await request listener) :
    Clears ctx below m (⟨request, listener, answer⟩ :: exchanges) m₂ ↔
      Clears ctx below (m.resume ctx answer) exchanges m₂ := by
  constructor
  · intro h
    cases h with
    | step _ _ hs' => cases (awaits_of_step hs').symm.trans (awaits_of_await hs)
    | answer _ _ rest => exact rest
  · exact .answer hs answer

/-- Frames that are cleared away leave those below. -/
theorem of_cleared_iff (hf : m.frames = below) (idle : m.awaits = false) :
    Clears ctx below m exchanges m₂ ↔ exchanges = [] ∧ m₂ = m := by
  constructor
  · intro h
    cases h with
    | cleared => exact ⟨rfl, rfl⟩
    | step _ hf' =>
      rw [hf, ← List.cons_append, List.self_eq_append_left] at hf'
      cases hf'
    | answer hs => cases idle.symm.trans (awaits_of_await hs)
  · rintro ⟨rfl, rfl⟩
    exact .cleared hf idle

/-- Clearing frames away is a course of the machine. -/
theorem course (h : Clears ctx below m exchanges m₂) : Course ctx m exchanges m₂ := by
  induction h with
  | cleared => exact .refl _
  | step _ _ hs _ ih => exact .step hs ih
  | answer hs a _ ih => exact .answer hs a ih

/-! ## From the top down -/

/-- Frames are cleared away in front of those that follow them. -/
theorem append (h : Clears ctx (fs ++ below) m exchanges mid)
    (h' : Clears ctx below mid exchanges' m₂) :
    Clears ctx below m (exchanges ++ exchanges') m₂ := by
  induction h with
  | cleared => exact h'
  | step own hf hs _ ih =>
    rw [← List.append_assoc] at hf
    exact .step _ hf hs (ih h')
  | answer hs a _ ih => exact .answer hs a (ih h')

/-- Frames are cleared away from the top down. -/
theorem split (h : Clears ctx below m exchanges m₂) (own fs : List Frame)
    (hm : m.frames = own ++ (fs ++ below)) :
    ∃ before behind mid, exchanges = before ++ behind ∧ Clears ctx (fs ++ below) m before mid ∧
      Clears ctx below mid behind m₂ := by
  -- on the points of the course, up to the first that has no own frame left and awaits nothing
  induction h generalizing own with
  | @cleared m hf idle =>
    rw [hf, ← List.append_assoc, List.self_eq_append_left, List.append_eq_nil_iff] at hm
    obtain ⟨rfl, rfl⟩ := hm
    exact ⟨[], [], m, rfl, .cleared hf idle, .cleared hf idle⟩
  | @step m m₁ m₂ f fs' exchanges hf hs rest ih =>
    cases own with
    | nil => exact ⟨[], exchanges, m, rfl, .cleared hm (awaits_of_step hs), .step _ hf hs rest⟩
    | cons g own =>
      obtain ⟨own', hm', -⟩ := step_above own hm hs
      obtain ⟨before, behind, mid, rfl, hb, ha⟩ := ih own' hm'
      exact ⟨before, behind, mid, rfl, .step own hm hs hb, ha⟩
  | answer hs a _ ih =>
    obtain ⟨own', hm', -⟩ := resume_above a hm hs
    obtain ⟨before, behind, mid, rfl, hb, ha⟩ := ih own' hm'
    exact ⟨_ :: before, behind, mid, rfl, .answer hs a hb, ha⟩

/-- What lies below does not matter. -/
theorem upon (h : Clears ctx below m exchanges m₂) (own : List Frame) (hm : m.frames = own ++ below)
    (base : List Frame) :
    Clears ctx base ⟨m.signal, m.state, own ++ base⟩ exchanges ⟨m₂.signal, m₂.state, base⟩ := by
  induction h generalizing own with
  | cleared hf idle =>
    rw [hf, List.self_eq_append_left] at hm
    subst hm
    exact .cleared rfl idle
  | @step m m₁ m₂ f fs exchanges hf hs _ ih =>
    rw [hf, ← List.cons_append, List.append_cancel_right_eq] at hm
    subst hm
    obtain ⟨own', hm', same⟩ := step_above fs hf hs
    exact .step fs rfl (same base) (ih own' hm')
  | @answer m m₂ request listener exchanges hs a _ ih =>
    obtain ⟨own', hm', same⟩ := resume_above a hm hs
    have resumed := ih own' hm'
    rw [← same base] at resumed
    exact .answer (m := ⟨m.signal, m.state, own ++ base⟩) hs a resumed

end Clears

/-! ## Services -/

/-- A service clears away any frames. -/
theorem exists_clears (ctx : Context) (service : Dns.Service) {below : List Frame} (m : Machine)
    (hm : ∃ own, m.frames = own ++ below) :
    ∃ exchanges m', Clears ctx below m exchanges m' ∧
      ∀ e ∈ exchanges, e.answer = service e.request := by
  -- on the points that are still to come, with the answers of the service
  induction m using (continues_wellFounded ctx).induction with
  | _ m ih =>
    obtain ⟨own, hm⟩ := hm
    cases ha : m.awaits with
    | true =>
      obtain ⟨request, listener, hs⟩ : ∃ request listener, m.signal = .await request listener := by
        unfold Machine.awaits at ha
        split at ha
        · exact ⟨_, _, ‹_›⟩
        · cases ha
      obtain ⟨own', hm', -⟩ := @resume_above ctx m own below _ _ (service request) hm hs
      obtain ⟨exchanges, m', h, he⟩ := ih _ (Or.inr ⟨_, _, _, hs, rfl⟩) ⟨own', hm'⟩
      exact ⟨_, m', .answer hs _ h, List.forall_mem_cons.mpr ⟨rfl, he⟩⟩
    | false =>
      cases own with
      | nil => exact ⟨[], m, .cleared hm ha, List.forall_mem_nil _⟩
      | cons f own =>
        cases hs : m.step ctx with
        | some m₁ =>
          obtain ⟨own', hm', -⟩ := step_above own hm hs
          obtain ⟨exchanges, m', h, he⟩ := ih m₁ (Or.inl hs) ⟨own', hm'⟩
          exact ⟨exchanges, m', .step own hm hs h, he⟩
        | none =>
          rcases step_eq_none hs with ⟨_, _, hw⟩ | ⟨-, hn⟩
          · cases ha.symm.trans (awaits_of_await hw)
          · cases hm.symm.trans hn

end SenderPolicy.Evaluation
