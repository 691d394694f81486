import SenderPolicy.Check
import SenderPolicy.Proofs.Course.Lookups
import SenderPolicy.Proofs.Course.Reaches

/-!
# Bounds of a check

A check counts the terms with lookups that it enters, and the one too many ends it. The number of
its lookups is bounded by the number of exchanges or names that one term considers.

## Main definitions

* `Machine.IsRefused`: the check ends, or has ended, with an error of the policy
* `Counted`: how the terms entered so far are counted

## Main results

* `Reaches.counted`: the count at every point of a check
* `Reaches.lookups_le`: the lookups at every point of a check
* `check_bounded`: a check ends, counts its terms, and makes a bounded number of lookups
-/

namespace SenderPolicy.Evaluation

/-! ## Terms -/

/-- The check ends with an error of the policy: the error is on its way down, or is the result. -/
def Machine.IsRefused (m : Machine) : Prop :=
  (∃ cause, m.signal = .raise cause ∧ cause.result = .permError) ∨
    m.signal = .proceed ∧ m.frames = [] ∧ m.state.result = some .permError

/-- The terms entered so far are counted one by one; the one too many is not counted, and ends the
check. -/
def Counted (terms : Nat) (m : Machine) : Prop :=
  terms ≤ maxTerms ∧ m.state.depth = terms ∨
    terms = maxTerms + 1 ∧ m.state.depth = maxTerms ∧ m.IsRefused

theorem looksUp_iff (m : Mechanism) : looksUp m = (purposeOf m).isSome := by
  cases m <;> rfl

theorem Expanded.depth {s : State} {purpose : Purpose} {r : Reaction}
    (he : Expanded s purpose r) : r.state.depth = s.depth := by
  cases he <;> rfl

/-- What a frame in its turn counts: the term that it enters, unless that is one too many. -/
theorem Turn.counts {ctx : Context} {s : State} {f : Frame} {r : Reaction} (ht : Turn ctx s f r) :
    if f.enters s then
      s.depth < maxTerms ∧ r.state.depth = s.depth + 1 ∨
        maxTerms ≤ s.depth ∧ r.state.depth = s.depth ∧ r.signal = .raise (.tooManyTerms maxTerms)
    else r.state.depth = s.depth := by
  -- only directives and redirections count, and only those that are not passed over
  cases ht with
  | concluded => exact State.conclude_depth _ _
  | passed d hv => simp [Frame.enters, Reaction.done, hv]
  | settled d isMatch hv plain =>
    simp [Frame.enters, looksUp_iff, plain, Reaction.onto, Reaction.done]
  | exhausted d purpose hv looks full =>
    simp [Frame.enters, looksUp_iff, hv, looks, Reaction.onto, Reaction.fail, full]
    omega
  | entered d purpose r hv looks room expanded =>
    simp [Frame.enters, looksUp_iff, hv, looks, Reaction.onto, room, expanded.depth, State.entered]
  | committed qualifier =>
    rcases s.commit_eq qualifier with hc | hc <;> rw [hc] <;> rfl
  | decided domain hv => simp [Frame.enters, Reaction.done, hv]
  | exhaustedRedirect domain hv full =>
    simp [Frame.enters, hv, Reaction.fail, full]
    omega
  | enteredRedirect domain r hv room expanded =>
    simp [Frame.enters, hv, room, expanded.depth, State.entered]
  | explains domain r hv heard expanded => exact expanded.depth
  | explainsByDefault template r hv heard expanded => exact expanded.depth
  | expanded template purpose r expanded => exact expanded.depth
  | _ => rfl

theorem Heard.depth {ctx : Context} {s : State} {l : Listener} {r : Reaction}
    (hh : Heard ctx s l r) : r.state.depth = s.depth := by
  cases hh with
  | explains r expanded => exact expanded.depth
  | _ => rfl

/-- A cause on its way down keeps the terms counted, and an error of the policy stays one. -/
theorem Orderly.catch_counts {ctx : Context} {cause : Error} {s : State} {frames : List Frame}
    {m' : Machine} (h : Orderly ⟨.raise cause, s, frames⟩)
    (hs : Machine.step ctx ⟨.raise cause, s, frames⟩ = some m') :
    m'.state.depth = s.depth ∧ (cause.result = .permError → m'.IsRefused) := by
  cases frames with
  | nil => cases (h.ended rfl).1
  | cons f below =>
    have running : s.result = none := h.running (List.cons_ne_nil _ _)
    cases f with
    | conclusion =>
      have hb : below = [] := h.stacked.1
      subst hb
      simp only [Machine.step, Frame.catch, State.conclude, running, Option.some.injEq] at hs
      subst hs
      exact ⟨rfl, fun hc => Or.inr ⟨rfl, rfl, congrArg some hc⟩⟩
    | restoration | arrival =>
      -- only a missing policy is replaced by another cause
      simp only [Machine.step, Frame.catch, Option.some.injEq] at hs
      subst hs
      refine ⟨rfl, fun hc => Or.inl ⟨_, rfl, ?_⟩⟩
      simp [escalate, hc]
    | _ =>
      simp only [Machine.step, Frame.catch, Option.some.injEq] at hs
      subst hs
      exact ⟨rfl, fun hc => Or.inl ⟨_, rfl, hc⟩⟩

/-- A step counts the term that it enters. -/
theorem Counted.step {ctx : Context} {terms : Nat} {m m' : Machine} (hc : Counted terms m)
    (h : Orderly m) (hs : m.step ctx = some m') : Counted (terms + m.enters.toNat) m' := by
  obtain ⟨signal, s, frames⟩ := m
  cases signal with
  | await request listener => simp [Machine.step] at hs
  | raise cause =>
    -- the cause may be the one that refused the check, which then stays refused
    obtain ⟨hd, hr⟩ := h.catch_counts hs
    have he : Machine.enters ⟨.raise cause, s, frames⟩ = false := rfl
    rw [he, Bool.toNat_false, Nat.add_zero]
    rcases hc with ⟨hn, hm⟩ | ⟨hn, hm, ⟨cause', ⟨⟩, hp⟩ | ⟨⟨⟩, -⟩⟩
    · exact Or.inl ⟨hn, hd.trans hm⟩
    · exact Or.inr ⟨hn, hd.trans hm, hr hp⟩
  | proceed =>
    cases frames with
    | nil => simp [Machine.step] at hs
    | cons f below =>
      simp only [Machine.step, Option.some.injEq] at hs
      subst hs
      have ht := (check_turn ctx s f).counts
      have he : Machine.enters ⟨.proceed, s, f :: below⟩ = f.enters s := rfl
      rw [he]
      -- a check that goes on has not been refused
      rcases hc with ⟨hn, hm⟩ | ⟨-, -, ⟨cause', ⟨⟩, -⟩ | ⟨-, ⟨⟩, -⟩⟩
      have hm : s.depth = terms := hm
      cases hf : f.enters s with
      | false =>
        rw [hf] at ht
        exact Or.inl ⟨hn, ht.trans hm⟩
      | true =>
        rw [hf, if_pos rfl] at ht
        rcases ht with ⟨room, hd⟩ | ⟨full, hd, hr⟩
        · exact Or.inl ⟨hm ▸ room, hd.trans (congrArg Nat.succ hm)⟩
        · have hn : terms = maxTerms := Nat.le_antisymm hn (hm ▸ full)
          exact Or.inr ⟨congrArg Nat.succ hn, hd.trans (hm.trans hn), Or.inl ⟨_, hr, rfl⟩⟩

/-- An answer enters no term. -/
theorem Counted.resume {ctx : Context} {terms : Nat} {m : Machine} {request : Dns.Request}
    {listener : Listener} {answer : Dns.Answer} (hc : Counted terms m)
    (hs : m.signal = .await request listener) : Counted terms (m.resume ctx answer) := by
  obtain ⟨signal, s, frames⟩ := m
  subst hs
  -- a check that awaits an answer has not been refused
  rcases hc with ⟨hn, hm⟩ | ⟨-, -, ⟨cause', ⟨⟩, -⟩ | ⟨⟨⟩, -⟩⟩
  exact Or.inl ⟨hn, (resume_heard ctx answer s listener).depth.trans hm⟩

/-! ## Points of a check -/

section Points

variable {ctx : Context} {start m : Machine} {terms lookups : Nat}

/-- The terms entered so far are counted at every point of a check. -/
theorem Reaches.counted (h : Reaches ctx start terms lookups m) (ho : Orderly start)
    (hc : Counted 0 start) : Counted terms m := by
  induction h with
  | refl => exact hc
  | step before hs ih => exact ih.step (before.orderly ho) hs
  | answer _ hs _ ih => exact ih.resume hs

/-- The lookups so far, and those that are still to come, are bounded from the start. -/
theorem Reaches.lookups_le (h : Reaches ctx start terms lookups m) (ho : Orderly start) :
    lookups + m.lookupsAhead ctx ≤ start.lookupsAhead ctx := by
  -- the sum of both falls or stays: a lookup that is made is no longer to come
  induction h with
  | refl => exact Nat.le_of_eq (Nat.zero_add _)
  | step before hs ih =>
    have := lookupsAhead_step (before.orderly ho) hs
    omega
  | answer _ hs a ih =>
    have := @lookupsAhead_resume ctx a _ _ _ hs
    omega

end Points

/-- What is to come of a whole check: two lookups for the record of the sender's domain, two that
validate the client's name, one for an explanation, and those of the terms. -/
theorem lookupsAhead_begin (ctx : Context) (identity : Identity) (receivingDomain : Option String) :
    (machineOf identity receivingDomain).lookupsAhead ctx = 5 + maxTerms * termCost ctx := by
  have hm : (machineOf identity receivingDomain).lookupsAhead ctx =
    termCost ctx * maxTerms + 2 + 1 + 2 + 0 := rfl
  rw [hm, Nat.mul_comm]
  omega

/-- The lookups of a check so far, and the one that is awaited, are bounded. -/
theorem Reaches.check_lookups_le {ctx : Context} {identity : Identity}
    {receivingDomain : Option String} {terms lookups : Nat} {m : Machine}
    (h : Reaches ctx (machineOf identity receivingDomain) terms lookups m) :
    lookups + m.awaits.toNat ≤ 5 + maxTerms * max 2 (1 + ctx.recordLimit) := by
  have hl := h.lookups_le (.begin identity receivingDomain)
  rw [lookupsAhead_begin, termCost] at hl
  -- the lookup that is awaited is one of those still to come
  have hw : m.awaits.toNat ≤ m.lookupsAhead ctx := by
    cases hs : m.signal with
    | await request listener =>
      have := Machine.lookupsAhead_pos ctx hs
      simp only [Machine.awaits, hs]
      exact this
    | _ => simp [Machine.awaits, hs]
  exact Nat.le_trans (Nat.add_le_add_left hw _) hl

/-- Whatever it is answered, a check does not go on forever: from every point it runs to a lookup or
to a result. It counts the terms with lookups that it enters, is refused when it enters one too
many, and makes a bounded number of lookups. A check that a service answers comes to its end in this
way, and all of its lookups are within the bound. -/
theorem check_bounded (ctx : Context) (identity : Identity) (receivingDomain : Option String) :
    WellFounded (Machine.Continues ctx) ∧
    (∀ terms lookups m, Reaches ctx (machineOf identity receivingDomain) terms lookups m →
      (∃ terms', Reaches ctx m terms' 0 (m.run ctx)) ∧
      ((m.run ctx).awaits ∨
        (m.run ctx).signal = .proceed ∧ (m.run ctx).frames = [] ∧
          (m.run ctx).state.result ≠ none) ∧
      Counted terms m ∧
      lookups + m.awaits.toNat ≤ 5 + maxTerms * max 2 (1 + ctx.recordLimit)) ∧
    ∀ service : Dns.Service, ∃ terms last,
      Reaches ctx (machineOf identity receivingDomain) terms
        ((machineOf identity receivingDomain).finish ctx service).1.length last ∧
      last.signal = .proceed ∧ last.frames = [] ∧
      last.state = ((machineOf identity receivingDomain).finish ctx service).2 ∧
      last.state.result ≠ none ∧ Counted terms last ∧
      ((machineOf identity receivingDomain).finish ctx service).1.length ≤
        5 + maxTerms * max 2 (1 + ctx.recordLimit) := by
  have ho : Orderly (machineOf identity receivingDomain) := .begin identity receivingDomain
  have hc : Counted 0 (machineOf identity receivingDomain) := .inl ⟨Nat.zero_le _, rfl⟩
  refine ⟨continues_wellFounded ctx, fun terms lookups m h => ?_, fun service => ?_⟩
  · refine ⟨reaches_run ctx m, ?_, h.counted ho hc, h.check_lookups_le⟩
    obtain ⟨terms', hr⟩ := reaches_run ctx m
    rcases step_eq_none (Machine.step_run ctx m) with ⟨request, listener, hw⟩ | ⟨hp, hf⟩
    · exact Or.inl (by simp [Machine.awaits, hw])
    · exact Or.inr ⟨hp, hf, ((hr.orderly (h.orderly ho)).ended hf).2⟩
  · obtain ⟨terms, last, hr, hp, hf, hl⟩ :=
      reaches_finish ctx service (machineOf identity receivingDomain)
    exact ⟨terms, last, hr, hp, hf, hl, ((hr.orderly ho).ended hf).2, hr.counted ho hc,
      Nat.le_trans (Nat.le_add_right _ _) hr.check_lookups_le⟩

/-- A check whose second lookup brings a record with an address mechanism: one term is entered, and
the third lookup is awaited. -/
theorem check_bounded_of_record :
    ∃ m, Reaches ⟨.standard, [], 10⟩ (machineOf ⟨.v4 1#32, "a@b", "a", "b", "b", 0⟩ none) 1 2 m ∧
      m.awaits = true ∧ Counted 1 m ∧ 2 + m.awaits.toNat ≤ 5 + maxTerms * max 2 (1 + 10) := by
  -- the evaluation and its first two stages, up to the lookup of the record
  have looked := ((@Reaches.refl ⟨.standard, [], 10⟩
    (machineOf ⟨.v4 1#32, "a@b", "a", "b", "b", 0⟩ none)).step rfl).step rfl |>.step rfl
  -- the other stages, the terms, and the first directive
  have tried := (((((((looked.answer rfl (.ok [])).answer rfl (.ok ["v=spf1 a"])).step rfl).step
    rfl).step rfl).step rfl).step rfl).step rfl
  obtain ⟨-, -, hc, hl⟩ := (check_bounded _ _ _).2.1 _ _ _ tried
  exact ⟨_, tried, rfl, hc, hl⟩

end SenderPolicy.Evaluation
