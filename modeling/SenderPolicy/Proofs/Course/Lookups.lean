import SenderPolicy.Evaluation.Rank
import SenderPolicy.Proofs.Course.Stack

/-!
# Lookups that are still to come

How many lookups a check can still make is bounded by what its frames lead to, by the terms that it
can still enter, by the validation of the client's name, and by the one explanation that it can
still follow. No step raises the bound, and every answer lowers it.

## Main definitions

* `termCost`: the lookups that one more term leads to
* `Machine.lookupsAhead`: a bound on the lookups that are still to come

## Main results

* `lookupsAhead_step`: no step raises the bound
* `lookupsAhead_resume`: every answer lowers the bound
-/

namespace SenderPolicy.Evaluation

/-! ## The bound -/

/-- The lookups that a term leads to, apart from the terms of another domain: two for the record of
that domain, or one for a list and one for each of its members that is considered. -/
def termCost (ctx : Context) : Nat :=
  max 2 (1 + ctx.recordLimit)

/-- The lookups that a template leads to. -/
def Purpose.lookupsAhead (ctx : Context) : Purpose → Nat
  | addresses _ | existence | explanationDomain => 1
  | exchanges _ | pointer => 1 + ctx.recordLimit
  | inclusion | redirection => 2
  | explanation | defaultExplanation => 0

/-- The lookups that a frame leads to without entering a term. -/
def Frame.lookupsAhead (ctx : Context) : Frame → Nat
  | evaluation | stage (.published _) => 2
  | expansion _ purpose => purpose.lookupsAhead ctx
  | _ => 0

/-- The lookup that is awaited and those that follow from its answer, apart from the validation of
the client's name. -/
def Listener.lookupsAhead (ctx : Context) : Listener → Nat
  | policyRecords _ _ => 2
  | textRecords _ _ | addresses _ | existence | explanationTexts => 1
  | exchanges _ | pointers _ => 1 + ctx.recordLimit
  | exchangeAddresses rest _ | pointerAddresses rest => 1 + rest.length
  | clientNames | clientAddresses _ => 0

/-- The lookups of an answer that is awaited. -/
def Signal.lookupsAhead (ctx : Context) : Signal → Nat
  | await _ listener => listener.lookupsAhead ctx
  | _ => 0

/-- The lookups that validate the client's name. -/
def State.namesAhead (s : State) : Signal → Nat
  | .await _ .clientNames => 2
  | .await _ (.clientAddresses _) => 1
  | _ => if s.clientDomain = none then 2 else 0

/-- The lookups of published explanations: none while explanations are silenced for good, one as
long as a qualifier can be committed, and then those of the record whose terms lie on top. -/
def State.explanationsAhead (s : State) (frames : List Frame) : Nat :=
  if s.isMuted then (frames.any Frame.isAudible).toNat
  else if s.verdict = none then 1
  else explanationsOnTop frames

/-- The lookups that are still to come while nothing has failed. -/
def lookupsAhead (ctx : Context) (signal : Signal) (s : State) (frames : List Frame) : Nat :=
  termCost ctx * (maxTerms - s.depth) + s.namesAhead signal + s.explanationsAhead frames +
    total (Frame.lookupsAhead ctx) frames + signal.lookupsAhead ctx

/-- A bound on the lookups that are still to come: none behind a failure and at the end. -/
def Machine.lookupsAhead (ctx : Context) (m : Machine) : Nat :=
  match m.signal, m.frames with
  | .raise _, _ => 0
  | .proceed, [] => 0
  | signal, frames => Evaluation.lookupsAhead ctx signal m.state frames

theorem Machine.lookupsAhead_le (ctx : Context) (m : Machine) :
    m.lookupsAhead ctx ≤ Evaluation.lookupsAhead ctx m.signal m.state m.frames := by
  obtain ⟨signal, s, frames⟩ := m
  unfold Machine.lookupsAhead
  split
  · exact Nat.zero_le _
  · exact Nat.zero_le _
  · exact Nat.le_refl _

/-- While an answer is awaited, at least its lookup is still to come. -/
theorem Machine.lookupsAhead_pos (ctx : Context) {m : Machine} {request : Dns.Request}
    {listener : Listener} (h : m.signal = .await request listener) : 0 < m.lookupsAhead ctx := by
  obtain ⟨signal, s, frames⟩ := m
  subst h
  simp only [Machine.lookupsAhead, Evaluation.lookupsAhead]
  -- the lookups of the client's name count as names, all others as lookups of their listener
  cases listener <;> simp only [State.namesAhead, Signal.lookupsAhead, Listener.lookupsAhead] <;>
    omega

theorem lookupsAhead_le_termCost (ctx : Context) (purpose : Purpose) :
    purpose.lookupsAhead ctx ≤ termCost ctx := by
  unfold termCost
  cases purpose <;> simp only [Purpose.lookupsAhead] <;> omega

/-- The stages of a policy look one record up. -/
theorem total_stages (ctx : Context) (policy : Policy) :
    total (Frame.lookupsAhead ctx) (policy.stages.map .stage) = 2 := by
  have optional {α : Type} (stage : α → Policy.Stage) (o : Option α)
      (h : ∀ a, Frame.lookupsAhead ctx (.stage (stage a)) = 0) :
      total (Frame.lookupsAhead ctx) ((o.map stage).toList.map .stage) = 0 := by
    cases o with
    | none => rfl
    | some a => exact h a
  simp only [Policy.stages, List.map_append, total_append,
    optional .overrides _ fun _ => rfl, optional .bestGuess _ fun _ => rfl,
    optional .fallbacks _ fun _ => rfl, optional .trustedForwarder _ fun _ => rfl,
    optional .explanation _ fun _ => rfl]
  rfl

theorem total_framesOf_lookups (ctx : Context) (record : Record) :
    total (Frame.lookupsAhead ctx) (framesOf record) = 0 :=
  total_eq_zero (forall_mem_framesOf record (fun _ => rfl) (fun _ => rfl) fun _ => rfl)

/-! ## Explanations ahead -/

theorem State.explanationsAhead_cons {s : State} {f : Frame} (below : List Frame)
    (hb : f.isBoundary = false) (he : f.isExplanation = false) :
    s.explanationsAhead (f :: below) = s.explanationsAhead below := by
  have ha : f.isAudible = false := by
    cases f <;> simp_all [Frame.isAudible, Frame.isBoundary]
  simp [State.explanationsAhead, explanationsOnTop_cons, hb, he, ha]

theorem State.explanationsAhead_undecided {s : State} (frames : List Frame)
    (hv : s.verdict = none) :
    s.explanationsAhead frames = if s.isMuted then (frames.any Frame.isAudible).toNat else 1 := by
  simp [State.explanationsAhead, hv]

/-- A qualifier that is committed leaves the explanations of the record whose terms lie on top. -/
theorem State.explanationsAhead_decided {s : State} {frames : List Frame} (verdict : Qualifier)
    (h : Stacked frames) :
    State.explanationsAhead { s with verdict := some verdict } frames ≤
      s.explanationsAhead frames := by
  -- the one that could be followed under any record becomes the one of this record
  have := h.explanationsOnTop_le
  unfold State.explanationsAhead
  split
  · exact Nat.le_refl _
  · split
    · contradiction
    · split
      · assumption
      · exact Nat.le_refl _

theorem any_isAudible_append {fs : List Frame} (below : List Frame)
    (h : ∀ f ∈ fs, f.isRestoration = false) :
    (fs ++ below).any Frame.isAudible = below.any Frame.isAudible := by
  have : fs.any Frame.isAudible = false := by
    rw [List.any_eq_false]
    intro f hf
    have := h f hf
    cases f <;> simp_all [Frame.isAudible, Frame.isRestoration]
  rw [List.any_append, this, Bool.false_or]

/-- A frame that is gone leads to no more explanations than before, unless it ends the evaluation of
a domain. -/
theorem State.explanationsAhead_tail {s : State} {f : Frame} (below : List Frame)
    (hb : f.isBoundary = false) : s.explanationsAhead below ≤ s.explanationsAhead (f :: below) := by
  have ha : f.isAudible = false := by
    cases f <;> simp_all [Frame.isAudible, Frame.isBoundary]
  unfold State.explanationsAhead
  rw [explanationsOnTop_cons]
  simp only [List.any_cons, ha, Bool.false_or, hb, Bool.false_eq_true, if_false]
  split
  · exact Nat.le_refl _
  · split
    · exact Nat.le_refl _
    · exact Nat.le_add_left _ _

/-- Once explanations are silenced, only an inclusion can let them be heard again. -/
theorem State.explanationsAhead_muted {s : State} {frames : List Frame} (hm : s.isMuted) :
    s.explanationsAhead frames = (frames.any Frame.isAudible).toNat := by
  simp [State.explanationsAhead, hm]

/-- With as many terms entered, names, explanations and frames are compared one by one. -/
theorem lookupsAhead_le_add {ctx : Context} {s t : State} {p q : Signal} {fs gs : List Frame}
    {n : Nat} (hd : t.depth = s.depth)
    (hf : total (Frame.lookupsAhead ctx) fs + q.lookupsAhead ctx ≤
      total (Frame.lookupsAhead ctx) gs + p.lookupsAhead ctx + n)
    (hn : t.namesAhead q ≤ s.namesAhead p) (he : t.explanationsAhead fs ≤ s.explanationsAhead gs) :
    lookupsAhead ctx q t fs ≤ lookupsAhead ctx p s gs + n := by
  unfold lookupsAhead
  rw [hd]
  omega

/-! ## Templates, frames and listeners

A term that is entered pays for the lookups that it leads to; a published explanation is paid for by
the frame that follows it. -/

section Steps

variable {ctx : Context} {s t : State} {f : Frame} {below : List Frame} {r : Reaction}

/-- What a template leads to was counted with its purpose. -/
theorem Expanded.lookupsAhead_le {purpose : Purpose} (he : Expanded s purpose r)
    (hv : purpose.explains = false → s.verdict = none) :
    (r.above below).lookupsAhead ctx ≤
      lookupsAhead ctx .proceed s below + purpose.lookupsAhead ctx := by
  refine Nat.le_trans (Machine.lookupsAhead_le ctx _) ?_
  cases he with
  | @aside _ purpose' r template request unknown same =>
    -- the validation of the client's name was still to come, for the name is unknown
    have hp : purpose'.lookupsAhead ctx ≤ purpose.lookupsAhead ctx := by
      rcases same with rfl | ⟨-, -, rfl⟩
      · exact Nat.le_refl _
      · exact Nat.zero_le _
    refine lookupsAhead_le_add rfl ?_ ?_ (Nat.le_of_eq (State.explanationsAhead_cons below rfl rfl))
    · simp only [Reaction.above, List.cons_append, List.nil_append, total_cons, Frame.lookupsAhead,
        Signal.lookupsAhead, Listener.lookupsAhead]
      omega
    · simp [Reaction.above, State.namesAhead, unknown]
  | refused r cause h hc => exact Nat.le_add_right _ _
  | explained r explanation h => exact Nat.le_add_right _ _
  | lookup r host type listener h =>
    have hl : listener.lookupsAhead ctx = purpose.lookupsAhead ctx ∧
        State.namesAhead s (.await ⟨host, type⟩ listener) = s.namesAhead .proceed := by
      -- what a purpose awaits is no validation, so the names ahead stay as they are
      cases purpose <;> simp only [Purpose.Awaits] at h
      case pointer =>
        obtain ⟨target, rfl⟩ := h
        exact ⟨rfl, rfl⟩
      all_goals subst h; exact ⟨rfl, rfl⟩
    refine lookupsAhead_le_add rfl ?_ (Nat.le_of_eq hl.2) (Nat.le_refl _)
    simp only [Reaction.above, Reaction.await, List.nil_append, Signal.lookupsAhead, hl.1]
    omega
  | included r target =>
    refine lookupsAhead_le_add rfl ?_ (Nat.le_refl _) ?_
    · simp only [State.beginInclusion, Reaction.above, Reaction.leave, List.cons_append,
        List.nil_append, total_cons, Frame.lookupsAhead, Purpose.lookupsAhead]
      omega
    -- the inclusion silences the explanations that its end lets be heard again
    · rw [State.explanationsAhead_undecided below (hv rfl)]
      refine Nat.le_of_eq ((State.explanationsAhead_muted rfl).trans ?_)
      cases hm : s.isMuted <;>
        simp [State.beginInclusion, Reaction.above, Reaction.leave, Frame.isAudible]
  | redirected r target =>
    refine lookupsAhead_le_add rfl ?_ (Nat.le_refl _) ?_
    · simp only [Reaction.above, Reaction.leave, List.cons_append, List.nil_append, total_cons,
        Frame.lookupsAhead, Purpose.lookupsAhead]
      omega
    · rw [State.explanationsAhead_undecided below (hv rfl)]
      exact Nat.le_of_eq (State.explanationsAhead_undecided _ (hv rfl))

/-- A term that is entered pays for what its template leads to. -/
theorem Expanded.lookupsAhead_le_of_entered {purpose : Purpose} {r : Reaction}
    (he : Expanded s.entered purpose r) (room : s.depth < maxTerms) (hv : s.verdict = none) :
    (r.above below).lookupsAhead ctx ≤ lookupsAhead ctx .proceed s below := by
  refine Nat.le_trans (he.lookupsAhead_le fun _ => hv) ?_
  -- one term less can be entered behind this one, and its cost covers the template
  have hp := lookupsAhead_le_termCost ctx purpose
  have hd : termCost ctx * (maxTerms - s.depth) =
      termCost ctx * (maxTerms - (s.depth + 1)) + termCost ctx := by
    rw [← Nat.mul_succ]
    congr 1
    omega
  have hn : s.entered.namesAhead .proceed = s.namesAhead .proceed := rfl
  have he : s.entered.explanationsAhead below = s.explanationsAhead below := rfl
  have hs : s.entered.depth = s.depth + 1 := rfl
  unfold lookupsAhead
  rw [hn, he, hs, hd]
  omega

/-- Frames that are left in the place of others raise nothing, unless more explanations are
heard. -/
theorem lookupsAhead_leave {q : Signal} {fs gs : List Frame} (hd : t.depth = s.depth)
    (hf : total (Frame.lookupsAhead ctx) fs + q.lookupsAhead ctx ≤
      total (Frame.lookupsAhead ctx) gs)
    (hn : t.namesAhead q ≤ s.namesAhead .proceed)
    (he : t.explanationsAhead fs ≤ s.explanationsAhead gs) :
    Machine.lookupsAhead ctx ⟨q, t, fs⟩ ≤ lookupsAhead ctx .proceed s gs :=
  Nat.le_trans (Machine.lookupsAhead_le ctx _) (lookupsAhead_le_add (n := 0) hd hf hn he)

theorem lookupsAhead_pop (hd : t.depth = s.depth)
    (hn : t.namesAhead .proceed ≤ s.namesAhead .proceed)
    (he : t.explanationsAhead below ≤ s.explanationsAhead (f :: below)) :
    Machine.lookupsAhead ctx ⟨.proceed, t, below⟩ ≤ lookupsAhead ctx .proceed s (f :: below) := by
  refine lookupsAhead_leave hd ?_ hn he
  rw [total_cons]
  exact Nat.le_add_left _ _

/-- No frame in its turn raises the bound. -/
theorem Turn.lookupsAhead_le (h : Orderly ⟨.proceed, s, f :: below⟩) (ht : Turn ctx s f r) :
    (r.above below).lookupsAhead ctx ≤ lookupsAhead ctx .proceed s (f :: below) := by
  -- a frame that is no explanation leaves the explanations below it
  have same {g : Frame} (hb : g.isBoundary = false) (he : g.isExplanation = false) :
      lookupsAhead ctx .proceed s (g :: below) =
        lookupsAhead ctx .proceed s below + g.lookupsAhead ctx := by
    simp only [lookupsAhead, State.explanationsAhead_cons below hb he, total_cons]
    omega
  have tail := @State.explanationsAhead_tail s f below
  have audible : s.isMuted = false → ∀ g ∈ f :: below, g.isRestoration = false := h.audible
  cases ht with
  | concluded =>
    have hb : below = [] := h.stacked.1
    subst hb
    exact Nat.zero_le _
  | begun =>
    -- the stages look the same record up that the evaluation stands for
    have hv : s.verdict = none := h.undecided _ _ rfl rfl
    refine lookupsAhead_leave rfl ?_ (Nat.le_refl _) ?_
    · simp only [Reaction.leave, total_append, total_stages, total_cons, total_nil,
        Frame.lookupsAhead, Signal.lookupsAhead]
      omega
    · rw [State.explanationsAhead_undecided (.evaluation :: below) hv]
      refine Nat.le_of_eq ((State.explanationsAhead_undecided _ hv).trans ?_)
      rw [Reaction.leave, any_isAudible_append]
      · rfl
      · intro g hg
        rw [List.mem_append, List.mem_map, List.mem_singleton] at hg
        rcases hg with ⟨st, -, rfl⟩ | rfl <;> rfl
  | found st text record single => exact lookupsAhead_pop rfl (Nat.le_refl _) (tail rfl)
  | lost st text cause => exact Nat.zero_le _
  | asked isStrict =>
    exact lookupsAhead_leave rfl (Nat.le_of_eq (Nat.add_comm _ _)) (Nat.le_refl _) (tail rfl)
  | opened record hrec =>
    -- while nothing is committed, the explanations of the record count as the one to come
    have hv : s.verdict = none := h.undecided _ _ rfl rfl
    refine lookupsAhead_leave rfl ?_ (Nat.le_refl _) ?_
    · simp only [Reaction.leave, total_append, total_framesOf_lookups, total_cons,
        Frame.lookupsAhead, Signal.lookupsAhead]
      omega
    · rw [State.explanationsAhead_undecided (.terms :: below) hv]
      refine Nat.le_of_eq ((State.explanationsAhead_undecided _ hv).trans ?_)
      rw [Reaction.leave, any_isAudible_append _ (framesOf_isRestoration record)]
      rfl
  | missing hrec => exact Nat.zero_le _
  | passed d hv => exact lookupsAhead_pop rfl (Nat.le_refl _) (tail rfl)
  | settled d isMatch hv plain =>
    refine lookupsAhead_leave rfl (Nat.le_refl _) (Nat.le_refl _) (Nat.le_of_eq ?_)
    rw [State.explanationsAhead_cons (f := .directive d) below rfl rfl]
    exact State.explanationsAhead_cons below rfl rfl
  | exhausted d purpose hv looks full => exact Nat.zero_le _
  | entered d purpose r hv looks room expanded =>
    rw [Reaction.above_onto, same rfl rfl]
    refine Nat.le_trans (expanded.lookupsAhead_le_of_entered room hv) (Nat.le_of_eq ?_)
    exact same (g := .commitment d.qualifier) rfl rfl
  | committed qualifier =>
    rcases s.commit_eq qualifier with hc | hc
    · rw [hc]
      refine lookupsAhead_pop rfl (Nat.le_refl _) (Nat.le_trans ?_ (tail rfl))
      exact State.explanationsAhead_decided qualifier h.stacked.2
    · rw [hc]
      exact lookupsAhead_pop rfl (Nat.le_refl _) (tail rfl)
  | decided domain hv => exact lookupsAhead_pop rfl (Nat.le_refl _) (tail rfl)
  | exhaustedRedirect domain hv full => exact Nat.zero_le _
  | enteredRedirect domain r hv room expanded =>
    rw [same rfl rfl]
    exact expanded.lookupsAhead_le_of_entered room hv
  | explains domain r hv heard expanded =>
    refine Nat.le_trans (expanded.lookupsAhead_le fun he => Bool.noConfusion he) (Nat.le_of_eq ?_)
    -- the explanation that is followed is one of those on top
    have he : s.explanationsAhead (.modifier (.explanation domain) :: below) =
        s.explanationsAhead below + 1 := by
      simp [State.explanationsAhead, heard, hv, explanationsOnTop_cons, Frame.isBoundary,
        Frame.isExplanation, Nat.add_comm]
    simp only [lookupsAhead, he, total_cons, Purpose.lookupsAhead, Frame.lookupsAhead]
    omega
  | silent domain => exact lookupsAhead_pop rfl (Nat.le_refl _) (tail rfl)
  | unknown name value => exact lookupsAhead_pop rfl (Nat.le_refl _) (tail rfl)
  | neutral hv =>
    refine lookupsAhead_pop rfl (Nat.le_refl _) (Nat.le_trans ?_ (tail rfl))
    exact State.explanationsAhead_decided _ h.stacked.2
  | unchanged d => exact lookupsAhead_pop rfl (Nat.le_refl _) (tail rfl)
  | explainsByDefault template r hv heard expanded =>
    rw [same rfl rfl]
    exact expanded.lookupsAhead_le fun he => Bool.noConfusion he
  | restored domain explanation isMuted =>
    -- an inclusion is muted to its end, and what its end lets be heard was counted
    have hm : s.isMuted := by
      rw [← Bool.not_eq_false]
      exact fun hm => Bool.noConfusion (audible hm _ List.mem_cons_self)
    refine lookupsAhead_pop rfl (Nat.le_refl _) ?_
    rw [State.explanationsAhead_muted hm]
    refine Nat.le_of_eq ((State.explanationsAhead_undecided _ rfl).trans ?_)
    cases isMuted <;> simp [Reaction.done, State.restore, Frame.isAudible]
  | arrived =>
    refine lookupsAhead_pop rfl (Nat.le_refl _) ?_
    refine Nat.le_trans (Nat.le_of_eq (State.explanationsAhead_muted rfl)) ?_
    by_cases hm : s.isMuted = true
    · rw [State.explanationsAhead_muted hm]
      exact Nat.le_refl _
    · -- outside of inclusions, nothing lets explanations be heard again
      have hb : below.any Frame.isAudible = false := by
        have := @any_isAudible_append below []
          fun g hg => audible (Bool.not_eq_true _ ▸ hm) g (List.mem_cons_of_mem _ hg)
        rwa [List.append_nil] at this
      exact Nat.le_trans (Nat.le_of_eq (congrArg Bool.toNat hb)) (Nat.zero_le _)
  | expanded template purpose r expanded =>
    rw [same rfl rfl]
    refine expanded.lookupsAhead_le fun hp => ?_
    exact h.undecided _ _ rfl (by simp [Frame.isUndecided, hp])

/-- A listener that goes on alone, with fewer lookups or names to come than before. -/
theorem lookupsAhead_lt_of {request : Dns.Request} {listener : Listener} {frames : List Frame}
    {q : Signal} (hd : t.depth = s.depth)
    (h : t.namesAhead q + q.lookupsAhead ctx <
      s.namesAhead (.await request listener) + listener.lookupsAhead ctx)
    (he : t.explanationsAhead frames = s.explanationsAhead frames) :
    Machine.lookupsAhead ctx ⟨q, t, frames⟩ <
      lookupsAhead ctx (.await request listener) s frames := by
  refine Nat.lt_of_le_of_lt (Machine.lookupsAhead_le ctx ⟨q, t, frames⟩) ?_
  change lookupsAhead ctx q t frames < _
  have hs : (Signal.await request listener).lookupsAhead ctx = listener.lookupsAhead ctx := rfl
  unfold lookupsAhead
  rw [hd, he, hs]
  omega

/-- A listener in its turn lowers the bound. -/
theorem Heard.lookupsAhead_lt {request : Dns.Request} {listener : Listener} {frames : List Frame}
    (hh : Heard ctx s listener r) :
    (r.above frames).lookupsAhead ctx < lookupsAhead ctx (.await request listener) s frames := by
  cases hh with
  | failed l cause =>
    exact Machine.lookupsAhead_pos ctx (m := ⟨.await request listener, s, frames⟩) rfl
  | policyText domain isStrict text =>
    exact lookupsAhead_lt_of rfl (Nat.add_lt_add_left Nat.zero_lt_two _) rfl
  | askedText domain isStrict other =>
    exact lookupsAhead_lt_of rfl (Nat.add_lt_add_left Nat.one_lt_two _) rfl
  | text isStrict other text =>
    exact lookupsAhead_lt_of rfl (Nat.add_lt_add_left Nat.zero_lt_one _) rfl
  | settled l isMatch h =>
    -- whatever else the listener would have looked up is not looked up any more
    have ahead : 0 < listener.lookupsAhead ctx := by
      cases listener with
      | addresses | existence => exact Nat.one_pos
      | exchanges | exchangeAddresses | pointers | pointerAddresses =>
        exact Nat.add_pos_left Nat.one_pos _
      | _ => cases h
    have named : s.namesAhead (.await request listener) = s.namesAhead .proceed := by
      cases listener with
      | clientNames | clientAddresses => cases h
      | _ => rfl
    refine lookupsAhead_lt_of rfl ?_ rfl
    rw [named]
    exact Nat.add_lt_add_left ahead _
  | exchange lengths host rest h =>
    exact lookupsAhead_lt_of rfl (Nat.add_lt_add_left (Nat.add_lt_add_left h 1) _) rfl
  | nextExchange lengths host rest =>
    exact lookupsAhead_lt_of rfl
      (Nat.add_lt_add_left (Nat.add_lt_add_left (Nat.lt_succ_self _) 1) _) rfl
  | name target host rest h =>
    exact lookupsAhead_lt_of rfl (Nat.add_lt_add_left (Nat.add_lt_add_left h 1) _) rfl
  | nextName host rest =>
    exact lookupsAhead_lt_of rfl
      (Nat.add_lt_add_left (Nat.add_lt_add_left (Nat.lt_succ_self _) 1) _) rfl
  | explains r expanded =>
    refine Nat.lt_of_le_of_lt (expanded.lookupsAhead_le fun he => Bool.noConfusion he) ?_
    exact Nat.lt_succ_self _
  | clientNamed name => exact lookupsAhead_lt_of rfl Nat.one_lt_two rfl
  | clientNameless => exact lookupsAhead_lt_of rfl Nat.zero_lt_two rfl
  | clientValidated name validated => exact lookupsAhead_lt_of rfl Nat.zero_lt_one rfl

end Steps

/-! ## Steps and answers -/

/-- No step raises the bound. -/
theorem lookupsAhead_step {ctx : Context} {m m' : Machine} (h : Orderly m)
    (hs : m.step ctx = some m') : m'.lookupsAhead ctx ≤ m.lookupsAhead ctx := by
  obtain ⟨signal, s, frames⟩ := m
  cases signal with
  | await request listener => simp [Machine.step] at hs
  | proceed =>
    cases frames with
    | nil => simp [Machine.step] at hs
    | cons f below =>
      simp only [Machine.step, Option.some.injEq] at hs
      subst hs
      exact (check_turn ctx s f).lookupsAhead_le h
  | raise cause =>
    cases frames with
    | nil => cases (h.ended rfl).1
    | cons f below =>
      cases f with
      | conclusion =>
        have hb : below = [] := h.stacked.1
        subst hb
        simp only [Machine.step, Frame.catch, Option.some.injEq] at hs
        subst hs
        exact Nat.zero_le _
      | _ =>
        simp only [Machine.step, Frame.catch, Option.some.injEq] at hs
        subst hs
        exact Nat.zero_le _

/-- Every answer lowers the bound. -/
theorem lookupsAhead_resume {ctx : Context} {answer : Dns.Answer} {m : Machine}
    {request : Dns.Request} {listener : Listener} (hs : m.signal = .await request listener) :
    (m.resume ctx answer).lookupsAhead ctx < m.lookupsAhead ctx := by
  obtain ⟨signal, s, frames⟩ := m
  subst hs
  exact (resume_heard ctx answer s listener).lookupsAhead_lt

end SenderPolicy.Evaluation
