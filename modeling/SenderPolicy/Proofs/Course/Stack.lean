import SenderPolicy.Proofs.Course.Turn

/-!
# The stack of a check

Whatever a check is answered, its frames lie in order: the conclusion at the bottom and nowhere
else, what evaluates a domain right above the frame that the domain was referred by, and
explanations of one record once. An inclusion silences explanations, so that a frame that lets them
be heard again lies above no other inclusion.

## Main definitions

* `Frame.Fits`, `Stacked`: which frames a frame lies upon
* `Orderly`: what holds of a machine at every point of a check

## Main results

* `Orderly.step`, `Orderly.resume`: steps and answers keep the order
-/

namespace SenderPolicy.Evaluation

/-! ## Frames upon frames -/

namespace Frame

/-- The frame ends the check. -/
def isConclusion : Frame → Bool
  | conclusion => true
  | _ => false

/-- The frame is a stage on the way to a record. -/
def isStage : Frame → Bool
  | stage _ => true
  | _ => false

/-- The frame ends the evaluation of a domain. -/
def isBoundary : Frame → Bool
  | conclusion | restoration _ _ _ | arrival => true
  | _ => false

/-- The frame ends an inclusion. -/
def isRestoration : Frame → Bool
  | restoration _ _ _ => true
  | _ => false

/-- The frame ends an inclusion by a policy whose explanations are heard. -/
def isAudible : Frame → Bool
  | restoration _ _ isMuted => !isMuted
  | _ => false

/-- The frame follows a published explanation. -/
def isExplanation : Frame → Bool
  | modifier (.explanation _) => true
  | _ => false

/-- The frame is one that leads to the terms of a record, or to the use of a template. -/
def isLeading : Frame → Bool
  | evaluation | stage _ | terms | expansion _ _ => true
  | _ => false

/-- No qualifier is committed when the turn comes to the frame. -/
def isUndecided : Frame → Bool
  | evaluation | stage _ | terms => true
  | expansion _ purpose => !purpose.explains
  | _ => false

theorem isLeading_of_isUndecided {f : Frame} (h : f.isUndecided) : f.isLeading := by
  cases f <;> simp_all [isUndecided, isLeading]

end Frame

/-- The explanations of the record whose terms lie on top. -/
def explanationsOnTop : List Frame → Nat
  | [] => 0
  | f :: below => if f.isBoundary then 0 else f.isExplanation.toNat + explanationsOnTop below

theorem explanationsOnTop_cons (f : Frame) (below : List Frame) :
    explanationsOnTop (f :: below) =
      if f.isBoundary then 0 else f.isExplanation.toNat + explanationsOnTop below := rfl

/-- There is a frame on top that leads to nothing. -/
def Settled (frames : List Frame) : Prop :=
  ∃ f below, frames = f :: below ∧ f.isLeading = false

/-- What lies directly below a frame. -/
def Frame.Fits (below : List Frame) : Frame → Prop
  | conclusion => below = []
  | evaluation | terms => ∃ f rest, below = f :: rest ∧ f.isBoundary
  | stage _ => ∃ f rest, below = f :: rest ∧ (f = .terms ∨ ∃ st, f = .stage st)
  | restoration _ _ isMuted =>
    Settled below ∧ (isMuted = false → ∀ f ∈ below, f.isRestoration = false)
  | modifier (.explanation _) => Settled below ∧ explanationsOnTop below = 0
  | _ => Settled below

/-- Every frame lies upon what fits it. -/
def Stacked : List Frame → Prop
  | [] => True
  | f :: below => f.Fits below ∧ Stacked below

/-- What lies below fits without what lies upon it. -/
theorem Stacked.of_append {fs below : List Frame} (h : Stacked (fs ++ below)) : Stacked below := by
  induction fs with
  | nil => exact h
  | cons f fs ih => exact ih h.2

theorem isLeading_of_isBoundary {f : Frame} (h : f.isBoundary) : f.isLeading = false := by
  cases f <;> simp_all [Frame.isBoundary, Frame.isLeading]

/-- Only the conclusion has nothing below. -/
theorem Frame.Fits.ne_nil {f : Frame} {below : List Frame} (h : f.Fits below)
    (hf : f.isConclusion = false) : below ≠ [] := by
  rintro rfl
  cases f with
  | conclusion => cases hf
  | modifier m => cases m <;> simp [Fits, Settled] at h
  | _ => simp [Fits, Settled] at h

/-- Below a stage there is a stage or the terms; below any other frame there is nothing that leads
further. -/
theorem Frame.Fits.settled {f : Frame} {below : List Frame} (h : f.Fits below)
    (hf : f.isConclusion = false) (hs : f.isStage = false) : Settled below := by
  cases f with
  | conclusion => cases hf
  | stage st => cases hs
  | evaluation | terms =>
    obtain ⟨g, rest, hb, hg⟩ := h
    exact ⟨g, rest, hb, isLeading_of_isBoundary hg⟩
  | restoration => exact h.1
  | modifier m =>
    cases m with
    | explanation => exact h.1
    | _ => exact h
  | _ => exact h

theorem Settled.cons {f : Frame} (below : List Frame) (hf : f.isLeading = false) :
    Settled (f :: below) :=
  ⟨f, below, rfl, hf⟩

/-- The explanations of the record on top are at most one. -/
theorem Stacked.explanationsOnTop_le {frames : List Frame} (h : Stacked frames) :
    explanationsOnTop frames ≤ 1 := by
  induction frames with
  | nil => exact Nat.zero_le 1
  | cons f below ih =>
    have hb := ih h.2
    unfold explanationsOnTop
    split
    · exact Nat.zero_le 1
    · cases f with
      | modifier m =>
        cases m with
        | explanation => simp [Frame.isExplanation, h.1.2]
        | _ => simpa [Frame.isExplanation] using hb
      | _ => simpa [Frame.isExplanation] using hb

/-! ## Frames that are left -/

theorem stacked_stages {frames : List Frame} (stages : List Policy.Stage)
    (h : Stacked (.terms :: frames)) : Stacked (stages.map .stage ++ .terms :: frames) := by
  induction stages with
  | nil => exact h
  | cons st stages ih =>
    refine ⟨?_, ih⟩
    cases stages with
    | nil => exact ⟨_, _, rfl, Or.inl rfl⟩
    | cons st' stages => exact ⟨_, _, rfl, Or.inr ⟨st', rfl⟩⟩

/-- Terms that explain nothing fit upon anything settled. -/
theorem stacked_terms {α : Type} (frameOf : α → Frame) {below : List Frame} (terms : List α)
    (hl : ∀ a, (frameOf a).isLeading = false)
    (hf : ∀ a below, (frameOf a).Fits below ↔ Settled below) (hs : Settled below)
    (h : Stacked below) :
    Settled (terms.map frameOf ++ below) ∧ Stacked (terms.map frameOf ++ below) := by
  induction terms with
  | nil => exact ⟨hs, h⟩
  | cons a terms ih =>
    exact ⟨Settled.cons _ (hl a), (hf a _).mpr ih.1, ih.2⟩

/-- Frames without explanations and boundaries lead to the explanations below them. -/
theorem explanationsOnTop_plain {fs : List Frame} (below : List Frame)
    (h : ∀ f ∈ fs, f.isBoundary = false ∧ f.isExplanation = false) :
    explanationsOnTop (fs ++ below) = explanationsOnTop below := by
  induction fs with
  | nil => rfl
  | cons f fs ih =>
    rw [List.forall_mem_cons] at h
    rw [List.cons_append, explanationsOnTop, h.1.1, h.1.2, ih h.2]
    simp

/-- The modifiers of a record explain once, and nothing below them explains. -/
theorem stacked_modifiers {modifiers : List Modifier} {below : List Frame}
    (single : modifiers.Pairwise fun m m' => m.clashes m' = false) (hs : Settled below)
    (h : Stacked below) (he : explanationsOnTop below = 0) :
    Settled (modifiers.map .modifier ++ below) ∧ Stacked (modifiers.map .modifier ++ below) := by
  induction modifiers with
  | nil => exact ⟨hs, h⟩
  | cons m modifiers ih =>
    rw [List.pairwise_cons] at single
    have ih := ih single.2
    refine ⟨Settled.cons _ rfl, ?_, ih.2⟩
    cases m with
    | redirect domain => exact ih.1
    | unknown name value => exact ih.1
    | explanation domain =>
      refine ⟨ih.1, ?_⟩
      have plain := @explanationsOnTop_plain (modifiers.map .modifier) below ?_
      · exact plain.trans he
      intro f hf
      obtain ⟨m', hm', rfl⟩ := List.mem_map.mp hf
      -- a second explanation would clash with the first
      have := single.1 m' hm'
      cases m' <;> simp_all [Modifier.clashes, Frame.isBoundary, Frame.isExplanation]

/-- The terms of a record fit upon the end of the evaluation of its domain. -/
theorem stacked_framesOf {record : Record} {below : List Frame} (single : record.IsSingle)
    (fits : Frame.terms.Fits below) (h : Stacked below) :
    Settled (framesOf record ++ below) ∧ Stacked (framesOf record ++ below) := by
  obtain ⟨f, rest, rfl, hf⟩ := fits
  have hs : Settled (f :: rest) := Settled.cons rest (isLeading_of_isBoundary hf)
  have he : explanationsOnTop (f :: rest) = 0 := by rw [explanationsOnTop, if_pos hf]
  -- from the bottom up: the decorations, the modifiers, the directives
  obtain ⟨hs, h'⟩ := stacked_terms .decoration record.decorations (fun _ => rfl)
    (fun _ _ => Iff.rfl) hs h
  have he' : explanationsOnTop (record.decorations.map .decoration ++ f :: rest) = 0 := by
    rw [explanationsOnTop_plain, he]
    simp [Frame.isBoundary, Frame.isExplanation]
  obtain ⟨hs, h'⟩ := stacked_modifiers single hs h' he'
  simp only [framesOf, List.append_assoc]
  exact stacked_terms .directive record.directives (fun _ => rfl)
    (fun _ _ => Iff.rfl) hs h'

theorem framesOf_isRestoration (record : Record) :
    ∀ f ∈ framesOf record, f.isRestoration = false :=
  forall_mem_framesOf record (fun _ => rfl) (fun _ => rfl) fun _ => rfl

/-! ## Machines in order -/

/-- A published explanation is awaited. -/
def Signal.explains : Signal → Bool
  | await _ .explanationTexts => true
  | _ => false

/-- What holds of a machine at every point of a check. -/
structure Orderly (m : Machine) : Prop where
  stacked : Stacked m.frames
  /-- The check ends with a result. -/
  ended : m.frames = [] → m.signal = .proceed ∧ m.state.result ≠ none
  /-- There is no result before the end. -/
  running : m.frames ≠ [] → m.state.result = none
  /-- Explanations are heard outside of inclusions only. -/
  audible : m.state.isMuted = false → ∀ f ∈ m.frames, f.isRestoration = false
  undecided : ∀ f below, m.frames = f :: below → f.isUndecided → m.state.verdict = none
  /-- Nothing leads further while a published explanation is awaited. -/
  awaited : m.signal.explains → Settled m.frames
  /-- A record that is to be evaluated explains once. -/
  single : ∀ r ∈ m.state.record, r.IsSingle

namespace Orderly

variable {ctx : Context} {s t : State} {f : Frame} {fs below : List Frame} {p q : Signal}

theorem begin (identity : Identity) (receivingDomain : Option String) :
    Orderly (.begin (.initial identity receivingDomain)) where
  stacked := ⟨⟨_, _, rfl, rfl⟩, rfl, trivial⟩
  ended := nofun
  running := fun _ => rfl
  audible := fun _ f hf => by
    simp only [Machine.begin, List.mem_cons, List.not_mem_nil, or_false] at hf
    rcases hf with rfl | rfl <;> rfl
  undecided := fun _ _ _ _ => rfl
  awaited := nofun
  single := nofun

/-- A frame is gone. -/
theorem pop (h : Orderly ⟨p, s, f :: below⟩) (hf : f.isConclusion = false)
    (hr : t.result = s.result)
    (hm : t.isMuted = false → s.isMuted = false ∨ ∀ g ∈ below, g.isRestoration = false)
    (hv : f.isStage = false ∨ t.verdict = s.verdict)
    (hq : q.explains = false) (single : (∀ r ∈ s.record, r.IsSingle) → ∀ r ∈ t.record, r.IsSingle) :
    Orderly ⟨q, t, below⟩ where
  stacked := h.stacked.2
  ended := fun hb => absurd hb (h.stacked.1.ne_nil hf)
  running := fun _ => hr.trans (h.running (List.cons_ne_nil _ _))
  audible := fun ht g hg =>
    (hm ht).elim (fun hs => h.audible hs g (List.mem_cons_of_mem f hg)) fun hn => hn g hg
  undecided := by
    rintro g rest rfl hg
    -- only below a stage can there be a frame in whose turn nothing is committed
    cases hs : f.isStage with
    | true =>
      have hv : t.verdict = s.verdict := hv.resolve_left (by simp [hs])
      have hu : f.isUndecided := by cases f <;> simp_all [Frame.isStage, Frame.isUndecided]
      exact hv.trans (h.undecided f _ rfl hu)
    | false =>
      obtain ⟨g', rest', hb, hg'⟩ := h.stacked.1.settled hf hs
      cases hb
      rw [Frame.isLeading_of_isUndecided hg] at hg'
      cases hg'
  awaited := fun ha => by rw [hq] at ha; cases ha
  single := single h.single

/-- A check that has ended. -/
theorem of_ended (ended : t.result ≠ none) (single : ∀ r ∈ t.record, r.IsSingle) :
    Orderly ⟨.proceed, t, []⟩ where
  stacked := trivial
  ended := fun _ => ⟨rfl, ended⟩
  running := fun hn => absurd rfl hn
  audible := fun _ _ hg => by cases hg
  undecided := fun _ _ hb => by cases hb
  awaited := fun ha => Bool.noConfusion ha
  single := single

/-- Frames that are left, with one on top that nothing is committed for unless it may be. -/
theorem of_leading (fits : f.Fits below) (stacked : Stacked below) (running : t.result = none)
    (audible : t.isMuted = false → ∀ g ∈ f :: below, g.isRestoration = false)
    (undecided : f.isUndecided → t.verdict = none)
    (awaited : q.explains = false ∨ f.isLeading = false)
    (single : ∀ r ∈ t.record, r.IsSingle) : Orderly ⟨q, t, f :: below⟩ where
  stacked := ⟨fits, stacked⟩
  ended := nofun
  running := fun _ => running
  audible := audible
  undecided := by
    rintro _ _ ⟨⟩ hg
    exact undecided hg
  awaited := fun ha => Settled.cons below (awaited.resolve_left (by simp [ha]))
  single := single

/-- Frames upon which nothing leads further. -/
theorem of_settled (hs : Settled below) (stacked : Stacked below) (running : t.result = none)
    (audible : t.isMuted = false → ∀ g ∈ below, g.isRestoration = false)
    (single : ∀ r ∈ t.record, r.IsSingle) : Orderly ⟨q, t, below⟩ := by
  obtain ⟨g, rest, rfl, hg⟩ := hs
  refine of_leading stacked.1 stacked.2 running audible (fun hu => ?_) (Or.inr hg) single
  rw [Frame.isLeading_of_isUndecided hu] at hg
  cases hg

/-- A template in its turn, upon frames that lead no further. -/
theorem of_expanded {purpose : Purpose} {r : Reaction} (he : Expanded t purpose r)
    (hs : Settled below) (stacked : Stacked below) (running : t.result = none)
    (audible : t.isMuted = false → ∀ g ∈ below, g.isRestoration = false)
    (undecided : purpose.explains = false → t.verdict = none)
    (single : ∀ r ∈ t.record, r.IsSingle) : Orderly (r.above below) := by
  cases he with
  | aside r template request unknown same =>
    refine of_leading hs stacked running ?_ ?_ (Or.inl rfl) single
    · exact fun hm => List.forall_mem_cons.mpr ⟨rfl, audible hm⟩
    · rcases same with rfl | ⟨-, he, -⟩
      · exact fun hu => undecided (by simpa [Frame.isUndecided] using hu)
      · exact fun hu => by simp [Frame.isUndecided, he] at hu
  | refused r cause => exact of_settled hs stacked running audible single
  | explained r explanation => exact of_settled hs stacked running audible single
  | lookup r host type listener => exact of_settled hs stacked running audible single
  | included r target =>
    exact of_leading ⟨_, _, rfl, rfl⟩ ⟨⟨hs, audible⟩, stacked⟩ running
      (fun hm => Bool.noConfusion hm) (fun _ => rfl) (Or.inl rfl) single
  | redirected r target =>
    refine of_leading ⟨_, _, rfl, rfl⟩ ⟨hs, stacked⟩ running ?_ (fun _ => undecided rfl)
      (Or.inl rfl) single
    exact fun hm => List.forall_mem_cons.mpr ⟨rfl, List.forall_mem_cons.mpr ⟨rfl, audible hm⟩⟩

/-! ## Steps and answers -/

/-- A frame in its turn keeps the order. -/
theorem turn {r : Reaction} (h : Orderly ⟨.proceed, s, f :: below⟩) (ht : Turn ctx s f r) :
    Orderly (r.above below) := by
  have running : s.result = none := h.running (List.cons_ne_nil _ _)
  have audible : s.isMuted = false → ∀ g ∈ below, g.isRestoration = false :=
    fun hm g hg => h.audible hm g (List.mem_cons_of_mem f hg)
  cases ht with
  | concluded =>
    have hb : below = [] := h.stacked.1
    subst hb
    simp only [Reaction.above, Reaction.done, State.conclude, running, List.append_nil]
    exact of_ended (by simp) h.single
  | begun =>
    have hv : s.verdict = none := h.undecided _ _ rfl rfl
    have hst := @stacked_stages below ctx.policy.stages ⟨h.stacked.1, h.stacked.2⟩
    have hr : s.isMuted = false → ∀ g ∈ ctx.policy.stages.map .stage ++ .terms :: below,
        g.isRestoration = false := by
      intro hm
      refine List.forall_mem_append.mpr ⟨?_, List.forall_mem_cons.mpr ⟨rfl, audible hm⟩⟩
      simp [Frame.isRestoration]
    simp only [Reaction.above, Reaction.leave, List.append_assoc, List.singleton_append]
    -- the frame on top is the first stage, or the terms when there is none
    cases hstages : ctx.policy.stages with
    | nil =>
      rw [hstages] at hst hr
      exact of_leading hst.1 hst.2 running hr (fun _ => hv) (Or.inl rfl) h.single
    | cons st stages =>
      rw [hstages] at hst hr
      exact of_leading hst.1 hst.2 running hr (fun _ => hv) (Or.inl rfl) h.single
  | found st text record single =>
    exact h.pop rfl rfl Or.inl (Or.inr rfl) rfl single
  | lost st text cause => exact h.pop rfl rfl Or.inl (Or.inr rfl) rfl id
  | asked isStrict => exact h.pop rfl rfl Or.inl (Or.inr rfl) rfl id
  | opened record hrec =>
    -- the record is one that explains once, and the state holds none any more
    have hs := stacked_framesOf (h.single record hrec) h.stacked.1 h.stacked.2
    refine of_settled hs.1 hs.2 running (fun hm => ?_) fun r hr => by cases hr
    exact List.forall_mem_append.mpr ⟨framesOf_isRestoration record, audible hm⟩
  | missing hrec => exact h.pop rfl rfl Or.inl (Or.inl rfl) rfl id
  | passed d hv => exact h.pop rfl rfl Or.inl (Or.inl rfl) rfl id
  | settled d isMatch hv plain =>
    refine of_settled (Settled.cons _ rfl) ⟨h.stacked.1, h.stacked.2⟩ running ?_ h.single
    exact fun hm => List.forall_mem_cons.mpr ⟨rfl, audible hm⟩
  | exhausted d purpose hv looks full =>
    refine of_settled (Settled.cons _ rfl) ⟨h.stacked.1, h.stacked.2⟩ running ?_ h.single
    exact fun hm => List.forall_mem_cons.mpr ⟨rfl, audible hm⟩
  | entered d purpose r hv looks room expanded =>
    rw [Reaction.above_onto]
    refine of_expanded expanded (Settled.cons _ rfl) ⟨h.stacked.1, h.stacked.2⟩ running ?_
      (fun _ => hv) h.single
    exact fun hm => List.forall_mem_cons.mpr ⟨rfl, audible hm⟩
  | committed qualifier =>
    rcases s.commit_eq qualifier with hc | hc <;> rw [hc] <;>
      exact h.pop rfl rfl Or.inl (Or.inl rfl) rfl id
  | decided domain hv => exact h.pop rfl rfl Or.inl (Or.inl rfl) rfl id
  | exhaustedRedirect domain hv full => exact h.pop rfl rfl Or.inl (Or.inl rfl) rfl id
  | enteredRedirect domain r hv room expanded =>
    exact of_expanded expanded h.stacked.1 h.stacked.2 running audible (fun _ => hv) h.single
  | explains domain r hv heard expanded =>
    exact of_expanded expanded h.stacked.1.1 h.stacked.2 running audible
      (fun he => Bool.noConfusion he) h.single
  | silent domain => exact h.pop rfl rfl Or.inl (Or.inl rfl) rfl id
  | unknown name value => exact h.pop rfl rfl Or.inl (Or.inl rfl) rfl id
  | neutral hv => exact h.pop rfl rfl Or.inl (Or.inl rfl) rfl id
  | unchanged d => exact h.pop rfl rfl Or.inl (Or.inl rfl) rfl id
  | explainsByDefault template r hv heard expanded =>
    exact of_expanded expanded h.stacked.1 h.stacked.2 running audible
      (fun he => Bool.noConfusion he) h.single
  | restored domain explanation isMuted =>
    -- where explanations are heard again, no inclusion lies below
    exact h.pop rfl rfl (fun hm => Or.inr (h.stacked.1.2 hm)) (Or.inl rfl) rfl id
  | arrived => exact h.pop rfl rfl (fun hm => Bool.noConfusion hm) (Or.inl rfl) rfl id
  | expanded template purpose r expanded =>
    refine of_expanded expanded h.stacked.1 h.stacked.2 running audible (fun hp => ?_) h.single
    exact h.undecided _ _ rfl (by simp [Frame.isUndecided, hp])

/-- A cause that is handed on, or handled, keeps the order. -/
theorem step {m m' : Machine} (h : Orderly m) (hs : m.step ctx = some m') : Orderly m' := by
  obtain ⟨signal, s, frames⟩ := m
  cases signal with
  | await request listener => simp [Machine.step] at hs
  | proceed =>
    cases frames with
    | nil => simp [Machine.step] at hs
    | cons f below =>
      simp only [Machine.step, Option.some.injEq] at hs
      subst hs
      exact h.turn (check_turn ctx s f)
  | raise cause =>
    cases frames with
    | nil => cases (h.ended rfl).1
    | cons f below =>
      have running : s.result = none := h.running (List.cons_ne_nil _ _)
      cases f with
      | conclusion =>
        have hb : below = [] := h.stacked.1
        subst hb
        simp only [Machine.step, Frame.catch, State.conclude, running, Option.some.injEq] at hs
        subst hs
        exact of_ended (by simp) h.single
      | restoration domain explanation isMuted =>
        simp only [Machine.step, Frame.catch, Option.some.injEq] at hs
        subst hs
        exact h.pop rfl rfl (fun hm => Or.inr (h.stacked.1.2 hm)) (Or.inl rfl) rfl id
      | _ =>
        simp only [Machine.step, Frame.catch, Option.some.injEq] at hs
        subst hs
        exact h.pop rfl rfl Or.inl (Or.inr rfl) rfl id

/-- While a lookup is awaited, the state changes in what the order does not depend on. -/
theorem keep {request : Dns.Request} {listener : Listener}
    (h : Orderly ⟨.await request listener, s, fs⟩) (hr : t.result = s.result)
    (hm : t.isMuted = s.isMuted) (hv : t.verdict = s.verdict) (hq : q.explains = false)
    (hrec : t.record = s.record) : Orderly ⟨q, t, fs⟩ where
  stacked := h.stacked
  ended := fun hf => by cases (h.ended hf).1
  running := fun hn => hr.trans (h.running hn)
  audible := fun ht => h.audible (hm ▸ ht)
  undecided := fun g rest hf hg => hv.trans (h.undecided g rest hf hg)
  awaited := fun ha => by rw [hq] at ha; cases ha
  single := hrec ▸ h.single

/-- A listener in its turn keeps the order. -/
theorem heard {request : Dns.Request} {listener : Listener} {r : Reaction}
    (h : Orderly ⟨.await request listener, s, fs⟩) (hh : Heard ctx s listener r) :
    Orderly (r.above fs) := by
  cases hh with
  | explains r expanded =>
    have hset : Settled fs := h.awaited rfl
    have hne : fs ≠ [] := by
      obtain ⟨g, rest, rfl, -⟩ := hset
      exact List.cons_ne_nil g rest
    exact of_expanded expanded hset h.stacked (h.running hne) h.audible
      (fun he => Bool.noConfusion he) h.single
  | _ => exact h.keep rfl rfl rfl rfl rfl

/-- An answer keeps the order. -/
theorem resume {answer : Dns.Answer} {m : Machine} {request : Dns.Request} {listener : Listener}
    (h : Orderly m) (hs : m.signal = .await request listener) : Orderly (m.resume ctx answer) := by
  obtain ⟨signal, s, frames⟩ := m
  subst hs
  exact h.heard (resume_heard ctx answer s listener)

end Orderly

end SenderPolicy.Evaluation
