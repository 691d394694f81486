import Mathlib.Data.List.Chain
import SenderPolicy.Proofs.Course.Exchanges
import SenderPolicy.Proofs.Course.Lookups

/-!
# A verdict is final

When a directive outside of all inclusions commits its qualifier, what is left of the check can
only explain it. The frames below the commitment belong to the record of the directive and to those
that redirect to it; none of them ends an inclusion, so the qualifier stays, directives and
redirections are passed over, and the check ends with the result of the qualifier.

## Main definitions

* `Upon`: a commitment lies right under what settles its mechanism
* `Decides`: a directive outside of all inclusions is about to commit its qualifier
* `Decided`: a qualifier is committed, and only explanations are left

## Main results

* `Committable.step`, `Committable.resume`: a commitment lies nowhere else
* `Decides.decided`: what follows a commitment outside of all inclusions
* `Decided.step`, `Decided.resume`: nothing changes a qualifier that is committed
* `Decides.final`, `Decides.completes`: the rest of a check behind a commitment
* `verdict_final`: the rest of a check whose verdict is committed
-/

namespace SenderPolicy.Evaluation

/-! ## Commitments in the stack -/

/-- The purpose is that of a mechanism. -/
def Purpose.isMechanism : Purpose → Bool
  | addresses _ | exchanges _ | pointer | existence | inclusion => true
  | redirection | explanationDomain | explanation | defaultExplanation => false

namespace Frame

/-- The frame commits a qualifier. -/
def isCommitment : Frame → Bool
  | commitment _ => true
  | _ => false

/-- The frame settles whether a mechanism matches. -/
def isMechanism : Frame → Bool
  | restoration _ _ _ => true
  | expansion _ purpose => purpose.isMechanism
  | _ => false

end Frame

/-- A commitment lies right under what settles its mechanism. -/
def Upon (f g : Frame) : Prop :=
  g.isCommitment → f.isMechanism

/-- The frame on top commits nothing. -/
def Bare (frames : List Frame) : Prop :=
  ∀ f ∈ frames.head?, f.isCommitment = false

/-- Every commitment that is not on top lies right under what settles its mechanism, and no
explanation is awaited upon one. -/
structure Committable (m : Machine) : Prop where
  chain : m.frames.IsChain Upon
  bare : m.signal.explains → Bare m.frames

section Chains

variable {f : Frame} {fs below : List Frame}

theorem upon_of_isMechanism (h : f.isMechanism) : ∀ g ∈ below.head?, Upon f g :=
  fun _ _ _ => h

theorem upon_of_bare (h : Bare below) : ∀ g ∈ below.head?, Upon f g := by
  intro g hg hc
  rw [h g hg] at hc
  cases hc

theorem bare_of_isChain (h : (f :: below).IsChain Upon) (hf : f.isMechanism = false) :
    Bare below := by
  intro g hg
  rw [Bool.eq_false_iff]
  intro hc
  have := (List.isChain_cons.mp h).1 g hg hc
  rw [hf] at this
  cases this

theorem isChain_append (h : below.IsChain Upon) (hb : Bare below)
    (hf : ∀ f ∈ fs, f.isCommitment = false) : (fs ++ below).IsChain Upon := by
  induction fs with
  | nil => exact h
  | cons f fs ih =>
    rw [List.forall_mem_cons] at hf
    refine List.isChain_cons.mpr ⟨upon_of_bare ?_, ih hf.2⟩
    intro g hg
    cases fs with
    | nil => exact hb g hg
    | cons g' fs =>
      cases hg
      exact hf.2 g List.mem_cons_self

end Chains

section Turns

variable {ctx : Context} {s : State} {f : Frame} {below : List Frame} {r : Reaction}

theorem isMechanism_of_looks {mechanism : Mechanism} {purpose : Purpose}
    (h : purposeOf mechanism = some purpose) : purpose.isMechanism := by
  cases mechanism <;> cases h <;> rfl

theorem isMechanism_of_explains {purpose : Purpose} (h : purpose.explains) :
    purpose.isMechanism = false := by
  cases purpose <;> first | rfl | cases h

/-- What a template leads to lies upon a commitment only if it is that of a mechanism. -/
theorem Expanded.committable {purpose : Purpose} (he : Expanded s purpose r)
    (h : below.IsChain Upon) (hb : purpose.isMechanism = false → Bare below) :
    Committable (r.above below) := by
  cases he with
  | @aside _ purpose' r template request unknown same kept =>
    refine ⟨List.isChain_cons.mpr ⟨?_, h⟩, nofun⟩
    cases hp : purpose.isMechanism with
    | false => exact upon_of_bare (hb hp)
    | true =>
      refine upon_of_isMechanism ?_
      rcases same with rfl | ⟨he, -⟩
      · exact hp
      · rw [isMechanism_of_explains he] at hp
        cases hp
  | refused r cause => exact ⟨h, nofun⟩
  | explained r explanation => exact ⟨h, nofun⟩
  | lookup r host type listener awaits =>
    refine ⟨h, ?_⟩
    intro hx
    refine hb ?_
    -- only the domain of an explanation is looked up for its text
    cases purpose with
    | explanationDomain => rfl
    | pointer =>
      obtain ⟨target, rfl⟩ := awaits
      cases hx
    | redirection | explanation | defaultExplanation | inclusion => cases awaits
    | _ =>
      cases awaits
      cases hx
  | included r target =>
    refine ⟨List.isChain_cons.mpr ⟨?_, List.isChain_cons.mpr ⟨?_, h⟩⟩, nofun⟩
    · rintro g ⟨⟩ hc
      cases hc
    · exact upon_of_isMechanism rfl
  | redirected r target =>
    refine ⟨isChain_append h (hb rfl) ?_, nofun⟩
    exact List.forall_mem_cons.mpr ⟨rfl, List.forall_mem_cons.mpr ⟨rfl, List.forall_mem_nil _⟩⟩

theorem framesOf_isCommitment (record : Record) :
    ∀ f ∈ framesOf record, f.isCommitment = false :=
  forall_mem_framesOf record (fun _ => rfl) (fun _ => rfl) fun _ => rfl

/-- A frame in its turn leaves a commitment right under what settles its mechanism. -/
theorem Turn.committable (ht : Turn ctx s f r) (h : (f :: below).IsChain Upon) :
    Committable (r.above below) := by
  have tail : below.IsChain Upon := h.tail
  have bare : f.isMechanism = false → Bare below := bare_of_isChain h
  cases ht with
  | begun =>
    refine ⟨isChain_append tail (bare rfl) ?_, nofun⟩
    intro g hg
    rcases List.mem_append.mp hg with hg | hg
    · obtain ⟨st, -, rfl⟩ := List.mem_map.mp hg
      rfl
    · cases List.mem_singleton.mp hg
      rfl
  | opened record hrec =>
    exact ⟨isChain_append tail (bare rfl) (framesOf_isCommitment record), nofun⟩
  | settled d isMatch hv plain =>
    exact ⟨List.isChain_cons.mpr ⟨upon_of_bare (bare rfl), tail⟩, nofun⟩
  | exhausted d purpose hv looks full =>
    exact ⟨List.isChain_cons.mpr ⟨upon_of_bare (bare rfl), tail⟩, nofun⟩
  | entered d purpose r hv looks room expanded =>
    rw [Reaction.above_onto]
    refine expanded.committable (List.isChain_cons.mpr ⟨upon_of_bare (bare rfl), tail⟩) ?_
    intro hp
    rw [isMechanism_of_looks looks] at hp
    cases hp
  | enteredRedirect domain r hv room expanded =>
    exact expanded.committable tail fun _ => bare rfl
  | explains domain r hv heard expanded => exact expanded.committable tail fun _ => bare rfl
  | explainsByDefault template r hv heard expanded =>
    exact expanded.committable tail fun _ => bare rfl
  | expanded template purpose r expanded => exact expanded.committable tail bare
  | _ => exact ⟨tail, nofun⟩

end Turns

namespace Committable

variable {ctx : Context} {m m' : Machine}

theorem begin (s : State) : Committable (.begin s) where
  chain := by
    refine List.isChain_cons.mpr ⟨?_, List.isChain_singleton _⟩
    rintro g ⟨⟩ hc
    cases hc
  bare := nofun

/-- Steps leave every commitment right under what settles its mechanism. -/
theorem step (h : Committable m) (hs : m.step ctx = some m') : Committable m' := by
  obtain ⟨signal, s, frames⟩ := m
  cases signal with
  | await request listener => cases hs
  | proceed =>
    cases frames with
    | nil => cases hs
    | cons f below =>
      cases hs
      exact (check_turn ctx s f).committable h.chain
  | raise cause =>
    cases frames with
    | nil =>
      cases hs
      exact ⟨.nil, nofun⟩
    | cons f below =>
      cases f with
      | conclusion | restoration | arrival =>
        cases hs
        exact ⟨h.chain.tail, nofun⟩
      | _ =>
        cases hs
        exact ⟨h.chain.tail, nofun⟩

/-- So do answers. -/
theorem resume {request : Dns.Request} {listener : Listener} (h : Committable m)
    (hs : m.signal = .await request listener) (answer : Dns.Answer) :
    Committable (m.resume ctx answer) := by
  obtain ⟨signal, s, frames⟩ := m
  subst hs
  have heard : Heard ctx s listener (listener.resume ctx answer s) := resume_heard ctx answer s _
  simp only [Machine.resume]
  generalize listener.resume ctx answer s = r at heard
  cases heard with
  | explains r expanded => exact expanded.committable h.chain fun _ => h.bare rfl
  | _ => exact ⟨h.chain, nofun⟩

theorem reaches {start : Machine} {terms lookups : Nat} (h : Reaches ctx start terms lookups m)
    (hs : Committable start) : Committable m := by
  induction h with
  | refl => exact hs
  | step _ hs ih => exact ih.step hs
  | answer _ hs a ih => exact ih.resume hs a

end Committable

/-! ## Behind a commitment -/

namespace Frame

/-- Once a qualifier is committed, the frame does nothing but explain it, or end the check. -/
def isPassive : Frame → Bool
  | conclusion | directive _ | modifier _ | decoration _ | arrival => true
  | expansion _ purpose => purpose.explains
  | evaluation | stage _ | terms | commitment _ | restoration _ _ _ => false

end Frame

/-- The listener is that of an explanation, or of the client's name. -/
def Listener.isOfExplanation : Listener → Bool
  | explanationTexts | clientNames | clientAddresses _ => true
  | _ => false

/-- A directive outside of all inclusions is about to commit its qualifier. -/
structure Decides (q : Qualifier) (m : Machine) : Prop where
  signal : m.signal = .proceed
  matched : m.state.matched = some true
  frames : ∃ below, m.frames = .commitment q :: below ∧ ∀ f ∈ below, f.isRestoration = false

/-- A qualifier is committed, and nothing but explanations of a failure is left. -/
structure Decided (q : Qualifier) (m : Machine) : Prop where
  verdict : m.state.verdict = some q
  signal : m.signal = .proceed ∨ q = .fail ∧
    ∃ request listener, m.signal = .await request listener ∧ listener.isOfExplanation
  passive : ∀ f ∈ m.frames, f.isPassive
  /-- A template that is put aside explains a failure. -/
  explaining : ∀ f ∈ m.frames, f.isLeading → q = .fail
  result : m.frames = [] → m.state.result = some q.result

section Stacks

variable {f : Frame} {below : List Frame}

/-- Below a frame that leads nowhere, no frame leads anywhere. -/
theorem Stacked.isLeading_eq_false (h : Stacked below) (hs : Settled below) :
    ∀ f ∈ below, f.isLeading = false := by
  induction below with
  | nil => exact List.forall_mem_nil _
  | cons f below ih =>
    obtain ⟨g, rest, heq, hf⟩ := hs
    cases heq
    refine List.forall_mem_cons.mpr ⟨hf, ?_⟩
    cases hc : f.isConclusion with
    | true =>
      have hb : below = [] := by
        cases f with
        | conclusion => exact h.1
        | _ => cases hc
      rw [hb]
      exact List.forall_mem_nil _
    | false =>
      have hst : f.isStage = false := by
        cases f with
        | stage => cases hf
        | _ => rfl
      exact ih h.2 (h.1.settled hc hst)

/-- Without inclusions and templates, no commitment lies below another frame. -/
theorem isCommitment_eq_false (h : (f :: below).IsChain Upon) (hf : f.isMechanism = false)
    (hr : ∀ g ∈ below, g.isRestoration = false) (hl : ∀ g ∈ below, g.isLeading = false) :
    ∀ g ∈ below, g.isCommitment = false := by
  induction below generalizing f with
  | nil => exact List.forall_mem_nil _
  | cons g below ih =>
    rw [List.forall_mem_cons] at hr hl
    have hg : g.isMechanism = false := by
      cases g with
      | restoration => exact hr.1
      | expansion => cases hl.1
      | _ => rfl
    exact List.forall_mem_cons.mpr ⟨bare_of_isChain h hf g rfl, ih h.tail hg hr.2 hl.2⟩

theorem isPassive_of (hl : f.isLeading = false) (hr : f.isRestoration = false)
    (hc : f.isCommitment = false) : f.isPassive := by
  cases f with
  | evaluation | stage | terms | expansion => cases hl
  | restoration => cases hr
  | commitment => cases hc
  | _ => rfl

end Stacks

/-- What follows a commitment outside of all inclusions can only explain it. -/
theorem Decides.decided {q : Qualifier} {m : Machine} (ctx : Context) (h : Decides q m)
    (ho : Orderly m) (hc : Committable m) :
    ∃ m₁, m.step ctx = some m₁ ∧ Decided q m₁ ∧ m₁.frames ≠ [] ∧
      m₁.state = { m.state with verdict := some q } ∧
      (∀ f ∈ m₁.frames, f.isLeading = false) := by
  obtain ⟨signal, s, frames⟩ := m
  obtain ⟨rfl, matched, below, rfl, hr⟩ := h
  have hs : Settled below := ho.stacked.1
  have leading : ∀ f ∈ below, f.isLeading = false := ho.stacked.2.isLeading_eq_false hs
  have commit : s.commit q = { s with verdict := some q } := by
    unfold State.commit
    exact if_pos matched
  have passive : ∀ f ∈ below, f.isPassive := by
    intro f hf
    exact isPassive_of (leading f hf) (hr f hf)
      (isCommitment_eq_false hc.chain rfl hr leading f hf)
  have ne : below ≠ [] := ho.stacked.1.ne_nil rfl
  refine ⟨⟨.proceed, { s with verdict := some q }, below⟩, ?_,
    ⟨rfl, .inl rfl, passive, ?_, fun hn => absurd hn ne⟩, ne, rfl, leading⟩
  · rw [← commit]
    rfl
  · intro f hf hl
    rw [leading f hf] at hl
    cases hl

/-- An explanation of a failure is kept, put aside or looked up. -/
theorem Expanded.decided {s : State} {purpose : Purpose} {r : Reaction} {below : List Frame}
    (he : Expanded s purpose r) (hp : purpose.explains) (hv : s.verdict = some .fail)
    (passive : ∀ f ∈ below, f.isPassive) (ne : below ≠ []) :
    Decided .fail (r.above below) ∧ r.state.depth = s.depth := by
  cases he with
  | @aside _ purpose' r template request unknown same kept =>
    have hp' : purpose'.explains := by
      rcases same with rfl | ⟨-, h, -⟩
      · exact hp
      · exact h
    exact ⟨⟨hv, .inr ⟨rfl, _, _, rfl, rfl⟩, List.forall_mem_cons.mpr ⟨hp', passive⟩,
      fun _ _ _ => rfl, nofun⟩, rfl⟩
  | refused r cause h =>
    rw [hp] at h
    cases h
  | explained r explanation =>
    exact ⟨⟨hv, .inl rfl, passive, fun _ _ _ => rfl, fun hn => absurd hn ne⟩, rfl⟩
  | lookup r host type listener awaits =>
    refine ⟨⟨hv, .inr ⟨rfl, _, _, rfl, ?_⟩, passive, fun _ _ _ => rfl, fun hn => absurd hn ne⟩,
      rfl⟩
    cases purpose with
    | explanationDomain =>
      cases awaits
      rfl
    | explanation | defaultExplanation => cases awaits
    | _ => cases hp
  | included | redirected => cases hp

/-- The listeners of explanations fail never. -/
theorem Listener.resume_of_isOfExplanation {listener : Listener} (h : listener.isOfExplanation)
    (ctx : Context) (answer : Dns.Answer) (s : State) :
    (∃ purpose : Purpose, purpose.explains ∧ Expanded s purpose (listener.resume ctx answer s)) ∨
    (∃ name, listener.resume ctx answer s =
      .await s name s.identity.addressType (.clientAddresses name)) ∨
    ∃ name, listener.resume ctx answer s = .done { s with clientDomain := some name } := by
  cases listener with
  | explanationTexts =>
    refine .inl ⟨.explanation, rfl, ?_⟩
    simp only [Listener.resume, explanationAnswered]
    split
    · exact expandTo_expanded ctx .explanation _ s
    · exact explainByDefault_expanded ctx s s.receivingDomain rfl
  | clientNames =>
    refine .inr ?_
    simp only [Listener.resume, clientNamed]
    split
    · exact .inl ⟨_, rfl⟩
    · exact .inr ⟨_, rfl⟩
  | clientAddresses name => exact .inr (.inr ⟨_, rfl⟩)
  | _ => cases h

namespace Decided

variable {ctx : Context} {q : Qualifier} {s t : State} {f : Frame} {below : List Frame}
  {m m' : Machine}

/-- The turn comes to the next frame without a change to the verdict. -/
theorem pop (h : Decided q ⟨.proceed, s, f :: below⟩) (hv : t.verdict = s.verdict)
    (ne : below ≠ []) : Decided q ⟨.proceed, t, below⟩ where
  verdict := hv.trans h.verdict
  signal := .inl rfl
  passive := fun g hg => h.passive g (List.mem_cons_of_mem f hg)
  explaining := fun g hg => h.explaining g (List.mem_cons_of_mem f hg)
  result := fun hn => absurd hn ne

/-- A frame in its turn passes over what is left, explains, or ends the check. -/
theorem turn {r : Reaction} (h : Decided q ⟨.proceed, s, f :: below⟩)
    (ho : Orderly ⟨.proceed, s, f :: below⟩) (ht : Turn ctx s f r) :
    Decided q (r.above below) ∧ r.state.depth = s.depth := by
  have verdict : s.verdict = some q := h.verdict
  have passive : ∀ g ∈ below, g.isPassive := fun g hg => h.passive g (List.mem_cons_of_mem f hg)
  have own : f.isPassive := h.passive f List.mem_cons_self
  have ne : f.isConclusion = false → below ≠ [] := ho.stacked.1.ne_nil
  -- without a committed qualifier the frame would do something else
  have undecided : s.verdict ≠ none := by
    rw [verdict]
    exact nofun
  cases ht with
  | concluded =>
    have hb : below = [] := ho.stacked.1
    have running : s.result = none := ho.running (List.cons_ne_nil _ _)
    subst hb
    have conclude : s.conclude ((s.verdict.map Qualifier.result).getD .neutral) =
        { s with result := some q.result } := by
      rw [State.conclude, running, verdict]
      rfl
    rw [conclude]
    exact ⟨⟨verdict, .inl rfl, List.forall_mem_nil _, List.forall_mem_nil _, fun _ => rfl⟩, rfl⟩
  | begun | found | lost | asked | opened | missing | committed | restored => cases own
  | settled _ _ hv => exact absurd hv undecided
  | exhausted _ _ hv => exact absurd hv undecided
  | entered _ _ _ hv => exact absurd hv undecided
  | exhaustedRedirect _ hv => exact absurd hv undecided
  | enteredRedirect _ _ hv => exact absurd hv undecided
  | neutral hv => exact absurd hv undecided
  | passed | decided | silent | unknown | unchanged | arrived => exact ⟨h.pop rfl (ne rfl), rfl⟩
  | explains domain r hv heard expanded =>
    cases verdict.symm.trans hv
    exact expanded.decided rfl hv passive (ne rfl)
  | explainsByDefault template r hv heard expanded =>
    cases verdict.symm.trans hv
    exact expanded.decided rfl hv passive (ne rfl)
  | expanded template purpose r expanded =>
    cases h.explaining _ List.mem_cons_self rfl
    exact expanded.decided own verdict passive (ne rfl)

/-- A step changes neither a qualifier that is committed nor the number of terms entered. -/
theorem step (h : Decided q m) (ho : Orderly m) (hs : m.step ctx = some m') :
    Decided q m' ∧ m'.state.depth = m.state.depth := by
  obtain ⟨signal, s, frames⟩ := m
  have signal : signal = .proceed := by
    refine h.signal.resolve_right ?_
    rintro ⟨-, request, listener, rfl, -⟩
    cases hs
  subst signal
  cases frames with
  | nil => cases hs
  | cons f below =>
    cases hs
    exact h.turn ho (check_turn ctx s f)

/-- Nor does an answer. -/
theorem resume {request : Dns.Request} {listener : Listener} (h : Decided q m) (ho : Orderly m)
    (hs : m.signal = .await request listener) (answer : Dns.Answer) :
    Decided q (m.resume ctx answer) ∧ (m.resume ctx answer).state.depth = m.state.depth := by
  obtain ⟨signal, s, frames⟩ := m
  subst hs
  have verdict : s.verdict = some q := h.verdict
  have ne : frames ≠ [] := fun hn => by cases (ho.ended hn).1
  have resumed : Machine.resume ctx answer ⟨.await request listener, s, frames⟩ =
      (listener.resume ctx answer s).above frames := rfl
  obtain hp | ⟨rfl, _, _, ⟨⟩, explains⟩ := h.signal
  · cases hp
  obtain ⟨purpose, hp, expanded⟩ | ⟨name, hr⟩ | ⟨name, hr⟩ :=
    Listener.resume_of_isOfExplanation explains ctx answer s
  · exact expanded.decided hp verdict h.passive ne
  · rw [resumed, hr]
    exact ⟨⟨verdict, .inr ⟨rfl, _, _, rfl, rfl⟩, h.passive, fun _ _ _ => rfl,
      fun hn => absurd hn ne⟩, rfl⟩
  · rw [resumed, hr]
    exact ⟨⟨verdict, .inl rfl, h.passive, fun _ _ _ => rfl, fun hn => absurd hn ne⟩, rfl⟩

end Decided

/-! ## Lookups behind a commitment -/

/-- The lookups that are still to come without another term: those of explanations. -/
def Machine.lookupsWithoutTerms (ctx : Context) (m : Machine) : Nat :=
  m.lookupsAhead ctx - termCost ctx * (maxTerms - m.state.depth)

/-- With the commitment, one explanation can be looked up and the client's name validated. -/
theorem lookupsWithoutTerms_le {ctx : Context} {m : Machine} (hs : m.signal = .proceed)
    (stacked : Stacked m.frames) (decided : m.state.verdict ≠ none)
    (leading : ∀ f ∈ m.frames, f.isLeading = false) : m.lookupsWithoutTerms ctx ≤ 3 := by
  obtain ⟨signal, s, frames⟩ := m
  subst hs
  have names : s.namesAhead .proceed ≤ 2 := by
    simp only [State.namesAhead]
    split <;> omega
  have explanations : s.explanationsAhead frames ≤ 1 := by
    simp only [State.explanationsAhead, if_neg decided]
    split
    · exact Bool.toNat_le _
    · exact stacked.explanationsOnTop_le
  have frames_none : total (Frame.lookupsAhead ctx) frames = 0 := by
    refine total_eq_zero fun f hf => ?_
    have hl := leading f hf
    cases f with
    | evaluation | stage | terms | expansion => cases hl
    | _ => rfl
  have ahead := Machine.lookupsAhead_le ctx ⟨.proceed, s, frames⟩
  simp only [Evaluation.lookupsAhead, frames_none, Signal.lookupsAhead] at ahead
  simp only [Machine.lookupsWithoutTerms]
  omega

/-- While an answer is awaited, its lookup is one of those. -/
theorem Machine.lt_lookupsAhead (ctx : Context) {m : Machine} {request : Dns.Request}
    {listener : Listener} (h : m.signal = .await request listener) :
    termCost ctx * (maxTerms - m.state.depth) < m.lookupsAhead ctx := by
  obtain ⟨signal, s, frames⟩ := m
  subst h
  simp only [Machine.lookupsAhead, Evaluation.lookupsAhead]
  cases listener <;> simp only [State.namesAhead, Signal.lookupsAhead, Listener.lookupsAhead] <;>
    omega

namespace Decided

variable {ctx : Context} {q : Qualifier} {m m' : Machine} {exchanges : List Exchange}

/-- From a committed qualifier on, the verdict stays, and lookups are for the explanation of a
failure alone. -/
theorem course (h : Decided q m) (ho : Orderly m) (hc : Course ctx m exchanges m') :
    Decided q m' ∧ (∀ e ∈ exchanges, e.listener.isOfExplanation ∧ q = .fail) ∧
      exchanges.length + m'.lookupsWithoutTerms ctx ≤ m.lookupsWithoutTerms ctx := by
  -- on the course: what is still to come falls with every answer
  induction hc with
  | refl m => exact ⟨h, List.forall_mem_nil _, Nat.le_of_eq (Nat.zero_add _)⟩
  | @step m m₁ m₂ exchanges hs rest ih =>
    obtain ⟨decided, depth⟩ := h.step ho hs
    obtain ⟨last, explains, bound⟩ := ih decided (ho.step hs)
    have fewer := lookupsAhead_step ho hs
    refine ⟨last, explains, Nat.le_trans bound ?_⟩
    unfold Machine.lookupsWithoutTerms
    rw [depth]
    exact Nat.sub_le_sub_right fewer _
  | @answer m m₂ request listener exchanges hs answer rest ih =>
    obtain ⟨decided, depth⟩ := h.resume ho hs answer
    obtain ⟨last, explains, bound⟩ := ih decided (ho.resume hs)
    have explaining : listener.isOfExplanation ∧ q = .fail := by
      obtain hp | ⟨fails, request', listener', hw, explains⟩ := h.signal
      · rw [hs] at hp
        cases hp
      · rw [hs] at hw
        cases hw
        exact ⟨explains, fails⟩
    have fewer := @lookupsAhead_resume ctx answer m request listener hs
    have own := Machine.lt_lookupsAhead ctx hs
    refine ⟨last, List.forall_mem_cons.mpr ⟨explaining, explains⟩, ?_⟩
    unfold Machine.lookupsWithoutTerms at bound ⊢
    rw [depth] at bound
    rw [List.length_cons]
    omega

end Decided

/-! ## The rest of a check -/

/-- What holds behind a commitment outside of all inclusions, at every point and with the exchanges
since then. -/
structure Final (ctx : Context) (q : Qualifier) (exchanges : List Exchange) (m : Machine) :
    Prop where
  /-- The verdict stays. -/
  verdict : m.state.verdict = some q
  /-- Nothing fails. -/
  succeeds : ∀ cause, m.signal ≠ .raise cause
  /-- No record is acquired or opened, and no template of a mechanism or a redirection is left. -/
  opens : ∀ f ∈ m.frames, f.isUndecided = false
  /-- Directives and redirections are passed over. -/
  passes : ∀ f below, m.signal = .proceed → m.frames = f :: below →
    (∃ d, f = .directive d) ∨ (∃ domain, f = .modifier (.redirect domain)) →
      m.step ctx = some ⟨.proceed, m.state, below⟩
  /-- The check ends with the result of the qualifier. -/
  result : m.frames = [] → m.state.result = some q.result
  /-- Only a failure leads to lookups, which are those of its explanation and of the client's
  name. -/
  explains : ∀ e ∈ exchanges, e.listener.isOfExplanation ∧ q = .fail
  lookups : exchanges.length ≤ 3

theorem isUndecided_of_isPassive {f : Frame} (h : f.isPassive) : f.isUndecided = false := by
  cases f with
  | expansion template purpose =>
    have explains : purpose.explains := h
    simp [Frame.isUndecided, explains]
  | evaluation | stage | terms => cases h
  | _ => rfl

theorem Decided.final {ctx : Context} {q : Qualifier} {m : Machine} {exchanges : List Exchange}
    (h : Decided q m) (explains : ∀ e ∈ exchanges, e.listener.isOfExplanation ∧ q = .fail)
    (lookups : exchanges.length ≤ 3) : Final ctx q exchanges m where
  verdict := h.verdict
  succeeds := by
    intro cause hs
    obtain hp | ⟨-, request, listener, hw, -⟩ := h.signal
    · rw [hs] at hp
      cases hp
    · rw [hs] at hw
      cases hw
  opens := fun f hf => isUndecided_of_isPassive (h.passive f hf)
  passes := by
    intro f below hs hf hd
    obtain ⟨signal, s, frames⟩ := m
    subst hs hf
    have verdict : s.verdict = some q := h.verdict
    obtain ⟨d, rfl⟩ | ⟨domain, rfl⟩ := hd
    · simp [Machine.step, Frame.check, directiveStep, verdict, Reaction.above, Reaction.done]
    · simp [Machine.step, Frame.check, modifierStep, verdict, Reaction.above, Reaction.done]
  result := h.result
  explains := explains
  lookups := lookups

/-- Behind a commitment outside of all inclusions the rest of a check is final. -/
theorem Decides.final {ctx : Context} {q : Qualifier} {m : Machine} (hd : Decides q m)
    (ho : Orderly m) (hc : Committable m) :
    ∃ m₁, m.step ctx = some m₁ ∧ m₁.state = { m.state with verdict := some q } ∧
      ∀ exchanges m', Course ctx m₁ exchanges m' → Final ctx q exchanges m' := by
  obtain ⟨m₁, hs, decided, -, state, leading⟩ := hd.decided ctx ho hc
  have ho₁ : Orderly m₁ := ho.step hs
  have bound : m₁.lookupsWithoutTerms ctx ≤ 3 := by
    refine lookupsWithoutTerms_le ?_ ho₁.stacked ?_ leading
    · refine decided.signal.resolve_right ?_
      -- a commitment proceeds
      rintro ⟨-, request, listener, hw, -⟩
      obtain ⟨signal, s, frames⟩ := m
      obtain ⟨rfl, -, below, rfl, -⟩ := hd
      cases hs
      cases hw
    · rw [decided.verdict]
      exact nofun
  refine ⟨m₁, hs, state, ?_⟩
  intro exchanges m' course
  obtain ⟨last, explains, fewer⟩ := decided.course ho₁ course
  exact last.final explains (by omega)

/-- A check whose verdict is committed ends with the result of the qualifier. -/
theorem Decides.completes {ctx : Context} {q : Qualifier} {m : Machine} {exchanges : List Exchange}
    {last : State} (hd : Decides q m) (ho : Orderly m) (hc : Committable m)
    (h : Completes ctx m exchanges last) :
    last.result = some q.result ∧ Final ctx q exchanges ⟨.proceed, last, []⟩ := by
  obtain ⟨m₁, hs, -, final⟩ := @Decides.final ctx q m hd ho hc
  have rest := final exchanges _ ((Completes.of_step_iff hs).mp h)
  exact ⟨rest.result rfl, rest⟩

/-- When a directive outside of all inclusions commits its qualifier, the verdict is final: whatever
terms are left and whatever lookups are answered, the qualifier stays, no other directive or
redirection is tried, nothing fails, and the check ends with the result of the qualifier. -/
theorem verdict_final {ctx : Context} {identity : Identity} {receivingDomain : Option String}
    {terms lookups : Nat} {m : Machine} {q : Qualifier}
    (h : Reaches ctx (machineOf identity receivingDomain) terms lookups m) (hd : Decides q m) :
    (∃ m₁, m.step ctx = some m₁ ∧ m₁.state = { m.state with verdict := some q } ∧
      ∀ exchanges m', Course ctx m₁ exchanges m' → Final ctx q exchanges m') ∧
    (∀ exchanges last, Completes ctx m exchanges last →
      last.result = some q.result ∧ Final ctx q exchanges ⟨.proceed, last, []⟩) ∧
    ∀ service, (m.finish ctx service).2.result = some q.result := by
  have ho : Orderly m := h.orderly (.begin identity receivingDomain)
  have hc : Committable m := .reaches h (.begin _)
  refine ⟨hd.final ho hc, fun _ _ => hd.completes ho hc, ?_⟩
  intro service
  obtain ⟨exchanges, completes, -⟩ := completes_finish ctx service m
  exact (hd.completes ho hc completes).1

/-- The first directive of a record fails; the redirection behind it is not followed, and the check
ends with the failure whatever the lookup of the explanation is answered. -/
theorem verdict_final_of_failure :
    ∃ m, Reaches ⟨.standard, [], 10⟩ (machineOf ⟨.v4 1#32, "a@b", "a", "b", "b", 0⟩ none) 0 2 m ∧
      Decides .fail m ∧
      m.frames = [.commitment .fail, .directive ⟨.pass, .all⟩, .modifier (.redirect "c.d"),
        .modifier (.explanation "e.f"), .decoration .neutralWithoutMatch,
        .decoration (.explanation Policy.standardExplanation), .conclusion] ∧
      ∀ service, (m.finish ⟨.standard, [], 10⟩ service).2.result = some .fail := by
  have looked := ((@Reaches.refl ⟨.standard, [], 10⟩
    (machineOf ⟨.v4 1#32, "a@b", "a", "b", "b", 0⟩ none)).step rfl).step rfl |>.step rfl
  have opened := ((((((looked.answer rfl (.ok [])).answer rfl
    (.ok ["v=spf1 -all +all redirect=c.d exp=e.f"])).step rfl).step rfl).step rfl).step rfl).step
    rfl
  obtain ⟨m, reached, signal, matched, frames⟩ : ∃ m, Reaches ⟨.standard, [], 10⟩
      (machineOf ⟨.v4 1#32, "a@b", "a", "b", "b", 0⟩ none) 0 2 m ∧ m.signal = .proceed ∧
      m.state.matched = some true ∧
      m.frames = [.commitment .fail, .directive ⟨.pass, .all⟩, .modifier (.redirect "c.d"),
        .modifier (.explanation "e.f"), .decoration .neutralWithoutMatch,
        .decoration (.explanation Policy.standardExplanation), .conclusion] :=
    ⟨_, opened.step rfl, rfl, rfl, rfl⟩
  have decides : Decides .fail m :=
    ⟨signal, matched, _, frames, by simp [Frame.isRestoration]⟩
  exact ⟨m, reached, decides, frames, (verdict_final reached decides).2.2⟩

end SenderPolicy.Evaluation
