import SenderPolicy.Proofs.Course.Stages

/-!
# Inclusions

An inclusion sets the domain, the explanation and the hearing of explanations aside in a frame, and
evaluates another domain in their place. Whatever that evaluation does, it does in silence: it asks
for no explanation and settles no name of the receiver, and the frames of the inclusions within it
keep the silence. When the frame is reached again, in its turn or by a cause, all that was set aside
is put back.

## Main definitions

* `State.restorationFrame`: what an inclusion sets aside
* `Within`: a machine is reached from another while the frames of a base lie untouched
* `Enclosed`: what holds of a machine inside an inclusion

## Main results

* `Enclosed.step`: a step stays inside an inclusion, or is that of its own frame
* `Enclosed.next`: steps and answers that leave its frames untouched stay inside it
* `inclusion_transparent`: what an inclusion leaves to the policy that includes
-/

namespace SenderPolicy.Evaluation

/-! ## Silence -/

/-- The frame neither explains, nor ends the check, nor lets explanations be heard again. -/
def Frame.isSilent : Frame → Bool
  | conclusion => false
  | restoration _ _ isMuted => isMuted
  | expansion _ purpose => !purpose.explains
  | _ => true

/-- The state is one in which explanations are not heard, of the same check as another: the
identities, the receiver's name and the result are the same. -/
structure State.Silenced (s t : State) : Prop where
  identity : t.identity = s.identity
  receivingDomain : t.receivingDomain = s.receivingDomain
  result : t.result = s.result
  isMuted : t.isMuted = true

/-- The reaction keeps the silence. -/
structure Reaction.Silent (s : State) (r : Reaction) : Prop where
  state : s.Silenced r.state
  frames : ∀ f ∈ r.frames, f.isSilent
  signal : r.signal.explains = false

/-- A reaction that leaves no frames keeps the silence of its state. -/
theorem Reaction.Silent.bare {s : State} {r : Reaction} (state : s.Silenced r.state)
    (frames : r.frames = []) (signal : r.signal.explains = false) : r.Silent s :=
  ⟨state, by rw [frames]; nofun, signal⟩

/-- Mechanisms explain nothing. -/
theorem explains_of_purposeOf {mechanism : Mechanism} {purpose : Purpose}
    (h : purposeOf mechanism = some purpose) : purpose.explains = false := by
  cases mechanism <;> cases h <;> rfl

/-- What is no explanation does not wait for a published one. -/
theorem Purpose.Awaits.explains {purpose : Purpose} {listener : Listener} {request : Dns.Request}
    (h : purpose.Awaits listener) (hp : purpose.explains = false) :
    (Signal.await request listener).explains = false := by
  cases purpose with
  | pointer =>
    obtain ⟨target, rfl⟩ := h
    rfl
  | addresses | exchanges | existence =>
    cases h
    rfl
  | explanationDomain => cases hp
  | inclusion | redirection | explanation | defaultExplanation => cases h

section Turns

variable {ctx : Context} {s t : State} {f : Frame} {r : Reaction}

theorem Expanded.silenced {purpose : Purpose} (he : Expanded t purpose r) (hs : s.Silenced t)
    (hp : purpose.explains = false) : r.Silent s := by
  obtain ⟨identity, receivingDomain, result, isMuted⟩ := hs
  have kept {t' : State} (hi : t'.identity = t.identity)
      (hr : t'.receivingDomain = t.receivingDomain) (ho : t'.result = t.result)
      (hm : t'.isMuted) : s.Silenced t' :=
    ⟨hi.trans identity, hr.trans receivingDomain, ho.trans result, hm⟩
  cases he with
  | aside r template request unknown same hk =>
    refine ⟨kept rfl (hk hp) rfl isMuted, ?_, rfl⟩
    rcases same with rfl | ⟨hp', -, -⟩
    · simpa [Frame.isSilent] using hp
    · rw [hp] at hp'
      cases hp'
  | refused r cause _ _ hk => exact .bare (kept rfl (hk hp) rfl isMuted) rfl rfl
  | explained r explanation hp' =>
    rw [hp] at hp'
    cases hp'
  | lookup r host type listener ha hk => exact .bare (kept rfl (hk hp) rfl isMuted) rfl (ha.explains hp)
  | included r target hk =>
    refine ⟨kept rfl hk rfl rfl, ?_, rfl⟩
    simp [State.beginInclusion, Reaction.leave, Frame.isSilent, isMuted]
  | redirected r target hk =>
    refine ⟨kept rfl hk rfl isMuted, ?_, rfl⟩
    simp [Reaction.leave, Frame.isSilent]

/-- A frame in its turn keeps the silence. -/
theorem Turn.silenced (ht : Turn ctx t f r) (hs : s.Silenced t) (hf : f.isSilent) :
    r.Silent s := by
  have done (t' : State) (h : s.Silenced t') : Reaction.Silent s (.done t') := .bare h rfl rfl
  have failed (t' : State) (cause : Error) (h : s.Silenced t') :
      Reaction.Silent s (.fail t' cause) := .bare h rfl rfl
  have onto {r : Reaction} (h : r.Silent s) (qualifier : Qualifier) :
      (r.onto (.commitment qualifier)).Silent s :=
    ⟨h.state, List.forall_mem_append.mpr ⟨h.frames, by simp [Frame.isSilent]⟩, h.signal⟩
  obtain ⟨identity, receivingDomain, result, isMuted⟩ := hs
  -- the turns of explanations are not taken while explanations are not heard
  cases ht with
  | concluded => cases hf
  | begun =>
    refine ⟨⟨identity, receivingDomain, result, isMuted⟩, fun f hm => ?_, rfl⟩
    simp only [Reaction.leave, List.mem_append, List.mem_map, List.mem_singleton] at hm
    rcases hm with ⟨_, -, rfl⟩ | rfl <;> rfl
  | opened record =>
    exact ⟨⟨identity, receivingDomain, result, isMuted⟩,
      forall_mem_framesOf record (fun _ => rfl) (fun _ => rfl) fun _ => rfl, rfl⟩
  | settled d isMatch =>
    exact onto (done { t with matched := some isMatch }
      ⟨identity, receivingDomain, result, isMuted⟩) d.qualifier
  | exhausted d =>
    exact onto (failed { t with matched := none } _
      ⟨identity, receivingDomain, result, isMuted⟩) d.qualifier
  | entered d purpose r h looks room expanded =>
    exact onto (expanded.silenced ⟨identity, receivingDomain, result, isMuted⟩
      (explains_of_purposeOf looks)) d.qualifier
  | committed qualifier =>
    rcases t.commit_eq qualifier with hc | hc <;> rw [hc] <;>
      exact done _ ⟨identity, receivingDomain, result, isMuted⟩
  | enteredRedirect domain r h room expanded =>
    exact expanded.silenced ⟨identity, receivingDomain, result, isMuted⟩ rfl
  | explains domain r h heard expanded =>
    rw [isMuted] at heard
    cases heard
  | explainsByDefault template r h heard expanded =>
    rw [isMuted] at heard
    cases heard
  | restored domain explanation isMuted => exact done _ ⟨identity, receivingDomain, result, hf⟩
  | arrived => exact done _ ⟨identity, receivingDomain, result, rfl⟩
  | expanded template purpose r expanded =>
    exact expanded.silenced ⟨identity, receivingDomain, result, isMuted⟩
      (by simpa [Frame.isSilent] using hf)
  | _ => exact .bare ⟨identity, receivingDomain, result, isMuted⟩ rfl rfl

/-- A listener in its turn keeps the silence. -/
theorem Heard.silenced {listener : Listener} (hh : Heard ctx t listener r) (hs : s.Silenced t)
    (hl : listener ≠ .explanationTexts) : r.Silent s := by
  obtain ⟨identity, receivingDomain, result, isMuted⟩ := hs
  cases hh with
  | explains => exact absurd rfl hl
  | _ => exact .bare ⟨identity, receivingDomain, result, isMuted⟩ rfl rfl

/-- A cause that is offered to a frame keeps the silence. -/
theorem Frame.catch_silenced {cause : Error} (hs : s.Silenced t) (hf : f.isSilent) :
    s.Silenced (f.catch cause t).1 := by
  obtain ⟨identity, receivingDomain, result, isMuted⟩ := hs
  cases f with
  | conclusion => cases hf
  | restoration domain explanation isMuted => exact ⟨identity, receivingDomain, result, hf⟩
  | _ => exact ⟨identity, receivingDomain, result, isMuted⟩

end Turns

/-! ## Inside an inclusion -/

/-- The frame in which an inclusion sets aside what it is to put back. -/
def State.restorationFrame (s : State) : Frame :=
  .restoration s.domain s.explanation s.isMuted

/-- What is put back, and what is not. -/
theorem State.Silenced.restore {s t : State} (h : s.Silenced t) :
    t.restore s.domain s.explanation s.isMuted =
      { s with
        depth := t.depth, clientDomain := t.clientDomain, verdict := none, matched := t.matched,
        text := t.text, record := t.record } := by
  simp [State.restore, h.identity, h.receivingDomain, h.result]

/-- The machine is reached from another, and the frames of the base lie untouched at the bottom all
the way. -/
inductive Within (ctx : Context) (base : List Frame) (start : Machine) : Machine → Prop
  | refl : Within ctx base start start
  | next {m m' : Machine} (before : Within ctx base start m) (hc : m'.Continues ctx m)
      (kept : base <:+ m'.frames) : Within ctx base start m'

theorem Within.reaches {ctx : Context} {base : List Frame} {start origin m : Machine}
    {terms lookups : Nat} (h : Within ctx base start m)
    (reached : Reaches ctx origin terms lookups start) :
    ∃ terms lookups, Reaches ctx origin terms lookups m := by
  induction h with
  | refl => exact ⟨_, _, reached⟩
  | next _ hc _ ih =>
    obtain ⟨terms, lookups, ih⟩ := ih
    rcases hc with hs | ⟨request, listener, answer, hs, rfl⟩
    · exact ⟨_, _, ih.step hs⟩
    · exact ⟨_, _, ih.answer hs answer⟩

/-- What holds of a machine inside an inclusion that was begun in a state: the frames above the one
that puts back what was set aside keep the silence. -/
structure Enclosed (s : State) (below : List Frame) (m : Machine) : Prop where
  frames : ∃ fs, m.frames = fs ++ s.restorationFrame :: below ∧ ∀ f ∈ fs, f.isSilent
  state : s.Silenced m.state
  signal : m.signal.explains = false

namespace Enclosed

variable {ctx : Context} {s : State} {below : List Frame} {m m' : Machine}

/-- An inclusion begins inside itself. -/
theorem begin (s : State) (target : String) (below : List Frame) :
    Enclosed s below ((s.beginInclusion target).above below) where
  frames := ⟨[.evaluation], rfl, by simp [Frame.isSilent]⟩
  state := ⟨rfl, rfl, rfl, rfl⟩
  signal := rfl

/-- What a reaction that keeps the silence leads to. -/
theorem of_silent {r : Reaction} {fs : List Frame} (h : r.Silent s) (hf : ∀ f ∈ fs, f.isSilent) :
    Enclosed s below (r.above (fs ++ s.restorationFrame :: below)) where
  frames := ⟨r.frames ++ fs, (List.append_assoc _ _ _).symm,
    List.forall_mem_append.mpr ⟨h.frames, hf⟩⟩
  state := h.state
  signal := h.signal

/-- A step inside an inclusion stays inside it, or is the step of the frame that ends it. -/
theorem step (h : Enclosed s below m) (hs : m.step ctx = some m') :
    Enclosed s below m' ∨ m.frames = s.restorationFrame :: below ∧ m'.frames = below := by
  obtain ⟨signal, t, frames⟩ := m
  obtain ⟨⟨fs, rfl, hf⟩, state, -⟩ := h
  cases fs with
  | nil =>
    refine Or.inr ⟨rfl, ?_⟩
    cases signal <;> cases hs <;> rfl
  | cons f fs =>
    rw [List.forall_mem_cons] at hf
    refine Or.inl ?_
    cases signal with
    | await request listener => simp [Machine.step] at hs
    | proceed =>
      simp only [Machine.step, List.cons_append, Option.some.injEq] at hs
      subst hs
      exact of_silent ((check_turn ctx t f).silenced state hf.1) hf.2
    | raise cause =>
      have caught : s.Silenced (f.catch cause t).1 := Frame.catch_silenced state hf.1
      simp only [Machine.step, List.cons_append] at hs
      split at hs
      all_goals
        rename_i hc
        rw [hc] at caught
        cases hs
        exact ⟨⟨fs, rfl, hf.2⟩, caught, rfl⟩

/-- Inside an inclusion, steps and answers that leave its frames untouched stay inside it. -/
theorem next (h : Enclosed s below m) (hc : m'.Continues ctx m)
    (kept : s.restorationFrame :: below <:+ m'.frames) : Enclosed s below m' := by
  obtain ⟨signal, t, frames⟩ := m
  rcases hc with hs | ⟨request, listener, answer, hs, rfl⟩
  · refine (h.step hs).resolve_right fun ⟨_, hf⟩ => ?_
    rw [hf] at kept
    exact absurd kept.length_le (by simp)
  · subst hs
    obtain ⟨⟨fs, rfl, hf⟩, state, signal⟩ := h
    refine of_silent ((resume_heard ctx answer t listener).silenced state ?_) hf
    rintro rfl
    cases signal

theorem of_within {target : String}
    (h : Within ctx (s.restorationFrame :: below) ((s.beginInclusion target).above below) m) :
    Enclosed s below m := by
  induction h with
  | refl => exact .begin s target below
  | next _ hc kept ih => exact ih.next hc kept

end Enclosed

/-! ## Behind an inclusion -/

/-- An inclusion is transparent to the policy that includes. Whatever the evaluation of the included
domain does and is answered, the frames below stay untouched until the frame of the inclusion itself
takes its step. Reached in its turn, it leaves the state in which the inclusion was begun, with a
match if the included policy has committed a pass; reached by a cause, it hands the cause on, and
puts back the same, but for what was found of a record. The number of terms and the client's name
are not put back. -/
theorem inclusion_transparent {ctx : Context} {identity : Identity}
    {receivingDomain : Option String} {terms lookups : Nat} {m m₁ m₂ : Machine} {s : State}
    {target : String} {below : List Frame}
    (reached : Reaches ctx (machineOf identity receivingDomain) terms lookups m)
    (begins : m.step ctx = some ((s.beginInclusion target).above below))
    (inside : Within ctx (s.restorationFrame :: below) ((s.beginInclusion target).above below) m₁)
    (ends : m₁.step ctx = some m₂) (left : ¬s.restorationFrame :: below <:+ m₂.frames) :
    m₁.frames = s.restorationFrame :: below ∧ m₂.frames = below ∧
    (m₁.signal = .proceed ∧ m₂.signal = .proceed ∧
        m₂.state =
          { s with
            depth := m₂.state.depth, clientDomain := m₂.state.clientDomain, verdict := none,
            matched := some (m₁.state.verdict = some .pass), text := none, record := none } ∨
      ∃ cause, m₁.signal = .raise cause ∧
        m₂.signal = .raise (escalate (.includedWithoutPolicy m₁.state.domain) cause) ∧
        m₂.state =
          { s with
            depth := m₂.state.depth, clientDomain := m₂.state.clientDomain, verdict := none,
            matched := m₂.state.matched, text := m₂.state.text, record := m₂.state.record }) := by
  have enclosed : Enclosed s below m₁ := .of_within inside
  obtain ⟨hf, hb⟩ := (enclosed.step ends).resolve_left fun h => left <| by
    obtain ⟨fs, hf, -⟩ := h.frames
    exact ⟨fs, hf.symm⟩
  refine ⟨hf, hb, ?_⟩
  obtain ⟨terms, lookups, reached₁⟩ := inside.reaches (reached.step begins)
  have acquiring := reached₁.acquiring
  have restored := enclosed.state.restore
  obtain ⟨signal, t, frames⟩ := m₁
  subst hf
  cases signal with
  | await request listener => simp [Machine.step] at ends
  | proceed =>
    -- in its turn, the frame has no stage and no terms above it
    have ha : Apart (s.restorationFrame :: below) := apart_cons below rfl
    have hn : ¬(⟨.proceed, t, s.restorationFrame :: below⟩ : Machine).IsOver := fun ended => by
      cases ended.turns
    have text := acquiring.text_eq_none hn ha
    have record := acquiring.record_eq_none hn ha
    cases ends
    refine Or.inl ⟨rfl, rfl, ?_⟩
    simp only [Frame.check, State.restorationFrame, Reaction.above, Reaction.done, restored, text,
      record]
  | raise cause =>
    cases ends
    exact Or.inr ⟨cause, rfl, rfl, by simp only [restored]⟩

/-- An included policy that passes is a match for the one that includes it, whose domain is put
back. -/
theorem inclusion_transparent_of_pass :
    ∃ base start m₁ m₂,
      Within ⟨{ Policy.standard with defaultExplanation := none }, [], 10⟩ base start m₁ ∧
      m₁.step ⟨{ Policy.standard with defaultExplanation := none }, [], 10⟩ = some m₂ ∧
      m₁.state.domain = "c.d" ∧ m₁.state.verdict = some .pass ∧
      m₂.state.domain = "b" ∧ m₂.state.matched = some true := by
  -- the record of the sender's domain, up to its inclusion
  have looked := ((@Reaches.refl ⟨{ Policy.standard with defaultExplanation := none }, [], 10⟩
    (machineOf ⟨.v4 1#32, "a@b", "a", "b", "b", 0⟩ none)).step rfl).step rfl |>.step rfl
  have reached := ((((looked.answer rfl (.ok [])).answer rfl
    (.ok ["v=spf1 include:c.d"])).step rfl).step rfl).step rfl |>.step rfl
  -- the record of the included domain, with the frames that lie above the inclusion's own
  have begun := @Within.refl ⟨{ Policy.standard with defaultExplanation := none }, [], 10⟩
    (.restoration "b" none false ::
      [.commitment .pass, .decoration .neutralWithoutMatch, .conclusion])
    ((State.beginInclusion
      { State.initial ⟨.v4 1#32, "a@b", "a", "b", "b", 0⟩ none with depth := 1 } "c.d").above
      [.commitment .pass, .decoration .neutralWithoutMatch, .conclusion])
  have asked := ((begun.next (Or.inl rfl) ⟨[_, _, _, _, _, _], rfl⟩).next (Or.inl rfl)
    ⟨[_, _, _, _, _], rfl⟩).next (Or.inl rfl) ⟨[_, _, _, _], rfl⟩
  have found := (asked.next (Or.inr ⟨_, _, .ok [], rfl, rfl⟩) ⟨[_, _, _, _], rfl⟩).next
    (Or.inr ⟨_, _, .ok ["v=spf1 +all"], rfl, rfl⟩) ⟨[_, _, _, _], rfl⟩
  have opened := (((found.next (Or.inl rfl) ⟨[_, _, _], rfl⟩).next (Or.inl rfl)
    ⟨[_, _], rfl⟩).next (Or.inl rfl) ⟨[_], rfl⟩).next (Or.inl rfl) ⟨[_, _], rfl⟩
  have passed := ((opened.next (Or.inl rfl) ⟨[_, _], rfl⟩).next (Or.inl rfl) ⟨[_], rfl⟩).next
    (Or.inl rfl) ⟨[], rfl⟩
  obtain ⟨-, -, ⟨-, -, hs⟩ | ⟨_, h, -⟩⟩ := inclusion_transparent reached rfl passed rfl fun h =>
    Nat.lt_irrefl _ h.length_le
  · exact ⟨_, _, _, _, passed, rfl, rfl, rfl, congrArg State.domain hs, congrArg State.matched hs⟩
  · cases h

end SenderPolicy.Evaluation
