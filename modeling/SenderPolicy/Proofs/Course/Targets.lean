import SenderPolicy.Proofs.Course.Stages

/-!
# What is looked up

A name is looked up for its record only if it is well formed: a domain that a policy includes or
redirects to is refused before its first lookup otherwise. The other names that a template leads to
are looked up as they are. A mechanism without a domain is about the current one, whose name is
expanded as a template too: it stands for itself as long as it has no percent sign, and is shortened
like any other.

## Main definitions

* `implicitLookup`: the lookup of a mechanism without a domain, about a given name

## Main results

* `expandTo_plain`: a template without percent signs stands for itself
* `step_implicit`: the name that a mechanism without a domain is about
* `records_wellFormed`: records are looked up for well-formed names
-/

namespace SenderPolicy.Evaluation

open Text

/-! ## Mechanisms without a domain -/

/-- A template without percent signs is put to use as it is, but for its length. -/
theorem expandTo_plain (ctx : Context) {purpose : Purpose} {template : String} (s : State)
    (hp : purpose.explains = false) (plain : '%' ∉ template.toList) :
    expandTo ctx purpose template s = purpose.use ctx (.ok (Domain.shorten template)) s :=
  expandTo_of_expand ctx (site_of_explains hp) (Macro.expand_plain plain)

/-- The lookup of a mechanism that has no domain of its own and is about the given name. -/
def implicitLookup (s : State) (target : String) : Mechanism → Option (Dns.Request × Listener)
  | .address none lengths => some (⟨target, s.identity.addressType⟩, .addresses lengths)
  | .exchange none lengths => some (⟨target, .mx⟩, .exchanges lengths)
  | .pointer none => some (⟨s.identity.reverseName, .ptr⟩, .pointers target)
  | _ => none

section Implicit

variable {ctx : Context} {s : State} {d : Directive} {request : Dns.Request} {listener : Listener}

/-- A mechanism without a domain is about the current one, shortened like any other. -/
theorem mechanismStep_implicit {mechanism : Mechanism} (room : s.depth < maxTerms)
    (plain : '%' ∉ s.domain.toList)
    (implicit : implicitLookup s (Domain.shorten s.domain) mechanism = some (request, listener)) :
    mechanismStep ctx s mechanism = ⟨s.entered, [], .await request listener⟩ := by
  have counted {purpose : Purpose} (hp : purpose.explains = false) :
      s.counted (expandTo ctx purpose s.domain) =
        purpose.use ctx (.ok (Domain.shorten s.domain)) s.entered := by
    rw [State.counted, if_pos room]
    exact expandTo_plain ctx s.entered hp plain
  cases mechanism with
  | address domain lengths | exchange domain lengths | pointer domain =>
    cases domain with
    | none =>
      cases implicit
      exact counted rfl
    | some domain => cases implicit
  | _ => cases implicit

/-- A directive without a domain asks for the current domain, exactly as it is, if the name has no
percent sign and fits into a lookup. -/
theorem step_implicit {below : List Frame} (undecided : s.verdict = none)
    (room : s.depth < maxTerms) (plain : '%' ∉ s.domain.toList)
    (fits : octets s.domain.toList ≤ Domain.maxOctets)
    (implicit : implicitLookup s s.domain d.mechanism = some (request, listener)) :
    Machine.step ctx ⟨.proceed, s, .directive d :: below⟩ =
      some ⟨.await request listener, { s with matched := none, depth := s.depth + 1 },
        .commitment d.qualifier :: below⟩ := by
  have asked : mechanismStep ctx { s with matched := none } d.mechanism =
      ⟨State.entered { s with matched := none }, [], .await request listener⟩ := by
    refine mechanismStep_implicit room plain ?_
    rw [Domain.shorten_of_le fits]
    exact implicit
  rw [step_directive below undecided, asked]
  rfl

end Implicit

/-- The last directive that a check may enter asks for the addresses of the sender's domain. -/
theorem step_implicit_of_last :
    ∃ m, Machine.step ⟨.standard, [], 10⟩
        ⟨.proceed, { State.initial ⟨.v4 1#32, "a@b", "a", "b", "b", 0⟩ none with depth := 9 },
          [.directive ⟨.pass, .address none ⟨32, 128⟩⟩, .conclusion]⟩ = some m ∧
      m.signal = .await ⟨"b", .a⟩ (.addresses ⟨32, 128⟩) :=
  ⟨_, step_implicit rfl (by decide) (by decide) (by decide) rfl, rfl⟩

/-- A sender's domain may be a template, and then a mechanism without a domain asks for another
name. -/
theorem implicit_target_expanded :
    ∃ identity, Identity.read "0.0.0.1" "a@%\x7bl\x7d.b" "b" 0 = .ok identity ∧
      ∃ terms lookups m m' lengths request listener,
        Reaches ⟨.standard, [], 10⟩ (machineOf identity none) terms lookups m ∧
        m.frames.head? = some (.directive ⟨.pass, .address none lengths⟩) ∧
        m.step ⟨.standard, [], 10⟩ = some m' ∧ m'.signal = .await request listener ∧
        Domain.WellFormed m.state.domain ∧ request.host ≠ m.state.domain := by
  have looked := ((@Reaches.refl ⟨.standard, [], 10⟩
    (machineOf ⟨.v4 1#32, "a@%\x7bl\x7d.b", "a", "%\x7bl\x7d.b", "b", 0⟩ none)).step
      rfl).step rfl |>.step rfl
  have found := (looked.answer rfl (.ok [])).answer rfl (.ok ["v=spf1 a"])
  have opened := (((found.step rfl).step rfl).step rfl).step rfl |>.step rfl
  exact ⟨_, rfl, _, _, _, _, _, ⟨"a.b", .a⟩, _, opened, rfl, rfl, rfl, by decide, by decide⟩

/-! ## Names of records -/

section Records

variable {ctx : Context} {s : State} {below : List Frame}

/-- The evaluation of a malformed name fails before any lookup, also if a table overrides its
record. -/
theorem reaches_malformedDomain (h : ¬Domain.WellFormed s.domain) :
    ∃ s' frames, Reaches ctx ⟨.proceed, s, .evaluation :: below⟩ 0 0
      ⟨.raise (.malformedDomain s.domain), s', frames⟩ := by
  obtain ⟨later, hs, -⟩ := stages_eq_checked ctx.policy
  -- the stage that refuses the name, wherever it comes up
  have refused (t : State) (ht : t.domain = s.domain) (frames : List Frame) :
      Machine.step ctx ⟨.proceed, t, .stage .wellFormed :: frames⟩ =
        some ⟨.raise (.malformedDomain s.domain), t, frames⟩ := by
    simp only [Machine.step, Frame.check, stageStep, ht, if_neg h]
    rfl
  have begun : Machine.step ctx ⟨.proceed, s, .evaluation :: below⟩ =
      some ⟨.proceed, s, (((ctx.policy.overrides.map Policy.Stage.overrides).toList ++
        Policy.Stage.wellFormed :: later).map .stage ++ [.terms]) ++ below⟩ := by
    rw [← hs]
    rfl
  cases ho : ctx.policy.overrides with
  | none =>
    rw [ho] at begun
    exact ⟨_, _, (Reaches.refl.step begun).step (refused s rfl _)⟩
  | some table =>
    rw [ho] at begun
    have overridden : ∃ record,
        stageStep s (.overrides table) = .done { s with record := record } := by
      simp only [stageStep]
      split
      · exact ⟨_, rfl⟩
      · exact ⟨s.record, rfl⟩
    obtain ⟨record, hr⟩ := overridden
    have passed (frames : List Frame) :
        Machine.step ctx ⟨.proceed, s, .stage (.overrides table) :: frames⟩ =
          some ⟨.proceed, { s with record := record }, frames⟩ := by
      simp only [Machine.step, Frame.check, hr]
      rfl
    exact ⟨_, _, ((Reaches.refl.step begun).step (passed _)).step
      (refused { s with record := record } rfl _)⟩

/-- At every point of a check, the record that is awaited is that of a well-formed name; the
evaluation of any other name, be it the sender's or the target of an inclusion or a redirection, has
failed before a lookup. -/
theorem records_wellFormed {identity : Identity} {receivingDomain : Option String}
    {terms lookups : Nat} {m : Machine}
    (reached : Reaches ctx (machineOf identity receivingDomain) terms lookups m) :
    (∀ request listener, m.signal = .await request listener → listener.isAcquiring →
      Domain.WellFormed request.host) ∧
    ∀ s below, m = ⟨.proceed, s, .evaluation :: below⟩ → ¬Domain.WellFormed s.domain →
      ∃ s' frames, Reaches ctx m 0 0 ⟨.raise (.malformedDomain s.domain), s', frames⟩ := by
  refine ⟨fun request listener hs hl => (reached.acquiring.awaited request listener hs hl).2, ?_⟩
  rintro s below rfl hw
  exact reaches_malformedDomain hw

end Records

/-- The target of an inclusion with an empty label is not looked up. -/
theorem records_wellFormed_of_inclusion :
    ∃ terms lookups m s' frames, Reaches ⟨.standard, [], 10⟩
      (machineOf ⟨.v4 1#32, "a..b@c", "a..b", "c", "c", 0⟩ none) terms lookups m ∧
      m.state.domain = "a..b.c" ∧
      Reaches ⟨.standard, [], 10⟩ m 0 0 ⟨.raise (.malformedDomain "a..b.c"), s', frames⟩ := by
  have looked := ((@Reaches.refl ⟨.standard, [], 10⟩
    (machineOf ⟨.v4 1#32, "a..b@c", "a..b", "c", "c", 0⟩ none)).step rfl).step rfl |>.step rfl
  have found := (looked.answer rfl (.ok [])).answer rfl
    (.ok ["v=spf1 include:%\x7bl\x7d.c"])
  have opened := (((found.step rfl).step rfl).step rfl).step rfl |>.step rfl
  have begun := opened.step rfl
  obtain ⟨s', frames, failed⟩ := (records_wellFormed begun).2 _ _ rfl (by decide)
  exact ⟨_, _, _, s', frames, begun, rfl, failed⟩

/-- The target of a mechanism with an empty label is looked up. -/
theorem malformed_target_awaited :
    ∃ identity, Identity.read "0.0.0.1" "a..b@c" "c" 0 = .ok identity ∧
      ∃ terms lookups m request,
        Reaches ⟨.standard, [], 10⟩ (machineOf identity none) terms lookups m ∧
        m.signal = .await request .existence ∧ ¬Domain.WellFormed request.host := by
  have looked := ((@Reaches.refl ⟨.standard, [], 10⟩
    (machineOf ⟨.v4 1#32, "a..b@c", "a..b", "c", "c", 0⟩ none)).step rfl).step rfl |>.step rfl
  have found := (looked.answer rfl (.ok [])).answer rfl
    (.ok ["v=spf1 exists:%\x7bl\x7d.c"])
  have opened := (((found.step rfl).step rfl).step rfl).step rfl |>.step rfl
  exact ⟨_, rfl, _, _, _, ⟨"a..b.c", .a⟩, opened.step rfl, rfl, by decide⟩

end SenderPolicy.Evaluation
