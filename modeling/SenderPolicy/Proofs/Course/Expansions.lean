import SenderPolicy.Proofs.Course.Failures

/-!
# Templates of a check

A template that asks for the client's name comes to its text behind at most two exchanges, and the
text is that of the values which are known then. What becomes known later changes nothing about it:
the client's name is validated once, and the receiver's name is settled by what stands for it.

## Main definitions

* `State.Precedes`: a later state knows no less than an earlier one
* `Expands`: what a template comes to, and the state behind its expansion
* `Exchange.explains`: the exchange is about a published explanation

## Main results

* `State.Precedes.expand`: a template that has come to something comes to the same later
* `Completes.of_expandTo`: a check goes on with what a template comes to
-/

namespace SenderPolicy.Macro

/-! ## Values that become known -/

section Values

variable {v w : Values} {localNames : List String} {site : Site} {template : String}

/-- A list comes to the same under two functions, unless the first fails where they differ. -/
theorem mapM_eq_or {α β ε : Type} {f g : α → Except ε β} {e : ε}
    (h : ∀ x, f x = .error e ∨ g x = f x) (xs : List α) :
    xs.mapM f = .error e ∨ xs.mapM g = xs.mapM f := by
  induction xs with
  | nil => exact Or.inr rfl
  | cons x xs ih =>
    rw [List.mapM_cons, List.mapM_cons]
    rcases h x with hx | hx
    · rw [hx]
      exact Or.inl rfl
    · rw [hx]
      cases f x with
      | error e' => exact Or.inr rfl
      | ok y =>
        rcases ih with ih | ih
        · rw [ih]
          exact Or.inl rfl
        · rw [ih]
          exact Or.inr rfl

theorem expandElement_eq_or
    (h : ∀ letter, v.ofLetter localNames site letter = .error .clientDomainUnknown ∨
      w.ofLetter localNames site letter = v.ofLetter localNames site letter) (e : Element) :
    expandElement v localNames site template e = .error .clientDomainUnknown ∨
      expandElement w localNames site template e = expandElement v localNames site template e := by
  cases e with
  | cell content =>
    simp only [expandElement, expandCell]
    cases Cell.read content with
    | none => exact Or.inr rfl
    | some cell =>
      rcases h cell.letter with hl | hl
      · simp only [hl]
        exact Or.inl trivial
      · simp only [hl]
        exact Or.inr trivial
  | _ => exact Or.inr rfl

theorem expandPiece_eq_or
    (h : ∀ letter, v.ofLetter localNames site letter = .error .clientDomainUnknown ∨
      w.ofLetter localNames site letter = v.ofLetter localNames site letter) (piece : String) :
    expandPiece v localNames site piece = .error .clientDomainUnknown ∨
      expandPiece w localNames site piece = expandPiece v localNames site piece := by
  unfold expandPiece
  have elementwise (e : Element) := @expandElement_eq_or v w localNames site piece h e
  rcases mapM_eq_or elementwise (elements piece.toList) with hm | hm
  · rw [hm]
    exact Or.inl rfl
  · rw [hm]
    exact Or.inr rfl

/-- A template that does not ask for the client's name comes to the same with values that differ in
nothing else. -/
theorem expand_eq_of_ofLetter
    (h : ∀ letter, v.ofLetter localNames site letter = .error .clientDomainUnknown ∨
      w.ofLetter localNames site letter = v.ofLetter localNames site letter)
    (known : expand v localNames site template ≠ .error .clientDomainUnknown) :
    expand w localNames site template = expand v localNames site template := by
  cases site with
  | domain =>
    simp only [expand] at known ⊢
    rcases expandPiece_eq_or h template with hp | hp
    · rw [hp] at known
      exact absurd rfl known
    · rw [hp]
  | explanation =>
    simp only [expand] at known ⊢
    rcases mapM_eq_or (expandPiece_eq_or h) ((Text.splitOn ' ' template).filter (· ≠ "")) with
      hm | hm
    · rw [hm] at known
      exact absurd rfl known
    · rw [hm]

end Values

end SenderPolicy.Macro

namespace SenderPolicy.Evaluation

/-- A later state knows no less than an earlier one: the client's name may have become known, and
what stands for the receiver's name is the same. -/
structure State.Precedes (localNames : List String) (s t : State) : Prop where
  identity : t.identity = s.identity
  domain : t.domain = s.domain
  receiver : t.receivingDomain.getD (Macro.fallbackReceivingDomain localNames) =
    s.receivingDomain.getD (Macro.fallbackReceivingDomain localNames)
  client : s.clientDomain = none ∨ t.clientDomain = s.clientDomain

namespace State.Precedes

variable {localNames : List String} {s t u : State}

theorem refl (s : State) : s.Precedes localNames s :=
  ⟨rfl, rfl, rfl, Or.inr rfl⟩

theorem trans (h : s.Precedes localNames t) (h' : t.Precedes localNames u) :
    s.Precedes localNames u where
  identity := h'.identity.trans h.identity
  domain := h'.domain.trans h.domain
  receiver := h'.receiver.trans h.receiver
  client := by
    rcases h.client with hc | hc
    · exact Or.inl hc
    · rcases h'.client with hc' | hc'
      · exact Or.inl (hc ▸ hc')
      · exact Or.inr (hc'.trans hc)

theorem ofLetter (h : s.Precedes localNames t) (site : Macro.Site) (letter : Char) :
    s.values.ofLetter localNames site letter = .error .clientDomainUnknown ∨
      t.values.ofLetter localNames site letter = s.values.ofLetter localNames site letter := by
  obtain ⟨identity, domain, receiver, client⟩ := h
  simp only [Macro.Values.ofLetter, State.values, identity, domain, receiver]
  rcases client with hc | hc
  · simp only [hc]
    split <;> simp
  · simp only [hc]
    exact Or.inr trivial

/-- A template that has come to something comes to the same later. -/
theorem expand (h : s.Precedes localNames t) {site : Macro.Site} {template : String}
    (known : Macro.expand s.values localNames site template ≠ .error .clientDomainUnknown) :
    Macro.expand t.values localNames site template =
      Macro.expand s.values localNames site template :=
  Macro.expand_eq_of_ofLetter (h.ofLetter site) known

end State.Precedes

/-! ## Exchanges on the way to a text -/

/-- The exchange is about a published explanation. -/
def Exchange.explains (e : Exchange) : Bool :=
  match e.listener with
  | .explanationTexts => true
  | _ => false

theorem Exchange.explains_of_ne {e : Exchange} (h : e.listener ≠ .explanationTexts) :
    e.explains = false := by
  unfold Exchange.explains
  split
  · contradiction
  · rfl

/-- What a template comes to, and the state behind its expansion: the client's name and the
receiver's may have become known. -/
structure Expands (ctx : Context) (purpose : Purpose) (template : String) (s : State)
    (expanded : Except Error String) (t : State) : Prop where
  state : ∃ r c, t = { s with receivingDomain := r, clientDomain := c }
  precedes : s.Precedes ctx.localNames t
  expanded : Macro.expand t.values ctx.localNames purpose.site template =
    expanded.mapError .refused

section Expansions

variable {ctx : Context} {s t : State} {purpose : Purpose} {template : String}
  {frames : List Frame} {exchanges : List Exchange} {last : State}

theorem settleReceiver_precedes (s : State) (ctx : Context) (site : Macro.Site)
    (template : String) :
    ∃ r, s.settleReceiver ctx site template = { s with receivingDomain := r } ∧
      s.Precedes ctx.localNames { s with receivingDomain := r } := by
  unfold State.settleReceiver
  split
  · rename_i h
    exact ⟨_, rfl, rfl, rfl, by simp [h.2.1], Or.inr rfl⟩
  · exact ⟨s.receivingDomain, rfl, .refl s⟩

/-- A template comes to something at once, or asks for the client's name. -/
theorem expandTo_cases (ctx : Context) (purpose : Purpose) (template : String) (s : State) :
    (∃ expanded t, Expands ctx purpose template s expanded t ∧
      expandTo ctx purpose template s = purpose.use ctx expanded t) ∨
    ∃ t, s.clientDomain = none ∧ (∃ r, t = { s with receivingDomain := r }) ∧
      s.Precedes ctx.localNames t ∧ expandTo ctx purpose template s =
        ⟨t, [.expansion template purpose], .await ⟨t.identity.reverseName, .ptr⟩ .clientNames⟩ := by
  obtain ⟨r, hr, hp⟩ := settleReceiver_precedes s ctx purpose.site template
  unfold expandTo expandFor
  simp only [hr]
  cases he : Macro.expand (State.values { s with receivingDomain := r }) ctx.localNames
      purpose.site template with
  | ok text => exact Or.inl ⟨.ok text, _, ⟨⟨r, s.clientDomain, rfl⟩, hp, he⟩, rfl⟩
  | error obstacle =>
    cases obstacle with
    | refused cause => exact Or.inl ⟨.error cause, _, ⟨⟨r, s.clientDomain, rfl⟩, hp, he⟩, rfl⟩
    | clientDomainUnknown =>
      exact Or.inr ⟨_, Macro.expand_eq_unknown he, ⟨r, rfl⟩, hp, rfl⟩

/-- The client's name becomes known behind one exchange or two. -/
theorem Completes.of_clientNames
    (h : Completes ctx ⟨.await ⟨s.identity.reverseName, .ptr⟩ .clientNames, s, frames⟩ exchanges
      last) :
    ∃ asked rest name, exchanges = asked ++ rest ∧ (∀ e ∈ asked, e.explains = false) ∧
      Completes ctx ⟨.proceed, { s with clientDomain := some name }, frames⟩ rest last := by
  obtain ⟨answer, rest, rfl, answered⟩ := (of_await_iff rfl).mp h
  -- without a name there is nothing to validate
  have nameless (h : Completes ctx ⟨.proceed, { s with clientDomain := some "unknown" }, frames⟩
      rest last) : ∃ asked rest' name,
        ⟨⟨s.identity.reverseName, .ptr⟩, .clientNames, answer⟩ :: rest = asked ++ rest' ∧
        (∀ e ∈ asked, e.explains = false) ∧
        Completes ctx ⟨.proceed, { s with clientDomain := some name }, frames⟩ rest' last :=
    ⟨[_], rest, "unknown", rfl, List.forall_mem_singleton.mpr rfl, h⟩
  cases answer with
  | error failure => exact nameless answered
  | ok names =>
    cases names with
    | nil => exact nameless answered
    | cons name others =>
      obtain ⟨answer', rest', rfl, validated⟩ := (of_await_iff rfl).mp answered
      exact ⟨[_, _], rest', _, rfl,
        List.forall_mem_cons.mpr ⟨rfl, List.forall_mem_singleton.mpr rfl⟩, validated⟩

/-- A check goes on with what a template comes to. -/
theorem Completes.of_expandTo
    (h : Completes ctx ((expandTo ctx purpose template s).above frames) exchanges last) :
    ∃ asked rest expanded t, exchanges = asked ++ rest ∧ (∀ e ∈ asked, e.explains = false) ∧
      Expands ctx purpose template s expanded t ∧
      Completes ctx ((purpose.use ctx expanded t).above frames) rest last := by
  rcases expandTo_cases ctx purpose template s with ⟨expanded, t, he, hr⟩ |
    ⟨t, unknown, ⟨r, rfl⟩, hp, hr⟩
  · rw [hr] at h
    exact ⟨[], exchanges, expanded, t, rfl, List.forall_mem_nil _, he, h⟩
  · rw [hr] at h
    obtain ⟨asked, rest, name, rfl, plain, named⟩ := of_clientNames h
    rw [of_step_iff rfl] at named
    -- behind the exchanges the template is expanded again, with a name that is known
    rcases expandTo_cases ctx purpose template
        { s with receivingDomain := r, clientDomain := some name } with
      ⟨expanded, t, he, hr⟩ | ⟨t, hn, -⟩
    · obtain ⟨⟨r', c', rfl⟩, precedes, expanded⟩ := he
      have before : s.Precedes ctx.localNames
          { s with receivingDomain := r, clientDomain := some name } :=
        ⟨rfl, rfl, hp.receiver, Or.inl unknown⟩
      refine ⟨asked, rest, _, _, rfl, plain, ⟨⟨r', c', rfl⟩, before.trans precedes, expanded⟩, ?_⟩
      rw [← hr]
      exact named
    · cases hn

end Expansions

end SenderPolicy.Evaluation
