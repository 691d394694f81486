import SenderPolicy.Check
import SenderPolicy.Dns.Zone
import SenderPolicy.Proofs.Course.Case
import SenderPolicy.Proofs.Course.Strictness

/-!
# Letter case of the identities

A sender may be written in capitals or in small letters. If the service tells names apart by their
letters no more than the domain name system does, the check of the one comes to what the check of
the other comes to, and asks for the same names in other letters. There is one place where letter
case could come in: a mechanism without a domain is about the current one, which it reads as a
template, and the letters of a template decide what is escaped. It does not as long as no domain is
evaluated whose name has a percent sign.

## Main definitions

* `Dns.Service.IsFolded`: the records of a name do not depend on its letter case
* `Inquiry.Alike`, `Outcome.Alike`: what differs in letter case only
* `Evaluates`: the domains that a check evaluates

## Main results

* `Dns.Zone.isFolded`: zones in memory tell no names apart by letter case
* `Machine.finish_alike`: two machines come to their ends side by side
* `letter_case_immaterial`: the letter case of the identities does not matter
-/

namespace SenderPolicy

open Text

/-! ## Services -/

namespace Dns

/-- The service has the same records for names that are the same when folded, or fails for both. -/
def Service.IsFolded (service : Service) : Prop :=
  ∀ request request', request.type = request'.type →
    Domain.folded request.host = Domain.folded request'.host →
      (service request).toOption = (service request').toOption

/-- A zone tells no names apart by their letters, unless it is set to fail under one of them. -/
theorem Zone.isFolded {zone : Zone} (h : zone.failures = []) : Service.IsFolded zone.answer := by
  intro request request' types names
  have matched : matchesName request = matchesName request' := by
    unfold matchesName
    rw [types, names]
  unfold answer
  simp only [matched, h, List.contains_nil, Bool.false_eq_true, if_false]
  split <;> rfl

theorem Service.IsFolded.answers {service : Service} (h : service.IsFolded)
    {request request' : Request} (alike : request.Alike request') :
    (service request).toOption = (service request').toOption :=
  h request request' alike.type (Domain.folded_congr alike.host)

end Dns

namespace Evaluation

/-! ## The domains that a check evaluates

The current domain of a check has been evaluated, or is about to be, and so have the domains that
inclusions have set aside. -/

/-- The machine is about to evaluate the policy of the current domain. -/
def Machine.begins (m : Machine) : Bool :=
  match m.signal, m.frames with
  | .proceed, .evaluation :: _ => true
  | _, _ => false

/-- The domain that the frame puts back, if any, satisfies the predicate. -/
def Frame.Recalls (P : String → Prop) : Frame → Prop
  | restoration domain _ _ => P domain
  | _ => True

/-- The current domain satisfies the predicate, unless its evaluation is about to begin; the domains
that were set aside do. -/
structure Machine.Visited (P : String → Prop) (m : Machine) : Prop where
  current : P m.state.domain ∨ m.begins
  aside : ∀ f ∈ m.frames, f.Recalls P

section Visited

variable {P : String → Prop} {ctx : Context} {s : State} {r : Reaction} {below : List Frame}
  {m m' : Machine}

/-- A reaction that leaves the current domain and sets no domain aside. -/
theorem Reaction.visited (hd : r.state.domain = s.domain) (hf : ∀ f ∈ r.frames, f.Recalls P)
    (current : P s.domain) (aside : ∀ f ∈ below, f.Recalls P) : (r.above below).Visited P :=
  ⟨.inl (hd ▸ current), List.forall_mem_append.mpr ⟨hf, aside⟩⟩

theorem Expanded.visited {purpose : Purpose} (h : Expanded s purpose r) (current : P s.domain)
    (aside : ∀ f ∈ below, f.Recalls P) : (r.above below).Visited P := by
  cases h with
  | aside =>
    exact Reaction.visited rfl (List.forall_mem_singleton.mpr trivial) current aside
  | refused | explained | lookup => exact Reaction.visited rfl (List.forall_mem_nil _) current aside
  | included =>
    refine ⟨.inr rfl, ?_⟩
    exact List.forall_mem_cons.mpr ⟨trivial, List.forall_mem_cons.mpr ⟨current, aside⟩⟩
  | redirected =>
    refine ⟨.inr rfl, ?_⟩
    exact List.forall_mem_cons.mpr ⟨trivial, List.forall_mem_cons.mpr ⟨trivial, aside⟩⟩

theorem conclude_domain (s : State) (result : Result) : (s.conclude result).domain = s.domain := by
  unfold State.conclude
  split <;> rfl

theorem commit_domain (s : State) (qualifier : Qualifier) :
    (s.commit qualifier).domain = s.domain := by
  unfold State.commit
  split <;> rfl

/-- A frame leaves the current domain, puts one back that was set aside, or begins the evaluation of
another. -/
theorem Turn.visited {f : Frame} (h : Turn ctx s f r) (current : P s.domain)
    (held : ∀ g ∈ f :: below, g.Recalls P) : (r.above below).Visited P := by
  obtain ⟨own, aside⟩ := List.forall_mem_cons.mp held
  cases h with
  | concluded => exact Reaction.visited (conclude_domain s _) (List.forall_mem_nil _) current aside
  | committed q => exact Reaction.visited (commit_domain s q) (List.forall_mem_nil _) current aside
  | begun =>
    refine Reaction.visited rfl (List.forall_mem_append.mpr ⟨?_, ?_⟩) current aside
    · exact List.forall_mem_map.mpr fun _ _ => trivial
    · exact List.forall_mem_singleton.mpr trivial
  | opened record =>
    refine Reaction.visited rfl ?_ current aside
    exact forall_mem_framesOf record (fun _ => trivial) (fun _ => trivial) fun _ => trivial
  | settled | exhausted =>
    exact Reaction.visited rfl (List.forall_mem_singleton.mpr trivial) current aside
  | entered d _ _ _ _ _ expanded =>
    rw [Reaction.above_onto]
    exact expanded.visited current (List.forall_mem_cons.mpr ⟨trivial, aside⟩)
  | enteredRedirect _ _ _ _ expanded => exact expanded.visited current aside
  | explains _ _ _ _ expanded => exact expanded.visited current aside
  | explainsByDefault _ _ _ _ expanded => exact expanded.visited current aside
  | expanded _ _ _ expanded => exact expanded.visited current aside
  | restored => exact ⟨.inl own, aside⟩
  | _ => exact Reaction.visited rfl (List.forall_mem_nil _) current aside

theorem Heard.visited {l : Listener} (h : Heard ctx s l r) (current : P s.domain)
    (aside : ∀ f ∈ below, f.Recalls P) : (r.above below).Visited P := by
  cases h with
  | explains _ expanded => exact expanded.visited current aside
  | _ => exact Reaction.visited rfl (List.forall_mem_nil _) current aside

/-- Steps keep to the domains of which the predicate holds, if it holds of those whose evaluation is
about to begin. -/
theorem Machine.Visited.step (h : m.Visited P) (begun : m.begins → P m.state.domain)
    (hs : m.step ctx = some m') : m'.Visited P := by
  have current := h.current.elim id begun
  have held := h.aside
  obtain ⟨signal, s, frames⟩ := m
  cases signal with
  | await request listener => cases frames <;> cases hs
  | proceed =>
    cases frames with
    | nil => cases hs
    | cons f below =>
      cases hs
      exact (check_turn ctx s f).visited current held
  | raise cause =>
    cases frames with
    | nil =>
      cases hs
      exact ⟨.inl ((conclude_domain s _).symm ▸ current), List.forall_mem_nil _⟩
    | cons f below =>
      obtain ⟨own, aside⟩ := List.forall_mem_cons.mp held
      cases f with
      | conclusion =>
        cases hs
        exact ⟨.inl ((conclude_domain s _).symm ▸ current), aside⟩
      | restoration =>
        cases hs
        exact ⟨.inl own, aside⟩
      | _ =>
        cases hs
        exact ⟨.inl current, aside⟩

theorem Machine.Visited.resume {request : Dns.Request} {listener : Listener} (h : m.Visited P)
    (hs : m.signal = .await request listener) (answer : Dns.Answer) :
    (m.resume ctx answer).Visited P := by
  obtain ⟨signal, s, frames⟩ := m
  subst hs
  have current : P s.domain := h.current.elim id fun begun => by cases begun
  exact (resume_heard ctx answer s listener).visited current h.aside

end Visited

/-! ## Whole checks -/

/-- The domains whose evaluation begins when a service answers are among those of the predicate. -/
def Machine.Stays (ctx : Context) (service : Dns.Service) (P : String → Prop) (m : Machine) :
    Prop :=
  ∀ exchanges m', Course ctx m exchanges m' → (∀ e ∈ exchanges, e.answer = service e.request) →
    m'.begins → P m'.state.domain

section Whole

variable {P : String → Prop} {ctx : Context} {service : Dns.Service} {m m' n : Machine}

theorem Machine.Stays.step (h : m.Stays ctx service P) (hs : m.step ctx = some m') :
    m'.Stays ctx service P :=
  fun exchanges last course => h exchanges last (.step hs course)

theorem Machine.Stays.resume {request : Dns.Request} {listener : Listener}
    (h : m.Stays ctx service P) (hs : m.signal = .await request listener) :
    (m.resume ctx (service request)).Stays ctx service P :=
  fun exchanges last course answered => h (⟨request, listener, service request⟩ :: exchanges) last
    (.answer hs _ course) (List.forall_mem_cons.mpr ⟨rfl, answered⟩)

/-- The domains whose evaluation begins pass the test, in a check that comes to its end within so
many steps and answers. -/
def Machine.staysWithin (ctx : Context) (service : Dns.Service) (test : String → Bool) :
    Nat → Machine → Bool
  | 0, _ => false
  | fuel + 1, m =>
    (!m.begins || test m.state.domain) &&
      match m.signal with
      | .await request _ => staysWithin ctx service test fuel (m.resume ctx (service request))
      | _ =>
        match m.step ctx with
        | some m' => staysWithin ctx service test fuel m'
        | none => true

theorem Machine.stays_of_staysWithin {test : String → Bool} {fuel : Nat}
    (h : m.staysWithin ctx service test fuel = true) :
    m.Stays ctx service fun domain => test domain = true := by
  -- the test looks one point further ahead with every step and every answer
  induction fuel generalizing m with
  | zero => cases h
  | succ fuel ih =>
    obtain ⟨here, rest⟩ := Bool.and_eq_true_iff.mp h
    intro exchanges last course answered begins
    cases course with
    | refl =>
      rw [begins] at here
      exact here
    | step hs course =>
      split at rest
      · rename_i hw
        simp [step, hw] at hs
      · rw [hs] at rest
        exact ih rest exchanges last course answered begins
    | answer hs answer course =>
      obtain ⟨heard, others⟩ := List.forall_mem_cons.mp answered
      dsimp only at heard
      subst heard
      rw [hs] at rest
      exact ih rest _ last course others begins

/-- Two checks side by side make lookups for alike names, and come to alike ends. -/
theorem Machine.finish_alike (folded : service.IsFolded)
    (stays : m.Stays ctx service fun domain => '%' ∉ domain.toList)
    (visited : m.Visited fun domain => '%' ∉ domain.toList) (h : m.Alike n) :
    List.Forall₂ Dns.Request.Alike (m.finish ctx service).1 (n.finish ctx service).1 ∧
      (m.finish ctx service).2.Alike (n.finish ctx service).2 := by
  -- on the points of the first check that are still to come; the second goes along
  induction m using (continues_wellFounded ctx).induction generalizing n with
  | _ m ih =>
    have begun : m.begins → '%' ∉ m.state.domain.toList :=
      stays [] m (.refl m) (List.forall_mem_nil _)
    have steps : Option.Rel Machine.Alike (m.step ctx) (n.step ctx) :=
      Machine.step_alike (visited.current.elim id begun) h
    cases hs : m.step ctx with
    | some m' =>
      rw [hs] at steps
      cases hn : n.step ctx with
      | none =>
        rw [hn] at steps
        cases steps
      | some n' =>
        rw [hn] at steps
        cases steps with
        | some alike =>
          rw [Machine.finish_of_step hs, Machine.finish_of_step hn]
          exact ih m' (.inl hs) (stays.step hs) (visited.step begun hs) alike
    | none =>
      rcases step_eq_none hs with ⟨request, listener, hw⟩ | ⟨hp, hf⟩
      · obtain ⟨request', listener', hw', requests⟩ := h.exists_await hw
        obtain ⟨rest, last⟩ := ih _ (.inr ⟨request, listener, _, hw, rfl⟩) (stays.resume hw)
          (visited.resume hw _) (Machine.resume_alike hw (folded.answers requests) h)
        rw [Machine.finish_of_await hw, Machine.finish_of_await hw']
        exact ⟨.cons requests rest, last⟩
      · obtain ⟨signal, s, frames⟩ := m
        obtain ⟨signal', t, frames'⟩ := n
        obtain ⟨states, left, signals⟩ := h
        dsimp only at hp hf states left signals
        subst hp hf
        cases signals
        cases left
        rw [Machine.finish_of_end, Machine.finish_of_end]
        exact ⟨.nil, states⟩

end Whole

end Evaluation

open Evaluation

/-- The inquiries are about senders and names that differ in letter case only. -/
structure Inquiry.Alike (inquiry other : Inquiry) : Prop where
  address : inquiry.address = other.address
  sender : Text.Alike inquiry.sender other.sender
  helo : Text.Alike inquiry.helo other.helo
  receivingDomain : inquiry.receivingDomain = other.receivingDomain

/-- The outcomes have one result, and headers and explanations that differ in letter case only. -/
structure Outcome.Alike (outcome other : Outcome) : Prop where
  result : outcome.result = other.result
  header : Text.Alike outcome.header other.header
  explanation : outcome.explanation.map lower = other.explanation.map lower

/-- The check of an inquiry evaluates a domain, with the answers of a service. -/
def Evaluates (ctx : Context) (service : Dns.Service) (timestamp : Int) (inquiry : Inquiry)
    (domain : String) : Prop :=
  ∃ identity exchanges m, inquiry.begin timestamp = .ok identity ∧
    Course ctx (machineOf identity inquiry.receivingDomain) exchanges m ∧
    (∀ e ∈ exchanges, e.answer = service e.request) ∧ m.begins ∧ m.state.domain = domain

/-- The fields are those of alike identities. -/
structure HeaderFields.Alike (fields other : HeaderFields) : Prop where
  address : fields.address = other.address
  sender : Text.Alike fields.sender other.sender
  helo : Text.Alike fields.helo other.helo
  domain : Text.Alike fields.domain other.domain

theorem HeaderFields.alike_ofTexts (address : String) {sender sender' helo helo' : String}
    (hs : Text.Alike sender sender') (hh : Text.Alike helo helo') :
    (HeaderFields.ofTexts address sender helo).Alike (.ofTexts address sender' helo') := by
  refine ⟨rfl, hs, hh, ?_⟩
  unfold HeaderFields.ofTexts
  rcases splitLast?_alike hs with ⟨h, h'⟩ | ⟨_, _, _, _, h, h', -, after⟩
  · rw [h, h']
    exact hh
  · rw [h, h']
    exact after

theorem Identity.Alike.headerFields {i j : Identity} (h : i.Alike j) :
    i.headerFields.Alike j.headerFields :=
  ⟨congrArg Address.write h.client.symm, h.envelopeSender, h.helo, h.senderDomain⟩

/-- Outcomes of one result, with alike fields, are alike. -/
theorem Outcome.alike_ofResult {fields fields' : HeaderFields}
    {explanation explanation' : Option String} (result : Result) (h : fields.Alike fields')
    (he : explanation.map lower = explanation'.map lower) :
    (Outcome.ofResult result fields explanation).Alike (.ofResult result fields' explanation') := by
  obtain ⟨address, sender, helo, domain⟩ := fields
  obtain ⟨address', sender', helo', domain'⟩ := fields'
  obtain ⟨rfl, hs, hh, hd⟩ := h
  dsimp only [Text.Alike] at hs hh hd
  have comment : lower (HeaderFields.comment ⟨address, sender, helo, domain⟩ result) =
      lower (HeaderFields.comment ⟨address, sender', helo', domain'⟩ result) := by
    unfold HeaderFields.comment
    cases result <;> simp only [lower_append, hd]
  refine ⟨rfl, ?_, ?_⟩
  · simp only [Text.Alike, header, ofResult, HeaderFields.text, lower_append, comment, hs, hh]
  · simp only [ofResult]
    split
    · exact he
    · rfl

theorem machineOf_alike {i j : Identity} (h : i.Alike j) (receivingDomain : Option String) :
    (machineOf i receivingDomain).Alike (machineOf j receivingDomain) :=
  ⟨.of j j.senderDomain none h h.senderDomain rfl, forall₂_alike _, .proceed⟩

/-- The letter case of the identities does not matter to a service that does not tell names apart by
it: two inquiries that differ in letter case have the same result, lookups of alike names, and alike
headers and explanations, as long as no domain is evaluated whose name has a percent sign. -/
theorem letter_case_immaterial (ctx : Context) (service : Dns.Service) (timestamp : Int)
    (inquiry inquiry' : Inquiry) (folded : service.IsFolded) (same : inquiry.Alike inquiry')
    (plain : ∀ domain, Evaluates ctx service timestamp inquiry domain → '%' ∉ domain.toList) :
    List.Forall₂ Dns.Request.Alike (check ctx service .blocking timestamp inquiry).1
        (check ctx service .blocking timestamp inquiry').1 ∧
      (check ctx service .blocking timestamp inquiry).2.Alike
        (check ctx service .blocking timestamp inquiry').2 := by
  obtain ⟨address, sender, helo, receivingDomain⟩ := inquiry
  obtain ⟨address', sender', helo', receivingDomain'⟩ := inquiry'
  obtain ⟨rfl, hs, hh, rfl⟩ := same
  dsimp only at hs hh
  rcases Identity.read_alike address timestamp hs hh with
    ⟨cause, unread, unread'⟩ | ⟨i, j, read, read', alike⟩
  · simp only [check, Inquiry.begin, unread, unread']
    exact ⟨.nil, Outcome.alike_ofResult _ (HeaderFields.alike_ofTexts address hs hh) rfl⟩
  · have begun : Inquiry.begin ⟨address, sender, helo, receivingDomain⟩ timestamp = .ok i := by
      rw [Inquiry.begin, read]
    have begun' : Inquiry.begin ⟨address, sender', helo', receivingDomain⟩ timestamp = .ok j := by
      rw [Inquiry.begin, read']
    have visited : (machineOf i receivingDomain).Visited fun domain => '%' ∉ domain.toList :=
      ⟨.inr rfl, List.forall_mem_cons.mpr ⟨trivial, List.forall_mem_singleton.mpr trivial⟩⟩
    obtain ⟨requests, ends⟩ := Machine.finish_alike folded
      (fun exchanges m course answered begins => plain _ ⟨i, exchanges, m, begun, course, answered,
        begins, rfl⟩) visited (machineOf_alike alike receivingDomain)
    rw [check_blocking begun, check_blocking begun']
    refine ⟨requests, ?_⟩
    have explanations := ends.explanation
    generalize ((machineOf i receivingDomain).finish ctx service).2 = last at *
    generalize ((machineOf j receivingDomain).finish ctx service).2 = last' at *
    cases ends with
    | of => exact Outcome.alike_ofResult _ alike.headerFields explanations

/-- A sender in small letters and in capitals, whose domain includes a domain that is named for the
local part, and explains its failures. -/
theorem letter_case_immaterial_of_capitals :
    ∃ (zone : Dns.Zone) (inquiry inquiry' : Inquiry),
      zone.records = [("a.b", .txt, "v=spf1 include:%{l}.%{d} -all exp=e.%{d}"),
        ("u.a.b", .txt, "v=spf1 -all"), ("e.a.b", .txt, "no mail from %{s}")] ∧
      inquiry.sender = "u@a.b" ∧ inquiry'.sender = "U@A.B" ∧
      List.Forall₂ Dns.Request.Alike (check plainReceiver zone.answer .blocking 0 inquiry).1
        (check plainReceiver zone.answer .blocking 0 inquiry').1 ∧
      (check plainReceiver zone.answer .blocking 0 inquiry).2.Alike
        (check plainReceiver zone.answer .blocking 0 inquiry').2 := by
  let zone : Dns.Zone := ⟨[("a.b", .txt, "v=spf1 include:%{l}.%{d} -all exp=e.%{d}"),
    ("u.a.b", .txt, "v=spf1 -all"), ("e.a.b", .txt, "no mail from %{s}")], [], [], 0⟩
  have begun : Inquiry.begin ⟨"0.0.0.1", "u@a.b", "h", none⟩ 0 =
    .ok ⟨.v4 1#32, "u@a.b", "u", "a.b", "h", 0⟩ := rfl
  refine ⟨zone, ⟨"0.0.0.1", "u@a.b", "h", none⟩, ⟨"0.0.0.1", "U@A.B", "H", none⟩, rfl, rfl, rfl,
    letter_case_immaterial plainReceiver zone.answer 0 _ _ (Dns.Zone.isFolded rfl)
      ⟨rfl, by decide, by decide, rfl⟩ ?_⟩
  rintro domain ⟨identity, exchanges, m, begun', course, answered, begins, rfl⟩
  cases begun.symm.trans begun'
  -- the domains that are evaluated: the sender's, and the included one
  have stays := @Machine.stays_of_staysWithin _ zone.answer _
    (fun domain => !domain.toList.contains '%') 100 (by decide +kernel) _ _ course answered begins
  simpa using stays

end SenderPolicy
