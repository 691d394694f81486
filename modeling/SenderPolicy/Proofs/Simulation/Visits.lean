import SenderPolicy.Proofs.Course.Clearing
import SenderPolicy.Proofs.Course.ClientName
import SenderPolicy.Proofs.Simulation.Check

/-!
# Points that a check visits

With the answers of a service a check visits one point after the other. Where direct evaluation
comes to something, the machine clears the frames away that follow it, so that the points of a check
are found by direct evaluation: where a domain is evaluated, where the terms of its record are
tried, and where another domain is evaluated above them.

## Main definitions

* `Visits`: a check that a service answers comes to a point
* `ClientName`: the client's name, as the answers of a service validate it
* `Runs`: a check has come to a point of an evaluation
* `Enters`: a check has entered a term with lookups

## Main results

* `Follows.visits`: frames that follow a computation are cleared away when it has come to something
* `Visits.clientName`: the client's name at a point is the one that the service has
* `Runs.opened`, `Runs.tried`, `Runs.followed`, `Runs.evaluated`: the points along a record
* `Runs.entered`: a term with lookups is counted, and its template put to use
-/

namespace SenderPolicy.Evaluation.Direct

variable {α β : Type} {given : Situation} {origin standing : Standing} {matched : Option Bool}
  {k k' : Knowledge} {start m m' : Machine} {below : List Frame}

/-! ## Points of a check -/

/-- A check that the service answers comes from one point to another. -/
def Visits (given : Situation) (start m : Machine) : Prop :=
  ∃ exchanges, Course given.ctx start exchanges m ∧
    ∀ e ∈ exchanges, e.answer = given.service e.request

namespace Visits

theorem refl (given : Situation) (m : Machine) : Visits given m m :=
  ⟨[], .refl m, List.forall_mem_nil _⟩

theorem trans (h : Visits given start m) (h' : Visits given m m') : Visits given start m' := by
  obtain ⟨exchanges, course, answered⟩ := h
  obtain ⟨exchanges', course', answered'⟩ := h'
  exact ⟨exchanges ++ exchanges', course.trans course',
    List.forall_mem_append.mpr ⟨answered, answered'⟩⟩

theorem step (h : Visits given start m) (hs : m.step given.ctx = some m') :
    Visits given start m' :=
  h.trans ⟨[], .step hs (.refl m'), List.forall_mem_nil _⟩

end Visits

/-! ## Computations that come to something -/

/-- A computation in front of another comes to something if both do. -/
theorem resultOf_bind_eq_ok {x : Eval α} {f : α → Eval β} {b : β}
    (h : resultOf k (x >>= f) = (.ok b, k')) :
    ∃ a k₁, resultOf k x = (.ok a, k₁) ∧ resultOf k₁ (f a) = (.ok b, k') := by
  rw [resultOf_bind] at h
  split at h
  · exact ⟨_, _, ‹_›, h⟩
  · cases h

/-- Frames that follow a computation are cleared away when it has come to something. -/
theorem Follows.visits {r : Reaction} {x : Eval α} {Q : α → Knowledge → State → Prop} {a : α}
    (h : Follows given origin r k x Q) (hx : resultOf k x = (.ok a, k'))
    (running : ∀ s, Q a k' s → s.result = none) (visited : Visits given start (r.above below)) :
    ∃ s, Q a k' s ∧ Grows k k' ∧ Visits given start ⟨.proceed, s, below⟩ := by
  obtain ⟨result, k₁, s, hx', grows, ends, follows⟩ := h
  rw [hx] at hx'
  cases hx'
  refine ⟨s, ends, grows, ?_⟩
  -- the frames by themselves are cleared away, and the end of the check is that of the computation
  obtain ⟨exchanges, last, clears, answered⟩ :=
    exists_clears given.ctx given.service (r.above []) ⟨r.frames, rfl⟩
  have finished := congrArg Prod.snd (follows [])
  simp only [finishAfter, clears.course.finish_eq answered, signalOf, Machine.finish_of_end]
    at finished
  obtain ⟨q, t, frames⟩ := last
  obtain ⟨rfl, idle⟩ := clears.ends
  have upon := clears.upon r.frames rfl below
  cases q with
  | await request listener => cases idle
  | proceed =>
    rw [Machine.finish_of_end] at finished
    cases finished
    exact visited.trans ⟨exchanges, upon.course, answered⟩
  | raise cause =>
    -- a cause would have ended the check with a result
    rw [Machine.finish_of_step rfl, Machine.finish_of_end] at finished
    have concluded : (t.conclude .neutral).result ≠ none := by
      unfold State.conclude
      split
      · exact Option.some_ne_none _
      · simp [*]
    exact absurd ((congrArg State.result finished).trans (running s ends)) concluded

theorem Stands.running {s : State} (h : Stands given origin standing k s) : s.result = none := by
  obtain ⟨⟨matched, rfl⟩, -⟩ := h
  rfl

/-! ## The client's name -/

/-- The client's name, as the answers of a service validate it. -/
def ClientName (identity : Identity) (service : Dns.Service) (name : String) : Prop :=
  (∃ others, service ⟨identity.reverseName, .ptr⟩ = .ok (name :: others) ∧
      Verifies identity (service ⟨name, identity.addressType⟩)) ∨
    name = "unknown" ∧ ∀ first others, service ⟨identity.reverseName, .ptr⟩ = .ok (first :: others) →
      ¬Verifies identity (service ⟨first, identity.addressType⟩)

theorem ClientName.unique {identity : Identity} {service : Dns.Service} {name name' : String}
    (h : ClientName identity service name) (h' : ClientName identity service name') :
    name = name' := by
  rcases h with ⟨others, named, verified⟩ | ⟨rfl, unverified⟩ <;>
    rcases h' with ⟨others', named', verified'⟩ | ⟨rfl, unverified'⟩
  · rw [named] at named'
    cases named'
    rfl
  · exact absurd verified (unverified' _ _ named)
  · exact absurd verified' (unverified _ _ named')
  · rfl

/-- The exchanges that a service answers validate the client's name as the service has it. -/
theorem clientName_of_validation {identity : Identity} {service : Dns.Service}
    {asked : List Exchange} {name : String} (h : Validation identity asked (some name))
    (answered : ∀ e ∈ asked, e.answer = service e.request) : ClientName identity service name := by
  cases h with
  | nameless unnamed =>
    have named := answered _ List.mem_cons_self
    exact .inr ⟨rfl, fun first others h => absurd (named.trans h) (unnamed first others)⟩
  | verified others verifies =>
    simp only [List.forall_mem_cons] at answered
    obtain ⟨named, addresses, -⟩ := answered
    exact .inl ⟨others, named.symm, addresses ▸ verifies⟩
  | unverified first others verifies =>
    simp only [List.forall_mem_cons] at answered
    obtain ⟨named, addresses, -⟩ := answered
    refine .inr ⟨rfl, fun first' others' h => ?_⟩
    cases named.trans h
    exact addresses ▸ verifies

/-- The client's name at a point of a check is the one that the service has. -/
theorem Visits.clientName {receivingDomain : Option String} {name : String}
    (h : Visits given (machineOf given.identity receivingDomain) m)
    (known : m.state.clientDomain = some name) :
    ClientName given.identity given.service name := by
  obtain ⟨exchanges, course, answered⟩ := h
  have begun : Validating (machineOf given.identity receivingDomain) [] :=
    .unasked rfl fun _ _ hs => by cases hs
  have validation := (begun.course course).validation
  rw [known, course.identity] at validation
  exact clientName_of_validation validation fun e he => answered e (List.mem_of_mem_filter he)

/-! ## The points along a record -/

/-- A check that the service answers has come to a point of an evaluation, with an allowance above
the terms with lookups that are left. -/
structure Runs (given : Situation) (receivingDomain : Option String) (allowance : Nat)
    (standing : Standing) (k : Knowledge) (frames : List Frame) : Prop where
  visited : ∃ matched, Visits given (machineOf given.identity receivingDomain)
    ⟨.proceed, standing.state given .nothing matched k, frames⟩
  bounded : k.depth ≤ maxTerms
  allowed : maxTerms < k.depth + allowance

/-- A check that has entered a term with lookups puts the text of the term's template to use. -/
structure Enters (given : Situation) (receivingDomain : Option String) (allowance : Nat)
    (standing : Standing) (purpose : Purpose) (template text : String) (k : Knowledge)
    (frames : List Frame) : Prop where
  visited : ∃ matched, Visits given (machineOf given.identity receivingDomain)
    ((purpose.use given.ctx (.ok text) (standing.state given .nothing matched k)).above frames)
  bounded : k.depth ≤ maxTerms
  allowed : maxTerms < k.depth + allowance
  named : attempt given .domain standing.domain template k = .ok text
  known : ∀ name, k.clientDomain = some name → ClientName given.identity given.service name

namespace Runs

variable {receivingDomain : Option String} {allowance : Nat} {last : Standing} {record : Record}

theorem begin (given : Situation) (receivingDomain : Option String) {allowance : Nat}
    (ha : maxTerms < allowance) :
    Runs given receivingDomain allowance (.ofSender given.identity) (.initial receivingDomain)
      [.evaluation, .conclusion] :=
  ⟨⟨none, .refl given _⟩, Nat.zero_le _, by simpa [Knowledge.initial] using ha⟩

/-- A frame that follows a computation is gone when the computation has come to a standing. -/
theorem behind {f : Frame} {x : Eval Standing}
    (h : Runs given receivingDomain allowance standing k (f :: below))
    (follows : ∀ matched, Follows given standing
      (.leave (standing.state given .nothing matched k) [f]) k x (Stands given standing))
    (hx : resultOf k x = (.ok last, k')) :
    Runs given receivingDomain allowance last k' below := by
  obtain ⟨⟨matched, visited⟩, bounded, allowed⟩ := h
  obtain ⟨s, ⟨⟨matched', rfl⟩, -⟩, grows, visited⟩ :=
    (follows matched).visits hx (fun _ h => h.running) visited
  exact ⟨⟨matched', visited⟩, grows.bounded bounded,
    Nat.lt_of_lt_of_le allowed (Nat.add_le_add_right grows.depth _)⟩

/-- Behind the stages of a domain the terms of its record are tried. -/
theorem opened (h : Runs given receivingDomain allowance origin k (.evaluation :: below))
    (acquired : resultOf k (acquire given origin.domain) = (.ok record, k')) :
    Runs given receivingDomain allowance origin k' (framesOf record ++ below) := by
  obtain ⟨⟨matched, visited⟩, bounded, allowed⟩ := h
  obtain ⟨found, k₁, staged, acquired⟩ := resultOf_bind_eq_ok acquired
  have begun : Visits given (machineOf given.identity receivingDomain)
      ((Reaction.leave (origin.state given .nothing matched k)
        (given.ctx.policy.stages.map .stage)).above (.terms :: below)) := by
    refine visited.step ?_
    simp only [Machine.step, Frame.check, Reaction.above, Reaction.leave, List.append_assoc,
      List.singleton_append]
  obtain ⟨s, ⟨rfl, ht⟩, grows, staged⟩ :=
    follows_acquired.visits staged (by rintro _ ⟨rfl, -⟩; rfl) begun
  obtain ⟨text, found⟩ := found
  cases ht
  cases found with
  | none => cases acquired
  | some record =>
    cases acquired
    exact ⟨⟨matched, staged.step rfl⟩, grows.bounded bounded,
      Nat.lt_of_lt_of_le allowed (Nat.add_le_add_right grows.depth _)⟩

/-- The evaluation of other domains is followed below the allowance. -/
theorem evaluates {frames : List Frame}
    (h : Runs given receivingDomain (allowance + 1) standing k frames) :
    Evaluates given k (evaluate given allowance) := by
  have allowed := h.allowed
  intro origin matched k' hv hk' hb
  exact follows_evaluate allowance hv hb (by omega)

/-- Behind a directive the next term is tried. -/
theorem tried {d : Directive}
    (h : Runs given receivingDomain (allowance + 1) standing k (.directive d :: below))
    (hx : resultOf k (tryDirective given (evaluate given allowance) standing d) =
      (.ok last, k')) :
    Runs given receivingDomain (allowance + 1) last k' below :=
  h.behind (fun _ => .frame ((follows_directive rfl h.evaluates d).mono
    fun _ _ _ _ tries => tries.stands)) hx

/-- Behind a modifier the next term is tried. -/
theorem followed {m : Modifier}
    (h : Runs given receivingDomain (allowance + 1) standing k (.modifier m :: below))
    (hx : resultOf k (followModifier given (evaluate given allowance) standing m) =
      (.ok last, k')) :
    Runs given receivingDomain (allowance + 1) last k' below :=
  h.behind (fun matched => .frame
    (follows_modifier ⟨⟨matched, rfl⟩, fun _ => rfl⟩ h.evaluates m)) hx

/-- Behind the evaluation of a domain lies what has referred to it. -/
theorem evaluated (h : Runs given receivingDomain allowance origin k (.evaluation :: below))
    (hv : origin.verdict = none)
    (hx : resultOf k (evaluate given allowance origin) = (.ok last, k')) :
    Runs given receivingDomain allowance last k' below :=
  h.behind (fun _ => follows_evaluate allowance hv h.bounded h.allowed) hx

end Runs

/-! ## Templates that are put to use -/

section Templates

variable {purpose : Purpose} {template text : String}

/-- A template that comes to a text is put to use. -/
theorem expandTo_of_attempt (hp : purpose.site = .domain)
    (named : attempt given .domain standing.domain template k = .ok text) :
    expandTo given.ctx purpose template (standing.state given .nothing matched k) =
      purpose.use given.ctx (.ok text) (standing.state given .nothing matched k) :=
  expandTo_of_expand given.ctx hp named

/-- Where a template has come to a text, it is put to use: at once, or behind the lookups of the
client's name. -/
theorem visits_use (hp : purpose.site = .domain)
    (visited : Visits given start ((expandTo given.ctx purpose template
      (standing.state given .nothing matched k)).above below))
    (named : resultOf k (target given standing.domain template) = (.ok text, k')) :
    Grows k k' ∧ attempt given .domain standing.domain template k' = .ok text ∧
      Visits given start ((purpose.use given.ctx (.ok text)
        (standing.state given .nothing matched k')).above below) := by
  have settled : k.settle given .domain template = k := if_neg fun h => nomatch h.1
  rw [target, resultOf_expand, settled] at named
  cases ha : attempt given .domain standing.domain template k with
  | ok text' =>
    rw [ha] at named
    cases named
    rw [expandTo_of_attempt hp ha] at visited
    exact ⟨.of_eq rfl, ha, visited⟩
  | error obstacle =>
    rw [ha] at named
    cases obstacle with
    | refused cause => cases named
    | clientDomainUnknown =>
      obtain ⟨⟨⟩, k₁, validated, named⟩ := resultOf_bind_eq_ok named
      have aside : expandTo given.ctx purpose template (standing.state given .nothing matched k) =
          ⟨standing.state given .nothing matched k, [.expansion template purpose],
            .await ⟨given.identity.reverseName, .ptr⟩ .clientNames⟩ :=
        expandTo_of_unknown given.ctx hp ha
      rw [aside] at visited
      have asked : Visits given start
          ((Reaction.await (standing.state given .nothing matched k) given.identity.reverseName .ptr
            .clientNames).above (.expansion template purpose :: below)) := visited
      obtain ⟨s, ⟨rfl, -⟩, grows, behind⟩ :=
        (@follows_validateClient given standing standing .nothing matched k).visits validated
          (by rintro _ ⟨rfl, -⟩; rfl) asked
      -- behind the lookups the template is expanded again
      rw [expandNamed, bind_assoc, resultOf_bind, resultOf_get] at named
      cases ha : attempt given .domain standing.domain template k₁ with
      | ok text' =>
        simp only [ha, pure_bind] at named
        cases named
        refine ⟨grows, ha, ?_⟩
        rw [← expandTo_of_attempt hp ha]
        exact behind.step rfl
      | error obstacle =>
        simp only [ha] at named
        cases obstacle <;> cases named

/-- A term with lookups that has come to something was counted, and its template put to use. -/
theorem Runs.entered {receivingDomain : Option String} {allowance : Nat} {f : Frame}
    {own : List Frame} {tail : String → Eval α} {a : α} (hp : purpose.site = .domain)
    (h : Runs given receivingDomain (allowance + 1) standing k (f :: below))
    (turn : ∀ matched, ∃ matched', f.check given.ctx (standing.state given .nothing matched k) =
      ⟨((standing.state given .nothing matched' k).counted
          (expandTo given.ctx purpose template)).state,
        ((standing.state given .nothing matched' k).counted
          (expandTo given.ctx purpose template)).frames ++ own,
        ((standing.state given .nothing matched' k).counted
          (expandTo given.ctx purpose template)).signal⟩)
    (entered : resultOf k (count >>= fun _ => target given standing.domain template >>= tail) =
      (.ok a, k')) :
    ∃ text k₁, Enters given receivingDomain allowance standing purpose template text k₁
      (own ++ below) ∧ resultOf k₁ (tail text) = (.ok a, k') := by
  obtain ⟨⟨matched, visited⟩, -, allowed⟩ := h
  obtain ⟨matched', turn⟩ := turn matched
  replace visited := visited.step (congrArg (fun r => some (Reaction.above r below)) turn)
  simp only [Reaction.above, List.append_assoc] at visited
  by_cases room : k.depth < maxTerms
  · rw [resultOf_bind, resultOf_count room] at entered
    obtain ⟨text, k₁, reached, rest⟩ := resultOf_bind_eq_ok entered
    have counted : State.counted (standing.state given .nothing matched' k)
        (expandTo given.ctx purpose template) = expandTo given.ctx purpose template
          (standing.state given .nothing matched' { k with depth := k.depth + 1 }) := if_pos room
    rw [counted] at visited
    obtain ⟨grows, named, used⟩ := visits_use hp visited reached
    refine ⟨text, k₁, ⟨⟨matched', used⟩, grows.bounded room, ?_, named, fun name known => ?_⟩, rest⟩
    · have entered : k.depth + 1 ≤ k₁.depth := grows.depth
      omega
    · refine used.clientName ?_
      rw [← known]
      cases purpose <;> rfl
  · rw [resultOf_bind, resultOf_count_of_le (Nat.le_of_not_lt room)] at entered
    cases entered

end Templates

end SenderPolicy.Evaluation.Direct
