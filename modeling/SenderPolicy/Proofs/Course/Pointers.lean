import SenderPolicy.Proofs.Course.ClientName
import SenderPolicy.Proofs.Domain.Shortening

/-!
# The search for the client among its names

A `ptr` mechanism looks the client's names up in the reverse tree, and then the addresses of those
of them that lie within its target, one after the other, until an answer contains the client's
address. Nothing on the way is a failure: a lookup that fails names nothing, or verifies nothing.

Whether a name lies within a domain is decided on the texts of both. It comes to the same as
comparing them label by label from the right, also where labels are empty.

## Main definitions

* `namesWithin`: the names of an answer that are within the target and the limit
* `searchExchanges`: the lookups of the addresses of names, one after the other, with the answers
* `Searched`: how far the search among names has come
* `Sought`: how far the search for the client below a target has come

## Main results

* `Domain.isWithin_iff`: a name lies within a domain if its labels end with those of the domain
* `nextPointer_course`: the search among names, all the way
* `pointer_course`: a `ptr` mechanism from its target on
* `pointer_directive_course`: a `ptr` directive from its turn on
-/

namespace SenderPolicy

/-! ## Labels of names within a domain -/

namespace Domain

open Text

/-- A name lies within a domain if its labels end with those of the domain. -/
theorem isWithin_iff {name domain : String} : isWithin name domain = true ↔
    labels (folded domain).toList <:+ labels (folded name).toList := by
  rw [isWithin, Bool.or_eq_true, beq_iff_eq, List.isSuffixOf_iff_suffix, ← isRest_iff, eq_comm,
    ← String.toList_inj]
  exact or_congr_right (exists_congr fun front => eq_comm)

end Domain

namespace Evaluation

/-! ## Names and lookups of a search -/

/-- The names of an answer that count: those within the limit whose labels end with the labels of
the target. The limit is on the answer, also on its names outside the target. -/
def namesWithin (limit : Nat) (target : String) : Dns.Answer → List String
  | .error _ => []
  | .ok names => (names.take limit).filter fun name =>
      Domain.labels (Domain.folded target).toList <:+ Domain.labels (Domain.folded name).toList

/-- The lookups of the addresses of names, one after the other, as far as there are answers. -/
def searchExchanges (identity : Identity) : List String → List Dns.Answer → List Exchange
  | name :: names, answer :: answers =>
    ⟨⟨name, identity.addressType⟩, .pointerAddresses names, answer⟩ ::
      searchExchanges identity names answers
  | _, _ => []

theorem searchExchanges_nil (identity : Identity) (names : List String) :
    searchExchanges identity names [] = [] := by
  cases names <;> rfl

variable {ctx : Context} {s : State} {names : List String} {frames : List Frame}
  {exchanges : List Exchange} {m : Machine} {answer : Dns.Answer}

/-- How far a search among names has come: the addresses of the first names were looked up, and none
but the last of the answers contains the client's. Either none at all does, and the next name is
asked for; or one does, or no name is left, and the check goes on with a match or without one. -/
structure Searched (ctx : Context) (s : State) (frames : List Frame) (names : List String)
    (answers : List Dns.Answer) (rest : List Exchange) (m : Machine) : Prop where
  length_le : answers.length ≤ names.length
  unverified : ∀ answer ∈ answers.dropLast, ¬ Verifies s.identity answer
  outcome :
    (rest = [] ∧ (∀ answer ∈ answers, ¬ Verifies s.identity answer) ∧
      ∃ name later, names.drop answers.length = name :: later ∧
        m = ⟨.await ⟨name, s.identity.addressType⟩ (.pointerAddresses later), s, frames⟩) ∨
    ∃ found : Bool, (found = true ↔ ∃ answer ∈ answers, Verifies s.identity answer) ∧
      (found = false → answers.length = names.length) ∧
      Course ctx ⟨.proceed, { s with matched := some found }, frames⟩ rest m

/-! ## The search, lookup by lookup -/

/-- A check that awaits an answer has not moved, or goes on with the answer. -/
theorem Course.of_await_iff {request : Dns.Request} {listener : Listener}
    (hs : m.signal = .await request listener) {m' : Machine} :
    Course ctx m exchanges m' ↔ (exchanges = [] ∧ m' = m) ∨ ∃ answer rest,
      exchanges = ⟨request, listener, answer⟩ :: rest ∧ Course ctx (m.resume ctx answer) rest m' := by
  constructor
  · intro h
    cases h with
    | refl => exact .inl ⟨rfl, rfl⟩
    | step hs' => simp [Machine.step, hs] at hs'
    | answer hw a rest =>
      rw [hs] at hw
      cases hw
      exact .inr ⟨a, _, rfl, rest⟩
  · rintro (⟨rfl, rfl⟩ | ⟨a, rest, rfl, h⟩)
    · exact .refl _
    · exact .answer hs a h

theorem pointersAnswered_eq (ctx : Context) (target : String) (answer : Dns.Answer) (s : State) :
    pointersAnswered ctx target answer s =
      nextPointer s (namesWithin ctx.recordLimit target answer) := by
  cases answer with
  | error failure => rfl
  | ok names =>
    have same : (fun name => Domain.isWithin name target) = fun name => decide
        (Domain.labels (Domain.folded target).toList <:+
          Domain.labels (Domain.folded name).toList) := by
      funext name
      rw [Bool.eq_iff_iff, Domain.isWithin_iff, decide_eq_true_iff]
    simp only [pointersAnswered, same, namesWithin]

theorem pointerAddressesAnswered_of_verifies (h : Verifies s.identity answer) :
    pointerAddressesAnswered names answer s = s.settle true := by
  obtain ⟨addresses, rfl, ha⟩ := h
  simp only [pointerAddressesAnswered, if_pos ha]

/-- Addresses of others, and a lookup that fails, lead to the next name. -/
theorem pointerAddressesAnswered_of_not (h : ¬ Verifies s.identity answer) :
    pointerAddressesAnswered names answer s = nextPointer s names := by
  cases answer with
  | error failure => rfl
  | ok addresses =>
    have ha : ¬ addresses.any s.identity.isClient = true := fun ha => h ⟨addresses, rfl, ha⟩
    simp only [pointerAddressesAnswered, if_neg ha]

namespace Searched

variable {name : String} {answers : List Dns.Answer} {rest : List Exchange}

/-- Without names the check goes on without a match. -/
theorem nil_iff : Searched ctx s frames [] answers rest m ↔
    answers = [] ∧ Course ctx ⟨.proceed, { s with matched := some false }, frames⟩ rest m := by
  constructor
  · intro h
    obtain rfl : answers = [] := List.length_eq_zero_iff.mp (Nat.le_zero.mp h.length_le)
    obtain ⟨-, -, name, later, left, -⟩ | ⟨found, hfound, -, course⟩ := h.outcome
    · cases left
    · obtain rfl : found = false := by simpa using hfound
      exact ⟨rfl, course⟩
  · rintro ⟨rfl, course⟩
    exact ⟨Nat.le_refl _, nofun, .inr ⟨false, by simp, fun _ => rfl, course⟩⟩

/-- At first the first name is asked for. -/
theorem unasked_iff : Searched ctx s frames (name :: names) [] rest m ↔ rest = [] ∧
    m = ⟨.await ⟨name, s.identity.addressType⟩ (.pointerAddresses names), s, frames⟩ := by
  constructor
  · intro h
    obtain ⟨hr, -, first, later, left, hm⟩ | ⟨found, hfound, hleft, -⟩ := h.outcome
    · cases left
      exact ⟨hr, hm⟩
    · obtain rfl : found = false := by simpa using hfound
      cases hleft rfl
  · rintro ⟨hr, hm⟩
    exact ⟨Nat.zero_le _, nofun, .inl ⟨hr, nofun, name, names, rfl, hm⟩⟩

/-- An answer with the client's address is the last one, and the check goes on with a match. -/
theorem of_verifies_iff (h : Verifies s.identity answer) :
    Searched ctx s frames (name :: names) (answer :: answers) rest m ↔
      answers = [] ∧ Course ctx ⟨.proceed, { s with matched := some true }, frames⟩ rest m := by
  constructor
  · intro searched
    have last : answers = [] := by
      by_contra hne
      refine searched.unverified answer ?_ h
      rw [List.dropLast_cons_of_ne_nil hne]
      exact List.mem_cons_self
    obtain ⟨-, none, -⟩ | ⟨found, hfound, -, course⟩ := searched.outcome
    · exact absurd h (none answer List.mem_cons_self)
    · obtain rfl : found = true := hfound.mpr ⟨answer, List.mem_cons_self, h⟩
      exact ⟨last, course⟩
  · rintro ⟨rfl, course⟩
    exact ⟨Nat.succ_le_succ (Nat.zero_le _), nofun,
      .inr ⟨true, by simpa using h, nofun, course⟩⟩

/-- Any other answer leaves the search to the names behind. -/
theorem of_not_iff (h : ¬ Verifies s.identity answer) :
    Searched ctx s frames (name :: names) (answer :: answers) rest m ↔
      Searched ctx s frames names answers rest m := by
  have earlier : (∀ a ∈ (answer :: answers).dropLast, ¬ Verifies s.identity a) ↔
      ∀ a ∈ answers.dropLast, ¬ Verifies s.identity a := by
    cases answers with
    | nil => simp
    | cons a answers => simp [h]
  have all : (∀ a ∈ answer :: answers, ¬ Verifies s.identity a) ↔
      ∀ a ∈ answers, ¬ Verifies s.identity a := by simp [h]
  have one : (∃ a ∈ answer :: answers, Verifies s.identity a) ↔
      ∃ a ∈ answers, Verifies s.identity a := by simp [h]
  constructor
  · rintro ⟨hle, hun, outcome⟩
    rw [all, one, List.length_cons, List.drop_succ_cons, List.length_cons, Nat.succ_inj] at outcome
    exact ⟨Nat.le_of_succ_le_succ hle, earlier.mp hun, outcome⟩
  · rintro ⟨hle, hun, outcome⟩
    refine ⟨Nat.succ_le_succ hle, earlier.mpr hun, ?_⟩
    rw [all, one, List.length_cons, List.drop_succ_cons, List.length_cons, Nat.succ_inj]
    exact outcome

end Searched

/-- The search among names, all the way. -/
theorem nextPointer_course : Course ctx ((nextPointer s names).above frames) exchanges m ↔
    ∃ answers rest, exchanges = searchExchanges s.identity names answers ++ rest ∧
      Searched ctx s frames names answers rest m := by
  induction names generalizing exchanges with
  | nil =>
    show Course ctx ⟨.proceed, { s with matched := some false }, frames⟩ exchanges m ↔ _
    constructor
    · intro course
      exact ⟨[], exchanges, rfl, Searched.nil_iff.mpr ⟨rfl, course⟩⟩
    · rintro ⟨answers, rest, rfl, searched⟩
      exact (Searched.nil_iff.mp searched).2
  | cons name names ih =>
    have awaits : ((nextPointer s (name :: names)).above frames).signal =
        .await ⟨name, s.identity.addressType⟩ (.pointerAddresses names) := rfl
    have resumed (answer : Dns.Answer) :
        ((nextPointer s (name :: names)).above frames).resume ctx answer =
          (pointerAddressesAnswered names answer s).above frames := rfl
    rw [Course.of_await_iff awaits]
    constructor
    · rintro (⟨rfl, rfl⟩ | ⟨answer, rest, rfl, course⟩)
      · exact ⟨[], [], rfl, Searched.unasked_iff.mpr ⟨rfl, rfl⟩⟩
      · rw [resumed] at course
        by_cases h : Verifies s.identity answer
        · rw [pointerAddressesAnswered_of_verifies h] at course
          refine ⟨[answer], rest, ?_, (Searched.of_verifies_iff h).mpr ⟨rfl, course⟩⟩
          rw [searchExchanges, searchExchanges_nil, List.singleton_append]
        · rw [pointerAddressesAnswered_of_not h] at course
          obtain ⟨answers, later, rfl, searched⟩ := ih.mp course
          exact ⟨answer :: answers, later, rfl, (Searched.of_not_iff h).mpr searched⟩
    · rintro ⟨answers, rest, rfl, searched⟩
      cases answers with
      | nil =>
        obtain ⟨rfl, rfl⟩ := Searched.unasked_iff.mp searched
        exact .inl ⟨rfl, rfl⟩
      | cons answer answers =>
        refine .inr ⟨answer, _, rfl, ?_⟩
        rw [resumed]
        by_cases h : Verifies s.identity answer
        · obtain ⟨rfl, course⟩ := (Searched.of_verifies_iff h).mp searched
          rw [pointerAddressesAnswered_of_verifies h, searchExchanges_nil]
          exact course
        · rw [pointerAddressesAnswered_of_not h]
          exact ih.mpr ⟨answers, rest, rfl, (Searched.of_not_iff h).mp searched⟩

/-- How far the search for the client below a target has come: the client's names are asked for, or
the search among those that count is under way. -/
inductive Sought (ctx : Context) (target : String) (s : State) (frames : List Frame) :
    List Exchange → Machine → Prop
  | asks : Sought ctx target s frames []
      ⟨.await ⟨s.identity.reverseName, .ptr⟩ (.pointers target), s, frames⟩
  | searches {first : Dns.Answer} {answers : List Dns.Answer} {rest : List Exchange} {m : Machine}
      (searched : Searched ctx s frames (namesWithin ctx.recordLimit target first) answers rest m) :
      Sought ctx target s frames
        (⟨⟨s.identity.reverseName, .ptr⟩, .pointers target, first⟩ ::
          (searchExchanges s.identity (namesWithin ctx.recordLimit target first) answers ++ rest)) m

/-- The search for the client begins when the target is known. -/
theorem course_iff_sought {target : String} :
    Course ctx ((Purpose.pointer.use ctx (.ok target) s).above frames) exchanges m ↔
      Sought ctx target s frames exchanges m := by
  have awaits : ((Purpose.pointer.use ctx (.ok target) s).above frames).signal =
      .await ⟨s.identity.reverseName, .ptr⟩ (.pointers target) := rfl
  have resumed (answer : Dns.Answer) :
      ((Purpose.pointer.use ctx (.ok target) s).above frames).resume ctx answer =
        (nextPointer s (namesWithin ctx.recordLimit target answer)).above frames := by
    rw [← pointersAnswered_eq]
    rfl
  rw [Course.of_await_iff awaits]
  constructor
  · rintro (⟨rfl, rfl⟩ | ⟨first, _, rfl, course⟩)
    · exact .asks
    · rw [resumed] at course
      obtain ⟨answers, rest, rfl, searched⟩ := nextPointer_course.mp course
      exact .searches searched
  · intro sought
    cases sought with
    | asks => exact .inl ⟨rfl, rfl⟩
    | searches searched =>
      refine .inr ⟨_, _, rfl, ?_⟩
      rw [resumed]
      exact nextPointer_course.mpr ⟨_, _, rfl, searched⟩

/-- A `ptr` mechanism from its target on: the client's names are asked for, and whatever the answer
is, the search among those that count follows. -/
theorem pointer_course (ctx : Context) (s : State) (target : String) (frames : List Frame)
    (exchanges : List Exchange) (m : Machine) :
    Course ctx ((Purpose.pointer.use ctx (.ok target) s).above frames) exchanges m ↔
      (exchanges = [] ∧
        m = ⟨.await ⟨s.identity.reverseName, .ptr⟩ (.pointers target), s, frames⟩) ∨
      ∃ first answers rest, exchanges =
          ⟨⟨s.identity.reverseName, .ptr⟩, .pointers target, first⟩ ::
            (searchExchanges s.identity (namesWithin ctx.recordLimit target first) answers ++ rest) ∧
        Searched ctx s frames (namesWithin ctx.recordLimit target first) answers rest m := by
  rw [course_iff_sought]
  constructor
  · intro sought
    cases sought with
    | asks => exact .inl ⟨rfl, rfl⟩
    | searches searched => exact .inr ⟨_, _, _, rfl, searched⟩
  · rintro (⟨rfl, rfl⟩ | ⟨first, answers, rest, rfl, searched⟩)
    · exact .asks
    · exact .searches searched

/-! ## The directive -/

/-- A `ptr` directive that is tried, all the way: its turn is still to come; or its target waits for
the client's name, which is being validated; or the target has come to something behind the
exchanges of the validation. A target that cannot be expanded is a cause, and below any other the
client is sought, above the frame that commits the qualifier. -/
theorem pointer_directive_course {qualifier : Qualifier} {spec : Option String}
    (undecided : s.verdict = none) (room : s.depth < maxTerms)
    (course : Course ctx ⟨.proceed, s, .directive ⟨qualifier, .pointer spec⟩ :: frames⟩
      exchanges m) :
    (exchanges = [] ∧ m = ⟨.proceed, s, .directive ⟨qualifier, .pointer spec⟩ :: frames⟩) ∨
    ((∀ e ∈ exchanges, e.validates = true) ∧ Deferred ctx .pointer (spec.getD s.domain)
      (State.entered { s with matched := none }) (.commitment qualifier :: frames) m) ∨
    ∃ asked rest expanded t, exchanges = asked ++ rest ∧ (∀ e ∈ asked, e.validates = true) ∧
      Expands ctx .pointer (spec.getD s.domain) (State.entered { s with matched := none })
        expanded t ∧
      (∀ cause, expanded = .error cause →
        Course ctx ⟨.raise cause, t, .commitment qualifier :: frames⟩ rest m) ∧
      ∀ target, expanded = .ok target →
        Sought ctx target t (.commitment qualifier :: frames) rest m := by
  cases course with
  | refl => exact .inl ⟨rfl, rfl⟩
  | answer hs => cases hs
  | step hs entered =>
    rw [step_entered frames undecided room rfl] at hs
    cases hs
    refine .inr ?_
    obtain waits | ⟨asked, rest, _, rfl, ⟨expanded, t, validates, expands, rfl, -⟩, used⟩ :=
      expandTo_course entered
    · exact .inl waits
    · refine .inr ⟨asked, rest, expanded, t, rfl, validates, expands, ?_, ?_⟩
      · rintro cause rfl
        exact used
      · rintro target rfl
        exact course_iff_sought.mp used

/-- A name of another domain comes before one of the sender's, and is not looked up. -/
theorem pointer_directive_course_of_stranger :
    ∃ exchanges last, Completes ⟨.standard, [], 10⟩
        (machineOf ⟨.v4 1#32, "a@b", "a", "b", "b", 0⟩ none) exchanges last ∧
      exchanges.map (·.request) =
        [⟨"b", .spf⟩, ⟨"b", .txt⟩, ⟨"1.0.0.0.in-addr.arpa", .ptr⟩, ⟨"n.b", .a⟩] ∧
      exchanges[2]?.map (·.answer) = some (.ok ["n.c", "n.b"]) ∧
      (outcomeOf ⟨.v4 1#32, "a@b", "a", "b", "b", 0⟩ (some last)).result = .pass := by
  -- the record of the sender's domain, up to its first directive
  have answered := ((((((@Course.refl ⟨.standard, [], 10⟩
    (machineOf ⟨.v4 1#32, "a@b", "a", "b", "b", 0⟩ none)).snoc rfl).snoc rfl).snoc rfl).snoc_answer
    rfl (.ok [])).snoc_answer rfl (.ok ["v=spf1 ptr -all"]))
  have reached := ((((answered.snoc rfl).snoc rfl).snoc rfl).snoc rfl).snoc rfl
  have looked := ((reached.snoc (step_entered _ rfl (by decide) rfl)).snoc_answer rfl
    (.ok ["n.c", "n.b"])).snoc_answer rfl (.ok ["0.0.0.1"])
  have concluded := ((((looked.snoc rfl).snoc rfl).snoc rfl).snoc rfl).snoc rfl
  exact ⟨_, _, concluded, rfl, rfl, rfl⟩

end Evaluation

end SenderPolicy
