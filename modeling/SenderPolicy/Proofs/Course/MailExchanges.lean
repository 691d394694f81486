import SenderPolicy.Proofs.Course.Failures
import SenderPolicy.Proofs.Dns.Responses

/-!
# The search for the client among mail exchanges

An `mx` mechanism looks the exchanges of its domain up, and then the addresses of the first of them,
one exchange after the other. It stops at the first answer that decides: one with an address whose
network contains the client is a match, and one that is a failure ends the check. There is no match
if the addresses of all exchanges that count came back and none of them covers the client.

Which exchanges count is up to the resolver, which hands them on by preference.

## Main definitions

* `Covers`, `Misses`: addresses came back, and their networks contain the client, or do not
* `mailExchanges`: the lookups of the addresses of exchanges, one after the other, with the answers
* `Ending`, `SearchEnds`: how the search among exchanges ends

## Main results

* `nextExchange_completes`: the search among exchanges, all the way
* `exchanges_completes`: an `mx` mechanism from its host on
* `exchanges_searched`: which exchanges are asked for, and what comes of it
-/

namespace SenderPolicy.Evaluation

/-! ## Answers of a search -/

section Answers

variable {identity : Identity} {lengths : CidrLengths} {answer : Dns.Answer}

/-- Addresses came back, and the network around one of them contains the client. -/
def Covers (identity : Identity) (lengths : CidrLengths) (answer : Dns.Answer) : Prop :=
  ∃ addresses, answer = .ok addresses ∧ ∃ a ∈ addresses, identity.inNetwork a lengths = true

/-- Addresses came back, and no network around them contains the client. -/
def Misses (identity : Identity) (lengths : CidrLengths) (answer : Dns.Answer) : Prop :=
  ∃ addresses, answer = .ok addresses ∧ ∀ a ∈ addresses, identity.inNetwork a lengths = false

theorem not_misses_of_covers (h : Covers identity lengths answer) :
    ¬ Misses identity lengths answer := by
  obtain ⟨addresses, rfl, a, ha, inside⟩ := h
  rintro ⟨_, ⟨⟩, outside⟩
  rw [outside a ha] at inside
  cases inside

/-- An answer is a failure, covers the client, or misses it. -/
theorem failure_or_covers_or_misses (identity : Identity) (lengths : CidrLengths)
    (answer : Dns.Answer) :
    (∃ failure, answer = .error failure) ∨ Covers identity lengths answer ∨
      Misses identity lengths answer := by
  cases answer with
  | error failure => exact .inl ⟨failure, rfl⟩
  | ok addresses =>
    by_cases h : ∃ a ∈ addresses, identity.inNetwork a lengths = true
    · exact .inr (.inl ⟨addresses, rfl, h⟩)
    · simp only [not_exists, not_and, Bool.not_eq_true] at h
      exact .inr (.inr ⟨addresses, rfl, h⟩)

end Answers

/-- The lookups of the addresses of exchanges, one after the other, as far as there are answers. -/
def mailExchanges (identity : Identity) (lengths : CidrLengths) :
    List String → List Dns.Answer → List Exchange
  | host :: hosts, answer :: answers =>
    ⟨⟨host, identity.addressType⟩, .exchangeAddresses hosts lengths, answer⟩ ::
      mailExchanges identity lengths hosts answers
  | _, _ => []

theorem mailExchanges_nil (identity : Identity) (lengths : CidrLengths) (hosts : List String) :
    mailExchanges identity lengths hosts [] = [] := by
  cases hosts <;> rfl

/-! ## The end of a search -/

/-- How a search among exchanges ends: with a failed lookup, or with a match or none. -/
inductive Ending where
  | failed (failure : Dns.LookupError)
  | settled (isMatch : Bool)

/-- The check behind a search. -/
def Ending.machine (s : State) (frames : List Frame) : Ending → Machine
  | failed failure => ⟨.raise (.lookup failure), s, frames⟩
  | settled isMatch => ⟨.proceed, { s with matched := some isMatch }, frames⟩

/-- A search among exchanges ends in this way, behind these answers: they are those of the first
exchanges, and all but the last of them miss the client. The search has failed if the last answer is
a failure, has matched if the last answer covers the client, and has not matched if all exchanges
have answered and all miss. -/
structure SearchEnds (identity : Identity) (lengths : CidrLengths) (hosts : List String)
    (answers : List Dns.Answer) (ending : Ending) : Prop where
  length_le : answers.length ≤ hosts.length
  missed : ∀ answer ∈ answers.dropLast, Misses identity lengths answer
  failed_iff : ∀ failure, ending = .failed failure ↔ answers.getLast? = some (.error failure)
  matched_iff : ending = .settled true ↔
    ∃ answer, answers.getLast? = some answer ∧ Covers identity lengths answer
  unmatched_iff : ending = .settled false ↔
    answers.length = hosts.length ∧ ∀ answer ∈ answers, Misses identity lengths answer

namespace SearchEnds

variable {identity : Identity} {lengths : CidrLengths} {host : String} {hosts : List String}
  {answer : Dns.Answer} {answers : List Dns.Answer} {ending : Ending}

/-- Without exchanges there is no match. -/
theorem nil_iff : SearchEnds identity lengths [] answers ending ↔
    answers = [] ∧ ending = .settled false := by
  constructor
  · intro h
    obtain rfl : answers = [] := List.length_eq_zero_iff.mp (Nat.le_zero.mp h.length_le)
    exact ⟨rfl, h.unmatched_iff.mpr ⟨rfl, nofun⟩⟩
  · rintro ⟨rfl, rfl⟩
    exact ⟨Nat.le_refl _, nofun, by simp, by simp, by simp⟩

/-- No search ends before an exchange was asked for. -/
theorem not_unasked : ¬ SearchEnds identity lengths (host :: hosts) [] ending := by
  intro h
  cases ending with
  | failed failure => cases (h.failed_iff failure).mp rfl
  | settled isMatch =>
    cases isMatch with
    | true =>
      obtain ⟨answer, last, -⟩ := h.matched_iff.mp rfl
      cases last
    | false => cases (h.unmatched_iff.mp rfl).1

/-- An answer that does not miss the client is the last one. -/
theorem answers_eq_nil (h : SearchEnds identity lengths (host :: hosts) (answer :: answers) ending)
    (hm : ¬ Misses identity lengths answer) : answers = [] := by
  by_contra hne
  refine hm (h.missed answer ?_)
  rw [List.dropLast_cons_of_ne_nil hne]
  exact List.mem_cons_self

/-- A failure is the last answer, and the search has failed. -/
theorem of_failure_iff {failure : Dns.LookupError} :
    SearchEnds identity lengths (host :: hosts) (.error failure :: answers) ending ↔
      answers = [] ∧ ending = .failed failure := by
  have hm : ¬ Misses identity lengths (.error failure) := by rintro ⟨_, ⟨⟩, -⟩
  constructor
  · intro h
    obtain rfl := h.answers_eq_nil hm
    exact ⟨rfl, (h.failed_iff failure).mpr rfl⟩
  · rintro ⟨rfl, rfl⟩
    exact ⟨Nat.succ_le_succ (Nat.zero_le _), nofun, by simp, by simp [Covers], by simp [hm]⟩

/-- An answer that covers the client is the last one, and the search has matched. -/
theorem of_covers_iff (hc : Covers identity lengths answer) :
    SearchEnds identity lengths (host :: hosts) (answer :: answers) ending ↔
      answers = [] ∧ ending = .settled true := by
  have hm := not_misses_of_covers hc
  constructor
  · intro h
    obtain rfl := h.answers_eq_nil hm
    exact ⟨rfl, h.matched_iff.mpr ⟨answer, rfl, hc⟩⟩
  · rintro ⟨rfl, rfl⟩
    have hf (failure : Dns.LookupError) : answer ≠ .error failure := by
      obtain ⟨_, rfl, -⟩ := hc
      nofun
    exact ⟨Nat.succ_le_succ (Nat.zero_le _), nofun, by simp [hf], by simp [hc], by simp [hm]⟩

/-- An answer that misses the client leaves the search to the exchanges behind. -/
theorem of_misses_iff (hm : Misses identity lengths answer) :
    SearchEnds identity lengths (host :: hosts) (answer :: answers) ending ↔
      SearchEnds identity lengths hosts answers ending := by
  have earlier : (∀ a ∈ (answer :: answers).dropLast, Misses identity lengths a) ↔
      ∀ a ∈ answers.dropLast, Misses identity lengths a := by
    cases answers with
    | nil => simp
    | cons a answers => simp [hm]
  -- the last answer decides nothing else than the last of those behind, if there are any
  have last {P : Dns.Answer → Prop} (hp : ¬ P answer) :
      (∃ a, (answer :: answers).getLast? = some a ∧ P a) ↔
        ∃ a, answers.getLast? = some a ∧ P a := by
    cases answers with
    | nil => simp [hp]
    | cons a answers => rw [List.getLast?_cons_cons]
  have failed (failure : Dns.LookupError) :
      (answer :: answers).getLast? = some (.error failure) ↔
        answers.getLast? = some (.error failure) := by
    have hf : ¬ answer = .error failure := by
      obtain ⟨_, rfl, -⟩ := hm
      nofun
    simpa using @last (· = .error failure) hf
  have matched := last fun hc => not_misses_of_covers hc hm
  have all : (answer :: answers).length = (host :: hosts).length ∧
        (∀ a ∈ answer :: answers, Misses identity lengths a) ↔
      answers.length = hosts.length ∧ ∀ a ∈ answers, Misses identity lengths a := by simp [hm]
  constructor
  · rintro ⟨hle, hmissed, hfailed, hmatched, hunmatched⟩
    exact ⟨Nat.le_of_succ_le_succ hle, earlier.mp hmissed, fun f => (hfailed f).trans (failed f),
      hmatched.trans matched, hunmatched.trans all⟩
  · rintro ⟨hle, hmissed, hfailed, hmatched, hunmatched⟩
    exact ⟨Nat.succ_le_succ hle, earlier.mpr hmissed,
      fun f => (hfailed f).trans (failed f).symm, hmatched.trans matched.symm,
      hunmatched.trans all.symm⟩

/-- Whatever is answered, the search ends behind some of the answers, if there are enough. -/
theorem exists_of_length_le (identity : Identity) (lengths : CidrLengths) {hosts : List String}
    {responses : List Dns.Answer} (h : hosts.length ≤ responses.length) :
    ∃ n ending, SearchEnds identity lengths hosts (responses.take n) ending := by
  induction hosts generalizing responses with
  | nil => exact ⟨0, _, nil_iff.mpr ⟨rfl, rfl⟩⟩
  | cons host hosts ih =>
    cases responses with
    | nil => cases h
    | cons response responses =>
      obtain ⟨failure, rfl⟩ | covers | misses :=
        failure_or_covers_or_misses identity lengths response
      · exact ⟨1, _, of_failure_iff.mpr ⟨rfl, rfl⟩⟩
      · exact ⟨1, _, (of_covers_iff covers).mpr ⟨rfl, rfl⟩⟩
      · obtain ⟨n, ending, ends⟩ := ih (Nat.le_of_succ_le_succ h)
        exact ⟨n + 1, ending, (of_misses_iff misses).mpr ends⟩

end SearchEnds

/-! ## The search, lookup by lookup -/

section Search

variable {ctx : Context} {s last : State} {lengths : CidrLengths} {host : String}
  {hosts : List String} {frames : List Frame} {exchanges : List Exchange} {answer : Dns.Answer}

theorem exchangeAddressesAnswered_of_covers (h : Covers s.identity lengths answer) :
    exchangeAddressesAnswered hosts lengths answer s = s.settle true := by
  obtain ⟨addresses, rfl, covered⟩ := h
  exact if_pos (List.any_eq_true.mpr covered)

theorem exchangeAddressesAnswered_of_misses (h : Misses s.identity lengths answer) :
    exchangeAddressesAnswered hosts lengths answer s = nextExchange lengths s hosts := by
  obtain ⟨addresses, rfl, missed⟩ := h
  exact if_neg (by simpa using missed)

/-- The search among exchanges, all the way. -/
theorem nextExchange_completes :
    Completes ctx ((nextExchange lengths s hosts).above frames) exchanges last ↔
      ∃ answers rest ending,
        exchanges = mailExchanges s.identity lengths hosts answers ++ rest ∧
        SearchEnds s.identity lengths hosts answers ending ∧
        Completes ctx (ending.machine s frames) rest last := by
  -- on the exchanges that are left, each with its answer
  induction hosts generalizing exchanges with
  | nil =>
    constructor
    · intro completes
      exact ⟨[], exchanges, .settled false, rfl, SearchEnds.nil_iff.mpr ⟨rfl, rfl⟩, completes⟩
    · rintro ⟨answers, rest, ending, rfl, ends, completes⟩
      obtain ⟨rfl, rfl⟩ := SearchEnds.nil_iff.mp ends
      exact completes
  | cons host hosts ih =>
    have awaits : ((nextExchange lengths s (host :: hosts)).above frames).signal =
        .await ⟨host, s.identity.addressType⟩ (.exchangeAddresses hosts lengths) := rfl
    have resumed (answer : Dns.Answer) :
        ((nextExchange lengths s (host :: hosts)).above frames).resume ctx answer =
          (exchangeAddressesAnswered hosts lengths answer s).above frames := rfl
    rw [Completes.of_await_iff awaits]
    simp only [resumed]
    -- the lookup of an answer behind which nothing is asked for
    have single (answer : Dns.Answer) (rest : List Exchange) :
        mailExchanges s.identity lengths (host :: hosts) [answer] ++ rest =
          ⟨⟨host, s.identity.addressType⟩, .exchangeAddresses hosts lengths, answer⟩ :: rest := by
      rw [mailExchanges, mailExchanges_nil, List.singleton_append]
    constructor
    · rintro ⟨answer, rest, rfl, completes⟩
      obtain ⟨failure, rfl⟩ | covers | misses :=
        failure_or_covers_or_misses s.identity lengths answer
      · exact ⟨[.error failure], rest, _, (single _ rest).symm,
          SearchEnds.of_failure_iff.mpr ⟨rfl, rfl⟩, completes⟩
      · rw [exchangeAddressesAnswered_of_covers covers] at completes
        exact ⟨[answer], rest, _, (single answer rest).symm,
          (SearchEnds.of_covers_iff covers).mpr ⟨rfl, rfl⟩, completes⟩
      · rw [exchangeAddressesAnswered_of_misses misses] at completes
        obtain ⟨answers, later, ending, rfl, ends, completes⟩ := ih.mp completes
        exact ⟨answer :: answers, later, ending, rfl, (SearchEnds.of_misses_iff misses).mpr ends,
          completes⟩
    · rintro ⟨answers, rest, ending, rfl, ends, completes⟩
      cases answers with
      | nil => exact absurd ends SearchEnds.not_unasked
      | cons answer answers =>
        refine ⟨answer, _, rfl, ?_⟩
        obtain ⟨failure, rfl⟩ | covers | misses :=
          failure_or_covers_or_misses s.identity lengths answer
        · obtain ⟨rfl, rfl⟩ := SearchEnds.of_failure_iff.mp ends
          rw [mailExchanges_nil]
          exact completes
        · obtain ⟨rfl, rfl⟩ := (SearchEnds.of_covers_iff covers).mp ends
          rw [exchangeAddressesAnswered_of_covers covers, mailExchanges_nil]
          exact completes
        · rw [exchangeAddressesAnswered_of_misses misses]
          exact ih.mpr ⟨answers, rest, ending, rfl, (SearchEnds.of_misses_iff misses).mp ends,
            completes⟩

/-- An `mx` mechanism from its host on: the exchanges are asked for, and the search among those
within the limit follows, unless the lookup has failed. -/
theorem exchanges_completes :
    Completes ctx (((Purpose.exchanges lengths).use ctx (.ok host) s).above frames) exchanges last ↔
      (∃ failure rest,
        exchanges = ⟨⟨host, .mx⟩, .exchanges lengths, .error failure⟩ :: rest ∧
        Completes ctx ((Ending.failed failure).machine s frames) rest last) ∨
      ∃ names answers rest ending,
        exchanges = ⟨⟨host, .mx⟩, .exchanges lengths, .ok names⟩ ::
          (mailExchanges s.identity lengths (names.take ctx.recordLimit) answers ++ rest) ∧
        SearchEnds s.identity lengths (names.take ctx.recordLimit) answers ending ∧
        Completes ctx (ending.machine s frames) rest last := by
  have awaits : (((Purpose.exchanges lengths).use ctx (.ok host) s).above frames).signal =
      .await ⟨host, .mx⟩ (.exchanges lengths) := rfl
  rw [Completes.of_await_iff awaits]
  constructor
  · rintro ⟨answer, rest, rfl, completes⟩
    cases answer with
    | error failure => exact .inl ⟨failure, rest, rfl, completes⟩
    | ok names =>
      obtain ⟨answers, rest, ending, rfl, ends, completes⟩ := nextExchange_completes.mp completes
      exact .inr ⟨names, answers, rest, ending, rfl, ends, completes⟩
  · rintro (⟨failure, rest, rfl, completes⟩ | ⟨names, answers, rest, ending, rfl, ends, completes⟩)
    · exact ⟨_, rest, rfl, completes⟩
    · exact ⟨_, _, rfl, nextExchange_completes.mpr ⟨answers, rest, ending, rfl, ends, completes⟩⟩

end Search

/-- The exchanges of a response are handed on by preference, those of equal preference in the order
of the server, and without the final dots of their names. Wherever a check has come to an `mx`
mechanism, it asks for the addresses of the first exchanges, as many as the limit allows, in this
order and up to the first answer that decides, which is there for all answers. A failed lookup, of
the exchanges or of the addresses of one, ends the check, which fails for now. -/
theorem exchanges_searched {ctx : Context} {identity : Identity} {receivingDomain : Option String}
    {before : List Exchange} {lengths : CidrLengths} {host : String} {s : State}
    {frames : List Frame}
    (reached : Course ctx (machineOf identity receivingDomain) before
      (((Purpose.exchanges lengths).use ctx (.ok host) s).above frames)) :
    (∀ respond values, respond (Dns.Resolver.rooted host) .mx = .exchanges values →
      ∃ ranked, Dns.Exchange.Ranked values ranked ∧ Dns.Resolver.service respond ⟨host, .mx⟩ =
        .ok (ranked.map fun e => Text.trimDots e.name)) ∧
    (∀ name : String, name.toList.getLast? ≠ some '.' → Text.trimDots (name ++ ".") = name) ∧
    (∀ exchanges last,
      Completes ctx (((Purpose.exchanges lengths).use ctx (.ok host) s).above frames) exchanges
          last ↔
        (∃ failure rest,
          exchanges = ⟨⟨host, .mx⟩, .exchanges lengths, .error failure⟩ :: rest ∧
          Completes ctx ((Ending.failed failure).machine s frames) rest last) ∨
        ∃ names answers rest ending,
          exchanges = ⟨⟨host, .mx⟩, .exchanges lengths, .ok names⟩ ::
            (mailExchanges s.identity lengths (names.take ctx.recordLimit) answers ++ rest) ∧
          SearchEnds s.identity lengths (names.take ctx.recordLimit) answers ending ∧
          Completes ctx (ending.machine s frames) rest last) ∧
    (∀ (names : List String) (responses : List Dns.Answer),
      (names.take ctx.recordLimit).length ≤ responses.length → ∃ n ending,
        SearchEnds s.identity lengths (names.take ctx.recordLimit) (responses.take n) ending) ∧
    ∀ failure rest last, Completes ctx ((Ending.failed failure).machine s frames) rest last →
      rest = [] ∧ (outcomeOf identity (some last)).result = .tempError := by
  refine ⟨fun _ _ => Dns.Resolver.service_exchanges, fun _ => Text.trimDots_append_dot,
    fun _ _ => exchanges_completes,
    fun _ _ => SearchEnds.exists_of_length_le s.identity lengths, fun failure rest last ended => ?_⟩
  -- the failure leaves the frames as they are, so they are in order as they were before the lookup
  have awaiting : Orderly (((Purpose.exchanges lengths).use ctx (.ok host) s).above frames) :=
    Course.orderly reached (.begin identity receivingDomain)
  have failing : Orderly ((Ending.failed failure).machine s frames) :=
    @Orderly.resume ctx (.error failure) _ _ _ awaiting rfl
  obtain ⟨rfl, result⟩ := Completes.of_raise ended failing
  exact ⟨rfl, by simp [outcomeOf, Outcome.ofResult, result, resultUpon, Error.result]⟩

/-- The second of three exchanges cannot be looked up, with a limit of two. -/
theorem exchanges_searched_up_to_failure :
    ∃ exchanges last, Completes ⟨.standard, [], 2⟩
        (machineOf ⟨.v4 1#32, "a@b", "a", "b", "b", 0⟩ none) exchanges last ∧
      exchanges.map (·.request) =
        [⟨"b", .spf⟩, ⟨"b", .txt⟩, ⟨"b", .mx⟩, ⟨"c", .a⟩, ⟨"d", .a⟩] ∧
      (outcomeOf ⟨.v4 1#32, "a@b", "a", "b", "b", 0⟩ (some last)).result = .tempError := by
  have answered := ((((((@Course.refl ⟨.standard, [], 2⟩
    (machineOf ⟨.v4 1#32, "a@b", "a", "b", "b", 0⟩ none)).snoc rfl).snoc rfl).snoc rfl).snoc_answer
    rfl (.ok [])).snoc_answer rfl (.ok ["v=spf1 mx -all"]))
  have reached := ((((answered.snoc rfl).snoc rfl).snoc rfl).snoc rfl).snoc rfl |>.snoc rfl
  obtain ⟨-, -, searched, -, -⟩ := exchanges_searched reached
  have ends : SearchEnds ⟨.v4 1#32, "a@b", "a", "b", "b", 0⟩ .full ["c", "d"]
      [.ok ["0.0.0.2"], .error (.timeout "d")] (.failed (.timeout "d")) :=
    (SearchEnds.of_misses_iff ⟨_, rfl, by decide⟩).mpr (SearchEnds.of_failure_iff.mpr ⟨rfl, rfl⟩)
  -- the cause, on its way down
  have completes := (searched _ _).mpr (.inr ⟨["c", "d", "e"], _, [], _, rfl, ends,
    ((((Course.refl _).snoc rfl).snoc rfl).snoc rfl).snoc rfl |>.snoc rfl⟩)
  exact ⟨_, _, reached.trans completes, rfl, rfl⟩

end SenderPolicy.Evaluation
