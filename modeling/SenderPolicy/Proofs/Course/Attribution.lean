import SenderPolicy.Proofs.Course.Phases

/-!
# The record behind a failure

A fail is committed by a directive of the record that was opened last outside of inclusions, and the
explanation is that record's, or the receiver's in the name of its domain. What redirects to the
record, or is included on the way, has no part in it.

## Main definitions

* `Ends`: the frames end the evaluation of a domain outside of inclusions
* `Opens`, `Opened`: a record is opened outside of inclusions, and is the last one
* `Uncommitted`: the phases together, with the record that was opened
* `FailedBy`: a directive of a record commits the fail that a check ends with

## Main results

* `Uncommitted.step`, `Uncommitted.resume`: a check stays in its phases up to the commitment
* `Completes.of_uncommitted`: a check ends without a fail, or comes to the directive that commits it
* `explanation_attributed`: what an outcome is explained by
-/

namespace SenderPolicy.Evaluation

/-! ## From phase to phase -/

/-- The frames end the evaluation of a domain outside of inclusions: that of the sender's domain, or
of one that a redirection has led to. -/
structure Ends (sender domain : String) (base : List Frame) : Prop where
  outermost : Outermost base
  led : base = [.conclusion] ∧ domain = sender ∨ ∃ below, base = .arrival :: below

/-- The record of a domain is opened outside of inclusions. -/
structure Opens (sender domain : String) (record : Record) (base : List Frame) (m : Machine) :
    Prop where
  ends : Ends sender domain base
  signal : m.signal = .proceed
  frames : m.frames = .terms :: base
  record : m.state.record = some record
  domain : m.state.domain = domain

/-- The record is the one that was opened last on the way from an origin. -/
structure Opened (ctx : Context) (origin : Machine) (exchanges : List Exchange) (record : Record)
    (base : List Frame) (domain : String) (m : Machine) : Prop where
  course : ∃ before between opening, exchanges = before ++ between ∧
    Course ctx origin before opening ∧ Opens origin.state.domain domain record base opening ∧
    Course ctx opening between m
  outermost : Outermost base
  single : record.IsSingle
  decorated : Decorated ctx [] record

/-- The phases of a check in which no fail is committed outside of inclusions. -/
def Uncommitted (ctx : Context) (origin : Machine) (exchanges : List Exchange) (m : Machine) :
    Prop :=
  (∃ base domain, Ends origin.state.domain domain base ∧ Seeking ctx base domain m) ∨
    (∃ record base domain, Opened ctx origin exchanges record base domain m ∧
      Trying record base domain m) ∨
    Late m

section Phases

variable {ctx : Context} {origin m m' : Machine} {exchanges rest : List Exchange} {record : Record}
  {base : List Frame} {domain : String} {last : State}

theorem Opened.step (h : Opened ctx origin exchanges record base domain m)
    (hs : m.step ctx = some m') : Opened ctx origin exchanges record base domain m' := by
  obtain ⟨before, between, opening, he, reached, opens, course⟩ := h.course
  exact ⟨⟨before, between, opening, he, reached, opens, course.snoc hs⟩, h.outermost, h.single,
    h.decorated⟩

theorem Opened.resume {request : Dns.Request} {listener : Listener} (answer : Dns.Answer)
    (h : Opened ctx origin exchanges record base domain m)
    (hs : m.signal = .await request listener) :
    Opened ctx origin (exchanges ++ [⟨request, listener, answer⟩]) record base domain
      (m.resume ctx answer) := by
  obtain ⟨before, between, opening, rfl, reached, opens, course⟩ := h.course
  exact ⟨⟨before, _, opening, List.append_assoc _ _ _, reached, opens,
    course.snoc_answer hs answer⟩, h.outermost, h.single, h.decorated⟩

/-- A redirection begins anew. -/
theorem Redirected.uncommitted (h : Redirected ctx m) : Uncommitted ctx origin exchanges m := by
  obtain ⟨below, domain, outermost, seeking⟩ := h
  exact Or.inl ⟨_, domain, ⟨outermost, Or.inr ⟨below, rfl⟩⟩, seeking⟩

/-- A step stays in the phases, raises a cause, or is the one that commits a fail. -/
theorem Uncommitted.step (h : Uncommitted ctx origin exchanges m) (ho : Orderly m)
    (ha : Acquiring ctx m) (reached : Course ctx origin exchanges m) (hs : m.step ctx = some m') :
    (∃ record base domain, Opened ctx origin exchanges record base domain m ∧
      CommitsFail record base domain m) ∨
    m'.Raises ∨ Uncommitted ctx origin exchanges m' := by
  -- behind the directives of a record the check is late, raises a cause, or begins anew
  have behind (passed : Late m' ∨ m'.Raises ∨ Redirected ctx m') :
      m'.Raises ∨ Uncommitted ctx origin exchanges m' := by
    rcases passed with hl | hr | hk
    · exact Or.inr (Or.inr (Or.inr hl))
    · exact Or.inl hr
    · exact Or.inr hk.uncommitted
  rcases h with ⟨base, domain, ends, seeking⟩ | ⟨record, base, domain, opened, trying⟩ | late
  · rcases seeking.step ha hs with hk | hr | ⟨record, hp, hf, hr, underway, hd, rfl⟩
    · exact Or.inr (Or.inr (Or.inl ⟨base, domain, ends, hk⟩))
    · exact Or.inr (Or.inl hr)
    · -- the record is opened, and its directives are all to be tried
      have opens : Opens origin.state.domain domain record base m :=
        ⟨ends, hp, hf, hr, underway.domain⟩
      have opened : Opened ctx origin exchanges record base domain m :=
        ⟨⟨exchanges, [], m, (List.append_nil _).symm, reached, opens, .refl m⟩, ends.outermost,
          ho.single record hr, hd⟩
      have whole : framesOf record ++ base =
          record.directives.map .directive ++ trailingFrames record base := by
        simp only [framesOf, trailingFrames, List.append_assoc]
      refine Or.inr (Or.inr (Or.inr (Or.inl ⟨record, base, domain, opened.step hs, ?_⟩)))
      rw [whole]
      exact .directives (List.nil_append _).symm ⟨underway.domain, underway.explanation,
        underway.isMuted, underway.verdict⟩
  · rcases trying.step opened.outermost opened.single ho hs with hc | ht | passed
    · exact Or.inl ⟨record, base, domain, opened, hc⟩
    · exact Or.inr (Or.inr (Or.inr (Or.inl ⟨record, base, domain, opened.step hs, ht⟩)))
    · exact Or.inr (behind passed)
  · exact Or.inr (behind (late.step ho hs))

/-- An answer stays in the phases or raises a cause, and is not to a lookup for an explanation. -/
theorem Uncommitted.resume {request : Dns.Request} {listener : Listener} (answer : Dns.Answer)
    (h : Uncommitted ctx origin exchanges m) (hs : m.signal = .await request listener) :
    listener ≠ .explanationTexts ∧
      (Uncommitted ctx origin (exchanges ++ [⟨request, listener, answer⟩]) (m.resume ctx answer) ∨
        (m.resume ctx answer).Raises) := by
  rcases h with ⟨base, domain, ends, seeking⟩ | ⟨record, base, domain, opened, trying⟩ | late
  · exact (seeking.resume answer hs).imp_right
      (Or.imp_left fun hk => Or.inl ⟨base, domain, ends, hk⟩)
  · exact (trying.resume answer hs).imp_right
      (Or.imp_left fun ht => Or.inr (Or.inl ⟨record, base, domain, opened.resume answer hs, ht⟩))
  · exact (late.resume answer hs).imp_right (Or.imp_left fun hl => Or.inr (Or.inr hl))

/-- A check that ends in one of the phases does not end with a fail. -/
theorem Uncommitted.ended (h : Uncommitted ctx origin exchanges m) (hf : m.frames = []) :
    m.state.result ≠ some .fail := by
  rcases h with ⟨base, domain, -, seeking⟩ | ⟨record, base, domain, opened, trying⟩ | late
  · cases seeking <;> simp at hf
  · obtain ⟨f, below, rfl, -⟩ := opened.outermost.boundary
    cases trying with
    | directives | mechanism => simp [trailingFrames] at hf
    | inclusion h underway enclosed =>
      obtain ⟨fs, hfs, -⟩ := enclosed.frames
      simp [hfs] at hf
  · exact late.ended hf

/-- A cause does not end a check with a fail. -/
theorem resultUpon_ne_fail (frames : List Frame) (cause : Error) :
    resultUpon frames cause ≠ .fail := by
  unfold resultUpon
  split
  · nofun
  · rcases result_of_cause cause with hr | hr | hr <;> simp [hr]

theorem Machine.Raises.completes (h : m.Raises) (ho : Orderly m)
    (hc : Completes ctx m exchanges last) : exchanges = [] ∧ last.result ≠ some .fail := by
  obtain ⟨signal, s, frames⟩ := m
  obtain ⟨cause, rfl⟩ := h
  obtain ⟨he, hl⟩ := hc.of_raise ho
  exact ⟨he, fun hf => resultUpon_ne_fail frames cause (Option.some.inj (hl.symm.trans hf))⟩

end Phases

/-! ## The record that decides -/

/-- A directive of the record of a domain commits the fail that a check ends with: the record is
opened outside of inclusions, its directive is about to commit, and from there the check goes on to
its end. -/
def FailedBy (ctx : Context) (origin : Machine) (exchanges : List Exchange) (last : State)
    (record : Record) (domain : String) : Prop :=
  ∃ base before between after opening commit, exchanges = before ++ between ++ after ∧
    Course ctx origin before opening ∧ Opens origin.state.domain domain record base opening ∧
    Course ctx opening between commit ∧ CommitsFail record base domain commit ∧
    Completes ctx commit after last

section Attribution

variable {ctx : Context} {identity : Identity} {receivingDomain : Option String} {m : Machine}
  {exchanges rest : List Exchange} {record : Record} {base : List Frame} {domain : String}
  {last : State}

/-- What is asked before has no part in an explanation. -/
theorem ExplainedBy.append {values : Macro.Values} {modifiers : List Modifier}
    {explanation : Option String} (h : ExplainedBy ctx values modifiers rest explanation)
    (unasked : ∀ e ∈ exchanges, e.explains = false) :
    ExplainedBy ctx values modifiers (exchanges ++ rest) explanation := by
  rw [ExplainedBy, List.filter_append, filter_explains unasked, List.nil_append]
  exact h

/-- A check whose directive commits a fail ends with it, and is explained by the record. -/
theorem CommitsFail.completes (h : CommitsFail record base domain m)
    (opened : Opened ctx (machineOf identity receivingDomain) exchanges record base domain m)
    (ho : Orderly m) (hc : Completes ctx m rest last) :
    last.domain = domain ∧ last.result = some .fail ∧
      ExplainedBy ctx last.values record.modifiers rest last.explanation := by
  obtain ⟨signal, s, frames⟩ := m
  obtain ⟨rfl, matched, underway, tried, d, left, -, -, rfl⟩ := h
  have running : s.result = none := ho.running (List.cons_ne_nil _ _)
  have committed : Frame.check ctx s (.commitment .fail) =
      .done { s with verdict := some .fail } := by
    rw [Frame.check, State.commit, if_pos matched]
  have stacked : Stacked base := by
    have upon : Stacked ((.commitment .fail :: left.map .directive ++
        (record.modifiers.map .modifier ++ record.decorations.map .decoration)) ++ base) := by
      simpa only [trailingFrames, List.append_assoc, List.cons_append] using ho.stacked
    exact upon.of_append
  have decorated : record.decorations.filterMap templateOf =
      ctx.policy.defaultExplanation.toList := by
    simpa only [Decorated, List.filterMap_nil, List.append_nil] using opened.decorated
  obtain ⟨hd, hr, he⟩ := Completes.of_fail (s := { s with verdict := some .fail }) opened.outermost
    stacked opened.single decorated rfl underway.isMuted underway.explanation running
    ((Completes.of_done_iff committed).mp hc)
  exact ⟨hd.trans underway.domain, hr, he⟩

/-- From any of the phases a check goes on to its end without a fail and without asking for an
explanation, or comes to the directive that commits one. -/
theorem Completes.of_uncommitted (h : Completes ctx m rest last)
    (reached : Course ctx (machineOf identity receivingDomain) exchanges m)
    (unasked : ∀ e ∈ exchanges, e.explains = false)
    (phase : Uncommitted ctx (machineOf identity receivingDomain) exchanges m) :
    (last.result ≠ some .fail ∧ ∀ e ∈ exchanges ++ rest, e.explains = false) ∨
    ∃ record base domain before after commit, exchanges ++ rest = before ++ after ∧
      (∀ e ∈ before, e.explains = false) ∧
      Opened ctx (machineOf identity receivingDomain) before record base domain commit ∧
      CommitsFail record base domain commit ∧ Completes ctx commit after last := by
  have begun : Orderly (machineOf identity receivingDomain) := .begin identity receivingDomain
  unfold Completes at h
  generalize hl : (⟨.proceed, last, []⟩ : Machine) = finish at h
  -- on the course: every point up to the commitment is in one of the phases
  induction h generalizing exchanges with
  | refl =>
    subst hl
    exact Or.inl ⟨phase.ended rfl, by simpa using unasked⟩
  | @step m m' _ rest hs course ih =>
    have ho : Orderly m := reached.orderly begun
    obtain ⟨terms, counted⟩ := reached.reaches .refl
    subst hl
    rcases phase.step ho counted.acquiring reached hs with
      ⟨record, base, domain, opened, commits⟩ | raises | next
    · exact Or.inr ⟨record, base, domain, exchanges, rest, m, rfl, unasked, opened, commits,
        .step hs course⟩
    · obtain ⟨rfl, hr⟩ := raises.completes (ho.step hs) course
      exact Or.inl ⟨hr, by simpa using unasked⟩
    · exact ih (reached.snoc hs) unasked next rfl
  | @answer m _ request listener rest hs answer course ih =>
    have ho : Orderly m := reached.orderly begun
    subst hl
    obtain ⟨unexplained, next⟩ := phase.resume answer hs
    have unasked' : ∀ e ∈ exchanges ++ [⟨request, listener, answer⟩], e.explains = false := by
      rw [List.forall_mem_append, List.forall_mem_singleton]
      exact ⟨unasked, Exchange.explains_of_ne unexplained⟩
    rw [List.append_cons]
    rcases next with next | raises
    · exact ih (reached.snoc_answer hs answer) unasked' next rfl
    · obtain ⟨rfl, hr⟩ := raises.completes (ho.resume hs) course
      exact Or.inl ⟨hr, by simpa using unasked'⟩

theorem Opened.reached (h : Opened ctx (machineOf identity receivingDomain) exchanges record base
    domain m) : Course ctx (machineOf identity receivingDomain) exchanges m := by
  obtain ⟨before, between, opening, rfl, reached, -, course⟩ := h.course
  exact reached.trans course

/-- A check begins on the way to the record of the sender's domain. -/
theorem uncommitted_machineOf (ctx : Context) (identity : Identity)
    (receivingDomain : Option String) :
    Uncommitted ctx (machineOf identity receivingDomain) [] (machineOf identity receivingDomain) :=
  Or.inl ⟨[.conclusion], identity.senderDomain,
    ⟨⟨by simp [Frame.isSpent], .conclusion, [], rfl, rfl⟩, Or.inl ⟨rfl, rfl⟩⟩,
    .evaluation ⟨rfl, rfl, rfl, nofun⟩⟩

/-- A fail is committed by a directive of a record, which explains it; without a fail nothing
published was asked for. -/
theorem Completes.attributed
    (h : Completes ctx (machineOf identity receivingDomain) exchanges last) :
    (last.result ≠ some .fail ∧ ∀ e ∈ exchanges, e.explains = false) ∨
    last.result = some .fail ∧ ∃ record domain,
      FailedBy ctx (machineOf identity receivingDomain) exchanges last record domain ∧
      last.domain = domain ∧
      ExplainedBy ctx last.values record.modifiers exchanges last.explanation := by
  have begun : Orderly (machineOf identity receivingDomain) := .begin identity receivingDomain
  have uncommitted := uncommitted_machineOf ctx identity receivingDomain
  rcases h.of_uncommitted (.refl _) (List.forall_mem_nil _) uncommitted with
    unfailed | ⟨record, base, domain, before, after, commit, he, unasked, opened, commits, rest⟩
  · exact Or.inl unfailed
  · rw [List.nil_append] at he
    subst he
    obtain ⟨hd, hr, explained⟩ := commits.completes opened (opened.reached.orderly begun) rest
    obtain ⟨opening, between, record', rfl, reached, opens, course⟩ := opened.course
    exact Or.inr ⟨hr, record, domain, ⟨base, opening, between, after, record', commit, rfl, reached,
      opens, course, commits, rest⟩, hd, explained.append unasked⟩

/-- Only a fail is explained. -/
theorem result_of_explained {result : Result} {fields : HeaderFields} {explanation : Option String}
    (h : (Outcome.ofResult result fields explanation).explanation ≠ none) : result = .fail := by
  by_contra hn
  simp [Outcome.ofResult, hn] at h

/-- Only a fail is explained, whatever becomes of a check. -/
theorem result_of_check_explained {service : Dns.Service} {executor : Executor} {timestamp : Int}
    {inquiry : Inquiry}
    (h : (check ctx service executor timestamp inquiry).2.explanation ≠ none) :
    (check ctx service executor timestamp inquiry).2.result = .fail := by
  revert h
  unfold check
  split
  · rename_i outcome unread
    unfold Inquiry.begin at unread
    split at unread
    · cases unread
    · cases unread
      exact result_of_explained
  · rename_i identity read
    obtain ⟨requests, states⟩ :=
      executor.execute ctx service [machineOf identity inquiry.receivingDomain]
    dsimp only
    cases states.head?.join <;> exact result_of_explained

end Attribution

/-- An explanation is that of the record whose directive has failed. Whatever becomes of a check,
only a fail is explained, and a check that ends otherwise has asked for no explanation. A fail is
committed by a directive of a record that was opened outside of inclusions, for the sender's domain
or one that a redirection has led to. If this record names a domain that is not refused, the texts
of that domain are asked for, which is the only such lookup of the whole check, and the one text of
the answer explains; in every other case the receiver explains. Either way the values are those of
the check's identities and of the record's own domain. -/
theorem explanation_attributed {ctx : Context} {identity : Identity}
    {receivingDomain : Option String} {exchanges : List Exchange} {last : State}
    (h : Completes ctx (machineOf identity receivingDomain) exchanges last) :
    (∀ service executor timestamp inquiry,
      (check ctx service executor timestamp inquiry).2.explanation ≠ none →
        (check ctx service executor timestamp inquiry).2.result = .fail) ∧
    ((outcomeOf identity (some last)).result ≠ .fail →
      (outcomeOf identity (some last)).explanation = none ∧
        ∀ e ∈ exchanges, e.explains = false) ∧
    ((outcomeOf identity (some last)).result = .fail → ∃ record domain,
      FailedBy ctx (machineOf identity receivingDomain) exchanges last record domain ∧
      last.identity = identity ∧ last.values.domain = domain ∧
      ExplainedBy ctx last.values record.modifiers exchanges
        (outcomeOf identity (some last)).explanation) := by
  have begun : Orderly (machineOf identity receivingDomain) := .begin identity receivingDomain
  have ended : last.result ≠ none := ((Course.orderly h begun).ended rfl).2
  obtain ⟨result, hr⟩ := Option.ne_none_iff_exists'.mp ended
  refine ⟨fun _ _ _ _ => result_of_check_explained, ?_⟩
  simp only [outcomeOf, Outcome.ofResult, hr, Option.getD_some]
  rcases h.attributed with ⟨hn, unasked⟩ | ⟨hf, record, domain, failed, hd, explained⟩
  · rw [hr, ne_eq, Option.some.injEq] at hn
    exact ⟨fun _ => ⟨if_neg hn, unasked⟩, fun hf => absurd hf hn⟩
  · rw [hr, Option.some.injEq] at hf
    refine ⟨fun hn => absurd hf hn, fun _ => ⟨record, domain, failed, Course.identity h, hd, ?_⟩⟩
    rwa [if_pos hf]

/-- A policy that redirects is not asked for its explanation: the record that it leads to fails and
explains. -/
theorem explanation_attributed_of_redirection :
    ∃ exchanges last, Completes ⟨.standard, [], 10⟩
        (machineOf ⟨.v4 1#32, "a@b", "a", "b", "b", 0⟩ none) exchanges last ∧
      exchanges.map (fun e => e.request.host) = ["b", "b", "c.d", "c.d", "e.f"] ∧
      (outcomeOf ⟨.v4 1#32, "a@b", "a", "b", "b", 0⟩ (some last)).explanation = some "no" ∧
      ∃ record domain, FailedBy ⟨.standard, [], 10⟩
          (machineOf ⟨.v4 1#32, "a@b", "a", "b", "b", 0⟩ none) exchanges last record domain ∧
        last.identity = ⟨.v4 1#32, "a@b", "a", "b", "b", 0⟩ ∧ last.values.domain = domain ∧
        ExplainedBy ⟨.standard, [], 10⟩ last.values record.modifiers exchanges (some "no") := by
  -- the record of the sender's domain, up to its redirection
  have looked := ((@Course.refl ⟨.standard, [], 10⟩
    (machineOf ⟨.v4 1#32, "a@b", "a", "b", "b", 0⟩ none)).snoc rfl).snoc rfl |>.snoc rfl
  have opened := ((((((looked.snoc_answer rfl (.ok [])).snoc_answer rfl
    (.ok ["v=spf1 exp=g.h redirect=c.d"])).snoc rfl).snoc rfl).snoc rfl).snoc rfl).snoc rfl
  have redirected := ((((opened.snoc rfl).snoc rfl).snoc rfl).snoc rfl).snoc rfl
  -- the record of the target, up to the lookup of its explanation
  have found := ((((((redirected.snoc_answer rfl (.ok [])).snoc_answer rfl
    (.ok ["v=spf1 -all exp=e.f"])).snoc rfl).snoc rfl).snoc rfl).snoc rfl).snoc rfl
  have asked := ((found.snoc rfl).snoc rfl).snoc rfl
  have ended :=
    (((((asked.snoc_answer rfl (.ok ["no"])).snoc rfl).snoc rfl).snoc rfl).snoc rfl).snoc rfl
  exact ⟨_, _, ended, rfl, rfl, (explanation_attributed ended).2.2 rfl⟩

end SenderPolicy.Evaluation
