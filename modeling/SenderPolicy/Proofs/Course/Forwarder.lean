import SenderPolicy.Proofs.Course.Phases

/-!
# The trusted forwarder

A receiver may permit the clients of a forwarder in every record: a directive that includes the
forwarder is put into the record of whatever domain is evaluated, unless that domain is the
forwarder itself, up to case. The forwarder's own record is therefore evaluated as it was read, and
while it is evaluated nothing else is, unless the record itself includes or redirects to another
domain. There the guard ends: the record of that other domain includes the forwarder again.

## Main definitions

* `Record.HasTermsOf`: a record has the terms of a text, and none that were added
* `Record.Refers`: a record includes or redirects to another domain
* `OwnEvaluation`: how far the evaluation of the forwarder's own record has come

## Main results

* `stageStep_record`: what holds of records that are read, and of those that stages change, holds
  of the record that a stage finds
* `OwnEvaluation.next`: the evaluation of the forwarder, point by point
* `forwarder_reentered_by_own_terms`: the forwarder's stage does not include it into itself
* `forwarder_included_into_itself`: another record does, inside the evaluation of the forwarder
-/

namespace SenderPolicy

/-- The record has the terms of the text, and none that were added. -/
def Record.HasTermsOf (record : Record) (text : String) : Prop :=
  ∃ read, Record.parse text = .ok read ∧ record.directives = read.directives ∧
    record.modifiers = read.modifiers

/-- The record includes the policy of another domain, or redirects to it. -/
def Record.Refers (record : Record) : Prop :=
  (∃ d ∈ record.directives, ∃ spec, d.mechanism = .included spec) ∨
    ∃ spec, .redirect spec ∈ record.modifiers

namespace Evaluation

/-! ## Records on the way through the stages -/

section Stages

variable {s : State} {st : Policy.Stage}

/-- A stage includes no other forwarder than that of the policy. -/
theorem trustedForwarder_of_mem {policy : Policy} {domain : String}
    (h : .trustedForwarder domain ∈ policy.stages) : policy.trustedForwarder = some domain := by
  simpa [Policy.stages] using h

/-- What holds of the records that are read, and of those that the stages change, holds of the
record that a stage finds. -/
theorem stageStep_record {P : Record → Prop}
    (read : ∀ text record, Record.parse text = .ok record → P record)
    (permitted : ∀ domain, st = .trustedForwarder domain →
      Text.sameFolded s.domain domain = false → ∀ record, P record →
        P (permitForwarder domain record))
    (decorated : ∀ decoration record, P record → P (decorate decoration record))
    (h : ∀ record ∈ s.record, P record) : ∀ record ∈ (stageStep s st).state.record, P record := by
  have looked {table : Policy.Table} : ∀ record ∈ table.lookup s.domain, P record :=
    fun record hr => by
      obtain ⟨text, hp⟩ : ∃ text, Record.parse text = .ok record :=
        ⟨_, Policy.Table.parse_of_lookup hr⟩
      exact read text record hp
  have changed {f : Record → Record} (hf : ∀ record, P record → P (f record)) :
      ∀ record ∈ s.record.map f, P record := by
    intro _ hm
    obtain ⟨record, hr, rfl⟩ := Option.map_eq_some_iff.mp hm
    exact hf record (h record hr)
  cases st with
  | overrides table =>
    simp only [stageStep]
    split
    · rename_i record hl
      exact hl ▸ looked
    · exact h
  | wellFormed | published | bestGuess | required =>
    simp only [stageStep]
    split <;> exact h
  | parsed =>
    simp only [stageStep]
    split
    · exact h
    · split
      · rename_i record hp
        rintro _ ⟨⟩
        exact read _ record hp
      · exact h
  | fallbacks table =>
    simp only [stageStep]
    split
    · exact looked
    · exact h
  | trustedForwarder domain =>
    simp only [stageStep]
    split
    · exact h
    · rename_i hd
      exact changed (permitted domain rfl (Bool.not_eq_true _ ▸ hd))
  | neutralWithoutMatch =>
    refine changed fun record hr => ?_
    split
    · exact hr
    · exact decorated _ record hr
  | explanation template => exact changed fun record hr => decorated _ record hr

end Stages

/-! ## Frames that begin no evaluation -/

/-- The frame leads to the evaluation of no other domain. -/
def Frame.isConfined : Frame → Bool
  | evaluation | stage _ | terms | modifier (.redirect _) => false
  | directive d => purposeOf d.mechanism ≠ some .inclusion
  | expansion _ purpose => purpose ≠ .inclusion ∧ purpose ≠ .redirection
  | _ => true

section Confined

variable {ctx : Context} {s : State} {f : Frame} {r : Reaction}

theorem Expanded.confined {purpose : Purpose} (he : Expanded s purpose r)
    (hi : purpose ≠ .inclusion) (hr : purpose ≠ .redirection) : ∀ g ∈ r.frames, g.isConfined := by
  cases he with
  | aside r template request unknown same =>
    rw [List.forall_mem_singleton]
    rcases same with rfl | ⟨-, -, rfl⟩
    · exact decide_eq_true ⟨hi, hr⟩
    · rfl
  | included => exact absurd rfl hi
  | redirected => exact absurd rfl hr
  | _ => exact List.forall_mem_nil _

/-- A frame that leads to no evaluation leaves no other that does. -/
theorem Turn.confined (ht : Turn ctx s f r) (hf : f.isConfined) : ∀ g ∈ r.frames, g.isConfined := by
  cases ht with
  | begun | opened | enteredRedirect => cases hf
  | settled | exhausted => exact List.forall_mem_singleton.mpr rfl
  | entered d purpose r _ looks _ expanded =>
    have hi : purpose ≠ .inclusion := by
      rintro rfl
      exact of_decide_eq_true hf looks
    have hr : purpose ≠ .redirection := by
      rintro rfl
      obtain ⟨qualifier, mechanism⟩ := d
      cases mechanism <;> cases looks
    exact List.forall_mem_append.mpr
      ⟨expanded.confined hi hr, List.forall_mem_singleton.mpr rfl⟩
  | explains _ _ _ _ expanded => exact expanded.confined nofun nofun
  | explainsByDefault _ _ _ _ expanded => exact expanded.confined nofun nofun
  | expanded _ _ _ expanded =>
    obtain ⟨hi, hr⟩ := of_decide_eq_true hf
    exact expanded.confined hi hr
  | _ => exact List.forall_mem_nil _

theorem Heard.confined {listener : Listener} (hh : Heard ctx s listener r) :
    ∀ g ∈ r.frames, g.isConfined := by
  cases hh with
  | explains _ expanded => exact expanded.confined nofun nofun
  | _ => exact List.forall_mem_nil _

/-- A record that refers to no other domain leads to no other evaluation. -/
theorem confined_framesOf {record : Record} (h : ¬record.Refers) :
    ∀ f ∈ framesOf record, f.isConfined := by
  intro f hf
  simp only [framesOf, List.mem_append, List.mem_map] at hf
  obtain (⟨d, hd, rfl⟩ | ⟨m, hm, rfl⟩) | ⟨d, -, rfl⟩ := hf
  · refine decide_eq_true fun included => h (.inl ⟨d, hd, ?_⟩)
    obtain ⟨qualifier, mechanism⟩ := d
    cases mechanism <;> cases included
    exact ⟨_, rfl⟩
  · cases m with
    | redirect spec => exact absurd (.inr ⟨spec, hm⟩) h
    | _ => rfl
  · rfl

end Confined

/-! ## The evaluation of the forwarder -/

/-- How far the evaluation of the forwarder's own record has come, as long as the record refers to
no other domain: it is on the way to the record, with nothing added to the terms, or follows
them. -/
inductive OwnEvaluation (ctx : Context) (s : State) (below : List Frame) : Machine → Prop
  | begun : OwnEvaluation ctx s below ⟨.proceed, s, .evaluation :: below⟩
  | stages {q : Signal} {t : State} {sts : List Policy.Stage} (unexplained : q.explains = false)
      (domain : t.domain = s.domain) (left : sts <:+ ctx.policy.stages)
      (unchanged : ∀ record ∈ t.record, ∃ text, record.HasTermsOf text) :
      OwnEvaluation ctx s below ⟨q, t, sts.map .stage ++ .terms :: below⟩
  | terms {q : Signal} {t : State} {own : List Frame} (confined : ∀ f ∈ own, f.isConfined) :
      OwnEvaluation ctx s below ⟨q, t, own ++ below⟩

/-- The record of the domain is about to be evaluated, as it was read, and refers to another
domain. -/
def OpensReferring (s : State) (below : List Frame) (m : Machine) : Prop :=
  m.signal = .proceed ∧ m.frames = .terms :: below ∧ m.state.domain = s.domain ∧
    ∃ record ∈ m.state.record, record.Refers ∧ ∃ text, record.HasTermsOf text

namespace OwnEvaluation

variable {ctx : Context} {s t : State} {q : Signal} {below : List Frame} {m m' : Machine}
  {forwarder : String}

theorem of_frames {own : List Frame} (hf : m.frames = own ++ below)
    (confined : ∀ f ∈ own, f.isConfined) : OwnEvaluation ctx s below m := by
  obtain ⟨q, t, frames⟩ := m
  subst hf
  exact .terms confined

/-- Behind a stage on the way to the forwarder's record, nothing is added to its terms. -/
theorem of_stage {st : Policy.Stage} {sts : List Policy.Stage}
    (hf : ctx.policy.trustedForwarder = some forwarder)
    (same : Text.sameFolded s.domain forwarder) (domain : t.domain = s.domain)
    (left : st :: sts <:+ ctx.policy.stages)
    (unchanged : ∀ record ∈ t.record, ∃ text, record.HasTermsOf text) :
    OwnEvaluation ctx s below ((stageStep t st).above (sts.map .stage ++ .terms :: below)) := by
  have unchanged : ∀ record ∈ (stageStep t st).state.record, ∃ text, record.HasTermsOf text := by
    refine stageStep_record (fun text record hp => ⟨text, record, hp, rfl, rfl⟩) ?_
      (fun _ _ h => h) unchanged
    -- the only forwarder that a stage includes is the domain itself
    rintro other rfl apart
    have set := trustedForwarder_of_mem (left.subset List.mem_cons_self)
    rw [hf, Option.some.injEq] at set
    rw [domain, ← set, same] at apart
    cases apart
  have behind : sts <:+ ctx.policy.stages := (List.suffix_cons st sts).trans left
  have turn := stageStep_turn ctx t st
  generalize stageStep t st = r at turn unchanged
  cases turn with
  | found | lost | asked => exact .stages rfl domain behind unchanged

/-- Nothing of an evaluation is left where its last frame is. -/
theorem not_kept (fits : Frame.evaluation.Fits below)
    (hs : Machine.step ctx ⟨q, t, below⟩ = some m') : ¬below <:+ m'.frames := by
  obtain ⟨g, rest, rfl, hg⟩ := fits
  have gone : m'.frames = rest := by
    cases q with
    | await request listener => cases hs
    | proceed =>
      cases hs
      cases g <;> first | rfl | cases hg
    | raise cause =>
      obtain ⟨q, t, rfl⟩ := Machine.step_raise hs
      rfl
  intro kept
  have shorter := kept.length_le
  rw [gone, List.length_cons] at shorter
  omega

/-- Where an evaluation begins, it is that of the forwarder itself. -/
theorem begun_of_evaluation {fs : List Frame} (fits : Frame.evaluation.Fits below)
    (h : OwnEvaluation ctx s below ⟨q, t, .evaluation :: fs⟩) : t = s ∧ fs = below := by
  generalize hm : (⟨q, t, .evaluation :: fs⟩ : Machine) = m at h
  cases h with
  | begun =>
    cases hm
    exact ⟨rfl, rfl⟩
  | @stages _ _ sts =>
    have frames := congrArg Machine.frames hm
    cases sts <;> cases frames
  | @terms _ _ own confined =>
    have frames := congrArg Machine.frames hm
    cases own with
    | nil =>
      obtain ⟨g, rest, rfl, hg⟩ := fits
      cases frames
      cases hg
    | cons f own =>
      cases frames
      cases confined _ List.mem_cons_self

/-- The evaluation of the forwarder goes on without another evaluation, or opens a record that
refers to one. -/
theorem next (hf : ctx.policy.trustedForwarder = some forwarder)
    (same : Text.sameFolded s.domain forwarder) (unfound : s.record = none)
    (fits : Frame.evaluation.Fits below) (h : OwnEvaluation ctx s below m)
    (hc : m'.Continues ctx m) (kept : below <:+ m'.frames) :
    OwnEvaluation ctx s below m' ∨ OpensReferring s below m := by
  cases h with
  | begun =>
    rcases hc with hs | ⟨_, _, _, hw, -⟩
    · cases hs
      refine .inl ?_
      simp only [Frame.check, Reaction.above, Reaction.leave, List.append_assoc,
        List.singleton_append]
      exact .stages rfl rfl List.suffix_rfl (by simp [unfound])
    · cases hw
  | @stages q t sts unexplained domain left unchanged =>
    rcases hc with hs | ⟨request, listener, answer, hw, rfl⟩
    · cases q with
      | await request listener => cases hs
      | raise cause =>
        -- a cause takes the stages and the terms away
        cases sts with
        | nil =>
          cases hs
          exact .inl (.of_frames (List.nil_append below).symm (List.forall_mem_nil _))
        | cons st sts =>
          cases hs
          exact .inl (.stages rfl domain ((List.suffix_cons st sts).trans left) unchanged)
      | proceed =>
        cases sts with
        | cons st sts =>
          cases hs
          exact .inl (of_stage hf same domain left unchanged)
        | nil =>
          cases hs
          have turn := check_turn ctx t .terms
          simp only [List.map_nil, List.nil_append]
          generalize Frame.check ctx t .terms = r at turn
          cases turn with
          | missing => exact .inl (.of_frames (List.nil_append below).symm (List.forall_mem_nil _))
          | opened record hr =>
            by_cases refers : record.Refers
            · exact .inr ⟨rfl, rfl, domain, record, hr, refers, unchanged record hr⟩
            · exact .inl (.terms (confined_framesOf refers))
    · cases hw
      have keeps := (resume_heard ctx answer t listener).keeps (by rintro rfl; cases unexplained)
      simp only [Machine.resume, Reaction.above, keeps.frames, List.nil_append]
      exact .inl (.stages keeps.explains (keeps.domain.trans domain) left (keeps.record ▸ unchanged))
  | @terms q t own confined =>
    rcases hc with hs | ⟨request, listener, answer, hw, rfl⟩
    · cases own with
      | nil => exact absurd kept (not_kept fits hs)
      | cons f own =>
        rw [List.forall_mem_cons] at confined
        cases q with
        | await request listener => cases hs
        | raise cause =>
          obtain ⟨q, t, rfl⟩ := Machine.step_raise hs
          exact .inl (.terms confined.2)
        | proceed =>
          cases hs
          have left := (check_turn ctx t f).confined confined.1
          have frames : ((f.check ctx t).above (own ++ below)).frames =
              ((f.check ctx t).frames ++ own) ++ below := (List.append_assoc ..).symm
          exact .inl (.of_frames frames (List.forall_mem_append.mpr ⟨left, confined.2⟩))
    · cases hw
      have left := (resume_heard ctx answer t listener).confined
      have frames : (Machine.resume ctx answer ⟨.await request listener, t, own ++ below⟩).frames =
          ((listener.resume ctx answer t).frames ++ own) ++ below := (List.append_assoc ..).symm
      exact .inl (.of_frames frames (List.forall_mem_append.mpr ⟨left, confined⟩))

end OwnEvaluation

section Forwarder

variable {ctx : Context} {identity : Identity} {receivingDomain : Option String}
  {terms lookups : Nat} {s t : State} {below fs : List Frame} {forwarder : String}

/-- While the forwarder's own record is evaluated, another evaluation begins only by the terms that
the record itself has: as it was read, without the directive that the forwarder's stage adds to
others, it includes or redirects to another domain. -/
theorem forwarder_reentered_by_own_terms (hf : ctx.policy.trustedForwarder = some forwarder)
    (reached : Reaches ctx (machineOf identity receivingDomain) terms lookups
      ⟨.proceed, s, .evaluation :: below⟩)
    (same : Text.sameFolded s.domain forwarder)
    (inside : Within ctx below ⟨.proceed, s, .evaluation :: below⟩
      ⟨.proceed, t, .evaluation :: fs⟩) :
    (t = s ∧ fs = below) ∨ ∃ u record text read,
      Within ctx below ⟨.proceed, s, .evaluation :: below⟩ ⟨.proceed, u, .terms :: below⟩ ∧
      u.domain = s.domain ∧ u.record = some record ∧ Record.parse text = .ok read ∧
      record.directives = read.directives ∧ record.modifiers = read.modifiers ∧ read.Refers := by
  have ordered := reached.orderly (.begin identity receivingDomain)
  have unfound : s.record = none :=
    reached.acquiring.record_eq_none (fun ended => by cases ended.turns) (apart_cons below rfl)
  -- on the points within the evaluation, up to the one that opens a record that refers to another
  have evaluated {m : Machine} (h : Within ctx below ⟨.proceed, s, .evaluation :: below⟩ m) :
      OwnEvaluation ctx s below m ∨ ∃ u,
        Within ctx below ⟨.proceed, s, .evaluation :: below⟩ u ∧ OpensReferring s below u := by
    induction h with
    | refl => exact .inl .begun
    | next before hc kept ih =>
      rcases ih with own | opened
      · exact (own.next hf same unfound ordered.stacked.1 hc kept).imp_right
          fun opens => ⟨_, before, opens⟩
      · exact .inr opened
  rcases evaluated inside with own | ⟨u, within, opens⟩
  · exact .inl (own.begun_of_evaluation ordered.stacked.1)
  · obtain ⟨signal, u, frames⟩ := u
    obtain ⟨rfl, rfl, domain, record, hr, refers, text, read, hp, hd, hm⟩ := opens
    refine .inr ⟨u, record, text, read, within, domain, hr, hp, hd, hm, ?_⟩
    unfold Record.Refers at refers ⊢
    rwa [← hd, ← hm]

end Forwarder

/-- The forwarder's own record includes another domain, by a term of its own. -/
theorem forwarder_reentered_by_own_terms_of_inclusion :
    ∃ start t fs, Within ⟨{ Policy.standard with trustedForwarder := some "F.g" }, [], 10⟩
        [.conclusion] start ⟨.proceed, t, .evaluation :: fs⟩ ∧
      start = machineOf ⟨.v4 1#32, "a@f.g", "a", "f.g", "b", 0⟩ none ∧ t.domain = "c.d" ∧
      ∃ text read, Record.parse text = .ok read ∧ read.Refers := by
  have reached := @Reaches.refl ⟨{ Policy.standard with trustedForwarder := some "F.g" }, [], 10⟩
    (machineOf ⟨.v4 1#32, "a@f.g", "a", "f.g", "b", 0⟩ none)
  -- the record of the forwarder, up to its inclusion
  have looked := (((@Within.refl ⟨{ Policy.standard with trustedForwarder := some "F.g" }, [], 10⟩
    [.conclusion] (machineOf ⟨.v4 1#32, "a@f.g", "a", "f.g", "b", 0⟩ none)).next (Or.inl rfl)
      ⟨[_, _, _, _, _, _, _, _], rfl⟩).next (Or.inl rfl) ⟨[_, _, _, _, _, _, _], rfl⟩).next
        (Or.inl rfl) ⟨[_, _, _, _, _, _], rfl⟩
  have found := (looked.next (Or.inr ⟨_, _, .ok [], rfl, rfl⟩) ⟨[_, _, _, _, _, _], rfl⟩).next
    (Or.inr ⟨_, _, .ok ["v=spf1 include:c.d"], rfl, rfl⟩) ⟨[_, _, _, _, _, _], rfl⟩
  have opened := ((((((found.next (Or.inl rfl) ⟨[_, _, _, _, _], rfl⟩).next (Or.inl rfl)
    ⟨[_, _, _, _], rfl⟩).next (Or.inl rfl) ⟨[_, _, _], rfl⟩).next (Or.inl rfl)
      ⟨[_, _], rfl⟩).next (Or.inl rfl) ⟨[_], rfl⟩).next (Or.inl rfl) ⟨[_, _, _], rfl⟩)
  have begun := opened.next (Or.inl rfl) ⟨[_, _, _, _, _], rfl⟩
  rcases forwarder_reentered_by_own_terms rfl reached (by decide) begun with ⟨hs, -⟩ |
    ⟨_, _, text, read, -, -, -, hp, -, -, refers⟩
  · cases congrArg State.depth hs
  · exact ⟨_, _, _, begun, rfl, rfl, text, read, hp, refers⟩

/-- The record of a domain that the forwarder includes is made to include the forwarder: its
evaluation begins again while it is set aside, though no record that was read includes it. -/
theorem forwarder_included_into_itself :
    ∃ exchanges t fs, Course ⟨{ Policy.standard with trustedForwarder := some "f.g" }, [], 10⟩
        (machineOf ⟨.v4 1#32, "a@f.g", "a", "f.g", "b", 0⟩ none) exchanges
        ⟨.proceed, t, .evaluation :: fs⟩ ∧
      t.domain = "f.g" ∧ .restoration "f.g" none false ∈ fs ∧
      exchanges.map (fun e => (e.request, e.answer)) =
        [(⟨"f.g", .spf⟩, .ok []), (⟨"f.g", .txt⟩, .ok ["v=spf1 include:c.d"]),
          (⟨"c.d", .spf⟩, .ok []), (⟨"c.d", .txt⟩, .ok ["v=spf1"])] := by
  -- the record of the forwarder, up to its inclusion
  have looked := (((@Course.refl ⟨{ Policy.standard with trustedForwarder := some "f.g" }, [], 10⟩
    (machineOf ⟨.v4 1#32, "a@f.g", "a", "f.g", "b", 0⟩ none)).snoc rfl).snoc rfl).snoc rfl
  have opened := ((((((looked.snoc_answer rfl (.ok [])).snoc_answer rfl
    (.ok ["v=spf1 include:c.d"])).snoc rfl).snoc rfl).snoc rfl).snoc rfl).snoc rfl |>.snoc rfl
  -- the record of the included domain, up to the inclusion that was added to it
  have begun := (((opened.snoc rfl).snoc rfl).snoc rfl).snoc rfl
  have added := ((((((begun.snoc_answer rfl (.ok [])).snoc_answer rfl
    (.ok ["v=spf1"])).snoc rfl).snoc rfl).snoc rfl).snoc rfl).snoc rfl |>.snoc rfl
  exact ⟨_, _, _, added.snoc rfl, rfl, List.mem_of_getElem? (i := 4) rfl, rfl⟩

end Evaluation

end SenderPolicy
