import SenderPolicy.Proofs.Course.Explanations
import SenderPolicy.Proofs.Simulation.Visits

/-!
# Computations that learn nothing but answers

Where a domain's record comes from, and what a mechanism makes of the names it looks up, does not
depend on what a check has found out before: such a computation comes to the same wherever it is
made, and asks for the same. Of other computations it is enough to know what they come to whenever
they come to something.

## Main definitions

* `Steady`: a computation that comes to the same, whatever is known
* `Yields`: a computation comes to nothing else

## Main results

* `steady_acquireStage`: the stages of a domain
* `steady_exchangesMatch`, `steady_namesMatch`: the lookups of mechanisms
* `yields_followModifier`, `yields_followDecoration`: what follows the directives keeps a verdict
-/

namespace SenderPolicy.Evaluation.Direct

variable {α β ι : Type} {given : Situation} {k k' : Knowledge}

/-! ## What a computation comes to, whatever is known -/

/-- What the computation comes to, and what it asks for, does not depend on what is known. -/
def Steady (x : Eval α) : Prop :=
  ∃ ended made, ∀ k : Knowledge, resultOf k x = (ended, { k with requests := k.requests ++ made })

namespace Steady

theorem pure (a : α) : Steady (Pure.pure a : Eval α) :=
  ⟨.ok a, [], fun k => by rw [resultOf_pure, List.append_nil]⟩

theorem throw (cause : Error) : Steady (MonadExcept.throw cause : Eval α) :=
  ⟨.error cause, [], fun k => by rw [resultOf_throw, List.append_nil]⟩

theorem ask (given : Situation) (host : String) (type : Dns.RecordType) :
    Steady (Direct.ask given host type) :=
  ⟨_, [⟨host, type⟩], fun k => resultOf_ask given host type k⟩

theorem bind {x : Eval α} {f : α → Eval β} (h : Steady x) (hf : ∀ a, Steady (f a)) :
    Steady (x >>= f) := by
  obtain ⟨ended, made, h⟩ := h
  cases ended with
  | error cause => exact ⟨.error cause, made, fun k => by rw [resultOf_bind, h]⟩
  | ok a =>
    obtain ⟨ended, made', hf⟩ := hf a
    refine ⟨ended, made ++ made', fun k => ?_⟩
    rw [resultOf_bind, h]
    simp only [hf, List.append_assoc]

theorem ite {p : Prop} [Decidable p] {x y : Eval α} (hx : Steady x) (hy : Steady y) :
    Steady (if p then x else y) := by
  split
  · exact hx
  · exact hy

theorem foldlM {body : α → ι → Eval α} (each : ∀ a i, Steady (body a i)) (is : List ι) (a : α) :
    Steady (is.foldlM body a) := by
  induction is generalizing a with
  | nil => exact .pure a
  | cons i is ih =>
    rw [List.foldlM_cons]
    exact (each a i).bind ih

/-- It comes to the same elsewhere. -/
theorem elsewhere {x : Eval α} {ended : Except Error α} (h : Steady x)
    (hx : resultOf k x = (ended, k')) (l : Knowledge) : ∃ l', resultOf l x = (ended, l') := by
  obtain ⟨ended', made, h⟩ := h
  rw [h] at hx
  cases hx
  exact ⟨_, h l⟩

end Steady

theorem steady_askRecords (host : String) (type : Dns.RecordType) :
    Steady (askRecords given host type) :=
  (Steady.ask given host type).bind fun answer => by
    cases answer with
    | ok records => exact .pure records
    | error cause => exact .throw _

theorem steady_askNames (host : String) (type : Dns.RecordType) :
    Steady (askNames given host type) :=
  (Steady.ask given host type).bind fun answer => by
    cases answer with
    | ok records => exact .pure records
    | error cause => exact .pure []

theorem steady_exchangesMatch (lengths : CidrLengths) (hosts : List String) :
    Steady (exchangesMatch given lengths hosts) := by
  induction hosts with
  | nil => exact .pure false
  | cons host rest ih => exact (steady_askRecords _ _).bind fun _ => .ite (.pure true) ih

theorem steady_namesMatch (names : List String) : Steady (namesMatch given names) := by
  induction names with
  | nil => exact .pure false
  | cons name rest ih => exact (steady_askNames _ _).bind fun _ => .ite (.pure true) ih

theorem steady_liftExcept (result : Except Error α) : Steady (published.liftExcept result) := by
  cases result with
  | ok value => exact .pure value
  | error cause => exact .throw cause

theorem steady_published (domain : String) (isStrict : Bool) :
    Steady (published given domain isStrict) :=
  (steady_askRecords _ _).bind fun _ => (steady_liftExcept _).bind fun _ =>
    .ite (.pure _) ((steady_askRecords _ _).bind fun _ => (steady_liftExcept _).bind fun _ =>
      .ite (steady_liftExcept _) (.pure _))

/-- What a stage finds depends on the domain, and on what was found of its record before. -/
theorem steady_acquireStage (domain : String) (found : Found) (st : Policy.Stage) :
    Steady (acquireStage given domain found st) := by
  cases st with
  | overrides | fallbacks | neutralWithoutMatch | explanation => exact .pure _
  | wellFormed => exact .ite ((Steady.throw _).bind fun _ => .pure _) (.pure _)
  | published isStrict =>
    exact .ite (.pure _) ((steady_published domain isStrict).bind fun _ => .pure _)
  | bestGuess text => exact .ite (.pure _) (.pure _)
  | parsed =>
    simp only [acquireStage]
    split
    · exact .pure _
    · split
      · exact .pure _
      · exact .throw _
  | required => exact .ite ((Steady.throw _).bind fun _ => .pure _) (.pure _)
  | trustedForwarder forwarder => exact .ite (.pure _) (.pure _)

/-! ## What computations come to if they come to something -/

/-- The computation comes to nothing else. -/
def Yields (P : α → Prop) (x : Eval α) : Prop :=
  ∀ ⦃k a k'⦄, resultOf k x = (.ok a, k') → P a

namespace Yields

variable {P : α → Prop}

theorem pure {a : α} (h : P a) : Yields P (Pure.pure a) := by
  intro k b k' hx
  cases hx
  exact h

theorem bind {x : Eval β} {f : β → Eval α} (h : ∀ b, Yields P (f b)) : Yields P (x >>= f) := by
  intro k a k' hx
  obtain ⟨b, k₁, -, hx⟩ := resultOf_bind_eq_ok hx
  exact h b hx

theorem foldlM {body : α → ι → Eval α} (is : List ι)
    (each : ∀ i ∈ is, ∀ a, P a → Yields P (body a i)) {a : α} (ha : P a) :
    Yields P (is.foldlM body a) := by
  induction is generalizing a with
  | nil => exact .pure ha
  | cons i is ih =>
    rw [List.forall_mem_cons] at each
    intro k b k' hx
    rw [List.foldlM_cons] at hx
    obtain ⟨a', k₁, hi, hx⟩ := resultOf_bind_eq_ok hx
    exact ih each.2 (each.1 a ha hi) hx

end Yields

section Verdicts

variable {standing : Standing} {evaluate : Standing → Eval Standing}

theorem yields_explainBy (template : String) :
    Yields (fun last => last.verdict = standing.verdict) (explainBy given template standing) :=
  .bind fun text => by cases text <;> exact .pure rfl

theorem yields_explainByDefault :
    Yields (fun last => last.verdict = standing.verdict) (explainByDefault given standing) := by
  unfold explainByDefault
  split
  · exact yields_explainBy _
  · exact .pure rfl

theorem yields_explainByPublished (spec : String) :
    Yields (fun last => last.verdict = standing.verdict)
      (explainByPublished given spec standing) := by
  refine .bind fun host => ?_
  cases host with
  | error cause => exact yields_explainByDefault
  | ok host =>
    refine .bind fun texts => ?_
    split
    · exact .bind fun text => by
        cases text with
        | ok text => exact .pure rfl
        | error cause => exact yields_explainByDefault
    · exact yields_explainByDefault

/-- A modifier keeps a verdict; only a redirection decides where nothing is decided. -/
theorem yields_followModifier {m : Modifier}
    (h : standing.verdict.isSome ∨ (Frame.modifier m).isSpent) :
    Yields (fun last => last.verdict = standing.verdict)
      (followModifier given evaluate standing m) := by
  cases m with
  | redirect spec =>
    have decided : standing.verdict.isSome := h.resolve_right Bool.false_ne_true
    simp only [followModifier, if_pos decided]
    exact .pure rfl
  | explanation spec =>
    simp only [followModifier]
    split
    · exact yields_explainByPublished spec
    · exact .pure rfl
  | unknown name value => exact .pure rfl

/-- The verdict of an evaluation, as the last frame of a check reads it. -/
def Standing.decided (standing : Standing) : Qualifier :=
  standing.verdict.getD .neutral

/-- A decoration decides nothing that is not so without it. -/
theorem yields_followDecoration (d : Decoration) :
    Yields (fun last => last.decided = standing.decided) (followDecoration given standing d) := by
  cases d with
  | neutralWithoutMatch =>
    refine .pure ?_
    unfold Standing.decided
    cases standing.verdict <;> rfl
  | explanation template =>
    simp only [followDecoration]
    split
    · exact fun _ _ _ hx => congrArg (·.getD .neutral) (yields_explainBy template hx)
    · exact .pure rfl

end Verdicts

end SenderPolicy.Evaluation.Direct
