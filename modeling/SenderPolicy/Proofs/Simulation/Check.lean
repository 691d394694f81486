import SenderPolicy.Check
import SenderPolicy.Proofs.Simulation.Terms

/-!
# Checks that follow direct evaluation

The machine of a whole check makes the lookups of direct evaluation and commits the result and the
explanation that it comes to. Of the terms with lookups that direct evaluation is allowed, a spare
one is never used.

## Main results

* `finish_follows`: a whole check, for any allowance above the limit
* `finish_eq_evaluateSender`: the machine and direct evaluation of the sender's domain
-/

namespace SenderPolicy.Evaluation.Direct

/-- What is known when a check starts. -/
def Knowledge.initial (receivingDomain : Option String) : Knowledge :=
  ⟨0, none, receivingDomain, []⟩

/-- The standing at which the evaluation of the sender's domain begins. -/
def Standing.ofSender (identity : Identity) : Standing :=
  ⟨identity.senderDomain, none, none, false⟩

/-- The last frame commits the result of the evaluation above it. -/
theorem finish_conclusion {given : Situation} {origin : Standing} {k : Knowledge} {s : State}
    {ended : Except Error Standing} (ho : origin.explanation = none)
    (he : Ends origin (Stands given origin) ended k s) :
    ∃ last, Machine.finish given.ctx given.service ⟨signalOf ended, s, [.conclusion]⟩ = ([], last) ∧
      last.result = some (conclude ended).1 ∧ last.explanation = (conclude ended).2 ∧
        Holds k last := by
  cases ended with
  | ok standing =>
    obtain ⟨⟨matched, rfl⟩, -⟩ := he
    refine ⟨_, (Machine.finish_of_step rfl).trans (Machine.finish_of_end _ _ _), rfl, rfl, ?_⟩
    exact ⟨rfl, rfl, rfl⟩
  | error cause =>
    -- the first cause that reaches the last frame is the result
    refine ⟨s.conclude cause.result,
      (Machine.finish_of_step rfl).trans (Machine.finish_of_end _ _ _), ?_⟩
    have concluded : s.conclude cause.result = { s with result := some cause.result } := by
      rw [State.conclude, he.result]
    rw [concluded]
    exact ⟨rfl, he.explanation.trans ho, he.holds.depth, he.holds.clientDomain,
      he.holds.receivingDomain⟩

/-- A whole check follows the evaluation of the sender's domain, for any allowance above the
limit. -/
theorem finish_follows (given : Situation) (receivingDomain : Option String) {allowance : Nat}
    (ha : maxTerms < allowance) :
    ∃ ended known last,
      resultOf (.initial receivingDomain)
        (evaluate given allowance (.ofSender given.identity)) = (ended, known) ∧
      (machineOf given.identity receivingDomain).finish given.ctx given.service =
        (known.requests, last) ∧
      last.result = some (conclude ended).1 ∧ last.explanation = (conclude ended).2 ∧
        Holds known last := by
  have follows : Follows given (.ofSender given.identity)
      (.leave (.initial given.identity receivingDomain) [.evaluation]) (.initial receivingDomain)
      (evaluate given allowance (.ofSender given.identity))
      (Stands given (.ofSender given.identity)) :=
    follows_evaluate allowance rfl (Nat.zero_le _) (by simpa [Knowledge.initial] using ha)
  obtain ⟨ended, known, s, hx, -, he, hm⟩ := follows
  obtain ⟨last, hl, holds⟩ := finish_conclusion rfl he
  refine ⟨ended, known, last, hx, ?_, holds⟩
  -- what holds whatever lies below holds above the last frame
  have hm := hm [.conclusion]
  simp only [finishAfter, hl, List.append_nil] at hm
  exact hm

/-- The machine and direct evaluation of the sender's domain make the same lookups, in order, come
to the same result and explanation, and know the same in the end. -/
theorem finish_eq_evaluateSender (given : Situation) (receivingDomain : Option String) :
    let run := (machineOf given.identity receivingDomain).finish given.ctx given.service
    let direct := (evaluateSender given).run.run (.initial receivingDomain)
    run.1 = direct.2.requests ∧
      run.2.result = some (conclude direct.1).1 ∧ run.2.explanation = (conclude direct.1).2 ∧
      run.2.depth = direct.2.depth ∧ run.2.clientDomain = direct.2.clientDomain ∧
      run.2.receivingDomain = direct.2.receivingDomain ∧
      (run.1, outcomeOf given.identity (some run.2)) = outcome given receivingDomain := by
  obtain ⟨ended, known, last, hx, hm, hr, he, holds⟩ :=
    finish_follows given receivingDomain (Nat.lt_succ_self maxTerms)
  have hx : (evaluateSender given).run.run (.initial receivingDomain) = (ended, known) := hx
  dsimp only
  rw [hm, hx]
  refine ⟨rfl, hr, he, holds.depth, holds.clientDomain, holds.receivingDomain, ?_⟩
  have ho : outcome given receivingDomain = (known.requests,
      .ofResult (conclude ended).1 given.identity.headerFields (conclude ended).2) := by
    unfold outcome
    rw [show (evaluateSender given).run.run ⟨0, none, receivingDomain, []⟩ = _ from hx]
  rw [ho, outcomeOf, hr, he]
  rfl

end SenderPolicy.Evaluation.Direct
