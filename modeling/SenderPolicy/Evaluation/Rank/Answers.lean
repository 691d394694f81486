import SenderPolicy.Evaluation.Rank.Frames

/-!
# Answers lower the rank

What a listener leaves ranks below the wait for its answer. A list that an answer brings is as long
as the answer likes; it is spent member by member, and no second one follows it.

## Main results

* `resume_lower`: an answer leaves less than was left while it was awaited
-/

namespace SenderPolicy.Evaluation

/-! ## Lists of names -/

/-- A listener that goes on with less of its list, or without a list, leaves less than it took. -/
theorem await_lower {s : State} {host : String} {type : Dns.RecordType} {request : Dns.Request}
    {l k : Listener} (hl : (Signal.await request l).IsPlain)
    (hk : (Signal.await ⟨host, type⟩ k).IsPlain)
    (h : Signal.stagesAhead (.await ⟨host, type⟩ k) < Signal.stagesAhead (.await request l) ∨
      Signal.stagesAhead (.await ⟨host, type⟩ k) = Signal.stagesAhead (.await request l) ∧
      (Signal.listsAhead (.await ⟨host, type⟩ k) < Signal.listsAhead (.await request l) ∨
        Signal.listsAhead (.await ⟨host, type⟩ k) = Signal.listsAhead (.await request l) ∧
        Signal.workAhead (.await ⟨host, type⟩ k) < Signal.workAhead (.await request l))) :
    Lower (Reaction.await s host type k).rank (rankOf s [] (.await request l)) :=
  lower_of_parts rfl ((hk _).trans (hl _).symm) (by simpa [Reaction.await] using h)

theorem nextExchange_lower {s : State} {request : Dns.Request} {l : Listener}
    {lengths : CidrLengths} {rest : List String} (hl : (Signal.await request l).IsPlain)
    (h : 0 < (Signal.await request l).listsAhead ∨
      (Signal.await request l).stagesAhead = 0 ∧ (Signal.await request l).listsAhead = 0 ∧
        rest.length + 1 < (Signal.await request l).workAhead) :
    Lower (nextExchange lengths s rest).rank (rankOf s [] (.await request l)) := by
  cases rest with
  | nil =>
    refine lower_of_parts rfl (hl _).symm ?_
    simp [nextExchange, State.settle, Reaction.done] at h ⊢
    omega
  | cons host rest =>
    refine await_lower hl (fun _ => rfl) ?_
    simp [Signal.stagesAhead, Signal.listsAhead, Signal.workAhead] at h ⊢
    omega

theorem nextPointer_lower {s : State} {request : Dns.Request} {l : Listener}
    {rest : List String} (hl : (Signal.await request l).IsPlain)
    (h : 0 < (Signal.await request l).listsAhead ∨
      (Signal.await request l).stagesAhead = 0 ∧ (Signal.await request l).listsAhead = 0 ∧
        rest.length + 1 < (Signal.await request l).workAhead) :
    Lower (nextPointer s rest).rank (rankOf s [] (.await request l)) := by
  cases rest with
  | nil =>
    refine lower_of_parts rfl (hl _).symm ?_
    simp [nextPointer, State.settle, Reaction.done] at h ⊢
    omega
  | cons host rest =>
    refine await_lower hl (fun _ => rfl) ?_
    simp [Signal.stagesAhead, Signal.listsAhead, Signal.workAhead] at h ⊢
    omega

/-! ## Listeners in their turn -/

/-- An answer leaves less than was left while it was awaited. -/
theorem resume_lower (ctx : Context) (answer : Dns.Answer) (s : State) (request : Dns.Request)
    (l : Listener) : Lower (l.resume ctx answer s).rank (rankOf s [] (.await request l)) := by
  have two : 2 ≤ (Signal.await request l).workAhead := by
    cases l <;> simp [Signal.workAhead]
  have done {t : State} (hd : t.depth = s.depth) (hc : t.clientDomain = s.clientDomain)
      (hl : (Signal.await request l).IsPlain) :
      Lower (Reaction.done t).rank (rankOf s [] (.await request l)) := by
    refine done_lower hd hc hl ?_
    simp only [total_nil]
    omega
  have fail {t : State} {cause : Error} (hd : t.depth = s.depth)
      (hc : t.clientDomain = s.clientDomain) (hl : (Signal.await request l).IsPlain) :
      Lower (Reaction.fail t cause).rank (rankOf s [] (.await request l)) := by
    refine fail_lower hd hc hl ?_
    simp only [total_nil]
    omega
  cases l with
  | policyRecords domain isStrict =>
    simp only [Listener.resume, policyAnswered]
    split
    · exact fail rfl rfl fun _ => rfl
    · split
      · exact done rfl rfl fun _ => rfl
      · exact await_lower (fun _ => rfl) (fun _ => rfl) (Or.inl (by simp [Signal.stagesAhead]))
  | textRecords isStrict other =>
    simp only [Listener.resume, textAnswered]
    split
    · exact fail rfl rfl fun _ => rfl
    · exact done rfl rfl fun _ => rfl
  | addresses lengths =>
    simp only [Listener.resume, addressesAnswered]
    split
    · exact fail rfl rfl fun _ => rfl
    · exact done rfl rfl fun _ => rfl
  | exchanges lengths =>
    simp only [Listener.resume, exchangesAnswered]
    split
    · exact fail rfl rfl fun _ => rfl
    · -- the list has come, and there is none ahead any more
      exact nextExchange_lower (fun _ => rfl) (Or.inl (by simp [Signal.listsAhead]))
  | exchangeAddresses rest lengths =>
    simp only [Listener.resume, exchangeAddressesAnswered]
    split
    · exact fail rfl rfl fun _ => rfl
    · split
      · exact done rfl rfl fun _ => rfl
      · -- the list is shorter by the exchange that was looked up
        refine nextExchange_lower (fun _ => rfl) (Or.inr ⟨rfl, rfl, ?_⟩)
        simp only [Signal.workAhead]
        omega
  | pointers target =>
    simp only [Listener.resume, pointersAnswered]
    split
    · exact nextPointer_lower (fun _ => rfl) (Or.inl (by simp [Signal.listsAhead]))
    · exact nextPointer_lower (fun _ => rfl) (Or.inl (by simp [Signal.listsAhead]))
  | pointerAddresses rest =>
    simp only [Listener.resume, pointerAddressesAnswered]
    have next : Lower (nextPointer s rest).rank
        (rankOf s [] (.await request (.pointerAddresses rest))) := by
      refine nextPointer_lower (fun _ => rfl) (Or.inr ⟨rfl, rfl, ?_⟩)
      simp only [Signal.workAhead]
      omega
    split
    · exact next
    · split
      · exact done rfl rfl fun _ => rfl
      · exact next
  | existence =>
    simp only [Listener.resume, existenceAnswered]
    split
    · exact fail rfl rfl fun _ => rfl
    · exact done rfl rfl fun _ => rfl
  | explanationTexts =>
    have hp : (Signal.await request .explanationTexts).IsPlain := fun _ => rfl
    have hw : 0 < total Frame.workAhead [] + (Signal.await request .explanationTexts).workAhead := by
      simp [Signal.workAhead]
    simp only [Listener.resume, explanationAnswered]
    split
    · unfold expandTo
      apply expandFor_cases
        (P := fun r => Lower r.rank (rankOf s [] (.await request .explanationTexts)))
      · intro text
        cases text with
        | ok text => exact done_lower (by simp) (by simp) hp hw
        | error cause => exact explainByDefault_lower (by simp) (by simp) hp hw
      · exact fun h => aside_lower (by simp) (by simp) h hp
    · exact explainByDefault_lower rfl rfl hp hw
  | clientNames =>
    -- the validation has come one lookup further, or is over
    simp only [Listener.resume, clientNamed]
    split
    · refine lower_of_parts_of_le rfl ?_ ?_
      · simp only [Reaction.await, Signal.validationAhead]
        omega
      · simp [Reaction.await, Signal.stagesAhead, Signal.listsAhead, Signal.workAhead]
    · refine lower_of_parts_of_le rfl ?_ ?_
      · simp [Reaction.done, Signal.validationAhead, State.validationAhead]
      · simp [Reaction.done, Signal.stagesAhead, Signal.listsAhead, Signal.workAhead]
  | clientAddresses name =>
    -- the client has a name now
    refine lower_of_parts_of_le rfl ?_ ?_
    · simp [Listener.resume, Reaction.done, State.clientValidated, Signal.validationAhead,
        State.validationAhead]
    · simp [Listener.resume, Reaction.done, Signal.stagesAhead, Signal.listsAhead,
        Signal.workAhead]

end SenderPolicy.Evaluation
