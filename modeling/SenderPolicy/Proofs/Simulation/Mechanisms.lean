import SenderPolicy.Proofs.Simulation.Records

/-!
# Mechanisms that follow the question whether they match

A mechanism leaves its answer in the state, where the frame below it finds it. An included policy is
evaluated above a frame that puts back what the inclusion set aside; what is known stays.

## Main definitions

* `Stands`: the state of the machine when the evaluation of a domain has ended
* `Evaluates`: frames follow the evaluation of other domains

## Main results

* `follows_counted`: a term with lookups in its turn
* `follows_onBehalf`: an evaluation on behalf of another policy
* `follows_mechanism`: a mechanism in its turn
-/

namespace SenderPolicy.Evaluation.Direct

variable {α : Type} {given : Situation} {origin standing : Standing} {matched : Option Bool}
  {k : Knowledge}

/-! ## Terms with lookups -/

theorem resultOf_count (hk : k.depth < maxTerms) :
    resultOf k count = (.ok (), { k with depth := k.depth + 1 }) := by
  rw [count, resultOf_bind, resultOf_get]
  simp only [hk, if_true]
  rfl

theorem resultOf_count_of_le (hk : maxTerms ≤ k.depth) :
    resultOf k count = (.error (.tooManyTerms maxTerms), k) := by
  rw [count, resultOf_bind, resultOf_get]
  simp only [Nat.not_lt.mpr hk, if_false]
  rfl

/-- A term with lookups in its turn, which is counted first. -/
theorem follows_counted {enter : State → Reaction} {x : Eval α} {Q : α → Knowledge → State → Prop}
    (ho : standing.explanation = origin.explanation)
    (use : ∀ k', k.depth < k'.depth → k'.depth ≤ maxTerms → Follows given origin
      (enter (standing.state given .nothing matched k')) k' x Q) :
    Follows given origin ((standing.state given .nothing matched k).counted enter) k
      (count >>= fun _ => x) Q := by
  have hs : (standing.state given .nothing matched k).counted enter =
    if k.depth < maxTerms then
      enter (standing.state given .nothing matched { k with depth := k.depth + 1 })
    else .fail (standing.state given .nothing matched k) (.tooManyTerms maxTerms) := rfl
  rw [hs]
  -- both count before anything else, and both refuse the term that is one too many
  by_cases hk : k.depth < maxTerms
  · rw [if_pos hk]
    refine Follows.of_resultOf (use _ (Nat.lt_succ_self _) hk) rfl
      ⟨Nat.le_succ _, fun _ => hk⟩ ?_
    rw [resultOf_bind, resultOf_count hk]
  · rw [if_neg hk]
    have refused : Fails origin (.tooManyTerms maxTerms) k
        (standing.state given .nothing matched k) := Standing.fails ho (by decide)
    refine Follows.of_resultOf (Follows.fail refused) rfl (.of_eq rfl) ?_
    rw [resultOf_bind, resultOf_count_of_le (Nat.le_of_not_lt hk), resultOf_throw]

/-! ## Other policies -/

/-- The state of the machine when the evaluation that began at a standing has ended: nothing is
left of the record, and without a verdict nothing is explained that was not before. -/
structure Stands (given : Situation) (origin standing : Standing) (k : Knowledge) (s : State) :
    Prop where
  state : ∃ matched, s = standing.state given .nothing matched k
  explanation : standing.verdict = none → standing.explanation = origin.explanation

/-- The frame that evaluates a domain follows its evaluation, once more terms have been entered than
at some point. -/
def Evaluates (given : Situation) (k : Knowledge) (evaluate : Standing → Eval Standing) : Prop :=
  ∀ (origin : Standing) (matched : Option Bool) (k' : Knowledge), origin.verdict = none →
    k.depth < k'.depth → k'.depth ≤ maxTerms →
    Follows given origin (.leave (origin.state given .nothing matched k') [.evaluation]) k'
      (evaluate origin) (Stands given origin)

theorem Evaluates.mono {evaluate : Standing → Eval Standing} {k' : Knowledge}
    (h : Evaluates given k evaluate) (hk : Grows k k') : Evaluates given k' evaluate :=
  fun origin matched k'' hv hd => h origin matched k'' hv (Nat.lt_of_le_of_lt hk.depth hd)

theorem resultOf_onBehalf (refer : Error → Error) (x : Eval Standing) :
    resultOf k (onBehalf refer x) =
      match resultOf k x with
      | (.ok a, k') => (.ok a, k')
      | (.error cause, k') => (.error (escalate refer cause), k') := by
  rw [onBehalf, resultOf_tryCatch]
  rcases resultOf k x with ⟨_ | _, k'⟩ <;> rfl

theorem escalate_result_ne_none {refer : Error → Error} {cause : Error}
    (hr : (refer cause).result ≠ .none) : (escalate refer cause).result ≠ .none := by
  unfold escalate
  split
  · exact hr
  · assumption

/-- An evaluation on behalf of another policy: the frame below hands a cause on as an error of that
policy, in a state of that policy. -/
theorem follows_onBehalf (target : Standing) (recover : State → State) {s : State}
    {x : Eval Standing} {P : Standing → Knowledge → State → Prop} {f : Standing → Eval α}
    {Q : α → Knowledge → State → Prop} {g : Frame} {refer : String → Error → Error}
    (evaluated : Follows given target (.leave s [.evaluation]) k x P)
    (hc : ∀ cause s, g.catch cause s = (recover s, some (escalate (refer s.domain) cause)))
    (hf : ∀ cause k s, Fails target cause k s →
      Fails origin (escalate (refer target.domain) cause) k (recover s))
    (use : ∀ a k' s, P a k' s → Grows k k' → Follows given origin (.leave s [g]) k' (f a) Q) :
    Follows given origin (.leave s [.evaluation, g]) k
      (onBehalf (refer target.domain) x >>= f) Q := by
  obtain ⟨result, k', s', hx, hd, he, hm⟩ := evaluated
  have hm (below : List Frame) : finishAfter given k.requests
      ((Reaction.leave s [.evaluation, g]).above below) =
        finishAfter given k'.requests ⟨signalOf result, s', g :: below⟩ := hm (g :: below)
  cases result with
  | ok a =>
    obtain ⟨result, k'', s'', hf, hd', he', hm'⟩ := use a k' s' he hd
    refine ⟨result, k'', s'', ?_, hd.trans hd', he', fun below => (hm below).trans (hm' below)⟩
    rw [resultOf_bind, resultOf_onBehalf, hx]
    exact hf
  | error cause =>
    -- the frame refers to the domain in the state, which matters for a missing policy only
    have hs : escalate (refer s'.domain) cause = escalate (refer target.domain) cause := by
      unfold escalate
      split
      · rw [he.domain ‹_›]
      · rfl
    refine ⟨.error (escalate (refer target.domain) cause), k', recover s', ?_, hd,
      hf cause k' s' he, fun below => ?_⟩
    · rw [resultOf_bind, resultOf_onBehalf, hx]
    · rw [hm below, finishAfter, finishAfter, Machine.finish_of_step]
      simp [Machine.step, hc, hs, signalOf]

/-! ## Lookups of mechanisms -/

section Lookups

variable {f : List String → Eval α} {Q : α → Knowledge → State → Prop} {host : String}
  {type : Dns.RecordType} {listener : Listener} {react : State → List String → Reaction}

/-- A lookup whose failure ends the check. -/
theorem follows_askRecords (react : State → List String → Reaction)
    (ho : standing.explanation = origin.explanation)
    (hl : ∀ answer s, listener.resume given.ctx answer s =
      match recordsOf answer with
      | .error cause => .fail s cause
      | .ok records => react s records)
    (use : ∀ records k', Grows k k' → Follows given origin
      (react (standing.state given .nothing matched k') records) k' (f records) Q) :
    Follows given origin (.await (standing.state given .nothing matched k) host type listener) k
      (askRecords given host type >>= f) Q := by
  rw [askRecords, bind_assoc]
  apply Follows.ask
  rw [hl]
  cases given.service ⟨host, type⟩ with
  | error cause =>
    exact Follows.fail (Standing.fails (k := { k with requests := k.requests ++ [⟨host, type⟩] })
      ho (by simp [Error.result]))
  | ok records =>
    simp only [recordsOf, pure_bind]
    exact use records { k with requests := k.requests ++ [⟨host, type⟩] } (.of_eq rfl)

/-- A lookup whose failure is an empty answer. -/
theorem follows_askNames (react : State → List String → Reaction)
    (hl : ∀ answer s, listener.resume given.ctx answer s =
      match answer with
      | .error _ => react s []
      | .ok records => react s records)
    (use : ∀ records k', Grows k k' → Follows given origin
      (react (standing.state given .nothing matched k') records) k' (f records) Q) :
    Follows given origin (.await (standing.state given .nothing matched k) host type listener) k
      (askNames given host type >>= f) Q := by
  rw [askNames, bind_assoc]
  apply Follows.ask
  rw [hl]
  cases given.service ⟨host, type⟩ with
  | error cause =>
    simp only [pure_bind]
    exact use [] { k with requests := k.requests ++ [⟨host, type⟩] } (.of_eq rfl)
  | ok records =>
    simp only [pure_bind]
    exact use records { k with requests := k.requests ++ [⟨host, type⟩] } (.of_eq rfl)

end Lookups

/-- A mechanism has settled whether it matches. -/
def Settles (given : Situation) (standing : Standing) (isMatch : Bool) (k : Knowledge) (s : State) :
    Prop :=
  s = standing.state given .nothing (some isMatch) k

theorem follows_settle (isMatch : Bool) :
    Follows given origin ((standing.state given .nothing matched k).settle isMatch) k (pure isMatch)
      (Settles given standing) :=
  Follows.pure (show Settles given standing isMatch k _ from rfl)

/-- The exchanges are looked up one after the other until one matches. -/
theorem follows_exchanges (ho : standing.explanation = origin.explanation) (lengths : CidrLengths)
    (hosts : List String) :
    Follows given origin (nextExchange lengths (standing.state given .nothing matched k) hosts) k
      (exchangesMatch given lengths hosts) (Settles given standing) := by
  induction hosts generalizing k with
  | nil => exact follows_settle false
  | cons host rest ih =>
    rw [exchangesMatch]
    refine follows_askRecords (fun s addresses =>
      if addresses.any fun a => s.identity.inNetwork a lengths then s.settle true
      else nextExchange lengths s rest) ho (fun _ _ => rfl) fun addresses k' _ => ?_
    refine Follows.ite (fun _ => ?_) fun _ => ?_
    · exact follows_settle true
    · exact ih

/-- The client's names are looked up one after the other until one has its address. -/
theorem follows_names (names : List String) :
    Follows given origin (nextPointer (standing.state given .nothing matched k) names) k
      (namesMatch given names) (Settles given standing) := by
  induction names generalizing k with
  | nil => exact follows_settle false
  | cons name rest ih =>
    rw [namesMatch]
    -- no address of a failed lookup is the client's
    refine follows_askNames (fun s addresses =>
      if addresses.any s.identity.isClient then s.settle true else nextPointer s rest)
      (fun answer s => by cases answer <;> rfl) fun addresses k' _ => ?_
    refine Follows.ite (fun _ => ?_) fun _ => ?_
    · exact follows_settle true
    · exact ih

/-! ## Mechanisms in their turn -/

/-- An included policy decides whether the mechanism matches, and nothing else. -/
theorem follows_inclusion {evaluate : Standing → Eval Standing}
    (ho : standing.explanation = origin.explanation) (hv : standing.verdict = none)
    {k₀ : Knowledge} (evaluates : Evaluates given k₀ evaluate) (hk₀ : k₀.depth < k.depth)
    (hk : k.depth ≤ maxTerms) (included : String) :
    Follows given origin
      ((standing.state given .nothing matched k).beginInclusion included) k
      (onBehalf (.includedWithoutPolicy included) (evaluate ⟨included, none, none, true⟩) >>=
        fun last => pure (decide (last.verdict = some .pass)))
      (Settles given standing) := by
  refine follows_onBehalf ⟨included, none, none, true⟩
    (fun s => s.restore standing.domain standing.explanation standing.isMuted)
    (evaluates ⟨included, none, none, true⟩ matched k rfl hk₀ hk) (fun _ _ => rfl) ?_ ?_
  -- the state is that of the including policy again, and a missing policy is its error
  · intro cause k' s hf
    refine ⟨⟨hf.holds.depth, hf.holds.clientDomain, hf.holds.receivingDomain⟩, hf.result, ho, ?_⟩
    exact fun h => absurd h (escalate_result_ne_none (by simp [Error.result]))
  · rintro last k' _ ⟨⟨matched', rfl⟩, -⟩ _
    obtain ⟨domain, verdict, explanation, isMuted⟩ := standing
    cases hv
    exact Follows.frame (Follows.pure rfl)

/-- A mechanism in its turn. -/
theorem follows_mechanism {evaluate : Standing → Eval Standing}
    (ho : standing.explanation = origin.explanation) (hv : standing.verdict = none)
    (evaluates : Evaluates given k evaluate) (m : Mechanism) :
    Follows given origin (mechanismStep given.ctx (standing.state given .nothing matched k) m) k
      (mechanismMatches given evaluate standing.domain m) (Settles given standing) := by
  cases m with
  | all => exact follows_settle true
  | network4 net =>
    simp only [mechanismStep, mechanismMatches, Standing.state_identity]
    cases given.identity.client with
    | v4 client => exact follows_settle (net.contains client)
    | v6 client => exact follows_settle false
  | network6 net =>
    simp only [mechanismStep, mechanismMatches, Standing.state_identity]
    cases given.identity.client with
    | v4 client => exact follows_settle false
    | v6 client => exact follows_settle (net.contains client)
  | address spec lengths =>
    refine follows_counted ho fun k₁ _ _ => ?_
    refine follows_target rfl (fun _ _ => rfl) ho fun host k₂ _ => ?_
    refine follows_askRecords (fun s addresses =>
      s.settle (addresses.any fun a => s.identity.inNetwork a lengths)) ho (fun _ _ => rfl) ?_
    exact fun addresses k₃ _ => follows_settle _
  | exchange spec lengths =>
    refine follows_counted ho fun k₁ _ _ => ?_
    refine follows_target rfl (fun _ _ => rfl) ho fun host k₂ _ => ?_
    refine follows_askRecords (fun s exchanges =>
      nextExchange lengths s (exchanges.take given.ctx.recordLimit)) ho (fun _ _ => rfl) ?_
    exact fun exchanges k₃ _ => follows_exchanges ho lengths _
  | pointer spec =>
    refine follows_counted ho fun k₁ _ _ => ?_
    refine follows_target rfl (fun _ _ => rfl) ho fun within k₂ _ => ?_
    refine follows_askNames (fun s names => nextPointer s
      ((names.take given.ctx.recordLimit).filter fun name => Domain.isWithin name within)) ?_ ?_
    · intro answer s
      cases answer with
      | error cause => simp [Listener.resume, pointersAnswered]
      | ok names => rfl
    · exact fun names k₃ _ => follows_names _
  | existing spec =>
    refine follows_counted ho fun k₁ _ _ => ?_
    refine follows_target rfl (fun _ _ => rfl) ho fun host k₂ _ => ?_
    refine follows_askRecords (fun s addresses => s.settle (!addresses.isEmpty)) ho
      (fun _ _ => rfl) ?_
    exact fun addresses k₃ _ => follows_settle _
  | included spec =>
    refine follows_counted ho fun k₁ hk₁ hb => ?_
    refine follows_target rfl (fun _ _ => rfl) ho fun included k₂ hk₂ => ?_
    exact follows_inclusion ho hv evaluates (Nat.lt_of_lt_of_le hk₁ hk₂.depth) (hk₂.bounded hb)
      included

end SenderPolicy.Evaluation.Direct
