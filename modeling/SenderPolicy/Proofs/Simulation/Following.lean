import SenderPolicy.Evaluation.Direct
import SenderPolicy.Evaluation.Run

/-!
# Frames that follow a computation

The machine and direct evaluation are compared piece by piece. Frames follow a computation if,
whatever frames lie below them, the rest of the check makes the lookups of the computation and goes
on below them, in a state that stands for what the computation has come to.

## Main definitions

* `resultOf`: what a computation comes to, and what is known then
* `Standing.state`: the state of the machine while a domain is evaluated
* `Fails`: the state of the machine when a computation has failed
* `Follows`: a reaction goes on as a computation does

## Main results

* `Follows.frame`, `Follows.ask`: a frame in its turn, and a lookup
* `Follows.bind`: frames above others follow a computation in front of another
* `Follows.foldlM`: a list of frames follows a loop
-/

namespace SenderPolicy.Evaluation.Direct

variable {α β : Type}

/-! ## What a computation comes to -/

/-- What a computation comes to, and what is known then. -/
def resultOf (k : Knowledge) (x : Eval α) : Except Error α × Knowledge :=
  x.run.run k

theorem resultOf_pure (k : Knowledge) (a : α) : resultOf k (pure a) = (.ok a, k) := rfl

theorem resultOf_throw (k : Knowledge) (cause : Error) :
    resultOf k (throw cause : Eval α) = (.error cause, k) := rfl

theorem resultOf_get (k : Knowledge) : resultOf k get = (.ok k, k) := rfl

theorem resultOf_bind (k : Knowledge) (x : Eval α) (f : α → Eval β) :
    resultOf k (x >>= f) =
      match resultOf k x with
      | (.ok a, k') => resultOf k' (f a)
      | (.error cause, k') => (.error cause, k') := by
  unfold resultOf ExceptT.run StateT.run
  simp only [bind, ExceptT.bind, ExceptT.mk, StateT.bind, ExceptT.bindCont]
  rcases x k with ⟨_ | _, k'⟩ <;> rfl

theorem resultOf_tryCatch (k : Knowledge) (x : Eval α) (f : Error → Eval α) :
    resultOf k (tryCatch x f) =
      match resultOf k x with
      | (.ok a, k') => (.ok a, k')
      | (.error cause, k') => resultOf k' (f cause) := by
  unfold resultOf ExceptT.run StateT.run
  simp only [tryCatch, tryCatchThe, MonadExceptOf.tryCatch, ExceptT.tryCatch, ExceptT.mk, bind,
    StateT.bind]
  rcases x k with ⟨_ | _, k'⟩ <;> rfl

/-- A lookup is made and answered on the spot. -/
theorem resultOf_ask (given : Situation) (host : String) (type : Dns.RecordType) (k : Knowledge) :
    resultOf k (ask given host type) =
      (.ok (given.service ⟨host, type⟩), { k with requests := k.requests ++ [⟨host, type⟩] }) :=
  rfl

/-! ## States that stand for what is known -/

/-- The state of the machine while a domain is evaluated. -/
def Standing.state (given : Situation) (standing : Standing) (found : Found)
    (matched : Option Bool) (k : Knowledge) : State where
  identity := given.identity
  receivingDomain := k.receivingDomain
  clientDomain := k.clientDomain
  domain := standing.domain
  depth := k.depth
  verdict := standing.verdict
  explanation := standing.explanation
  isMuted := standing.isMuted
  matched := matched
  text := found.text
  record := found.record
  result := none

@[simp] theorem Standing.state_identity (given : Situation) (standing : Standing) (found : Found)
    (matched : Option Bool) (k : Knowledge) :
    (standing.state given found matched k).identity = given.identity := rfl

@[simp] theorem Standing.state_domain (given : Situation) (standing : Standing) (found : Found)
    (matched : Option Bool) (k : Knowledge) :
    (standing.state given found matched k).domain = standing.domain := rfl

@[simp] theorem Standing.state_verdict (given : Situation) (standing : Standing) (found : Found)
    (matched : Option Bool) (k : Knowledge) :
    (standing.state given found matched k).verdict = standing.verdict := rfl

@[simp] theorem Standing.state_text (given : Situation) (standing : Standing) (found : Found)
    (matched : Option Bool) (k : Knowledge) :
    (standing.state given found matched k).text = found.text := rfl

@[simp] theorem Standing.state_record (given : Situation) (standing : Standing) (found : Found)
    (matched : Option Bool) (k : Knowledge) :
    (standing.state given found matched k).record = found.record := rfl

/-- Nothing is found of a record. -/
def Found.nothing : Found := ⟨none, none⟩

/-- The state holds what is known. -/
structure Holds (k : Knowledge) (s : State) : Prop where
  depth : s.depth = k.depth
  clientDomain : s.clientDomain = k.clientDomain
  receivingDomain : s.receivingDomain = k.receivingDomain

/-- The state of the machine when the evaluation that began at a standing has failed: nothing is
committed, and nothing is explained that was not explained at its beginning. A missing policy is
that of the domain it began with. -/
structure Fails (origin : Standing) (cause : Error) (k : Knowledge) (s : State) : Prop where
  holds : Holds k s
  result : s.result = none
  explanation : s.explanation = origin.explanation
  domain : cause.result = .none → s.domain = origin.domain

/-- A state of the evaluation fails with an error of the policy, unless an explanation has been
found. -/
theorem Standing.fails {given : Situation} {origin standing : Standing} {found : Found}
    {matched : Option Bool} {k : Knowledge} {cause : Error}
    (he : standing.explanation = origin.explanation) (hc : cause.result ≠ .none) :
    Fails origin cause k (standing.state given found matched k) :=
  ⟨⟨rfl, rfl, rfl⟩, rfl, he, fun h => absurd h hc⟩

/-- The state of the machine when a computation has ended: as given, if it has not failed. -/
def Ends (origin : Standing) (Q : α → Knowledge → State → Prop) :
    Except Error α → Knowledge → State → Prop
  | .ok a, k, s => Q a k s
  | .error cause, k, s => Fails origin cause k s

/-- The signal with which a computation ends. -/
def signalOf : Except Error α → Signal
  | .ok _ => .proceed
  | .error cause => .raise cause

/-- The lookups of a check that has made some before, and its last state. -/
def finishAfter (given : Situation) (made : List Dns.Request) (m : Machine) :
    List Dns.Request × State :=
  (made ++ (m.finish given.ctx given.service).1, (m.finish given.ctx given.service).2)

/-- Terms with lookups are counted upwards, and no further than the limit. -/
structure Grows (k k' : Knowledge) : Prop where
  depth : k.depth ≤ k'.depth
  bounded : k.depth ≤ maxTerms → k'.depth ≤ maxTerms

theorem Grows.of_eq {k k' : Knowledge} (h : k'.depth = k.depth) : Grows k k' :=
  ⟨Nat.le_of_eq h.symm, fun hb => h ▸ hb⟩

theorem Grows.trans {k k' k'' : Knowledge} (h : Grows k k') (h' : Grows k' k'') : Grows k k'' :=
  ⟨Nat.le_trans h.depth h'.depth, fun hb => h'.bounded (h.bounded hb)⟩

/-- A reaction goes on as a computation does, whatever frames lie below. -/
def Follows (given : Situation) (origin : Standing) (r : Reaction) (k : Knowledge) (x : Eval α)
    (Q : α → Knowledge → State → Prop) : Prop :=
  ∃ result k' s, resultOf k x = (result, k') ∧ Grows k k' ∧ Ends origin Q result k' s ∧
    ∀ below, finishAfter given k.requests (r.above below) =
      finishAfter given k'.requests ⟨signalOf result, s, below⟩

/-- The frame hands every cause on and changes nothing then. -/
def HandsOn (f : Frame) : Prop :=
  ∀ cause s, f.catch cause s = (s, some cause)

theorem handsOn_map {ι : Type} {frameOf : ι → Frame} (hands : ∀ i, HandsOn (frameOf i))
    (is : List ι) : ∀ g ∈ is.map frameOf, HandsOn g := by
  intro g hg
  obtain ⟨i, -, rfl⟩ := List.mem_map.mp hg
  exact hands i

/-! ## Pieces that follow pieces -/

namespace Follows

variable {given : Situation} {origin : Standing} {k : Knowledge} {s : State}
  {P Q : α → Knowledge → State → Prop}

/-- Nothing is left to do, and nothing to compute. -/
theorem pure {a : α} (h : Q a k s) : Follows given origin (.done s) k (pure a) Q :=
  ⟨.ok a, k, s, rfl, .of_eq rfl, h, fun _ => rfl⟩

/-- What is known changes with the state, but for the lookups made. -/
theorem modify {f : Knowledge → Knowledge} {Q : Unit → Knowledge → State → Prop}
    (hr : (f k).requests = k.requests) (hd : Grows k (f k)) (h : Q () (f k) s) :
    Follows given origin (.done s) k (modify f) Q :=
  ⟨.ok (), f k, s, rfl, hd, h, fun _ => by rw [hr]; rfl⟩

/-- Both fail for the same cause. -/
theorem fail {cause : Error} (h : Fails origin cause k s) :
    Follows given origin (.fail s cause) k (throw cause : Eval α) Q :=
  ⟨.error cause, k, s, rfl, .of_eq rfl, h, fun _ => rfl⟩

/-- A computation that begins with what another knows, and comes to what the other comes to, is
followed as the other is. -/
theorem of_resultOf {k₁ : Knowledge} {r : Reaction} {x y : Eval α}
    (h : Follows given origin r k₁ y Q) (hr : k₁.requests = k.requests) (hd : Grows k k₁)
    (hxy : resultOf k x = resultOf k₁ y) : Follows given origin r k x Q := by
  obtain ⟨result, k', s, hy, hd', he, hm⟩ := h
  exact ⟨result, k', s, hxy.trans hy, hd.trans hd', he, fun below => hr ▸ hm below⟩

theorem mono {r : Reaction} {x : Eval α} (h : Follows given origin r k x P)
    (hPQ : ∀ a k' s, resultOf k x = (.ok a, k') → P a k' s → Q a k' s) :
    Follows given origin r k x Q := by
  obtain ⟨result, k', s, hx, hd, he, hm⟩ := h
  refine ⟨result, k', s, hx, hd, ?_, hm⟩
  cases result with
  | ok a => exact hPQ a k' s hx he
  | error cause => exact he

/-- Both decide the same question, each in its own way. -/
theorem ite {p : Prop} {d d' : Decidable p} {r r' : Reaction} {x x' : Eval α}
    (yes : p → Follows given origin r k x Q) (no : ¬p → Follows given origin r' k x' Q) :
    Follows given origin (@ite _ p d r r') k (@ite _ p d' x x') Q := by
  by_cases h : p
  · rw [if_pos h, if_pos h]
    exact yes h
  · rw [if_neg h, if_neg h]
    exact no h

/-- A step is about the topmost frame. -/
theorem frame {f : Frame} {x : Eval α} (h : Follows given origin (f.check given.ctx s) k x Q) :
    Follows given origin (.leave s [f]) k x Q := by
  obtain ⟨result, k', s', hx, hd, he, hm⟩ := h
  refine ⟨result, k', s', hx, hd, he, fun below => ?_⟩
  -- one step of the machine takes the frame off and puts its reaction above the rest
  rw [← hm below, finishAfter, finishAfter, Machine.finish_of_step rfl]
  rfl

/-- A lookup is made, and the listener goes on with its answer. -/
theorem ask {host : String} {type : Dns.RecordType} {listener : Listener}
    {f : Dns.Answer → Eval α}
    (h : Follows given origin (listener.resume given.ctx (given.service ⟨host, type⟩) s)
      { k with requests := k.requests ++ [⟨host, type⟩] } (f (given.service ⟨host, type⟩)) Q) :
    Follows given origin (.await s host type listener) k (Direct.ask given host type >>= f) Q := by
  obtain ⟨result, k', s', hx, hd, he, hm⟩ := h
  refine ⟨result, k', s', by rw [resultOf_bind, resultOf_ask]; exact hx,
    ⟨hd.depth, hd.bounded⟩, he, fun below => ?_⟩
  rw [← hm below, finishAfter, finishAfter, Machine.finish_of_await rfl]
  simp [Machine.resume, Reaction.above, Reaction.await]

/-- Frames that hand causes on are skipped by a cause. -/
theorem finishAfter_raise {made : List Dns.Request} {cause : Error} {gs below : List Frame}
    (hgs : ∀ g ∈ gs, HandsOn g) :
    finishAfter given made ⟨.raise cause, s, gs ++ below⟩ =
      finishAfter given made ⟨.raise cause, s, below⟩ := by
  -- on the frames, of which the topmost takes one step to hand the cause on
  induction gs with
  | nil => rfl
  | cons g gs ih =>
    rw [List.forall_mem_cons] at hgs
    rw [← ih hgs.2, finishAfter, finishAfter, Machine.finish_of_step]
    simp [Machine.step, hgs.1 cause s]

/-- Frames above others follow a computation in front of another. -/
theorem bind {r : Reaction} {x : Eval α} {f : α → Eval β} {Q : β → Knowledge → State → Prop}
    (gs : List Frame) (first : Follows given origin r k x P)
    (hgs : ∀ g ∈ gs, HandsOn g)
    (rest : ∀ a k' s, P a k' s → Grows k k' →
      Follows given origin (.leave s gs) k' (f a) Q) :
    Follows given origin ⟨r.state, r.frames ++ gs, r.signal⟩ k (x >>= f) Q := by
  obtain ⟨result, k', s, hx, hd, he, hm⟩ := first
  have above (below : List Frame) :
      Reaction.above ⟨r.state, r.frames ++ gs, r.signal⟩ below = r.above (gs ++ below) := by
    simp [Reaction.above]
  cases result with
  | error cause =>
    -- the computation behind the first is not begun, and its frames are skipped
    refine ⟨.error cause, k', s, by rw [resultOf_bind, hx], hd, he, fun below => ?_⟩
    rw [above, hm (gs ++ below)]
    exact finishAfter_raise hgs
  | ok a =>
    -- the lookups of both computations follow upon each other
    obtain ⟨result, k'', s', hf, hd', he', hm'⟩ := rest a k' s he hd
    refine ⟨result, k'', s', by rw [resultOf_bind, hx]; exact hf, hd.trans hd', he',
      fun below => ?_⟩
    rw [above, hm (gs ++ below), ← hm' below]
    rfl

/-- A list of frames follows a loop. -/
theorem foldlM {ι : Type} {frameOf : ι → Frame} {body : α → ι → Eval α}
    (hands : ∀ i, HandsOn (frameOf i)) (is : List ι)
    (each : ∀ i ∈ is, ∀ a k' s, Grows k k' → Q a k' s →
      Follows given origin (.leave s [frameOf i]) k' (body a i) Q) {a : α} (h : Q a k s) :
    Follows given origin (.leave s (is.map frameOf)) k (is.foldlM body a) Q := by
  -- on the list: the frames of what is left lie below the first one's
  induction is generalizing a k s with
  | nil => exact pure h
  | cons i is ih =>
    rw [List.forall_mem_cons] at each
    rw [List.foldlM_cons]
    refine bind (is.map frameOf) (each.1 a k s (.of_eq rfl) h) (handsOn_map hands is) ?_
    exact fun b k' s' hb hk' =>
      ih (fun i hi a k'' s hk'' => each.2 i hi a k'' s (hk'.trans hk'')) hb

end Follows

end SenderPolicy.Evaluation.Direct
