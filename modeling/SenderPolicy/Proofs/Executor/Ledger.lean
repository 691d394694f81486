import Mathlib.Data.List.Perm.Basic
import SenderPolicy.Executor

/-!
# The ledger of an executor

Wherever a check is while it is under way, it still makes certain lookups and comes to a certain
last state. An executor moves checks from place to place, which changes nothing about that, or makes
the next lookup of one of them. Together with the lookups made so far, a check has therefore the
balance that it had at its start, in whatever order the checks take turns.

## Main definitions

* `Prospect`, `Session.prospect`: what is left of a check
* `ownRequests`: the lookups made for one caller
* `Moves`: a check is somewhere else, or has made its next lookup
* `Balanced`: every check has the balance of its blocking run
* `Leads`: the states that actions lead to

## Main results

* `Balanced.start`, `Balanced.moves`: the balance at the start, and behind every move
* `perm_ownRequests`: all lookups are those of the callers together
* `Balanced.back`, `Balanced.exists_back`: a check that is back, and the checks of all callers
-/

namespace SenderPolicy.Executor

open Evaluation

/-! ## Checks under way -/

/-- What is left of a check: whom it belongs to, the lookups that it still makes, and its last
state. -/
structure Prospect where
  caller : Nat
  requests : List Dns.Request
  last : State
deriving DecidableEq

variable {ctx : Context} {service : Dns.Service}

/-- What is left of a check that goes on from where it is. -/
def Session.prospect (ctx : Context) (service : Dns.Service) (session : Session) : Prospect :=
  ⟨session.caller, (session.machine.finish ctx service).1, (session.machine.finish ctx service).2⟩

/-- A run makes no lookup and leaves the last state as it is. -/
theorem finish_run (m : Machine) : (m.run ctx).finish ctx service = m.finish ctx service := by
  -- a machine that has run takes no step, so a second run is none
  have stopped : (m.run ctx).run ctx = m.run ctx := Machine.run_of_stopped (Machine.step_run ctx m)
  rw [Machine.finish, Machine.finish, stopped]

theorem prospect_start (session : Session) :
    (session.start ctx).prospect ctx service = session.prospect ctx service := by
  simp only [Session.prospect, Session.start, finish_run]

/-- What is left of a check whose lookup is made, if it awaits one. -/
def Session.answered (ctx : Context) (service : Dns.Service) (session : Session) : Prospect :=
  match session.request? with
  | some request => (session.resume ctx (service request)).prospect ctx service
  | none => session.prospect ctx service

theorem answered_of_request {session : Session} {request : Dns.Request}
    (h : session.request? = some request) :
    session.answered ctx service =
      (session.resume ctx (service request)).prospect ctx service := by
  simp only [Session.answered, h]

theorem caller_answered (session : Session) :
    (session.answered ctx service).caller = session.caller := by
  unfold Session.answered
  split <;> rfl

/-- A check that awaits a lookup makes it, and has then left what is left behind the answer. -/
theorem prospect_of_request {session : Session} {request : Dns.Request}
    (h : session.request? = some request) :
    session.prospect ctx service =
      { session.answered ctx service with
        requests := request :: (session.answered ctx service).requests } := by
  rw [answered_of_request h]
  obtain ⟨caller, m⟩ := session
  unfold Session.request? at h
  split at h
  · rename_i request' listener hw
    cases h
    simp only [Session.prospect, Session.resume, finish_run, Machine.finish_of_await hw]
  · cases h

theorem answered_of_ended {session : Session} (h : session.request? = none) :
    session.answered ctx service = session.prospect ctx service := by
  simp only [Session.answered, h]

/-- A check that has run and awaits nothing has ended. -/
theorem finish_of_ended {m : Machine} (hs : m.step ctx = none)
    (hw : ∀ request listener, m.signal ≠ .await request listener) :
    m.finish ctx service = ([], m.state) := by
  obtain ⟨signal, s, frames⟩ := m
  cases signal with
  | await request listener => exact absurd rfl (hw request listener)
  | proceed =>
    cases frames with
    | nil => exact Machine.finish_of_end ctx service s
    | cons f below => simp [Machine.step] at hs
  | raise cause =>
    cases frames with
    | nil => simp [Machine.step] at hs
    | cons f below => cases f <;> simp [Machine.step, Frame.catch] at hs

/-- Nothing is left of the check but its state. -/
def Session.IsEnded (ctx : Context) (service : Dns.Service) (session : Session) : Prop :=
  session.prospect ctx service = ⟨session.caller, [], session.machine.state⟩

theorem isEnded_of_request {session : Session} (hs : session.machine.step ctx = none)
    (h : session.request? = none) : session.IsEnded ctx service := by
  have hw : ∀ request listener, session.machine.signal ≠ .await request listener := by
    intro request listener hw
    simp [Session.request?, hw] at h
  rw [Session.IsEnded, Session.prospect, finish_of_ended hs hw]

theorem isEnded_start {session : Session} (h : (session.start ctx).request? = none) :
    (session.start ctx).IsEnded ctx service :=
  isEnded_of_request (Machine.step_run ctx _) h

theorem isEnded_resume {session : Session} {answer : Dns.Answer}
    (h : (session.resume ctx answer).request? = none) :
    (session.resume ctx answer).IsEnded ctx service :=
  isEnded_of_request (Machine.step_run ctx _) h

/-! ## Moves -/

/-- The lookups made for one caller, in order; the last one made comes first in the list of all. -/
def ownRequests (caller : Nat) (made : List (Nat × Dns.Request)) : List Dns.Request :=
  (made.reverse.filter fun entry => entry.1 = caller).map Prod.snd

theorem ownRequests_cons (caller other : Nat) (request : Dns.Request)
    (made : List (Nat × Dns.Request)) :
    ownRequests caller ((other, request) :: made) =
      ownRequests caller made ++ if other = caller then [request] else [] := by
  by_cases h : other = caller <;> simp [ownRequests, h]

/-- A check is somewhere else, or has made its next lookup. -/
inductive Moves (prospects : List Prospect) (made : List (Nat × Dns.Request)) :
    List Prospect → List (Nat × Dns.Request) → Prop
  | moved {prospects' : List Prospect} (h : prospects.Perm prospects') :
      Moves prospects made prospects' made
  | looked {prospects' rest : List Prospect} {p : Prospect} {request : Dns.Request}
      (before : prospects.Perm ({ p with requests := request :: p.requests } :: rest))
      (after : prospects'.Perm (p :: rest)) :
      Moves prospects made prospects' ((p.caller, request) :: made)

/-- Every check has the balance of the machine that its caller started: the lookups made for it, and
those left of it, are those of a whole check. -/
structure Balanced (ctx : Context) (service : Dns.Service) (machines : List Machine)
    (prospects : List Prospect) (made : List (Nat × Dns.Request)) : Prop where
  callers : (prospects.map Prospect.caller).Perm (List.range machines.length)
  balance : ∀ p ∈ prospects, ∃ m, machines[p.caller]? = some m ∧
    m.finish ctx service = (ownRequests p.caller made ++ p.requests, p.last)
  known : ∀ entry ∈ made, entry.1 < machines.length

/-- The checks of callers in order are balanced before any lookup is made. -/
theorem Balanced.start (machines : List Machine) :
    Balanced ctx service machines ((sessionsOf machines).map (Session.prospect ctx service))
      [] := by
  refine ⟨?_, ?_, nofun⟩
  -- the callers are the places of the machines
  · have h : ((sessionsOf machines).map (Session.prospect ctx service)).map Prospect.caller =
        machines.zipIdx.map Prod.snd := by
      simp [sessionsOf, Session.prospect, Function.comp_def]
    rw [h, List.zipIdx_map_snd, List.range_eq_range']
  · intro p hp
    simp only [sessionsOf, List.map_map, List.mem_map, Function.comp_def] at hp
    obtain ⟨⟨m, caller⟩, hm, rfl⟩ := hp
    exact ⟨m, List.mk_mem_zipIdx_iff_getElem?.mp hm, by simp [ownRequests, Session.prospect]⟩

theorem Balanced.perm {machines : List Machine} {prospects prospects' : List Prospect}
    {made : List (Nat × Dns.Request)} (h : Balanced ctx service machines prospects made)
    (hp : prospects.Perm prospects') : Balanced ctx service machines prospects' made :=
  ⟨(hp.map _).symm.trans h.callers, fun p hm => h.balance p (hp.mem_iff.mpr hm), h.known⟩

/-- Every move keeps the balance. -/
theorem Balanced.moves {machines : List Machine} {prospects prospects' : List Prospect}
    {made made' : List (Nat × Dns.Request)} (h : Balanced ctx service machines prospects made)
    (hm : Moves prospects made prospects' made') :
    Balanced ctx service machines prospects' made' := by
  cases hm with
  | moved hp => exact h.perm hp
  | @looked rest p request before after =>
    have h := h.perm before
    refine Balanced.perm ?_ after.symm
    -- no other check belongs to the same caller
    have distinct : (p.caller :: rest.map Prospect.caller).Nodup :=
      h.callers.nodup_iff.mpr List.nodup_range
    obtain ⟨m, hm, hf⟩ := h.balance _ List.mem_cons_self
    refine ⟨h.callers, ?_, ?_⟩
    · intro q hq
      -- the lookup is added to what its own caller has made, and to nothing else
      rw [ownRequests_cons]
      rcases List.mem_cons.mp hq with rfl | hq
      · refine ⟨m, hm, ?_⟩
        rw [hf, if_pos rfl, List.append_assoc, List.singleton_append]
      · obtain ⟨m', hm', hf'⟩ := h.balance q (List.mem_cons_of_mem _ hq)
        have hne : p.caller ≠ q.caller := by
          rintro heq
          rw [heq] at distinct
          exact (List.nodup_cons.mp distinct).1 (List.mem_map_of_mem hq)
        refine ⟨m', hm', ?_⟩
        rw [hf', if_neg hne, List.append_nil]
    · have hlt : p.caller < machines.length :=
        (List.getElem?_eq_some_iff.mp hm).1
      exact List.forall_mem_cons.mpr ⟨hlt, h.known⟩

/-! ## All lookups together -/

theorem perm_flatMap_filter (n : Nat) (entries : List (Nat × Dns.Request))
    (h : ∀ entry ∈ entries, entry.1 < n) :
    (entries.map Prod.snd).Perm ((List.range n).flatMap fun caller =>
      (entries.filter fun entry => entry.1 = caller).map Prod.snd) := by
  -- on the number of callers: those of the last one are set apart from the others
  induction n generalizing entries with
  | zero =>
    cases entries with
    | nil => exact .nil
    | cons entry entries => exact absurd (h entry List.mem_cons_self) (Nat.not_lt_zero _)
  | succ n ih =>
    have parts := (List.filter_append_perm (fun entry => decide (entry.1 ≠ n)) entries).symm.map
      Prod.snd
    refine parts.trans ?_
    rw [List.range_succ, List.flatMap_append, List.map_append, List.flatMap_singleton]
    refine List.Perm.append ?_ ?_
    · refine (ih (entries.filter fun entry => decide (entry.1 ≠ n)) ?_).trans (.of_eq ?_)
      · intro entry he
        rw [List.mem_filter, decide_eq_true_eq] at he
        exact Nat.lt_of_le_of_ne (Nat.le_of_lt_succ (h entry he.1)) he.2
      · refine List.flatMap_congr fun caller hc => ?_
        rw [List.filter_filter]
        congr 2
        funext entry
        have hlt := List.mem_range.mp hc
        by_cases he : entry.1 = caller
        · simp [he, Nat.ne_of_lt hlt]
        · simp [he]
    · simp

/-- All lookups are those of the callers together, each as often as it was made. -/
theorem perm_ownRequests {n : Nat} {made : List (Nat × Dns.Request)}
    (h : ∀ entry ∈ made, entry.1 < n) :
    (made.reverse.map Prod.snd).Perm
      ((List.range n).flatMap fun caller => ownRequests caller made) :=
  perm_flatMap_filter n made.reverse fun entry he => h entry (List.mem_reverse.mp he)

/-- A list whose elements are given by their places. -/
theorem flatMap_range {α β : Type} {l : List α} {f : Nat → List β} {g : α → List β}
    (h : ∀ i a, l[i]? = some a → f i = g a) : (List.range l.length).flatMap f = l.flatMap g := by
  have hm : (List.range l.length).map f = l.map g := by
    refine List.ext_getElem (by simp) fun i hi _ => ?_
    rw [List.length_map, List.length_range] at hi
    simpa using h i l[i] (List.getElem?_eq_getElem hi)
  rw [List.flatMap_def, List.flatMap_def, hm]

/-! ## Checks that are back -/

section Back

variable {machines : List Machine} {prospects : List Prospect} {returned : List Session}
  {made : List (Nat × Dns.Request)}

/-- Every caller has a check. -/
theorem Balanced.exists_prospect (hb : Balanced ctx service machines prospects made) {caller : Nat}
    (h : caller < machines.length) : ∃ p ∈ prospects, p.caller = caller := by
  have hm : caller ∈ prospects.map Prospect.caller := by
    rw [hb.callers.mem_iff, List.mem_range]
    exact h
  exact List.mem_map.mp hm

/-- The callers of checks that are back are some of the callers. -/
theorem callers_sublist (hr : (returned.map (Session.prospect ctx service)).Sublist prospects) :
    (returned.map Session.caller).Sublist (prospects.map Prospect.caller) := by
  have h := hr.map Prospect.caller
  rwa [List.map_map] at h

/-- A check that is back has made the lookups of a whole check, and has come to its last state. -/
theorem Balanced.back (hb : Balanced ctx service machines prospects made)
    (hr : (returned.map (Session.prospect ctx service)).Sublist prospects)
    (ended : ∀ session ∈ returned, session.IsEnded ctx service) {session : Session}
    (hs : session ∈ returned) :
    ∃ m, machines[session.caller]? = some m ∧
      m.finish ctx service = (ownRequests session.caller made, session.machine.state) := by
  have hp : session.prospect ctx service ∈ prospects := hr.subset (List.mem_map_of_mem hs)
  obtain ⟨m, hm, hf⟩ := hb.balance _ hp
  -- nothing is left of the check, so what it has made is all that it makes
  rw [ended session hs] at hm hf
  rw [List.append_nil] at hf
  exact ⟨m, hm, hf⟩

/-- When all checks are back, each caller's is. -/
theorem Balanced.exists_back (hb : Balanced ctx service machines prospects made)
    (hr : (returned.map (Session.prospect ctx service)).Sublist prospects)
    (ended : ∀ session ∈ returned, session.IsEnded ctx service)
    (all : returned.length = machines.length) {caller : Nat} {m : Machine}
    (hm : machines[caller]? = some m) :
    ∃ session ∈ returned, session.caller = caller ∧
      m.finish ctx service = (ownRequests caller made, session.machine.state) := by
  have length : (prospects.map Prospect.caller).length = machines.length := by
    rw [hb.callers.length_eq, List.length_range]
  have callers : returned.map Session.caller = prospects.map Prospect.caller :=
    (callers_sublist hr).eq_of_length (by rw [List.length_map, all, length])
  obtain ⟨p, hp, rfl⟩ := hb.exists_prospect (List.getElem?_eq_some_iff.mp hm).1
  have mem : p.caller ∈ returned.map Session.caller := callers ▸ List.mem_map_of_mem hp
  obtain ⟨session, hs, heq⟩ := List.mem_map.mp mem
  obtain ⟨m', hm', hf⟩ := hb.back hr ended hs
  rw [heq] at hm' hf
  cases hm.symm.trans hm'
  exact ⟨session, hs, heq, hf⟩

/-- When all checks are back, their own lookups are all that were made. -/
theorem Balanced.perm_finish (hb : Balanced ctx service machines prospects made)
    (hr : (returned.map (Session.prospect ctx service)).Sublist prospects)
    (ended : ∀ session ∈ returned, session.IsEnded ctx service)
    (all : returned.length = machines.length) :
    (made.reverse.map Prod.snd).Perm (machines.flatMap fun m => (m.finish ctx service).1) := by
  refine (perm_ownRequests hb.known).trans (.of_eq (flatMap_range ?_))
  intro caller m hm
  obtain ⟨session, -, -, hf⟩ := hb.exists_back hr ended all hm
  rw [hf]

end Back

/-! ## Checks in places -/

theorem perm_eraseIdx {α : Type} {l : List α} {i : Nat} {a : α} (h : l[i]? = some a) :
    l.Perm (a :: l.eraseIdx i) := by
  obtain ⟨hi, rfl⟩ := List.getElem?_eq_some_iff.mp h
  exact (List.getElem_cons_eraseIdx_perm hi).symm

theorem perm_set {α : Type} {l : List α} {i : Nat} {a : α} (b : α) (h : l[i]? = some a) :
    (l.set i b).Perm (b :: l.eraseIdx i) := by
  obtain ⟨hi, rfl⟩ := List.getElem?_eq_some_iff.mp h
  have hb : (l.set i b)[i]? = some b := by simp [hi]
  have := perm_eraseIdx hb
  rwa [List.eraseIdx_set_eq] at this

/-! ## Runs of an executor -/

/-- The states that actions lead to, in any order in which they can happen. -/
inductive Leads {σ ι : Type} (act : σ → ι → Option σ) (start : σ) : σ → Prop
  | refl : Leads act start start
  | act {s s' : σ} {i : ι} (before : Leads act start s) (h : act s i = some s') :
      Leads act start s'

theorem Leads.trans {σ ι : Type} {act : σ → ι → Option σ} {s s' s'' : σ} (h : Leads act s s')
    (h' : Leads act s' s'') : Leads act s s'' := by
  induction h' with
  | refl => exact h
  | act _ ha ih => exact ih.act ha

end SenderPolicy.Executor
