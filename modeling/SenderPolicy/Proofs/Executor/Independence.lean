import SenderPolicy.Check
import SenderPolicy.Proofs.Executor.Queue
import SenderPolicy.Proofs.Executor.Tasks

/-!
# Checks do not notice each other

Checks that start at once come back from a queue, or from tasks of their own, with what each of them
comes to when its caller makes the lookups itself, one after the other and for this check alone.
That holds in whatever order checks get permits, workers take lookups from the queue, lookups are
answered and checks go on.

## Main definitions

* `alone`: the lookups and the outcome of a check whose caller makes the lookups
* `Agrees`: what has come back, and what was looked up, agree with the checks alone

## Main results

* `agrees_of_leads`: they do, behind whatever has happened in a queue or to tasks
-/

namespace SenderPolicy.Executor

open Evaluation

variable {ctx : Context} {service : Dns.Service}

/-- The lookups and the outcome of a check whose caller makes the lookups. -/
def alone (ctx : Context) (service : Dns.Service) (check : Identity × Option String) :
    List Dns.Request × Outcome :=
  let (requests, states) := blocking.execute ctx service [machineOf check.1 check.2]
  (requests, outcomeOf check.1 states.head?.join)

/-- What has come back, and what was looked up, agree with the checks alone. -/
structure Agrees (ctx : Context) (service : Dns.Service) (checks : List (Identity × Option String))
    (returned : List Session) (made : List (Nat × Dns.Request)) : Prop where
  /-- A check that is back has made its own lookups and has come to its own outcome. -/
  back : ∀ session ∈ returned, ∃ check, checks[session.caller]? = some check ∧
    alone ctx service check =
      (ownRequests session.caller made, outcomeOf check.1 (some session.machine.state))
  /-- Every check comes back once. -/
  once : (returned.map Session.caller).Nodup
  /-- What a check has looked up so far is the beginning of its own lookups. -/
  soFar : ∀ caller check, checks[caller]? = some check →
    ownRequests caller made <+: (alone ctx service check).1
  /-- Nothing was looked up but for the checks. -/
  owned : (made.reverse.map Prod.snd).Perm
    ((List.range checks.length).flatMap fun caller => ownRequests caller made)
  /-- When all checks are back, their own lookups are all that were made. -/
  together : returned.length = checks.length →
    (made.reverse.map Prod.snd).Perm (checks.flatMap fun check => (alone ctx service check).1)

/-- The machines of checks that start at once. -/
def machinesOf (checks : List (Identity × Option String)) : List Machine :=
  checks.map fun check => machineOf check.1 check.2

theorem alone_of_finish {check : Identity × Option String} {requests : List Dns.Request}
    {last : State} (h : (machineOf check.1 check.2).finish ctx service = (requests, last)) :
    alone ctx service check = (requests, outcomeOf check.1 (some last)) := by
  simp [alone, execute, h]

theorem getElem?_machinesOf {checks : List (Identity × Option String)} {caller : Nat} {m : Machine}
    (h : (machinesOf checks)[caller]? = some m) :
    ∃ check, checks[caller]? = some check ∧ machineOf check.1 check.2 = m := by
  rw [machinesOf, List.getElem?_map, Option.map_eq_some_iff] at h
  exact h

/-- When the checks that are back have ended, they and the lookups agree with the checks alone. -/
theorem Balanced.agrees {checks : List (Identity × Option String)} {prospects : List Prospect}
    {returned : List Session} {made : List (Nat × Dns.Request)}
    (hb : Balanced ctx service (machinesOf checks) prospects made)
    (hr : (returned.map (Session.prospect ctx service)).Sublist prospects)
    (ended : ∀ session ∈ returned, session.IsEnded ctx service) :
    Agrees ctx service checks returned made := by
  have length : (machinesOf checks).length = checks.length := List.length_map _
  refine ⟨?_, ?_, ?_, perm_ownRequests (length ▸ hb.known), ?_⟩
  · intro session hs
    obtain ⟨m, hm, hf⟩ := hb.back hr ended hs
    obtain ⟨check, hc, rfl⟩ := getElem?_machinesOf hm
    exact ⟨check, hc, alone_of_finish hf⟩
  · exact (hb.callers.nodup_iff.mpr List.nodup_range).sublist (callers_sublist hr)
  -- what a check makes alone is what it has made, and behind that what is left of it
  · intro caller check hc
    obtain ⟨p, hp, rfl⟩ := hb.exists_prospect (length ▸ (List.getElem?_eq_some_iff.mp hc).1)
    obtain ⟨m, hm, hf⟩ := hb.balance p hp
    obtain ⟨check', hc', rfl⟩ := getElem?_machinesOf hm
    rw [hc] at hc'
    cases hc'
    rw [alone_of_finish hf]
    exact List.prefix_append _ _
  · intro all
    refine (hb.perm_finish hr ended (all.trans length.symm)).trans (.of_eq ?_)
    rw [machinesOf, List.flatMap_map]
    exact List.flatMap_congr fun check _ => by rw [alone_of_finish rfl]

/-! ## Whatever happens -/

variable {checks : List (Identity × Option String)}

theorem prospects_submit (workers permits : Nat) (order : List Session) :
    ((Queue.opened workers permits).submit order).prospects ctx service =
      order.map (Session.prospect ctx service) := by
  have idle : ∀ n, (List.replicate n Worker.idle).filterMap (Worker.prospect ctx service) = [] := by
    intro n
    rw [List.filterMap_replicate_of_none rfl]
  simp [Queue.prospects, Queue.opened, Queue.submit, idle]

/-- In a queue, checks stay balanced, and those that are back have ended. -/
theorem Queue.balanced_of_leads {machines : List Machine} {order : List Session}
    (ho : order.Perm (sessionsOf machines)) {workers permits : Nat} {queue : Queue}
    (h : Leads (Queue.act ctx service) ((Queue.opened workers permits).submit order) queue) :
    Balanced ctx service machines (queue.prospects ctx service) queue.made ∧
      queue.Sound ctx service := by
  -- on the actions so far: each of them is a move
  induction h with
  | refl =>
    refine ⟨?_, fun session hs => absurd hs List.not_mem_nil⟩
    rw [prospects_submit]
    exact (Balanced.start machines).perm (ho.symm.map _)
  | act before ha ih => exact ⟨ih.1.moves (Queue.moves_act ha), Queue.sound_act ih.2 ha⟩

/-- In tasks, checks stay balanced, and those that are back have ended. -/
theorem Tasks.balanced_of_leads {machines : List Machine} {order : List Session}
    (ho : order.Perm (sessionsOf machines)) {tasks : Tasks}
    (h : Leads (Tasks.act ctx service) (Tasks.submit order) tasks) :
    Balanced ctx service machines (tasks.prospects ctx service) tasks.made ∧
      tasks.Sound ctx service := by
  induction h with
  | refl =>
    refine ⟨?_, fun session hs => absurd hs List.not_mem_nil⟩
    have start : (Tasks.submit order).prospects ctx service =
        order.map (Session.prospect ctx service) := by
      rw [Tasks.prospects, Tasks.submit, List.map_map, List.map_nil, List.append_nil]
      rfl
    rw [start]
    exact (Balanced.start machines).perm (ho.symm.map _)
  | act before ha ih => exact ⟨ih.1.moves (Tasks.moves_act ha), Tasks.sound_act ih.2 ha⟩

/-- Whatever has happened since checks started in some order, in a queue with any number of workers
and permits or in tasks of their own, agrees with the checks alone. -/
theorem agrees_of_leads (ctx : Context) (service : Dns.Service)
    (checks : List (Identity × Option String)) (order : List Session)
    (ho : order.Perm (sessionsOf (machinesOf checks))) :
    (∀ workers permits queue,
      Leads (Queue.act ctx service) ((Queue.opened workers permits).submit order) queue →
      Agrees ctx service checks queue.returned queue.made) ∧
    (∀ tasks, Leads (Tasks.act ctx service) (Tasks.submit order) tasks →
      Agrees ctx service checks tasks.returned tasks.made) := by
  constructor
  · intro workers permits queue h
    obtain ⟨balanced, sound⟩ := Queue.balanced_of_leads ho h
    -- the checks that are back are the last of those outside of workers
    refine balanced.agrees ?_ fun session hs => sound session (List.mem_append_right _ hs)
    refine .trans ?_ (List.sublist_append_left _ _)
    exact (List.sublist_append_right _ _).map _
  · intro tasks h
    obtain ⟨balanced, sound⟩ := Tasks.balanced_of_leads ho h
    exact balanced.agrees (List.sublist_append_right _ _) sound

/-- A receiver that sets nothing. -/
def plainContext : Context := ⟨.standard, [], 10⟩

/-- A service that answers nothing. -/
def unanswered : Dns.Service := fun _ => .error (.timeout "")

/-- The check of a client that gives its own domain as its name. -/
def plainCheck : Identity × Option String := (⟨.v4 1#32, "a@b", "a", "b", "b", 0⟩, none)

/-- The check stops at its first lookup, and ends behind it. -/
theorem runs_plainCheck (caller : Nat) : ∃ aside last : Machine,
    Session.start plainContext ⟨caller, machineOf plainCheck.1 plainCheck.2⟩ = ⟨caller, aside⟩ ∧
    Session.request? ⟨caller, aside⟩ = some ⟨"b", .spf⟩ ∧
    Session.resume plainContext (unanswered ⟨"b", .spf⟩) ⟨caller, aside⟩ = ⟨caller, last⟩ ∧
    Session.request? ⟨caller, last⟩ = none := by
  have started := @Machine.run_of_steps plainContext (machineOf plainCheck.1 plainCheck.2) 3 rfl
  have resumed := @Machine.run_of_steps plainContext
    (((machineOf plainCheck.1 plainCheck.2).steps plainContext 3).resume plainContext
      (unanswered ⟨"b", .spf⟩)) 7 rfl
  exact ⟨_, _, congrArg (Session.mk caller) started, rfl, congrArg (Session.mk caller) resumed, rfl⟩

/-- Two checks take turns in a queue with two workers and in tasks of their own: the second one goes
on first, and comes back first. -/
theorem agrees_of_leads_unanswered :
    (∃ queue : Queue,
      Leads (Queue.act plainContext unanswered)
        ((Queue.opened 2 2).submit (sessionsOf (machinesOf [plainCheck, plainCheck]))) queue ∧
      queue.returned.map Session.caller = [1, 0] ∧ queue.made.map Prod.fst = [1, 0] ∧
      Agrees plainContext unanswered [plainCheck, plainCheck] queue.returned queue.made) ∧
    ∃ tasks : Tasks,
      Leads (Tasks.act plainContext unanswered)
        (Tasks.submit (sessionsOf (machinesOf [plainCheck, plainCheck]))) tasks ∧
      tasks.returned.map Session.caller = [1, 0] ∧ tasks.made.map Prod.fst = [1, 0] ∧
      Agrees plainContext unanswered [plainCheck, plainCheck] tasks.returned tasks.made := by
  have agrees := agrees_of_leads plainContext unanswered [plainCheck, plainCheck] _ (.refl _)
  have order : sessionsOf (machinesOf [plainCheck, plainCheck]) =
      [⟨0, machineOf plainCheck.1 plainCheck.2⟩, ⟨1, machineOf plainCheck.1 plainCheck.2⟩] := rfl
  rw [order] at agrees ⊢
  obtain ⟨aside₀, last₀, start₀, waits₀, resume₀, ended₀⟩ := runs_plainCheck 0
  obtain ⟨aside₁, last₁, start₁, waits₁, resume₁, ended₁⟩ := runs_plainCheck 1
  generalize machineOf plainCheck.1 plainCheck.2 = m at *
  let request : Dns.Request := ⟨"b", .spf⟩
  constructor
  · let Comes := Leads (Queue.act plainContext unanswered)
      ((Queue.opened 2 2).submit [⟨0, m⟩, ⟨1, m⟩])
    -- both checks get a permit, start, and stop at their first lookups
    have granted : Comes ⟨0, [], [⟨0, m⟩, ⟨1, m⟩], [], [.idle, .idle], [], [], []⟩ :=
      .act (i := .grant) (.act (i := .grant) .refl rfl) rfl
    have started : Comes ⟨0, [], [⟨1, m⟩], [⟨0, aside₀⟩], [.idle, .idle], [], [], []⟩ :=
      granted.act (i := .start 0) (by simp [Queue.act, Queue.place, start₀, waits₀])
    have started : Comes ⟨0, [], [], [⟨0, aside₀⟩, ⟨1, aside₁⟩], [.idle, .idle], [], [], []⟩ :=
      started.act (i := .start 0) (by simp [Queue.act, Queue.place, start₁, waits₁])
    -- the workers take one of them each, and have their answers in the other order
    have received : Comes ⟨0, [], [], [⟨1, aside₁⟩], [.looking ⟨0, aside₀⟩, .idle], [], [],
        [(0, request)]⟩ :=
      started.act (i := .receive 0) (by simp [Queue.act, waits₀, request])
    have received : Comes ⟨0, [], [], [], [.looking ⟨0, aside₀⟩, .looking ⟨1, aside₁⟩], [], [],
        [(1, request), (0, request)]⟩ :=
      received.act (i := .receive 1) (by simp [Queue.act, waits₁, request])
    have answered : Comes ⟨0, [], [], [],
        [.looking ⟨0, aside₀⟩, .holding ⟨1, aside₁⟩ (unanswered request)], [], [],
        [(1, request), (0, request)]⟩ :=
      received.act (i := .complete 1) (by simp [Queue.act, waits₁, request])
    have answered : Comes ⟨0, [], [], [],
        [.holding ⟨0, aside₀⟩ (unanswered request), .holding ⟨1, aside₁⟩ (unanswered request)], [],
        [], [(1, request), (0, request)]⟩ :=
      answered.act (i := .complete 0) (by simp [Queue.act, waits₀, request])
    have resumed : Comes ⟨0, [], [], [], [.holding ⟨0, aside₀⟩ (unanswered request), .idle],
        [⟨1, last₁⟩], [], [(1, request), (0, request)]⟩ :=
      answered.act (i := .resume 1) (by simp [Queue.act, Queue.place, request, resume₁, ended₁])
    have resumed : Comes ⟨0, [], [], [], [.idle, .idle], [⟨1, last₁⟩, ⟨0, last₀⟩], [],
        [(1, request), (0, request)]⟩ :=
      resumed.act (i := .resume 0) (by simp [Queue.act, Queue.place, request, resume₀, ended₀])
    have collected : Comes ⟨2, [], [], [], [.idle, .idle], [], [⟨1, last₁⟩, ⟨0, last₀⟩],
        [(1, request), (0, request)]⟩ :=
      .act (i := .collect 0) (.act (i := .collect 0) resumed rfl) rfl
    exact ⟨_, collected, rfl, rfl, agrees.1 2 2 _ collected⟩
  · let Comes := Leads (Tasks.act plainContext unanswered) (Tasks.submit [⟨0, m⟩, ⟨1, m⟩])
    have started : Comes ⟨[.looking ⟨0, aside₀⟩, .starting ⟨1, m⟩], [], [(0, request)]⟩ :=
      .act (i := .start 0) .refl
        (by simp [Tasks.act, Tasks.submit, Tasks.place, start₀, waits₀, request])
    have started : Comes ⟨[.looking ⟨0, aside₀⟩, .looking ⟨1, aside₁⟩], [],
        [(1, request), (0, request)]⟩ :=
      started.act (i := .start 1) (by simp [Tasks.act, Tasks.place, start₁, waits₁, request])
    have answered : Comes ⟨[.looking ⟨0, aside₀⟩, .holding ⟨1, aside₁⟩ (unanswered request)], [],
        [(1, request), (0, request)]⟩ :=
      started.act (i := .complete 1) (by simp [Tasks.act, waits₁, request])
    have answered : Comes ⟨[.holding ⟨0, aside₀⟩ (unanswered request),
        .holding ⟨1, aside₁⟩ (unanswered request)], [], [(1, request), (0, request)]⟩ :=
      answered.act (i := .complete 0) (by simp [Tasks.act, waits₀, request])
    have resumed : Comes ⟨[.holding ⟨0, aside₀⟩ (unanswered request)], [⟨1, last₁⟩],
        [(1, request), (0, request)]⟩ :=
      answered.act (i := .resume 1) (by simp [Tasks.act, Tasks.place, request, resume₁, ended₁])
    have resumed : Comes ⟨[], [⟨1, last₁⟩, ⟨0, last₀⟩], [(1, request), (0, request)]⟩ :=
      resumed.act (i := .resume 0) (by simp [Tasks.act, Tasks.place, request, resume₀, ended₀])
    exact ⟨_, resumed, rfl, rfl, agrees.2 _ resumed⟩

end SenderPolicy.Executor
