import Mathlib.Algebra.GroupWithZero.Nat
import SenderPolicy.Proofs.Executor.Permits

/-!
# Every check comes back

Each action that can happen takes a check one action closer to its caller, and while a check is
under way some action can happen. As many actions as are ahead of the submitted checks therefore
bring all of them back. So an executor that loses no check makes the lookups that callers make by
themselves, and its checks come to the same last states.

## Main definitions

* `Settles`: a way to let one action follow the other until none is ahead
* `Tasks.ahead`, `Queue.ahead`: the actions that are ahead of the checks under way

## Main results

* `Settles.leads`: a run of as many actions as are ahead leaves none
* `Tasks.ahead_act`, `Queue.ahead_act`: every action is one of those ahead
* `Tasks.execute_settled`, `Queue.execute_settled`: all checks are back when a run has settled
* `execute_blocking`, `execute_singleton`: all executors but the one that loses its checks come to
  the same
* `check_eq_blocking`, `checkAll_blocking`: so do checks
-/

namespace SenderPolicy

namespace Executor

open Evaluation

variable {ctx : Context} {service : Dns.Service}

/-! ## Runs that settle -/

/-- A way to settle: the first candidate that can happen always does. Every action is one of those
that are ahead, and while there are any, one of the candidates can happen. -/
structure Settles {σ ι : Type} (act : σ → ι → Option σ) (candidates : σ → List ι)
    (settle : Nat → σ → σ) (Valid : σ → Prop) (ahead : σ → Nat) : Prop where
  settle_zero : ∀ s, settle 0 s = s
  settle_succ : ∀ n s next, (candidates s).findSome? (act s) = some next →
    settle (n + 1) s = settle n next
  valid_act : ∀ s i s', Valid s → act s i = some s' → Valid s'
  ahead_act : ∀ s i s', act s i = some s' → ahead s = ahead s' + 1
  progress : ∀ s, Valid s → ahead s ≠ 0 → ∃ i ∈ candidates s, (act s i).isSome

/-- A run of as many actions as are ahead leaves none. -/
theorem Settles.leads {σ ι : Type} {act : σ → ι → Option σ} {candidates : σ → List ι}
    {settle : Nat → σ → σ} {Valid : σ → Prop} {ahead : σ → Nat}
    (h : Settles act candidates settle Valid ahead) {n : Nat} {s : σ} (valid : Valid s)
    (hn : ahead s = n) :
    Leads act s (settle n s) ∧ Valid (settle n s) ∧ ahead (settle n s) = 0 := by
  -- on the actions ahead, of which the first that can happen is the next one
  induction n generalizing s with
  | zero =>
    rw [h.settle_zero]
    exact ⟨.refl, valid, hn⟩
  | succ n ih =>
    have possible : ((candidates s).findSome? (act s)).isSome :=
      List.findSome?_isSome_iff.mpr (h.progress s valid (hn ▸ Nat.succ_ne_zero n))
    obtain ⟨next, hf⟩ := Option.isSome_iff_exists.mp possible
    obtain ⟨i, -, ha⟩ := List.exists_of_findSome?_eq_some hf
    have fewer : ahead next = n := Nat.succ.inj ((h.ahead_act s i next ha).symm.trans hn)
    obtain ⟨leads, settled⟩ := ih (h.valid_act s i next valid ha) fewer
    rw [h.settle_succ n s next hf]
    exact ⟨.trans (.act .refl ha) leads, settled⟩

/-! ## Lookups ahead of a check -/

theorem lookupsAhead_start (session : Session) :
    (session.start ctx).lookupsAhead ctx service = session.lookupsAhead ctx service :=
  congrArg (List.length ∘ Prospect.requests) (prospect_start session)

/-- A check that awaits a lookup has one more ahead than behind its answer. -/
theorem lookupsAhead_of_request {session : Session} {request : Dns.Request}
    (h : session.request? = some request) :
    session.lookupsAhead ctx service =
      (session.resume ctx (service request)).lookupsAhead ctx service + 1 := by
  have made := congrArg (List.length ∘ Prospect.requests) (@prospect_of_request ctx
    service session request h)
  rwa [answered_of_request h] at made

theorem lookupsAhead_pos {session : Session} (h : session.request?.isSome) (ctx : Context)
    (service : Dns.Service) : 0 < session.lookupsAhead ctx service := by
  obtain ⟨request, hr⟩ := Option.isSome_iff_exists.mp h
  rw [lookupsAhead_of_request hr]
  exact Nat.succ_pos _

theorem Session.IsEnded.lookupsAhead {session : Session} (h : session.IsEnded ctx service) :
    session.lookupsAhead ctx service = 0 :=
  congrArg (List.length ∘ Prospect.requests) h

/-! ## Tasks -/

/-- The actions ahead of the check of a task. A check that looks something up has counted on that
lookup. -/
def Task.ahead (ctx : Context) (service : Dns.Service) : Task → Nat
  | starting session => 2 * session.lookupsAhead ctx service + 1
  | looking session => 2 * session.lookupsAhead ctx service
  | holding session answer => 2 * (session.resume ctx answer).lookupsAhead ctx service + 1

namespace Tasks

/-- The actions ahead of all checks under way. -/
def ahead (ctx : Context) (service : Dns.Service) (tasks : Tasks) : Nat :=
  (tasks.running.map (Task.ahead ctx service)).sum

theorem ahead_submit (sessions : List Session) :
    (submit sessions).ahead ctx service = actionsAhead ctx service sessions := by
  induction sessions with
  | nil => rfl
  | cons session sessions ih =>
    rw [actionsAhead, ← ih]
    simp [ahead, submit, Task.ahead]

/-- The actions ahead are those of one task and those of the others. -/
theorem ahead_eq {tasks : Tasks} {index : Nat} {task : Task}
    (ht : tasks.running[index]? = some task) :
    tasks.ahead ctx service = task.ahead ctx service +
      ((tasks.running.eraseIdx index).map (Task.ahead ctx service)).sum := by
  have parts := ((perm_eraseIdx ht).map (Task.ahead ctx service)).sum_nat
  rwa [List.map_cons, List.sum_cons] at parts

theorem ahead_set {tasks : Tasks} {index : Nat} {task : Task} (next : Task)
    (ht : tasks.running[index]? = some task) :
    ({ tasks with running := tasks.running.set index next } : Tasks).ahead ctx service =
      next.ahead ctx service +
        ((tasks.running.eraseIdx index).map (Task.ahead ctx service)).sum := by
  have parts := ((perm_set next ht).map (Task.ahead ctx service)).sum_nat
  rwa [List.map_cons, List.sum_cons] at parts

/-- A check that goes on has used one action up, also if it is back with that. -/
theorem ahead_place {tasks : Tasks} {index : Nat} {task : Task} {session : Session}
    (ht : tasks.running[index]? = some task)
    (hl : task.ahead ctx service = 2 * session.lookupsAhead ctx service + 1)
    (ended : session.request? = none → session.IsEnded ctx service) :
    tasks.ahead ctx service = (tasks.place index session).ahead ctx service + 1 := by
  rw [ahead_eq ht, hl]
  unfold place
  cases hr : session.request? with
  | some request =>
    have after := @ahead_set ctx service tasks index task (.looking session) ht
    simp only [ahead, Task.ahead] at after ⊢
    omega
  | none =>
    have none := (ended hr).lookupsAhead
    simp only [ahead]
    omega

/-- Every action is one of those ahead. -/
theorem ahead_act {tasks tasks' : Tasks} {action : Action}
    (h : tasks.act ctx service action = some tasks') :
    tasks.ahead ctx service = tasks'.ahead ctx service + 1 := by
  cases act_happens h with
  | start ht => exact ahead_place ht (by rw [Task.ahead, lookupsAhead_start]) isEnded_start
  | @complete index session request ht hr =>
    rw [ahead_eq ht, ahead_set _ ht, Task.ahead, Task.ahead, lookupsAhead_of_request hr]
    omega
  | resume ht => exact ahead_place ht rfl isEnded_resume

/-- While a check is under way, an action is ahead. -/
theorem Awaiting.ahead_eq_zero_iff {tasks : Tasks} (h : tasks.Awaiting) :
    tasks.ahead ctx service = 0 ↔ tasks.running = [] := by
  constructor
  · intro none
    refine List.eq_nil_iff_forall_not_mem.mpr fun task ht => ?_
    obtain ⟨index, hi⟩ := List.mem_iff_getElem?.mp ht
    rw [ahead_eq hi, Nat.add_eq_zero_iff] at none
    cases task with
    | starting | holding => cases none.1
    | looking session =>
      have lookups := lookupsAhead_pos (h session ht) ctx service
      rw [Task.ahead] at none
      omega
  · intro empty
    rw [ahead, empty]
    rfl

theorem settles (ctx : Context) (service : Dns.Service) :
    Settles (act ctx service) candidates (settle ctx service) Awaiting (ahead ctx service) where
  settle_zero _ := rfl
  settle_succ _ _ _ h := by rw [settle, h]
  valid_act _ _ _ valid ha := valid.act ha
  ahead_act _ _ _ := ahead_act
  progress _ valid hn := valid.progress (mt valid.ahead_eq_zero_iff.mpr hn) ctx service

/-- All checks are back when a run has settled. -/
theorem execute_settled (ctx : Context) (service : Dns.Service) (sessions : List Session) :
    Leads (act ctx service) (submit sessions) (execute ctx service sessions) ∧
      (execute ctx service sessions).running = [] := by
  obtain ⟨leads, valid, none⟩ :=
    (settles ctx service).leads (awaiting_submit sessions) (ahead_submit sessions)
  exact ⟨leads, valid.ahead_eq_zero_iff.mp none⟩

end Tasks

/-! ## The queue -/

/-- The actions ahead of the check of a worker. A check that looks something up has counted on that
lookup. -/
def Worker.ahead (ctx : Context) (service : Dns.Service) : Worker → Nat
  | idle => 0
  | looking session => 3 * session.lookupsAhead ctx service
  | holding session answer => 3 * (session.resume ctx answer).lookupsAhead ctx service + 2

namespace Queue

/-- The actions ahead of checks that have as many more ahead as their place costs. -/
def aheadOf (ctx : Context) (service : Dns.Service) (more : Nat) (sessions : List Session) : Nat :=
  (sessions.map fun session => 3 * session.lookupsAhead ctx service + more).sum

/-- The actions ahead of all checks that are not back. -/
def ahead (ctx : Context) (service : Dns.Service) (queue : Queue) : Nat :=
  aheadOf ctx service 3 queue.waiting + aheadOf ctx service 2 queue.admitted +
    aheadOf ctx service 1 queue.jobs + (queue.workers.map (Worker.ahead ctx service)).sum +
    queue.finished.length

theorem aheadOf_cons (more : Nat) (session : Session) (sessions : List Session) :
    aheadOf ctx service more (session :: sessions) =
      3 * session.lookupsAhead ctx service + more + aheadOf ctx service more sessions := by
  rw [aheadOf, aheadOf, List.map_cons, List.sum_cons]

theorem aheadOf_append_singleton (more : Nat) (sessions : List Session) (session : Session) :
    aheadOf ctx service more (sessions ++ [session]) =
      aheadOf ctx service more sessions + (3 * session.lookupsAhead ctx service + more) := by
  rw [aheadOf, List.map_append, List.sum_append, List.map_singleton, List.sum_singleton, aheadOf]

theorem aheadOf_eraseIdx {more index : Nat} {session : Session} {sessions : List Session}
    (hs : sessions[index]? = some session) :
    aheadOf ctx service more sessions =
      3 * session.lookupsAhead ctx service + more +
        aheadOf ctx service more (sessions.eraseIdx index) := by
  rw [← aheadOf_cons]
  exact ((perm_eraseIdx hs).map _).sum_nat

theorem aheadOf_eq_zero_iff {more : Nat} (hm : 0 < more) {sessions : List Session} :
    aheadOf ctx service more sessions = 0 ↔ sessions = [] := by
  cases sessions with
  | nil => exact iff_of_true rfl rfl
  | cons session sessions =>
    rw [aheadOf_cons]
    exact iff_of_false (by omega) (List.cons_ne_nil _ _)

/-- A worker that does something else has another number of actions ahead. -/
theorem ahead_workers_set {queue : Queue} {index : Nat} {worker : Worker} (next : Worker)
    (hw : queue.workers[index]? = some worker) :
    ((queue.workers.set index next).map (Worker.ahead ctx service)).sum +
        worker.ahead ctx service =
      (queue.workers.map (Worker.ahead ctx service)).sum + next.ahead ctx service := by
  have before := ((perm_eraseIdx hw).map (Worker.ahead ctx service)).sum_nat
  have after := ((perm_set next hw).map (Worker.ahead ctx service)).sum_nat
  rw [List.map_cons, List.sum_cons] at before after
  omega

/-- A check that is placed has one more action ahead than those that its lookups take: it is to be
taken from its place. -/
theorem ahead_place (queue : Queue) {session : Session}
    (ended : session.request? = none → session.IsEnded ctx service) :
    (queue.place session).ahead ctx service =
      queue.ahead ctx service + (3 * session.lookupsAhead ctx service + 1) := by
  unfold place
  cases hr : session.request? with
  | some request =>
    simp only [ahead, aheadOf_append_singleton]
    omega
  | none =>
    have none := (ended hr).lookupsAhead
    simp only [ahead, List.length_append, List.length_singleton]
    omega

/-- Every action is one of those ahead. -/
theorem ahead_act {queue queue' : Queue} {action : Action}
    (h : queue.act ctx service action = some queue') :
    queue.ahead ctx service = queue'.ahead ctx service + 1 := by
  cases act_happens h with
  | @grant session waiting hw hf =>
    simp only [ahead, hw, aheadOf_append_singleton, aheadOf_cons]
    omega
  | @start index session hs =>
    rw [ahead_place _ isEnded_start, lookupsAhead_start]
    simp only [ahead, aheadOf_eraseIdx hs]
    omega
  | @receive index session jobs hw hj =>
    have taken := @ahead_workers_set ctx service queue index _ (.looking session) hw
    simp only [Worker.ahead] at taken
    simp only [ahead, hj, aheadOf_cons]
    omega
  | @complete index session request hw hr =>
    have answered := @ahead_workers_set ctx service queue index _
      (.holding session (service request)) hw
    have made := @lookupsAhead_of_request ctx service session request hr
    simp only [Worker.ahead] at answered
    simp only [ahead]
    omega
  | @resume index session answer hw =>
    have left := @ahead_workers_set ctx service queue index _ .idle hw
    simp only [Worker.ahead] at left
    rw [ahead_place _ isEnded_resume]
    simp only [ahead]
    omega
  | @collect index session hs =>
    have taken := (perm_eraseIdx hs).length_eq
    rw [List.length_cons] at taken
    simp only [ahead]
    omega

theorem ahead_submit (workers permits : Nat) (sessions : List Session) :
    ((opened workers permits).submit sessions).ahead ctx service =
      actionsAhead ctx service sessions := by
  have idle : (((opened workers permits).workers).map (Worker.ahead ctx service)).sum = 0 := by
    simp [opened, Worker.ahead]
  have waiting : aheadOf ctx service 3 sessions = actionsAhead ctx service sessions := by
    induction sessions with
    | nil => rfl
    | cons session sessions ih => rw [aheadOf_cons, ih, actionsAhead]
  rw [← waiting, ahead, submit, idle]
  rfl

variable {queue : Queue} {workers permits : Nat} {sessions : List Session}

/-- Nothing is left of the checks of workers that have none. -/
theorem filterMap_prospect (h : queue.held = []) :
    queue.workers.filterMap (Worker.prospect ctx service) = [] := by
  rw [held, List.filterMap_eq_nil_iff] at h
  refine List.filterMap_eq_nil_iff.mpr fun worker hw => ?_
  cases worker with
  | idle => rfl
  | looking | holding => cases h _ hw

/-- While a worker has a check, an action is ahead. -/
theorem ahead_workers_eq_zero_iff {queue : Queue}
    (awaits : ∀ session ∈ queue.held, session.request?.isSome) :
    (queue.workers.map (Worker.ahead ctx service)).sum = 0 ↔ queue.held = [] := by
  unfold held at awaits ⊢
  generalize queue.workers = workers at awaits ⊢
  induction workers with
  | nil => exact iff_of_true rfl rfl
  | cons worker workers ih =>
    rw [filterMap_cons_toList] at awaits ⊢
    rw [List.map_cons, List.sum_cons, Nat.add_eq_zero_iff, List.append_eq_nil_iff,
      ih fun session hs => awaits session (List.mem_append_right _ hs)]
    refine and_congr_left fun _ => ?_
    cases worker with
    | idle => exact iff_of_true rfl rfl
    | looking session =>
      have lookups := lookupsAhead_pos (awaits session List.mem_cons_self) ctx service
      refine iff_of_false ?_ (List.cons_ne_nil _ _)
      rw [Worker.ahead]
      omega
    | holding session answer => exact iff_of_false nofun (List.cons_ne_nil _ _)

/-- While a check is not back, an action is ahead. -/
theorem Custody.ahead_eq_zero_iff (h : Custody workers permits sessions queue) :
    queue.ahead ctx service = 0 ↔
      queue.waiting = [] ∧ queue.underway = [] ∧ queue.finished = [] := by
  have idle : (queue.workers.map (Worker.ahead ctx service)).sum = 0 ↔ queue.held = [] :=
    ahead_workers_eq_zero_iff fun session hs =>
      h.sorted.awaits session (List.mem_append_right _ hs)
  simp only [ahead, Nat.add_eq_zero_iff, aheadOf_eq_zero_iff (Nat.succ_pos _), idle, underway,
    List.append_eq_nil_iff, List.length_eq_zero_iff]
  tauto

theorem settles (ctx : Context) (service : Dns.Service) :
    Settles (act ctx service) candidates (settle ctx service) (Custody workers permits sessions)
      (ahead ctx service) where
  settle_zero _ := rfl
  settle_succ _ _ _ h := by rw [settle, h]
  valid_act _ _ _ valid ha := valid.act ha
  ahead_act _ _ _ := ahead_act
  progress queue custody hn := by
    by_cases underway : queue.underway = []
    · by_cases finished : queue.finished = []
      · -- no check holds a permit, so a check that waits can get one
        have waiting : queue.waiting ≠ [] := fun waiting =>
          hn (custody.ahead_eq_zero_iff.mpr ⟨waiting, underway, finished⟩)
        have sum := custody.permits
        rw [length_inside, underway, finished, List.append_nil, List.length_nil] at sum
        exact ⟨.grant, by simp [candidates], isSome_grant waiting (by omega)⟩
      · have first := List.length_pos_iff.mpr finished
        exact ⟨.collect 0, by simp [candidates, first], isSome_collect first⟩
    · obtain ⟨action, listed, -, possible⟩ := custody.progress underway ctx service
      exact ⟨action, listed, possible⟩

/-- All checks are back when a run has settled. -/
theorem execute_settled (ctx : Context) (service : Dns.Service) (workers permits : Nat)
    (sessions : List Session) :
    Leads (act ctx service) ((opened (min workers sessions.length) permits).submit sessions)
        (execute ctx service workers permits sessions) ∧
      (execute ctx service workers permits sessions).waiting = [] ∧
      (execute ctx service workers permits sessions).underway = [] ∧
      (execute ctx service workers permits sessions).finished = [] := by
  obtain ⟨leads, custody, none⟩ := (settles ctx service).leads
    ((custody_opened (min workers sessions.length) permits).submit sessions)
    (ahead_submit _ permits sessions)
  exact ⟨leads, custody.ahead_eq_zero_iff.mp none⟩

end Queue

/-! ## What executors come to -/

section Executions

variable {machines : List Machine} {returned : List Session} {made : List (Nat × Dns.Request)}

/-- The checks in tasks, when a run has settled: they are all back and have ended. -/
theorem Tasks.balanced_execute (ctx : Context) (service : Dns.Service) (machines : List Machine) :
    Balanced ctx service machines
        ((Tasks.execute ctx service (sessionsOf machines)).returned.map
          (Session.prospect ctx service))
        (Tasks.execute ctx service (sessionsOf machines)).made ∧
      ∀ session ∈ (Tasks.execute ctx service (sessionsOf machines)).returned,
        session.IsEnded ctx service := by
  obtain ⟨leads, running⟩ := Tasks.execute_settled ctx service (sessionsOf machines)
  obtain ⟨balanced, sound⟩ := Tasks.balanced_of_leads (.refl _) leads
  rw [Tasks.prospects, running] at balanced
  exact ⟨balanced, sound⟩

/-- The checks in a queue, when a run has settled: they are all back and have ended. -/
theorem Queue.balanced_execute (ctx : Context) (service : Dns.Service) (workers permits : Nat)
    (machines : List Machine) :
    Balanced ctx service machines
        ((Queue.execute ctx service workers permits (sessionsOf machines)).returned.map
          (Session.prospect ctx service))
        (Queue.execute ctx service workers permits (sessionsOf machines)).made ∧
      ∀ session ∈ (Queue.execute ctx service workers permits (sessionsOf machines)).returned,
        session.IsEnded ctx service := by
  obtain ⟨leads, waiting, underway, finished⟩ :=
    Queue.execute_settled ctx service workers permits (sessionsOf machines)
  obtain ⟨balanced, sound⟩ := Queue.balanced_of_leads (.refl _) leads
  have places : (Queue.execute ctx service workers permits (sessionsOf machines)).prospects ctx
      service = (Queue.execute ctx service workers permits (sessionsOf machines)).returned.map
        (Session.prospect ctx service) := by
    rw [Queue.underway, List.append_eq_nil_iff, List.append_eq_nil_iff] at underway
    obtain ⟨⟨admitted, jobs⟩, held⟩ := underway
    rw [Queue.prospects, waiting, admitted, jobs, finished, Queue.filterMap_prospect held]
    simp
  exact ⟨places ▸ balanced, fun session hs => sound session (List.mem_append_right _ hs)⟩

/-- All checks are back. -/
theorem Balanced.length_returned
    (hb : Balanced ctx service machines (returned.map (Session.prospect ctx service)) made) :
    returned.length = machines.length := by
  have length := hb.callers.length_eq
  rwa [List.length_map, List.length_map, List.length_range] at length

/-- The last states of checks that are all back are those of whole checks. -/
theorem Balanced.statesOf_returned
    (hb : Balanced ctx service machines (returned.map (Session.prospect ctx service)) made)
    (ended : ∀ session ∈ returned, session.IsEnded ctx service) :
    statesOf machines.length returned = machines.map fun m => some (m.finish ctx service).2 := by
  refine List.ext_getElem (by simp [statesOf]) fun caller hc _ => ?_
  have hc : caller < machines.length := by simpa [statesOf] using hc
  have hm : machines[caller]? = some machines[caller] := List.getElem?_eq_getElem hc
  obtain ⟨session, hs, heq, -⟩ := hb.exists_back (.refl _) ended hb.length_returned hm
  have found : (returned.find? fun session => session.caller = caller).isSome :=
    List.find?_isSome.mpr ⟨session, hs, decide_eq_true heq⟩
  obtain ⟨first, hf⟩ := Option.isSome_iff_exists.mp found
  obtain ⟨m, hm', finished⟩ := hb.back (.refl _) ended (List.mem_of_find?_eq_some hf)
  have own := List.find?_some hf
  obtain rfl : first.caller = caller := of_decide_eq_true own
  cases hm.symm.trans hm'
  simp [statesOf, hf, finished]

/-- The lookups of a single check are its own, in order. -/
theorem Balanced.requests_singleton {m : Machine}
    (hb : Balanced ctx service [m] (returned.map (Session.prospect ctx service)) made)
    (ended : ∀ session ∈ returned, session.IsEnded ctx service) :
    made.reverse.map Prod.snd = (m.finish ctx service).1 := by
  have hm : [m][0]? = some m := rfl
  obtain ⟨session, -, -, finished⟩ := hb.exists_back (.refl _) ended hb.length_returned hm
  have own : made.reverse.filter (fun entry => entry.1 = 0) = made.reverse :=
    List.filter_eq_self.mpr fun entry he =>
      decide_eq_true (Nat.lt_one_iff.mp (hb.known entry (List.mem_reverse.mp he)))
  rw [finished, ownRequests, own]

end Executions

theorem execute_blocking_eq (ctx : Context) (service : Dns.Service) (machines : List Machine) :
    blocking.execute ctx service machines =
      (machines.flatMap fun m => (m.finish ctx service).1,
        machines.map fun m => some (m.finish ctx service).2) := by
  simp [execute, List.flatMap_map, Function.comp_def]

/-- What checks come to does not depend on the executor, as long as it loses none: the last states
are those of the blocking executor, and each lookup is made as often as that one makes it. -/
theorem execute_blocking {executor : Executor} (kept : executor ≠ .losing) (ctx : Context)
    (service : Dns.Service) (machines : List Machine) :
    (executor.execute ctx service machines).2 = (blocking.execute ctx service machines).2 ∧
      (executor.execute ctx service machines).1.Perm
        (blocking.execute ctx service machines).1 := by
  cases executor with
  | blocking => exact ⟨rfl, .refl _⟩
  | callback =>
    rw [execute_blocking_eq]
    obtain ⟨balanced, ended⟩ := Tasks.balanced_execute ctx service machines
    exact ⟨balanced.statesOf_returned ended,
      balanced.perm_finish (.refl _) ended balanced.length_returned⟩
  | queued workers permits =>
    rw [execute_blocking_eq]
    obtain ⟨balanced, ended⟩ := Queue.balanced_execute ctx service workers permits machines
    exact ⟨balanced.statesOf_returned ended,
      balanced.perm_finish (.refl _) ended balanced.length_returned⟩
  | losing => exact absurd rfl kept

/-- A single check also makes its lookups in the same order. -/
theorem execute_singleton {executor : Executor} (kept : executor ≠ .losing) (ctx : Context)
    (service : Dns.Service) (m : Machine) :
    executor.execute ctx service [m] = blocking.execute ctx service [m] := by
  have states := (execute_blocking kept ctx service [m]).1
  refine Prod.ext ?_ states
  rw [execute_blocking_eq, List.flatMap_singleton]
  cases executor with
  | blocking => rw [execute_blocking_eq, List.flatMap_singleton]
  | callback =>
    obtain ⟨balanced, ended⟩ := Tasks.balanced_execute ctx service [m]
    exact balanced.requests_singleton ended
  | queued workers permits =>
    obtain ⟨balanced, ended⟩ := Queue.balanced_execute ctx service workers permits [m]
    exact balanced.requests_singleton ended
  | losing => exact absurd rfl kept

end Executor

/-! ## Checks -/

variable {ctx : Evaluation.Context} {service : Dns.Service} {executor : Executor}

/-- A check comes to the same with every executor that loses none, with the same lookups. -/
theorem check_eq_blocking (kept : executor ≠ .losing) (timestamp : Int) (inquiry : Inquiry) :
    check ctx service executor timestamp inquiry =
      check ctx service .blocking timestamp inquiry := by
  unfold check
  cases inquiry.begin timestamp with
  | error outcome => rfl
  | ok identity => simp only [Executor.execute_singleton kept]

/-- Checks that start at once come to the same with every executor that loses none, and each lookup
is made as often. -/
theorem checkAll_blocking (kept : executor ≠ .losing) (timestamp : Int)
    (inquiries : List Inquiry) :
    (checkAll ctx service executor timestamp inquiries).2 =
        (checkAll ctx service .blocking timestamp inquiries).2 ∧
      (checkAll ctx service executor timestamp inquiries).1.Perm
        (checkAll ctx service .blocking timestamp inquiries).1 := by
  obtain ⟨states, requests⟩ := Executor.execute_blocking kept ctx service
    (inquiries.filterMap fun inquiry =>
      (inquiry.begin timestamp).toOption.map (machineOf · inquiry.receivingDomain))
  exact ⟨congrArg (merge _) states, requests⟩

end SenderPolicy
