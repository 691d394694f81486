import SenderPolicy.Proofs.Executor.Ledger

/-!
# The ledger of tasks

A task runs its check to a lookup, makes it and awaits the answer, or hands the check back. That is
a move: the lookup is made as soon as the check stops at it. No task waits for another one, so every
check under way can go on.

## Main definitions

* `Task.prospect`: what is left of the check of a task
* `Tasks.prospects`: what is left of every check
* `Tasks.Sound`: the checks that are back have ended
* `Tasks.Awaiting`: the tasks that make lookups have checks that await them

## Main results

* `Tasks.moves_act`: whatever happens is a move
* `Tasks.sound_act`: a check comes back when it has ended
* `Tasks.Awaiting.isSome_next`, `Tasks.Awaiting.progress`: every check under way can go on
-/

namespace SenderPolicy.Executor

open Evaluation

variable {ctx : Context} {service : Dns.Service}

/-- What is left of the check of a task. -/
def Task.prospect (ctx : Context) (service : Dns.Service) : Task → Prospect
  | starting session => session.prospect ctx service
  | looking session => session.answered ctx service
  | holding session answer => (session.resume ctx answer).prospect ctx service

namespace Tasks

/-- What is left of every check, under way or back with its caller. -/
def prospects (ctx : Context) (service : Dns.Service) (tasks : Tasks) : List Prospect :=
  tasks.running.map (Task.prospect ctx service) ++
    tasks.returned.map (Session.prospect ctx service)

/-- The checks that are back have ended. -/
def Sound (ctx : Context) (service : Dns.Service) (tasks : Tasks) : Prop :=
  ∀ session ∈ tasks.returned, session.IsEnded ctx service

/-- What can happen to tasks, with the guards of each action. -/
inductive Happens (ctx : Context) (service : Dns.Service) (tasks : Tasks) : Tasks → Prop
  | start {index : Nat} {session : Session} (h : tasks.running[index]? = some (.starting session)) :
      Happens ctx service tasks (tasks.place index (session.start ctx))
  | complete {index : Nat} {session : Session} {request : Dns.Request}
      (h : tasks.running[index]? = some (.looking session))
      (hr : session.request? = some request) :
      Happens ctx service tasks { tasks with
        running := tasks.running.set index (.holding session (service request)) }
  | resume {index : Nat} {session : Session} {answer : Dns.Answer}
      (h : tasks.running[index]? = some (.holding session answer)) :
      Happens ctx service tasks (tasks.place index (session.resume ctx answer))

theorem act_happens {tasks tasks' : Tasks} {action : Action}
    (h : tasks.act ctx service action = some tasks') : tasks.Happens ctx service tasks' := by
  cases action with
  | start index =>
    simp only [act] at h
    split at h
    · rename_i ht
      cases h
      exact .start ht
    · cases h
  | complete index =>
    simp only [act] at h
    split at h
    · rename_i ht
      obtain ⟨request, hr, h⟩ := Option.bind_eq_some_iff.mp h
      cases h
      exact .complete ht hr
    · cases h
  | resume index =>
    simp only [act] at h
    split at h
    · rename_i ht
      cases h
      exact .resume ht
    · cases h

/-- A check that is placed comes from its own task: it makes its next lookup there, or is back. -/
theorem moves_place {tasks : Tasks} {index : Nat} {task : Task} {session : Session}
    (ht : tasks.running[index]? = some task)
    (hp : task.prospect ctx service = session.prospect ctx service) :
    Moves (tasks.prospects ctx service) tasks.made
      ((tasks.place index session).prospects ctx service) (tasks.place index session).made := by
  have before := (perm_eraseIdx ht).map (Task.prospect ctx service)
  rw [List.map_cons, hp] at before
  unfold place
  cases hr : session.request? with
  | some request =>
    -- the lookup is made at once, so it is no longer ahead in the new task
    rw [prospect_of_request hr] at before
    have after := (perm_set (.looking session) ht).map (Task.prospect ctx service)
    have looked : Moves _ tasks.made _ _ :=
      .looked (before.append_right (tasks.returned.map (Session.prospect ctx service)))
        (after.append_right _)
    rwa [caller_answered] at looked
  | none =>
    -- the task is gone, and its check is the last one that came back
    refine .moved ((before.append_right _).trans ?_)
    rw [prospects, List.map_append, ← List.append_assoc]
    exact (List.perm_append_singleton _ _).symm

/-- Whatever happens is a move. -/
theorem moves_act {tasks tasks' : Tasks} {action : Action}
    (h : tasks.act ctx service action = some tasks') :
    Moves (tasks.prospects ctx service) tasks.made (tasks'.prospects ctx service) tasks'.made := by
  cases act_happens h with
  | start ht => exact moves_place ht (prospect_start _).symm
  | @complete index session request ht hr =>
    -- the answer was counted on when the lookup was made
    refine .moved (.append_right _ ?_)
    have before := (perm_eraseIdx ht).map (Task.prospect ctx service)
    have after := (perm_set (.holding session (service request)) ht).map
      (Task.prospect ctx service)
    rw [List.map_cons, Task.prospect, answered_of_request hr] at before
    exact before.trans after.symm
  | resume ht => exact moves_place ht rfl

theorem Sound.place {tasks : Tasks} {index : Nat} {session : Session}
    (h : tasks.Sound ctx service)
    (ended : session.request? = none → session.IsEnded ctx service) :
    (tasks.place index session).Sound ctx service := by
  unfold Tasks.place
  cases hr : session.request? with
  | some request => exact h
  | none =>
    intro session' hs
    rcases List.mem_append.mp hs with hs | hs
    · exact h session' hs
    · cases List.mem_singleton.mp hs
      exact ended hr

/-- A check comes back when it has ended. -/
theorem sound_act {tasks tasks' : Tasks} {action : Action} (hs : tasks.Sound ctx service)
    (h : tasks.act ctx service action = some tasks') : tasks'.Sound ctx service := by
  cases act_happens h with
  | start => exact hs.place isEnded_start
  | complete => exact hs
  | resume => exact hs.place isEnded_resume

/-! ## Tasks never wait for each other -/

/-- A task that makes a lookup has a check that awaits one. -/
def Awaiting (tasks : Tasks) : Prop :=
  ∀ session, .looking session ∈ tasks.running → session.request?.isSome

theorem awaiting_submit (sessions : List Session) : (submit sessions).Awaiting := by
  intro session hs
  obtain ⟨_, _, ⟨⟩⟩ := List.mem_map.mp hs

theorem Awaiting.place {tasks : Tasks} (h : tasks.Awaiting) (index : Nat) (session : Session) :
    (tasks.place index session).Awaiting := by
  intro other ho
  unfold Tasks.place at ho
  cases hr : session.request? with
  | some request =>
    rw [hr] at ho
    rcases List.mem_or_eq_of_mem_set ho with ho | ho
    · exact h other ho
    · cases ho
      rw [hr]
      rfl
  | none =>
    rw [hr] at ho
    exact h other (List.mem_of_mem_eraseIdx ho)

/-- Whatever happens, the tasks that make lookups have checks that await them. -/
theorem Awaiting.act {tasks tasks' : Tasks} {action : Action} (h : tasks.Awaiting)
    (ha : tasks.act ctx service action = some tasks') : tasks'.Awaiting := by
  cases act_happens ha with
  | start => exact h.place _ _
  | complete =>
    intro other ho
    rcases List.mem_or_eq_of_mem_set ho with ho | ho
    · exact h other ho
    · cases ho
  | resume => exact h.place _ _

/-- The check of every task can go on, whatever the other tasks do. -/
theorem Awaiting.isSome_next {tasks : Tasks} (h : tasks.Awaiting) {index : Nat} {task : Task}
    (ht : tasks.running[index]? = some task) (ctx : Context) (service : Dns.Service) :
    (tasks.act ctx service (nextOf (task, index))).isSome := by
  cases task with
  | starting session => simp only [nextOf, Tasks.act, ht, Option.isSome_some]
  | looking session =>
    obtain ⟨request, hr⟩ :=
      Option.isSome_iff_exists.mp (h session (List.mem_of_getElem? ht))
    simp [nextOf, Tasks.act, ht, hr]
  | holding session answer => simp only [nextOf, Tasks.act, ht, Option.isSome_some]

/-- While a check is under way, some action can happen. -/
theorem Awaiting.progress {tasks : Tasks} (h : tasks.Awaiting) (hr : tasks.running ≠ [])
    (ctx : Context) (service : Dns.Service) :
    ∃ action ∈ tasks.candidates, (tasks.act ctx service action).isSome := by
  obtain ⟨task, running, hr⟩ := List.exists_cons_of_ne_nil hr
  have ht : tasks.running[0]? = some task := by
    rw [hr]
    rfl
  exact ⟨_, List.mem_map_of_mem (List.mk_mem_zipIdx_iff_getElem?.mpr ht),
    h.isSome_next ht ctx service⟩

end Tasks

end SenderPolicy.Executor
