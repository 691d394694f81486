import SenderPolicy.Executor.Queue

/-!
# A task for every lookup

Every lookup is made by a task of its own, which goes on with its check when the answer is there
and starts the next task. Checks under way have nothing in common, so their tasks end in any
order.

## Main definitions

* `Task`: what the task of a check is doing
* `Tasks`: the checks under way and those that are back with their callers
* `Tasks.Action`, `Tasks.act`: what can happen next
* `Tasks.settle`: a run in which the first action that can happen always does
-/

namespace SenderPolicy.Executor

open Evaluation

/-- What the task of a check is doing. -/
inductive Task where
  /-- The check has not run yet. -/
  | starting (session : Session)
  /-- It waits for the answer to the check's lookup. -/
  | looking (session : Session)
  /-- It has the answer and goes on with the check. -/
  | holding (session : Session) (answer : Dns.Answer)

/-- The checks under way and those that are back with their callers. -/
structure Tasks where
  running : List Task
  returned : List Session
  /-- The lookups made so far with their callers, the last one first. -/
  made : List (Nat × Dns.Request)

namespace Tasks

/-- Checks that were started at once. -/
def submit (sessions : List Session) : Tasks where
  running := sessions.map .starting
  returned := []
  made := []

/-- What can happen next, each to the check of one task. -/
inductive Action where
  /-- The check runs to its first lookup, or to its end. -/
  | start (index : Nat)
  /-- The lookup is answered. -/
  | complete (index : Nat)
  /-- The check goes on to its next lookup, or to its end. -/
  | resume (index : Nat)
deriving DecidableEq, Repr

/-- A check goes on in a new task, or back to its caller. -/
def place (tasks : Tasks) (index : Nat) (session : Session) : Tasks :=
  match session.request? with
  | some request => { tasks with
      running := tasks.running.set index (.looking session)
      made := (session.caller, request) :: tasks.made }
  | none => { tasks with
      running := tasks.running.eraseIdx index, returned := tasks.returned ++ [session] }

/-- What an action makes of the tasks, if it can happen. -/
def act (ctx : Context) (service : Dns.Service) (tasks : Tasks) : Action → Option Tasks
  | .start index =>
    match tasks.running[index]? with
    | some (.starting session) => some (tasks.place index (session.start ctx))
    | _ => none
  | .complete index =>
    match tasks.running[index]? with
    | some (.looking session) => do
      let request ← session.request?
      return { tasks with running := tasks.running.set index (.holding session (service request)) }
    | _ => none
  | .resume index =>
    match tasks.running[index]? with
    | some (.holding session answer) => some (tasks.place index (session.resume ctx answer))
    | _ => none

/-- What the task at an index does next. -/
def nextOf : Task × Nat → Action
  | (.starting _, index) => .start index
  | (.looking _, index) => .complete index
  | (.holding _ _, index) => .resume index

/-- The next action of each task. -/
def candidates (tasks : Tasks) : List Action :=
  tasks.running.zipIdx.map nextOf

/-- The tasks after the given number of actions, each of them the first that can happen. -/
def settle (ctx : Context) (service : Dns.Service) : Nat → Tasks → Tasks
  | 0, tasks => tasks
  | n + 1, tasks =>
    match tasks.candidates.findSome? (tasks.act ctx service) with
    | some next => settle ctx service n next
    | none => tasks

/-- The number of actions that bring submitted checks back to their callers: two for each lookup,
and one for each check. -/
def actionsAhead (ctx : Context) (service : Dns.Service) : List Session → Nat
  | [] => 0
  | session :: sessions =>
    2 * session.lookupsAhead ctx service + 1 + actionsAhead ctx service sessions

/-- The tasks when all checks are back with their callers. -/
def execute (ctx : Context) (service : Dns.Service) (sessions : List Session) : Tasks :=
  settle ctx service (actionsAhead ctx service sessions) (submit sessions)

end Tasks

end SenderPolicy.Executor
