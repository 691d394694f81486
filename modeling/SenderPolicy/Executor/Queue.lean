import SenderPolicy.Evaluation.Run

/-!
# A queue of lookups and its workers

Checks that are put aside at a lookup wait in one queue, from which a fixed number of workers take
them in order. A check is admitted only with one of a fixed number of permits, which it gives back
when its caller has it again; a check that needs another lookup goes to the end of the queue, so
no worker ever waits for room.

## Main definitions

* `Session`: a check under way, with the caller it belongs to
* `Worker`: what a worker is doing
* `Queue`: the permits, and every place a check can be in
* `Queue.opened`, `Queue.submit`: a queue without checks, and with further ones
* `Queue.Action`, `Queue.act`: what can happen next
* `Queue.settle`: a run in which the first action that can happen always does
-/

namespace SenderPolicy.Executor

open Evaluation

/-- A check under way, with the caller it belongs to. -/
structure Session where
  caller : Nat
  machine : Machine

namespace Session

/-- The lookup that a check waits for. -/
def request? (session : Session) : Option Dns.Request :=
  match session.machine.signal with
  | .await request _ => some request
  | _ => none

/-- The check at its first lookup, or at its end. -/
def start (ctx : Context) (session : Session) : Session :=
  { session with machine := session.machine.run ctx }

/-- The check at the next lookup behind an answer, or at its end. -/
def resume (ctx : Context) (answer : Dns.Answer) (session : Session) : Session :=
  { session with machine := (session.machine.resume ctx answer).run ctx }

/-- The number of lookups that a check still makes. -/
def lookupsAhead (ctx : Context) (service : Dns.Service) (session : Session) : Nat :=
  (session.machine.finish ctx service).1.length

end Session

/-- What a worker is doing. -/
inductive Worker where
  /-- It waits for a check in the queue. -/
  | idle
  /-- It waits for the answer to a check's lookup. -/
  | looking (session : Session)
  /-- It has the answer and goes on with the check. -/
  | holding (session : Session) (answer : Dns.Answer)

/-- The worker waits for a check. -/
def Worker.isIdle : Worker → Bool
  | idle => true
  | looking _ | holding _ _ => false

/-- The permits that are free, and every place a check can be in. -/
structure Queue where
  /-- The permits that no check holds. -/
  free : Nat
  /-- Checks without a permit, in the order they came in. -/
  waiting : List Session
  /-- Checks with a permit that have not run yet. -/
  admitted : List Session
  /-- Checks put aside at a lookup that no worker has taken up, in order. -/
  jobs : List Session
  /-- The workers, some of them with a check. -/
  workers : List Worker
  /-- Finished checks whose caller has not taken them yet. -/
  finished : List Session
  /-- Checks that are back with their caller. -/
  returned : List Session
  /-- The lookups made so far with their callers, the last one first. -/
  made : List (Nat × Dns.Request)

namespace Queue

/-- A queue without checks. There is always a worker and a permit. -/
def opened (workers permits : Nat) : Queue where
  free := max 1 permits
  waiting := []
  admitted := []
  jobs := []
  workers := List.replicate (max 1 workers) .idle
  finished := []
  returned := []
  made := []

/-- The queue with further checks behind those that wait for a permit. -/
def submit (queue : Queue) (sessions : List Session) : Queue :=
  { queue with waiting := queue.waiting ++ sessions }

/-- What can happen next. -/
inductive Action where
  /-- The first waiting check is given a permit. -/
  | grant
  /-- An admitted check runs to its first lookup, or to its end. -/
  | start (index : Nat)
  /-- A worker takes the first check of the queue and makes its lookup. -/
  | receive (worker : Nat)
  /-- A worker's lookup is answered. -/
  | complete (worker : Nat)
  /-- A worker goes on with its check and lets go of it. -/
  | resume (worker : Nat)
  /-- A caller takes its finished check and gives the permit back. -/
  | collect (index : Nat)
deriving DecidableEq, Repr

/-- A check goes where it belongs when it stops: to the end of the queue, or to its caller. -/
def place (queue : Queue) (session : Session) : Queue :=
  match session.request? with
  | some _ => { queue with jobs := queue.jobs ++ [session] }
  | none => { queue with finished := queue.finished ++ [session] }

/-- What an action makes of the queue, if it can happen. -/
def act (ctx : Context) (service : Dns.Service) (queue : Queue) : Action → Option Queue
  | .grant =>
    match queue.waiting with
    | session :: waiting =>
      -- without a free permit the check goes on waiting
      if 0 < queue.free then
        some { queue with
          free := queue.free - 1, waiting := waiting, admitted := queue.admitted ++ [session] }
      else none
    | [] => none
  | .start index => do
    let session ← queue.admitted[index]?
    return { queue with admitted := queue.admitted.eraseIdx index }.place (session.start ctx)
  | .receive worker =>
    match queue.workers[worker]?, queue.jobs with
    | some .idle, session :: jobs => some { queue with
        jobs := jobs
        workers := queue.workers.set worker (.looking session)
        made := (session.request?.map (session.caller, ·)).toList ++ queue.made }
    | _, _ => none
  | .complete worker =>
    match queue.workers[worker]? with
    | some (.looking session) => do
      let request ← session.request?
      return { queue with
        workers := queue.workers.set worker (.holding session (service request)) }
    | _ => none
  | .resume worker =>
    match queue.workers[worker]? with
    | some (.holding session answer) =>
      some ({ queue with workers := queue.workers.set worker .idle }.place
        (session.resume ctx answer))
    | _ => none
  | .collect index => do
    let session ← queue.finished[index]?
    return { queue with
      free := queue.free + 1
      finished := queue.finished.eraseIdx index
      returned := queue.returned ++ [session] }

/-- What the worker at an index does next, if it has a check. -/
def nextOf : Worker × Nat → Option Action
  | (.idle, _) => none
  | (.looking _, index) => some (.complete index)
  | (.holding _ _, index) => some (.resume index)

/-- Actions of every kind that can happen; of idle workers, the first takes up a check. -/
def candidates (queue : Queue) : List Action :=
  -- what brings a check closest to its caller comes first
  (List.range queue.finished.length).map .collect ++
  queue.workers.zipIdx.filterMap nextOf ++
  ((queue.workers.findIdx? Worker.isIdle).map .receive).toList ++
  (List.range queue.admitted.length).map .start ++ [.grant]

/-- The queue after the given number of actions, each of them the first that can happen. -/
def settle (ctx : Context) (service : Dns.Service) : Nat → Queue → Queue
  | 0, queue => queue
  | n + 1, queue =>
    match queue.candidates.findSome? (queue.act ctx service) with
    | some next => settle ctx service n next
    | none => queue

/-- The number of actions that bring submitted checks back to their callers: three for each lookup,
and three for each check. -/
def actionsAhead (ctx : Context) (service : Dns.Service) : List Session → Nat
  | [] => 0
  | session :: sessions =>
    3 * session.lookupsAhead ctx service + 3 + actionsAhead ctx service sessions

/-- The queue when all submitted checks are back with their callers. -/
def execute (ctx : Context) (service : Dns.Service) (workers permits : Nat)
    (sessions : List Session) : Queue :=
  -- workers beyond the number of checks would never be anything but idle
  settle ctx service (actionsAhead ctx service sessions)
    ((opened (min workers sessions.length) permits).submit sessions)

end Queue

end SenderPolicy.Executor
