import SenderPolicy.Executor.Tasks

/-!
# Executors

An executor brings checks from their start to their end, making the lookups that they need. The
executors differ in where lookups are awaited and in how lookups of different checks follow each
other; what a check comes to is the same with all of them.

## Main definitions

* `Executor`: the executors
* `Executor.isOpenable`: there is room for what an executor keeps
* `Executor.execute`: the lookups made for checks that start at once, and their last states
* `Executor.Kind`: the executors that a configuration can name
-/

namespace SenderPolicy

open Evaluation

/-- How checks are brought to their end. -/
inductive Executor where
  /-- The caller makes each lookup itself. -/
  | blocking
  /-- Each lookup is made by a task of its own. -/
  | callback
  /-- Workers take lookups from a queue; checks are admitted by permits. -/
  | queued (workers permits : Nat)
  /-- Every check is lost. -/
  | losing
deriving DecidableEq, Repr

namespace Executor

/-- Permits are counted in 61 bits. -/
def maxPermits : Nat := Nat.pow 2 61 - 1

/-- A worker's handle takes eight octets, and all handles together take less than 2 ^ 63. -/
def maxWorkers : Nat := Nat.pow 2 60 - 1

/-- There is room for the workers and the permits. -/
def isOpenable : Executor → Bool
  | queued workers permits => workers ≤ maxWorkers && permits ≤ maxPermits
  | blocking | callback | losing => true

/-- The last states of the checks that came back, by their callers. -/
def statesOf (count : Nat) (returned : List Session) : List (Option State) :=
  (List.range count).map fun caller =>
    (returned.find? fun session => session.caller = caller).map fun session =>
      session.machine.state

/-- The checks of callers in order. -/
def sessionsOf (machines : List Machine) : List Session :=
  machines.zipIdx.map fun (machine, caller) => ⟨caller, machine⟩

/-- The lookups made for checks that start at once, and their last states; a check without a last
state was lost. -/
def execute (executor : Executor) (ctx : Context) (service : Dns.Service)
    (machines : List Machine) : List Dns.Request × List (Option State) :=
  match executor with
  | blocking =>
    let runs := machines.map (Machine.finish ctx service)
    (runs.flatMap Prod.fst, runs.map fun run => some run.2)
  | callback =>
    let tasks := Tasks.execute ctx service (sessionsOf machines)
    (tasks.made.reverse.map Prod.snd, statesOf machines.length tasks.returned)
  | queued workers permits =>
    let queue := Queue.execute ctx service workers permits (sessionsOf machines)
    (queue.made.reverse.map Prod.snd, statesOf machines.length queue.returned)
  | losing => ([], machines.map fun _ => none)

/-- The permits that are free while no check is under way. -/
def freePermits : Executor → Option Nat
  | queued workers permits => some (Queue.opened workers permits).free
  | _ => none

/-- The executors that a configuration can name. -/
inductive Kind where
  | blocking
  | callback
  | queued
deriving DecidableEq, Repr

namespace Kind

/-- The word that names an executor. -/
def word : Kind → String
  | blocking => "blocking"
  | callback => "callback"
  | queued => "queued"

/-- The executor of a word in lower case. -/
def ofWord? : String → Option Kind
  | "blocking" => some blocking
  | "callback" => some callback
  | "queued" => some queued
  | _ => none

/-- The executor of a word in any case; another word is refused with a message. -/
def read (text : String) : Except String Kind :=
  match ofWord? (Text.lower text) with
  | some kind => .ok kind
  | none => .error ("unknown executor kind: " ++ Text.lower text)

end Kind

end Executor

end SenderPolicy
