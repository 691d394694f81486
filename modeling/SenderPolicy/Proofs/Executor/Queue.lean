import SenderPolicy.Proofs.Executor.Ledger

/-!
# The ledger of the queue

What happens in a queue moves one check: to its permit, to the end of the queue, to a worker, or to
its caller. A lookup is made when a worker takes a check from the queue.

## Main definitions

* `Worker.prospect`: what is left of the check of a worker
* `Queue.prospects`: what is left of every check
* `Queue.Sound`: the checks that are back, or about to be, have ended
* `Queue.Happens`: what can happen to a queue

## Main results

* `Queue.moves_act`: whatever happens is a move
* `Queue.sound_act`: a check comes back when it has ended
-/

namespace SenderPolicy.Executor

open Evaluation

variable {ctx : Context} {service : Dns.Service}

theorem filterMap_cons_toList {α β : Type} (f : α → Option β) (a : α) (l : List α) :
    (a :: l).filterMap f = (f a).toList ++ l.filterMap f := by
  cases h : f a <;> simp [h]

/-- What is left of the check of a worker, whose lookup is made. -/
def Worker.prospect (ctx : Context) (service : Dns.Service) : Worker → Option Prospect
  | idle => none
  | looking session => some (session.answered ctx service)
  | holding session answer => some ((session.resume ctx answer).prospect ctx service)

namespace Queue

/-- What is left of every check, wherever it is. -/
def prospects (ctx : Context) (service : Dns.Service) (queue : Queue) : List Prospect :=
  (queue.waiting ++ queue.admitted ++ queue.jobs ++ queue.finished ++ queue.returned).map
      (Session.prospect ctx service) ++
    queue.workers.filterMap (Worker.prospect ctx service)

/-- The checks that are back, or about to be, have ended. -/
def Sound (ctx : Context) (service : Dns.Service) (queue : Queue) : Prop :=
  ∀ session ∈ queue.finished ++ queue.returned, session.IsEnded ctx service

/-- A check that is placed is one more. -/
theorem perm_place (queue : Queue) (session : Session) :
    ((queue.place session).prospects ctx service).Perm
      (session.prospect ctx service :: queue.prospects ctx service) := by
  unfold place
  -- it goes to the end of the queue, or among the finished
  cases session.request? with
  | some request =>
    rw [List.perm_iff_count]
    intro p
    simp only [prospects, List.map_append, List.map_cons, List.map_nil, List.count_append,
      List.count_cons, List.count_nil]
    omega
  | none =>
    rw [List.perm_iff_count]
    intro p
    simp only [prospects, List.map_append, List.map_cons, List.map_nil, List.count_append,
      List.count_cons, List.count_nil]
    omega

theorem made_place (queue : Queue) (session : Session) :
    (queue.place session).made = queue.made := by
  unfold place
  split <;> rfl

theorem Sound.place {queue : Queue} {session : Session} (h : queue.Sound ctx service)
    (ended : session.request? = none → session.IsEnded ctx service) :
    (queue.place session).Sound ctx service := by
  unfold Queue.place
  cases hr : session.request? with
  | some request => exact h
  | none =>
    intro session' hs
    simp only [List.append_assoc, List.mem_append, List.mem_singleton] at hs
    rcases hs with hs | rfl | hs
    · exact h session' (List.mem_append_left _ hs)
    · exact ended hr
    · exact h session' (List.mem_append_right _ hs)

/-- A worker that does something else. -/
theorem perm_workers (ctx : Context) (service : Dns.Service) (queue : Queue) {index : Nat}
    {worker : Worker} (next : Worker) (h : queue.workers[index]? = some worker) :
    ∃ rest, (queue.prospects ctx service).Perm
        ((worker.prospect ctx service).toList ++ rest) ∧
      ({ queue with workers := queue.workers.set index next }.prospects ctx service).Perm
        ((next.prospect ctx service).toList ++ rest) := by
  refine ⟨(queue.waiting ++ queue.admitted ++ queue.jobs ++ queue.finished ++ queue.returned).map
      (Session.prospect ctx service) ++
    (queue.workers.eraseIdx index).filterMap (Worker.prospect ctx service), ?_, ?_⟩
  · have hp := (perm_eraseIdx h).filterMap (Worker.prospect ctx service)
    rw [filterMap_cons_toList] at hp
    exact (List.Perm.append_left _ hp).trans (List.perm_append_comm_assoc ..)
  · have hp := (perm_set next h).filterMap (Worker.prospect ctx service)
    rw [filterMap_cons_toList] at hp
    exact (List.Perm.append_left _ hp).trans (List.perm_append_comm_assoc ..)

/-- What can happen to a queue, with the guards of each action. -/
inductive Happens (ctx : Context) (service : Dns.Service) (queue : Queue) : Queue → Prop
  | grant {session : Session} {waiting : List Session} (hw : queue.waiting = session :: waiting)
      (hf : 0 < queue.free) :
      Happens ctx service queue { queue with
        free := queue.free - 1, waiting := waiting, admitted := queue.admitted ++ [session] }
  | start {index : Nat} {session : Session} (hs : queue.admitted[index]? = some session) :
      Happens ctx service queue
        ({ queue with admitted := queue.admitted.eraseIdx index }.place (session.start ctx))
  | receive {index : Nat} {session : Session} {jobs : List Session}
      (hw : queue.workers[index]? = some .idle) (hj : queue.jobs = session :: jobs) :
      Happens ctx service queue { queue with
        jobs := jobs
        workers := queue.workers.set index (.looking session)
        made := (session.request?.map (session.caller, ·)).toList ++ queue.made }
  | complete {index : Nat} {session : Session} {request : Dns.Request}
      (hw : queue.workers[index]? = some (.looking session))
      (hr : session.request? = some request) :
      Happens ctx service queue { queue with
        workers := queue.workers.set index (.holding session (service request)) }
  | resume {index : Nat} {session : Session} {answer : Dns.Answer}
      (hw : queue.workers[index]? = some (.holding session answer)) :
      Happens ctx service queue
        ({ queue with workers := queue.workers.set index .idle }.place (session.resume ctx answer))
  | collect {index : Nat} {session : Session} (hs : queue.finished[index]? = some session) :
      Happens ctx service queue { queue with
        free := queue.free + 1
        finished := queue.finished.eraseIdx index
        returned := queue.returned ++ [session] }

theorem act_happens {queue queue' : Queue} {action : Action}
    (h : queue.act ctx service action = some queue') : queue.Happens ctx service queue' := by
  cases action with
  | grant =>
    simp only [act] at h
    split at h
    · rename_i hw
      split at h
      · rename_i hf
        cases h
        exact .grant hw hf
      · cases h
    · cases h
  | start index =>
    obtain ⟨session, hs, h⟩ := Option.bind_eq_some_iff.mp h
    cases h
    exact .start hs
  | receive index =>
    simp only [act] at h
    split at h
    · rename_i hw hj
      cases h
      exact .receive hw hj
    · cases h
  | complete index =>
    simp only [act] at h
    split at h
    · rename_i hw
      obtain ⟨request, hr, h⟩ := Option.bind_eq_some_iff.mp h
      cases h
      exact .complete hw hr
    · cases h
  | resume index =>
    simp only [act] at h
    split at h
    · rename_i hw
      cases h
      exact .resume hw
    · cases h
  | collect index =>
    obtain ⟨session, hs, h⟩ := Option.bind_eq_some_iff.mp h
    cases h
    exact .collect hs

/-- Whatever happens is a move. -/
theorem moves_act {queue queue' : Queue} {action : Action}
    (h : queue.act ctx service action = some queue') :
    Moves (queue.prospects ctx service) queue.made (queue'.prospects ctx service) queue'.made := by
  cases act_happens h with
  | @grant session waiting hw hf =>
    -- places are compared by how often a check is in them
    refine .moved ?_
    rw [List.perm_iff_count]
    intro p
    simp only [prospects, hw, List.map_append, List.map_cons, List.map_nil, List.count_append,
      List.count_cons, List.count_nil]
    omega
  | @start index session hs =>
    -- the check leaves its place before it is placed again
    rw [made_place]
    refine .moved (.trans ?_ (perm_place _ _).symm)
    rw [prospect_start]
    have hp := (perm_eraseIdx hs).map (Session.prospect ctx service)
    rw [List.perm_iff_count] at hp ⊢
    intro p
    have := hp p
    simp only [prospects, List.map_append, List.map_cons, List.count_append,
      List.count_cons] at this ⊢
    omega
  | @receive index session jobs hw hj =>
    obtain ⟨rest, before, after⟩ :=
      perm_workers ctx service { queue with jobs := jobs }
        (.looking session) hw
    -- an idle worker has no check, so the one that it takes comes from the jobs alone
    have taken : (queue.prospects ctx service).Perm (session.prospect ctx service :: rest) := by
      refine .trans ?_ (List.Perm.cons _ before)
      rw [List.perm_iff_count]
      intro p
      simp only [prospects, hj, List.map_append, List.map_cons, List.count_append,
        List.count_cons]
      omega
    cases hr : session.request? with
    | some request =>
      rw [prospect_of_request hr] at taken
      have looked : Moves _ queue.made _ _ := .looked taken after
      rwa [caller_answered] at looked
    | none =>
      -- a check without a lookup is no job, and would make none as one
      rw [← answered_of_ended hr] at taken
      exact .moved (taken.trans after.symm)
  | @complete index session request hw hr =>
    -- the answer was counted on when the lookup was made
    obtain ⟨rest, before, after⟩ :=
      perm_workers ctx service queue
        (.holding session (service request)) hw
    rw [Worker.prospect, answered_of_request hr] at before
    exact .moved (before.trans after.symm)
  | @resume index session answer hw =>
    rw [made_place]
    obtain ⟨rest, before, after⟩ :=
      perm_workers ctx service queue .idle hw
    exact .moved (before.trans ((after.symm.cons _).trans (perm_place _ _).symm))
  | @collect index session hs =>
    refine .moved ?_
    have hp := (perm_eraseIdx hs).map (Session.prospect ctx service)
    rw [List.perm_iff_count] at hp ⊢
    intro p
    have := hp p
    simp only [prospects, List.map_append, List.map_cons, List.map_nil, List.count_append,
      List.count_cons, List.count_nil] at this ⊢
    omega

/-- A check comes back when it has ended. -/
theorem sound_act {queue queue' : Queue} {action : Action} (hs : queue.Sound ctx service)
    (h : queue.act ctx service action = some queue') : queue'.Sound ctx service := by
  cases act_happens h with
  | grant => exact hs
  | start => exact Sound.place hs isEnded_start
  | receive => exact hs
  | complete => exact hs
  | resume => exact Sound.place hs isEnded_resume
  | @collect index session hf =>
    intro session' hm
    refine hs session' ?_
    rw [List.mem_append] at hm ⊢
    rcases hm with hm | hm
    · exact .inl (List.mem_of_mem_eraseIdx hm)
    · rcases List.mem_append.mp hm with hm | hm
      · exact .inr hm
      · cases List.mem_singleton.mp hm
        exact .inl (List.mem_of_getElem? hf)

end Queue

end SenderPolicy.Executor
