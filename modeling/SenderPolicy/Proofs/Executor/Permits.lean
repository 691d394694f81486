import SenderPolicy.Proofs.Executor.Independence

/-!
# Permits and places

A check that has a permit is in one place: it is about to start, among the jobs, with a worker,
finished, or back with its caller. It keeps its permit until it is back, so permits that are free
and checks that hold one always add up to the permits there were at the start. Nothing a worker
does needs a permit or room among the jobs, so some check that is under way can always go on.

## Main definitions

* `Queue.held`, `Queue.underway`: checks with a worker, and all that have a permit and no result
* `Queue.inside`: the callers of all checks that hold a permit
* `Queue.Serves`: the states a queue gets into while checks are submitted to it
* `Queue.Custody`: permits add up, and every check is in one place

## Main results

* `Queue.act_inside`: an action moves one permit or none
* `Queue.Serves.custody`: permits add up and every check is in one place, in every state
* `Queue.safe_of_serves`: so the permits bound the checks under way, of which one can always go on
-/

namespace SenderPolicy.Executor

open Evaluation

/-- The check that a worker has. -/
def Worker.session? : Worker → Option Session
  | idle => none
  | looking session | holding session _ => some session

/-- The action is a step of a check that has a permit, and not that of a caller. -/
def Queue.Action.isStep : Queue.Action → Bool
  | start _ | receive _ | complete _ | resume _ => true
  | grant | collect _ => false

namespace Queue

variable {ctx : Context} {service : Dns.Service} {queue queue' : Queue}

/-- The checks that workers have. -/
def held (queue : Queue) : List Session :=
  queue.workers.filterMap Worker.session?

/-- Checks that have a permit and no result. -/
def underway (queue : Queue) : List Session :=
  queue.admitted ++ queue.jobs ++ queue.held

/-- The callers of all checks that hold a permit. -/
def inside (queue : Queue) : List Nat :=
  (queue.underway ++ queue.finished).map Session.caller

theorem length_inside (queue : Queue) :
    queue.inside.length = (queue.underway ++ queue.finished).length :=
  List.length_map _

/-! ## One action -/

theorem place_eq (queue : Queue) (session : Session) :
    (queue.place session).waiting = queue.waiting ∧ (queue.place session).free = queue.free ∧
      (queue.place session).returned = queue.returned ∧
      (queue.place session).workers = queue.workers := by
  unfold place
  split <;> exact ⟨rfl, rfl, rfl, rfl⟩

/-- Wherever a check is placed, it holds a permit there. -/
theorem perm_inside_place (queue : Queue) (session : Session) :
    (queue.place session).inside.Perm (session.caller :: queue.inside) := by
  rw [List.perm_iff_count]
  intro caller
  unfold place
  split <;>
    simp only [inside, underway, held, List.map_append, List.map_cons, List.map_nil,
      List.count_append, List.count_cons, List.count_nil] <;>
    omega

/-- A worker that does something else has another check, or the same. -/
theorem perm_held_set {index : Nat} {worker : Worker} (next : Worker)
    (h : queue.workers[index]? = some worker) :
    ∃ rest, queue.held.Perm (worker.session?.toList ++ rest) ∧
      ({ queue with workers := queue.workers.set index next }.held).Perm
        (next.session?.toList ++ rest) := by
  refine ⟨(queue.workers.eraseIdx index).filterMap Worker.session?, ?_, ?_⟩
  · rw [← filterMap_cons_toList]
    exact (perm_eraseIdx h).filterMap _
  · rw [← filterMap_cons_toList]
    exact (perm_set next h).filterMap _

/-- An action gives a permit to the first check that waits, takes one back from a check that
returns, or leaves all permits where they are. -/
theorem act_inside {action : Action} (h : queue.act ctx service action = some queue') :
    (∃ session, queue.waiting = session :: queue'.waiting ∧ queue.free = queue'.free + 1 ∧
      queue'.inside.Perm (session.caller :: queue.inside) ∧
      queue'.returned = queue.returned) ∨
    (queue'.waiting = queue.waiting ∧ queue'.free = queue.free ∧
      queue'.inside.Perm queue.inside ∧ queue'.returned = queue.returned) ∨
    (∃ session, queue'.waiting = queue.waiting ∧ queue'.free = queue.free + 1 ∧
      queue.inside.Perm (session.caller :: queue'.inside) ∧
      queue'.returned = queue.returned ++ [session]) := by
  cases act_happens h with
  | @grant session waiting hw hf =>
    refine .inl ⟨session, hw, (Nat.succ_pred_eq_of_pos hf).symm, ?_, rfl⟩
    rw [List.perm_iff_count]
    intro caller
    simp only [inside, underway, held, List.map_append, List.map_cons, List.map_nil,
      List.count_append, List.count_cons, List.count_nil]
    omega
  | @start index session hs =>
    obtain ⟨hw, hf, hr, -⟩ :=
      place_eq { queue with admitted := queue.admitted.eraseIdx index } (session.start ctx)
    refine .inr (.inl ⟨hw, hf, ?_, hr⟩)
    have left := (perm_eraseIdx hs).map Session.caller
    have placed := perm_inside_place
      { queue with admitted := queue.admitted.eraseIdx index } (session.start ctx)
    rw [List.perm_iff_count] at left placed ⊢
    intro caller
    have left := left caller
    have placed := placed caller
    simp only [inside, underway, held, Session.start, List.map_append, List.map_cons,
      List.count_append, List.count_cons] at left placed ⊢
    omega
  | @receive index session jobs hw hj =>
    refine .inr (.inl ⟨rfl, rfl, ?_, rfl⟩)
    obtain ⟨rest, before, after⟩ := perm_held_set (.looking session) hw
    have before := before.map Session.caller
    have after := after.map Session.caller
    rw [List.perm_iff_count] at before after ⊢
    intro caller
    have before := before caller
    have after := after caller
    simp only [inside, underway, held, hj, Worker.session?, Option.toList_none,
      Option.toList_some, List.nil_append, List.map_append, List.map_cons, List.map_nil,
      List.count_append, List.count_cons, List.count_nil] at before after ⊢
    omega
  | @complete index session request hw hr =>
    refine .inr (.inl ⟨rfl, rfl, ?_, rfl⟩)
    obtain ⟨rest, before, after⟩ := perm_held_set (.holding session (service request)) hw
    have same := (after.trans before.symm).map Session.caller
    rw [List.perm_iff_count] at same ⊢
    intro caller
    have same := same caller
    simp only [inside, underway, held, List.map_append, List.count_append] at same ⊢
    omega
  | @resume index session answer hw =>
    obtain ⟨hw', hf, hr, -⟩ := place_eq
      { queue with workers := queue.workers.set index .idle } (session.resume ctx answer)
    refine .inr (.inl ⟨hw', hf, ?_, hr⟩)
    obtain ⟨rest, before, after⟩ := perm_held_set .idle hw
    have before := before.map Session.caller
    have after := after.map Session.caller
    have placed := perm_inside_place
      { queue with workers := queue.workers.set index .idle } (session.resume ctx answer)
    rw [List.perm_iff_count] at before after placed ⊢
    intro caller
    have before := before caller
    have after := after caller
    have placed := placed caller
    simp only [inside, underway, held, Session.resume, Worker.session?, Option.toList_none,
      Option.toList_some, List.nil_append, List.map_append, List.map_cons, List.map_nil,
      List.count_append, List.count_cons, List.count_nil] at before after placed ⊢
    omega
  | @collect index session hs =>
    refine .inr (.inr ⟨session, rfl, rfl, ?_, rfl⟩)
    have left := (perm_eraseIdx hs).map Session.caller
    rw [List.perm_iff_count] at left ⊢
    intro caller
    have left := left caller
    simp only [inside, underway, held, List.map_append, List.map_cons, List.count_append,
      List.count_cons] at left ⊢
    omega

/-! ## Checks where they belong -/

/-- A check is among the jobs, or with a worker, when it awaits a lookup, and finished or back when
it does not. -/
structure Sorted (queue : Queue) : Prop where
  awaits : ∀ session ∈ queue.jobs ++ queue.held, session.request?.isSome
  ended : ∀ session ∈ queue.finished ++ queue.returned, session.request? = none

theorem Sorted.place (h : queue.Sorted) (session : Session) : (queue.place session).Sorted := by
  unfold Queue.place
  cases hr : session.request? with
  | some request =>
    refine ⟨?_, h.ended⟩
    intro other ho
    rw [List.append_assoc, List.mem_append, List.mem_append, List.mem_singleton] at ho
    rcases ho with ho | rfl | ho
    · exact h.awaits other (List.mem_append_left _ ho)
    · rw [hr]
      rfl
    · exact h.awaits other (List.mem_append_right _ ho)
  | none =>
    refine ⟨h.awaits, ?_⟩
    intro other ho
    rw [List.append_assoc, List.mem_append, List.mem_append, List.mem_singleton] at ho
    rcases ho with ho | rfl | ho
    · exact h.ended other (List.mem_append_left _ ho)
    · exact hr
    · exact h.ended other (List.mem_append_right _ ho)

theorem mem_held_set {index : Nat} {next : Worker} {session : Session}
    (h : session ∈ ({ queue with workers := queue.workers.set index next }).held) :
    session ∈ queue.held ∨ next.session? = some session := by
  obtain ⟨worker, hw, hs⟩ := List.mem_filterMap.mp h
  rcases List.mem_or_eq_of_mem_set hw with hw | rfl
  · exact .inl (List.mem_filterMap.mpr ⟨worker, hw, hs⟩)
  · exact .inr hs

theorem mem_held {index : Nat} {worker : Worker} {session : Session}
    (h : queue.workers[index]? = some worker) (hs : worker.session? = some session) :
    session ∈ queue.held :=
  List.mem_filterMap.mpr ⟨worker, List.mem_of_getElem? h, hs⟩

/-- Every action leaves checks where they belong. -/
theorem Sorted.act {action : Action} (h : queue.Sorted)
    (ha : queue.act ctx service action = some queue') : queue'.Sorted := by
  cases act_happens ha with
  | grant => exact ⟨h.awaits, h.ended⟩
  | @start index session hs =>
    have left : { queue with admitted := queue.admitted.eraseIdx index }.Sorted :=
      ⟨h.awaits, h.ended⟩
    exact left.place _
  | @receive index session jobs hw hj =>
    refine ⟨?_, h.ended⟩
    intro other ho
    refine h.awaits other ?_
    -- the check that the worker takes was the first job
    rw [List.mem_append, hj] at *
    rcases ho with ho | ho
    · exact .inl (List.mem_cons_of_mem _ ho)
    · rcases mem_held_set ho with ho | ho
      · exact .inr ho
      · cases ho
        exact .inl List.mem_cons_self
  | @complete index session request hw hr =>
    refine ⟨?_, h.ended⟩
    intro other ho
    refine h.awaits other ?_
    rw [List.mem_append] at *
    rcases ho with ho | ho
    · exact .inl ho
    · rcases mem_held_set ho with ho | ho
      · exact .inr ho
      · cases ho
        exact .inr (mem_held hw rfl)
  | @resume index session answer hw =>
    have left : { queue with workers := queue.workers.set index .idle }.Sorted := by
      refine ⟨?_, h.ended⟩
      intro other ho
      refine h.awaits other ?_
      rw [List.mem_append] at *
      rcases ho with ho | ho
      · exact .inl ho
      · rcases mem_held_set ho with ho | ho
        · exact .inr ho
        · cases ho
    exact left.place _
  | @collect index session hs =>
    refine ⟨h.awaits, ?_⟩
    intro other ho
    refine h.ended other ?_
    rw [List.mem_append] at *
    rcases ho with ho | ho
    · exact .inl (List.mem_of_mem_eraseIdx ho)
    · rcases List.mem_append.mp ho with ho | ho
      · exact .inr ho
      · cases List.mem_singleton.mp ho
        exact .inl (List.mem_of_getElem? hs)

theorem length_workers_act {action : Action} (ha : queue.act ctx service action = some queue') :
    queue'.workers.length = queue.workers.length := by
  cases act_happens ha with
  | grant | collect => rfl
  | receive | complete => exact List.length_set
  | start => rw [(place_eq _ _).2.2.2]
  | resume => rw [(place_eq _ _).2.2.2, List.length_set]

/-! ## Every state of a queue -/

/-- The states a queue gets into, with the checks submitted to it in their order. Further checks are
submitted at any time, each of them may have a context of its own, and a lookup may be answered in
any way. -/
inductive Serves (workers permits : Nat) : List Session → Queue → Prop
  | opened : Serves workers permits [] (opened workers permits)
  | submit {sessions : List Session} {queue : Queue} (more : List Session)
      (before : Serves workers permits sessions queue) :
      Serves workers permits (sessions ++ more) (queue.submit more)
  | act {sessions : List Session} {queue queue' : Queue} {ctx : Context} {service : Dns.Service}
      {action : Action} (before : Serves workers permits sessions queue)
      (h : queue.act ctx service action = some queue') : Serves workers permits sessions queue'

/-- Permits add up, and every check that was submitted is in one place. -/
structure Custody (workers permits : Nat) (sessions : List Session) (queue : Queue) : Prop where
  /-- A permit is free, or a check holds it. -/
  permits : queue.free + queue.inside.length = max 1 permits
  /-- The checks that got a permit are the first of those submitted. Every one of them holds its
  permit in one place, or is back. -/
  granted : ∃ granted, sessions = granted ++ queue.waiting ∧
    (granted.map Session.caller).Perm (queue.inside ++ queue.returned.map Session.caller)
  sorted : queue.Sorted
  workers : queue.workers.length = max 1 workers

variable {workers permits : Nat} {sessions : List Session}

theorem held_opened (workers permits : Nat) : (opened workers permits).held = [] :=
  List.filterMap_replicate_of_none rfl

theorem inside_opened (workers permits : Nat) : (opened workers permits).inside = [] := by
  rw [inside, underway, held_opened]
  rfl

theorem custody_opened (workers permits : Nat) :
    Custody workers permits [] (opened workers permits) where
  permits := by
    rw [inside_opened]
    rfl
  granted := by
    refine ⟨[], rfl, ?_⟩
    rw [inside_opened]
    exact .nil
  sorted := by
    refine ⟨?_, fun session hs => absurd hs List.not_mem_nil⟩
    intro session hs
    rw [held_opened] at hs
    exact absurd hs List.not_mem_nil
  workers := List.length_replicate

theorem Custody.submit (h : Custody workers permits sessions queue) (more : List Session) :
    Custody workers permits (sessions ++ more) (queue.submit more) where
  permits := h.permits
  granted := by
    obtain ⟨granted, rfl, hp⟩ := h.granted
    exact ⟨granted, List.append_assoc .., hp⟩
  sorted := ⟨h.sorted.awaits, h.sorted.ended⟩
  workers := h.workers

theorem Custody.act {action : Action} (h : Custody workers permits sessions queue)
    (ha : queue.act ctx service action = some queue') :
    Custody workers permits sessions queue' := by
  obtain ⟨granted, hs, hp⟩ := h.granted
  have sum := h.permits
  have workers := (length_workers_act ha).trans h.workers
  obtain ⟨session, hw, hf, hi, hr⟩ | ⟨hw, hf, hi, hr⟩ | ⟨session, hw, hf, hi, hr⟩ :=
    act_inside ha
  · have length := hi.length_eq
    rw [List.length_cons] at length
    refine ⟨by omega, ⟨granted ++ [session], ?_, ?_⟩, h.sorted.act ha, workers⟩
    · rw [hs, hw, List.append_assoc, List.singleton_append]
    · rw [List.map_append, hr]
      exact List.perm_append_comm.trans ((hp.cons _).trans (hi.symm.append_right _))
  · have length := hi.length_eq
    refine ⟨by omega, ⟨granted, ?_, ?_⟩, h.sorted.act ha, workers⟩
    · rw [hs, hw]
    · rw [hr]
      exact hp.trans (hi.symm.append_right _)
  · have length := hi.length_eq
    rw [List.length_cons] at length
    refine ⟨by omega, ⟨granted, ?_, ?_⟩, h.sorted.act ha, workers⟩
    · rw [hs, hw]
    · rw [hr, List.map_append]
      -- the check that returns is counted last instead of first
      refine hp.trans ((hi.append_right _).trans ?_)
      rw [← List.append_assoc]
      exact (List.perm_append_singleton _ _).symm

/-- Permits add up and every check is in one place, in every state of a queue. -/
theorem Serves.custody (h : Serves workers permits sessions queue) :
    Custody workers permits sessions queue := by
  induction h with
  | opened => exact custody_opened workers permits
  | submit more _ ih => exact ih.submit more
  | act _ ha ih => exact ih.act ha

/-! ## Workers never wait for each other -/

theorem isSome_grant (hw : queue.waiting ≠ []) (hf : 0 < queue.free) :
    (queue.act ctx service .grant).isSome := by
  obtain ⟨session, waiting, hw⟩ := List.exists_cons_of_ne_nil hw
  simp [Queue.act, hw, hf]

theorem isSome_start {index : Nat} (h : index < queue.admitted.length) :
    (queue.act ctx service (.start index)).isSome := by
  simp [Queue.act, List.getElem?_eq_getElem h]

theorem isSome_receive {index : Nat} (hw : queue.workers[index]? = some .idle)
    (hj : queue.jobs ≠ []) : (queue.act ctx service (.receive index)).isSome := by
  obtain ⟨session, jobs, hj⟩ := List.exists_cons_of_ne_nil hj
  simp [Queue.act, hw, hj]

theorem isSome_complete {index : Nat} {session : Session}
    (hw : queue.workers[index]? = some (.looking session)) (hr : session.request?.isSome) :
    (queue.act ctx service (.complete index)).isSome := by
  obtain ⟨request, hr⟩ := Option.isSome_iff_exists.mp hr
  simp [Queue.act, hw, hr]

theorem isSome_resume {index : Nat} {session : Session} {answer : Dns.Answer}
    (hw : queue.workers[index]? = some (.holding session answer)) :
    (queue.act ctx service (.resume index)).isSome := by
  simp [Queue.act, hw]

theorem isSome_collect {index : Nat} (h : index < queue.finished.length) :
    (queue.act ctx service (.collect index)).isSome := by
  simp [Queue.act, List.getElem?_eq_getElem h]

/-- A worker that has a check can go on with it, whatever permits are free and jobs there are. -/
theorem Custody.next (h : Custody workers permits sessions queue) {index : Nat} {worker : Worker}
    {action : Action} (hw : queue.workers[index]? = some worker)
    (hn : nextOf (worker, index) = some action) (free : Nat) (jobs : List Session) :
    ({ queue with free := free, jobs := jobs }.act ctx service action).isSome := by
  cases worker with
  | idle => cases hn
  | looking session =>
    cases hn
    exact isSome_complete hw (h.sorted.awaits session (List.mem_append_right _ (mem_held hw rfl)))
  | holding session answer =>
    cases hn
    exact isSome_resume hw

theorem isStep_nextOf (index : Nat) {worker : Worker} {session : Session}
    (h : worker.session? = some session) :
    ∃ action, nextOf (worker, index) = some action ∧ action.isStep := by
  cases worker with
  | idle => cases h
  | looking _ | holding _ _ => exact ⟨_, rfl, rfl⟩

/-- Some check that is under way can go on. -/
theorem Custody.progress (h : Custody workers permits sessions queue) (hu : queue.underway ≠ [])
    (ctx : Context) (service : Dns.Service) :
    ∃ action ∈ queue.candidates, action.isStep ∧ (queue.act ctx service action).isSome := by
  obtain ⟨session, hs⟩ := List.exists_mem_of_ne_nil _ hu
  rw [underway, List.mem_append, List.mem_append] at hs
  -- a check with a worker goes on there; a job needs a worker that is idle
  by_cases hh : queue.held = []
  · rcases hs with (hs | hs) | hs
    · have first := List.length_pos_of_mem hs
      exact ⟨.start 0, by simp [candidates, first], rfl, isSome_start first⟩
    · obtain ⟨worker, others, hw⟩ := List.exists_cons_of_length_pos (l := queue.workers) (by
        rw [h.workers]
        omega)
      have hw' : queue.workers[0]? = some worker := by
        rw [hw]
        rfl
      cases worker with
      | idle =>
        exact ⟨.receive 0, by simp [candidates, hw, List.findIdx?_cons, Worker.isIdle], rfl,
          isSome_receive hw' (List.ne_nil_of_mem hs)⟩
      | looking session | holding session answer =>
        exact absurd (hh ▸ mem_held hw' rfl) List.not_mem_nil
    · exact absurd (hh ▸ hs) List.not_mem_nil
  · obtain ⟨session, hs⟩ := List.exists_mem_of_ne_nil _ hh
    obtain ⟨worker, hw, hs⟩ := List.mem_filterMap.mp hs
    obtain ⟨index, hi⟩ := List.mem_iff_getElem?.mp hw
    obtain ⟨action, hn, step⟩ := isStep_nextOf index hs
    have listed : action ∈ queue.workers.zipIdx.filterMap nextOf :=
      List.mem_filterMap.mpr ⟨_, List.mk_mem_zipIdx_iff_getElem?.mpr hi, hn⟩
    exact ⟨action, by simp [candidates, listed], step, h.next hi hn queue.free queue.jobs⟩

/-! ## What the permits are for -/

/-- What is safe about a queue to which checks were submitted. -/
structure Safe (workers permits : Nat) (sessions : List Session) (queue : Queue) : Prop where
  /-- Permits that are free, and checks that have got one and are not back, add up. -/
  sum : queue.free + (queue.underway ++ queue.finished).length = max 1 permits
  /-- So they bound the checks among the jobs and with workers. -/
  bound : (queue.jobs ++ queue.held).length ≤ max 1 permits
  /-- Every check that got a permit is in one place, and nothing else is. -/
  places : ∃ granted, sessions = granted ++ queue.waiting ∧
    (granted.map Session.caller).Perm
      ((queue.admitted ++ queue.jobs ++ queue.held ++ queue.finished ++ queue.returned).map
        Session.caller)
  /-- No check is in two places, or comes back twice. -/
  once : (sessions.map Session.caller).Nodup →
    ((queue.waiting ++ queue.admitted ++ queue.jobs ++ queue.held ++ queue.finished ++
      queue.returned).map Session.caller).Nodup
  /-- A check comes back when it awaits no lookup. -/
  ended : ∀ session ∈ queue.finished ++ queue.returned, session.request? = none
  /-- When a check is under way, some check can go on. -/
  progress : queue.underway ≠ [] → ∀ ctx service,
    ∃ action : Action, action.isStep ∧ (queue.act ctx service action).isSome
  /-- A worker that is idle can take a job. -/
  receives : ∀ ctx service index, queue.workers[index]? = some .idle → queue.jobs ≠ [] →
    (queue.act ctx service (.receive index)).isSome
  /-- A worker that has a check waits for no permit, and for no room among the jobs. -/
  unhindered : ∀ ctx service index worker action, queue.workers[index]? = some worker →
    nextOf (worker, index) = some action → ∀ free jobs,
      ({ queue with free := free, jobs := jobs }.act ctx service action).isSome
  /-- Without a check that has got a permit and is not back, all permits are free. -/
  free : queue.underway ++ queue.finished = [] → queue.free = max 1 permits

/-- In every state of a queue, the permits add up and bound the checks under way, every check is in
one place, and when a check is under way some check can go on. -/
theorem safe_of_serves (h : Serves workers permits sessions queue) :
    Safe workers permits sessions queue := by
  have custody := h.custody
  have sum := custody.permits
  rw [length_inside] at sum
  obtain ⟨granted, hs, hp⟩ := custody.granted
  have places : (granted.map Session.caller).Perm
      ((queue.admitted ++ queue.jobs ++ queue.held ++ queue.finished ++ queue.returned).map
        Session.caller) := by
    rwa [inside, underway, ← List.map_append] at hp
  refine ⟨sum, ?_, ⟨granted, hs, places⟩, ?_, custody.sorted.ended, fun hu ctx service => ?_,
    fun _ _ _ => isSome_receive, fun _ _ _ _ _ hw hn => custody.next hw hn, ?_⟩
  · simp only [underway, List.length_append] at sum ⊢
    omega
  · intro nodup
    -- all places together hold what was submitted
    have all := places.append_left (queue.waiting.map Session.caller)
    rw [← List.map_append, ← List.map_append] at all
    have submitted : ((queue.waiting ++ granted).map Session.caller).Perm
        (sessions.map Session.caller) := by
      rw [hs]
      exact List.perm_append_comm.map _
    simp only [List.append_assoc] at all ⊢
    exact (all.symm.trans submitted).nodup_iff.mpr nodup
  · obtain ⟨action, -, possible⟩ := custody.progress hu ctx service
    exact ⟨action, possible⟩
  · intro empty
    rw [empty, List.length_nil, Nat.add_zero] at sum
    exact sum

/-- Two checks share the only permit of a queue: one of them is with the worker, and the other one
waits. -/
theorem safe_of_serves_two :
    ∃ queue : Queue,
      Serves 0 0 (sessionsOf (machinesOf [plainCheck, plainCheck])) queue ∧
      queue.held.length = 1 ∧ queue.waiting.length = 1 ∧ queue.free = 0 ∧
      Safe 0 0 (sessionsOf (machinesOf [plainCheck, plainCheck])) queue := by
  have start : Session.start plainContext ⟨0, machineOf plainCheck.1 plainCheck.2⟩ =
      ⟨0, (machineOf plainCheck.1 plainCheck.2).steps plainContext 3⟩ := by
    rw [Session.start, Machine.run_of_steps 3 rfl]
  have submitted : Serves 0 0 (sessionsOf (machinesOf [plainCheck, plainCheck])) _ :=
    .submit (sessionsOf (machinesOf [plainCheck, plainCheck])) .opened
  have granted := submitted.act
    (show Queue.act plainContext unanswered _ .grant = some _ from rfl)
  have started := granted.act
    (show Queue.act plainContext unanswered _ (.start 0) = some _ from rfl)
  rw [start] at started
  have received := started.act
    (show Queue.act plainContext unanswered _ (.receive 0) = some _ from rfl)
  exact ⟨_, received, rfl, rfl, rfl, safe_of_serves received⟩

end Queue

end SenderPolicy.Executor
