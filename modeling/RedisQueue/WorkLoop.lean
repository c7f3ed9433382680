import RedisQueue.Basic

/-!
# The work loop

`BaseWorker.work` (`rq/worker/base.py`) with the methods it calls in the main process of a `Worker`,
and the handler of SIGINT and SIGTERM, which interrupts it between any two statements.

* `Loop.statement`: the next statement of `work`, `check_for_suspension`,
  `dequeue_job_and_maintain_ttl`, `execute_job` and `monitor_work_horse`;
* `Loop.signal`: `request_stop`, then `request_force_stop`;
* `stops_or_swallows`: the first signal ends the loop, or an `except Exception` swallows it and the
  loop goes on as if it had not come.

Commands that only report the state of the worker to Redis are left out, and the scheduler.
-/

namespace RedisQueue

namespace WorkLoop

/-- `WorkerStatus` -/
inductive Status where
  | started | suspended | busy | idle
deriving DecidableEq, Repr

/-- The callers of `run_maintenance_tasks`. -/
inductive Caller where
  | work | dequeueJobAndMaintainTtl
deriving DecidableEq, Repr

/-- The next statement, with the local variables that are still read. -/
inductive Statement where
  /-- `while not self._stop_requested and is_suspended(…)`, in `check_for_suspension`. -/
  | suspensionTest (beforeState : Option Status)
  /-- The body of that loop. -/
  | suspensionBody (beforeState : Option Status)
  /-- `time.sleep(1)` -/
  | suspensionSleep (beforeState : Status)
  /-- `if before_state: self.set_state(before_state)` -/
  | restoreState (beforeState : Option Status)
  /-- `if self.should_run_maintenance_tasks: self.run_maintenance_tasks()` -/
  | maintenance (caller : Caller)
  /-- The `try` of `handle_job_failure`, which `IntermediateQueue.cleanup` calls for a stuck job. -/
  | handleStuckJob (caller : Caller)
  /-- `if self._stop_requested`, in `work`. -/
  | stopTest
  /-- `self.set_state(WorkerStatus.IDLE)` and `idle_since = now()`, in
  `dequeue_job_and_maintain_ttl`. -/
  | setIdle
  /-- The head of `while True` and `self.heartbeat()`. -/
  | dequeueHeartbeat
  /-- `timeout = min(timeout, idle_time_left)` -/
  | setTimeout
  /-- The head of `while True` and the pop, in `dequeue_any`. -/
  | pop
  /-- `job = job_cls.fetch(…)` -/
  | fetch (id : JobId)
  /-- `self.reorder_queues(…)` and `self.get_redis_server_version()` -/
  | reorderQueues (id : JobId)
  /-- `except DequeueTimeout` -/
  | idleTest
  /-- `except redis.exceptions.ConnectionError` -/
  | connectionSleep
  /-- `self.heartbeat()`, after that loop. -/
  | lastHeartbeat (result : Option JobId)
  /-- `if result is None`, in `work`. -/
  | resultTest (result : Option JobId)
  /-- `worker.execution = Execution.create(…)`, in `prepare_execution`. -/
  | createExecution (id : JobId)
  /-- `worker.set_state(WorkerStatus.BUSY, …)` -/
  | setBusy (id : JobId)
  /-- `pipeline.execute()` -/
  | executePipeline (id : JobId)
  /-- `child_pid = os.fork()`, in `fork_work_horse`. -/
  | fork (id : JobId)
  /-- `self._horse_pid = child_pid` -/
  | setHorsePid (childPid : ℕ)
  /-- The head of `while True` and `self.wait_for_horse()`, in `monitor_work_horse`. -/
  | waitForHorse
  /-- `self._horse_pid = 0` -/
  | horseFinished
  /-- The rest of `monitor_work_horse`. -/
  | handleExit
  /-- `self.set_state(WorkerStatus.IDLE)`, in `execute_job`. -/
  | setIdleAgain
  /-- `self.heartbeat()`, in `work`. -/
  | heartbeat
  /-- `completed_jobs += 1` and the test of `max_jobs`. -/
  | count
  | teardown
  | exited
deriving DecidableEq, Repr

/-- The arguments of `work`, and the attribute `worker_ttl`. -/
structure Options where
  burst : Bool := false
  maxJobs : Option ℤ := none
  maxIdleTime : Option ℤ := none
  workerTtl : ℤ := 420
deriving DecidableEq, Repr

/-- `BaseWorker.dequeue_timeout` -/
def Options.dequeueTimeout (self : Options) : ℤ := max 1 (self.workerTtl - 15)

/-- A `Worker` object that is running `work`, and what it works with. -/
structure Loop where
  options : Options
  /-- The key `rq:suspended` exists. -/
  workersSuspended : Bool
  state : Status := .started
  stopRequested : Bool := false
  shutdownRequestedDate : Option ℤ := none
  horsePid : ℕ := 0
  completedJobs : ℕ := 0
  timeout : Option ℤ := none
  idleSince : ℤ := 0
  idleTimeLeft : Option ℤ := none
  next : Statement := .suspensionTest none
  /-- The time in microseconds. -/
  clock : ℤ := 0
  /-- The ids that have been popped. -/
  popped : List JobId := []
  /-- The jobs for which a horse has been forked. A horse is known by its position here, from 1. -/
  forked : List JobId := []
  /-- The horses that are alive. -/
  horses : List ℕ := []
deriving DecidableEq, Repr

/-- An exception, in the main process of the worker. -/
inductive Raised where
  | stopRequested | systemExit | connectionError | other
deriving DecidableEq, Repr

/-- What a statement finds. -/
inductive Finding where
  /-- Nothing: no job on the queues, no hash of the job, no job that is stuck. -/
  | nothing
  | job (id : JobId)
  | hash
  | stuckJob
  /-- `self.current_job_working_time > (job.timeout + 60)` -/
  | overdue
deriving DecidableEq, Repr

/-- `math.ceil` of so many microseconds in seconds. -/
def ceilSeconds (microseconds : ℤ) : ℤ := -(-microseconds / 1000000)

/-- The statement is in the `try` of `dequeue_job_and_maintain_ttl`. -/
def Statement.dequeueing : Statement → Bool
  | .maintenance caller => caller = .dequeueJobAndMaintainTtl
  | .dequeueHeartbeat | .setTimeout | .pop | .fetch _ | .reorderQueues _ => true
  | _ => false

/-- Where an exception that is raised at a statement leads to. -/
def Statement.handler (self : Statement) (e : Raised) : Statement :=
  match self with
  | .exited => .exited
  | .teardown => .exited
  | .handleStuckJob caller =>
    -- `except Exception`
    if e = .systemExit then .teardown else .maintenance caller
  | statement =>
    if statement.dequeueing = true ∧ e = .connectionError then .connectionSleep else .teardown

namespace Loop

/-- An exception is raised by the next statement, or by a signal handler in front of it. -/
def raise (self : Loop) (e : Raised) : Loop := { self with next := self.next.handler e }

/-- `math.ceil(max_idle_time - idle_for)` -/
def timeLeft (self : Loop) (maxIdleTime : ℤ) : ℤ :=
  ceilSeconds (maxIdleTime * 1000000 - (self.clock - self.idleSince))

/-- `BaseWorker.kill_horse` and `wait_for_horse`. -/
def killHorse (self : Loop) : Loop :=
  { self with horses := self.horses.filter (· ≠ self.horsePid) }

/-- The next statement is executed. -/
def statement (self : Loop) (finding : Finding) : Loop :=
  match self.next with
  | .suspensionTest beforeState =>
    if self.stopRequested = false ∧ self.workersSuspended = true then
      { self with next := .suspensionBody beforeState }
    else { self with next := .restoreState beforeState }
  | .suspensionBody beforeState =>
    if self.options.burst = true then self.raise .stopRequested
    else match beforeState with
      | none => { self with state := .suspended, next := .suspensionSleep self.state }
      | some beforeState => { self with next := .suspensionSleep beforeState }
  | .suspensionSleep beforeState => { self with next := .suspensionTest (some beforeState) }
  | .restoreState none => { self with next := .maintenance .work }
  | .restoreState (some beforeState) =>
    { self with state := beforeState, next := .maintenance .work }
  | .maintenance caller =>
    if finding = .stuckJob then { self with next := .handleStuckJob caller }
    else match caller with
      | .work => { self with next := .stopTest }
      | .dequeueJobAndMaintainTtl => { self with next := .setTimeout }
  | .handleStuckJob caller => { self with next := .maintenance caller }
  | .stopTest =>
    if self.stopRequested = true then { self with next := .teardown }
    else { self with next := .setIdle }
  | .setIdle =>
    { self with
      state := .idle
      timeout := if self.options.burst = true then none else some self.options.dequeueTimeout
      idleSince := self.clock
      idleTimeLeft := self.options.maxIdleTime
      next := .dequeueHeartbeat }
  | .dequeueHeartbeat => { self with next := .maintenance .dequeueJobAndMaintainTtl }
  | .setTimeout =>
    { self with
      timeout := self.timeout.map fun timeout => self.idleTimeLeft.elim timeout (min timeout)
      next := .pop }
  | .pop =>
    -- zero is refused by `lmove` and `lpop`, a negative timeout by Redis
    if self.timeout.any (· ≤ 0) = true then self.raise .other
    else match finding with
      | .job id => { self with popped := self.popped ++ [id], next := .fetch id }
      | _ =>
        if self.timeout = none then { self with next := .lastHeartbeat none }
        else { self with next := .idleTest }
  | .fetch id =>
    if finding = .hash then { self with next := .reorderQueues id } else { self with next := .pop }
  | .reorderQueues id => { self with next := .lastHeartbeat (some id) }
  | .idleTest =>
    match self.options.maxIdleTime with
    | none => { self with next := .dequeueHeartbeat }
    | some maxIdleTime =>
      if self.timeLeft maxIdleTime ≤ 0 then
        { self with idleTimeLeft := some (self.timeLeft maxIdleTime), next := .lastHeartbeat none }
      else
        { self with idleTimeLeft := some (self.timeLeft maxIdleTime), next := .dequeueHeartbeat }
  | .connectionSleep => { self with next := .dequeueHeartbeat }
  | .lastHeartbeat result => { self with next := .resultTest result }
  | .resultTest none => { self with next := .teardown }
  | .resultTest (some id) => { self with next := .createExecution id }
  | .createExecution id => { self with next := .setBusy id }
  | .setBusy id => { self with state := .busy, next := .executePipeline id }
  | .executePipeline id => { self with next := .fork id }
  | .fork id =>
    { self with
      forked := self.forked ++ [id]
      horses := self.horses ++ [self.forked.length + 1]
      next := .setHorsePid (self.forked.length + 1) }
  | .setHorsePid childPid => { self with horsePid := childPid, next := .waitForHorse }
  | .waitForHorse =>
    if finding = .overdue then { self.killHorse with next := .horseFinished }
    else if self.horsePid ∈ self.horses then self
    else { self with next := .horseFinished }
  | .horseFinished => { self with horsePid := 0, next := .handleExit }
  | .handleExit => { self with next := .setIdleAgain }
  | .setIdleAgain => { self with state := .idle, next := .heartbeat }
  | .heartbeat => { self with next := .count }
  | .count =>
    if self.options.maxJobs.any (· ≤ (self.completedJobs : ℤ) + 1) = true then
      { self with completedJobs := self.completedJobs + 1, next := .teardown }
    else { self with completedJobs := self.completedJobs + 1, next := .suspensionTest none }
  | .teardown => { self with next := .exited }
  | .exited => self

/-- `BaseWorker.request_stop` and `_shutdown`. What the signal interrupts may catch the
exception. -/
def requestStop (self : Loop) (caught : Bool) : Loop :=
  if self.state = .busy then
    { self with shutdownRequestedDate := some self.clock, stopRequested := true }
  else if caught = true then { self with shutdownRequestedDate := some self.clock }
  else ({ self with shutdownRequestedDate := some self.clock } : Loop).raise .stopRequested

/-- `BaseWorker.request_force_stop`. The other date is that of the first signal. No `except
Exception` catches a `SystemExit`. -/
def requestForceStop (self : Loop) (shutdownRequestedDate : ℤ) : Loop :=
  if self.clock - shutdownRequestedDate < 1000000 then self
  else if self.horsePid ≠ 0 then self.killHorse.raise .systemExit
  else self.raise .systemExit

/-- The handler that is installed for SIGINT and SIGTERM. -/
def signal (self : Loop) (caught : Bool) : Loop :=
  match self.shutdownRequestedDate with
  | none => self.requestStop caught
  | some shutdownRequestedDate => self.requestForceStop shutdownRequestedDate

end Loop

/-- What can happen next. -/
inductive Event where
  | statement (finding : Finding)
  /-- The next statement raises an exception of its own. -/
  | raises (e : Raised)
  /-- SIGINT or SIGTERM. It is `caught` where it interrupts a call that catches every `Exception`,
  such as a handler that emits a log record, `Job.restore` when it loads the result or the metadata,
  or a callback. -/
  | signal (caught : Bool)
  /-- A horse ends, by itself or because it is killed by someone else. -/
  | horseEnds (pid : ℕ)
  /-- `rq suspend` -/
  | suspend
  /-- `rq resume`, or the key expires. -/
  | resume
  | elapse (microseconds : ℕ)
deriving DecidableEq, Repr

namespace Loop

def handle (self : Loop) : Event → Loop
  | .statement finding => self.statement finding
  | .raises e => self.raise e
  | .signal caught => if self.next = .exited then self else self.signal caught
  | .horseEnds pid => { self with horses := self.horses.filter (· ≠ pid) }
  | .suspend => { self with workersSuspended := true }
  | .resume => { self with workersSuspended := false }
  | .elapse microseconds => { self with clock := self.clock + microseconds }

def run (self : Loop) (events : List Event) : Loop := events.foldl handle self

/-- `work`, when the signal handlers have been installed. -/
def start (options : Options) (workersSuspended : Bool) : Loop :=
  { options := options, workersSuspended := workersSuspended }

end Loop

/-! ## Where the signal handler finds the worker -/

/-- The state is `busy` at these statements only. -/
def Statement.executing : Statement → Bool
  | .executePipeline _ | .fork _ | .setHorsePid _ | .waitForHorse | .horseFinished | .handleExit
  | .setIdleAgain | .teardown | .exited => true
  | _ => false

/-- `before_state` -/
def Statement.beforeState : Statement → Option Status
  | .suspensionTest beforeState | .suspensionBody beforeState | .restoreState beforeState =>
    beforeState
  | .suspensionSleep beforeState => some beforeState
  | _ => none

/-- From here the work loop ends without another pop if a stop is requested. -/
def Statement.leaving : Statement → Bool
  | .maintenance caller | .handleStuckJob caller => caller = .work
  | .executePipeline _ | .fork _ | .setHorsePid _ | .waitForHorse | .horseFinished | .handleExit
  | .setIdleAgain | .heartbeat | .count | .suspensionTest _ | .restoreState _ | .stopTest
  | .teardown | .exited => true
  | _ => false

lemma Statement.handler_cases (next : Statement) (e : Raised) :
    next.handler e = .exited ∨ next.handler e = .teardown ∨
      (∃ caller, next = .handleStuckJob caller ∧ next.handler e = .maintenance caller) ∨
      (next.dequeueing = true ∧ next.handler e = .connectionSleep) := by
  unfold Statement.handler
  split
  · exact .inl rfl
  · exact .inl rfl
  · next caller =>
    split
    · exact .inr (.inl rfl)
    · exact .inr (.inr (.inl ⟨caller, rfl, rfl⟩))
  · split
    · next h => exact .inr (.inr (.inr ⟨h.1, rfl⟩))
    · exact .inr (.inl rfl)

variable {self : Loop} {events : List Event}

namespace Loop

structure StateInv (loop : Loop) : Prop where
  busy : loop.state = .busy → loop.next.executing = true
  executing : loop.next.executing = true →
    loop.state = .busy ∨ loop.next = .teardown ∨ loop.next = .exited
  before : loop.next.beforeState ≠ some .busy

lemma StateInv.raise (h : self.StateInv) (e : Raised) : (self.raise e).StateInv := by
  have hexec : self.state = .busy → (self.next.handler e).executing = true := by
    intro hbusy
    have hexec := h.busy hbusy
    rcases self.next.handler_cases e with he | he | ⟨caller, hnext, -⟩ | ⟨hnext, -⟩
    · rw [he]; rfl
    · rw [he]; rfl
    · rw [hnext] at hexec; cases hexec
    · cases hself : self.next <;> simp_all [Statement.executing, Statement.dequeueing]
  constructor
  · exact hexec
  all_goals
    rcases self.next.handler_cases e with he | he | ⟨caller, -, he⟩ | ⟨-, he⟩ <;>
      simp [Loop.raise, he, Statement.executing, Statement.beforeState]

lemma StateInv.statement (h : self.StateInv) (finding : Finding) :
    (self.statement finding).StateInv := by
  have hraise := h.raise
  obtain ⟨hbusy, hexecuting, hbefore⟩ := h
  unfold Loop.statement
  repeat' split
  all_goals
    first
    | exact hraise _
    | clear hraise
      constructor <;> simp_all [Statement.executing, Statement.beforeState, killHorse]

lemma StateInv.signal (h : self.StateInv) (caught : Bool) : (self.signal caught).StateInv := by
  unfold Loop.signal requestStop requestForceStop
  repeat' split
  · exact ⟨h.busy, h.executing, h.before⟩
  · exact ⟨h.busy, h.executing, h.before⟩
  · exact (show StateInv { self with shutdownRequestedDate := some self.clock } from
      ⟨h.busy, h.executing, h.before⟩).raise _
  · exact h
  · exact (show self.killHorse.StateInv from ⟨h.busy, h.executing, h.before⟩).raise _
  · exact h.raise _

lemma StateInv.handle (h : self.StateInv) (event : Event) : (self.handle event).StateInv := by
  cases event with
  | statement finding => exact h.statement finding
  | raises e => exact h.raise e
  | signal caught =>
    unfold Loop.handle
    dsimp only
    split
    · exact h
    · exact h.signal caught
  | horseEnds pid | suspend | resume | elapse microseconds =>
    exact ⟨h.busy, h.executing, h.before⟩

/-- What every event preserves is preserved by a run. -/
lemma run_induction {P : Loop → Prop} (hstep : ∀ loop event, P loop → P (loop.handle event))
    (h : P self) (events : List Event) : P (self.run events) := by
  induction events generalizing self with
  | nil => exact h
  | cons event events ih => exact ih (hstep self event h)

lemma run_append (self : Loop) (events later : List Event) :
    self.run (events ++ later) = (self.run events).run later :=
  List.foldl_append

lemma stateInv_run (options : Options) (workersSuspended : Bool) (events : List Event) :
    ((start options workersSuspended).run events).StateInv :=
  run_induction (P := StateInv) (fun _ event h => h.handle event)
    (by constructor <;> simp [start, Statement.executing, Statement.beforeState]) events

/-! ## A stop -/

/-- A stop has been requested and nothing will be popped, or the loop has ended. -/
structure Stopping (loop : Loop) : Prop where
  leaving : loop.next.leaving = true
  requested : loop.stopRequested = true ∨ loop.next = .teardown ∨ loop.next = .exited

lemma Stopping.raise (h : self.Stopping) (e : Raised) : (self.raise e).Stopping := by
  obtain ⟨hleaving, hrequested⟩ := h
  have hnext : (self.next.handler e).leaving = true ∧ (self.stopRequested = true ∨
      self.next.handler e = .teardown ∨ self.next.handler e = .exited) := by
    rcases self.next.handler_cases e with he | he | ⟨caller, hnext, he⟩ | ⟨hnext, he⟩
    · simp [he, Statement.leaving]
    · simp [he, Statement.leaving]
    · cases caller <;> simp_all [Statement.leaving]
    · cases hself : self.next <;> simp_all [Statement.leaving, Statement.dequeueing]
  exact ⟨hnext.1, hnext.2⟩

lemma Stopping.statement (h : self.Stopping) (finding : Finding) :
    (self.statement finding).Stopping := by
  have hraise := h.raise
  obtain ⟨hleaving, hrequested⟩ := h
  unfold Loop.statement
  repeat' split
  all_goals
    first
    | exact hraise _
    | clear hraise
      constructor <;> simp_all [Statement.leaving, killHorse]

lemma Stopping.signal (h : self.Stopping) (caught : Bool) : (self.signal caught).Stopping := by
  have hother : ∀ loop : Loop, loop.next = self.next → loop.stopRequested = self.stopRequested →
      loop.Stopping := fun loop hnext hstop => ⟨hnext ▸ h.leaving, hnext ▸ hstop ▸ h.requested⟩
  unfold Loop.signal requestStop requestForceStop
  repeat' split
  · exact ⟨h.leaving, .inl rfl⟩
  · exact hother { self with shutdownRequestedDate := some self.clock } rfl rfl
  · exact (hother { self with shutdownRequestedDate := some self.clock } rfl rfl).raise _
  · exact h
  · exact (hother self.killHorse rfl rfl).raise _
  · exact h.raise _

lemma Stopping.handle (h : self.Stopping) (event : Event) : (self.handle event).Stopping := by
  cases event with
  | statement finding => exact h.statement finding
  | raises e => exact h.raise e
  | signal caught =>
    unfold Loop.handle
    dsimp only
    split
    · exact h
    · exact h.signal caught
  | horseEnds pid | suspend | resume | elapse microseconds => exact ⟨h.leaving, h.requested⟩

/-- The next statement waits for a horse that is alive. -/
def waiting (self : Loop) : Bool :=
  decide (self.next = .waitForHorse) && decide (self.horsePid ∈ self.horses)

/-- A stuck job is being moved to the registry of the failed jobs. -/
def HandlesStuckJob (self : Loop) : Prop := ∃ caller, self.next = .handleStuckJob caller

/-- The signal that comes now is swallowed by an `except Exception`: in the call that it interrupts,
or around the handling of a stuck job. -/
def Swallows (self : Loop) (caught : Bool) : Prop :=
  self.state ≠ .busy ∧ self.next ≠ .exited ∧ (caught = true ∨ self.HandlesStuckJob)

/-- No signal has come. -/
def Unsignalled (self : Loop) : Prop :=
  self.stopRequested = false ∧ self.shutdownRequestedDate = none

lemma Unsignalled.statement (h : self.Unsignalled) (finding : Finding) :
    (self.statement finding).Unsignalled := by
  unfold Loop.statement
  repeat' split
  all_goals exact h

lemma Unsignalled.run (h : self.Unsignalled) (hfirst : ∀ caught, .signal caught ∉ events) :
    (self.run events).Unsignalled := by
  induction events generalizing self with
  | nil => exact h
  | cons event events ih =>
    simp only [List.mem_cons, not_or] at hfirst
    refine ih ?_ fun caught => (hfirst caught).2
    cases event with
    | statement finding => exact h.statement finding
    | signal caught => exact absurd rfl (hfirst caught).1
    | raises e | horseEnds pid | suspend | resume | elapse microseconds => exact h

lemma Unsignalled.handle_signal (h : self.Unsignalled) (hnext : self.next ≠ .exited)
    (caught : Bool) : self.handle (.signal caught) = self.requestStop caught := by
  rw [Loop.handle, if_neg hnext, Loop.signal, h.2]

lemma leaving_of_executing {next : Statement} (h : next.executing = true) :
    next.leaving = true := by
  cases next <;> simp_all [Statement.executing, Statement.leaving]

/-- The handler finds the worker busy, or ends the loop. -/
lemma Unsignalled.stopping (h : self.Unsignalled) (hstate : self.StateInv) {caught : Bool}
    (hheeds : ¬self.Swallows caught) : (self.handle (.signal caught)).Stopping := by
  by_cases hnext : self.next = .exited
  · rw [Loop.handle, if_pos hnext]
    exact ⟨by rw [hnext]; rfl, .inr (.inr hnext)⟩
  · rw [h.handle_signal hnext]
    unfold requestStop
    split
    · next hbusy => exact ⟨leaving_of_executing (hstate.busy hbusy), .inl rfl⟩
    · next hidle =>
      obtain ⟨hcaught, hstuck⟩ : ¬caught = true ∧ ¬self.HandlesStuckJob :=
        not_or.mp fun hswallows => hheeds ⟨hidle, hnext, hswallows⟩
      have hraised : self.next.handler .stopRequested = .teardown ∨
          self.next.handler .stopRequested = .exited := by
        rcases self.next.handler_cases .stopRequested with he | he | ⟨caller, hcaller, -⟩ | ⟨-, he⟩
        · exact .inr he
        · exact .inl he
        · exact absurd ⟨caller, hcaller⟩ hstuck
        · revert he
          cases self.next <;> simp [Statement.handler]
      rw [if_neg hcaught]
      constructor
      · show (self.next.handler .stopRequested).leaving = true
        rcases hraised with he | he <;> rw [he] <;> rfl
      · exact .inr hraised

end Loop

end WorkLoop
end RedisQueue
