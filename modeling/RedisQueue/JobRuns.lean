import RedisQueue.JobTraces

/-!
# Executions of one job
-/

namespace RedisQueue

open Prog

variable {pipe : Pipeline Key Value}

lemma Queue.run_again (h : pipe.immediate = false) {job : Job} (ht : job.ttl ≠ some 0)
    (queue : Queue) (interval : ℕ) (atFront : Bool) (now : Time) (s : Store) :
    (do
      if interval ≠ 0 then
        let (job, _) ← job.setStatus .scheduled none
        queue.scheduleJob job (now + interval) (some pipe) false now
      else queue._enqueueJob job (some pipe) atFront false now : Redis (Job × Client)).run s =
      (.ok (if interval = 0 then queue._prepareForQueue job now
          else { job with status := .scheduled },
        some (pipe.buffer (againLater queue job interval atFront now))),
        (Command.seq (againNow queue job interval now)).run s) := by
  by_cases h0 : interval = 0
  · simp [h0, Queue.enqueueJob_buffer h queue ht, againLater, againNow]
  · have hschedule := @Queue.scheduleOnPipeline_eq pipe h queue { job with status := .scheduled } ht
      (now + interval) now
    simp [h0, Job.setStatus, Client.command, Queue.scheduleJob, hschedule, againLater, againNow,
      Prog.perform]

/-- The job that runs again. -/
def againJob (queue : Queue) (job : Job) (interval : ℕ) (now : Time) : Job :=
  if interval = 0 then queue._prepareForQueue job now else { job with status := .scheduled }

namespace Job

/-- One more retry. -/
def retried (job : Job) : Job :=
  { job with numberOfRetries := some (job.numberOfRetries.getD 0 + 1) }

/-- The interval before the next retry. -/
def retryDelay (job : Job) (retry : Retry) : ℕ :=
  Retry.getInterval (job.numberOfRetries.getD 0) retry.intervals

lemma run_handleRetryResult (h : pipe.immediate = false) {job : Job} (ht : job.ttl ≠ some 0)
    (queue : Queue) (retry : Retry) (info : ExecutionInfo) (now : Time) (s : Store) :
    (job._handleRetryResult queue (some pipe) retry info now).run s =
      (.ok (againJob queue job.retried (job.retryDelay retry) now,
        some (pipe.buffer (resultCommands job.id (makeResult .retried (some "Retry") none info)
          job.failureTtl now ++ againLater queue job.retried (job.retryDelay retry) false now))),
        (Command.seq (againNow queue job.retried (job.retryDelay retry) now)).run s) := by
  have hagain := @Queue.run_again (pipe.buffer (resultCommands job.id
    (makeResult .retried (some "Retry") none info) job.failureTtl now)) (by simpa using h)
    job.retried ht queue (job.retryDelay retry) false now s
  unfold _handleRetryResult
  rw [createResult_buffer h, Prog.ret_bind]
  exact hagain.trans (by simp [againJob])

end Job

/-- The results that are left when one has been saved: a negative time to live other than `-1`
deletes them. -/
def keptResults (ttl : Option ℤ) (results : List Result) : List Result :=
  if ttl.any fun ttl => ttl ≠ -1 && ttl ≤ 0 then [] else results

/-- A result has been saved. -/
def Trace.recorded (t : Trace) (ttl : Option ℤ) (result : Result) : Trace :=
  { t with results := keptResults ttl (t.results ++ [result]) }

lemma trace_resultCommands (id : JobId) (result : Result) (ttl : Option ℤ) (now : Time)
    (s : Store) : trace id ((Command.seq (Job.resultCommands id result ttl now)).run s) =
      (trace id s).recorded ttl result := by
  cases ttl with
  | none => simp [Job.resultCommands, trace_writeResults, keptResults, Trace.recorded]
  | some ttl =>
    by_cases hforever : ttl = -1
    · simp [Job.resultCommands, hforever, trace_persist, trace_writeResults, keptResults,
        Trace.recorded]
    · by_cases hpositive : ttl ≤ 0
      · have hdel : ∀ s, trace id ((Command.del (.results id)).run s) =
            { trace id s with results := [] } := fun s => by
          ext1
          case results => simp [trace]; rfl
          all_goals simp [trace]
        simp [Job.resultCommands, hforever, expire, hpositive, hdel, trace_writeResults,
          keptResults, Trace.recorded]
      · simp [Job.resultCommands, hforever, expire, hpositive, trace_expire, trace_writeResults,
          keptResults, Trace.recorded]

namespace Worker

lemma endCommands_congr {self : Worker} {job job' : Job} (h : job'.origin = job.origin) :
    self.endCommands job' = self.endCommands job := by
  unfold endCommands Execution.deleteCommands
  rw [h]

lemma origin_againJob {queue : Queue} {job : Job} (hq : queue.name = job.origin) (interval : ℕ)
    (now : Time) : (againJob queue job interval now).origin = job.origin := by
  unfold againJob
  split
  · exact hq
  · rfl

/-- What a failed or retried execution adds to the counters of the worker. -/
def countCommands (self : Worker) (time : ℤ) : List (Command Key Value) :=
  [self.incrementFailedJobCount, self.incrementTotalWorkingTime time]

lemma trace_countCommands (self : Worker) (time : ℤ) (id : JobId) (s : Store) :
    trace id ((Command.seq (self.countCommands time)).run s) = trace id s := by
  simp [countCommands, incrementFailedJobCount, incrementTotalWorkingTime, trace_hsetWorker]

/-- The result is recorded, the job is to run again and its execution ends. -/
lemma trace_retryCommands {self : Worker} {job : Job} {execution : Execution}
    (hexecution : self.execution = some execution) (hid : execution.jobId = job.id)
    (hdeferred : job.status ≠ .deferred) (queue : Queue) (time : ℤ) (result : Result)
    (interval : ℕ) (now : Time) (s : Store) :
    trace job.id ((Command.seq (self.countCommands time ++
        (Job.resultCommands job.id result job.failureTtl now ++
          (againLater queue job interval false now ++ self.endCommands job)))).run
        ((Command.seq (againNow queue job interval now)).run s)) =
      (((trace job.id s).recorded job.failureTtl result).ended (job.origin, execution.id)).again
        queue job interval now := by
  obtain ⟨eid, jobId, createdAt, lastHeartbeat⟩ := execution
  obtain rfl : jobId = job.id := hid
  rw [Command.seq_append_run, Command.seq_append_run, Command.seq_append_run,
    trace_endCommands hexecution, trace_againLater queue hdeferred, trace_resultCommands,
    trace_countCommands, trace_againNow]
  unfold Trace.again
  split <;> rfl

/-- What a retried execution records. -/
def retryInfo (self : Worker) (execution : Execution) (job : Job) : Job.ExecutionInfo :=
  ⟨self.name, some execution.id, some execution.createdAt, job.endedAt⟩

/-- The function has returned a `Retry`, and there are retries left. The execution ends for the
object that is queued or scheduled. -/
lemma run_handleJobRetry (self : Worker) {job : Job} {startedAt endedAt : Time}
    (hstarted : job.startedAt = some startedAt) (hended : job.endedAt = some endedAt)
    (ht : job.ttl ≠ some 0) (queue : Queue) {retry : Retry}
    (hleft : ¬(job.numberOfRetries.getD 0 ≠ 0 ∧ retry.max ≤ job.numberOfRetries.getD 0))
    (execution : Execution) (now : Time) (fuel : ℕ) (s : Store) :
    (self.handleJobRetry job queue retry execution now fuel).run s =
      (.ok ({ self with execution := none },
        againJob queue job.retried (job.retryDelay retry) now),
        (Command.seq (self.countCommands (endedAt - startedAt) ++
          (Job.resultCommands job.id (Job.makeResult .retried (some "Retry") none
            (self.retryInfo execution job)) job.failureTtl now ++
            (againLater queue job.retried (job.retryDelay retry) false now ++
              self.endCommands (againJob queue job.retried (job.retryDelay retry) now))))).run
        ((Command.seq (againNow queue job.retried (job.retryDelay retry) now)).run s)) := by
  have htime : workingTime job = .ok (endedAt - startedAt) := by
    simp [workingTime, hstarted, hended]
  unfold handleJobRetry
  simp only [hended, Option.isNone_some, Bool.false_eq_true, if_false, hleft,
    Client.command_buffer Pipeline.immediate_empty, Prog.ret_bind, htime, Prog.ofExcept_ok]
  rw [Client.command_buffer (by simp), Prog.ret_bind,
    Prog.run_bind_ok (Job.run_handleRetryResult (by simp) ht queue retry _ now s)]
  dsimp only
  rw [cleanupExecution_buffer (by simp), Prog.ret_bind,
    Prog.run_bind_ok (Pipeline.run_execute_of_unwatched rfl _)]
  simp [Pipeline.buffer, countCommands, retryInfo, hended]

/-- **The function has returned a `Retry`, and there are retries left.** -/
lemma run_handleJobRetry_again (self : Worker) {job : Job} {startedAt endedAt : Time}
    (hstarted : job.startedAt = some startedAt) (hended : job.endedAt = some endedAt)
    (ht : job.ttl ≠ some 0) {queue : Queue} (hq : queue.name = job.origin) {retry : Retry}
    (hleft : ¬(job.numberOfRetries.getD 0 ≠ 0 ∧ retry.max ≤ job.numberOfRetries.getD 0))
    (execution : Execution) (now : Time) (fuel : ℕ) (s : Store) :
    (self.handleJobRetry job queue retry execution now fuel).run s =
      (.ok ({ self with execution := none },
        againJob queue job.retried (job.retryDelay retry) now),
        (Command.seq (self.countCommands (endedAt - startedAt) ++
          (Job.resultCommands job.id (Job.makeResult .retried (some "Retry") none
            (self.retryInfo execution job)) job.failureTtl now ++
            (againLater queue job.retried (job.retryDelay retry) false now ++
              self.endCommands job)))).run
        ((Command.seq (againNow queue job.retried (job.retryDelay retry) now)).run s)) := by
  have hend : self.endCommands (againJob queue job.retried (job.retryDelay retry) now) =
      self.endCommands job := endCommands_congr (@origin_againJob queue job.retried hq _ _)
  rw [self.run_handleJobRetry hstarted hended ht queue hleft execution now fuel s, hend]

lemma trace_handleJobRetry_again (self : Worker) {job : Job} {startedAt endedAt : Time}
    (hstarted : job.startedAt = some startedAt) (hended : job.endedAt = some endedAt)
    (ht : job.ttl ≠ some 0) (hdeferred : job.status ≠ .deferred) (queue : Queue)
    (hq : queue.name = job.origin) {retry : Retry}
    (hleft : ¬(job.numberOfRetries.getD 0 ≠ 0 ∧ retry.max ≤ job.numberOfRetries.getD 0))
    {execution : Execution} (hexecution : self.execution = some execution)
    (hid : execution.jobId = job.id) (now : Time) (fuel : ℕ) (s : Store) :
    ∃ r s', (self.handleJobRetry job queue retry execution now fuel).run s = (.ok r, s') ∧
      trace job.id s' = (((trace job.id s).recorded job.failureTtl (Job.makeResult .retried
        (some "Retry") none (self.retryInfo execution job))).ended (job.origin, execution.id)).again
        queue job.retried (job.retryDelay retry) now :=
  ⟨_, _, self.run_handleJobRetry_again hstarted hended ht hq hleft execution now fuel s,
    @trace_retryCommands self job.retried execution hexecution hid hdeferred queue _ _ _ now s⟩

end Worker

/-! ## The end of the last execution -/

namespace Job

end Job

/-- The job is in the registry of failed jobs. -/
def Trace.failed (t : Trace) (job : Job) (now : Time) : Trace :=
  { t.saved job job.origin with
    status := some job.status
    registries := fun kind' name' => if kind' = .failed ∧ name' = job.origin
      then some (Job.failedScore (job.failureTtl.getD Job.defaultFailureTtl) now)
      else t.registries kind' name' }

/-- What the database holds about a job after its last execution. -/
def Trace.failure (t : Trace) (job : Job) (eid : ExecutionId) (result : Result) (now : Time) :
    Trace :=
  ((t.ended (job.origin, eid)).failed job now).recorded job.failureTtl result

namespace Worker

lemma run_retry_again (h : pipe.immediate = false) {job : Job} (ht : job.ttl ≠ some 0) {n : ℕ}
    (hleft : job.retriesLeft = some (n + 1)) (queue : Queue) {interval : ℕ}
    (hinterval : job.getRetryInterval = .ok interval) (now : Time) (s : Store) :
    (job.retry queue (some pipe) now).run s =
      (.ok (againJob queue { job with retriesLeft := some n } interval now,
        some (pipe.buffer (againLater queue { job with retriesLeft := some n } interval
          job.enqueueAtFrontOnRetry now))),
        (Command.seq (againNow queue { job with retriesLeft := some n } interval now)).run s) := by
  have hagain := @Queue.run_again pipe h { job with retriesLeft := some n } ht queue interval
    job.enqueueAtFrontOnRetry now s
  unfold Job.retry
  rw [hinterval, Prog.ofExcept_ok, Prog.ret_bind, hleft]
  exact hagain

/-- The transaction at the end of an execution that is followed by a retry. -/
lemma run_executeCaught {pipe : Pipeline Key Value} (hw : pipe.watched = []) (job : Job)
    (s : Store) :
    (catching (do
        let _ ← pipe.execute
        return job) fun _ => return job : Redis Job).run s =
      (.ok job, (Command.seq pipe.commandStack).run s) := by
  unfold catching
  rw [Prog.run_tryCatch, Prog.run_bind_ok (Pipeline.run_execute_of_unwatched hw s)]
  rfl

/-- **The function has raised an exception, and there are retries left.** -/
lemma run_handleJobFailure_again (self : Worker) {job : Job} {startedAt endedAt : Time}
    (hstarted : job.startedAt = some startedAt) (hended : job.endedAt = some endedAt)
    (ht : job.ttl ≠ some 0) {queue : Queue} (hstopped : self.stoppedJobId ≠ some job.id) {n : ℕ}
    (hleft : job.retriesLeft = some (n + 1)) {interval : ℕ}
    (hinterval : job.getRetryInterval = .ok interval) (excString : String) (now : Time) (fuel : ℕ)
    (s : Store) :
    (self.handleJobFailure job queue excString now fuel).run s =
      (.ok ({ self with execution := none },
        againJob queue { job with retriesLeft := some n } interval now),
        (Command.seq (self.endCommands job ++ (self.countCommands (endedAt - startedAt) ++
          againLater queue { job with retriesLeft := some n } interval job.enqueueAtFrontOnRetry
            now))).run
        ((Command.seq (againNow queue { job with retriesLeft := some n } interval now)).run s)) := by
  have htime : workingTime job = .ok (endedAt - startedAt) := by
    simp [workingTime, hstarted, hended]
  have hretry : job.shouldRetry = true := by simp [Job.shouldRetry, hleft]
  have hnot : (self.stoppedJobId == some job.id) = false := by simpa using hstopped
  unfold handleJobFailure
  simp only [hretry, hnot, Bool.not_false, Bool.and_true, Bool.false_eq_true, if_false,
    Bool.not_true, Bool.and_false, Prog.ret_bind, Prog.pure_eq, if_true]
  rw [cleanupExecution_buffer Pipeline.immediate_empty, Prog.ret_bind]
  dsimp only
  rw [Client.command_buffer (by simp), Prog.ret_bind, htime]
  dsimp only
  rw [Client.command_buffer (by simp), Prog.ret_bind,
    Prog.run_bind_ok (run_retry_again (by simp) ht hleft queue hinterval now s)]
  refine (Prog.run_bind_ok (run_executeCaught rfl _ _)).trans ?_
  simp [Pipeline.buffer, countCommands, incrementFailedJobCount, incrementTotalWorkingTime]

/-- The job as the work horse has started it and as it is after its function. -/
def performed (self : Worker) (job : Job) (status : JobStatus) (now : Time) : Job :=
  { job with
    workerName := some self.name, lastHeartbeat := some now, startedAt := some now,
    endedAt := some now, status := status }

/-- What the work horse writes until the function has ended. -/
def performCommands (self : Worker) (job : Job) (now : Time) : List (Command Key Value) :=
  self.startCommands job (self.queues.length = 1) now ++
    [.persist (.job job.id), hset job.id { lastHeartbeat := some (some now) }]

lemma trace_performCommands (self : Worker) (job : Job) (now : Time) (s : Store) :
    trace job.id ((Command.seq (self.performCommands job now)).run s) =
      { trace job.id s with
        status := some .started
        lists := if self.queues.length = 1
          then Function.update (trace job.id s).lists (intermediateQueueKey (queueKey job.origin))
            ((trace job.id s).lists (intermediateQueueKey (queueKey job.origin)) - 1)
          else (trace job.id s).lists } := by
  rw [performCommands, Command.seq_append_run, Command.seq_cons_run, Command.seq_cons_run,
    Command.seq_nil_run, trace_hset, trace_persist, trace_startCommands]
  simp only [decide_eq_true_eq]
  rfl

lemma run_handleExecutionEnded (job : Job) (now : Time) (s : Store) :
    (handleExecutionEnded job now).run s =
      (.ok { job with endedAt := some now, lastHeartbeat := some now },
        (hset job.id { lastHeartbeat := some (some now) }).run s) := rfl

lemma run_performJob_raised {self : Worker} {job : Job} {queue : Queue} {excString : String}
    {userCode : UserCode} (hhandler : userCode.exceptionHandler = none) {now : Time} {fuel : ℕ}
    {s s' : Store} {r : Worker × Job}
    (h : (({ self with currentJobWorkingTime := 0 } : Worker).handleJobFailure
      (self.performed job .failed now) queue (userCode.failureCallback.getD excString) now
      fuel).run ((Command.seq (self.performCommands job now)).run s) = (.ok r, s')) :
    (self.performJob job queue (.raised excString) userCode now fuel).run s =
      (.ok (false, r), s') := by
  unfold performJob
  rw [Prog.run_bind_ok (self.run_prepareJobExecution job _ now s)]
  dsimp only
  rw [Prog.run_bind_ok (Prog.run_perform _ _)]
  dsimp only [performJobExcept]
  rw [Prog.run_bind_ok (run_handleExecutionEnded _ now _), hhandler]
  rw [performCommands, Command.seq_append_run, Command.seq_cons_run, Command.seq_cons_run,
    Command.seq_nil_run] at h
  exact Prog.run_bind_ok h

lemma run_attempting_ok {α : Type} {p : Redis α} {a : α} {s s' : Store}
    (h : p.run s = (.ok a, s')) : (attempting p).run s = (.ok (.ok a), s') := by
  unfold attempting catching
  rw [Prog.run_tryCatch, Prog.run_bind_ok h]
  rfl

lemma run_attempting_error {α : Type} {p : Redis α} {e : PyError} {s s' : Store}
    (h : p.run s = (.error e, s')) : (attempting p).run s =
      if e = .stillRunning then (.error e, s') else (.ok (.error e), s') := by
  unfold attempting catching
  rw [Prog.run_tryCatch, Prog.run_bind_error h]
  by_cases he : e = .stillRunning <;> simp [he]

lemma run_performJob_retry {self : Worker} {job : Job} {queue : Queue} {retry : Retry}
    {execution : Execution} (hexecution : self.execution = some execution) (userCode : UserCode)
    {now : Time} {fuel : ℕ} {s s' : Store} {r : Worker × Job}
    (h : (({ self with currentJobWorkingTime := 0 } : Worker).handleJobRetry
      { self.performed job .started now with result := some "Retry" } queue retry execution now
      fuel).run ((Command.seq (self.performCommands job now)).run s) = (.ok r, s')) :
    (self.performJob job queue (.retry retry) userCode now fuel).run s = (.ok (true, r), s') := by
  unfold performJob
  rw [Prog.run_bind_ok (self.run_prepareJobExecution job _ now s)]
  dsimp only
  rw [Prog.run_bind_ok (Prog.run_perform _ _), Prog.run_bind_ok (run_handleExecutionEnded _ now _)]
  dsimp only
  rw [hexecution]
  dsimp only
  rw [performCommands, Command.seq_append_run, Command.seq_cons_run, Command.seq_cons_run,
    Command.seq_nil_run, hexecution] at h
  exact Prog.run_bind_ok (run_attempting_ok h)

/-- After an exception the work horse does not say that the job has succeeded. -/
lemma run_performJobExcept_ne (self : Worker) (job : Job) (queue : Queue) (excString : String)
    (userCode : UserCode) (now : Time) (fuel : ℕ) (s : Store) (r : Worker × Job) :
    ((self.performJobExcept job queue excString userCode now fuel).run s).1 ≠ .ok (true, r) := by
  unfold performJobExcept
  dsimp only
  rw [Prog.run_bind_ok (run_handleExecutionEnded _ now s)]
  cases userCode.exceptionHandler with
  | some e => exact fun h => by cases h
  | none =>
    dsimp only
    rw [Prog.run_bind]
    split <;> exact fun h => by cases h

/-- What follows `handle_job_success`: the job has succeeded if no exception has come out of it. -/
structure AfterSuccess (f : Except PyError Unit × Worker × Job → Redis (Bool × Worker × Job)) :
    Prop where
  ok (self : Worker) (job : Job) : f (.ok (), self, job) = .ret (true, self, job)
  error (e : PyError) (self : Worker) (job : Job) (s : Store) (r : Worker × Job) :
    ((f (.error e, self, job)).run s).1 ≠ .ok (true, r)

lemma run_performJob_returned {self : Worker} {job : Job} {queue : Queue} (value : Option String)
    {userCode : UserCode} (hcallback : userCode.successCallback = none) (now : Time) (fuel : ℕ)
    (s : Store) : ∃ f, AfterSuccess f ∧
      (self.performJob job queue (.returned value) userCode now fuel).run s =
        (handleJobSuccessLoop queue now fuel { self with currentJobWorkingTime := 0 }
          { self.performed job .finished now with result := value } >>= f).run
          ((Command.seq (self.performCommands job now)).run s) := by
  unfold performJob
  rw [Prog.run_bind_ok (self.run_prepareJobExecution job _ now s)]
  dsimp only
  rw [Prog.run_bind_ok (Prog.run_perform _ _), Prog.run_bind_ok (run_handleExecutionEnded _ now _)]
  dsimp only
  rw [hcallback, performCommands, Command.seq_append_run, Command.seq_cons_run,
    Command.seq_cons_run, Command.seq_nil_run]
  exact ⟨_, ⟨fun _ _ => rfl, fun e self job s r => run_performJobExcept_ne _ _ _ _ _ _ _ s r⟩, rfl⟩

/-- `Worker.execute_job`. The work horse, a copy of the worker, exits with status 1 after an
exception. -/
def executeJob (self : Worker) (job : Job) (queue : Queue) (outcome : Outcome)
    (userCode : UserCode) (eid : ExecutionId) (now : Time) (fuel : ℕ) :
    Redis (Except PyError Bool × Worker) := do
  let self ← self.prepareExecution job eid now
  let r ← attempting (self.performJob job queue outcome userCode now fuel)
  let retVal : ℤ := match r with
    | .ok _ => 0
    | .error _ => 256
  let (self, _) ← self.monitorWorkHorse job queue retVal none none now now fuel
  Prog.perform (self.setState "idle").run
  return (r.map Prod.fst, self)

/-- What follows a work horse that has ended without an exception is not about the job. -/
lemma run_executeJob {self : Worker} {job : Job} {queue : Queue} {outcome : Outcome}
    {userCode : UserCode} {eid : ExecutionId} {now : Time} {fuel : ℕ} {s s' : Store} {b : Bool}
    {r : Worker × Job}
    (h : (({ self with execution := some ⟨eid, job.id, now, now⟩ } : Worker).performJob job queue
      outcome userCode now fuel).run ((Command.seq (self.prepareCommands job eid now)).run s) =
      (.ok (b, r), s')) :
    ∃ self' s'', (self.executeJob job queue outcome userCode eid now fuel).run s =
      (.ok (.ok b, self'), s'') ∧ trace job.id s'' = trace job.id s' := by
  unfold executeJob
  rw [Prog.run_bind_ok (self.run_prepareExecution job eid now s),
    Prog.run_bind_ok (run_attempting_ok h)]
  exact ⟨_, _, rfl, (trace_hsetWorker _ _).trans (trace_hsetWorker _ _)⟩

/-- Without an exception the work horse has said how it has ended. -/
lemma performJob_of_executeJob {self self' : Worker} {job : Job} {queue : Queue}
    {outcome : Outcome} {userCode : UserCode} {eid : ExecutionId} {now : Time} {fuel : ℕ}
    {s s' : Store} {b : Bool}
    (h : (self.executeJob job queue outcome userCode eid now fuel).run s =
      (.ok (.ok b, self'), s')) :
    ∃ r s₁, (({ self with execution := some ⟨eid, job.id, now, now⟩ } : Worker).performJob job
      queue outcome userCode now fuel).run ((Command.seq (self.prepareCommands job eid now)).run s) =
        (.ok (b, r), s₁) ∧ trace job.id s' = trace job.id s₁ := by
  cases hperform : (({ self with execution := some ⟨eid, job.id, now, now⟩ } : Worker).performJob
      job queue outcome userCode now fuel).run
        ((Command.seq (self.prepareCommands job eid now)).run s) with
  | mk x s₁ =>
  cases x with
  | ok a =>
    obtain ⟨b', r⟩ := a
    obtain ⟨self'', s'', hrun, htrace⟩ := run_executeJob hperform
    rw [hrun] at h
    cases h
    exact ⟨r, s₁, rfl, htrace⟩
  | error e =>
    -- the exception stays one
    exfalso
    have hattempting := run_attempting_error hperform
    unfold executeJob at h
    rw [Prog.run_bind_ok (self.run_prepareExecution job eid now s)] at h
    split at hattempting
    · rw [Prog.run_bind_error hattempting] at h
      cases h
    · rw [Prog.run_bind_ok hattempting, Prog.run_bind] at h
      split at h <;> cases h

end Worker

end RedisQueue
