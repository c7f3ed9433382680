import RedisQueue.Queue

/-!
# Workers

The life of one execution (`rq/worker/base.py`, `rq/worker/worker_classes.py`, `rq/executions.py`):

* the parent prepares an execution, forks a work horse and accounts for its death;
* the work horse prepares the job, runs its function and hands the outcome to one of
  `handleJobSuccess`, `handleJobRetry` and `handleJobFailure`.

What user code does (the function of the job, callbacks, exception handlers) is a parameter.
-/

namespace RedisQueue

/-- `try` … `except Exception`. Running out of iterations is not an exception. -/
def catching {α : Type} (p : Redis α) (handler : PyError → Redis α) : Redis α :=
  p.tryCatch fun e => if e = .stillRunning then .throw e else handler e

/-- The exceptions of a program as values. -/
def attempting {α : Type} (p : Redis α) : Redis (Except PyError α) :=
  catching (do let a ← p; return .ok a) fun e => return .error e

namespace Worker

/-! ## The worker hash -/

/-- `BaseWorker.get_heartbeat_ttl` -/
def getHeartbeatTtl (self : Worker) (job : Job) : ℤ :=
  match job.timeout with
  | none => self.jobMonitoringInterval + 60
  | some timeout =>
    if 0 < timeout then
      min (timeout - self.currentJobWorkingTime) self.jobMonitoringInterval + 60
    else self.jobMonitoringInterval + 60

/-- `BaseWorker.set_state` -/
def setState (self : Worker) (state : String) : Command Key Value :=
  hsetWorker self.name fun h => { h with state := some state }

/-- `BaseWorker.set_current_job_id` -/
def setCurrentJobId (self : Worker) (jobId : Option JobId) : Command Key Value :=
  hsetWorker self.name fun h => { h with currentJob := jobId }

/-- `BaseWorker.set_current_job_working_time` -/
def setCurrentJobWorkingTime (self : Worker) (time : ℤ) (pipeline : Client) :
    Redis (Worker × Client) := do
  let pipeline ← pipeline.command
    (hsetWorker self.name fun h => { h with currentJobWorkingTime := some time })
  return ({ self with currentJobWorkingTime := time }, pipeline)

/-- `BaseWorker.heartbeat` -/
def heartbeat (self : Worker) (timeout : ℤ) (pipeline : Client) (now : Time) : Redis Client := do
  let pipeline ← pipeline.command
    (hsetWorker self.name fun h => { h with lastHeartbeat := some now })
  pipeline.command (expire (.worker self.name) timeout now)

/-- `BaseWorker.increment_successful_job_count` -/
def incrementSuccessfulJobCount (self : Worker) : Command Key Value :=
  hsetWorker self.name fun h => { h with successfulJobCount := h.successfulJobCount + 1 }

/-- `BaseWorker.increment_failed_job_count` -/
def incrementFailedJobCount (self : Worker) : Command Key Value :=
  hsetWorker self.name fun h => { h with failedJobCount := h.failedJobCount + 1 }

/-- `BaseWorker.increment_total_working_time` -/
def incrementTotalWorkingTime (self : Worker) (time : ℤ) : Command Key Value :=
  hsetWorker self.name fun h => { h with totalWorkingTime := h.totalWorkingTime + time }

/-! ## The beginning of an execution -/

/-- `prepare_execution`, run by the parent. `id` is the fresh id of the execution. -/
def prepareExecution (self : Worker) (job : Job) (id : ExecutionId) (now : Time) :
    Redis Worker := do
  let (execution, pipeline) ← Execution.create job (self.getHeartbeatTtl job) (some {}) id now
  let pipeline ← pipeline.command (self.setState "busy")
  let _ ← (pipeline.getD {}).execute
  return { self with execution := some execution }

/-- `cleanup_execution` -/
def cleanupExecution (self : Worker) (job : Job) (pipeline : Client) :
    Redis (Worker × Client) := do
  let pipeline ← pipeline.command (self.setCurrentJobId none)
  match self.execution with
  | none => return (self, pipeline)
  | some execution => do
    let pipeline ← execution.delete job pipeline
    return ({ self with execution := none }, pipeline)

/-- `BaseWorker.prepare_job_execution`, run by the work horse. -/
def prepareJobExecution (self : Worker) (job : Job) (removeFromIntermediateQueue : Bool)
    (now : Time) : Redis (Worker × Job) := do
  let pipeline : Client := some {}
  let pipeline ← pipeline.command (self.setCurrentJobId (some job.id))
  let (self, pipeline) ← self.setCurrentJobWorkingTime 0 pipeline
  let heartbeatTtl := self.getHeartbeatTtl job
  let pipeline ← self.heartbeat heartbeatTtl pipeline now
  let (job, pipeline) ← job.heartbeat pipeline now
  let (job, pipeline) ← job.prepareForExecution self.name pipeline now
  let pipeline ← if removeFromIntermediateQueue
    then pipeline.command (lrem (intermediateQueueKey (queueKey job.origin)) job.id)
    else pure pipeline
  let _ ← (pipeline.getD {}).execute
  return (self, job)

/-- `BaseWorker.handle_execution_ended` -/
def handleExecutionEnded (job : Job) (now : Time) : Redis Job := do
  let job := { job with endedAt := some now }
  let (job, _) ← job.heartbeat none now
  return job

/-- What a result records about the execution of the worker. -/
def executionInfo (self : Worker) (job : Job) : Job.ExecutionInfo where
  workerName := self.name
  executionId := self.execution.map Execution.id
  executionStartedAt := self.execution.map Execution.createdAt
  executionEndedAt := job.endedAt

/-- `job.ended_at - job.started_at` -/
def workingTime (job : Job) : Except PyError ℤ :=
  match job.startedAt, job.endedAt with
  | some startedAt, some endedAt => .ok (endedAt - startedAt)
  | _, _ => .error .typeError

/-! ## The outcomes -/

/-- `BaseWorker.handle_job_failure` -/
def handleJobFailure (self : Worker) (job : Job) (queue : Queue) (excString : String) (now : Time)
    (fuel : ℕ) : Redis (Worker × Job) := do
  let pipeline : Client := some {}
  let jobIsStopped := self.stoppedJobId == some job.id
  let retry := job.shouldRetry && !jobIsStopped
  let (self, job, pipeline) ← if jobIsStopped then do
      let (job, pipeline) ← job.setStatus .stopped pipeline
      pure ({ self with stoppedJobId := none }, job, pipeline)
    else if !retry then do
      let (job, pipeline) ← job.setStatus .failed pipeline
      pure (self, job, pipeline)
    else pure (self, job, pipeline)
  let info := self.executionInfo job
  let (self, pipeline) ← self.cleanupExecution job pipeline
  let (job, pipeline) ← if !self.disableDefaultExceptionHandler && !retry then do
      let (job, pipeline) ← job._handleFailure excString pipeline info now
      let _ ← (pipeline.getD {}).execute
      pure (job, (some {} : Client))
    else pure (job, pipeline)
  let pipeline ← Client.command pipeline self.incrementFailedJobCount
  let pipeline : Client ← match workingTime job with
    | .ok time => pipeline.command (self.incrementTotalWorkingTime time)
    | .error _ => pure pipeline
  let (job, pipeline) ← if retry then job.retry queue pipeline now else pure (job, pipeline)
  let job ← catching
    (do
      let _ ← (pipeline.getD {}).execute
      if !retry then
        let (job, _) ← queue.enqueueDependents job none none true now fuel
        return job
      else return job)
    fun _ => return job
  return (self, job)

/-- `BaseWorker.handle_job_retry` -/
def handleJobRetry (self : Worker) (job : Job) (queue : Queue) (retry : Retry)
    (execution : Execution) (now : Time) (fuel : ℕ) : Redis (Worker × Job) := do
  if job.endedAt.isNone then .throw .assertionError
  else
    let info : Job.ExecutionInfo :=
      ⟨self.name, some execution.id, some execution.createdAt, job.endedAt⟩
    let numberOfRetries := job.numberOfRetries.getD 0
    if numberOfRetries ≠ 0 ∧ retry.max ≤ numberOfRetries then
      let (job, pipeline) ← job.setStatus .failed (some {})
      let (self, pipeline) ← self.cleanupExecution job pipeline
      let (job, pipeline) ← job.addToFailed job.failureTtl pipeline now
      let pipeline ←
        job.createResult .maxRetriesExceeded job.failureTtl (some "Retry") none info pipeline now
      let pipeline ← pipeline.command self.incrementFailedJobCount
      let time ← Prog.ofExcept (workingTime job)
      let pipeline ← pipeline.command (self.incrementTotalWorkingTime time)
      let job ← catching
        (do
          let _ ← (pipeline.getD {}).execute
          let (job, _) ← queue.enqueueDependents job none none true now fuel
          return job)
        fun _ => return job
      return (self, job)
    else
      let pipeline ← Client.command (some {}) self.incrementFailedJobCount
      let time ← Prog.ofExcept (workingTime job)
      let pipeline ← pipeline.command (self.incrementTotalWorkingTime time)
      let (job, pipeline) ← job._handleRetryResult queue pipeline retry info now
      let (self, pipeline) ← self.cleanupExecution job pipeline
      let _ ← (pipeline.getD {}).execute
      return (self, job)

/-- The result of a successful job is kept unless its TTL is zero. -/
def recordResult (self : Worker) (job : Job) (resultTtl : ℤ) (pipeline : Client) (now : Time) :
    Redis (Job × Client) :=
  if resultTtl ≠ 0 then job._handleSuccess resultTtl pipeline (self.executionInfo job) now
  else return (job, pipeline)

/-- A successful job is repeated or cleaned up. -/
def repeatOrCleanup (self : Worker) (job : Job) (queue : Queue) (resultTtl : ℤ)
    (pipeline : Client) (now : Time) : Redis (Job × Client) :=
  if 0 < job.repeatsLeft.getD 0 then Repeat.schedule job queue self.zone pipeline now
  else job.cleanup (some resultTtl) pipeline false now

/-- The part of one iteration of `BaseWorker.handle_job_success` after the dependents have been
enqueued, up to `pipeline.execute()`. -/
def recordSuccess (self : Worker) (job : Job) (queue : Queue) (pipeline : Client) (now : Time) :
    Redis (Worker × Job × Client) := do
  let pipeline ← pipeline.command self.incrementSuccessfulJobCount
  let time ← Prog.ofExcept (workingTime job)
  let pipeline ← pipeline.command (self.incrementTotalWorkingTime time)
  let resultTtl := job.getResultTtl self.defaultResultTtl
  let (job, pipeline) ← self.recordResult job resultTtl pipeline now
  let (job, pipeline) ← self.repeatOrCleanup job queue resultTtl pipeline now
  let (self, pipeline) ← self.cleanupExecution job pipeline
  return (self, job, pipeline)

/-- `enqueue_dependents` has called `multi()` unless the job has no dependents. -/
def startTransaction (pipe : Pipeline Key Value) : Redis (Pipeline Key Value) :=
  if pipe.explicitTransaction then return pipe else pipe.multi

/-- One iteration of `BaseWorker.handle_job_success` up to `pipeline.multi()`. -/
def beginSuccess (job : Job) (queue : Queue) (now : Time) : Redis (Job × Pipeline Key Value) := do
  let pipe ← Pipeline.watch {} [.dependents job.id]
  let (job, pipeline) ← queue.enqueueDependents job (some pipe) none true now 0
  let pipe ← startTransaction (pipeline.getD {})
  return (job, pipe)

/-- One iteration of `BaseWorker.handle_job_success` up to `pipeline.execute()`. -/
def handleJobSuccessAttempt (self : Worker) (job : Job) (queue : Queue) (now : Time) :
    Redis (Worker × Job × Client) := do
  let (job, pipe) ← beginSuccess job queue now
  self.recordSuccess job queue (some pipe) now

/-- The loop of `BaseWorker.handle_job_success`. After a `WatchError` it goes on with the objects
as the last iteration left them, and an exception leaves behind the objects it found. -/
def handleJobSuccessLoop (queue : Queue) (now : Time) :
    ℕ → Worker → Job → Redis (Except PyError Unit × Worker × Job)
  | 0, _, _ => .throw .stillRunning
  | fuel + 1, self, job => do
    let r ← attempting (self.handleJobSuccessAttempt job queue now)
    match r with
    | .error e => return (.error e, self, job)
    | .ok (self, job, pipeline) => do
      let committed ← (pipeline.getD {}).execute
      if committed then return (.ok (), self, job)
      else handleJobSuccessLoop queue now fuel self job

/-- `BaseWorker.handle_job_success` -/
def handleJobSuccess (self : Worker) (job : Job) (queue : Queue) (now : Time) (fuel : ℕ) :
    Redis (Worker × Job) := do
  let (r, self, job) ← handleJobSuccessLoop queue now fuel self job
  Prog.ofExcept r
  return (self, job)

/-! ## The work horse -/

/-- What the function of a job does. -/
inductive Outcome where
  | returned (value : Option String)
  | retry (retry : Retry)
  | raised (excString : String)
deriving DecidableEq, Repr

/-- What the callbacks of a job and the exception handlers of a worker raise, if anything. -/
structure UserCode where
  successCallback : Option String := none
  failureCallback : Option String := none
  exceptionHandler : Option String := none
deriving DecidableEq, Repr

/-- The `except` block of `BaseWorker.perform_job`. -/
def performJobExcept (self : Worker) (job : Job) (queue : Queue) (excString : String)
    (userCode : UserCode) (now : Time) (fuel : ℕ) : Redis (Bool × Worker × Job) := do
  let job := { job with status := .failed }
  let job ← handleExecutionEnded job now
  let excString := userCode.failureCallback.getD excString
  match userCode.exceptionHandler with
  | some e => .throw (.userError e)
  | none => do
    let (self, job) ← self.handleJobFailure job queue excString now fuel
    return (false, self, job)

/-- The text of an exception. -/
def excText : PyError → String
  | .userError msg => msg
  | _ => "Traceback"

/-- `BaseWorker.perform_job` -/
def performJob (self : Worker) (job : Job) (queue : Queue) (outcome : Outcome)
    (userCode : UserCode) (now : Time) (fuel : ℕ) : Redis (Bool × Worker × Job) := do
  let (self, job) ← self.prepareJobExecution job (self.queues.length = 1) now
  let job := { job with startedAt := some now }
  Prog.perform (Command.persist (.job job.id)).run
  match outcome with
  | .raised excString => self.performJobExcept job queue excString userCode now fuel
  | .retry retry => do
    let job ← handleExecutionEnded job now
    let job := { job with result := some "Retry" }
    match self.execution with
    | none => self.performJobExcept job queue (excText .assertionError) userCode now fuel
    | some execution => do
      let r ← attempting (self.handleJobRetry job queue retry execution now fuel)
      match r with
      | .ok (self, job) => return (true, self, job)
      | .error e => self.performJobExcept job queue (excText e) userCode now fuel
  | .returned value => do
    let job ← handleExecutionEnded job now
    let job := { job with result := value, status := .finished }
    match userCode.successCallback with
    | some excString => self.performJobExcept job queue excString userCode now fuel
    | none => do
      let (r, self, job) ← handleJobSuccessLoop queue now fuel self job
      match r with
      | .ok () => return (true, self, job)
      | .error e => self.performJobExcept job queue (excText e) userCode now fuel

/-! ## The parent -/

/-- `Worker.monitor_work_horse` from the moment the work horse has ended with status `retVal`.
`startedAt` is when the monitoring began; `stoppedCallback` and `killedHandler` are what the stopped
callback and the `work_horse_killed` handler raise, if anything. -/
def monitorWorkHorse (self : Worker) (job : Job) (queue : Queue) (retVal : ℤ)
    (stoppedCallback killedHandler : Option String) (startedAt now : Time) (fuel : ℕ) :
    Redis (Worker × Job) := do
  let job := { job with startedAt := some startedAt }
  let (self, _) ← self.setCurrentJobWorkingTime 0 none
  if retVal = 0 then return (self, job)
  else
    let status ← attempting (job.getStatus true)
    match status with
    | .error (.invalidJobOperation _) => return (self, job)
    | .error e => .throw e
    | .ok (jobStatus, job) =>
      if self.stoppedJobId = some job.id then
        match stoppedCallback with
        | some e => .throw (.userError e)
        | none =>
          self.handleJobFailure job queue "Job stopped by user, work-horse terminated." now fuel
      else if jobStatus ≠ .finished ∧ jobStatus ≠ .failed then
        let job := { job with endedAt := some now }
        match killedHandler with
        | some e => .throw (.userError e)
        | none =>
          let excString := s!"Work-horse terminated unexpectedly; waitpid returned {retVal}; "
          self.handleJobFailure job queue excString now fuel
      else return (self, job)

end Worker
end RedisQueue
