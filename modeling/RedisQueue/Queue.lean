import RedisQueue.Job

/-!
# Queues

Enqueueing, scheduling, deferring and releasing jobs (`rq/queue.py`, `rq/scripts.py`,
`rq/dependency.py`), and the methods of `Job`, `Repeat` and the registries that enqueue a job.

A `while True` loop around a transaction takes a bound `fuel` on the number of its iterations; a
program that reaches the bound ends with `PyError.stillRunning`.
-/

namespace RedisQueue

/-! ## `rq/scripts.py` -/

/-- The commands of both scripts after the check that the hash does not exist. -/
def saveCommands (job : Job) (now : Time) : List (Command Key Value) :=
  [hset job.id (job.toDict true),
    if 0 < job.ttl.getD (-1) then .expire (.job job.id) (now + job.ttl.getD (-1)) else .seq []]

/-- A script that runs `commands` unless the hash of the job exists. -/
def runUnique (job : Job) (commands : List (Command Key Value)) : Redis Unit :=
  .step (fun s => if s.val (.job job.id) = default then (Command.seq commands).run s else s)
    fun s => if s.val (.job job.id) = default then .ret ()
      else .throw (.duplicateJobError s!"Job with ID '{job.id}' already exists")

/-- `save_unique_job` -/
def saveUniqueJob (queueKey : String) (job : Job) (atFront : Bool) (now : Time) : Redis Unit :=
  runUnique job (saveCommands job now ++ [push queueKey atFront job.id])

/-- `schedule_unique_job` -/
def scheduleUniqueJob (queue : Queue) (job : Job) (timestamp : Time) (now : Time) : Redis Unit :=
  runUnique job (saveCommands job now ++ [zadd .scheduled queue.name job.id (timestamp : ℤ),
    .alter .queues fun q => q.insert (queueKey queue.name)])

namespace Queue

def key (self : Queue) : String := queueKey self.name

/-! ## Enqueueing and scheduling -/

/-- `Queue.push_job_id` -/
def pushJobId (self : Queue) (jobId : JobId) (pipeline : Client) (atFront : Bool) : Redis Client :=
  pipeline.command (push self.key atFront jobId)

/-- `Queue._prepare_for_queue` -/
def _prepareForQueue (self : Queue) (job : Job) (now : Time) : Job :=
  { job with
    origin := self.name
    enqueuedAt := some now
    timeout := some (job.timeout.getD self.defaultTimeout)
    status := .queued }

/-- `Queue._persist_job` -/
def _persistJob (job : Job) (pipeline : Client) (status : JobStatus) (now : Time) :
    Redis (Job × Client) := do
  let (job, pipeline) ← job.setStatus status pipeline
  let pipeline ← job.save pipeline
  job.cleanup job.ttl pipeline true now

/-- The part of `Queue._enqueue_async_job` that goes through a pipeline. -/
def enqueueOnPipeline (self : Queue) (job : Job) (isDeferred : Bool) (pipeline : Client)
    (atFront : Bool) (now : Time) : Redis (Job × Client) := do
  let pipeline ← if isDeferred then pipeline.command (zrem .deferred self.name job.id)
    else pure pipeline
  let (job, pipeline) ← _persistJob job pipeline .queued now
  let pipeline ← self.pushJobId job.id pipeline atFront
  return (job, pipeline)

/-- `Queue._enqueue_job`, which is `_enqueue_async_job` on an async queue. -/
def _enqueueJob (self : Queue) (job : Job) (pipeline : Client) (atFront unique : Bool)
    (now : Time) : Redis (Job × Client) := do
  let isDeferred := job.status == .deferred
  let job := self._prepareForQueue job now
  if unique then
    saveUniqueJob self.key job atFront now
    return (job, pipeline)
  else match pipeline with
    | some pipe => self.enqueueOnPipeline job isDeferred (some pipe) atFront now
    | none => do
      let (job, pipe) ← self.enqueueOnPipeline job isDeferred (some {}) atFront now
      let _ ← (pipe.getD {}).execute
      return (job, none)

/-- `ScheduledJobRegistry.schedule`. The `ZADD` goes to the connection, whatever the pipeline. -/
def scheduledRegistrySchedule (self : Queue) (job : Job) (scheduledDatetime : Time)
    (_pipeline : Client) : Redis Unit :=
  Prog.perform (zadd .scheduled self.name job.id (scheduledDatetime : ℤ)).run

/-- The part of `Queue.schedule_job` that goes through a pipeline. -/
def scheduleOnPipeline (self : Queue) (job : Job) (datetime : Time) (pipeline : Client)
    (now : Time) : Redis (Job × Client) := do
  let pipeline ← pipeline.command (.alter .queues fun q => q.insert self.key)
  let (job, pipeline) ← _persistJob job pipeline .scheduled now
  self.scheduledRegistrySchedule job datetime pipeline
  return (job, pipeline)

/-- `Queue.schedule_job` -/
def scheduleJob (self : Queue) (job : Job) (datetime : Time) (pipeline : Client) (unique : Bool)
    (now : Time) : Redis (Job × Client) := do
  if unique then
    let job := { job with status := .scheduled }
    scheduleUniqueJob self job datetime now
    return (job, pipeline)
  else match pipeline with
    | some pipe => self.scheduleOnPipeline job datetime (some pipe) now
    | none => do
      let (job, pipe) ← self.scheduleOnPipeline job datetime (some {}) now
      let _ ← (pipe.getD {}).execute
      return (job, none)

/-! ## Dependencies -/

/-- One iteration of `Queue.setup_dependencies` up to `pipe.execute()`. The first component says
whether the job has been deferred. -/
def setupDependenciesAttempt (job : Job) (pipe : Pipeline Key Value) (now : Time) :
    Redis (Bool × Job × Client) := do
  let pipe ← pipe.watch [.dependencies job.id]
  let (dependencies, pipeline) ← job.fetchDependencies true (some pipe)
  let pipe ← (pipeline.getD {}).multi
  if dependencies.any fun dependency => dependency.status ≠ .finished then
    let (job, pipeline) ← job.setStatus .deferred (some pipe)
    let pipeline ← job.registerDependency pipeline now
    let pipeline ← job.save pipeline
    let (job, pipeline) ← job.cleanup job.ttl pipeline true now
    return (true, job, pipeline)
  else return (false, job, some pipe)

/-- `Queue.setup_dependencies` without a pipeline. -/
def setupDependenciesLoop (job : Job) (now : Time) : ℕ → Redis Job
  | 0 => .throw .stillRunning
  | fuel + 1 => do
    let (deferred, job', pipeline) ← setupDependenciesAttempt job {} now
    if deferred then
      let committed ← (pipeline.getD {}).execute
      -- after a WatchError the status of the job is reset to what it was
      if committed then return job' else setupDependenciesLoop job now fuel
    else return job'

/-- `Queue.setup_dependencies` -/
def setupDependencies (job : Job) (pipeline : Client) (now : Time) (fuel : ℕ) :
    Redis (Job × Client) := do
  match job.dependencyIds, pipeline with
  | _ :: _, none => do
    let job ← setupDependenciesLoop job now fuel
    return (job, none)
  | _ :: _, some pipe => do
    let (_, job, pipeline) ← setupDependenciesAttempt job pipe now
    return (job, pipeline)
  | [], some pipe => do
    let pipe ← if pipe.explicitTransaction then pure pipe else pipe.multi
    return (job, some pipe)
  | [], none => return (job, none)

/-- `Queue.enqueue_job` -/
def enqueueJob (self : Queue) (job : Job) (pipeline : Client) (atFront unique : Bool) (now : Time)
    (fuel : ℕ) : Redis (Job × Client) := do
  if unique && !job.dependencyIds.isEmpty then
    .throw (.valueError "unique=True is not supported with job dependencies")
  else
    let job := { job with origin := self.name }
    let (job, pipeline) ← setupDependencies job pipeline now fuel
    let pipeline : Client ← match pipeline with
      | some pipe => Client.command (some pipe) (.alter .queues fun q => q.insert self.key)
      | none => do
        let pipe ← Pipeline.command {} (.alter .queues fun q => q.insert self.key)
        let _ ← pipe.execute
        pure none
    if job.status ≠ .deferred then self._enqueueJob job pipeline atFront unique now
    else return (job, pipeline)

/-- The list comprehension of `Queue.enqueue_dependents`: the dependents that are to be enqueued,
with the parent, whose status may have been refreshed. -/
def jobsToEnqueue (excludeJobId : Option JobId) (refreshJobStatus : Bool) :
    List (Option Job) → Job → Client → Redis (List Job × Job × Client)
  | [], parent, pipeline => return ([], parent, pipeline)
  | none :: rest, parent, pipeline =>
    jobsToEnqueue excludeJobId refreshJobStatus rest parent pipeline
  | some dependent :: rest, parent, pipeline => do
    let (met, parent', pipeline) ←
      dependent.dependenciesAreMet (some parent) pipeline excludeJobId refreshJobStatus
    let (jobs, parent, pipeline) ←
      jobsToEnqueue excludeJobId refreshJobStatus rest (parent'.getD parent) pipeline
    if met && dependent.status != .canceled then return (dependent :: jobs, parent, pipeline)
    else return (jobs, parent, pipeline)

/-- The queue a dependent is enqueued on. -/
def queueFor (self : Queue) (dependent : Job) : Queue :=
  if dependent.origin = self.name then self else { name := dependent.origin }

/-- The loop `for dependent in jobs_to_enqueue` of `Queue.enqueue_dependents`. -/
def enqueueEach (self : Queue) (now : Time) : List Job → Client → Redis Client
  | [], pipeline => return pipeline
  | dependent :: rest, pipeline => do
    let enqueueAtFront := dependent.enqueueAtFront.getD false
    let pipeline ← pipeline.command (zrem .deferred dependent.origin dependent.id)
    let (_, pipeline) ← (self.queueFor dependent)._enqueueJob dependent pipeline enqueueAtFront false now
    enqueueEach self now rest pipeline

/-- One iteration of `Queue.enqueue_dependents`, between `WATCH` and `pipe.execute()`. The first
component says whether there is something to execute. -/
def enqueueDependentsAttempt (self : Queue) (job : Job) (pipeline : Client)
    (excludeJobId : Option JobId) (refreshJobStatus : Bool) (now : Time) :
    Redis (Bool × Job × Client) := do
  let dependentJobIds ← pipeline.query fun s => (s.val (.dependents job.id)).elems
  if dependentJobIds = [] then return (false, job, pipeline)
  else
    let fetched ← Job.fetchMany dependentJobIds
    let (jobs, job, pipeline) ← jobsToEnqueue excludeJobId refreshJobStatus fetched job pipeline
    let pipe ← (pipeline.getD {}).multi
    if jobs = [] then return (false, job, some pipe)
    else
      let pipeline ← self.enqueueEach now jobs (some pipe)
      let pipeline ← if jobs.length = dependentJobIds.length
        then pipeline.command (.del (.dependents job.id))
        else pipeline.command (.alter (.dependents job.id) fun d => d.eraseAll (jobs.map Job.id))
      return (true, job, pipeline)

/-- `Queue.enqueue_dependents` without a pipeline. -/
def enqueueDependentsLoop (self : Queue) (excludeJobId : Option JobId) (refreshJobStatus : Bool)
    (now : Time) : ℕ → Job → Redis Job
  | 0, _ => .throw .stillRunning
  | fuel + 1, job => do
    let pipe ← Pipeline.watch {} [.dependents job.id]
    let (pending, job, pipeline) ←
      self.enqueueDependentsAttempt job (some pipe) excludeJobId refreshJobStatus now
    if pending then
      let committed ← (pipeline.getD {}).execute
      if committed then return job
      else enqueueDependentsLoop self excludeJobId refreshJobStatus now fuel job
    else return job

/-- `Queue.enqueue_dependents` -/
def enqueueDependents (self : Queue) (job : Job) (pipeline : Client)
    (excludeJobId : Option JobId) (refreshJobStatus : Bool) (now : Time) (fuel : ℕ) :
    Redis (Job × Client) :=
  match pipeline with
  | some pipe => do
    let (_, job, pipeline) ←
      self.enqueueDependentsAttempt job (some pipe) excludeJobId refreshJobStatus now
    return (job, pipeline)
  | none => do
    let job ← self.enqueueDependentsLoop excludeJobId refreshJobStatus now fuel job
    return (job, none)

/-! ## Dequeueing -/

/-- `Queue.lmove`: one `LMOVE` or `BLMOVE` from the head of the queue to the tail of its
intermediate queue. -/
def lmove (queueKey : String) (timeout : Option ℕ) : Redis (Option (String × JobId)) :=
  if timeout = some 0 then .throw (.valueError
    "RQ does not support indefinite timeouts. Please pick a timeout value > 0")
  else .step
    (fun s => match s.val (.list queueKey) with
      | [] => s
      | id :: rest => (Command.seq [.write (.list queueKey) fun _ => rest,
          .write (.list (intermediateQueueKey queueKey)) fun l => l ++ [id]]).run s)
    fun s => match s.val (.list queueKey), timeout with
      | id :: _, _ => .ret (some (queueKey, id))
      | [], some timeout => .throw (.dequeueTimeout timeout [queueKey])
      | [], none => .ret none

/-- `LPOP`s of `Queue.lpop`, one key after the other. -/
def lpopEach : List String → Redis (Option (String × JobId))
  | [] => return none
  | key :: keys => .step (Command.alter (.list key) List.tail).run fun s =>
      match s.val (.list key) with
      | id :: _ => .ret (some (key, id))
      | [] => lpopEach keys

/-- The first nonempty list. -/
def firstNonempty (s : Store) (keys : List String) : Option (String × JobId) :=
  keys.findSome? fun key => (s.val (.list key)).head?.map fun id => (key, id)

/-- `Queue.lpop`: a sequence of `LPOP`s, or one `BLPOP`. -/
def lpop (queueKeys : List String) (timeout : Option ℕ) : Redis (Option (String × JobId)) :=
  match timeout with
  | none => lpopEach queueKeys
  | some 0 => .throw (.valueError
      "RQ does not support indefinite timeouts. Please pick a timeout value > 0")
  | some timeout => .step
      (fun s => match firstNonempty s queueKeys with
        | some (key, _) => (Command.alter (.list key) List.tail).run s
        | none => s)
      fun s => match firstNonempty s queueKeys with
        | some result => .ret (some result)
        | none => .throw (.dequeueTimeout timeout queueKeys)

/-- The test `get_version(connection) >= (6, 2, 0)`. -/
def supportsLmove (version : ℕ × ℕ × ℕ) : Bool :=
  decide (6 < version.1 ∨ version.1 = 6 ∧ 2 ≤ version.2.1)

/-- The choice of `Queue.dequeue_any` between `LMOVE` and `LPOP`. -/
def popAny (version : ℕ × ℕ × ℕ) (queueKeys : List String) (timeout : Option ℕ) :
    Redis (Option (String × JobId)) :=
  match queueKeys with
  | [queueKey] => if supportsLmove version then lmove queueKey timeout else lpop [queueKey] timeout
  | queueKeys => lpop queueKeys timeout

/-- `Queue.dequeue_any`. Ids without a job are passed over. -/
def dequeueAny (version : ℕ × ℕ × ℕ) (queueKeys : List String) (timeout : Option ℕ) :
    ℕ → Redis (Option (Job × String))
  | 0 => .throw .stillRunning
  | fuel + 1 => do
    let result ← popAny version queueKeys timeout
    match result with
    | none => return none
    | some (queueKey, jobId) => do
      let data ← Prog.read fun s => s.val (.job jobId)
      if data = default then dequeueAny version queueKeys timeout fuel
      else match Job.restore jobId data with
        | .ok job => return some (job, queueKey)
        | .error (.noSuchJobError _) => dequeueAny version queueKeys timeout fuel
        | .error e => .throw e

end Queue

/-! ## Running a job again -/

/-- `Repeat.get_interval` -/
def Repeat.getInterval (count : ℕ) (intervals : List ℕ) : Except PyError ℕ :=
  if count ≥ intervals.length then
    match intervals.getLast? with
    | some interval => .ok interval
    | none => .error .indexError
  else .ok (intervals.getD count 0)

/-- The interval that `Repeat.schedule` uses. -/
def Repeat.intervalFor (job : Job) (repeatCount : ℕ) : Except PyError ℕ :=
  match job.repeatIntervals with
  | none | some [] => .ok 0
  | some intervals => Repeat.getInterval repeatCount intervals

/-- `Repeat.schedule` on a pipeline. The time it schedules is that of `datetime.now()`, which
`ScheduledJobRegistry.schedule` converts by the local time zone. -/
def Repeat.schedule (job : Job) (queue : Queue) (zone : LocalZone) (pipeline : Client)
    (now : Time) : Redis (Job × Client) :=
  match job.repeatsLeft with
  | none | some 0 => .throw (.valueError s!"Cannot schedule job {job.id}: no repeats left")
  | some (repeatCount + 1) => do
    let interval ← Prog.ofExcept (Repeat.intervalFor job repeatCount)
    let job := { job with repeatsLeft := some repeatCount }
    let pipeline ← job.save pipeline
    if interval = 0 then queue._enqueueJob job pipeline false false now
    else
      let scheduledTime := zone.naiveNow now + interval
      queue.scheduleJob job (zone.assumedInstant scheduledTime) pipeline false now

/-- `Retry.get_interval` -/
def Retry.getInterval (count : ℕ) (intervals : List ℕ) : ℕ :=
  intervals.getD (min (intervals.length - 1) count) 0

namespace Job

/-- `Job.retry` -/
def retry (self : Job) (queue : Queue) (pipeline : Client) (now : Time) : Redis (Job × Client) := do
  let retryInterval ← Prog.ofExcept self.getRetryInterval
  match self.retriesLeft with
  | none | some 0 => .throw .assertionError
  | some (retriesLeft + 1) => do
    let job := { self with retriesLeft := some retriesLeft }
    if retryInterval ≠ 0 then
      let (job, _) ← job.setStatus .scheduled none
      queue.scheduleJob job (now + retryInterval) pipeline false now
    else queue._enqueueJob job pipeline job.enqueueAtFrontOnRetry false now

/-- `Job._handle_retry_result` -/
def _handleRetryResult (self : Job) (queue : Queue) (pipeline : Client) (retry : Retry)
    (info : ExecutionInfo) (now : Time) : Redis (Job × Client) := do
  let pipeline ← self.createResult .retried self.failureTtl (some "Retry") none info pipeline now
  let retryInterval := Retry.getInterval (self.numberOfRetries.getD 0) retry.intervals
  let job := { self with numberOfRetries := some (self.numberOfRetries.getD 0 + 1) }
  if retryInterval ≠ 0 then
    let (job, _) ← job.setStatus .scheduled none
    queue.scheduleJob job (now + retryInterval) pipeline false now
  else queue._enqueueJob job pipeline false false now

/-- `BaseRegistry.requeue` of a job that is in the registry `kind` of `name`. -/
def requeue (kind : RegistryKind) (name : QueueName) (self : Job) (atFront : Bool) (now : Time) :
    Redis Job :=
  .step (zrem kind name self.id).run fun s =>
    if self.id ∉ s.val (.registry kind name) then .throw (.invalidJobOperation "")
    else do
      let job := { self with startedAt := none, endedAt := none }
      let _ ← job.save none
      let (job, pipeline) ← Queue._enqueueJob { name := job.origin } job (some {}) atFront false now
      let _ ← (pipeline.getD {}).execute
      return job

/-- The loop over the dependencies in `Job.cancel`. -/
def leaveDependencies (self : Job) : List Job → Client → Redis Client
  | [], pipeline => return pipeline
  | dependency :: rest, pipeline => do
    let pipeline ← pipeline.command (.alter (.dependents dependency.id) fun d => d.erase self.id)
    leaveDependencies self rest pipeline

/-- One iteration of `Job.cancel` up to `pipe.execute()`; `pipeline` is the pipeline of the caller
and `pipe` the one the commands go to. -/
def cancelAttempt (self : Job) (pipeline pipe : Client) (enqueueDependents : Bool)
    (removeFromDependencies : Bool) (now : Time) (fuel : ℕ) : Redis (Job × Client) := do
  let queue : Queue := { name := self.origin }
  let (self, pipe) ← self.setStatus .canceled pipe
  let (self, pipe) ← if enqueueDependents then do
      match pipeline with
      | none => do
        let watching ← (pipe.getD {}).watch [.dependents self.id]
        let (self, _) ← queue.enqueueDependents self none (some self.id) true now fuel
        pure (self, (some watching : Client))
      | some _ => queue.enqueueDependents self pipe (some self.id) true now fuel
    else pure (self, pipe)
  let pipe ← if removeFromDependencies then do
      let (dependencies, pipe) ← self.fetchDependencies false pipe
      self.leaveDependencies dependencies pipe
    else pure pipe
  let (self, pipe) ← self._removeFromRegistries pipe true now
  let pipe ← pipe.command (zadd .canceled self.origin self.id (registryScore 0 now))
  return (self, pipe)

def cancelLoop (enqueueDependents removeFromDependencies : Bool) (now : Time) :
    ℕ → Job → Redis Job
  | 0, _ => .throw .stillRunning
  | fuel + 1, job => do
    let (job, pipe) ←
      job.cancelAttempt none (some {}) enqueueDependents removeFromDependencies now fuel
    let committed ← (pipe.getD {}).execute
    if committed then return job
    else cancelLoop enqueueDependents removeFromDependencies now fuel job

/-- `Job.cancel` -/
def cancel (self : Job) (pipeline : Client) (enqueueDependents removeFromDependencies : Bool)
    (now : Time) (fuel : ℕ) : Redis (Job × Client) := do
  let (isCanceled, self) ← self.isStatus .canceled
  if isCanceled then
    .throw (.invalidJobOperation s!"Cannot cancel already canceled job: {self.id}")
  else match pipeline with
    | some pipe =>
      self.cancelAttempt pipeline (some pipe) enqueueDependents removeFromDependencies now fuel
    | none => do
      let job ← cancelLoop enqueueDependents removeFromDependencies now fuel self
      return (job, none)

end Job
end RedisQueue
