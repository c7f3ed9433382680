import RedisQueue.Execution

/-!
# Jobs

The methods of `Job` (`rq/job.py`) that move a job between its states, with the registry methods
they call. Methods that take a pipeline return it; methods that mutate the object return the object.
-/

namespace RedisQueue
namespace Job

/-! ## Status -/

/-- `Job.get_status` -/
def getStatus (self : Job) (refresh : Bool) : Redis (JobStatus × Job) :=
  if refresh then do
    let status ← Prog.read fun s => (s.val (.job self.id)).status
    match status with
    | none => .throw (.invalidJobOperation s!"Failed to retrieve status for job: {self.id}")
    | some status => return (status, { self with status := status })
  else return (self.status, self)

/-- `Job.set_status` -/
def setStatus (self : Job) (status : JobStatus) (pipeline : Client) : Redis (Job × Client) := do
  let pipeline ← pipeline.command (hset self.id { status := some status })
  return ({ self with status := status }, pipeline)

/-- The properties `is_finished`, `is_queued`, …: each of them reads the stored status, which becomes
that of the object. -/
def isStatus (self : Job) (status : JobStatus) : Redis (Bool × Job) := do
  let (current, self) ← self.getStatus true
  return (current == status, self)

/-! ## Saving and fetching -/

/-- `Job.to_dict`. Python writes an empty string for `None` in the fields that are always there,
and leaves the other fields out. -/
def toDict (self : Job) (includeMeta : Bool) : JobHash where
  data := some self.data
  origin := if self.origin = "" then none else some self.origin
  status := some self.status
  dependencyIds := if self.dependencyIds = [] then none else some self.dependencyIds
  allowDependencyFailures := self.allowDependencyFailures
  enqueueAtFront := self.enqueueAtFront
  ttl := self.ttl.bind fun ttl => if h : ttl ≠ 0 then some ⟨ttl, h⟩ else none
  resultTtl := self.resultTtl
  failureTtl := self.failureTtl
  timeout := self.timeout
  retriesLeft := self.retriesLeft
  retryIntervals := self.retryIntervals
  enqueueAtFrontOnRetry := if self.enqueueAtFrontOnRetry then some true else none
  numberOfRetries := self.numberOfRetries
  repeatsLeft := self.repeatsLeft
  repeatIntervals := self.repeatIntervals
  failureCallbackName := some self.failureCallbackName
  groupId := some self.groupId
  workerName := some self.workerName
  enqueuedAt := self.enqueuedAt
  startedAt := some self.startedAt
  endedAt := some self.endedAt
  lastHeartbeat := some self.lastHeartbeat
  metadata := if includeMeta then self.metadata else none

/-- `Job.restore` on a fresh object. The message of the exception goes on with the hash, which is
left out. -/
def restore (id : JobId) (obj : JobHash) : Except PyError Job :=
  match obj.data with
  | none => .error (.noSuchJobError "Unexpected job format")
  | some data => .ok {
      id := id
      data := data
      origin := obj.origin.getD ""
      status := obj.status.getD .created
      dependencyIds := obj.dependencyIds.getD []
      allowDependencyFailures := obj.allowDependencyFailures
      enqueueAtFront := obj.enqueueAtFront
      ttl := obj.ttl.map Subtype.val
      resultTtl := obj.resultTtl
      failureTtl := obj.failureTtl
      timeout := obj.timeout
      retriesLeft := obj.retriesLeft
      retryIntervals := obj.retryIntervals
      enqueueAtFrontOnRetry := obj.enqueueAtFrontOnRetry.getD false
      numberOfRetries := obj.numberOfRetries
      repeatsLeft := obj.repeatsLeft
      repeatIntervals := obj.repeatIntervals
      failureCallbackName := obj.failureCallbackName.join
      groupId := obj.groupId.join
      workerName := obj.workerName.join
      enqueuedAt := obj.enqueuedAt
      startedAt := obj.startedAt.join
      endedAt := obj.endedAt.join
      lastHeartbeat := obj.lastHeartbeat.join
      metadata := obj.metadata }

/-- `Job.save` -/
def save (self : Job) (pipeline : Client) (includeMeta : Bool := true) : Redis Client :=
  pipeline.command (hset self.id (self.toDict includeMeta))

/-- `Job.fetch` -/
def fetch (id : JobId) : Redis Job := do
  let data ← Prog.read fun s => s.val (.job id)
  if data = default then .throw (.noSuchJobError s!"No such job: rq:job:{id}")
  else Prog.ofExcept (restore id data)

def restoreMany : List (JobId × JobHash) → Except PyError (List (Option Job))
  | [] => .ok []
  | (id, data) :: rest =>
    if data = default then do
      let jobs ← restoreMany rest
      return none :: jobs
    else do
      let job ← restore id data
      let jobs ← restoreMany rest
      return some job :: jobs

/-- `Job.fetch_many`: one transaction reads all the hashes. -/
def fetchMany (ids : List JobId) : Redis (List (Option Job)) := do
  let results ← Prog.read fun s => ids.map fun id => (id, s.val (.job id))
  Prog.ofExcept (restoreMany results)

/-! ## Deletion and clean-up -/

/-- `BaseRegistry.remove`, called with a job that stays as it is. -/
def leave (self : Job) (kind : RegistryKind) (pipeline : Client) : Redis (Job × Client) := do
  let pipeline ← pipeline.command (zrem kind self.origin self.id)
  return (self, pipeline)

/-- `self.is_failed or self.is_stopped` -/
def isFailedOrStopped (self : Job) : Redis (Bool × Job) := do
  let (isFailed, self) ← self.isStatus .failed
  if isFailed then return (true, self) else self.isStatus .stopped

/-- The part of `Job._remove_from_registries` about the registry named by the stored status, which
every test reads anew. -/
def leaveRegistry (self : Job) (pipeline : Client) (now : Time) : Redis (Job × Client) := do
  let (isFinished, self) ← self.isStatus .finished
  if isFinished then self.leave .finished pipeline
  else
    let (isDeferred, self) ← self.isStatus .deferred
    if isDeferred then self.leave .deferred pipeline
    else
      let (isStarted, self) ← self.isStatus .started
      if isStarted then
        let pipeline ← removeExecutions self pipeline now
        return (self, pipeline)
      else
        let (isScheduled, self) ← self.isStatus .scheduled
        if isScheduled then self.leave .scheduled pipeline
        else
          let (isFailedOrStopped, self) ← self.isFailedOrStopped
          if isFailedOrStopped then self.leave .failed pipeline
          else
            let (isCanceled, self) ← self.isStatus .canceled
            if isCanceled then self.leave .canceled pipeline else return (self, pipeline)

/-- `Job._remove_from_registries` -/
def _removeFromRegistries (self : Job) (pipeline : Client) (removeFromQueue : Bool) (now : Time) :
    Redis (Job × Client) := do
  let pipeline ← if removeFromQueue
    then pipeline.command (lrem (queueKey self.origin) self.id) else pure pipeline
  self.leaveRegistry pipeline now

/-- `Group.fetch` and `Group.delete_job`. -/
def leaveGroup (self : Job) (groupId : String) (pipeline : Client) : Redis Client := do
  let present ← Prog.read fun s => decide ((s.val (.group groupId)).elems ≠ [])
  if present then
    pipeline.command (.alter (.group groupId) fun g => g.erase self.id)
  else .throw .noSuchGroupError

/-- `Job.delete` with `delete_dependents=False`. -/
def delete (self : Job) (pipeline : Client) (removeFromQueue : Bool) (now : Time) :
    Redis (Job × Client) := do
  let (self, pipeline) ← self._removeFromRegistries pipeline removeFromQueue now
  let pipeline ← ExecutionRegistry.delete self pipeline now
  let pipeline ← match self.groupId with
    | some groupId => self.leaveGroup groupId pipeline
    | none => pure pipeline
  let pipeline ← pipeline.command (.seq [.del (.job self.id), .del (.dependents self.id),
    .del (.dependencies self.id)])
  return (self, pipeline)

/-- `Job.cleanup` -/
def cleanup (self : Job) (ttl : Option ℤ) (pipeline : Client) (removeFromQueue : Bool)
    (now : Time) : Redis (Job × Client) :=
  match ttl with
  | none => return (self, pipeline)
  | some ttl =>
    if ttl = 0 then self.delete pipeline removeFromQueue now
    else if ttl > 0 then do
      let pipeline ← pipeline.command (.expire (.job self.id) (now + ttl))
      let pipeline ← pipeline.command (.expire (.dependents self.id) (now + ttl))
      let pipeline ← pipeline.command (.expire (.dependencies self.id) (now + ttl))
      return (self, pipeline)
    else return (self, pipeline)

/-! ## Execution -/

/-- `Job.heartbeat` -/
def heartbeat (self : Job) (pipeline : Client) (now : Time) : Redis (Job × Client) := do
  let pipeline ← pipeline.command (hset self.id { lastHeartbeat := some (some now) })
  return ({ self with lastHeartbeat := some now }, pipeline)

/-- `Job.prepare_for_execution` -/
def prepareForExecution (self : Job) (workerName : WorkerName) (pipeline : Client) (now : Time) :
    Redis (Job × Client) := do
  let pipeline ← pipeline.command (hset self.id {
    lastHeartbeat := some (some now), status := some .started, startedAt := some (some now),
    workerName := some (some workerName) })
  return ({ self with
    workerName := some workerName, lastHeartbeat := some now, startedAt := some now,
    status := .started }, pipeline)

/-- `Job.get_result_ttl` -/
def getResultTtl (self : Job) (defaultTtl : ℤ) : ℤ := self.resultTtl.getD defaultTtl

/-- `Job.should_enqueue_at_front` -/
def shouldEnqueueAtFront (self : Job) : Bool :=
  if self.enqueueAtFrontOnRetry && self.endedAt.isSome then true
  else self.enqueueAtFront.getD false

/-- `DEFAULT_FAILURE_TTL` -/
def defaultFailureTtl : ℤ := 31536000

/-- `FailedJobRegistry.add` on a pipeline. -/
def addToFailed (self : Job) (ttl : Option ℤ) (pipeline : Client) (now : Time) :
    Redis (Job × Client) := do
  let ttl := ttl.getD defaultFailureTtl
  let score : Score := if ttl < 0 then (ttl : ℤ) else ((now + ttl : ℤ) : Score)
  let pipeline ← self.save pipeline false
  let (self, pipeline) ← self.cleanup (some ttl) pipeline true now
  let pipeline ← pipeline.command (zadd .failed self.origin self.id score)
  return (self, pipeline)

/-- What a result records about the execution that produced it. -/
structure ExecutionInfo where
  workerName : WorkerName := ""
  executionId : Option ExecutionId := none
  executionStartedAt : Option Time := none
  executionEndedAt : Option Time := none
deriving DecidableEq, Repr

/-- `Result.create`, and `create_failure`, `create_retried`, … -/
def createResult (self : Job) (type : ResultType) (ttl : Option ℤ)
    (returnValue excString : Option String) (info : ExecutionInfo) (pipeline : Client)
    (now : Time) : Redis Client :=
  Result.save {
    type := type, returnValue := returnValue, excString := excString,
    workerName := info.workerName, executionId := info.executionId,
    executionStartedAt := info.executionStartedAt,
    executionEndedAt := info.executionEndedAt } self.id ttl pipeline now

/-- `Job._handle_success` -/
def _handleSuccess (self : Job) (resultTtl : ℤ) (pipeline : Client) (info : ExecutionInfo)
    (now : Time) : Redis (Job × Client) := do
  let (self, pipeline) ← self.setStatus .finished pipeline
  let pipeline ← self.save pipeline false
  let pipeline ← self.createResult .successful (some resultTtl) self.result none info pipeline now
  if resultTtl ≠ 0 then
    let pipeline ← pipeline.command
      (zadd .finished self.origin self.id (registryScore resultTtl now))
    return (self, pipeline)
  else return (self, pipeline)

/-- `Job._handle_failure` -/
def _handleFailure (self : Job) (excString : String) (pipeline : Client) (info : ExecutionInfo)
    (now : Time) : Redis (Job × Client) := do
  let (self, pipeline) ← self.addToFailed self.failureTtl pipeline now
  let pipeline ←
    self.createResult .failed self.failureTtl none (some excString) info pipeline now
  return (self, pipeline)

/-- `Job.get_retry_interval` -/
def getRetryInterval (self : Job) : Except PyError ℕ :=
  match self.retryIntervals with
  | none => .ok 0
  | some intervals =>
    match self.retriesLeft with
    | none => .error .assertionError
    | some 0 => .error .assertionError
    | some retriesLeft =>
      match intervals[intervals.length - retriesLeft]? with
      | some interval => .ok interval
      | none => .error .indexError

/-- `Job.should_retry` -/
def shouldRetry (self : Job) : Bool := decide (0 < self.retriesLeft.getD 0)

/-! ## Dependencies -/

/-- `DeferredJobRegistry.add` and the loop of `Job.register_dependency`. -/
def registerDependencyLoop (self : Job) : List JobId → Client → Redis Client
  | [], pipeline => return pipeline
  | dependencyId :: rest, pipeline => do
    let pipeline ← pipeline.command (.alter (.dependents dependencyId) fun d => d.insert self.id)
    let pipeline ← pipeline.command (.alter (.dependencies self.id) fun d => d.insert dependencyId)
    registerDependencyLoop self rest pipeline

/-- `Job.register_dependency` -/
def registerDependency (self : Job) (pipeline : Client) (now : Time) : Redis Client := do
  let pipeline ← pipeline.command (zadd .deferred self.origin self.id (now : ℤ))
  self.registerDependencyLoop self.dependencyIds pipeline

/-- `Job.fetch_dependencies`. The hashes are fetched through the connection, not the pipeline. -/
def fetchDependencies (self : Job) (watch : Bool) (pipeline : Client) :
    Redis (List Job × Client) := do
  let pipeline : Client ← match pipeline with
    | some pipe =>
      if watch && !self.dependencyIds.isEmpty then
        some <$> pipe.watch (self.dependencyIds.map Key.job)
      else pure (some pipe)
    | none => pure none
  let jobs ← fetchMany self.dependencyIds
  return (jobs.reduceOption, pipeline)

/-- The statuses a dependency may have for `dependencies_are_met`. -/
def allowedStatuses (self : Job) : List JobStatus :=
  if self.allowDependencyFailures = some true then [.finished, .failed] else [.finished]

/-- A status that is missing does not count. -/
def statusAllowed (self : Job) (status : Option JobStatus) : Bool :=
  match status with
  | none => true
  | some status => status ∈ self.allowedStatuses

/-- The end of `Job.dependencies_are_met`: one transaction reads the statuses of `ids`. -/
def statusesAreAllowed (self : Job) (ids : List JobId) : Redis Bool :=
  .read fun s => ids.all fun id => self.statusAllowed (s.val (.job id)).status

/-- `dependencies_ids.discard(exclude_job_id)` -/
def dropExcluded (excludeJobId : Option JobId) (ids : List JobId) : List JobId :=
  match excludeJobId with
  | some exclude => ids.filter (· ≠ exclude)
  | none => ids

/-- `Job.dependencies_are_met`. Also returns `parent_job`, whose status it may refresh. -/
def dependenciesAreMet (self : Job) (parentJob : Option Job) (pipeline : Client)
    (excludeJobId : Option JobId) (refreshJobStatus : Bool) :
    Redis (Bool × Option Job × Client) := do
  let pipeline : Client ← match pipeline with
    | some pipe => some <$> pipe.watch (self.dependencyIds.map Key.job)
    | none => pure none
  let dependencyIds ← pipeline.query fun s => (s.val (.dependencies self.id)).elems
  let excluded := excludeJobId.isSome && parentJob.map Job.id == excludeJobId
  let dependencyIds := dropExcluded excludeJobId dependencyIds
  match parentJob, excluded with
  | some parent, false => do
    let dependencyIds := dependencyIds.filter (· ≠ parent.id)
    let (parentStatus, parent) ← parent.getStatus refreshJobStatus
    if parentStatus = .canceled ∨ parentStatus = .stopped then
      return (false, some parent, pipeline)
    else if parentStatus = .failed ∧ self.allowDependencyFailures ≠ some true then
      return (false, some parent, pipeline)
    else if dependencyIds = [] then return (true, some parent, pipeline)
    else
      let met ← self.statusesAreAllowed dependencyIds
      return (met, some parent, pipeline)
  | parentJob, _ => do
    let met ← self.statusesAreAllowed dependencyIds
    return (met, parentJob, pipeline)

end Job

/-- `Group._add_jobs`. The set `rq:groups` of the names of all groups is left out. -/
def Group.addJobs (name : String) (ids : List JobId) (pipe : Pipeline Key Value) : Redis Unit :=
  if ids = [] then
    .throw (.responseError "wrong number of arguments for 'sadd' command")
  else do
    let pipe ← pipe.command (.alter (.group name) fun g => ids.foldl RSet.insert g)
    let _ ← pipe.execute
    return ()

end RedisQueue
