import RedisQueue.Worker

/-!
# Entry points

The methods by which user code enqueues jobs: `Queue.enqueue_call`, `enqueue_at`, `enqueue_job` and
`enqueue_many` (`rq/queue.py`, `rq/dependency.py`) and `Group.enqueue_many` (`rq/group.py`), on
queues that may be synchronous.
-/

namespace RedisQueue

/-! ## Creating jobs -/

/-- What is given as `depends_on`. -/
structure DependsOn where
  dependencies : List JobId
  nonempty : dependencies ≠ []
  allowFailure : Option Bool := none
  enqueueAtFront : Option Bool := none

/-- A `Repeat` object. -/
structure Repeat where
  times : ℕ
  intervals : List ℕ
deriving DecidableEq, Repr

/-- `EnqueueData`, also the arguments of `enqueue_call`. `data` stands for the function and its
arguments, `uuid` is the id that is generated for a job without one. -/
structure EnqueueData where
  data : String := ""
  timeout : Option ℤ := none
  resultTtl : Option ℤ := none
  ttl : Option ℤ := none
  failureTtl : Option ℤ := none
  dependsOn : Option DependsOn := none
  jobId : Option JobId := none
  atFront : Bool := false
  metadata : Option String := none
  retry : Option Retry := none
  onFailure : Option String := none
  repeats : Option Repeat := none
  unique : Bool := false
  uuid : JobId := ""

/-- `JOB_ID_PATTERN` -/
def jobIdPattern (id : JobId) : Bool :=
  id ≠ "" && id.toList.all fun c => c.isAlphanum || c == '_' || c == '-'

namespace Queue

/-- The job that `Queue.create_job` makes of arguments that it accepts. -/
def newJob (self : Queue) (jd : EnqueueData) (status : JobStatus) (groupId : Option String) : Job where
  id := jd.jobId.getD jd.uuid
  data := jd.data
  origin := self.name
  status := status
  dependencyIds := (jd.dependsOn.map DependsOn.dependencies).getD []
  allowDependencyFailures := jd.dependsOn.bind DependsOn.allowFailure
  enqueueAtFront := jd.dependsOn.bind DependsOn.enqueueAtFront
  ttl := jd.ttl
  resultTtl := jd.resultTtl
  failureTtl := jd.failureTtl
  timeout := some (jd.timeout.getD self.defaultTimeout)
  retriesLeft := jd.retry.map Retry.max
  retryIntervals := jd.retry.map Retry.intervals
  enqueueAtFrontOnRetry := (jd.retry.map Retry.enqueueAtFront).getD false
  repeatsLeft := jd.repeats.map Repeat.times
  repeatIntervals := jd.repeats.map Repeat.intervals
  failureCallbackName := jd.onFailure
  groupId := groupId
  metadata := jd.metadata

/-- `Queue.create_job`. A time out or a time to live given as a text is already parsed. -/
def createJob (self : Queue) (jd : EnqueueData) (status : JobStatus) (groupId : Option String) :
    Except PyError Job :=
  if jd.timeout = some 0 then
    .error (.valueError "0 timeout is not allowed. Use -1 for infinite timeout")
  else if jd.ttl.any (· ≤ 0) then .error (.valueError "Job ttl must be greater than 0")
  else if jd.jobId.any fun id => !jobIdPattern id then
    .error (.valueError "Job ID must only contain letters, numbers, underscores and dashes")
  else .ok (self.newJob jd status groupId)

/-! ## Synchronous queues -/

/-- The user code of the jobs of a queue with `is_async=False`: what the function of a job raises or
returns, and what its callbacks raise. -/
structure SyncCode where
  perform : JobId → Except String (Option String) := fun _ => .ok none
  successCallback : JobId → Option String := fun _ => none
  failureCallback : JobId → Option String := fun _ => none

/-- `DEFAULT_RESULT_TTL` -/
def defaultResultTtl : ℤ := 500

/-- `Queue.run_job`. An exception leaves behind the object as it was. -/
def runJob (code : SyncCode) (job : Job) (now : Time) : Redis (Except PyError Unit × Job) := do
  Prog.perform (Command.persist (.job job.id)).run
  match code.perform job.id with
  | .error e => return (.error (.userError e), job)
  | .ok value => do
    let job := { job with result := value, endedAt := some now }
    let resultTtl := job.getResultTtl defaultResultTtl
    let r ← attempting (do
      let (job, pipeline) ← job._handleSuccess resultTtl (some {}) {} now
      let (job, pipeline) ← job.cleanup (some resultTtl) pipeline true now
      let _ ← (pipeline.getD {}).execute
      return job)
    match r with
    | .ok job => return (.ok (), job)
    | .error e => return (.error e, { job with status := .finished })

/-- What a callback raises. -/
def raising (e : Option String) (job : Job) : Redis Job :=
  match e with
  | some e => .throw (.userError e)
  | none => return job

/-- `Queue.run_sync`. The pipeline that `prepare_for_execution` uses is never executed. -/
def runSync (code : SyncCode) (job : Job) (now : Time) : Redis Job := do
  let (job, _) ← job.prepareForExecution "sync" (some {}) now
  let (r, job) ← runJob code job now
  match r with
  | .ok () => raising (code.successCallback job.id) job
  | .error e => do
    let (job, pipeline) ← job.setStatus .failed (some {})
    let (job, pipeline) ← job._handleFailure (Worker.excText e) pipeline {} now
    let _ ← (pipeline.getD {}).execute
    raising (code.failureCallback job.id) job

/-- `save_unique_job` with `enqueue=False`. -/
def saveUniqueJobOnly (job : Job) (now : Time) : Redis Unit := runUnique job (saveCommands job now)

/-- The part of `Queue._enqueue_sync_job` that goes through a pipeline. -/
def persistOnPipeline (self : Queue) (job : Job) (isDeferred : Bool) (pipeline : Client)
    (now : Time) : Redis (Job × Client) := do
  let pipeline ← if isDeferred then pipeline.command (zrem .deferred self.name job.id)
    else pure pipeline
  _persistJob job pipeline .queued now

/-- `Queue._enqueue_sync_job` -/
def _enqueueSyncJob (self : Queue) (code : SyncCode) (job : Job) (pipeline : Client)
    (unique : Bool) (now : Time) : Redis (Job × Client) := do
  let isDeferred := job.status == .deferred
  let job := self._prepareForQueue job now
  if unique then
    saveUniqueJobOnly job now
    let job ← runSync code job now
    return (job, pipeline)
  else match pipeline with
    | some pipe => do
      let (job, pipeline) ← self.persistOnPipeline job isDeferred (some pipe) now
      let job ← runSync code job now
      return (job, pipeline)
    | none => do
      let (job, pipe) ← self.persistOnPipeline job isDeferred (some {}) now
      let _ ← (pipe.getD {}).execute
      let job ← runSync code job now
      return (job, none)

/-- `Queue._enqueue_job`. `sync` is what a synchronous queue runs. -/
def _enqueueJobOn (self : Queue) (sync : Option SyncCode) (job : Job) (pipeline : Client)
    (atFront unique : Bool) (now : Time) : Redis (Job × Client) :=
  match sync with
  | none => self._enqueueJob job pipeline atFront unique now
  | some code => self._enqueueSyncJob code job pipeline unique now

/-! ## Single jobs -/

/-- `Queue.enqueue_job` -/
def enqueueJobOn (self : Queue) (sync : Option SyncCode) (job : Job) (pipeline : Client)
    (atFront unique : Bool) (now : Time) (fuel : ℕ) : Redis (Job × Client) := do
  if unique && !job.dependencyIds.isEmpty then
    .throw (.valueError "unique=True is not supported with job dependencies")
  else
    let job := { job with origin := self.name }
    let (job, pipeline) ← setupDependencies job pipeline now fuel
    let pipeline : Client ← match pipeline with
      | some pipe => Client.command (some pipe) (.alter .queues fun q => q.insert self.key)
      | none => do
        let pipe ← Pipeline.command {} (.alter .queues fun q => q.insert self.key)
        let _ ← pipe.execute
        pure none
    if job.status ≠ .deferred then self._enqueueJobOn sync job pipeline atFront unique now
    else return (job, pipeline)

/-- Whether an id has been given that is not empty. -/
def hasJobId (jd : EnqueueData) : Bool := jd.jobId.any (· ≠ "")

/-- `Queue.enqueue_call`, which is also what `Queue.enqueue` does with its parsed arguments. -/
def enqueueCall (self : Queue) (sync : Option SyncCode) (jd : EnqueueData) (pipeline : Client)
    (now : Time) (fuel : ℕ) : Redis (Job × Client) :=
  if jd.unique && !hasJobId jd then
    .throw (.valueError "unique=True requires an explicit job_id")
  else do
    let job ← Prog.ofExcept (self.createJob jd .queued none)
    self.enqueueJobOn sync job pipeline jd.atFront jd.unique now fuel

/-- `Queue.enqueue_at`, and `Queue.enqueue_in` for `datetime` in the given delta from now. The
option `unique` is parsed and not used. -/
def enqueueAt (self : Queue) (datetime : Time) (jd : EnqueueData) (pipeline : Client)
    (now : Time) : Redis (Job × Client) := do
  let job ← Prog.ofExcept (self.createJob jd .scheduled none)
  let job := if jd.atFront then { job with enqueueAtFront := some true } else job
  self.scheduleJob job datetime pipeline false now

/-! ## Batches -/

/-- The validation at the beginning of `Queue.enqueue_many`. -/
def validate : List EnqueueData → Except PyError Unit
  | [] => .ok ()
  | jd :: jds =>
    if jd.unique && jd.dependsOn.isSome then
      .error (.valueError "unique=True is not supported with job dependencies")
    else if jd.unique && !hasJobId jd then
      .error (.valueError "unique=True requires an explicit job_id")
    else validate jds

/-- The loop over the unique entries. -/
def enqueueUniques (self : Queue) (groupId : Option String) (now : Time) :
    List (ℕ × EnqueueData) → Redis (List (ℕ × Job))
  | [] => return []
  | (i, jd) :: jds => do
    let job ← Prog.ofExcept (self.createJob jd .queued groupId)
    let job := self._prepareForQueue job now
    saveUniqueJob self.key job jd.atFront now
    let jobs ← enqueueUniques self groupId now jds
    return (i, job) :: jobs

/-- The loop over the other entries without dependencies. -/
def enqueueNormals (self : Queue) (sync : Option SyncCode) (groupId : Option String) (now : Time) :
    List (ℕ × EnqueueData) → Client → Redis (List (ℕ × Job) × Client)
  | [], pipeline => return ([], pipeline)
  | (i, jd) :: jds, pipeline => do
    let job ← Prog.ofExcept (self.createJob jd .queued groupId)
    let (job, pipeline) ← self._enqueueJobOn sync job pipeline jd.atFront false now
    let (jobs, pipeline) ← enqueueNormals self sync groupId now jds pipeline
    return ((i, job) :: jobs, pipeline)

/-- The loop that saves the entries with dependencies. -/
def saveDeferred (self : Queue) (groupId : Option String) :
    List (ℕ × EnqueueData) → Client → Redis (List (ℕ × Job) × Client)
  | [], pipeline => return ([], pipeline)
  | (i, jd) :: jds, pipeline => do
    let job ← Prog.ofExcept (self.createJob jd .deferred groupId)
    let pipeline ← job.save pipeline
    let (jobs, pipeline) ← saveDeferred self groupId jds pipeline
    return ((i, job) :: jobs, pipeline)

/-- The `while True` loop of `Dependency.get_jobs_with_met_dependencies` for one job: what each of
its iterations finds. The verdict of an iteration is kept when its `execute` raises `WatchError`. -/
def checkDependencies (job : Job) (now : Time) : ℕ → Pipeline Key Value → Redis (List Bool)
  | 0, _ => .throw .stillRunning
  | fuel + 1, pipe => do
    let pipe ← pipe.watch (job.dependencyIds.map Key.job)
    let pipeline ← job.registerDependency (some pipe) now
    let (met, _, pipeline) ← job.dependenciesAreMet none pipeline none true
    let committed ← (pipeline.getD {}).execute
    if committed then return [met]
    else do
      let verdicts ← checkDependencies job now fuel {}
      return met :: verdicts

/-- `Dependency.get_jobs_with_met_dependencies`. After the first `execute` the pipeline is empty. -/
def getJobsWithMetDependencies (now : Time) (fuel : ℕ) :
    List (ℕ × Job) → Pipeline Key Value → Redis (List (ℕ × Job) × List (ℕ × Job))
  | [], _ => return ([], [])
  | (i, job) :: jobs, pipe => do
    let verdicts ← checkDependencies job now fuel pipe
    let (met, unmet) ← getJobsWithMetDependencies now fuel jobs {}
    return ((verdicts.filter id).map (fun _ => (i, job)) ++ met,
      (verdicts.filter not).map (fun _ => (i, job)) ++ unmet)

/-- The loop over the jobs whose dependencies are met. `enqueued` are the objects that an earlier
iteration has already changed. -/
def enqueueMet (self : Queue) (sync : Option SyncCode) (now : Time) :
    List (ℕ × Job) → List (ℕ × Job) → Client → Redis (List (ℕ × Job) × Client)
  | [], enqueued, pipeline => return (enqueued, pipeline)
  | (i, job) :: jobs, enqueued, pipeline => do
    let job := (enqueued.lookup i).getD job
    let (job, pipeline) ←
      self._enqueueJobOn sync job pipeline (job.enqueueAtFront.getD false) false now
    enqueueMet self sync now jobs ((i, job) :: enqueued) pipeline

/-- `pipe.execute()` if the pipeline is not that of the caller. -/
def executeOwn (caller pipeline : Client) : Redis Client :=
  match caller with
  | none => do
    let _ ← (pipeline.getD {}).execute
    return some {}
  | some _ => return pipeline

/-- The index at which `id_to_idx` finds a job: the last one, if an id occurs twice. -/
def idToIdx (deferred : List (ℕ × Job)) (job : Job) : ℕ :=
  ((deferred.reverse.find? fun d => d.2.id == job.id).map Prod.fst).getD 0

/-- The entries with their indices. -/
def indexed (jobDatas : List EnqueueData) : List (ℕ × EnqueueData) :=
  jobDatas.zipIdx.map Prod.swap

def uniqueNoDeps (jobDatas : List EnqueueData) : List (ℕ × EnqueueData) :=
  (indexed jobDatas).filter fun jd => jd.2.unique && jd.2.dependsOn.isNone

def normalNoDeps (jobDatas : List EnqueueData) : List (ℕ × EnqueueData) :=
  (indexed jobDatas).filter fun jd => !jd.2.unique && jd.2.dependsOn.isNone

def withDeps (jobDatas : List EnqueueData) : List (ℕ × EnqueueData) :=
  (indexed jobDatas).filter fun jd => jd.2.dependsOn.isSome

/-- The part of `Queue.enqueue_many` about the entries that are neither unique nor have
dependencies. -/
def enqueueNormalNoDeps (self : Queue) (sync : Option SyncCode) (jds : List (ℕ × EnqueueData))
    (caller pipeline : Client) (groupId : Option String) (now : Time) :
    Redis (List (ℕ × Job) × Client) := do
  if jds = [] then return ([], pipeline)
  else
    let (jobs, pipeline) ← self.enqueueNormals sync groupId now jds pipeline
    let pipeline ← executeOwn caller pipeline
    return (jobs, pipeline)

/-- The part of `Queue.enqueue_many` about the entries with dependencies. -/
def enqueueWithDeps (self : Queue) (sync : Option SyncCode) (jds : List (ℕ × EnqueueData))
    (caller pipeline : Client) (groupId : Option String) (now : Time) (fuel : ℕ) :
    Redis (List (ℕ × Job) × Client) := do
  if jds = [] then return ([], pipeline)
  else
    let (deferred, pipeline) ← self.saveDeferred groupId jds pipeline
    let pipeline ← executeOwn caller pipeline
    let (met, unmet) ← getJobsWithMetDependencies now fuel deferred (pipeline.getD {})
    let (enqueued, pipeline) ← self.enqueueMet sync now met [] (some {})
    let pipeline ← executeOwn caller pipeline
    return ((enqueued ++ unmet).map fun d => (idToIdx deferred d.2, d.2), pipeline)

/-- `result_map[i]` -/
def resultAt (resultMap : List (ℕ × Job)) (i : ℕ) : Except PyError Job :=
  match resultMap.lookup i with
  | some job => .ok job
  | none => .error (.keyError (toString i))

/-- `[result_map[i] for i in range(n)]` -/
def rebuild (resultMap : List (ℕ × Job)) (n : ℕ) : Except PyError (List Job) :=
  (List.range n).mapM (resultAt resultMap)

/-- `Queue.enqueue_many` -/
def enqueueMany (self : Queue) (sync : Option SyncCode) (jobDatas : List EnqueueData)
    (pipeline : Client) (groupId : Option String) (now : Time) (fuel : ℕ) :
    Redis (List Job × Client) := do
  Prog.ofExcept (validate jobDatas)
  let pipe ← Client.command (some (pipeline.getD {})) (.alter .queues fun q => q.insert self.key)
  let uniques ← self.enqueueUniques groupId now (uniqueNoDeps jobDatas)
  let (normals, pipe) ←
    self.enqueueNormalNoDeps sync (normalNoDeps jobDatas) pipeline pipe groupId now
  let (deferred, pipe) ←
    self.enqueueWithDeps sync (withDeps jobDatas) pipeline pipe groupId now fuel
  let jobs ← Prog.ofExcept (rebuild (uniques ++ normals ++ deferred) jobDatas.length)
  return (jobs, if pipeline.isSome then pipe else none)

end Queue

/-- `Group.enqueue_many` without a pipeline. -/
def Group.enqueueMany (name : String) (queue : Queue) (sync : Option Queue.SyncCode)
    (jobDatas : List EnqueueData) (now : Time) (fuel : ℕ) : Redis (List Job) := do
  let (jobs, pipe) ← queue.enqueueMany sync jobDatas (some {}) (some name) now fuel
  Group.addJobs name (jobs.map Job.id) (pipe.getD {})
  return jobs

end RedisQueue
