import RedisQueue.Enqueueing
import RedisQueue.HashRoundTrip

/-!
# Creating and enqueueing jobs, byte by byte

`Queue.create_job`, `Job.save`, `Job.fetch`, `Queue.enqueue_job` and `Queue.schedule_job`
(`rq/queue.py`, `rq/job.py`), and the two scripts of `rq/scripts.py`, on a database in which the
hash of a job is a map from fields to byte strings (`JobFields`).

The clients of the other modules run these methods interleaved with other processes. Here each of
them runs alone, so a pipeline is the list of its commands.
-/

namespace RedisQueue

/-! ## The database -/

inductive RawKey where
  /-- `rq:job:<id>` -/
  | job (id : JobId)
  /-- `rq:job:<id>:dependents` -/
  | dependents (id : JobId)
  /-- `rq:job::<id>:dependencies` -/
  | dependencies (id : JobId)
  /-- `rq:queue:<name>` -/
  | queue (name : QueueName)
  /-- `rq:scheduled:<name>` -/
  | scheduled (name : QueueName)
  /-- `rq:deferred:<name>` -/
  | deferred (name : QueueName)
  /-- `rq:queues` -/
  | queues
deriving DecidableEq, Repr

@[reducible] def RawValue : RawKey → Type
  | .job _ => RawHash
  | .dependents _ => RSet JobId
  | .dependencies _ => RSet JobId
  | .queue _ => List JobId
  | .scheduled _ => ZSet JobId
  | .deferred _ => ZSet JobId
  | .queues => RSet String

instance RawValue.decidableEq : (k : RawKey) → DecidableEq (RawValue k)
  | .job _ => inferInstanceAs (DecidableEq RawHash)
  | .dependents _ => inferInstanceAs (DecidableEq (RSet JobId))
  | .dependencies _ => inferInstanceAs (DecidableEq (RSet JobId))
  | .queue _ => inferInstanceAs (DecidableEq (List JobId))
  | .scheduled _ => inferInstanceAs (DecidableEq (ZSet JobId))
  | .deferred _ => inferInstanceAs (DecidableEq (ZSet JobId))
  | .queues => inferInstanceAs (DecidableEq (RSet String))

instance RawValue.inhabited : (k : RawKey) → Inhabited (RawValue k)
  | .job _ => ⟨fun _ => none⟩
  | .dependents _ => inferInstanceAs (Inhabited (RSet JobId))
  | .dependencies _ => inferInstanceAs (Inhabited (RSet JobId))
  | .queue _ => inferInstanceAs (Inhabited (List JobId))
  | .scheduled _ => inferInstanceAs (Inhabited (ZSet JobId))
  | .deferred _ => inferInstanceAs (Inhabited (ZSet JobId))
  | .queues => inferInstanceAs (Inhabited (RSet String))

/-- The database. A hash without fields does not exist. -/
abbrev RawStore := KeyStore RawKey RawValue

abbrev RawCommand := Command RawKey RawValue

variable {Obj : Type} [DecidableEq Obj]

/-! ## Creating jobs -/

/-- A `Callback` object. -/
structure Callback where
  name : String
  timeout : ℤ
deriving DecidableEq, Repr

/-- `CALLBACK_TIMEOUT` -/
def callbackTimeout : ℤ := 60

/-- `Callback(func, timeout)` for a function of that name. -/
def Callback.new (name : String) (timeout : Option ℤ) : Callback :=
  ⟨name, (timeout.filter (· ≠ 0)).getD callbackTimeout⟩

/-- What may be given in `depends_on`: a `Dependency` object, or a job or its id. -/
inductive DependencyItem where
  | dependency (ids : List JobId) (allowFailure enqueueAtFront : Bool)
  | job (id : JobId)

namespace DependencyItem

def ids : DependencyItem → List JobId
  | .dependency ids _ _ => ids
  | .job id => [id]

/-- `flag or item.flag`, where `flag` may be `None`. -/
def orFlag (flag : Option Bool) (itemFlag : Bool) : Option Bool :=
  if flag = some true then some true else some itemFlag

def allowFailure (flag : Option Bool) : DependencyItem → Option Bool
  | .dependency _ allowFailure _ => orFlag flag allowFailure
  | .job _ => flag

def enqueueAtFront (flag : Option Bool) : DependencyItem → Option Bool
  | .dependency _ _ enqueueAtFront => orFlag flag enqueueAtFront
  | .job _ => flag

end DependencyItem

/-- The arguments of `Queue.create_job`. `call` is the tuple of the function, its instance and its
arguments, `uuid` the id that is generated for a job without one. -/
structure JobArguments (Obj : Type) where
  call : Obj
  funcName : String
  callArguments : String := ""
  timeout : Option ℤ := none
  resultTtl : Option ℤ := none
  ttl : Option ℤ := none
  failureTtl : Option ℤ := none
  description : Option String := none
  dependsOn : List DependencyItem := []
  jobId : Option JobId := none
  uuid : {id : JobId // jobIdPattern id = true}
  metadata : Option Obj := none
  status : JobStatus := .queued
  retry : Option Retry := none
  repeats : Option Repeat := none
  onSuccess : Option Callback := none
  onFailure : Option Callback := none
  onStopped : Option Callback := none
  groupId : Option String := none

namespace JobArguments

/-- `get_call_string` -/
def callString (args : JobArguments Obj) : String :=
  args.funcName ++ "(" ++ args.callArguments ++ ")"

def id (args : JobArguments Obj) : JobId := args.jobId.getD args.uuid

end JobArguments

/-- A `Queue` object, with what `create_job` and `enqueue_job` use of it. -/
structure RawQueue where
  name : QueueName
  defaultTimeout : ℤ := 180
deriving DecidableEq, Repr

namespace RawQueue

/-- The job that `Queue.create_job` makes of arguments that it accepts. -/
def newJob (c : Codec Obj) (self : RawQueue) (args : JobArguments Obj) (now : DateTime) :
    JobRecord Obj where
  id := args.id
  createdAt := now
  data := c.dumps args.call
  successCallbackName := args.onSuccess.map Callback.name
  failureCallbackName := args.onFailure.map Callback.name
  stoppedCallbackName := args.onStopped.map Callback.name
  successCallbackTimeout := args.onSuccess.map Callback.timeout
  failureCallbackTimeout := args.onFailure.map Callback.timeout
  stoppedCallbackTimeout := args.onStopped.map Callback.timeout
  -- `description or job.get_call_string()`
  description := some ((args.description.filter (· ≠ "")).getD args.callString)
  origin := self.name
  timeout := some (args.timeout.getD self.defaultTimeout)
  resultTtl := args.resultTtl
  failureTtl := args.failureTtl
  ttl := args.ttl
  status := args.status
  dependencyIds := args.dependsOn.flatMap DependencyItem.ids
  allowDependencyFailures := args.dependsOn.foldl DependencyItem.allowFailure none
  enqueueAtFront := args.dependsOn.foldl DependencyItem.enqueueAtFront none
  metadata := args.metadata.getD c.emptyDict
  retriesLeft := args.retry.map fun retry => (retry.max : ℤ)
  retryIntervals := args.retry.map fun retry => retry.intervals.map Int.ofNat
  enqueueAtFrontOnRetry := (args.retry.map Retry.enqueueAtFront).getD false
  repeatsLeft := args.repeats.map fun r => (r.times : ℤ)
  repeatIntervals := args.repeats.map fun r => r.intervals.map Int.ofNat
  groupId := args.groupId

/-- `Queue.create_job`. A time out or a time to live given as a text is already parsed. -/
def createJob (c : Codec Obj) (self : RawQueue) (args : JobArguments Obj) (now : DateTime) :
    Except PyError (JobRecord Obj) :=
  if args.timeout = some 0 then
    .error (.valueError "0 timeout is not allowed. Use -1 for infinite timeout")
  else if args.ttl.any (· ≤ 0) then .error (.valueError "Job ttl must be greater than 0")
  else if args.jobId.any fun id => !jobIdPattern id then
    .error (.valueError "Job ID must only contain letters, numbers, underscores and dashes")
  else .ok (self.newJob c args now)

end RawQueue

/-! ## Saving and fetching -/

namespace JobRecord

/-- `HSET` -/
def hset (id : JobId) (mapping : JobField → Option PyValue) : RawCommand :=
  .write (.job id) fun h => RawHash.update h mapping

/-- `Job.save` -/
def save (c : Codec Obj) (self : JobRecord Obj) (includeMeta includeResult : Bool := true) :
    RawCommand :=
  hset self.id (self.toDict c includeMeta includeResult)

/-- A mapping of one field. -/
def single (f : JobField) (value : PyValue) : JobField → Option PyValue := fun f' =>
  if f' = f then some value else none

/-- The command of `Job.set_status`. -/
def setStatus (id : JobId) (status : JobStatus) : RawCommand :=
  hset id (single .status (.text status.text))

/-- `parse_job_id`: what comes before the first colon. -/
def parseJobId (id : JobId) : JobId := String.ofList (id.toList.takeWhile (· ≠ ':'))

/-- `Job.fetch` -/
def fetch (c : Codec Obj) (id : JobId) (now : DateTime) (s : RawStore) :
    Except PyError (JobRecord Obj) :=
  let id := parseJobId id
  if s.val (.job id) = default then .error (.noSuchJobError s!"No such job: rq:job:{id}")
  else restore c id now (s.val (.job id))

/-- `Job.fetch_many` -/
def fetchMany (c : Codec Obj) (now : DateTime) (s : RawStore) :
    List JobId → Except PyError (List (Option (JobRecord Obj)))
  | [] => .ok []
  | id :: ids =>
    if s.val (.job (parseJobId id)) = default then do
      let jobs ← fetchMany c now s ids
      return none :: jobs
    else do
      let job ← restore c (parseJobId id) now (s.val (.job (parseJobId id)))
      let jobs ← fetchMany c now s ids
      return some job :: jobs

/-- The `EXPIRE`s of `Job.cleanup` for a time to live that is not zero. (`create_job` accepts no
`ttl` of zero.) -/
def cleanup (self : JobRecord Obj) (ttl : Option ℤ) (now : DateTime) : List RawCommand :=
  if 0 < ttl.getD 0 then
    [.expire (.job self.id) (now.timestamp + ttl.getD 0),
      .expire (.dependents self.id) (now.timestamp + ttl.getD 0),
      .expire (.dependencies self.id) (now.timestamp + ttl.getD 0)]
  else []

/-- The `SADD`s of `Job.register_dependency`. -/
def registerDependencies (self : JobRecord Obj) : List RawCommand :=
  self.dependencyIds.flatMap fun dependencyId =>
    [.alter (.dependents dependencyId) fun d => RSet.insert d self.id,
      .alter (.dependencies self.id) fun d => RSet.insert d dependencyId]

/-- `Job.register_dependency` -/
def registerDependency (self : JobRecord Obj) (now : DateTime) : List RawCommand :=
  (.alter (.deferred self.origin) fun z => ZSet.add z self.id ((now.timestamp : ℤ) : Score)) ::
    self.registerDependencies

end JobRecord

/-! ## Enqueueing -/

namespace RawQueue

open JobRecord

/-- `SADD rq:queues` -/
def register (self : RawQueue) : RawCommand :=
  .alter .queues fun q => RSet.insert q (queueKey self.name)

/-- `Queue.push_job_id` -/
def pushJobId (self : RawQueue) (id : JobId) (atFront : Bool) : RawCommand :=
  .write (.queue self.name) (pushed atFront id)

/-- `Queue._prepare_for_queue` -/
def prepareForQueue (self : RawQueue) (job : JobRecord Obj) (now : DateTime) : JobRecord Obj :=
  { job with
    origin := self.name
    enqueuedAt := some now
    timeout := some (job.timeout.getD self.defaultTimeout)
    status := .queued }

/-- `Queue._persist_job` -/
def persistJob (c : Codec Obj) (job : JobRecord Obj) (status : JobStatus) (now : DateTime) :
    List RawCommand :=
  setStatus job.id status :: save c { job with status := status } :: job.cleanup job.ttl now

/-- The commands of `_enqueue_async_job` without `unique`. -/
def asyncCommands (c : Codec Obj) (self : RawQueue) (job : JobRecord Obj) (atFront : Bool)
    (now : DateTime) : List RawCommand :=
  (if job.status = .deferred then
    [.alter (.deferred self.name) fun z => ZSet.remove z job.id] else []) ++
    persistJob c (self.prepareForQueue job now) .queued now ++ [self.pushJobId job.id atFront]

/-- The commands of `_enqueue_sync_job` without `unique`, before it runs the job. -/
def syncCommands (c : Codec Obj) (self : RawQueue) (job : JobRecord Obj) (now : DateTime) :
    List RawCommand :=
  (if job.status = .deferred then
    [.alter (.deferred self.name) fun z => ZSet.remove z job.id] else []) ++
    persistJob c (self.prepareForQueue job now) .queued now

/-- Whether a dependency is unfinished, as `Queue.setup_dependencies` finds out. -/
def unfinished (c : Codec Obj) (job : JobRecord Obj) (now : DateTime) (s : RawStore) :
    Except PyError Bool := do
  let dependencies ← fetchMany c now s job.dependencyIds
  return dependencies.any fun dependency => dependency.any fun dependency =>
    dependency.status ≠ .finished

/-- The commands of `Queue.setup_dependencies` for a job that is deferred. -/
def deferCommands (c : Codec Obj) (job : JobRecord Obj) (now : DateTime) : List RawCommand :=
  setStatus job.id .deferred ::
    (job.registerDependency now ++ save c { job with status := .deferred } ::
      job.cleanup job.ttl now)

/-- `Queue.setup_dependencies` -/
def setupDependencies (c : Codec Obj) (job : JobRecord Obj) (now : DateTime) (s : RawStore) :
    Except PyError (JobRecord Obj × RawStore) := do
  let deferred ← unfinished c job now s
  if deferred then
    return ({ job with status := .deferred }, (Command.seq (deferCommands c job now)).run s)
  else return (job, s)

/-- `Queue.enqueue_job` on an asynchronous queue, without `unique`. -/
def enqueueJob (c : Codec Obj) (self : RawQueue) (job : JobRecord Obj) (atFront : Bool)
    (now : DateTime) (s : RawStore) : Except PyError (JobRecord Obj × RawStore) := do
  let (job, s) ← setupDependencies c { job with origin := self.name } now s
  let s := self.register.run s
  if job.status ≠ .deferred then
    return (self.prepareForQueue job now, (Command.seq (self.asyncCommands c job atFront now)).run s)
  else return (job, s)

/-- `Queue.enqueue` on an asynchronous queue, without `unique`: it creates a job with the default
status and enqueues it. -/
def enqueue (c : Codec Obj) (self : RawQueue) (args : JobArguments Obj) (atFront : Bool)
    (created now : DateTime) (s : RawStore) : Except PyError (JobRecord Obj × RawStore) := do
  let job ← self.createJob c { args with status := .queued } created
  self.enqueueJob c job atFront now s

end RawQueue
end RedisQueue
