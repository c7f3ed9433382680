import RedisQueue.Lib.Collections
import RedisQueue.Lib.KeyStore

/-!
# Keys, values and Python objects

The data model: the Redis keys rq uses and what each of them holds, the `Job` object and the hash
it is saved to, workers, executions and results. A hash field that is absent is `none`; a field
that is present but holds the empty string is `some none`.

The lists are addressed by their literal key, because the queue list and the intermediate list of
a queue are told apart by a suffix of the key only. `Key.log` is not a key of rq: it records, in
order, every push of a job id to a list made by `Queue.push_job_id`.
-/

namespace RedisQueue

abbrev JobId := String
abbrev QueueName := String
abbrev WorkerName := String
abbrev ExecutionId := String
/-- Seconds since the epoch. -/
abbrev Time := ℤ

/-- `JobStatus` -/
inductive JobStatus where
  | created | queued | finished | failed | started | deferred | scheduled | stopped | canceled
deriving DecidableEq, Repr

/-- The registries whose members are job ids. -/
inductive RegistryKind where
  | finished | failed | deferred | scheduled | canceled
deriving DecidableEq, Repr

/-- The Redis keys. -/
inductive Key where
  /-- `rq:job:<id>` -/
  | job (id : JobId)
  /-- `rq:job:<id>:dependents` -/
  | dependents (id : JobId)
  /-- `rq:job::<id>:dependencies` -/
  | dependencies (id : JobId)
  /-- `rq:results:<id>` -/
  | results (id : JobId)
  /-- `rq:execution:<job id>:<id>` -/
  | execution (jobId : JobId) (id : ExecutionId)
  /-- `rq:executions:<job id>` -/
  | executions (jobId : JobId)
  /-- A list, by its literal key. -/
  | list (key : String)
  /-- `rq:finished:<name>`, `rq:failed:<name>`, … -/
  | registry (kind : RegistryKind) (name : QueueName)
  /-- `rq:wip:<name>` -/
  | wip (name : QueueName)
  /-- `rq:queues` -/
  | queues
  /-- `rq:worker:<name>` -/
  | worker (name : WorkerName)
  /-- `rq:group:<name>` -/
  | group (name : String)
  /-- `rq:queue:<name>:intermediate:first_seen:<id>`, by the key of the queue. -/
  | firstSeen (queueKey : String) (id : JobId)
  /-- `rq:scheduler-lock:<name>` -/
  | schedulerLock (name : QueueName)
  /-- The history of pushes. -/
  | log
deriving DecidableEq, Repr

/-! ## What the keys hold -/

/-- A time to live as `Job.to_dict` writes it: zero is left out. -/
abbrev NonzeroTtl := {ttl : ℤ // ttl ≠ 0}

/-- The hash `rq:job:<id>`. -/
structure JobHash where
  data : Option String := none
  origin : Option QueueName := none
  status : Option JobStatus := none
  dependencyIds : Option (List JobId) := none
  allowDependencyFailures : Option Bool := none
  enqueueAtFront : Option Bool := none
  ttl : Option NonzeroTtl := none
  resultTtl : Option ℤ := none
  failureTtl : Option ℤ := none
  timeout : Option ℤ := none
  retriesLeft : Option ℕ := none
  retryIntervals : Option (List ℕ) := none
  enqueueAtFrontOnRetry : Option Bool := none
  numberOfRetries : Option ℕ := none
  repeatsLeft : Option ℕ := none
  repeatIntervals : Option (List ℕ) := none
  failureCallbackName : Option (Option String) := none
  groupId : Option (Option String) := none
  workerName : Option (Option WorkerName) := none
  enqueuedAt : Option Time := none
  startedAt : Option (Option Time) := none
  endedAt : Option (Option Time) := none
  lastHeartbeat : Option (Option Time) := none
  metadata : Option String := none
deriving DecidableEq, Inhabited, Repr

/-- `HSET`: the fields of the mapping replace those of the hash, the others stay. -/
def JobHash.update (h mapping : JobHash) : JobHash where
  data := mapping.data <|> h.data
  origin := mapping.origin <|> h.origin
  status := mapping.status <|> h.status
  dependencyIds := mapping.dependencyIds <|> h.dependencyIds
  allowDependencyFailures := mapping.allowDependencyFailures <|> h.allowDependencyFailures
  enqueueAtFront := mapping.enqueueAtFront <|> h.enqueueAtFront
  ttl := mapping.ttl <|> h.ttl
  resultTtl := mapping.resultTtl <|> h.resultTtl
  failureTtl := mapping.failureTtl <|> h.failureTtl
  timeout := mapping.timeout <|> h.timeout
  retriesLeft := mapping.retriesLeft <|> h.retriesLeft
  retryIntervals := mapping.retryIntervals <|> h.retryIntervals
  enqueueAtFrontOnRetry := mapping.enqueueAtFrontOnRetry <|> h.enqueueAtFrontOnRetry
  numberOfRetries := mapping.numberOfRetries <|> h.numberOfRetries
  repeatsLeft := mapping.repeatsLeft <|> h.repeatsLeft
  repeatIntervals := mapping.repeatIntervals <|> h.repeatIntervals
  failureCallbackName := mapping.failureCallbackName <|> h.failureCallbackName
  groupId := mapping.groupId <|> h.groupId
  workerName := mapping.workerName <|> h.workerName
  enqueuedAt := mapping.enqueuedAt <|> h.enqueuedAt
  startedAt := mapping.startedAt <|> h.startedAt
  endedAt := mapping.endedAt <|> h.endedAt
  lastHeartbeat := mapping.lastHeartbeat <|> h.lastHeartbeat
  metadata := mapping.metadata <|> h.metadata

/-- `Result.Type` -/
inductive ResultType where
  | successful | failed | stopped | retried | maxRetriesExceeded
deriving DecidableEq, Repr

/-- An entry of the stream `rq:results:<id>`. -/
structure Result where
  type : ResultType
  returnValue : Option String := none
  excString : Option String := none
  workerName : WorkerName := ""
  executionId : Option ExecutionId := none
  executionStartedAt : Option Time := none
  executionEndedAt : Option Time := none
deriving DecidableEq, Repr

/-- The hash `rq:execution:<composite key>`. -/
structure ExecutionHash where
  createdAt : Option Time := none
  lastHeartbeat : Option Time := none
deriving DecidableEq, Inhabited, Repr

/-- The hash `rq:worker:<name>`. -/
structure WorkerHash where
  state : Option String := none
  currentJob : Option JobId := none
  currentJobWorkingTime : Option ℤ := none
  lastHeartbeat : Option Time := none
  successfulJobCount : ℕ := 0
  failedJobCount : ℕ := 0
  totalWorkingTime : ℤ := 0
deriving DecidableEq, Inhabited, Repr

/-- The value of a lock: the process id of the scheduler that has set it. `setBy` is not part of the
value: it records which scheduler object that was. -/
structure SchedulerLock where
  pid : ℕ
  setBy : ℕ
deriving DecidableEq, Repr

/-- A push of `id` to the list at `key`. -/
structure Push where
  key : String
  id : JobId
deriving DecidableEq, Repr

@[reducible] def Value : Key → Type
  | .job _ => JobHash
  | .dependents _ => RSet JobId
  | .dependencies _ => RSet JobId
  | .results _ => List Result
  | .execution _ _ => ExecutionHash
  | .executions _ => ZSet ExecutionId
  | .list _ => List JobId
  | .registry _ _ => ZSet JobId
  | .wip _ => ZSet (JobId × ExecutionId)
  | .queues => RSet String
  | .worker _ => WorkerHash
  | .group _ => RSet JobId
  | .firstSeen _ _ => Option Time
  | .schedulerLock _ => Option SchedulerLock
  | .log => List Push

instance Value.decidableEq : (k : Key) → DecidableEq (Value k)
  | .job _ => inferInstanceAs (DecidableEq JobHash)
  | .dependents _ => inferInstanceAs (DecidableEq (RSet JobId))
  | .dependencies _ => inferInstanceAs (DecidableEq (RSet JobId))
  | .results _ => inferInstanceAs (DecidableEq (List Result))
  | .execution _ _ => inferInstanceAs (DecidableEq ExecutionHash)
  | .executions _ => inferInstanceAs (DecidableEq (ZSet ExecutionId))
  | .list _ => inferInstanceAs (DecidableEq (List JobId))
  | .registry _ _ => inferInstanceAs (DecidableEq (ZSet JobId))
  | .wip _ => inferInstanceAs (DecidableEq (ZSet (JobId × ExecutionId)))
  | .queues => inferInstanceAs (DecidableEq (RSet String))
  | .worker _ => inferInstanceAs (DecidableEq WorkerHash)
  | .group _ => inferInstanceAs (DecidableEq (RSet JobId))
  | .firstSeen _ _ => inferInstanceAs (DecidableEq (Option Time))
  | .schedulerLock _ => inferInstanceAs (DecidableEq (Option SchedulerLock))
  | .log => inferInstanceAs (DecidableEq (List Push))

instance Value.inhabited : (k : Key) → Inhabited (Value k)
  | .job _ => inferInstanceAs (Inhabited JobHash)
  | .dependents _ => inferInstanceAs (Inhabited (RSet JobId))
  | .dependencies _ => inferInstanceAs (Inhabited (RSet JobId))
  | .results _ => inferInstanceAs (Inhabited (List Result))
  | .execution _ _ => inferInstanceAs (Inhabited ExecutionHash)
  | .executions _ => inferInstanceAs (Inhabited (ZSet ExecutionId))
  | .list _ => inferInstanceAs (Inhabited (List JobId))
  | .registry _ _ => inferInstanceAs (Inhabited (ZSet JobId))
  | .wip _ => inferInstanceAs (Inhabited (ZSet (JobId × ExecutionId)))
  | .queues => inferInstanceAs (Inhabited (RSet String))
  | .worker _ => inferInstanceAs (Inhabited WorkerHash)
  | .group _ => inferInstanceAs (Inhabited (RSet JobId))
  | .firstSeen _ _ => inferInstanceAs (Inhabited (Option Time))
  | .schedulerLock _ => inferInstanceAs (Inhabited (Option SchedulerLock))
  | .log => inferInstanceAs (Inhabited (List Push))

/-- The Redis database. -/
abbrev Store := KeyStore Key Value

/-- The empty database. -/
def Store.empty : Store where
  val _ := default
  ver _ := 0
  exp _ := none

/-! ## Python objects -/

/-- A `Job` object. `_status` and `_result` are `status` and `result`. -/
structure Job where
  id : JobId
  data : String := ""
  origin : QueueName := ""
  status : JobStatus := .created
  dependencyIds : List JobId := []
  allowDependencyFailures : Option Bool := none
  enqueueAtFront : Option Bool := none
  ttl : Option ℤ := none
  resultTtl : Option ℤ := none
  failureTtl : Option ℤ := none
  timeout : Option ℤ := none
  retriesLeft : Option ℕ := none
  retryIntervals : Option (List ℕ) := none
  enqueueAtFrontOnRetry : Bool := false
  numberOfRetries : Option ℕ := none
  repeatsLeft : Option ℕ := none
  repeatIntervals : Option (List ℕ) := none
  failureCallbackName : Option String := none
  groupId : Option String := none
  workerName : Option WorkerName := none
  enqueuedAt : Option Time := none
  startedAt : Option Time := none
  endedAt : Option Time := none
  lastHeartbeat : Option Time := none
  metadata : Option String := none
  result : Option String := none
deriving DecidableEq, Repr

/-- A `Retry` object. -/
structure Retry where
  max : ℕ
  intervals : List ℕ := [0]
  enqueueAtFront : Bool := false
deriving DecidableEq, Repr

/-- An `Execution` object. -/
structure Execution where
  id : ExecutionId
  jobId : JobId
  createdAt : Time
  lastHeartbeat : Time
deriving DecidableEq, Repr

/-- A `Queue` object with `is_async=True`. -/
structure Queue where
  name : QueueName
  defaultTimeout : ℤ := 180
deriving DecidableEq, Repr

/-- `Queue.key` -/
def queueKey (name : QueueName) : String := "rq:queue:" ++ name

lemma queueKey_inj {name name' : QueueName} : queueKey name = queueKey name' ↔ name = name' := by
  simp [queueKey]

/-- `IntermediateQueue.get_intermediate_queue_key` -/
def intermediateQueueKey (queueKey : String) : String := queueKey ++ ":intermediate"

/-! ## The local time zone -/

/-- A time zone with its standard offset, and its offset for daylight-saving time, if it has one,
with the rule that tells at which instants it is in force. -/
structure LocalZone where
  stdOffset : ℤ
  dst : Option (ℤ × (ℤ → Bool)) := none

namespace LocalZone

variable (zone : LocalZone)

/-- `time.timezone` -/
def timezone : ℤ := -zone.stdOffset

/-- `time.altzone` -/
def altzone : ℤ := -((zone.dst.map Prod.fst).getD zone.stdOffset)

/-- `time.daylight` -/
def daylight : ℤ := if zone.dst.isSome then 1 else 0

/-- The offset that is in force. -/
def offsetAt (instant : ℤ) : ℤ :=
  match zone.dst with
  | none => zone.stdOffset
  | some (dstOffset, inForce) => if inForce instant then dstOffset else zone.stdOffset

/-- `timezone(timedelta(seconds=-(time.timezone if time.daylight == 0 else time.altzone)))` -/
def assumedOffset : ℤ := -(if zone.daylight = 0 then zone.timezone else zone.altzone)

/-- `datetime.now()`, which has no time zone, in seconds. -/
def naiveNow (now : Time) : Time := now + zone.offsetAt (now * 1000000)

/-- What `ScheduledJobRegistry.schedule` takes a datetime without a time zone for. -/
def assumedInstant (datetime : Time) : Time := datetime - zone.assumedOffset

/-- Daylight-saving time is in force at the instant, unless the zone has none or does not change its
offset for it. -/
def Assumes (instant : ℤ) : Prop :=
  ∀ dstOffset inForce, zone.dst = some (dstOffset, inForce) →
    inForce instant = true ∨ dstOffset = zone.stdOffset

variable {zone}

/-- The code takes the offset for daylight-saving time whenever the zone has one. -/
lemma assumedOffset_eq :
    zone.assumedOffset = (zone.dst.map Prod.fst).getD zone.stdOffset := by
  unfold assumedOffset daylight timezone altzone
  cases zone.dst <;> simp

lemma assumes_iff {instant : ℤ} :
    zone.Assumes instant ↔ zone.offsetAt instant = zone.assumedOffset := by
  rw [assumedOffset_eq]
  unfold Assumes offsetAt
  cases zone.dst with
  | none => simp
  | some d =>
    obtain ⟨dstOffset, inForce⟩ := d
    cases hforce : inForce instant with
    | true => simp [hforce]
    | false =>
      simp only [Option.some.injEq, Prod.mk.injEq, and_imp, Option.map_some, Option.getD_some]
      constructor
      · intro h
        have heq := (h dstOffset inForce rfl rfl).resolve_left (by simp [hforce])
        simp [hforce, heq]
      · rintro heq _ _ rfl rfl
        right
        simpa [hforce] using heq.symm

/-- An interval from now on is not changed by the conversion just if the right offset is taken. -/
lemma assumedInstant_naiveNow {now : Time} (h : zone.Assumes (now * 1000000)) (interval : ℕ) :
    zone.assumedInstant (zone.naiveNow now + interval) = now + interval := by
  have heq := assumes_iff.mp h
  unfold assumedInstant naiveNow
  lia

end LocalZone

/-- A `Worker` object, with the local time zone of its process. -/
structure Worker where
  name : WorkerName
  queues : List QueueName
  execution : Option Execution := none
  stoppedJobId : Option JobId := none
  disableDefaultExceptionHandler : Bool := false
  defaultResultTtl : ℤ := 500
  workerTtl : ℤ := 420
  jobMonitoringInterval : ℤ := 30
  currentJobWorkingTime : ℤ := 0
  zone : LocalZone := { stdOffset := 0 }

/-- The exceptions rq raises or lets through. -/
inductive PyError where
  | noSuchJobError (msg : String)
  | invalidJobOperation (msg : String)
  | duplicateJobError (msg : String)
  | noSuchGroupError
  | dequeueTimeout (timeout : ℕ) (queueKeys : List String)
  | valueError (msg : String)
  | overflowError (msg : String)
  | typeError
  | assertionError
  | indexError
  | keyError (field : String)
  | redisError (msg : String)
  | responseError (msg : String)
  /-- An exception raised by user code. -/
  | userError (msg : String)
  /-- Not an exception: the program has used up the bound on its number of iterations. -/
  | stillRunning
deriving DecidableEq, Repr

instance : StoreErrors PyError := ⟨.redisError, .responseError⟩

/-- A program that talks to Redis. -/
abbrev Redis (α : Type) := Prog Store PyError α

/-! ## The client -/

/-- Where a method sends its commands: `pipeline if pipeline is not None else self.connection`. -/
abbrev Client := Option (Pipeline Key Value)

def Client.command (client : Client) (c : Command Key Value) : Redis Client :=
  match client with
  | none => do
    Prog.perform c.run
    return none
  | some pipe => do
    let pipe ← pipe.command c
    return some pipe

def Client.query {β : Type} (client : Client) (f : Store → β) : Redis β :=
  match client with
  | none => .read f
  | some pipe => pipe.query f

/-! ## Redis commands -/

def hset (id : JobId) (mapping : JobHash) : Command Key Value :=
  .write (.job id) fun h => h.update mapping

/-- `ZADD` to a registry of job ids. -/
def zadd (kind : RegistryKind) (name : QueueName) (id : JobId) (score : Score) :
    Command Key Value :=
  .alter (.registry kind name) fun z => z.add id score

/-- `ZREM` from a registry of job ids. -/
def zrem (kind : RegistryKind) (name : QueueName) (id : JobId) : Command Key Value :=
  .alter (.registry kind name) fun z => z.remove id

/-- `LREM key 1 id`. -/
def lrem (key : String) (id : JobId) : Command Key Value :=
  .alter (.list key) fun l => l.erase id

/-- The list after an `LPUSH` or an `RPUSH`. -/
def pushed (atFront : Bool) (id : JobId) (l : List JobId) : List JobId :=
  if atFront then id :: l else l ++ [id]

/-- `LPUSH` or `RPUSH`, recorded in the log. -/
def push (key : String) (atFront : Bool) (id : JobId) : Command Key Value :=
  .seq [.write (.list key) (pushed atFront id), .write .log fun l => l ++ [⟨key, id⟩]]

/-- `HSET`, `HDEL`, `HINCRBY` or `HINCRBYFLOAT` on a worker hash. -/
def hsetWorker (name : WorkerName) (f : WorkerHash → WorkerHash) : Command Key Value :=
  .write (.worker name) f

@[simp] lemma val_hset (id : JobId) (m : JobHash) (s : Store) :
    ((hset id m).run s).val = Function.update s.val (.job id) ((s.val (.job id)).update m) := rfl

@[simp] lemma val_zadd (kind : RegistryKind) (name : QueueName) (id : JobId) (score : Score)
    (s : Store) : ((zadd kind name id score).run s).val =
      Function.update s.val (.registry kind name) ((s.val (.registry kind name)).add id score) :=
  Command.val_alter _ _ s

@[simp] lemma val_zrem (kind : RegistryKind) (name : QueueName) (id : JobId) (s : Store) :
    ((zrem kind name id).run s).val =
      Function.update s.val (.registry kind name) ((s.val (.registry kind name)).remove id) :=
  Command.val_alter _ _ s

@[simp] lemma val_lrem (key : String) (id : JobId) (s : Store) :
    ((lrem key id).run s).val =
      Function.update s.val (.list key) ((s.val (.list key)).erase id) :=
  Command.val_alter _ _ s

@[simp] lemma mem_pushed {atFront : Bool} {id id' : JobId} {l : List JobId} :
    id' ∈ pushed atFront id l ↔ id' = id ∨ id' ∈ l := by
  cases atFront <;> simp [pushed, or_comm]

@[simp] lemma val_push (key : String) (atFront : Bool) (id : JobId) (s : Store) :
    ((push key atFront id).run s).val =
      Function.update (Function.update s.val (.list key) (pushed atFront id (s.val (.list key))))
        .log (s.val .log ++ [⟨key, id⟩]) := by
  simp [push]

@[simp] lemma val_hsetWorker (name : WorkerName) (f : WorkerHash → WorkerHash) (s : Store) :
    ((hsetWorker name f).run s).val =
      Function.update s.val (.worker name) (f (s.val (.worker name))) := rfl

end RedisQueue
