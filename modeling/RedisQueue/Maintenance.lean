import RedisQueue.Worker

/-!
# The scheduler and the clean-up of abandoned jobs

`RQScheduler.enqueue_scheduled_jobs` (`rq/scheduler.py`) moves the due jobs of a
`ScheduledJobRegistry` to their queue. `StartedJobRegistry.cleanup` (`rq/registry.py`) accounts for
the executions whose entries have expired.
-/

namespace RedisQueue

/-! ## The scheduler -/

/-- The ids that are due at `timestamp`, at most a thousand. -/
def dueIds (name : QueueName) (timestamp : Time) (s : Store) : List JobId :=
  ((s.val (.registry .scheduled name)).range (· ≤ ·) (0 : ℤ) timestamp).take 1000

/-- `ScheduledJobRegistry.get_jobs_to_schedule` -/
def getJobsToSchedule (name : QueueName) (timestamp : Time) : Redis (List JobId) :=
  .read (dueIds name timestamp)

/-- The loop over the fetched jobs in `enqueue_scheduled_jobs`. -/
def enqueueFetched (queue : Queue) (now : Time) : List (Option Job) → Client → Redis Client
  | [], pipeline => return pipeline
  | none :: rest, pipeline => enqueueFetched queue now rest pipeline
  | some job :: rest, pipeline => do
    let (_, pipeline) ← queue._enqueueJob job pipeline job.shouldEnqueueAtFront false now
    enqueueFetched queue now rest pipeline

/-- The loop over the ids in `enqueue_scheduled_jobs`. -/
def removeFetched (name : QueueName) : List JobId → Client → Redis Client
  | [], pipeline => return pipeline
  | id :: rest, pipeline => do
    let pipeline ← pipeline.command (zrem .scheduled name id)
    removeFetched name rest pipeline

/-- What `enqueue_scheduled_jobs` does for the registry of one queue. -/
def enqueueDueJobs (queue : Queue) (now : Time) : Redis Unit := do
  let jobIds ← getJobsToSchedule queue.name now
  if jobIds = [] then return ()
  else
    let jobs ← Job.fetchMany jobIds
    let pipeline ← enqueueFetched queue now jobs (some {})
    let pipeline ← removeFetched queue.name jobIds pipeline
    let _ ← (pipeline.getD {}).execute
    return ()

/-- `RQScheduler.enqueue_scheduled_jobs` -/
def enqueueScheduledJobs (now : Time) : List Queue → Redis Unit
  | [] => return ()
  | queue :: queues => do
    enqueueDueJobs queue now
    enqueueScheduledJobs now queues

/-! ## Abandoned jobs -/

namespace StartedJobRegistry

/-- The entries are strings `<job id>:<execution id>`, and ordered as such. -/
def entryLe (a b : JobId × ExecutionId) : Prop := a.1 ++ ":" ++ a.2 ≤ b.1 ++ ":" ++ b.2

instance : DecidableRel entryLe := fun a b =>
  inferInstanceAs (Decidable (a.1 ++ ":" ++ a.2 ≤ b.1 ++ ":" ++ b.2))

/-- `StartedJobRegistry.get_expired_job_ids`: a job id for every expired entry. -/
def getExpiredJobIds (name : QueueName) (score : Time) : Redis (List JobId) :=
  .read fun s => ((s.val (.wip name)).range entryLe (0 : ℤ) score).map Prod.fst

/-- The user code that runs during a clean-up: what the failure callback of a given name raises
for a job, and what each exception handler raises or returns for it. -/
structure UserCode where
  failureCallback : String → JobId → Option String := fun _ _ => none
  exceptionHandlers : List (JobId → Except String (Option Bool)) := []

/-- `Job.execute_failure_callback` -/
def executeFailureCallback (userCode : UserCode) (job : Job) : Except PyError Unit :=
  match job.failureCallbackName with
  | none => .ok ()
  | some name =>
    match userCode.failureCallback name job.id with
    | none => .ok ()
    | some e => .error (.userError e)

/-- The loop over the exception handlers; one that returns a false value ends it. -/
def runExceptionHandlers (job : Job) :
    List (JobId → Except String (Option Bool)) → Except PyError Unit
  | [] => .ok ()
  | handler :: rest =>
    match handler job.id with
    | .error e => .error (.userError e)
    | .ok fallthrough => if fallthrough.getD true then runExceptionHandlers job rest else .ok ()

def excString : String := "Moved to FailedJobRegistry, due to AbandonedJobError"

/-- The body of the loop of `StartedJobRegistry.cleanup` for a job that has been fetched. -/
def handleAbandoned (queue : Queue) (userCode : UserCode) (job : Job) (pipeline : Client)
    (now : Time) (fuel : ℕ) : Redis Client := do
  Prog.ofExcept (executeFailureCallback userCode job)
  Prog.ofExcept (runExceptionHandlers job userCode.exceptionHandlers)
  if job.shouldRetry then
    let (_, pipeline) ← job.retry queue pipeline now
    return pipeline
  else
    let (job, pipeline) ← job.setStatus .failed pipeline
    let (job, pipeline) ← job._handleFailure excString pipeline {} now
    let _ ← queue.enqueueDependents job none none false now fuel
    return pipeline

/-- The loop of `StartedJobRegistry.cleanup`. -/
def cleanupEach (queue : Queue) (userCode : UserCode) (now : Time) (fuel : ℕ) :
    List JobId → Client → Redis Client
  | [], pipeline => return pipeline
  | jobId :: rest, pipeline => do
    let r ← attempting (Job.fetch jobId)
    match r with
    | .error (.noSuchJobError _) => cleanupEach queue userCode now fuel rest pipeline
    | .error e => .throw e
    | .ok job => do
      let pipeline ← handleAbandoned queue userCode job pipeline now fuel
      cleanupEach queue userCode now fuel rest pipeline

/-- `StartedJobRegistry.cleanup` -/
def cleanup (name : QueueName) (score : Time) (userCode : UserCode) (now : Time) (fuel : ℕ) :
    Redis Unit := do
  let jobIds ← getExpiredJobIds name score
  if jobIds = [] then return ()
  else
    let queue : Queue := { name := name }
    let pipeline ← cleanupEach queue userCode now fuel jobIds (some {})
    let pipeline ← pipeline.command (.alter (.wip name) fun z => z.removeRange (0 : ℤ) score)
    let _ ← (pipeline.getD {}).execute
    return ()

end StartedJobRegistry
end RedisQueue
