import RedisQueue.Basic

/-!
# Executions and the registries they are kept in

`rq/executions.py`, `Result.save` of `rq/results.py` and the registry commands of
`rq/registry.py`. `now` is what the Python code reads from the clock.
-/

namespace RedisQueue

/-- `EXPIRE` in `ttl` seconds. A time to live that is not positive deletes the key. -/
def expire (k : Key) (ttl : ℤ) (now : Time) : Command Key Value :=
  if ttl ≤ 0 then .del k else .expire k (now + ttl)

/-- The score `BaseRegistry.add` and `add_execution` give: the expiry time, a negative `ttl`
itself, `+inf` for `-1`. -/
def registryScore (ttl : ℤ) (now : Time) : Score :=
  if ttl < 0 then if ttl = -1 then ⊤ else (ttl : ℤ) else ((now + ttl : ℤ) : Score)

/-! ## `StartedJobRegistry` -/

/-- `StartedJobRegistry.add_execution` -/
def addExecution (name : QueueName) (execution : Execution) (ttl : ℤ) (xx : Bool) (now : Time) :
    Command Key Value :=
  .alter (.wip name) fun z =>
    if xx && !decide ((execution.jobId, execution.id) ∈ z) then z
    else z.add (execution.jobId, execution.id) (registryScore ttl now)

/-- `StartedJobRegistry.remove_execution` -/
def removeExecution (name : QueueName) (execution : Execution) : Command Key Value :=
  .alter (.wip name) fun z => z.remove (execution.jobId, execution.id)

/-! ## `ExecutionRegistry` -/

/-- `ExecutionRegistry.add` -/
def ExecutionRegistry.add (execution : Execution) (ttl : ℤ) (pipeline : Client) (now : Time) :
    Redis Client := do
  let pipeline ← pipeline.command
    (.alter (.executions execution.jobId) fun z =>
      z.add execution.id (((now + ttl) + 60 : ℤ) : Score))
  pipeline.command (expire (.executions execution.jobId) (ttl + 60) now)

/-- `ExecutionRegistry.remove` -/
def ExecutionRegistry.remove (execution : Execution) : Command Key Value :=
  .alter (.executions execution.jobId) fun z => z.remove execution.id

/-- `ExecutionRegistry.cleanup`: the expired ids are removed. -/
def ExecutionRegistry.cleanup (jobId : JobId) (now : Time) : Command Key Value :=
  .alter (.executions jobId) fun z => z.removeRange (0 : ℤ) now

/-- `ExecutionRegistry.get_execution_ids` -/
def ExecutionRegistry.getExecutionIds (jobId : JobId) (now : Time) : Redis (List ExecutionId) := do
  Prog.perform (cleanup jobId now).run
  Prog.read fun s => (s.val (.executions jobId)).ordered (· ≤ ·)

/-! ## `Execution` -/

/-- `Execution.fetch` -/
def Execution.fetch (id : ExecutionId) (jobId : JobId) : Redis Execution := do
  let data ← Prog.read fun s => s.val (.execution jobId id)
  if data = default then .throw (.valueError s!"Execution {id} not found in Redis")
  else match data.createdAt, data.lastHeartbeat with
    | some createdAt, some lastHeartbeat => return ⟨id, jobId, createdAt, lastHeartbeat⟩
    | none, _ => .throw (.keyError "created_at")
    | some _, none => .throw (.keyError "last_heartbeat")

def ExecutionRegistry.fetchAll (jobId : JobId) : List ExecutionId → Redis (List Execution)
  | [] => return []
  | id :: ids => do
    let execution ← Execution.fetch id jobId
    let executions ← fetchAll jobId ids
    return execution :: executions

/-- `ExecutionRegistry.get_executions` -/
def ExecutionRegistry.getExecutions (jobId : JobId) (now : Time) : Redis (List Execution) := do
  let ids ← getExecutionIds jobId now
  fetchAll jobId ids

/-- `Execution.create`. `id` is the `uuid4().hex` of the new execution. -/
def Execution.create (job : Job) (ttl : ℤ) (pipeline : Client) (id : ExecutionId) (now : Time) :
    Redis (Execution × Client) := do
  let execution : Execution := ⟨id, job.id, now, now⟩
  let pipeline ← pipeline.command (.write (.execution job.id id) fun _ => ⟨some now, some now⟩)
  let pipeline ← pipeline.command (expire (.execution job.id id) ttl now)
  let pipeline ← ExecutionRegistry.add execution ttl pipeline now
  let pipeline ← pipeline.command (addExecution job.origin execution ttl false now)
  return (execution, pipeline)

/-- `Execution.heartbeat`, with the name of the queue of the `StartedJobRegistry`. -/
def Execution.heartbeat (self : Execution) (name : QueueName) (ttl : ℤ) (pipeline : Client)
    (now : Time) : Redis (Execution × Client) := do
  let self := { self with lastHeartbeat := now }
  let pipeline ← pipeline.command
    (.write (.execution self.jobId self.id) fun h => { h with lastHeartbeat := some now })
  let pipeline ← pipeline.command (expire (.execution self.jobId self.id) ttl now)
  let pipeline ← pipeline.command (addExecution name self ttl true now)
  let pipeline ← ExecutionRegistry.add self ttl pipeline now
  return (self, pipeline)

/-- `Execution.delete` -/
def Execution.delete (self : Execution) (job : Job) (pipeline : Client) : Redis Client := do
  let pipeline ← pipeline.command (.del (.execution self.jobId self.id))
  let pipeline ← pipeline.command (removeExecution job.origin self)
  pipeline.command (ExecutionRegistry.remove self)

def ExecutionRegistry.deleteAll (job : Job) : List Execution → Client → Redis Client
  | [], pipeline => return pipeline
  | execution :: executions, pipeline => do
    let pipeline ← execution.delete job pipeline
    deleteAll job executions pipeline

/-- `ExecutionRegistry.delete` -/
def ExecutionRegistry.delete (job : Job) (pipeline : Client) (now : Time) : Redis Client := do
  let executions ← getExecutions job.id now
  let pipeline ← deleteAll job executions pipeline
  pipeline.command (.del (.executions job.id))

/-- `StartedJobRegistry.remove_executions` -/
def removeExecutions (job : Job) (pipeline : Client) (now : Time) : Redis Client := do
  let executions ← ExecutionRegistry.getExecutions job.id now
  if executions = [] then return pipeline
  else pipeline.command (.alter (.wip job.origin) fun z =>
    z.removeAll (executions.map fun e => (e.jobId, e.id)))

/-! ## `Result` -/

/-- `Result.save`. `XADD … MAXLEN ~ 10` appends to the stream; what the approximate trimming
removes are entries older than the ten newest, which nothing here reads. -/
def Result.save (self : Result) (jobId : JobId) (ttl : Option ℤ) (pipeline : Client)
    (now : Time) : Redis Client := do
  let pipeline ← pipeline.command (.write (.results jobId) fun rs => rs ++ [self])
  match ttl with
  | none => return pipeline
  | some ttl =>
    if ttl = -1 then pipeline.command (.persist (.results jobId))
    else pipeline.command (expire (.results jobId) ttl now)

end RedisQueue
