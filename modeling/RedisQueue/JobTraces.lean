import RedisQueue.ReleaseEffects
import RedisQueue.SuccessTheorems

/-!
# What the database holds about one job

The part of the store that the life of a job is about, and how the commands change it.

* `Plan`: the fields of a job that decide how often it is executed;
* `Trace`: the plan, the status and the places of a job;
* `trace_run`: a command about other keys leaves the trace alone;
* `trace_enqueueCommands`, `trace_scheduleCommands`: a job that moves.
-/

namespace RedisQueue

/-! ## Plans -/

/-- The fields of a job that decide what happens after an execution. -/
@[ext] structure Plan where
  failureTtl : Option ℤ
  resultTtl : Option ℤ
  retriesLeft : Option ℕ
  retryIntervals : Option (List ℕ)
  numberOfRetries : Option ℕ
  repeatsLeft : Option ℕ
  repeatIntervals : Option (List ℕ)
deriving DecidableEq, Repr

def JobHash.plan (h : JobHash) : Plan where
  failureTtl := h.failureTtl
  resultTtl := h.resultTtl
  retriesLeft := h.retriesLeft
  retryIntervals := h.retryIntervals
  numberOfRetries := h.numberOfRetries
  repeatsLeft := h.repeatsLeft
  repeatIntervals := h.repeatIntervals

def Job.plan (job : Job) : Plan where
  failureTtl := job.failureTtl
  resultTtl := job.resultTtl
  retriesLeft := job.retriesLeft
  retryIntervals := job.retryIntervals
  numberOfRetries := job.numberOfRetries
  repeatsLeft := job.repeatsLeft
  repeatIntervals := job.repeatIntervals

/-- What is stored when `p` is saved over `q`: a field that is `None` is not written. -/
def Plan.over (p q : Plan) : Plan where
  failureTtl := p.failureTtl <|> q.failureTtl
  resultTtl := p.resultTtl <|> q.resultTtl
  retriesLeft := p.retriesLeft <|> q.retriesLeft
  retryIntervals := p.retryIntervals <|> q.retryIntervals
  numberOfRetries := p.numberOfRetries <|> q.numberOfRetries
  repeatsLeft := p.repeatsLeft <|> q.repeatsLeft
  repeatIntervals := p.repeatIntervals <|> q.repeatIntervals

/-- A plan that says nothing. -/
def Plan.nothing : Plan := ⟨none, none, none, none, none, none, none⟩

@[simp] lemma Plan.over_self (p : Plan) : p.over p = p := by
  simp [Plan.over]

@[simp] lemma Plan.over_over (p q : Plan) : p.over (p.over q) = p.over q := by
  simp [Plan.over, ← Option.or_assoc]

@[simp] lemma Plan.nothing_over (p : Plan) : Plan.nothing.over p = p := rfl

@[simp] lemma plan_toDict (job : Job) (includeMeta : Bool) :
    (job.toDict includeMeta).plan = job.plan := rfl

lemma plan_of_restore {id : JobId} {h : JobHash} {job : Job} (hr : Job.restore id h = .ok job) :
    job.plan = h.plan := by
  unfold Job.restore at hr
  split at hr
  · cases hr
  · cases hr
    rfl

/-- The queue of the job with this hash. -/
def JobHash.queueName (h : JobHash) : QueueName := h.origin.getD ""

lemma origin_of_restore {id : JobId} {h : JobHash} {job : Job} (hr : Job.restore id h = .ok job) :
    job.origin = h.queueName := by
  unfold Job.restore at hr
  split at hr
  · cases hr
  · cases hr
    rfl

lemma queueName_update (h m : JobHash) : (h.update m).queueName = m.origin.getD h.queueName := by
  unfold JobHash.queueName JobHash.update
  cases m.origin <;> rfl

/-! ## Traces -/

/-- What the database holds about a job. -/
@[ext] structure Trace where
  restorable : Bool
  origin : QueueName
  plan : Plan
  status : Option JobStatus
  results : List Result
  /-- How often the job is in the list. -/
  lists : String → ℕ
  /-- The score of the job in the registry. -/
  registries : RegistryKind → QueueName → Option Score
  /-- The executions of the job in `StartedJobRegistry`. -/
  wip : Set (QueueName × ExecutionId)
  /-- Whether the job is among its own dependents. -/
  ownDependent : Prop

def trace (id : JobId) (s : Store) : Trace where
  restorable := (s.val (.job id)).data.isSome
  origin := (s.val (.job id)).queueName
  plan := (s.val (.job id)).plan
  status := (s.val (.job id)).status
  results := s.val (.results id)
  lists key := (s.val (.list key)).count id
  registries kind name := (s.val (.registry kind name)).score id
  wip := {e | (id, e.2) ∈ s.val (.wip e.1)}
  ownDependent := id ∈ s.val (.dependents id)

/-- The keys that the trace of a job is about. -/
def Traced (id : JobId) (k : Key) : Prop :=
  k = .job id ∨ k = .results id ∨ (∃ key, k = .list key) ∨ (∃ kind name, k = .registry kind name) ∨
    (∃ name, k = .wip name) ∨ k = .dependents id

section Trace
variable {id : JobId} {s s' : Store}

lemma trace_congr (h : ∀ k, Traced id k → s'.val k = s.val k) : trace id s' = trace id s := by
  have hhash := h (.job id) (.inl rfl)
  have hresults := h (.results id) (.inr (.inl rfl))
  have hlist := fun key => h (.list key) (.inr (.inr (.inl ⟨key, rfl⟩)))
  have hregistry := fun kind name =>
    h (.registry kind name) (.inr (.inr (.inr (.inl ⟨kind, name, rfl⟩))))
  have hwip := fun name => h (.wip name) (.inr (.inr (.inr (.inr (.inl ⟨name, rfl⟩)))))
  have hdependents := h (.dependents id) (.inr (.inr (.inr (.inr (.inr rfl)))))
  simp only [trace, hhash, hresults, hlist, hregistry, hwip, hdependents]

/-- A command about other keys. -/
lemma trace_run {c : Command Key Value} (h : ∀ k, Traced id k → c.Keeps k) :
    trace id (c.run s) = trace id s :=
  trace_congr fun k hk => h k hk s

lemma trace_seq {cs : List (Command Key Value)}
    (h : ∀ c ∈ cs, ∀ s, trace id (c.run s) = trace id s) (s : Store) :
    trace id ((Command.seq cs).run s) = trace id s := by
  induction cs generalizing s with
  | nil => rfl
  | cons c cs ih =>
    have htail := ih (fun c' hc' => h c' (List.mem_cons_of_mem c hc')) (c.run s)
    exact htail.trans (h c List.mem_cons_self s)

/-! ### The commands about the job -/

lemma trace_hset (m : JobHash) : trace id ((hset id m).run s) = { trace id s with
    restorable := m.data.isSome || (trace id s).restorable
    origin := m.origin.getD (trace id s).origin
    plan := m.plan.over (trace id s).plan
    status := m.status <|> (trace id s).status } := by
  have hdata : ((s.val (.job id)).update m).data.isSome =
      (m.data.isSome || (s.val (.job id)).data.isSome) := by
    cases hm : m.data <;> simp [JobHash.update, hm]
  ext1
  case restorable => simp [trace, hdata]
  case origin => simp [trace, queueName_update]
  case plan =>
    simp only [trace, val_hset, Function.update_self]
    rfl
  case status =>
    simp only [trace, val_hset, Function.update_self]
    rfl
  all_goals simp [trace]

lemma trace_push (key : String) (atFront : Bool) : trace id ((push key atFront id).run s) =
    { trace id s with
      lists := Function.update (trace id s).lists key ((trace id s).lists key + 1) } := by
  have hcount : (pushed atFront id (s.val (.list key))).count id =
      (s.val (.list key)).count id + 1 := by
    cases atFront <;> simp [pushed]
  ext1
  case lists =>
    funext key'
    by_cases hkey : key' = key
    · subst hkey
      simp [trace, hcount]
    · simp [trace, hkey]
  all_goals simp [trace]

lemma trace_lrem (key : String) : trace id ((lrem key id).run s) = { trace id s with
    lists := Function.update (trace id s).lists key ((trace id s).lists key - 1) } := by
  ext1
  case lists =>
    funext key'
    by_cases hkey : key' = key
    · subst hkey
      simp [trace]
    · simp [trace, hkey]
  all_goals simp [trace]

lemma trace_zadd (kind : RegistryKind) (name : QueueName) (score : Score) :
    trace id ((zadd kind name id score).run s) = { trace id s with
      registries := fun kind' name' =>
        if kind' = kind ∧ name' = name then some score else (trace id s).registries kind' name' } := by
  ext1
  case registries =>
    funext kind' name'
    by_cases hkey : kind' = kind ∧ name' = name
    · obtain ⟨rfl, rfl⟩ := hkey
      simp [trace, ZSet.score_add]
    · have hne : Key.registry kind' name' ≠ .registry kind name := by simpa using hkey
      simp [trace, hkey, hne]
  all_goals simp [trace]

lemma trace_writeResults (f : List Result → List Result) :
    trace id ((Command.write (.results id) f).run s) =
      { trace id s with results := f (trace id s).results } := by
  ext1 <;> simp [trace]

lemma trace_addExecution (name : QueueName) (execution : Execution) (ttl : ℤ) (now : Time)
    (hid : execution.jobId = id) :
    trace id ((addExecution name execution ttl false now).run s) =
      { trace id s with wip := insert (name, execution.id) (trace id s).wip } := by
  ext1
  case wip =>
    ext ⟨name', eid⟩
    by_cases hname : name' = name
    · subst hname
      simp [trace, addExecution, hid, or_comm]
    · simp [trace, addExecution, hname]
  all_goals simp [trace, addExecution]

lemma trace_removeExecution (name : QueueName) (execution : Execution)
    (hid : execution.jobId = id) :
    trace id ((removeExecution name execution).run s) =
      { trace id s with wip := (trace id s).wip \ {(name, execution.id)} } := by
  ext1
  case wip =>
    ext ⟨name', eid⟩
    by_cases hname : name' = name
    · subst hname
      simp [trace, removeExecution, hid]
    · simp [trace, removeExecution, hname]
  all_goals simp [trace, removeExecution]

lemma trace_alter {k : Key} (hk : ¬Traced id k) (f : Value k → Value k) :
    trace id ((Command.alter k f).run s) = trace id s :=
  trace_run fun _ hk' => Command.keeps_alter fun heq => hk (heq ▸ hk')

lemma trace_write {k : Key} (hk : ¬Traced id k) (f : Value k → Value k) :
    trace id ((Command.write k f).run s) = trace id s :=
  trace_run fun _ hk' => Command.keeps_write fun heq => hk (heq ▸ hk')

lemma trace_hsetWorker (name : WorkerName) (f : WorkerHash → WorkerHash) :
    trace id ((hsetWorker name f).run s) = trace id s :=
  trace_write (by simp [Traced]) _

lemma trace_expire (k : Key) (t : Time) : trace id ((Command.expire k t).run s) = trace id s :=
  trace_run fun _ _ => Command.keeps_expire

lemma trace_persist (k : Key) : trace id ((Command.persist k).run s) = trace id s :=
  trace_run fun _ _ => Command.keeps_persist

/-- `EXPIRE` of another key, which a negative time to live deletes. -/
lemma trace_expireIn {k : Key} (hk : ¬Traced id k) (ttl : ℤ) (now : Time) :
    trace id ((expire k ttl now).run s) = trace id s := by
  unfold expire
  split
  · exact trace_alter hk _
  · exact trace_expire _ _

/-! ### The commands about other jobs -/

lemma not_traced_job {id' : JobId} (h : id' ≠ id) : ¬Traced id (.job id') := by
  simp [Traced, h]

lemma trace_hset_other {id' : JobId} (h : id' ≠ id) (m : JobHash) :
    trace id ((hset id' m).run s) = trace id s :=
  trace_write (not_traced_job h) _

lemma trace_push_other {id' : JobId} (h : id' ≠ id) (key : String) (atFront : Bool) :
    trace id ((push key atFront id').run s) = trace id s := by
  have hcount : (pushed atFront id' (s.val (.list key))).count id =
      (s.val (.list key)).count id := by
    cases atFront <;> simp [pushed, h]
  ext1
  case lists =>
    funext key'
    by_cases hkey : key' = key
    · subst hkey
      simp [trace, hcount]
    · simp [trace, hkey]
  all_goals simp [trace]

lemma trace_zrem_other {id' : JobId} (h : id' ≠ id) (kind : RegistryKind) (name : QueueName) :
    trace id ((zrem kind name id').run s) = trace id s := by
  ext1
  case registries =>
    funext kind' name'
    by_cases hkey : Key.registry kind' name' = .registry kind name
    · obtain ⟨rfl, rfl⟩ : kind' = kind ∧ name' = name := by simpa using hkey
      simp [trace, ZSet.score_remove, h.symm]
    · simp [trace, hkey]
  all_goals simp [trace]

lemma trace_cleanupCommands (id' : JobId) (ttl : Option ℤ) (now : Time) (s : Store) :
    trace id ((Command.seq (cleanupCommands id' ttl now)).run s) = trace id s := by
  apply trace_seq
  intro c hc s
  unfold cleanupCommands at hc
  split at hc
  · simp only [List.mem_cons, List.not_mem_nil, or_false] at hc
    rcases hc with rfl | rfl | rfl <;> exact trace_expire _ _
  · simp at hc

/-- The origin a job has after it has been saved. -/
def Trace.originOf (t : Trace) (job : Job) : QueueName :=
  if job.origin = "" then t.origin else job.origin

/-- A job that is saved with a status. -/
lemma trace_persistCommands (job : Job) (status : JobStatus) (now : Time) (s : Store) :
    trace job.id ((Command.seq (persistCommands job status now)).run s) = { trace job.id s with
      restorable := true
      origin := (trace job.id s).originOf job
      plan := job.plan.over (trace job.id s).plan
      status := some status } := by
  have horigin : ((({ job with status := status } : Job).toDict true).origin).getD
      (trace job.id s).origin = (trace job.id s).originOf job := by
    unfold Job.toDict Trace.originOf
    dsimp only
    split <;> rfl
  have hhset := fun s => @trace_hset job.id s (({ job with status := status } : Job).toDict true)
  rw [persistCommands, Command.seq_append_run, trace_cleanupCommands, Command.seq_cons_run,
    Command.seq_cons_run, Command.seq_nil_run, hhset, trace_hset]
  ext1
  case origin => exact horigin
  all_goals rfl

/-- Adds one place in a list. -/
def Trace.listed (t : Trace) (key : String) : Trace :=
  { t with lists := Function.update t.lists key (t.lists key + 1) }

/-- A job that is moved to a queue. -/
lemma trace_enqueueCommands (queue : Queue) {job : Job} (hdeferred : job.status ≠ .deferred)
    (atFront : Bool) (now : Time) (s : Store) :
    trace job.id ((Command.seq (enqueueCommands queue job atFront now)).run s) =
      Trace.listed { trace job.id s with
        restorable := true
        origin := if queue.name = "" then (trace job.id s).origin else queue.name
        plan := job.plan.over (trace job.id s).plan
        status := some .queued } queue.key := by
  have hpersist := trace_persistCommands (queue._prepareForQueue job now) .queued now s
  rw [enqueueCommands, if_neg hdeferred, List.nil_append, Command.seq_append_run,
    Command.seq_cons_run, Command.seq_nil_run, trace_push]
  have hid : (queue._prepareForQueue job now).id = job.id := rfl
  rw [hid] at hpersist
  rw [hpersist]
  rfl

lemma trace_enqueueCommand_other {queue : Queue} {job : Job} (h : job.id ≠ id) {now : Time}
    {c : Command Key Value} (hc : EnqueueCommand queue job now c) (s : Store) :
    trace id (c.run s) = trace id s := by
  cases hc with
  | undefer => exact trace_zrem_other h _ _
  | status => exact trace_hset_other h _
  | save => exact trace_hset_other h _
  | expire k t => exact trace_expire k t
  | push atFront => exact trace_push_other h _ _

/-- What is left of the dependents of a job is among them. -/
lemma trace_forgetCommand (hself : ¬(trace id s).ownDependent) (s' : Store) (id' : JobId)
    (jobs : List Job) : trace id ((Queue.forgetCommand s' id' jobs).run s) = trace id s := by
  have hval := fun k (hk : k ≠ Key.dependents id') => Queue.val_forgetCommand hk s' s jobs
  have hdependents : ¬id ∈ ((Queue.forgetCommand s' id' jobs).run s).val (.dependents id) := by
    by_cases hid : id = id'
    · subst hid
      unfold Queue.forgetCommand
      split
      · rw [Command.val_del, Function.update_self]
        exact RSet.notMem_empty id
      · rw [Command.val_alter, Function.update_self, RSet.mem_eraseAll]
        exact fun hmem => hself hmem.1
    · rw [hval _ (by simpa using hid)]
      exact hself
  ext1
  case ownDependent => exact propext (iff_of_false hdependents hself)
  all_goals simp [trace, hval]

/-- The release of dependents is about other jobs. -/
lemma trace_releaseAll (queue : Queue) {jobs : List Job} (hjobs : ∀ job ∈ jobs, job.id ≠ id)
    (hself : ¬(trace id s).ownDependent) (s' : Store) (id' : JobId) (now : Time) :
    trace id ((Command.seq (queue.releaseAll s' id' jobs now)).run s) = trace id s := by
  unfold Queue.releaseAll
  split
  · rfl
  · have hrelease : ∀ s, trace id ((Command.seq (queue.releaseCommands jobs now)).run s) =
        trace id s := trace_seq fun c hc s => by
      obtain ⟨job, hjob, hc⟩ := Queue.mem_releaseCommands hc
      rcases hc with rfl | hc
      · exact trace_zrem_other (hjobs job hjob) _ _
      · exact trace_enqueueCommand_other (hjobs job hjob) hc s
    rw [Command.seq_append_run, Command.seq_cons_run, Command.seq_nil_run,
      trace_forgetCommand (by rwa [hrelease]), hrelease]

/-! ### A job that is to run again -/

/-- What is written at once when a job is to run again. -/
def againNow (queue : Queue) (job : Job) (interval : ℕ) (now : Time) : List (Command Key Value) :=
  if interval = 0 then []
  else [hset job.id { status := some .scheduled },
    zadd .scheduled queue.name job.id ((now + interval : ℤ) : Score)]

/-- What is added to the pipeline. -/
def againLater (queue : Queue) (job : Job) (interval : ℕ) (atFront : Bool) (now : Time) :
    List (Command Key Value) :=
  if interval = 0 then enqueueCommands queue job atFront now
  else (.alter .queues fun q => q.insert queue.key) ::
    persistCommands { job with status := .scheduled } .scheduled now

/-- The job is scheduled. -/
def Trace.scheduled (t : Trace) (name : QueueName) (score : Score) : Trace :=
  { t with
    status := some .scheduled
    registries := fun kind' name' =>
      if kind' = .scheduled ∧ name' = name then some score else t.registries kind' name' }

/-- The job has been saved by `job`. -/
def Trace.saved (t : Trace) (job : Job) (name : QueueName) : Trace :=
  { t with
    restorable := true
    origin := if name = "" then t.origin else name
    plan := job.plan.over t.plan }

/-- The execution has ended. -/
def Trace.ended (t : Trace) (e : QueueName × ExecutionId) : Trace :=
  { t with wip := t.wip \ {e} }

/-- The job is to run again after the interval. -/
def Trace.again (t : Trace) (queue : Queue) (job : Job) (interval : ℕ) (now : Time) : Trace :=
  if interval = 0 then
    Trace.listed { t.saved job queue.name with status := some .queued } queue.key
  else (t.saved job job.origin).scheduled queue.name ((now + interval : ℤ) : Score)

lemma trace_againNow (queue : Queue) (job : Job) (interval : ℕ) (now : Time) (s : Store) :
    trace job.id ((Command.seq (againNow queue job interval now)).run s) =
      if interval = 0 then trace job.id s
      else (trace job.id s).scheduled queue.name ((now + interval : ℤ) : Score) := by
  unfold againNow
  split
  · rfl
  · rw [Command.seq_cons_run, Command.seq_cons_run, Command.seq_nil_run, trace_zadd, trace_hset]
    rfl

lemma trace_againLater (queue : Queue) {job : Job} (hdeferred : job.status ≠ .deferred)
    (interval : ℕ) (atFront : Bool) (now : Time) (s : Store) :
    trace job.id ((Command.seq (againLater queue job interval atFront now)).run s) =
      if interval = 0 then
        Trace.listed { (trace job.id s).saved job queue.name with status := some .queued } queue.key
      else { (trace job.id s).saved job job.origin with status := some .scheduled } := by
  unfold againLater
  split
  · exact trace_enqueueCommands queue hdeferred atFront now s
  · rw [Command.seq_cons_run, trace_persistCommands { job with status := .scheduled },
      trace_alter (by simp [Traced])]
    rfl

end Trace

/-! ## Executions -/

namespace Worker

variable {id : JobId} {s : Store} {pipe : Pipeline Key Value}

/-- What `prepare_execution` executes. -/
def prepareCommands (self : Worker) (job : Job) (eid : ExecutionId) (now : Time) :
    List (Command Key Value) :=
  [.write (.execution job.id eid) fun _ => ⟨some now, some now⟩,
    expire (.execution job.id eid) (self.getHeartbeatTtl job) now,
    .alter (.executions job.id) fun z =>
      z.add eid (((now + self.getHeartbeatTtl job) + 60 : ℤ) : Score),
    expire (.executions job.id) (self.getHeartbeatTtl job + 60) now,
    addExecution job.origin ⟨eid, job.id, now, now⟩ (self.getHeartbeatTtl job) false now,
    self.setState "busy"]

lemma run_prepareExecution (self : Worker) (job : Job) (eid : ExecutionId) (now : Time)
    (s : Store) : (self.prepareExecution job eid now).run s =
      (.ok { self with execution := some ⟨eid, job.id, now, now⟩ },
        (Command.seq (self.prepareCommands job eid now)).run s) := by
  simp [prepareExecution, Execution.create, ExecutionRegistry.add, Client.command_buffer,
    Pipeline.execute_of_unwatched, prepareCommands, Prog.run_exec]

/-- The execution is recorded. -/
lemma trace_prepareCommands (self : Worker) (job : Job) (eid : ExecutionId) (now : Time)
    (s : Store) : trace job.id ((Command.seq (self.prepareCommands job eid now)).run s) =
      { trace job.id s with wip := insert (job.origin, eid) (trace job.id s).wip } := by
  simp only [prepareCommands, Command.seq_cons_run, Command.seq_nil_run, setState]
  rw [trace_hsetWorker, @trace_addExecution job.id _ _ _ _ _ rfl, trace_expireIn (by simp [Traced]),
    trace_alter (by simp [Traced]), trace_expireIn (by simp [Traced]),
    trace_write (by simp [Traced])]

/-- What `prepare_job_execution` executes. -/
def startCommands (self : Worker) (job : Job) (removeFromIntermediateQueue : Bool) (now : Time) :
    List (Command Key Value) :=
  [self.setCurrentJobId (some job.id),
    hsetWorker self.name fun h => { h with currentJobWorkingTime := some 0 },
    hsetWorker self.name fun h => { h with lastHeartbeat := some now },
    expire (.worker self.name)
      (({ self with currentJobWorkingTime := 0 } : Worker).getHeartbeatTtl job) now,
    hset job.id { lastHeartbeat := some (some now) },
    hset job.id {
      lastHeartbeat := some (some now), status := some .started, startedAt := some (some now),
      workerName := some (some self.name) }] ++
    if removeFromIntermediateQueue
      then [lrem (intermediateQueueKey (queueKey job.origin)) job.id] else []

lemma run_prepareJobExecution (self : Worker) (job : Job) (removeFromIntermediateQueue : Bool)
    (now : Time) (s : Store) :
    (self.prepareJobExecution job removeFromIntermediateQueue now).run s =
      (.ok ({ self with currentJobWorkingTime := 0 }, { job with
        workerName := some self.name, lastHeartbeat := some now, startedAt := some now,
        status := .started }),
        (Command.seq (self.startCommands job removeFromIntermediateQueue now)).run s) := by
  cases removeFromIntermediateQueue <;>
    simp [prepareJobExecution, setCurrentJobWorkingTime, heartbeat, Job.heartbeat,
      Job.prepareForExecution, Client.command_buffer, Pipeline.execute_of_unwatched,
      startCommands, Prog.run_exec]

/-- The job is started. -/
lemma trace_startCommands (self : Worker) (job : Job) (removeFromIntermediateQueue : Bool)
    (now : Time) (s : Store) :
    trace job.id ((Command.seq (self.startCommands job removeFromIntermediateQueue now)).run s) =
      { trace job.id s with
        status := some .started
        lists := if removeFromIntermediateQueue
          then Function.update (trace job.id s).lists (intermediateQueueKey (queueKey job.origin))
            ((trace job.id s).lists (intermediateQueueKey (queueKey job.origin)) - 1)
          else (trace job.id s).lists } := by
  have hstarted : trace job.id ((Command.seq (self.startCommands job false now)).run s) =
      { trace job.id s with status := some .started } := by
    simp only [startCommands, Bool.false_eq_true, if_false, List.append_nil, Command.seq_cons_run,
      Command.seq_nil_run, setCurrentJobId]
    rw [trace_hset, trace_hset, trace_expireIn (by simp [Traced]), trace_hsetWorker,
      trace_hsetWorker, trace_hsetWorker]
    rfl
  cases removeFromIntermediateQueue with
  | false => exact hstarted
  | true =>
    have hsplit : self.startCommands job true now = self.startCommands job false now ++
        [lrem (intermediateQueueKey (queueKey job.origin)) job.id] := by
      simp [startCommands]
    rw [hsplit, Command.seq_append_run, Command.seq_cons_run, Command.seq_nil_run, trace_lrem,
      hstarted]
    rfl

/-- What `cleanup_execution` leaves. -/
lemma trace_endCommands {self : Worker} {eid : ExecutionId} {createdAt lastHeartbeat : Time}
    {job : Job} (hexecution : self.execution = some ⟨eid, job.id, createdAt, lastHeartbeat⟩)
    (s : Store) : trace job.id ((Command.seq (self.endCommands job)).run s) =
      (trace job.id s).ended (job.origin, eid) := by
  simp only [endCommands, hexecution, Execution.deleteCommands, Command.seq_cons_run,
    Command.seq_nil_run, setCurrentJobId, ExecutionRegistry.remove]
  rw [trace_alter (by simp [Traced]), @trace_removeExecution job.id _ _ _ rfl, Command.del,
    trace_alter (by simp [Traced]), trace_hsetWorker]
  rfl

end Worker
end RedisQueue
