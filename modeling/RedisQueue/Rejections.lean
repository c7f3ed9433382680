import RedisQueue.Enqueueing

/-!
# Rejections

The exceptions by which a call refuses its arguments: those of the validation of a batch, of
`create_job` and of the scripts for unique jobs. Nothing that runs once a job is accepted raises one
of them.

* `Queue.unrejected_enqueueJobOn`: `_enqueue_job` without `unique`, also of a synchronous queue;
* `Queue.unrejected_enqueueMet`, `unrejected_getJobsWithMetDependencies`: the dependent entries.
-/

namespace RedisQueue

open Prog

/-- The texts of the `ValueError`s of the validation of a batch and of `create_job`. -/
def rejections : List String :=
  ["unique=True is not supported with job dependencies", "unique=True requires an explicit job_id",
    "0 timeout is not allowed. Use -1 for infinite timeout", "Job ttl must be greater than 0",
    "Job ID must only contain letters, numbers, underscores and dashes"]

/-- The exception says that a call does not accept its arguments. -/
def PyError.Rejects : PyError → Prop
  | .duplicateJobError _ => True
  | .valueError msg => msg ∈ rejections
  | _ => False

lemma not_rejects_of_head {msg : String} (h : msg.toList.head? = some 'E') :
    ¬(PyError.valueError msg).Rejects := by
  have hheads : ∀ text ∈ rejections, text.toList.head? ≠ some 'E' := by decide
  exact fun hmem => hheads msg hmem h

/-- The program refuses nothing. -/
abbrev Unrejected {α : Type} (p : Redis α) : Prop := p.Raises fun e => ¬e.Rejects

lemma Unrejected.not_rejects {α : Type} {p : Redis α} {s s' : Store} {e : PyError}
    (h : Unrejected p) (hrun : p.run s = (.error e, s')) : ¬e.Rejects := Raises.run h hrun

variable {client : Client} {pipe : Pipeline Key Value} {now : Time}

/-! ## Pipelines -/

lemma unrejected_command {c : Command Key Value} : Unrejected (Client.command client c) := by
  have hcommand : ∀ pipe : Pipeline Key Value, Unrejected (pipe.command c) := fun pipe => by
    unfold Pipeline.command
    split
    · exact raises_perform.bind fun _ => trivial
    · trivial
  cases client with
  | none => exact raises_perform.bind fun _ => trivial
  | some pipe => exact (hcommand pipe).bind fun _ => trivial

lemma unrejected_watch {ks : List Key} : Unrejected (pipe.watch ks) := by
  unfold Pipeline.watch
  split
  · exact not_false
  · split
    · exact not_false
    · exact raises_read

lemma unrejected_query {α : Type} {f : Store → α} : Unrejected (Client.query client f) := by
  cases client with
  | none => exact raises_read
  | some pipe =>
    unfold Client.query Pipeline.query
    dsimp only
    split
    · exact raises_read
    · exact not_false

lemma unrejected_execute : Unrejected pipe.execute := by
  unfold Pipeline.execute
  split
  · trivial
  · exact fun _ => trivial

/-! ## Executions and results -/

lemma unrejected_getExecutions {jobId : JobId} :
    Unrejected (ExecutionRegistry.getExecutions jobId now) := by
  have hfetch : ∀ id, Unrejected (Execution.fetch id jobId) := fun id => by
    unfold Execution.fetch
    refine raises_read.bind fun data => ?_
    split
    · -- the text of this `ValueError` is not that of a rejection
      exact not_rejects_of_head (by simp [show toString "Execution " = "Execution " from rfl])
    · split
      · trivial
      · exact not_false
      · exact not_false
  have hall : ∀ ids, Unrejected (ExecutionRegistry.fetchAll jobId ids) := fun ids => by
    induction ids with
    | nil => trivial
    | cons id ids ih => exact (hfetch id).bind fun _ => ih.bind fun _ => trivial
  exact (raises_perform.bind fun _ => raises_read).bind hall

lemma unrejected_deleteExecutions {job : Job} :
    Unrejected (ExecutionRegistry.delete job client now) := by
  have hdelete : ∀ {client} (execution : Execution), Unrejected (execution.delete job client) :=
    fun _ => unrejected_command.bind fun _ => unrejected_command.bind fun _ => unrejected_command
  have hall : ∀ executions client,
      Unrejected (ExecutionRegistry.deleteAll job executions client) := fun executions => by
    induction executions with
    | nil => exact fun _ => trivial
    | cons execution executions ih => exact fun _ => (hdelete execution).bind ih
  exact unrejected_getExecutions.bind fun _ => (hall _ _).bind fun _ => unrejected_command

lemma unrejected_saveResult {result : Result} {jobId : JobId} {ttl : Option ℤ} :
    Unrejected (result.save jobId ttl client now) := by
  unfold Result.save
  refine unrejected_command.bind fun _ => ?_
  split
  · trivial
  · split <;> exact unrejected_command

/-! ## Jobs -/

namespace Job
variable {self : Job}

lemma unrejected_getStatus {refresh : Bool} : Unrejected (self.getStatus refresh) := by
  unfold getStatus
  split
  · refine raises_read.bind fun status => ?_
    split
    · exact not_false
    · trivial
  · trivial

lemma unrejected_isStatus {status : JobStatus} : Unrejected (self.isStatus status) :=
  unrejected_getStatus.bind fun _ => trivial

lemma unrejected_setStatus {status : JobStatus} : Unrejected (self.setStatus status client) :=
  unrejected_command.bind fun _ => trivial

lemma unrejected_leave {kind : RegistryKind} : Unrejected (self.leave kind client) :=
  unrejected_command.bind fun _ => trivial

lemma unrejected_removeExecutions : Unrejected (removeExecutions self client now) := by
  refine unrejected_getExecutions.bind fun executions => ?_
  split
  · trivial
  · exact unrejected_command

lemma unrejected_isFailedOrStopped : Unrejected self.isFailedOrStopped := by
  refine unrejected_isStatus.bind fun r => ?_
  obtain ⟨_ | _, job⟩ := r
  · exact unrejected_isStatus
  · trivial

lemma unrejected_leaveRegistry : Unrejected (self.leaveRegistry client now) := by
  have hcanceled : ∀ job : Job, Unrejected (do
      let r ← job.isStatus .canceled
      if r.1 then r.2.leave .canceled client else return (r.2, client) :
        Redis (Job × Client)) := fun job => by
    refine unrejected_isStatus.bind fun r => ?_
    obtain ⟨_ | _, job⟩ := r
    · trivial
    · exact unrejected_leave
  refine unrejected_isStatus.bind fun r => ?_
  obtain ⟨_ | _, job⟩ := r
  swap
  · exact unrejected_leave
  refine unrejected_isStatus.bind fun r => ?_
  obtain ⟨_ | _, job⟩ := r
  swap
  · exact unrejected_leave
  refine unrejected_isStatus.bind fun r => ?_
  obtain ⟨_ | _, job⟩ := r
  swap
  · exact unrejected_removeExecutions.bind fun _ => trivial
  refine unrejected_isStatus.bind fun r => ?_
  obtain ⟨_ | _, job⟩ := r
  swap
  · exact unrejected_leave
  refine unrejected_isFailedOrStopped.bind fun r => ?_
  obtain ⟨_ | _, job⟩ := r
  · exact hcanceled job
  · exact unrejected_leave

lemma unrejected_delete {removeFromQueue : Bool} :
    Unrejected (self.delete client removeFromQueue now) := by
  have hregistries :
      Unrejected (self._removeFromRegistries client removeFromQueue now) := by
    unfold _removeFromRegistries
    cases removeFromQueue
    · exact unrejected_leaveRegistry
    · exact unrejected_command.bind fun _ => unrejected_leaveRegistry
  have hgroup : ∀ {job : Job} groupId client, Unrejected (job.leaveGroup groupId client) :=
    fun groupId client => by
      refine raises_read.bind fun present => ?_
      split
      · exact unrejected_command
      · exact not_false
  refine hregistries.bind fun r => unrejected_deleteExecutions.bind fun client => ?_
  dsimp only
  cases r.1.groupId with
  | none => exact unrejected_command.bind fun _ => trivial
  | some groupId =>
    exact (hgroup groupId client).bind fun _ => unrejected_command.bind fun _ => trivial

lemma unrejected_cleanup {ttl : Option ℤ} {removeFromQueue : Bool} :
    Unrejected (self.cleanup ttl client removeFromQueue now) := by
  unfold cleanup
  split
  · trivial
  · split
    · exact unrejected_delete
    · split
      · exact unrejected_command.bind fun _ => unrejected_command.bind fun _ =>
          unrejected_command.bind fun _ => trivial
      · trivial

lemma unrejected_handleFailure {excString : String} {info : ExecutionInfo} :
    Unrejected (self._handleFailure excString client info now) := by
  have hadd : ∀ ttl, Unrejected (self.addToFailed ttl client now) := fun ttl =>
    unrejected_command.bind fun _ => unrejected_cleanup.bind fun _ =>
      unrejected_command.bind fun _ => trivial
  exact (hadd _).bind fun _ => unrejected_saveResult.bind fun _ => trivial

lemma unrejected_registerDependency : Unrejected (self.registerDependency client now) := by
  have hloop : ∀ ids client, Unrejected (self.registerDependencyLoop ids client) := fun ids => by
    induction ids with
    | nil => exact fun _ => trivial
    | cons id ids ih =>
      exact fun _ => unrejected_command.bind fun _ => unrejected_command.bind ih
  exact unrejected_command.bind fun _ => hloop _ _

lemma unrejected_dependenciesAreMet :
    Unrejected (self.dependenciesAreMet none client none true) := by
  have hall : ∀ ids, Unrejected (self.statusesAreAllowed ids) := fun ids => raises_read
  unfold dependenciesAreMet
  have hrest : ∀ client : Client, Unrejected (do
      let ids ← client.query fun s => (s.val (.dependencies self.id)).elems
      let met ← self.statusesAreAllowed (dropExcluded none ids)
      return (met, (none : Option Job), client) : Redis (Bool × Option Job × Client)) :=
    fun client => unrejected_query.bind fun ids => (hall _).bind fun _ => trivial
  cases client with
  | none => exact hrest none
  | some pipe => exact (unrejected_watch.map _).bind hrest

end Job

/-! ## Queues -/

namespace Queue
variable {self : Queue} {job : Job}

lemma unrejected_persistJob {status : JobStatus} :
    Unrejected (_persistJob job client status now) :=
  Job.unrejected_setStatus.bind fun _ => unrejected_command.bind fun _ => Job.unrejected_cleanup

lemma unrejected_enqueueJob {atFront : Bool} :
    Unrejected (self._enqueueJob job client atFront false now) := by
  have hpipeline : ∀ {job : Job} {isDeferred client},
      Unrejected (self.enqueueOnPipeline job isDeferred client atFront now) :=
    fun {_ isDeferred _} => by
    cases isDeferred
    · exact unrejected_persistJob.bind fun _ => unrejected_command.bind fun _ => trivial
    · exact unrejected_command.bind fun _ => unrejected_persistJob.bind fun _ =>
        unrejected_command.bind fun _ => trivial
  cases client with
  | none => exact hpipeline.bind fun _ => unrejected_execute.bind fun _ => trivial
  | some pipe => exact hpipeline

lemma unrejected_runSync {code : SyncCode} : Unrejected (runSync code job now) := by
  have hraising : ∀ e job, Unrejected (raising e job) := fun e job => by
    cases e with
    | none => trivial
    | some e => exact not_false
  have hrun : ∀ job, Unrejected (runJob code job now) := fun job => by
    unfold runJob
    refine raises_perform.bind fun _ => ?_
    split
    · trivial
    · refine Raises.bind (Raises.tryCatch fun e => ?_) fun r => ?_
      · split
        · next he => exact he ▸ not_false
        · trivial
      · cases r <;> trivial
  have hprepare : Unrejected (job.prepareForExecution "sync" (some {}) now) :=
    unrejected_command.bind fun _ => trivial
  refine hprepare.bind fun _ => (hrun _).bind fun r => ?_
  obtain ⟨e | u, job⟩ := r
  · exact Job.unrejected_setStatus.bind fun _ => Job.unrejected_handleFailure.bind fun _ =>
      unrejected_execute.bind fun _ => hraising _ _
  · exact hraising _ _

lemma unrejected_enqueueSyncJob {code : SyncCode} :
    Unrejected (self._enqueueSyncJob code job client false now) := by
  have hpersist : ∀ {job : Job} {isDeferred client},
      Unrejected (self.persistOnPipeline job isDeferred client now) := fun {_ isDeferred _} => by
    cases isDeferred
    · exact unrejected_persistJob
    · exact unrejected_command.bind fun _ => unrejected_persistJob
  cases client with
  | none =>
    exact hpersist.bind fun _ => unrejected_execute.bind fun _ => unrejected_runSync.bind fun _ =>
      trivial
  | some pipe => exact hpersist.bind fun _ => unrejected_runSync.bind fun _ => trivial

lemma unrejected_enqueueJobOn {sync : Option SyncCode} {atFront : Bool} :
    Unrejected (self._enqueueJobOn sync job client atFront false now) := by
  cases sync with
  | none => exact unrejected_enqueueJob
  | some code => exact unrejected_enqueueSyncJob

lemma unrejected_executeOwn {caller : Client} : Unrejected (executeOwn caller client) := by
  cases caller with
  | none => exact unrejected_execute.bind fun _ => trivial
  | some pipe => trivial

lemma unrejected_checkDependencies {fuel : ℕ} :
    Unrejected (checkDependencies job now fuel pipe) := by
  induction fuel generalizing pipe with
  | zero => exact not_false
  | succ fuel ih =>
    refine unrejected_watch.bind fun _ => Job.unrejected_registerDependency.bind fun _ =>
      Job.unrejected_dependenciesAreMet.bind fun _ => unrejected_execute.bind fun committed => ?_
    cases committed
    · exact ih.bind fun _ => trivial
    · trivial

lemma unrejected_getJobsWithMetDependencies {fuel : ℕ} {jobs : List (ℕ × Job)} :
    Unrejected (getJobsWithMetDependencies now fuel jobs pipe) := by
  induction jobs generalizing pipe with
  | nil => trivial
  | cons job jobs ih => exact unrejected_checkDependencies.bind fun _ => ih.bind fun _ => trivial

lemma unrejected_enqueueMet {sync : Option SyncCode} {jobs enqueued : List (ℕ × Job)} :
    Unrejected (self.enqueueMet sync now jobs enqueued client) := by
  induction jobs generalizing enqueued client with
  | nil => trivial
  | cons job jobs ih => exact unrejected_enqueueJobOn.bind fun _ => ih

lemma unrejected_rebuild {resultMap : List (ℕ × Job)} {n : ℕ} {e : PyError}
    (h : rebuild resultMap n = .error e) : ¬e.Rejects := by
  have hlist : ∀ is : List ℕ, is.mapM (resultAt resultMap) = .error e → ¬e.Rejects := fun is => by
    induction is with
    | nil => exact nofun
    | cons i is ih =>
      rw [List.mapM_cons]
      cases hi : resultAt resultMap i with
      | error e' =>
        unfold resultAt at hi
        split at hi
        · cases hi
        · cases hi
          intro h
          cases h
          exact not_false
      | ok job =>
        cases his : is.mapM (resultAt resultMap) with
        | error e' =>
          intro h
          cases h
          exact ih his
        | ok jobs => exact nofun
  exact hlist _ h

end Queue

end RedisQueue
