import RedisQueue.Worker

/-!
# Methods that commit nothing under a watch

The methods that only fill a pipeline do not execute it. A conflict of `handle_job_success` can
therefore only be met by its own `pipeline.execute()`.

* `Worker.unguarded_handleJobSuccessAttempt`: one iteration commits nothing before its `EXEC`.
-/

namespace RedisQueue

open Prog

variable {pipe : Pipeline Key Value} {now : Time}

/-! ## Pipelines -/

lemma unguarded_watch {ks : List Key} {Q : Pipeline Key Value → Prop} (hQ : ∀ pipe, Q pipe) :
    (pipe.watch ks : Redis (Pipeline Key Value)).Unguarded Q := by
  unfold Pipeline.watch
  split
  · trivial
  · split
    · trivial
    · exact fun s => hQ _

lemma unguarded_multi {Q : Pipeline Key Value → Prop} (hQ : ∀ pipe, Q pipe) :
    (pipe.multi : Redis (Pipeline Key Value)).Unguarded Q := by
  unfold Pipeline.multi
  split
  · trivial
  · split
    · trivial
    · exact hQ _

lemma unguarded_command {c : Command Key Value} {Q : Client → Prop} (hQ : ∀ pipe, Q (some pipe)) :
    (Client.command (some pipe) c).Unguarded Q := by
  unfold Client.command Pipeline.command
  dsimp only
  split
  · exact fun s => hQ _
  · exact hQ _

lemma unguarded_query {α : Type} {f : Store → α} {Q : α → Prop} (hQ : ∀ a, Q a) :
    (Client.query (some pipe) f).Unguarded Q := by
  unfold Client.query Pipeline.query
  dsimp only
  split
  · exact fun s => hQ _
  · trivial

/-! ## Executions and results -/

lemma unguarded_getExecutions {jobId : JobId} {Q : List Execution → Prop}
    (hQ : ∀ executions, Q executions) : (ExecutionRegistry.getExecutions jobId now).Unguarded Q := by
  have hfetch : ∀ id {R : Execution → Prop}, (∀ e, R e) →
      (Execution.fetch id jobId).Unguarded R := fun id R hR => by
    unfold Execution.fetch
    rw [unguarded_bind, unguarded_read]
    intro s
    split
    · trivial
    · split
      · exact hR _
      · trivial
      · trivial
  have hall : ∀ ids {R : List Execution → Prop}, (∀ es, R es) →
      (ExecutionRegistry.fetchAll jobId ids).Unguarded R := fun ids => by
    induction ids with
    | nil => exact fun hR => hR _
    | cons id ids ih =>
      intro R hR
      simp only [ExecutionRegistry.fetchAll, unguarded_bind]
      exact hfetch id fun e => ih fun es => hR _
  simp only [ExecutionRegistry.getExecutions, ExecutionRegistry.getExecutionIds, unguarded_bind]
  exact fun _ _ => hall _ hQ

lemma unguarded_deleteExecution {execution : Execution} {job : Job} {Q : Client → Prop}
    (hQ : ∀ pipe, Q (some pipe)) : (execution.delete job (some pipe)).Unguarded Q := by
  simp only [Execution.delete, unguarded_bind]
  exact unguarded_command fun _ => unguarded_command fun _ => unguarded_command hQ

lemma unguarded_deleteAll {job : Job} {executions : List Execution} {Q : Client → Prop}
    (hQ : ∀ pipe, Q (some pipe)) :
    (ExecutionRegistry.deleteAll job executions (some pipe)).Unguarded Q := by
  induction executions generalizing pipe with
  | nil => exact hQ pipe
  | cons execution executions ih =>
    simp only [ExecutionRegistry.deleteAll, unguarded_bind]
    exact unguarded_deleteExecution fun _ => ih

lemma unguarded_saveResult {result : Result} {jobId : JobId} {ttl : Option ℤ} {Q : Client → Prop}
    (hQ : ∀ pipe, Q (some pipe)) : (result.save jobId ttl (some pipe) now).Unguarded Q := by
  simp only [Result.save, unguarded_bind]
  refine unguarded_command fun pipe => ?_
  split
  · exact hQ pipe
  · split <;> exact unguarded_command hQ

/-! ## Jobs -/

namespace Job

lemma unguarded_getStatus {self : Job} {refresh : Bool} {Q : JobStatus × Job → Prop}
    (hQ : ∀ r, Q r) : (self.getStatus refresh).Unguarded Q := by
  unfold getStatus
  split
  · rw [unguarded_bind, unguarded_read]
    intro s
    split
    · trivial
    · exact hQ _
  · exact hQ _

lemma unguarded_setStatus {self : Job} {status : JobStatus} {Q : Job × Client → Prop}
    (hQ : ∀ job pipe, Q (job, some pipe)) : (self.setStatus status (some pipe)).Unguarded Q := by
  simp only [setStatus, unguarded_bind]
  exact unguarded_command fun _ => hQ _ _

lemma unguarded_fetchMany {ids : List JobId} {Q : List (Option Job) → Prop} (hQ : ∀ r, Q r) :
    (fetchMany ids).Unguarded Q := by
  simp only [fetchMany, unguarded_bind]
  intro s
  simp only [unguarded_ofExcept]
  exact fun r _ => hQ r

lemma unguarded_isStatus {self : Job} {status : JobStatus} {Q : Bool × Job → Prop}
    (hQ : ∀ b job, Q (b, job)) : (self.isStatus status).Unguarded Q := by
  simp only [isStatus, unguarded_bind]
  exact unguarded_getStatus fun _ => hQ _ _

lemma unguarded_save {self : Job} {includeMeta : Bool} {Q : Client → Prop}
    (hQ : ∀ pipe, Q (some pipe)) : (self.save (some pipe) includeMeta).Unguarded Q :=
  unguarded_command hQ

lemma unguarded_leave {self : Job} {kind : RegistryKind} {Q : Job × Client → Prop}
    (hQ : ∀ job pipe, Q (job, some pipe)) : (self.leave kind (some pipe)).Unguarded Q := by
  simp only [leave, unguarded_bind]
  exact unguarded_command fun _ => hQ _ _

lemma unguarded_leaveRegistry {self : Job} {Q : Job × Client → Prop}
    (hQ : ∀ job pipe, Q (job, some pipe)) :
    (self.leaveRegistry (some pipe) now).Unguarded Q := by
  have hremove : ∀ (job : Job) {R : Client → Prop}, (∀ pipe, R (some pipe)) →
      (removeExecutions job (some pipe) now).Unguarded R := fun job R hR => by
    simp only [removeExecutions, unguarded_bind]
    refine unguarded_getExecutions fun executions => ?_
    split
    · exact hR pipe
    · exact unguarded_command hR
  have hleave : ∀ (job : Job) kind, (job.leave kind (some pipe)).Unguarded Q :=
    fun _ _ => unguarded_leave hQ
  simp only [leaveRegistry, isFailedOrStopped, unguarded_bind]
  refine unguarded_isStatus fun isFinished job => ?_
  split
  · exact hleave _ _
  rw [unguarded_bind]
  refine unguarded_isStatus fun isDeferred job => ?_
  split
  · exact hleave _ _
  rw [unguarded_bind]
  refine unguarded_isStatus fun isStarted job => ?_
  split
  · rw [unguarded_bind]
    exact hremove _ fun _ => hQ _ _
  rw [unguarded_bind]
  refine unguarded_isStatus fun isScheduled job => ?_
  split
  · exact hleave _ _
  simp only [unguarded_bind]
  have hcanceled : ∀ job : Job, (do
      let r ← job.isStatus .canceled
      if r.1 then r.2.leave .canceled (some pipe) else return (r.2, some pipe) :
        Redis (Job × Client)).Unguarded Q := fun job => by
    rw [unguarded_bind]
    refine unguarded_isStatus fun isCanceled job => ?_
    cases isCanceled with
    | true => exact hleave _ _
    | false => exact hQ _ _
  refine unguarded_isStatus fun isFailed job => ?_
  split
  · exact hleave _ _
  refine unguarded_isStatus fun isStopped job => ?_
  cases isStopped with
  | true => exact hleave _ _
  | false => exact hcanceled _

lemma unguarded_removeFromRegistries {self : Job} {removeFromQueue : Bool}
    {Q : Job × Client → Prop} (hQ : ∀ job pipe, Q (job, some pipe)) :
    (self._removeFromRegistries (some pipe) removeFromQueue now).Unguarded Q := by
  unfold _removeFromRegistries
  cases removeFromQueue
  · exact unguarded_leaveRegistry hQ
  · rw [if_pos rfl, unguarded_bind]
    exact unguarded_command fun _ => unguarded_leaveRegistry hQ

lemma unguarded_delete {self : Job} {removeFromQueue : Bool} {Q : Job × Client → Prop}
    (hQ : ∀ job pipe, Q (job, some pipe)) :
    (self.delete (some pipe) removeFromQueue now).Unguarded Q := by
  unfold delete
  rw [unguarded_bind]
  refine unguarded_removeFromRegistries fun job pipe => ?_
  have hend : ∀ (c : Command Key Value) (pipe : Pipeline Key Value),
      (Client.command (some pipe) c).Unguarded fun client => Q (job, client) :=
    fun c pipe => unguarded_command fun _ => hQ _ _
  simp only [ExecutionRegistry.delete, unguarded_bind]
  refine unguarded_getExecutions fun _ => unguarded_deleteAll fun _ => unguarded_command fun _ => ?_
  cases job.groupId with
  | none =>
    simp only [unguarded_bind]
    exact hend _ _
  | some groupId =>
    simp only [leaveGroup, unguarded_bind, unguarded_read]
    intro s
    split
    · exact unguarded_command fun _ => hend _ _
    · trivial

lemma unguarded_cleanup {self : Job} {ttl : Option ℤ} {removeFromQueue : Bool}
    {Q : Job × Client → Prop} (hQ : ∀ job pipe, Q (job, some pipe)) :
    (self.cleanup ttl (some pipe) removeFromQueue now).Unguarded Q := by
  unfold cleanup
  split
  · exact hQ _ pipe
  · split
    · exact unguarded_delete hQ
    · split
      · simp only [unguarded_bind]
        exact unguarded_command fun _ => unguarded_command fun _ => unguarded_command fun _ =>
          hQ _ _
      · exact hQ _ pipe

lemma unguarded_handleSuccess {self : Job} {resultTtl : ℤ} {info : ExecutionInfo}
    {Q : Job × Client → Prop} (hQ : ∀ job pipe, Q (job, some pipe)) :
    (self._handleSuccess resultTtl (some pipe) info now).Unguarded Q := by
  simp only [_handleSuccess, createResult, unguarded_bind]
  refine unguarded_setStatus fun _ _ => unguarded_save fun _ => unguarded_saveResult fun _ => ?_
  split
  · simp only [unguarded_bind]
    exact unguarded_command fun _ => hQ _ _
  · exact hQ _ _

/-! ## The release of dependents -/

lemma unguarded_dependenciesAreMet {self : Job} {parentJob : Option Job}
    {excludeJobId : Option JobId} {refreshJobStatus : Bool} {Q : Bool × Option Job × Client → Prop}
    (hQ : ∀ met parent pipe, Q (met, parent, some pipe)) :
    (self.dependenciesAreMet parentJob (some pipe) excludeJobId refreshJobStatus).Unguarded Q := by
  have hall : ∀ ids {R : Bool → Prop}, (∀ b, R b) → (self.statusesAreAllowed ids).Unguarded R :=
    fun ids R hR s => hR _
  simp only [dependenciesAreMet, unguarded_bind, unguarded_map]
  refine unguarded_watch fun pipe => unguarded_query fun ids => ?_
  split
  · simp only [unguarded_bind]
    refine unguarded_getStatus fun r => ?_
    split
    · exact hQ _ _ _
    · split
      · exact hQ _ _ _
      · split
        · exact hQ _ _ _
        · simp only [unguarded_bind]
          exact hall _ fun _ => hQ _ _ _
  · simp only [unguarded_bind]
    exact hall _ fun _ => hQ _ _ _

end Job

namespace Queue

lemma unguarded_jobsToEnqueue {excludeJobId : Option JobId} {refreshJobStatus : Bool}
    {dependents : List (Option Job)} {parent : Job} {Q : List Job × Job × Client → Prop}
    (hQ : ∀ jobs parent pipe, Q (jobs, parent, some pipe)) :
    (jobsToEnqueue excludeJobId refreshJobStatus dependents parent (some pipe)).Unguarded Q := by
  induction dependents generalizing parent pipe Q with
  | nil => exact hQ _ _ _
  | cons dependent rest ih =>
    cases dependent with
    | none => exact ih hQ
    | some dependent =>
      simp only [jobsToEnqueue, unguarded_bind]
      refine Job.unguarded_dependenciesAreMet fun met parent' pipe => ih fun jobs parent pipe => ?_
      split <;> exact hQ _ _ _

lemma unguarded_persistJob {job : Job} {status : JobStatus} {Q : Job × Client → Prop}
    (hQ : ∀ job pipe, Q (job, some pipe)) :
    (_persistJob job (some pipe) status now).Unguarded Q := by
  simp only [_persistJob, unguarded_bind]
  exact Job.unguarded_setStatus fun _ _ => Job.unguarded_save fun _ =>
    Job.unguarded_cleanup hQ

lemma unguarded_enqueueJob {self : Queue} {job : Job} {atFront : Bool} {Q : Job × Client → Prop}
    (hQ : ∀ job pipe, Q (job, some pipe)) :
    (self._enqueueJob job (some pipe) atFront false now).Unguarded Q := by
  simp only [_enqueueJob, enqueueOnPipeline, pushJobId, Bool.false_eq_true, if_false]
  cases job.status == .deferred
  · simp only [Bool.false_eq_true, if_false, Prog.pure_eq, Prog.ret_bind, unguarded_bind]
    exact unguarded_persistJob fun _ _ => unguarded_command fun _ => hQ _ _
  · simp only [if_true, unguarded_bind]
    exact unguarded_command fun _ => unguarded_persistJob fun _ _ => unguarded_command fun _ =>
      hQ _ _

lemma unguarded_scheduleJob {self : Queue} {job : Job} {datetime : Time} {Q : Job × Client → Prop}
    (hQ : ∀ job pipe, Q (job, some pipe)) :
    (self.scheduleJob job datetime (some pipe) false now).Unguarded Q := by
  simp only [scheduleJob, scheduleOnPipeline, scheduledRegistrySchedule, Bool.false_eq_true,
    if_false, unguarded_bind]
  exact unguarded_command fun _ => unguarded_persistJob fun _ _ _ => hQ _ _

lemma unguarded_enqueueEach {self : Queue} {jobs : List Job} {Q : Client → Prop}
    (hQ : ∀ pipe, Q (some pipe)) : (self.enqueueEach now jobs (some pipe)).Unguarded Q := by
  induction jobs generalizing pipe with
  | nil => exact hQ pipe
  | cons job jobs ih =>
    simp only [enqueueEach, unguarded_bind]
    exact unguarded_command fun _ => unguarded_enqueueJob fun _ _ => ih

lemma unguarded_enqueueDependents {self : Queue} {job : Job} {excludeJobId : Option JobId}
    {refreshJobStatus : Bool} {fuel : ℕ} {Q : Job × Client → Prop}
    (hQ : ∀ job pipe, Q (job, some pipe)) :
    (self.enqueueDependents job (some pipe) excludeJobId refreshJobStatus now fuel).Unguarded Q := by
  simp only [enqueueDependents, enqueueDependentsAttempt, unguarded_bind]
  refine unguarded_query fun ids => ?_
  split
  · exact hQ _ _
  · simp only [unguarded_bind]
    refine Job.unguarded_fetchMany fun _ => unguarded_jobsToEnqueue fun jobs _ _ =>
      unguarded_multi fun _ => ?_
    split
    · exact hQ _ _
    · simp only [unguarded_bind]
      refine unguarded_enqueueEach fun _ => ?_
      split <;>
      · rw [unguarded_bind]
        exact unguarded_command fun _ => hQ _ _

end Queue

lemma unguarded_repeat {job : Job} {queue : Queue} {zone : LocalZone} {Q : Job × Client → Prop}
    (hQ : ∀ job pipe, Q (job, some pipe)) :
    (Repeat.schedule job queue zone (some pipe) now).Unguarded Q := by
  unfold Repeat.schedule
  split
  · trivial
  · trivial
  · rw [unguarded_bind, unguarded_ofExcept]
    intro interval _
    rw [unguarded_bind]
    refine Job.unguarded_save fun _ => ?_
    split
    · exact Queue.unguarded_enqueueJob hQ
    · exact Queue.unguarded_scheduleJob hQ

namespace Worker

lemma unguarded_cleanupExecution {self : Worker} {job : Job} {Q : Worker × Client → Prop}
    (hQ : ∀ worker pipe, Q (worker, some pipe)) :
    (self.cleanupExecution job (some pipe)).Unguarded Q := by
  simp only [cleanupExecution, unguarded_bind]
  refine unguarded_command fun _ => ?_
  split
  · exact hQ _ _
  · rw [unguarded_bind]
    exact unguarded_deleteExecution fun _ => hQ _ _

lemma unguarded_recordSuccess {self : Worker} {job : Job} {queue : Queue}
    {Q : Worker × Job × Client → Prop} (hQ : ∀ worker job pipe, Q (worker, job, some pipe)) :
    (self.recordSuccess job queue (some pipe) now).Unguarded Q := by
  have hresult : ∀ {resultTtl : ℤ} {pipe : Pipeline Key Value} {R : Job × Client → Prop},
      (∀ job pipe, R (job, some pipe)) →
      (self.recordResult job resultTtl (some pipe) now).Unguarded R := fun hR => by
    unfold recordResult
    split
    · exact Job.unguarded_handleSuccess hR
    · exact hR _ _
  have hrepeat : ∀ {job : Job} {resultTtl : ℤ} {pipe : Pipeline Key Value}
      {R : Job × Client → Prop}, (∀ job pipe, R (job, some pipe)) →
      (self.repeatOrCleanup job queue resultTtl (some pipe) now).Unguarded R := fun hR => by
    unfold repeatOrCleanup
    split
    · exact unguarded_repeat hR
    · exact Job.unguarded_cleanup hR
  simp only [recordSuccess, unguarded_bind, unguarded_ofExcept]
  exact unguarded_command fun _ _ _ => unguarded_command fun _ => hresult fun _ _ =>
    hrepeat fun _ _ => unguarded_cleanupExecution fun _ _ => hQ _ _ _

theorem unguarded_handleJobSuccessAttempt {self : Worker} {job : Job} {queue : Queue}
    {Q : Worker × Job × Client → Prop} (hQ : ∀ worker job pipe, Q (worker, job, some pipe)) :
    (self.handleJobSuccessAttempt job queue now).Unguarded Q := by
  simp only [handleJobSuccessAttempt, beginSuccess, unguarded_bind]
  refine unguarded_watch fun _ => Queue.unguarded_enqueueDependents fun _ pipe => ?_
  unfold startTransaction
  split
  · exact unguarded_recordSuccess hQ
  · exact unguarded_multi fun _ => unguarded_recordSuccess hQ

end Worker

end RedisQueue
