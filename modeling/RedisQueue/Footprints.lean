import RedisQueue.Commands
import RedisQueue.Effects

/-!
# Which effects the methods have

For each method of rq the effects it can have, as an inductive predicate, and a lemma which says
that its steps have no others. All that a caller has to know of a method is then which of the
effects its own predicate allows.

* `Job.Alike`: the objects that the methods make of the object of a job;
* `PersistEffect`, `EnqueueEffect`, `ScheduleEffect`: a job that is put in a queue or scheduled;
* `FailEffect`, `FinishEffect`: a job that fails or succeeds;
* `ReleaseEffect`: the dependents that are enqueued.
-/

namespace RedisQueue

open Prog

/-! ## Effects -/

/-- Objects of the same job: the methods change none of these attributes. -/
structure Job.Alike (job job' : Job) : Prop where
  id : job'.id = job.id
  ttl : job'.ttl = job.ttl
  failureTtl : job'.failureTtl = job.failureTtl
  metadata : job'.metadata = job.metadata

@[refl] lemma Job.Alike.refl (job : Job) : job.Alike job := ⟨rfl, rfl, rfl, rfl⟩

lemma Job.Alike.trans {job job' job'' : Job} (h : job.Alike job') (h' : job'.Alike job'') :
    job.Alike job'' :=
  ⟨h'.id.trans h.id, h'.ttl.trans h.ttl, h'.failureTtl.trans h.failureTtl,
    h'.metadata.trans h.metadata⟩

/-- The object after its status has been read anew. -/
def Job.Refreshed (job job' : Job) : Prop := ∃ status, job' = { job with status := status }

@[refl] lemma Job.Refreshed.refl (job : Job) : job.Refreshed job := ⟨job.status, rfl⟩

lemma Job.Refreshed.trans {job job' job'' : Job} (h : job.Refreshed job')
    (h' : job'.Refreshed job'') : job.Refreshed job'' := by
  obtain ⟨status, rfl⟩ := h
  obtain ⟨status', rfl⟩ := h'
  exact ⟨status', rfl⟩

lemma Job.Refreshed.alike {job job' : Job} (h : job.Refreshed job') : job.Alike job' := by
  obtain ⟨status, rfl⟩ := h
  exact ⟨rfl, rfl, rfl, rfl⟩

/-- What is written to the hash of `job`, with its metadata or without. -/
inductive Job.Write (job : Job) (withMeta : Bool) : JobHash → Prop where
  | status (status : JobStatus) : job.Write withMeta { status := some status }
  | heartbeat (t : Time) : job.Write withMeta { lastHeartbeat := some (some t) }
  | start (t : Time) (worker : WorkerName) : job.Write withMeta {
      lastHeartbeat := some (some t), status := some .started, startedAt := some (some t),
      workerName := some (some worker) }
  | save {job' : Job} (h : job.Alike job') : job.Write withMeta (job'.toDict withMeta)

lemma Job.Write.of_alike {job job' : Job} {withMeta : Bool} {m : JobHash} (h : job.Alike job')
    (hm : job'.Write withMeta m) : job.Write withMeta m := by
  cases hm with
  | status status => exact .status status
  | heartbeat t => exact .heartbeat t
  | start t worker => exact .start t worker
  | save h' => exact .save (h.trans h')

/-- A job without a time to live does not get one. -/
lemma Job.Write.ttl {job : Job} {withMeta : Bool} {m : JobHash} (hm : job.Write withMeta m)
    (h : job.ttl = none) : m.ttl = none := by
  cases hm with
  | status status => rfl
  | heartbeat t => rfl
  | start t worker => rfl
  | save h' => simp [Job.toDict, h'.ttl, h]

lemma Job.Write.metadata {job : Job} {withMeta : Bool} {m : JobHash} (hm : job.Write withMeta m) :
    m.metadata = none ∨ withMeta = true ∧ m.metadata = job.metadata := by
  cases hm with
  | status status => exact .inl rfl
  | heartbeat t => exact .inl rfl
  | start t worker => exact .inl rfl
  | save h' =>
    cases withMeta with
    | false => exact .inl rfl
    | true => exact .inr ⟨rfl, h'.metadata⟩

/-- `Job.cleanup` -/
inductive CleanupEffect (id : JobId) : Option ℤ → Effect → Prop where
  | expire {ttl : ℤ} (hpos : 0 < ttl) (t : Time) : CleanupEffect id (some ttl) (.expire id t)
  | delete : CleanupEffect id (some 0) (.delete id)

/-- `Queue._persist_job` -/
inductive PersistEffect (job : Job) : Effect → Prop where
  | write {m : JobHash} (h : job.Write true m) : PersistEffect job (.hset job.id m)
  | cleanup {e : Effect} (h : CleanupEffect job.id job.ttl e) : PersistEffect job e

/-- What puts a job in the queue `name`. -/
inductive EnqueueEffect (name : QueueName) (job : Job) : Effect → Prop where
  | persist {e : Effect} (h : PersistEffect job e) : EnqueueEffect name job e
  | push (atFront : Bool) : EnqueueEffect name job (.push (queueKey name) atFront job.id)

/-- What schedules a job for the queue `name`. -/
inductive ScheduleEffect (name : QueueName) (job : Job) : Effect → Prop where
  | persist {e : Effect} (h : PersistEffect job e) : ScheduleEffect name job e
  | zadd (t : Time) : ScheduleEffect name job (.zadd .scheduled name job.id (t : ℤ))

/-- `Queue.setup_dependencies` of a job with dependencies that are not finished. -/
inductive DeferEffect (job : Job) : Effect → Prop where
  | persist {e : Effect} (h : PersistEffect job e) : DeferEffect job e
  | zadd (score : Score) : DeferEffect job (.zadd .deferred job.origin job.id score)
  | depend {id : JobId} (hmem : id ∈ job.dependencyIds) : DeferEffect job (.depend id job.id)

/-- What runs a job again after some seconds. -/
def AgainEffect (name : QueueName) (job : Job) (interval : ℕ) : Effect → Prop :=
  if interval = 0 then EnqueueEffect name job else ScheduleEffect name job

/-- `FailedJobRegistry.add`, and what comes before it. -/
inductive FailEffect (job : Job) : Effect → Prop where
  | write {m : JobHash} (h : job.Write false m) : FailEffect job (.hset job.id m)
  | cleanup {e : Effect} (h : CleanupEffect job.id
      (some (job.failureTtl.getD Job.defaultFailureTtl)) e) : FailEffect job e
  | zadd (name : QueueName) (score : Score) : FailEffect job (.zadd .failed name job.id score)

/-- `Job._handle_success` -/
inductive FinishEffect (job : Job) : Effect → Prop where
  | write {m : JobHash} (h : job.Write false m) : FinishEffect job (.hset job.id m)
  | zadd (name : QueueName) (score : Score) : FinishEffect job (.zadd .finished name job.id score)

/-- `Queue.enqueue_dependents` of the job `parent`, in states that satisfy `I`. -/
inductive ReleaseEffect (I : Store → Prop) (parent : JobId) : Effect → Prop where
  | enqueue {s s' : Store} {dependent : Job} {e : Effect} (hs : I s) (hs' : I s')
      (hmem : dependent.id ∈ s.val (.dependents parent))
      (hstored : Job.restore dependent.id (s'.val (.job dependent.id)) = .ok dependent)
      (h : EnqueueEffect dependent.origin dependent e) : ReleaseEffect I parent e

section
variable {job job' : Job} {e : Effect}

lemma PersistEffect.of_alike (h : job.Alike job') (he : PersistEffect job' e) :
    PersistEffect job e := by
  cases he with
  | write hm => exact h.id ▸ .write (hm.of_alike h)
  | cleanup hc => exact .cleanup (h.id ▸ h.ttl ▸ hc)

lemma EnqueueEffect.of_alike {name : QueueName} (h : job.Alike job')
    (he : EnqueueEffect name job' e) : EnqueueEffect name job e := by
  cases he with
  | persist hp => exact .persist (hp.of_alike h)
  | push atFront => exact h.id ▸ .push atFront

lemma ScheduleEffect.of_alike {name : QueueName} (h : job.Alike job')
    (he : ScheduleEffect name job' e) : ScheduleEffect name job e := by
  cases he with
  | persist hp => exact .persist (hp.of_alike h)
  | zadd t => exact h.id ▸ .zadd t

lemma FailEffect.of_alike (h : job.Alike job') (he : FailEffect job' e) : FailEffect job e := by
  cases he with
  | write hm => exact h.id ▸ .write (hm.of_alike h)
  | cleanup hc => exact .cleanup (h.id ▸ h.failureTtl ▸ hc)
  | zadd name score => exact h.id ▸ .zadd name score

lemma FinishEffect.of_alike (h : job.Alike job') (he : FinishEffect job' e) :
    FinishEffect job e := by
  cases he with
  | write hm => exact h.id ▸ .write (hm.of_alike h)
  | zadd name score => exact h.id ▸ .zadd name score

lemma AgainEffect.of_alike {name : QueueName} {interval : ℕ} (h : job.Alike job')
    (he : AgainEffect name job' interval e) : AgainEffect name job interval e := by
  unfold AgainEffect at he ⊢
  split
  · next h0 => exact EnqueueEffect.of_alike h (by rwa [if_pos h0] at he)
  · next h0 => exact ScheduleEffect.of_alike h (by rwa [if_neg h0] at he)

lemma AgainEffect.persist {name : QueueName} {interval : ℕ} (he : PersistEffect job e) :
    AgainEffect name job interval e := by
  unfold AgainEffect
  split
  · exact .persist he
  · exact .persist he

end

/-! ## Executions and results -/

section
variable {I : Store → Prop} {P : Effect → Prop} {client : Client} {now : Time}

lemma within_fetchExecution {id : ExecutionId} {jobId : JobId} {Q : Execution → Prop}
    (hQ : ∀ execution, Q execution) : (Execution.fetch id jobId).Within I (Via P) Q := by
  unfold Execution.fetch
  rw [within_bind]
  refine within_read Via.refl fun s _ => ?_
  split
  · trivial
  · split
    · exact hQ _
    · trivial
    · trivial

lemma within_fetchAll {jobId : JobId} {ids : List ExecutionId} {Q : List Execution → Prop}
    (hQ : ∀ executions, Q executions) :
    (ExecutionRegistry.fetchAll jobId ids).Within I (Via P) Q := by
  induction ids generalizing Q with
  | nil => exact hQ _
  | cons id ids ih =>
    simp only [ExecutionRegistry.fetchAll, within_bind]
    exact within_fetchExecution fun _ => ih fun _ => hQ _

variable (hI : Stable I P)
include hI

lemma within_getExecutions {jobId : JobId} {Q : List Execution → Prop}
    (hQ : ∀ executions, Q executions) :
    (ExecutionRegistry.getExecutions jobId now).Within I (Via P) Q := by
  simp only [ExecutionRegistry.getExecutions, ExecutionRegistry.getExecutionIds, within_bind]
  apply within_emit hI (.benign (benign_alter (by trivial) _))
  exact within_read Via.refl fun _ _ => within_fetchAll hQ

lemma within_deleteExecution (hclient : client.Emits P) {execution : Execution} {job : Job}
    {Q : Client → Prop} (hQ : ∀ client, client.Emits P → Q client) :
    (execution.delete job client).Within I (Via P) Q := by
  simp only [Execution.delete, within_bind]
  refine within_command hI hclient (.benign (benign_del (by trivial))) fun client hclient => ?_
  refine within_command hI hclient (.benign (benign_alter (by trivial) _)) fun client hclient => ?_
  exact within_command hI hclient (.benign (benign_alter (by trivial) _)) hQ

lemma within_deleteAll (hclient : client.Emits P) {job : Job} {executions : List Execution}
    {Q : Client → Prop} (hQ : ∀ client, client.Emits P → Q client) :
    (ExecutionRegistry.deleteAll job executions client).Within I (Via P) Q := by
  induction executions generalizing client with
  | nil => exact hQ client hclient
  | cons execution executions ih =>
    simp only [ExecutionRegistry.deleteAll, within_bind]
    exact within_deleteExecution hI hclient fun _ hclient => ih hclient

lemma within_registryDelete (hclient : client.Emits P) {job : Job} {Q : Client → Prop}
    (hQ : ∀ client, client.Emits P → Q client) :
    (ExecutionRegistry.delete job client now).Within I (Via P) Q := by
  simp only [ExecutionRegistry.delete, within_bind]
  refine within_getExecutions hI fun executions => within_deleteAll hI hclient fun _ hclient => ?_
  exact within_command hI hclient (.benign (benign_del (by trivial))) hQ

lemma within_createExecution (hclient : client.Emits P) {job : Job} {ttl : ℤ} {id : ExecutionId}
    {Q : Execution × Client → Prop} (hQ : ∀ execution client, client.Emits P → Q (execution, client)) :
    (Execution.create job ttl client id now).Within I (Via P) Q := by
  simp only [Execution.create, ExecutionRegistry.add, within_bind]
  refine within_command hI hclient (.benign (benign_write (by trivial) _)) fun client hclient => ?_
  refine within_command hI hclient (.benign (benign_expireIn (by trivial) _ _))
    fun client hclient => ?_
  refine within_command hI hclient (.benign (benign_alter (by trivial) _)) fun client hclient => ?_
  refine within_command hI hclient (.benign (benign_expireIn (by trivial) _ _))
    fun client hclient => ?_
  exact within_command hI hclient (.benign (benign_alter (by trivial) _)) fun _ h => hQ _ _ h

lemma within_saveResult (hclient : client.Emits P) {result : Result} {jobId : JobId}
    {ttl : Option ℤ} {Q : Client → Prop} (hQ : ∀ client, client.Emits P → Q client) :
    (result.save jobId ttl client now).Within I (Via P) Q := by
  simp only [Result.save, within_bind]
  refine within_command hI hclient (.benign (benign_write (by trivial) _)) fun client hclient => ?_
  split
  · exact hQ client hclient
  · split
    · exact within_command hI hclient (.benign (benign_persist _)) hQ
    · exact within_command hI hclient (.benign (benign_expireIn (by trivial) _ _)) hQ

end

/-! ## Jobs -/

namespace Job
variable {I : Store → Prop} {P : Effect → Prop} {client : Client} {now : Time} {self : Job}

/-- The status that is read is the stored one. -/
lemma within_getStatus_stored {Q : JobStatus × Job → Prop}
    (hQ : ∀ s status, I s → (s.val (.job self.id)).status = some status →
      Q (status, { self with status := status })) :
    (self.getStatus true).Within I (Via P) Q := by
  simp only [getStatus, if_true, within_bind]
  refine within_read Via.refl fun s hs => ?_
  split
  · trivial
  · next status hstatus => exact hQ s status hs hstatus

lemma within_getStatus {refresh : Bool} {Q : JobStatus × Job → Prop}
    (hQ : ∀ status, Q (status, { self with status := status })) :
    (self.getStatus refresh).Within I (Via P) Q := by
  unfold getStatus
  split
  · rw [within_bind]
    refine within_read Via.refl fun s _ => ?_
    split
    · trivial
    · exact hQ _
  · exact hQ self.status

lemma within_isStatus {status : JobStatus} {Q : Bool × Job → Prop}
    (hQ : ∀ b current, Q (b, { self with status := current })) :
    (self.isStatus status).Within I (Via P) Q := by
  simp only [isStatus, within_bind]
  exact within_getStatus fun _ => hQ _ _

/-- The jobs that are fetched, from one state. -/
def FetchedFrom (s : Store) (ids : List JobId) (jobs : List (Option Job)) : Prop :=
  ∀ job, some job ∈ jobs → job.id ∈ ids ∧ restore job.id (s.val (.job job.id)) = .ok job

lemma fetchedFrom_of_restoreMany {s : Store} {ids : List JobId} {jobs : List (Option Job)}
    (h : restoreMany (ids.map fun id => (id, s.val (.job id))) = .ok jobs) :
    FetchedFrom s ids jobs := by
  intro job hjob
  obtain ⟨id, data, hmem, -, hok⟩ := mem_of_fetched (restoreMany_ok h) hjob
  obtain ⟨id', hid', heq⟩ := List.mem_map.mp hmem
  cases heq
  obtain rfl := (restore_ok hok).1
  exact ⟨hid', hok⟩

lemma within_fetchMany {ids : List JobId} {Q : List (Option Job) → Prop}
    (hQ : ∀ s jobs, I s → FetchedFrom s ids jobs → Q jobs) :
    (fetchMany ids).Within I (Via P) Q := by
  simp only [fetchMany, within_bind]
  refine within_read Via.refl fun s hs => within_ofExcept.mpr fun jobs hjobs => ?_
  exact hQ s jobs hs (fetchedFrom_of_restoreMany hjobs)

variable (hI : Stable I P) (hclient : client.Emits P)
include hI hclient

lemma within_setStatus {status : JobStatus} (hP : P (.hset self.id { status := some status }))
    {Q : Job × Client → Prop}
    (hQ : ∀ client, client.Emits P → Q ({ self with status := status }, client)) :
    (self.setStatus status client).Within I (Via P) Q := by
  simp only [setStatus, within_bind]
  exact within_command hI hclient (.effect (.hset _ _) hP) fun _ h => hQ _ h

lemma within_save {includeMeta : Bool} (hP : P (.hset self.id (self.toDict includeMeta)))
    {Q : Client → Prop} (hQ : ∀ client, client.Emits P → Q client) :
    (self.save client includeMeta).Within I (Via P) Q :=
  within_command hI hclient (.effect (.hset _ _) hP) hQ

lemma within_leave {kind : RegistryKind} {Q : Job × Client → Prop}
    (hQ : ∀ client, client.Emits P → Q (self, client)) :
    (self.leave kind client).Within I (Via P) Q := by
  simp only [leave, within_bind]
  exact within_command hI hclient (.benign (benign_zrem _ _ _)) hQ

lemma within_leaveRegistry {Q : Job × Client → Prop}
    (hQ : ∀ status client, client.Emits P → Q ({ self with status := status }, client)) :
    (self.leaveRegistry client now).Within I (Via P) Q := by
  have hremove : ∀ status, (removeExecutions { self with status := status } client now).Within I
      (Via P) fun client => Q ({ self with status := status }, client) := fun status => by
    simp only [removeExecutions, within_bind]
    refine within_getExecutions hI fun executions => ?_
    split
    · exact hQ status client hclient
    · exact within_command hI hclient (.benign (benign_alter (by trivial) _)) (hQ status)
  have hleave : ∀ status kind,
      (({ self with status := status } : Job).leave kind client).Within I (Via P) Q :=
    fun status _ => within_leave hI hclient (hQ status)
  simp only [leaveRegistry, isFailedOrStopped, within_bind]
  refine within_isStatus fun b status => ?_
  cases b <;> simp only [Bool.false_eq_true, if_true, if_false, hleave, within_bind]
  refine within_isStatus fun b status => ?_
  cases b <;> simp only [Bool.false_eq_true, if_true, if_false, hleave, within_bind]
  refine within_isStatus fun b status => ?_
  cases b <;> simp only [Bool.false_eq_true, if_true, if_false, hremove, within_bind, Prog.pure_eq,
    within_ret]
  refine within_isStatus fun b status => ?_
  cases b <;> simp only [Bool.false_eq_true, if_true, if_false, hleave, within_bind]
  -- the last test, after `failed` and `stopped`
  have hcanceled : ∀ status, (({ self with status := status } : Job).isStatus .canceled).Within I
      (Via P) fun r =>
        (if r.1 then r.2.leave .canceled client else return (r.2, client)).Within I (Via P) Q :=
    fun status => by
      refine within_isStatus fun b current => ?_
      cases b
      · exact hQ current client hclient
      · exact hleave current _
  refine within_isStatus fun b status => ?_
  cases b <;> simp only [Bool.false_eq_true, if_true, if_false, hleave, within_ret]
  refine within_isStatus fun b status => ?_
  cases b
  · simp only [Bool.false_eq_true, if_false, within_bind]
    exact hcanceled status
  · exact hleave status _

/-- The end of `Job.delete`, for an object that has been refreshed. -/
lemma within_deleteKeys (hP : P (.delete self.id)) {Q : Client → Prop}
    (hQ : ∀ client, client.Emits P → Q client) :
    (client.command (.seq [.del (.job self.id), .del (.dependents self.id),
      .del (.dependencies self.id)])).Within I (Via P) Q := by
  refine within_command hI hclient (.seq fun c hc => ?_) hQ
  simp only [List.mem_cons, List.not_mem_nil, or_false] at hc
  rcases hc with rfl | rfl | rfl
  · exact .effect (.delete _) hP
  · exact .benign (benign_dependents _ fun _ child hchild => absurd hchild List.not_mem_nil)
  · exact .benign (benign_del (by trivial))

lemma within_delete {removeFromQueue : Bool} (hP : P (.delete self.id)) {Q : Job × Client → Prop}
    (hQ : ∀ status client, client.Emits P → Q ({ self with status := status }, client)) :
    (self.delete client removeFromQueue now).Within I (Via P) Q := by
  have hregistries : (self._removeFromRegistries client removeFromQueue now).Within I (Via P)
      fun r => self.Refreshed r.1 ∧ r.2.Emits P := by
    unfold _removeFromRegistries
    cases removeFromQueue
    · exact within_leaveRegistry hI hclient fun status _ h => ⟨⟨status, rfl⟩, h⟩
    · rw [if_pos rfl, within_bind]
      refine within_command hI hclient (.benign (benign_lrem _ _)) fun client hclient => ?_
      exact within_leaveRegistry hI hclient fun status _ h => ⟨⟨status, rfl⟩, h⟩
  unfold delete
  rw [within_bind]
  refine hregistries.mono fun ⟨job, client⟩ ⟨⟨status, hjob⟩, hclient⟩ => ?_
  have hjob : job = { self with status := status } := hjob
  have hP : P (.delete job.id) := by rwa [hjob]
  have hQ' : ∀ client, client.Emits P → Q (job, client) := by
    rw [hjob]
    exact hQ status
  dsimp only
  rw [within_bind]
  refine within_registryDelete hI hclient fun client hclient => ?_
  cases job.groupId with
  | none =>
    simp only [within_bind]
    exact within_deleteKeys hI hclient hP hQ'
  | some groupId =>
    simp only [leaveGroup, within_bind]
    refine within_read Via.refl fun s _ => ?_
    split
    · refine within_command hI hclient (.benign (benign_alter (by trivial) _))
        fun client hclient => ?_
      exact within_deleteKeys hI hclient hP hQ'
    · trivial

lemma within_cleanup {ttl : Option ℤ} {removeFromQueue : Bool}
    (hP : ∀ e, CleanupEffect self.id ttl e → P e) {Q : Job × Client → Prop}
    (hQ : ∀ status client, client.Emits P → Q ({ self with status := status }, client)) :
    (self.cleanup ttl client removeFromQueue now).Within I (Via P) Q := by
  unfold cleanup
  split
  · exact hQ self.status client hclient
  · split
    · next h0 =>
      subst h0
      exact within_delete hI hclient (hP _ .delete) hQ
    · split
      · next hpos =>
        simp only [within_bind]
        refine within_command hI hclient (.effect (.expire _ _) (hP _ (.expire hpos _)))
          fun client hclient => ?_
        refine within_command hI hclient (.benign (benign_expire (by simp) _))
          fun client hclient => ?_
        exact within_command hI hclient (.benign (benign_expire (by simp) _)) (hQ self.status)
      · exact hQ self.status client hclient

lemma within_heartbeat (hP : ∀ m, self.Write false m → P (.hset self.id m)) {Q : Job × Client → Prop}
    (hQ : ∀ client, client.Emits P → Q ({ self with lastHeartbeat := some now }, client)) :
    (self.heartbeat client now).Within I (Via P) Q := by
  simp only [heartbeat, within_bind]
  exact within_command hI hclient (.effect (.hset _ _) (hP _ (.heartbeat now))) fun _ h => hQ _ h

lemma within_prepareForExecution {workerName : WorkerName}
    (hP : ∀ m, self.Write false m → P (.hset self.id m)) {Q : Job × Client → Prop}
    (hQ : ∀ job client, self.Alike job → client.Emits P → Q (job, client)) :
    (self.prepareForExecution workerName client now).Within I (Via P) Q := by
  simp only [prepareForExecution, within_bind]
  exact within_command hI hclient (.effect (.hset _ _) (hP _ (.start now workerName)))
    fun _ h => hQ _ _ ⟨rfl, rfl, rfl, rfl⟩ h

lemma within_createResult {type : ResultType} {ttl : Option ℤ} {returnValue excString : Option String}
    {info : ExecutionInfo} {Q : Client → Prop} (hQ : ∀ client, client.Emits P → Q client) :
    (self.createResult type ttl returnValue excString info client now).Within I (Via P) Q :=
  within_saveResult hI hclient hQ

lemma within_addToFailed (hP : ∀ e, FailEffect self e → P e) {Q : Job × Client → Prop}
    (hQ : ∀ status client, client.Emits P → Q ({ self with status := status }, client)) :
    (self.addToFailed self.failureTtl client now).Within I (Via P) Q := by
  simp only [addToFailed, within_bind]
  refine within_save hI hclient (hP _ (.write (.save (.refl self)))) fun client hclient => ?_
  refine within_cleanup hI hclient (fun e he => hP e (.cleanup he)) fun status client hclient => ?_
  exact within_command hI hclient (.effect (.zadd _ _ _ _) (hP _ (.zadd _ _))) (hQ status)

lemma within_handleFailure {excString : String} {info : ExecutionInfo}
    (hP : ∀ e, FailEffect self e → P e) {Q : Job × Client → Prop}
    (hQ : ∀ status client, client.Emits P → Q ({ self with status := status }, client)) :
    (self._handleFailure excString client info now).Within I (Via P) Q := by
  simp only [_handleFailure, within_bind]
  refine within_addToFailed hI hclient hP fun status client hclient => ?_
  exact within_createResult hI hclient (hQ status)

lemma within_handleSuccess {resultTtl : ℤ} {info : ExecutionInfo}
    (hP : ∀ e, FinishEffect self e → P e) {Q : Job × Client → Prop}
    (hQ : ∀ client, client.Emits P → Q ({ self with status := .finished }, client)) :
    (self._handleSuccess resultTtl client info now).Within I (Via P) Q := by
  have halike : self.Alike { self with status := .finished } := ⟨rfl, rfl, rfl, rfl⟩
  have hsave : P (.hset self.id (({ self with status := .finished } : Job).toDict false)) :=
    hP _ (.write (.save halike))
  simp only [_handleSuccess, within_bind]
  refine within_setStatus hI hclient (hP _ (.write (.status _))) fun client hclient => ?_
  refine within_save hI hclient hsave fun client hclient => ?_
  refine within_createResult hI hclient fun client hclient => ?_
  split
  · simp only [within_bind]
    exact within_command hI hclient (.effect (.zadd _ _ _ _) (hP _ (.zadd _ _))) hQ
  · exact hQ client hclient

/-! ### Dependencies -/

lemma within_registerDependencyLoop {ids : List JobId}
    (hP : ∀ id ∈ ids, P (.depend id self.id)) {Q : Client → Prop}
    (hQ : ∀ client, client.Emits P → Q client) :
    (self.registerDependencyLoop ids client).Within I (Via P) Q := by
  induction ids generalizing client with
  | nil => exact hQ client hclient
  | cons id ids ih =>
    simp only [registerDependencyLoop, within_bind]
    refine within_command hI hclient (.effect (.depend _ _) (hP id List.mem_cons_self))
      fun client hclient => ?_
    refine within_command hI hclient (.benign (benign_alter (by trivial) _)) fun client hclient => ?_
    exact ih hclient fun id hid => hP id (List.mem_cons_of_mem _ hid)

lemma within_registerDependency
    (hzadd : ∀ score, P (.zadd .deferred self.origin self.id score))
    (hP : ∀ id ∈ self.dependencyIds, P (.depend id self.id)) {Q : Client → Prop}
    (hQ : ∀ client, client.Emits P → Q client) :
    (self.registerDependency client now).Within I (Via P) Q := by
  simp only [registerDependency, within_bind]
  refine within_command hI hclient (.effect (.zadd _ _ _ _) (hzadd _)) fun client hclient => ?_
  exact within_registerDependencyLoop hI hclient hP hQ

omit hI

lemma within_fetchDependencies {watch : Bool} {Q : List Job × Client → Prop}
    (hQ : ∀ jobs client, client.Emits P → Q (jobs, client)) :
    (self.fetchDependencies watch client).Within I (Via P) Q := by
  have hrest : ∀ client : Client, client.Emits P →
      (fetchMany self.dependencyIds).Within I (Via P) fun jobs => Q (jobs.reduceOption, client) :=
    fun client hclient => within_fetchMany fun _ _ _ _ => hQ _ _ hclient
  cases client with
  | none =>
    simp only [fetchDependencies, within_bind]
    exact hrest none hclient
  | some pipe =>
    simp only [fetchDependencies]
    split
    · simp only [within_bind, within_map]
      exact within_watch hclient fun pipe hpipe => hrest (some pipe) hpipe
    · simp only [within_bind]
      exact hrest (some pipe) hclient

lemma within_dependenciesAreMet {parentJob : Option Job} {excludeJobId : Option JobId}
    {refreshJobStatus : Bool} {Q : Bool × Option Job × Client → Prop}
    (hQ : ∀ met parent client, (∀ p' ∈ parent, ∃ p ∈ parentJob, p.Refreshed p') → client.Emits P →
      Q (met, parent, client)) :
    (self.dependenciesAreMet parentJob client excludeJobId refreshJobStatus).Within I (Via P) Q := by
  have hsame : ∀ p' ∈ parentJob, ∃ p ∈ parentJob, p.Refreshed p' := fun p hp => ⟨p, hp, .refl p⟩
  rcases client with _ | pipe <;>
    simp only [dependenciesAreMet, Prog.pure_eq, within_bind, within_map, within_ret]
  rotate_left
  refine within_watch hclient fun pipe hclient => ?_
  -- from here on the steps are the same with a pipeline and without
  all_goals
    refine within_clientQuery fun s _ => ?_
    split
    · next parent _ =>
      rw [within_bind]
      refine within_getStatus fun status => ?_
      have hparent : ∀ p' ∈ some { parent with status := status }, ∃ p ∈ some parent, p.Refreshed p' :=
        fun p' hp' => by
          cases hp'
          exact ⟨parent, rfl, status, rfl⟩
      split
      · exact hQ _ _ _ hparent hclient
      · split
        · exact hQ _ _ _ hparent hclient
        · split
          · exact hQ _ _ _ hparent hclient
          · rw [within_bind]
            exact within_read Via.refl fun _ _ => hQ _ _ _ hparent hclient
    · rw [within_bind]
      exact within_read Via.refl fun _ _ => hQ _ _ _ hsame hclient

end Job

/-! ## Queues -/

namespace Queue
variable {I : Store → Prop} {P : Effect → Prop} {client : Client} {now : Time} {self : Queue}
  {job : Job} (hI : Stable I P) (hclient : client.Emits P)
include hI

/-- A script that emits only effects of `P`, if it gets past the check. -/
lemma within_runUnique {commands : List (Command Key Value)}
    (hc : ∀ s, I s → s.val (.job job.id) = default → ∀ c ∈ commands, Emits P c)
    {Q : Unit → Prop} (hQ : Q ()) : (runUnique job commands).Within I (Via P) Q := by
  intro s hs
  constructor
  · dsimp only
    split
    · next hnew => exact via_of_emits hI (.seq (hc s hs hnew)) s hs
    · exact ⟨hs, .refl s⟩
  · dsimp only
    split
    · exact hQ
    · trivial

omit hI in
lemma emits_saveCommands (hP : ∀ e, PersistEffect job e → P e) :
    ∀ c ∈ saveCommands job now, Emits P c := by
  intro c hc
  simp only [saveCommands, List.mem_cons, List.not_mem_nil, or_false] at hc
  rcases hc with rfl | rfl
  · exact .effect (.hset _ _) (hP _ (.write (.save (.refl job))))
  · cases httl : job.ttl with
    | none => exact .seq (List.forall_mem_nil _)
    | some ttl =>
      split
      · next hpos =>
        have he : PersistEffect job (.expire job.id (now + ttl)) :=
          .cleanup (httl ▸ .expire hpos _)
        exact .effect (.expire _ _) (hP _ he)
      · exact .seq (List.forall_mem_nil _)

include hclient

lemma within_persistJob {status : JobStatus} (hP : ∀ e, PersistEffect job e → P e)
    {Q : Job × Client → Prop}
    (hQ : ∀ status client, client.Emits P → Q ({ job with status := status }, client)) :
    (_persistJob job client status now).Within I (Via P) Q := by
  have halike : job.Alike { job with status := status } := ⟨rfl, rfl, rfl, rfl⟩
  have hsave : P (.hset job.id (({ job with status := status } : Job).toDict true)) :=
    hP _ (.write (.save halike))
  simp only [_persistJob, within_bind]
  refine Job.within_setStatus hI hclient (hP _ (.write (.status status))) fun client hclient => ?_
  refine Job.within_save hI hclient hsave fun client hclient => ?_
  apply Job.within_cleanup hI hclient
  · exact fun e he => hP e (.cleanup he)
  · exact hQ

lemma within_enqueueOnPipeline {isDeferred atFront : Bool}
    (hP : ∀ e, EnqueueEffect self.name job e → P e) {Q : Job × Client → Prop}
    (hQ : ∀ status client, client.Emits P → Q ({ job with status := status }, client)) :
    (self.enqueueOnPipeline job isDeferred client atFront now).Within I (Via P) Q := by
  have hrest : ∀ client : Client, client.Emits P →
      (_persistJob job client .queued now).Within I (Via P) fun r =>
        (self.pushJobId r.1.id r.2 atFront).Within I (Via P) fun client => Q (r.1, client) :=
    fun client hclient => by
      refine within_persistJob hI hclient (fun e he => hP e (.persist he))
        fun status client hclient => ?_
      exact within_command hI hclient (.effect (.push _ _ _) (hP _ (.push atFront))) (hQ status)
  cases isDeferred <;> simp only [enqueueOnPipeline, Bool.false_eq_true, if_false, if_true,
    Prog.pure_eq, Prog.ret_bind, within_bind]
  · exact hrest client hclient
  · exact within_command hI hclient (.benign (benign_zrem _ _ _)) hrest

/-- `Queue._enqueue_job` with `unique=True` -/
lemma within_enqueueUnique {atFront : Bool}
    (hP : ∀ s, I s → s.val (.job job.id) = default → ∀ e, EnqueueEffect self.name job e → P e)
    {Q : Job × Client → Prop}
    (hQ : ∀ job' client, job.Alike job' → client.Emits P → Q (job', client)) :
    (self._enqueueJob job client atFront true now).Within I (Via P) Q := by
  have halike : job.Alike (self._prepareForQueue job now) := ⟨rfl, rfl, rfl, rfl⟩
  simp only [_enqueueJob, saveUniqueJob, if_true, within_bind]
  refine within_runUnique hI (fun s hs hnew c hc => ?_) (hQ _ _ halike hclient)
  have hP := hP s hs hnew
  obtain hc | hc := List.mem_append.mp hc
  · exact emits_saveCommands (fun e he => hP e (.of_alike halike (.persist he))) c hc
  · obtain rfl := List.mem_singleton.mp hc
    exact .effect (.push _ _ _) (hP _ (.push atFront))

/-- `Queue._enqueue_job`, through a pipeline or not -/
lemma within_enqueueJob' {atFront : Bool} (hP : ∀ e, EnqueueEffect self.name job e → P e)
    {Q : Job × Client → Prop}
    (hQ : ∀ job' client, job.Alike job' → client.Emits P → Q (job', client)) :
    (self._enqueueJob job client atFront false now).Within I (Via P) Q := by
  have halike : job.Alike (self._prepareForQueue job now) := ⟨rfl, rfl, rfl, rfl⟩
  have halike' : ∀ status, job.Alike { self._prepareForQueue job now with status := status } :=
    fun _ => ⟨rfl, rfl, rfl, rfl⟩
  have hP' : ∀ e, EnqueueEffect self.name (self._prepareForQueue job now) e → P e :=
    fun e he => hP e (he.of_alike halike)
  cases client with
  | some pipe =>
    simp only [_enqueueJob, Bool.false_eq_true, if_false]
    exact within_enqueueOnPipeline hI hclient hP' fun status client h => hQ _ _ (halike' status) h
  | none =>
    simp only [_enqueueJob, Bool.false_eq_true, if_false, within_bind]
    refine within_enqueueOnPipeline hI Client.emits_empty hP' fun status client h => ?_
    exact within_execute hI h.getD fun _ => hQ _ _ (halike' status) trivial

lemma within_scheduleOnPipeline {datetime : Time} (hP : ∀ e, ScheduleEffect self.name job e → P e)
    {Q : Job × Client → Prop}
    (hQ : ∀ status client, client.Emits P → Q ({ job with status := status }, client)) :
    (self.scheduleOnPipeline job datetime client now).Within I (Via P) Q := by
  simp only [scheduleOnPipeline, scheduledRegistrySchedule, within_bind]
  refine within_command hI hclient (.benign (benign_register _)) fun client hclient => ?_
  refine within_persistJob hI hclient (fun e he => hP e (.persist he))
    fun status client hclient => ?_
  exact within_emit hI (.effect (.zadd _ _ _ _) (hP _ (.zadd datetime))) (hQ status client hclient)

/-- `Queue.schedule_job` with `unique=True` -/
lemma within_scheduleUnique {datetime : Time}
    (hP : ∀ s, I s → s.val (.job job.id) = default → ∀ e, ScheduleEffect self.name job e → P e)
    {Q : Job × Client → Prop}
    (hQ : ∀ job' client, job.Alike job' → client.Emits P → Q (job', client)) :
    (self.scheduleJob job datetime client true now).Within I (Via P) Q := by
  have halike : job.Alike { job with status := .scheduled } := ⟨rfl, rfl, rfl, rfl⟩
  simp only [scheduleJob, scheduleUniqueJob, if_true, within_bind]
  refine within_runUnique hI (fun s hs hnew c hc => ?_) (hQ _ _ halike hclient)
  have hP := hP s hs hnew
  have hpersist : ∀ e, PersistEffect { job with status := .scheduled } e → P e :=
    fun e he => hP e (.persist (he.of_alike halike))
  simp only [List.mem_append, List.mem_cons, List.not_mem_nil, or_false] at hc
  rcases hc with hc | rfl | rfl
  · exact emits_saveCommands hpersist c hc
  · exact .effect (.zadd _ _ _ _) (hP _ (.zadd datetime))
  · exact .benign (benign_register _)

/-- `Queue.schedule_job`, through a pipeline or not -/
lemma within_scheduleJob {datetime : Time} (hP : ∀ e, ScheduleEffect self.name job e → P e)
    {Q : Job × Client → Prop}
    (hQ : ∀ job' client, job.Alike job' → client.Emits P → Q (job', client)) :
    (self.scheduleJob job datetime client false now).Within I (Via P) Q := by
  have halike : ∀ status, job.Alike { job with status := status } := fun _ => ⟨rfl, rfl, rfl, rfl⟩
  cases client with
  | some pipe =>
    simp only [scheduleJob, Bool.false_eq_true, if_false]
    exact within_scheduleOnPipeline hI hclient hP fun status client h => hQ _ _ (halike status) h
  | none =>
    simp only [scheduleJob, Bool.false_eq_true, if_false, within_bind]
    refine within_scheduleOnPipeline hI Client.emits_empty hP fun status client h => ?_
    exact within_execute hI h.getD fun _ => hQ _ _ (halike status) trivial

end Queue

/-! ### Dependencies -/

namespace Queue
variable {I : Store → Prop} {P : Effect → Prop} {now : Time} {self : Queue} {job : Job}

section
variable (hI : Stable I P)
include hI

lemma within_setupDependenciesAttempt {pipe : Pipeline Key Value}
    (hpipe : Client.Emits P (some pipe)) (hP : ∀ e, DeferEffect job e → P e)
    {Q : Bool × Job × Client → Prop}
    (hQ : ∀ deferred job' client, job.Alike job' → client.Emits P → Q (deferred, job', client)) :
    (setupDependenciesAttempt job pipe now).Within I (Via P) Q := by
  have halike : job.Alike { job with status := .deferred } := ⟨rfl, rfl, rfl, rfl⟩
  have hsave : P (.hset job.id (({ job with status := .deferred } : Job).toDict true)) :=
    hP _ (.persist (.write (.save halike)))
  simp only [setupDependenciesAttempt, within_bind]
  refine within_watch hpipe fun pipe hpipe => ?_
  refine Job.within_fetchDependencies hpipe fun jobs client hclient => ?_
  refine within_multi hclient.getD fun pipe hpipe => ?_
  split
  · simp only [within_bind]
    refine Job.within_setStatus hI hpipe (hP _ (.persist (.write (.status _))))
      fun client hclient => ?_
    apply Job.within_registerDependency hI hclient
    · exact fun score => hP _ (.zadd score)
    · exact fun id hid => hP _ (.depend hid)
    intro client hclient
    refine Job.within_save hI hclient hsave fun client hclient => ?_
    apply Job.within_cleanup hI hclient
    · exact fun e he => hP e (.persist (.cleanup he))
    · exact fun status client hclient => hQ _ _ client ⟨rfl, rfl, rfl, rfl⟩ hclient
  · exact hQ _ _ _ (.refl job) hpipe

lemma within_setupDependenciesLoop {fuel : ℕ} (hP : ∀ e, DeferEffect job e → P e)
    {Q : Job → Prop} (hQ : ∀ job', job.Alike job' → Q job') :
    (setupDependenciesLoop job now fuel).Within I (Via P) Q := by
  induction fuel with
  | zero => trivial
  | succ fuel ih =>
    simp only [setupDependenciesLoop, within_bind]
    refine within_setupDependenciesAttempt hI Client.emits_empty hP
      fun deferred job' client h hclient => ?_
    split
    · simp only [within_bind]
      refine within_execute hI hclient.getD fun committed => ?_
      -- after a conflict the next iteration starts from the same object
      split
      · exact hQ job' h
      · exact ih
    · exact hQ job' h

lemma within_setupDependencies {client : Client} (hclient : client.Emits P) {fuel : ℕ}
    (hP : ∀ e, DeferEffect job e → P e) {Q : Job × Client → Prop}
    (hQ : ∀ job' client, job.Alike job' → client.Emits P → Q (job', client)) :
    (setupDependencies job client now fuel).Within I (Via P) Q := by
  unfold setupDependencies
  split
  · simp only [within_bind]
    exact within_setupDependenciesLoop hI hP fun job' h => hQ job' none h trivial
  · simp only [within_bind]
    exact within_setupDependenciesAttempt hI hclient hP fun _ job' client h => hQ job' client h
  · next pipe _ =>
    split
    · exact hQ _ _ (.refl job) hclient
    · simp only [within_bind]
      exact within_multi hclient fun _ h => hQ _ _ (.refl job) h
  · exact hQ _ _ (.refl job) trivial

omit hI in
lemma emits_register (key : String) : Emits P (.alter .queues fun q => q.insert key) :=
  .benign (benign_register key)

/-- `Queue.enqueue_job` -/
lemma within_enqueueJob {client : Client} (hclient : client.Emits P) {atFront : Bool} {fuel : ℕ}
    (hdefer : ∀ e, DeferEffect { job with origin := self.name } e → P e)
    (hP : ∀ e, EnqueueEffect self.name job e → P e) {Q : Job × Client → Prop}
    (hQ : ∀ job' client, job.Alike job' → client.Emits P → Q (job', client)) :
    (self.enqueueJob job client atFront false now fuel).Within I (Via P) Q := by
  have halike : job.Alike { job with origin := self.name } := ⟨rfl, rfl, rfl, rfl⟩
  have hrest : ∀ (job' : Job) (client : Client), job.Alike job' → client.Emits P →
      (if job'.status ≠ .deferred then self._enqueueJob job' client atFront false now
        else return (job', client) : Redis (Job × Client)).Within I (Via P) Q :=
    fun job' client h hclient => by
      split
      · exact within_enqueueJob' hI hclient (fun e he => hP e (he.of_alike h))
          fun job'' client h' => hQ job'' client (h.trans h')
      · exact hQ job' client h hclient
  simp only [enqueueJob, Bool.false_and, Bool.false_eq_true, if_false, within_bind]
  refine within_setupDependencies hI hclient hdefer fun job' client h hclient => ?_
  have h := halike.trans h
  cases client with
  | some pipe =>
    rw [within_bind]
    exact within_command hI hclient (emits_register _) fun client => hrest job' client h
  | none =>
    simp only [within_bind]
    refine within_pipelineCommand hI Client.emits_empty (emits_register _) fun pipe hpipe => ?_
    exact within_execute hI hpipe fun _ => hrest job' none h trivial

/-- `Queue.enqueue_job` with `unique=True` -/
lemma within_enqueueJobUnique {atFront : Bool} {fuel : ℕ}
    (hP : ∀ s, I s → s.val (.job job.id) = default → ∀ e, EnqueueEffect self.name job e → P e)
    {Q : Job × Client → Prop}
    (hQ : ∀ job' client, job.Alike job' → client.Emits P → Q (job', client)) :
    (self.enqueueJob job none atFront true now fuel).Within I (Via P) Q := by
  have halike : job.Alike { job with origin := self.name, dependencyIds := [] } := ⟨rfl, rfl, rfl, rfl⟩
  unfold enqueueJob
  cases hids : job.dependencyIds with
  | cons id ids => trivial
  | nil =>
    simp only [setupDependencies, List.isEmpty_nil, Bool.not_true, Bool.and_false,
      Bool.false_eq_true, if_false, Prog.pure_eq, Prog.ret_bind, within_bind]
    refine within_pipelineCommand hI Client.emits_empty (emits_register _) fun pipe hpipe => ?_
    refine within_execute hI hpipe fun _ => ?_
    split
    · apply within_enqueueUnique hI Client.emits_none
      · exact fun s hs hnew e he => hP s hs hnew e (he.of_alike halike)
      · exact fun job' client h => hQ job' client (halike.trans h)
    · exact hQ _ _ halike Client.emits_none

end

/-- The objects of the dependents that `enqueue_dependents` enqueues are as they have been fetched. -/
lemma within_jobsToEnqueue {excludeJobId : Option JobId} {refreshJobStatus : Bool}
    {dependents : List (Option Job)} {parent : Job} {client : Client} (hclient : client.Emits P)
    {Q : List Job × Job × Client → Prop}
    (hQ : ∀ jobs parent' client, (∀ job ∈ jobs, some job ∈ dependents) → parent.Refreshed parent' →
      client.Emits P → Q (jobs, parent', client)) :
    (jobsToEnqueue excludeJobId refreshJobStatus dependents parent client).Within I (Via P) Q := by
  induction dependents generalizing parent client Q with
  | nil => exact hQ [] parent client (List.forall_mem_nil _) (.refl parent) hclient
  | cons dependent rest ih =>
    cases dependent with
    | none =>
      exact ih hclient fun jobs parent' client hjobs =>
        hQ jobs parent' client fun job hjob => List.mem_cons_of_mem _ (hjobs job hjob)
    | some dependent =>
      simp only [jobsToEnqueue, within_bind]
      refine Job.within_dependenciesAreMet hclient fun met parent' client hparent hclient => ?_
      have hparent' : parent.Refreshed (parent'.getD parent) := by
        cases parent' with
        | none => exact .refl parent
        | some p =>
          obtain ⟨p', hp', h⟩ := hparent p rfl
          obtain rfl : parent = p' := by simpa using hp'
          exact h
      refine ih hclient fun jobs parent'' client hjobs h hclient => ?_
      split
      · refine hQ _ _ client (fun job hjob => ?_) (hparent'.trans h) hclient
        obtain rfl | hjob := List.mem_cons.mp hjob
        · exact List.mem_cons_self
        · exact List.mem_cons_of_mem _ (hjobs job hjob)
      · exact hQ _ _ client (fun job hjob => List.mem_cons_of_mem _ (hjobs job hjob))
          (hparent'.trans h) hclient

lemma queueFor_eq (self : Queue) (dependent : Job) :
    (self.queueFor dependent).name = dependent.origin := by
  unfold queueFor
  split
  · next h => exact h.symm
  · rfl

variable (hI : Stable I P)
include hI

lemma within_enqueueEach {jobs : List Job} {client : Client} (hclient : client.Emits P)
    (hP : ∀ job ∈ jobs, ∀ e, EnqueueEffect job.origin job e → P e) {Q : Client → Prop}
    (hQ : ∀ client, client.Emits P → Q client) :
    (self.enqueueEach now jobs client).Within I (Via P) Q := by
  induction jobs generalizing client with
  | nil => exact hQ client hclient
  | cons job jobs ih =>
    simp only [enqueueEach, within_bind]
    refine within_command hI hclient (.benign (benign_zrem _ _ _)) fun client hclient => ?_
    refine within_enqueueJob' hI hclient (fun e he => ?_) fun _ client _ hclient => ?_
    · rw [queueFor_eq] at he
      exact hP job List.mem_cons_self e he
    · exact ih hclient fun job hjob => hP job (List.mem_cons_of_mem _ hjob)

lemma within_enqueueDependentsAttempt {client : Client} (hclient : client.Emits P)
    {excludeJobId : Option JobId} {refreshJobStatus : Bool}
    (hP : ∀ e, ReleaseEffect I job.id e → P e) {Q : Bool × Job × Client → Prop}
    (hQ : ∀ pending job' client, job.Refreshed job' → client.Emits P → Q (pending, job', client)) :
    (self.enqueueDependentsAttempt job client excludeJobId refreshJobStatus now).Within I (Via P)
      Q := by
  simp only [enqueueDependentsAttempt, within_bind]
  refine within_clientQuery fun s hs => ?_
  split
  · exact hQ _ _ _ (.refl job) hclient
  · simp only [within_bind]
    refine Job.within_fetchMany fun s' fetched hs' hfetched => ?_
    refine within_jobsToEnqueue hclient fun jobs job' client hjobs h hclient => ?_
    refine within_multi hclient.getD fun pipe hpipe => ?_
    split
    · exact hQ _ _ _ h hpipe
    · simp only [within_bind]
      refine within_enqueueEach hI hpipe (fun dependent hd e he => ?_) fun client hclient => ?_
      · obtain ⟨hmem, hstored⟩ := hfetched dependent (hjobs dependent hd)
        exact hP e (.enqueue hs hs' hmem hstored he)
      · split
        all_goals
          rw [within_bind]
          refine within_command hI hclient (.benign (benign_dependents _ fun d child hchild => ?_))
            fun client hclient => hQ _ _ _ h hclient
        · exact absurd hchild List.not_mem_nil
        · exact (RSet.mem_eraseAll.mp hchild).1

lemma within_enqueueDependentsLoop {excludeJobId : Option JobId} {refreshJobStatus : Bool}
    {fuel : ℕ} (hP : ∀ e, ReleaseEffect I job.id e → P e) {Q : Job → Prop}
    (hQ : ∀ job', job.Refreshed job' → Q job') :
    (self.enqueueDependentsLoop excludeJobId refreshJobStatus now fuel job).Within I (Via P) Q := by
  induction fuel generalizing job with
  | zero => trivial
  | succ fuel ih =>
    simp only [enqueueDependentsLoop, within_bind]
    refine within_watch Client.emits_empty fun pipe hpipe => ?_
    refine within_enqueueDependentsAttempt hI hpipe hP fun pending job' client h hclient => ?_
    split
    · simp only [within_bind]
      refine within_execute hI hclient.getD fun committed => ?_
      split
      · exact hQ job' h
      · exact ih (fun e he => hP e (h.alike.id ▸ he)) fun job'' h' => hQ job'' (h.trans h')
    · exact hQ job' h

/-- `Queue.enqueue_dependents` -/
lemma within_enqueueDependents {client : Client} (hclient : client.Emits P)
    {excludeJobId : Option JobId} {refreshJobStatus : Bool} {fuel : ℕ}
    (hP : ∀ e, ReleaseEffect I job.id e → P e) {Q : Job × Client → Prop}
    (hQ : ∀ job' client, job.Refreshed job' → client.Emits P → Q (job', client)) :
    (self.enqueueDependents job client excludeJobId refreshJobStatus now fuel).Within I (Via P)
      Q := by
  cases client with
  | none =>
    simp only [enqueueDependents, within_bind]
    exact within_enqueueDependentsLoop hI hP fun job' h => hQ job' none h trivial
  | some pipe =>
    simp only [enqueueDependents, within_bind]
    exact within_enqueueDependentsAttempt hI hclient hP fun _ job' client h => hQ job' client h

end Queue

/-! ### Dequeueing -/

namespace Queue
variable {I : Store → Prop} {P : Effect → Prop} (hI : Stable I P)
include hI

/-- `LMOVE` takes the first id of a list to the intermediate queue. -/
lemma within_lmove {queueKey : String} {timeout : Option ℕ} (hP : ∀ id, P (.hold queueKey id))
    {Q : Option (String × JobId) → Prop} (hQ : ∀ r, Q r) :
    (lmove queueKey timeout).Within I (Via P) Q := by
  have hmove : ∀ id, ∀ c ∈ [Command.alter (.list queueKey) List.tail,
      (Effect.hold queueKey id).command], Emits P c := by
    intro id c hc
    simp only [List.mem_cons, List.not_mem_nil, or_false] at hc
    rcases hc with rfl | rfl
    · exact .benign (benign_list _ fun _ _ => List.mem_of_mem_tail)
    · exact .effect (.hold queueKey id) (hP id)
  unfold lmove
  split
  · trivial
  · intro s hs
    refine ⟨?_, ?_⟩
    · dsimp only
      split
      · exact ⟨hs, .refl s⟩
      · next id rest hlist =>
        -- on this store, writing the rest is taking the tail
        have htail : (Command.write (.list queueKey) fun _ => rest : Command Key Value).run s =
            (Command.alter (.list queueKey) List.tail).run s := by
          simp [Command.write, Command.alter, hlist]
        rw [Command.seq_cons_run, htail]
        exact via_of_emits hI (.seq (hmove id)) s hs
    · dsimp only
      split
      · exact hQ _
      · trivial
      · exact hQ _

lemma within_popAny {version : ℕ × ℕ × ℕ} {queueKeys : List String} {timeout : Option ℕ}
    (hP : ∀ key ∈ queueKeys, ∀ id, P (.hold key id)) {Q : Option (String × JobId) → Prop}
    (hQ : ∀ r, Q r) : (popAny version queueKeys timeout).Within I (Via P) Q := by
  have hpop : ∀ key, Emits P (.alter (.list key) List.tail) := fun key =>
    .benign (benign_list _ fun _ _ => List.mem_of_mem_tail)
  have heach : ∀ keys, (lpopEach keys).Within I (Via P) Q := fun keys => by
    induction keys with
    | nil => exact hQ _
    | cons key keys ih =>
      refine fun s hs => ⟨via_of_emits hI (hpop key) s hs, ?_⟩
      dsimp only
      split
      · exact hQ _
      · exact ih
  have hlpop : ∀ keys, (lpop keys timeout).Within I (Via P) Q := fun keys => by
    unfold lpop
    split
    · exact heach keys
    · trivial
    · intro s hs
      constructor
      · dsimp only
        split
        · exact via_of_emits hI (hpop _) s hs
        · exact ⟨hs, .refl s⟩
      · dsimp only
        split
        · exact hQ _
        · trivial
  unfold popAny
  split
  · split
    · exact within_lmove hI (hP _ List.mem_cons_self) hQ
    · exact hlpop _
  · exact hlpop _

lemma within_dequeueAny {version : ℕ × ℕ × ℕ} {queueKeys : List String} {timeout : Option ℕ}
    {fuel : ℕ} (hP : ∀ key ∈ queueKeys, ∀ id, P (.hold key id))
    {Q : Option (Job × String) → Prop} (hQ : ∀ r, Q r) :
    (dequeueAny version queueKeys timeout fuel).Within I (Via P) Q := by
  induction fuel with
  | zero => trivial
  | succ fuel ih =>
    simp only [dequeueAny, within_bind]
    refine within_popAny hI hP fun r => ?_
    split
    · exact hQ _
    · simp only [within_bind]
      refine within_read Via.refl fun s _ => ?_
      split
      · exact ih
      · split
        · exact hQ _
        · exact ih
        · trivial

end Queue

/-! ### Running a job again -/

/-- `Repeat.schedule` -/
inductive RepeatEffect (name : QueueName) (job : Job) : Effect → Prop where
  | again {repeatCount interval : ℕ} {e : Effect} (hleft : job.repeatsLeft = some (repeatCount + 1))
      (hinterval : Repeat.intervalFor job repeatCount = .ok interval)
      (h : AgainEffect name job interval e) : RepeatEffect name job e

/-- `Job.retry` -/
inductive RetryEffect (name : QueueName) (job : Job) : Effect → Prop where
  | again {interval : ℕ} {e : Effect} (hinterval : job.getRetryInterval = .ok interval)
      (h : AgainEffect name job interval e) : RetryEffect name job e

section
variable {I : Store → Prop} {P : Effect → Prop} {client : Client} {now : Time} {queue : Queue}
  {job : Job} (hI : Stable I P) (hclient : client.Emits P)
include hI hclient

lemma within_repeat (hP : ∀ e, RepeatEffect queue.name job e → P e) {zone : LocalZone}
    {Q : Job × Client → Prop}
    (hQ : ∀ job' client, job.Alike job' → client.Emits P → Q (job', client)) :
    (Repeat.schedule job queue zone client now).Within I (Via P) Q := by
  unfold Repeat.schedule
  split
  · trivial
  · trivial
  · next repeatCount hleft =>
    have halike : job.Alike { job with repeatsLeft := some repeatCount } := ⟨rfl, rfl, rfl, rfl⟩
    rw [within_bind, within_ofExcept]
    intro interval hinterval
    have hP : ∀ e, AgainEffect queue.name job interval e → P e :=
      fun e he => hP e (.again hleft hinterval he)
    rw [within_bind]
    apply Job.within_save hI hclient
    · exact hP _ (.persist (.write (.save halike)))
    intro client hclient
    split
    · next h0 =>
      rw [AgainEffect, if_pos h0] at hP
      exact Queue.within_enqueueJob' hI hclient (fun e he => hP e (he.of_alike halike))
        fun job' client h => hQ job' client (halike.trans h)
    · next h0 =>
      rw [AgainEffect, if_neg h0] at hP
      exact Queue.within_scheduleJob hI hclient (fun e he => hP e (he.of_alike halike))
        fun job' client h => hQ job' client (halike.trans h)

/-- A job that is scheduled again has its status set through the connection. -/
lemma within_scheduleAgain {interval : ℕ} {job' : Job} (halike : job.Alike job')
    (hP : ∀ e, ScheduleEffect queue.name job e → P e) {Q : Job × Client → Prop}
    (hQ : ∀ job' client, job.Alike job' → client.Emits P → Q (job', client)) :
    (job'.setStatus .scheduled none).Within I (Via P) fun r =>
      (queue.scheduleJob r.1 (now + interval) client false now).Within I (Via P) Q := by
  have halike' : job.Alike { job' with status := .scheduled } :=
    ⟨halike.id, halike.ttl, halike.failureTtl, halike.metadata⟩
  apply Job.within_setStatus hI Client.emits_none
  · exact halike.id ▸ hP _ (.persist (.write (.status _)))
  intro _ _
  exact Queue.within_scheduleJob hI hclient (fun e he => hP e (he.of_alike halike'))
    fun job'' client h => hQ job'' client (halike'.trans h)

lemma within_retry (hP : ∀ e, RetryEffect queue.name job e → P e) {Q : Job × Client → Prop}
    (hQ : ∀ job' client, job.Alike job' → client.Emits P → Q (job', client)) :
    (job.retry queue client now).Within I (Via P) Q := by
  unfold Job.retry
  rw [within_bind, within_ofExcept]
  intro interval hinterval
  have hP : ∀ e, AgainEffect queue.name job interval e → P e :=
    fun e he => hP e (.again hinterval he)
  split
  · trivial
  · trivial
  · next retriesLeft _ =>
    have halike : job.Alike { job with retriesLeft := some retriesLeft } := ⟨rfl, rfl, rfl, rfl⟩
    dsimp only
    split
    · next h0 =>
      rw [AgainEffect, if_neg h0] at hP
      rw [within_bind]
      exact within_scheduleAgain hI hclient halike hP hQ
    · next h0 =>
      rw [AgainEffect, if_pos (not_not.mp h0)] at hP
      exact Queue.within_enqueueJob' hI hclient (fun e he => hP e (he.of_alike halike))
        fun job'' client h => hQ job'' client (halike.trans h)

lemma within_handleRetryResult {retry : Retry} {info : Job.ExecutionInfo}
    (hP : ∀ e, AgainEffect queue.name job
      (Retry.getInterval (job.numberOfRetries.getD 0) retry.intervals) e → P e)
    {Q : Job × Client → Prop}
    (hQ : ∀ job' client, job.Alike job' → client.Emits P → Q (job', client)) :
    (job._handleRetryResult queue client retry info now).Within I (Via P) Q := by
  have halike : job.Alike { job with numberOfRetries := some (job.numberOfRetries.getD 0 + 1) } :=
    ⟨rfl, rfl, rfl, rfl⟩
  unfold Job._handleRetryResult
  rw [within_bind]
  refine Job.within_createResult hI hclient fun client hclient => ?_
  dsimp only
  split
  · next h0 =>
    rw [AgainEffect, if_neg h0] at hP
    rw [within_bind]
    exact within_scheduleAgain hI hclient halike hP hQ
  · next h0 =>
    rw [AgainEffect, if_pos (not_not.mp h0)] at hP
    exact Queue.within_enqueueJob' hI hclient (fun e he => hP e (he.of_alike halike))
      fun job'' client h => hQ job'' client (halike.trans h)

omit hclient in
/-- `BaseRegistry.requeue` -/
lemma within_requeue {kind : RegistryKind} {name : QueueName} {atFront : Bool}
    (hP : ∀ s, I s → job.id ∈ s.val (.registry kind name) →
      ∀ e, EnqueueEffect job.origin job e → P e) {Q : Job → Prop}
    (hQ : ∀ job', job.Alike job' → Q job') :
    (Job.requeue kind name job atFront now).Within I (Via P) Q := by
  have halike : job.Alike { job with startedAt := none, endedAt := none } := ⟨rfl, rfl, rfl, rfl⟩
  intro s hs
  refine ⟨via_of_emits hI (.benign (benign_zrem _ _ _)) s hs, ?_⟩
  dsimp only
  split
  · trivial
  · next hmem =>
    have hP := hP s hs (not_not.mp hmem)
    simp only [within_bind]
    apply Job.within_save hI Client.emits_none
    · exact hP _ (.persist (.write (.save halike)))
    intro _ _
    apply Queue.within_enqueueJob' hI Client.emits_empty
    · exact fun e he => hP e (he.of_alike halike)
    intro job' client h hclient
    exact within_execute hI hclient.getD fun _ => hQ job' (halike.trans h)

end

/-! ### The scheduler -/

section
variable {I : Store → Prop} {P : Effect → Prop} {now : Time} {queue : Queue} (hI : Stable I P)
include hI

/-- A tick enqueues the jobs that are due. -/
inductive TickEffect (I : Store → Prop) (name : QueueName) (now : Time) : Effect → Prop where
  | enqueue {s s' : Store} {job : Job} {e : Effect} (hs : I s) (hs' : I s')
      (hdue : job.id ∈ dueIds name now s)
      (hstored : Job.restore job.id (s'.val (.job job.id)) = .ok job)
      (h : EnqueueEffect name job e) : TickEffect I name now e

lemma within_enqueueFetched {jobs : List (Option Job)} {client : Client} (hclient : client.Emits P)
    (hP : ∀ job, some job ∈ jobs → ∀ e, EnqueueEffect queue.name job e → P e) {Q : Client → Prop}
    (hQ : ∀ client, client.Emits P → Q client) :
    (enqueueFetched queue now jobs client).Within I (Via P) Q := by
  induction jobs generalizing client with
  | nil => exact hQ client hclient
  | cons job jobs ih =>
    have hrest : ∀ job, some job ∈ jobs → ∀ e, EnqueueEffect queue.name job e → P e :=
      fun job hjob => hP job (List.mem_cons_of_mem _ hjob)
    cases job with
    | none => exact ih hclient hrest
    | some job =>
      simp only [enqueueFetched, within_bind]
      refine Queue.within_enqueueJob' hI hclient (hP job List.mem_cons_self)
        fun _ client _ hclient => ?_
      exact ih hclient hrest

lemma within_removeFetched {name : QueueName} {ids : List JobId} {client : Client}
    (hclient : client.Emits P) {Q : Client → Prop} (hQ : ∀ client, client.Emits P → Q client) :
    (removeFetched name ids client).Within I (Via P) Q := by
  induction ids generalizing client with
  | nil => exact hQ client hclient
  | cons id ids ih =>
    simp only [removeFetched, within_bind]
    exact within_command hI hclient (.benign (benign_zrem _ _ _)) fun _ hclient => ih hclient

/-- `RQScheduler.enqueue_scheduled_jobs`, for one queue -/
lemma within_enqueueDueJobs (hP : ∀ e, TickEffect I queue.name now e → P e) {Q : Unit → Prop}
    (hQ : Q ()) : (enqueueDueJobs queue now).Within I (Via P) Q := by
  simp only [enqueueDueJobs, getJobsToSchedule, within_bind]
  refine within_read Via.refl fun s hs => ?_
  split
  · exact hQ
  · simp only [within_bind]
    refine Job.within_fetchMany fun s' jobs hs' hjobs => ?_
    refine within_enqueueFetched hI Client.emits_empty (fun job hjob e he => ?_)
      fun client hclient => ?_
    · obtain ⟨hdue, hstored⟩ := hjobs job hjob
      exact hP e (.enqueue hs hs' hdue hstored he)
    · refine within_removeFetched hI hclient fun client hclient => ?_
      exact within_execute hI hclient.getD fun _ => hQ

end

end RedisQueue
