import RedisQueue.Footprints

/-!
# Which effects an execution has

The methods of workers, and of the clean-up of abandoned executions, in the manner of `Footprints`.

* `RunEffect`: what starts and ends an execution;
* `SuccessEffect`, `JobRetryEffect`, `FailureEffect`: the three outcomes;
* `AbandonEffect`: the clean-up of abandoned executions.
-/

namespace RedisQueue

open Prog

/-! ## Effects -/

/-- What an execution writes to the hash of its job besides its outcome. -/
inductive RunEffect (job : Job) : Effect → Prop where
  | write {m : JobHash} (h : job.Write false m) : RunEffect job (.hset job.id m)

/-- One iteration of `BaseWorker.handle_job_success`. -/
inductive SuccessEffect (I : Store → Prop) (self : Worker) (name : QueueName) (job : Job) :
    Effect → Prop where
  | release {e : Effect} (h : ReleaseEffect I job.id e) : SuccessEffect I self name job e
  | finish {e : Effect} (hne : job.getResultTtl self.defaultResultTtl ≠ 0) (h : FinishEffect job e) :
      SuccessEffect I self name job e
  | repeats {e : Effect} (hleft : 0 < job.repeatsLeft.getD 0) (h : RepeatEffect name job e) :
      SuccessEffect I self name job e
  | cleanup {e : Effect} (hleft : ¬0 < job.repeatsLeft.getD 0)
      (h : CleanupEffect job.id (some (job.getResultTtl self.defaultResultTtl)) e) :
      SuccessEffect I self name job e

/-- `BaseWorker.handle_job_failure` retries the job. -/
def Worker.retries (self : Worker) (job : Job) : Bool :=
  job.shouldRetry && !(self.stoppedJobId == some job.id)

/-- `BaseWorker.handle_job_failure` -/
inductive FailureEffect (I : Store → Prop) (self : Worker) (name : QueueName) (job : Job) :
    Effect → Prop where
  | status (status : JobStatus) (hretries : self.retries job = false) :
      FailureEffect I self name job (.hset job.id { status := some status })
  | fail {e : Effect} (hretries : self.retries job = false)
      (hhandler : self.disableDefaultExceptionHandler = false) (h : FailEffect job e) :
      FailureEffect I self name job e
  | retry {e : Effect} (hretries : self.retries job = true) (h : RetryEffect name job e) :
      FailureEffect I self name job e
  | release {e : Effect} (hretries : self.retries job = false) (h : ReleaseEffect I job.id e) :
      FailureEffect I self name job e

/-- `Worker.monitor_work_horse` accounts for the death of the work horse. -/
def Worker.handlesDeath (self : Worker) (job : Job) (retVal : ℤ)
    (stoppedCallback killedHandler : Option String) (s : Store) : Prop :=
  retVal ≠ 0 ∧ ∃ status ∈ (s.val (.job job.id)).status,
    if self.stoppedJobId = some job.id then stoppedCallback = none
    else status ≠ .finished ∧ status ≠ .failed ∧ killedHandler = none

/-- `BaseWorker.handle_job_retry` gives up. -/
def Job.retriesExceeded (self : Job) (retry : Retry) : Prop :=
  self.numberOfRetries.getD 0 ≠ 0 ∧ retry.max ≤ self.numberOfRetries.getD 0

instance (self : Job) (retry : Retry) : Decidable (self.retriesExceeded retry) :=
  inferInstanceAs (Decidable (_ ∧ _))

/-- `BaseWorker.handle_job_retry` -/
inductive JobRetryEffect (I : Store → Prop) (name : QueueName) (job : Job) (retry : Retry) :
    Effect → Prop where
  | fail {e : Effect} (hexceeded : job.retriesExceeded retry) (h : FailEffect job e) :
      JobRetryEffect I name job retry e
  | release {e : Effect} (hexceeded : job.retriesExceeded retry) (h : ReleaseEffect I job.id e) :
      JobRetryEffect I name job retry e
  | again {e : Effect} (hexceeded : ¬job.retriesExceeded retry)
      (h : AgainEffect name job (Retry.getInterval (job.numberOfRetries.getD 0) retry.intervals) e) :
      JobRetryEffect I name job retry e

/-! ## Executions -/

namespace Worker
variable {I : Store → Prop} {P : Effect → Prop} {now : Time} {self : Worker} {job : Job}
  {queue : Queue}

lemma benign_hsetWorker (name : WorkerName) (f : WorkerHash → WorkerHash) :
    Benign (hsetWorker name f) :=
  benign_write (k := .worker name) trivial f

lemma within_workingTime {Q : ℤ → Prop} (hQ : ∀ time, Q time) :
    (Prog.ofExcept (workingTime job) : Redis ℤ).Within I (Via P) Q :=
  within_ofExcept.mpr fun time _ => hQ time

/-- The status does not matter for the effects of a repetition. -/
lemma repeatEffect_status {name : QueueName} {status : JobStatus} {e : Effect}
    (he : RepeatEffect name { job with status := status } e) : RepeatEffect name job e := by
  have halike : job.Alike { job with status := status } := ⟨rfl, rfl, rfl, rfl⟩
  obtain ⟨hleft, hinterval, h⟩ := he
  exact .again hleft hinterval (h.of_alike halike)

lemma successEffect_status {name : QueueName} {status : JobStatus} {e : Effect}
    (he : SuccessEffect I self name { job with status := status } e) :
    SuccessEffect I self name job e := by
  have halike : job.Alike { job with status := status } := ⟨rfl, rfl, rfl, rfl⟩
  cases he with
  | release h => exact .release h
  | finish hne h => exact .finish hne (h.of_alike halike)
  | repeats hleft h => exact .repeats hleft (repeatEffect_status h)
  | cleanup hleft h => exact .cleanup hleft h

/-- The times and the status do not matter for the effects of a failure. -/
lemma failureEffect_ended {name : QueueName} {time : ℤ} {status : JobStatus}
    {startedAt endedAt : Option Time} {e : Effect}
    (he : FailureEffect I { self with currentJobWorkingTime := time } name
      { job with status := status, startedAt := startedAt, endedAt := endedAt } e) :
    FailureEffect I self name job e := by
  have halike : job.Alike { job with status := status, startedAt := startedAt, endedAt := endedAt } :=
    ⟨rfl, rfl, rfl, rfl⟩
  cases he with
  | status status hretries => exact .status status hretries
  | fail hretries hhandler h => exact .fail hretries hhandler (h.of_alike halike)
  | retry hretries h =>
    obtain ⟨hinterval, h⟩ := h
    exact .retry hretries (.again hinterval (h.of_alike halike))
  | release hretries h => exact .release hretries h

lemma within_catching {α : Type} {p : Redis α} {handler : PyError → Redis α} {Q : α → Prop}
    (hp : p.Within I (Via P) Q) (hhandler : ∀ e, (handler e).Within I (Via P) Q) :
    (catching p handler).Within I (Via P) Q := by
  apply Within.tryCatch hp
  intro e
  split
  · trivial
  · exact hhandler e

variable (hI : Stable I P)
include hI

lemma within_setWorker {client : Client} (hclient : client.Emits P) {name : WorkerName}
    {f : WorkerHash → WorkerHash} {Q : Client → Prop} (hQ : ∀ client, client.Emits P → Q client) :
    (client.command (hsetWorker name f)).Within I (Via P) Q :=
  within_command hI hclient (.benign (benign_hsetWorker _ _)) hQ

lemma within_prepareExecution {id : ExecutionId} {Q : Worker → Prop} (hQ : ∀ worker, Q worker) :
    (self.prepareExecution job id now).Within I (Via P) Q := by
  simp only [prepareExecution, setState, within_bind]
  refine within_createExecution hI Client.emits_empty fun execution client hclient => ?_
  refine within_setWorker hI hclient fun client hclient => ?_
  exact within_execute hI hclient.getD fun _ => hQ _

lemma within_cleanupExecution {client : Client} (hclient : client.Emits P)
    {Q : Worker × Client → Prop}
    (hQ : ∀ client, client.Emits P → Q ({ self with execution := none }, client)) :
    (self.cleanupExecution job client).Within I (Via P) Q := by
  simp only [cleanupExecution, setCurrentJobId, within_bind]
  refine within_setWorker hI hclient fun client hclient => ?_
  cases hexecution : self.execution with
  | none =>
    have hself : self = { self with execution := none } := by
      rw [← hexecution]
    simp only
    rw [Prog.pure_eq, within_ret, hself]
    exact hQ client hclient
  | some execution =>
    simp only [within_bind]
    exact within_deleteExecution hI hclient hQ

lemma within_prepareJobExecution {remove : Bool} (hP : ∀ e, RunEffect job e → P e)
    {Q : Worker × Job → Prop} (hQ : ∀ worker job', job.Alike job' → Q (worker, job')) :
    (self.prepareJobExecution job remove now).Within I (Via P) Q := by
  have hwrite : ∀ m, job.Write false m → P (.hset job.id m) := fun m hm => hP _ (.write hm)
  have halike : job.Alike { job with lastHeartbeat := some now } := ⟨rfl, rfl, rfl, rfl⟩
  have hend : ∀ (job' : Job) (client : Client), job.Alike job' → client.Emits P →
      ((client.getD {}).execute : Redis Bool).Within I (Via P) fun _ =>
        Q ({ self with currentJobWorkingTime := 0 }, job') := fun job' client h hclient =>
    within_execute hI hclient.getD fun _ => hQ _ job' h
  cases remove <;> simp only [prepareJobExecution, setCurrentJobId, setCurrentJobWorkingTime,
    heartbeat, Bool.false_eq_true, if_true, if_false, Prog.pure_eq, Prog.ret_bind, within_bind]
  all_goals
    refine within_setWorker hI Client.emits_empty fun client hclient => ?_
    refine within_setWorker hI hclient fun client hclient => ?_
    refine within_setWorker hI hclient fun client hclient => ?_
    refine within_command hI hclient (.benign (benign_expireIn (by trivial) _ _))
      fun client hclient => ?_
    refine Job.within_heartbeat hI hclient hwrite fun client hclient => ?_
    apply Job.within_prepareForExecution hI hclient
    · exact fun m hm => hwrite m (hm.of_alike halike)
    intro job' client h hclient
  · exact hend job' client (halike.trans h) hclient
  · exact within_command hI hclient (.benign (benign_lrem _ _)) fun client hclient =>
      hend job' client (halike.trans h) hclient

lemma within_handleExecutionEnded (hP : ∀ e, RunEffect job e → P e) {Q : Job → Prop}
    (hQ : Q { job with endedAt := some now, lastHeartbeat := some now }) :
    (handleExecutionEnded job now).Within I (Via P) Q := by
  have halike : job.Alike { job with endedAt := some now } := ⟨rfl, rfl, rfl, rfl⟩
  simp only [handleExecutionEnded, within_bind]
  apply Job.within_heartbeat hI Client.emits_none
  · exact fun m hm => hP _ (.write (hm.of_alike halike))
  · exact fun _ _ => hQ

/-! ### Success -/

lemma within_recordResult {client : Client} (hclient : client.Emits P) {resultTtl : ℤ}
    (hP : resultTtl ≠ 0 → ∀ e, FinishEffect job e → P e) {Q : Job × Client → Prop}
    (hQ : ∀ status client, client.Emits P → Q ({ job with status := status }, client)) :
    (self.recordResult job resultTtl client now).Within I (Via P) Q := by
  unfold recordResult
  split
  · next hne => exact Job.within_handleSuccess hI hclient (hP hne) fun client h => hQ _ client h
  · exact hQ job.status client hclient

lemma within_repeatOrCleanup {client : Client} (hclient : client.Emits P) {resultTtl : ℤ}
    (hrepeat : 0 < job.repeatsLeft.getD 0 → ∀ e, RepeatEffect queue.name job e → P e)
    (hcleanup : ¬0 < job.repeatsLeft.getD 0 → ∀ e, CleanupEffect job.id (some resultTtl) e → P e)
    {Q : Job × Client → Prop}
    (hQ : ∀ job' client, job.Alike job' → client.Emits P → Q (job', client)) :
    (self.repeatOrCleanup job queue resultTtl client now).Within I (Via P) Q := by
  unfold repeatOrCleanup
  split
  · next hleft => exact within_repeat hI hclient (hrepeat hleft) hQ
  · next hleft =>
    exact Job.within_cleanup hI hclient (hcleanup hleft) fun status client h =>
      hQ _ client ⟨rfl, rfl, rfl, rfl⟩ h

lemma within_recordSuccess {client : Client} (hclient : client.Emits P)
    (hP : ∀ e, SuccessEffect I self queue.name job e → P e) {Q : Worker × Job × Client → Prop}
    (hQ : ∀ worker job' client, job.Alike job' → client.Emits P → Q (worker, job', client)) :
    (self.recordSuccess job queue client now).Within I (Via P) Q := by
  simp only [recordSuccess, incrementSuccessfulJobCount, incrementTotalWorkingTime, within_bind]
  refine within_setWorker hI hclient fun client hclient => ?_
  refine within_workingTime fun time => within_setWorker hI hclient fun client hclient => ?_
  refine within_recordResult hI hclient (fun hne e he => hP e (.finish hne he))
    fun status client hclient => ?_
  have halike : job.Alike { job with status := status } := ⟨rfl, rfl, rfl, rfl⟩
  apply within_repeatOrCleanup hI hclient
  · exact fun hleft e he => hP e (.repeats hleft (repeatEffect_status he))
  · exact fun hleft e he => hP e (.cleanup hleft he)
  intro job' client h hclient
  exact within_cleanupExecution hI hclient fun client hclient =>
    hQ _ job' client (halike.trans h) hclient

/-- One iteration of the loop, up to `pipeline.execute()`. -/
lemma within_handleJobSuccessAttempt (hP : ∀ e, SuccessEffect I self queue.name job e → P e)
    {Q : Worker × Job × Client → Prop}
    (hQ : ∀ worker job' client, job.Alike job' → client.Emits P → Q (worker, job', client)) :
    (self.handleJobSuccessAttempt job queue now).Within I (Via P) Q := by
  simp only [handleJobSuccessAttempt, beginSuccess, within_bind]
  refine within_watch Client.emits_empty fun pipe hpipe => ?_
  -- the job comes back as it was, but for a status that has been read
  apply Queue.within_enqueueDependents hI hpipe
  · exact fun e he => hP e (.release he)
  rintro _ client ⟨status, rfl⟩ hclient
  have halike : job.Alike { job with status := status } := ⟨rfl, rfl, rfl, rfl⟩
  have hP' : ∀ e, SuccessEffect I self queue.name { job with status := status } e → P e :=
    fun e he => hP e (successEffect_status he)
  have hrecord : ∀ pipe : Pipeline Key Value, Client.Emits P (some pipe) →
      (self.recordSuccess { job with status := status } queue (some pipe) now).Within I (Via P) Q :=
    fun pipe hpipe => within_recordSuccess hI hpipe hP' fun worker job' client h =>
      hQ worker job' client (halike.trans h)
  unfold startTransaction
  split
  · exact hrecord _ hclient.getD
  · exact within_multi hclient.getD hrecord

/-! ### Failure -/

/-- The last transaction about a job that is not run again, and the release of its dependents. -/
lemma within_release {client : Client} (hclient : client.Emits P) {job' : Job}
    (h : job.Alike job') {excludeJobId : Option JobId} {refreshJobStatus : Bool} {fuel : ℕ}
    (hP : ∀ e, ReleaseEffect I job.id e → P e) {Q : Job → Prop}
    (hQ : ∀ job', job.Alike job' → Q job') :
    (catching
      (do
        let _ ← (client.getD {}).execute
        let r ← queue.enqueueDependents job' none excludeJobId refreshJobStatus now fuel
        ret r.1)
      fun _ => ret job').Within I (Via P) Q := by
  apply within_catching
  · simp only [within_bind]
    refine within_execute hI hclient.getD fun _ => ?_
    apply Queue.within_enqueueDependents hI Client.emits_none
    · exact fun e he => hP e (h.id ▸ he)
    · exact fun job'' _ h' _ => hQ job'' (h.trans h'.alike)
  · exact fun _ => hQ job' h

/-- `BaseWorker.handle_job_failure` of a job that is retried -/
lemma within_handleJobFailure_retry {excString : String} {fuel : ℕ}
    (hretries : self.retries job = true) (hP : ∀ e, RetryEffect queue.name job e → P e)
    {Q : Worker × Job → Prop}
    (hQ : ∀ worker job', worker.stoppedJobId = self.stoppedJobId → job.Alike job' →
      Q (worker, job')) :
    (self.handleJobFailure job queue excString now fuel).Within I (Via P) Q := by
  obtain ⟨hshould, hstopped⟩ := (Bool.and_eq_true _ _).mp hretries
  have hstopped : (self.stoppedJobId == some job.id) = false := by
    rw [Bool.not_eq_true'] at hstopped
    exact hstopped
  simp only [handleJobFailure, incrementFailedJobCount, incrementTotalWorkingTime, hshould,
    hstopped, Bool.not_true, Bool.not_false, Bool.and_true, Bool.and_false, Bool.false_eq_true,
    if_true, if_false, within_bind, Prog.pure_eq, Prog.ret_bind]
  refine within_cleanupExecution hI Client.emits_empty fun client hclient => ?_
  refine within_setWorker hI hclient fun client hclient => ?_
  split
  on_goal 1 =>
    rw [within_bind]
    refine within_setWorker hI hclient fun client hclient => ?_
  all_goals
    rw [within_bind]
    refine within_retry hI hclient hP fun job' client h hclient => ?_
    rw [within_bind]
    apply within_catching
    · rw [within_bind]
      exact within_execute hI hclient.getD fun _ => hQ _ job' rfl h
    · exact fun _ => hQ _ job' rfl h

/-- `BaseWorker.handle_job_failure` of a job that is not retried -/
lemma within_handleJobFailure_fail {excString : String} {fuel : ℕ}
    (hretries : self.retries job = false)
    (hstatus : ∀ status, P (.hset job.id { status := some status }))
    (hfail : self.disableDefaultExceptionHandler = false → ∀ e, FailEffect job e → P e)
    (hrelease : ∀ e, ReleaseEffect I job.id e → P e) {Q : Worker × Job → Prop}
    (hQ : ∀ worker job', job.Alike job' → Q (worker, job')) :
    (self.handleJobFailure job queue excString now fuel).Within I (Via P) Q := by
  have halike : ∀ status, job.Alike { job with status := status } := fun _ => ⟨rfl, rfl, rfl, rfl⟩
  have hfail : self.disableDefaultExceptionHandler = false → ∀ status e,
      FailEffect { job with status := status } e → P e :=
    fun hhandler status e he => hfail hhandler e (he.of_alike (halike status))
  have hbegin : ∀ status (Q : Job × Client → Prop),
      (∀ client, client.Emits P → Q ({ job with status := status }, client)) →
      (job.setStatus status (some {})).Within I (Via P) Q := fun status Q hQ =>
    Job.within_setStatus hI Client.emits_empty (hstatus status) hQ
  rw [retries] at hretries
  cases hstopped : (self.stoppedJobId == some job.id)
  on_goal 1 =>
    have hshould : job.shouldRetry = false := by simpa [hstopped] using hretries
    simp only [handleJobFailure, incrementFailedJobCount, incrementTotalWorkingTime, hstopped, hshould,
      Bool.not_false, Bool.and_true, Bool.false_eq_true, if_true, if_false, within_bind, Prog.pure_eq,
      Prog.ret_bind]
    refine hbegin .failed _ fun client hclient => ?_
  on_goal 2 =>
    simp only [handleJobFailure, incrementFailedJobCount, incrementTotalWorkingTime, hstopped,
      Bool.not_true, Bool.not_false, Bool.and_true, Bool.and_false, Bool.false_eq_true, if_true,
      if_false, within_bind, Prog.pure_eq, Prog.ret_bind]
    refine hbegin .stopped _ fun client hclient => ?_
  -- from here on a stopped job and a failed one are treated alike
  all_goals
    refine within_cleanupExecution hI hclient fun client hclient => ?_
    dsimp only
    split
    on_goal 1 =>
      rename_i hhandler
      rw [within_bind]
      apply Job.within_handleFailure hI hclient
      · exact hfail (by simpa using hhandler) _
      intro status client hclient
      rw [within_bind]
      refine within_execute hI hclient.getD fun _ => ?_
      rw [within_bind]
      refine within_setWorker hI Client.emits_empty fun client hclient => ?_
    on_goal 2 =>
      rw [within_bind]
      refine within_setWorker hI hclient fun client hclient => ?_
    all_goals
      split
      on_goal 1 =>
        rw [within_bind]
        refine within_setWorker hI hclient fun client hclient => ?_
      all_goals
        rw [within_bind]
        exact within_release hI hclient (halike _) hrelease fun job' h => hQ _ job' h

/-- `BaseWorker.handle_job_failure` -/
lemma within_handleJobFailure {excString : String} {fuel : ℕ}
    (hP : ∀ e, FailureEffect I self queue.name job e → P e) {Q : Worker × Job → Prop}
    (hQ : ∀ worker job', job.Alike job' → Q (worker, job')) :
    (self.handleJobFailure job queue excString now fuel).Within I (Via P) Q := by
  cases hretries : self.retries job with
  | true =>
    apply within_handleJobFailure_retry hI hretries
    · exact fun e he => hP e (.retry hretries he)
    · exact fun worker job' _ h => hQ worker job' h
  | false =>
    apply within_handleJobFailure_fail hI hretries
    · exact fun status => hP _ (.status status hretries)
    · exact fun hhandler e he => hP e (.fail hretries hhandler he)
    · exact fun e he => hP e (.release hretries he)
    · exact hQ

/-- `BaseWorker.handle_job_retry` -/
lemma within_handleJobRetry {retry : Retry} {execution : Execution} {fuel : ℕ}
    (hP : ∀ e, JobRetryEffect I queue.name job retry e → P e) {Q : Worker × Job → Prop}
    (hQ : ∀ worker job', job.Alike job' → Q (worker, job')) :
    (self.handleJobRetry job queue retry execution now fuel).Within I (Via P) Q := by
  have halike : ∀ status, job.Alike { job with status := status } := fun _ => ⟨rfl, rfl, rfl, rfl⟩
  unfold handleJobRetry
  split
  · trivial
  dsimp only [incrementFailedJobCount, incrementTotalWorkingTime]
  split
  · next hexceeded =>
    have hfail : ∀ e, FailEffect job e → P e := fun e he => hP e (.fail hexceeded he)
    simp only [within_bind, Prog.pure_eq]
    refine Job.within_setStatus hI Client.emits_empty (hfail _ (.write (.status _)))
      fun client hclient => ?_
    refine within_cleanupExecution hI hclient fun client hclient => ?_
    apply Job.within_addToFailed hI hclient
    · exact fun e he => hfail e (he.of_alike (halike _))
    intro status client hclient
    refine Job.within_createResult hI hclient fun client hclient => ?_
    refine within_setWorker hI hclient fun client hclient => within_workingTime fun time => ?_
    refine within_setWorker hI hclient fun client hclient => ?_
    exact within_release hI hclient (halike status) (fun e he => hP e (.release hexceeded he))
      fun job' h => hQ _ job' h
  · next hexceeded =>
    simp only [within_bind, Prog.pure_eq]
    refine within_setWorker hI Client.emits_empty
      fun client hclient => within_workingTime fun time => ?_
    refine within_setWorker hI hclient fun client hclient => ?_
    apply within_handleRetryResult hI hclient
    · exact fun e he => hP e (.again hexceeded he)
    intro job' client h hclient
    refine within_cleanupExecution hI hclient fun client hclient => ?_
    exact within_execute hI hclient.getD fun _ => hQ _ job' h

/-- `Worker.monitor_work_horse` -/
lemma within_monitorWorkHorse {retVal : ℤ} {stoppedCallback killedHandler : Option String}
    {startedAt : Time} {fuel : ℕ}
    (hP : ∀ s, I s → self.handlesDeath job retVal stoppedCallback killedHandler s →
      ∀ e, FailureEffect I self queue.name job e → P e) {Q : Worker × Job → Prop}
    (hQ : ∀ worker job', job.Alike job' → Q (worker, job')) :
    (self.monitorWorkHorse job queue retVal stoppedCallback killedHandler startedAt now fuel).Within
      I (Via P) Q := by
  simp only [monitorWorkHorse, setCurrentJobWorkingTime, within_bind, Prog.pure_eq, within_ret]
  refine within_setWorker hI Client.emits_none fun _ _ => ?_
  split
  · exact hQ _ _ ⟨rfl, rfl, rfl, rfl⟩
  · next hne =>
    have hattempt : ∀ {R : Except PyError (JobStatus × Job) → Prop},
        (∀ s status, I s → status ∈ (s.val (.job job.id)).status →
          R (.ok (status, { job with startedAt := some startedAt, status := status }))) →
        (∀ e, R (.error e)) →
        (attempting (Job.getStatus { job with startedAt := some startedAt } true)).Within I (Via P) R :=
      fun hok herror => by
        apply within_catching
        · rw [within_bind]
          exact Job.within_getStatus_stored hok
        · exact herror
    rw [within_bind]
    refine hattempt (fun s status hs hstatus => ?_) fun e => ?_
    · have halike : job.Alike { job with startedAt := some startedAt, status := status } :=
        ⟨rfl, rfl, rfl, rfl⟩
      have halike' : job.Alike
          { job with startedAt := some startedAt, status := status, endedAt := some now } :=
        ⟨rfl, rfl, rfl, rfl⟩
      have hP : (if self.stoppedJobId = some job.id then stoppedCallback = none
          else status ≠ .finished ∧ status ≠ .failed ∧ killedHandler = none) →
          ∀ e, FailureEffect I self queue.name job e → P e :=
        fun h => hP s hs ⟨hne, status, hstatus, h⟩
      dsimp only
      split
      · next hstopped =>
        rw [if_pos hstopped] at hP
        split
        · trivial
        · apply within_handleJobFailure hI
          · exact fun e he => hP rfl e (failureEffect_ended he)
          · exact fun worker job' h => hQ worker job' (halike.trans h)
      · next hstopped =>
        rw [if_neg hstopped] at hP
        split
        · next hopen =>
          split
          · trivial
          · apply within_handleJobFailure hI
            · exact fun e he => hP ⟨hopen.1, hopen.2, rfl⟩ e (failureEffect_ended he)
            · exact fun worker job' h => hQ worker job' (halike'.trans h)
        · exact hQ _ _ halike
    · split
      · exact hQ _ _ ⟨rfl, rfl, rfl, rfl⟩
      · trivial
      · next heq => cases heq

end Worker
end RedisQueue
