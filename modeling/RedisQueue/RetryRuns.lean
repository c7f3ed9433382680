import RedisQueue.JobCourses

/-!
# Retries

The courses of jobs that are retried (`Job._handle_retry_result`, `Job.retry`,
`BaseWorker.handle_job_retry`, `BaseWorker.handle_job_failure`).

* `Run.returned_retry`: a function that always returns the same `Retry`;
* `Run.raised`: a job that is enqueued with a `Retry` and always raises.
-/

namespace RedisQueue

/-! ## What the executions have in common -/

/-- A result of the type has been saved for the execution. -/
def Recorded (type : ResultType) (attempt : JobAttempt) (t t' : Trace) : Prop :=
  ∃ result, result.type = type ∧ result.executionId = some attempt.eid ∧
    t'.results = keptResults t.plan.failureTtl (t.results ++ [result])

section Again
variable {t : Trace} {queue : Queue} {job : Job} {interval : ℕ} {now : Time}

lemma Trace.again_plan : (t.again queue job interval now).plan = job.plan.over t.plan := by
  unfold Trace.again
  split <;> rfl

lemma Trace.again_results : (t.again queue job interval now).results = t.results := by
  unfold Trace.again
  split <;> rfl

end Again

/-! ## Functions that return a `Retry` -/

section Returned
variable {attempt : JobAttempt} {id : JobId} {name : QueueName} {s s' : Store} {r : Ending}
  {retry : Retry}

/-- The execution returns the `Retry`. -/
def Returns (retry : Retry) (attempt : JobAttempt) (_ : Ending) : Prop :=
  attempt.outcome = .retry retry ∧ 0 < attempt.fuel

/-- The plan after one more retry. -/
def Plan.retried (p : Plan) : Plan :=
  { p with numberOfRetries := some (p.numberOfRetries.getD 0 + 1) }

lemma Plan.retried_over (p : Plan) : p.retried.over p = p.retried := by
  simp [Plan.retried, Plan.over]

/-- **An execution after which the job is retried.** -/
lemma JobAttempt.Executes.retried (h : attempt.Executes id s r s') (hP : Returns retry attempt r)
    (hqueued : (trace id s).Queued name) {k : ℕ}
    (hk : (trace id s).plan.numberOfRetries.getD 0 = k) (hlt : k = 0 ∨ k < retry.max) :
    (∃ self, r = .ok (.ok true, self)) ∧
      (trace id s').Delayed name attempt.now (Retry.getInterval k retry.intervals) ∧
      (trace id s').plan = (trace id s).plan.retried ∧
      Recorded .retried attempt (trace id s) (trace id s') := by
  obtain ⟨self, job, s₁, hands, hend⟩ := h.retry hP.1 hqueued
  have hnumber : job.numberOfRetries.getD 0 = k := by
    rw [← hk, ← hands.plan]
    rfl
  have hleft : ¬(job.numberOfRetries.getD 0 ≠ 0 ∧ retry.max ≤ job.numberOfRetries.getD 0) := by
    rw [hnumber]
    omega
  obtain ⟨ended, s₂, hrun, htrace⟩ := self.trace_handleJobRetry_again hands.startedAt
    hands.endedAt hands.ttl hands.status { name := name } hands.origin.symm hleft
    hands.execution rfl attempt.now attempt.fuel s₁
  rw [hands.id_eq] at hrun htrace
  obtain ⟨hok, hsame⟩ := hend ended s₂ hrun
  have hrunning := hands.running
  have hplan := hands.plan_eq
  have hresults := hands.results_eq
  rw [hands.id_eq] at hrunning hplan hresults
  rw [hsame, htrace, hands.origin]
  refine ⟨hok, ?_, ?_, ?_⟩
  · have hagain := (hrunning.recorded job.failureTtl (Job.makeResult .retried (some "Retry") none
      (self.retryInfo ⟨attempt.eid, id, attempt.now, attempt.now⟩ job))).again { name := name } rfl
      job.retried hands.origin
    rw [← hnumber]
    exact hagain _ _
  · rw [Trace.again_plan]
    show job.plan.retried.over (trace id s₁).plan = _
    rw [hplan, hands.plan, Plan.retried_over]
  · refine ⟨Job.makeResult .retried (some "Retry") none
      (self.retryInfo ⟨attempt.eid, id, attempt.now, attempt.now⟩ job), rfl, rfl, ?_⟩
    rw [Trace.again_results, ← hresults, ← hands.plan]
    rfl

end Returned

/-- A job that has been enqueued in an empty database. -/
def enqueuedStore (job : Job) : Store :=
  (Queue.enqueueJob { name := "q" } job none false false 0 1 |>.run Store.empty).2

/-- What the worker finds in its queue. -/
def JobAttempt.dequeued (self : JobAttempt) (s : Store) : Option (Job × String) :=
  match ((Queue.dequeueAny self.version (self.names.map queueKey) self.timeout
    self.dequeueFuel).run s).1 with
  | .ok found => found
  | .error _ => none

/-- What is given as the interval of a `Retry`: an `int`, an iterable such as a list, or an iterator,
which only the first loop finds items in. -/
inductive Interval where
  | int (seconds : ℤ)
  | iterable (items : List ℤ)
  | iterator (items : List ℤ)
deriving DecidableEq, Repr

/-- The intervals that are given. -/
def Interval.given : Interval → List ℕ
  | .int seconds => [seconds.toNat]
  | .iterable items => items.map Int.toNat
  | .iterator items => items.map Int.toNat

/-- What `list(interval)` is after the loop of `Retry.__init__`. -/
def Interval.listed : Interval → List ℕ
  | .int seconds => [seconds.toNat]
  | .iterable items => items.map Int.toNat
  | .iterator _ => []

/-- The check of `Retry.__init__` finds a negative number. -/
def Interval.negative : Interval → Bool
  | .int seconds => seconds < 0
  | .iterable items => items.any (· < 0)
  | .iterator items => items.any (· < 0)

/-- `Retry.__init__` -/
def Retry.init (max : ℤ) (interval : Interval) (enqueueAtFront : Bool) : Except PyError Retry :=
  if max < 1 then .error (.valueError "max: please enter a value greater than 0")
  else if interval.negative then
    .error (.valueError "interval: negative numbers are not allowed")
  else .ok ⟨max.toNat, interval.listed, enqueueAtFront⟩

/-- There is an interval, also for those who look for it again. -/
def Interval.Lasting : Interval → Prop
  | .int _ => True
  | .iterable items => items ≠ []
  | .iterator _ => False

lemma Interval.Lasting.listed {interval : Interval} (h : interval.Lasting) :
    interval.listed = interval.given ∧ interval.listed ≠ [] := by
  cases interval with
  | int seconds => exact ⟨rfl, by simp [Interval.listed]⟩
  | iterable items => exact ⟨rfl, fun heq => h (List.map_eq_nil_iff.mp heq)⟩
  | iterator items => exact h.elim

section Raised
variable {attempt : JobAttempt} {id : JobId} {name : QueueName} {s s' : Store} {r : Ending}

/-- The execution raises an exception, on a worker with the default exception handler that has not
been told to stop the job. -/
structure Raises (id : JobId) (attempt : JobAttempt) (_ : Ending) : Prop where
  raised : ∃ excString, attempt.outcome = .raised excString
  exceptionHandler : attempt.userCode.exceptionHandler = none
  defaultHandler : attempt.worker.disableDefaultExceptionHandler = false
  notStopped : attempt.worker.stoppedJobId ≠ some id
  fuel : 0 < attempt.fuel

end Raised

end RedisQueue
