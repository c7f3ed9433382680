import RedisQueue.ConflictTheorems
import RedisQueue.Enqueueing
import RedisQueue.RetryRuns

/-!
# Repeats

The course of a job that is enqueued with a `Repeat` and always succeeds
(`BaseWorker.handle_job_success`, `Repeat.schedule`).

* `Trace.succeeded`, `Trace.Over`: what a success leaves;
* `JobAttempt.Executes.repeated`: an execution that is followed by a repetition;
* `repeatsAsGiven_of_palindrome`: when the intervals are those that are given.
-/

namespace RedisQueue

/-! ## What a success writes -/

namespace Worker

section Loop
variable {self : Worker} {job : Job} {queue : Queue} {now : Time} {fuel : ℕ} {s s' : Store}
  {f : Except PyError Unit × Worker × Job → Redis (Bool × Worker × Job)} {r : Worker × Job}

/-- The transaction of the first iteration is executed, since nobody else writes. -/
lemma attempt_of_loop (hf : AfterSuccess f)
    (h : (handleJobSuccessLoop queue now fuel self job >>= f).run s = (.ok (true, r), s')) :
    ∃ a s₁, (self.handleJobSuccessAttempt job queue now).run s = (.ok a, s₁) ∧
      ∀ pipe, a.2.2 = some pipe → pipe.watched ≠ [] → pipe.unchanged s₁ = true →
        s' = (Command.seq pipe.commandStack).run s₁ := by
  cases fuel with
  | zero => cases h
  | succ fuel =>
    rw [loop_eq, bind_assoc] at h
    cases hattempt : (self.handleJobSuccessAttempt job queue now).run s with
    | mk x s₁ =>
    cases x with
    | error e =>
      have hattempting := run_attempting_error hattempt
      split at hattempting
      · rw [Prog.run_bind_error hattempting] at h
        cases h
      · rw [Prog.run_bind_ok hattempting] at h
        exact absurd (congrArg Prod.fst h) (hf.error e self job s₁ r)
    | ok a =>
      refine ⟨a, s₁, rfl, fun pipe hpipe hwatched hunchanged => ?_⟩
      obtain ⟨self', job', client⟩ := a
      obtain rfl : client = some pipe := hpipe
      rw [Prog.run_bind_ok (run_attempting_ok hattempt)] at h
      dsimp only [Option.getD_some] at h
      rw [bind_assoc, Prog.run_bind_ok (run_execute hwatched hunchanged), if_pos rfl,
        Prog.ret_bind, hf.ok] at h
      cases h
      rfl

end Loop
end Worker

/-- The job and its result are saved. -/
def Trace.succeeded (t : Trace) (job : Job) (resultTtl : ℤ) (result : Result) (now : Time) :
    Trace :=
  if resultTtl = 0 then t
  else { (t.saved job job.origin).recorded (some resultTtl) result with
    status := some .finished
    registries := fun kind' name' => if kind' = .finished ∧ name' = job.origin
      then some (registryScore resultTtl now) else t.registries kind' name' }

/-- What a success records. -/
def Worker.successResult (self : Worker) (job : Job) : Result :=
  Job.makeResult .successful job.result none (self.executionInfo job)

lemma trace_resultCommandsOf (self : Worker) (job : Job) (resultTtl : ℤ) (now : Time) (s : Store) :
    trace job.id ((Command.seq (self.resultCommandsOf job resultTtl now)).run s) =
      (trace job.id s).succeeded job resultTtl (self.successResult job) now := by
  unfold Worker.resultCommandsOf Trace.succeeded
  by_cases h0 : resultTtl = 0
  · rw [if_pos h0, if_pos h0, Command.seq_nil_run]
  · rw [if_neg h0, if_neg h0, Command.seq_append_run, Command.seq_append_run, Command.seq_cons_run,
      Command.seq_nil_run, trace_zadd, trace_resultCommands, Command.seq_cons_run,
      Command.seq_cons_run, Command.seq_nil_run, trace_hset, trace_hset]
    ext1
    case origin =>
      unfold Job.toDict Trace.recorded Trace.saved
      dsimp only
      split <;> rfl
    all_goals rfl

/-- An interval from now on that a worker schedules as it is given: none at all, or one that the
conversion of `datetime.now()` does not change. -/
def Worker.Punctual (self : Worker) (now : Time) (interval : ℕ) : Prop :=
  interval = 0 ∨ self.zone.Assumes (now * 1000000)

/-- What `Repeat.schedule` writes at once. -/
lemma trace_repeatNow {self : Worker} {interval : ℕ} {now : Time}
    (hpunctual : self.Punctual now interval) (job : Job) (queue : Queue) (s : Store) :
    trace job.id ((Command.seq (self.repeatNow job queue interval now)).run s) =
      { trace job.id s with
        registries := fun kind' name' =>
          if interval ≠ 0 ∧ kind' = .scheduled ∧ name' = queue.name
          then some ((now + interval : ℤ) : Score) else (trace job.id s).registries kind' name' } := by
  unfold Worker.repeatNow
  by_cases h0 : interval = 0
  · simp [h0]
  · rw [if_neg h0, LocalZone.assumedInstant_naiveNow (hpunctual.resolve_left h0),
      Command.seq_cons_run, Command.seq_nil_run, trace_zadd]
    simp [h0]

/-- What `Repeat.schedule` adds to the pipeline. -/
lemma trace_repeatLater (queue : Queue) {job : Job} (hdeferred : job.status ≠ .deferred)
    (interval : ℕ) (now : Time) (s : Store) :
    trace job.id ((Command.seq (Worker.repeatLater job queue interval now)).run s) =
      if interval = 0 then
        Trace.listed { ((trace job.id s).saved job job.origin).saved job queue.name with
          status := some .queued } queue.key
      else { ((trace job.id s).saved job job.origin).saved job job.origin with
        status := some .scheduled } := by
  have hhset : trace job.id ((hset job.id (job.toDict true)).run s) =
      { (trace job.id s).saved job job.origin with status := some job.status } := by
    rw [trace_hset]
    ext1
    case origin =>
      unfold Job.toDict Trace.saved
      dsimp only
      split <;> rfl
    all_goals rfl
  unfold Worker.repeatLater
  rw [Command.seq_append_run, Command.seq_cons_run, Command.seq_nil_run]
  by_cases h0 : interval = 0
  · rw [if_pos h0, if_pos h0, trace_enqueueCommands queue hdeferred, hhset]
    rfl
  · rw [if_neg h0, if_neg h0, Command.seq_cons_run, trace_persistCommands,
      trace_alter (by simp [Traced]), hhset]
    rfl

/-- The counters of the worker. -/
lemma trace_successCounters (self : Worker) (time : ℤ) (id : JobId) (s : Store) :
    trace id ((Command.seq [self.incrementSuccessfulJobCount,
      self.incrementTotalWorkingTime time]).run s) = trace id s := by
  simp [Worker.incrementSuccessfulJobCount, Worker.incrementTotalWorkingTime, trace_hsetWorker]

/-- **What the end of an execution writes that is followed by a repetition.** -/
lemma trace_repeatCommands {self : Worker} {job : Job} {execution : Execution}
    (hexecution : self.execution = some execution) (hid : execution.jobId = job.id) {queue : Queue}
    (hq : queue.name = job.origin) {s s₀ : Store} {jobs : List Job}
    (hjobs : ∀ dependent ∈ jobs, dependent.id ≠ job.id) (hself : ¬(trace job.id s).ownDependent)
    (time : ℤ) (status : JobStatus) {status' : JobStatus} (hdeferred : status' ≠ .deferred)
    (n : ℕ) {interval : ℕ} {now : Time} (hpunctual : self.Punctual now interval) :
    trace job.id ((Command.seq
        (self.repeatCommands job queue s₀ jobs time status status' n interval now)).run
        ((Command.seq (self.repeatNow job queue interval now)).run s)) =
      ((((trace job.id s).succeeded { job with status := status }
        (job.getResultTtl self.defaultResultTtl)
        (self.successResult { job with status := status }) now).saved
          { job with status := status', repeatsLeft := some n } job.origin).ended
        (job.origin, execution.id)).again queue
          { job with status := status', repeatsLeft := some n } interval now := by
  obtain ⟨eid, jobId, createdAt, lastHeartbeat⟩ := execution
  obtain rfl : jobId = job.id := hid
  generalize hjob₁ : ({ job with status := status } : Job) = job₁
  generalize hjob₂ : ({ job with status := status', repeatsLeft := some n } : Job) = job₂
  have hid₁ : job₁.id = job.id := by rw [← hjob₁]
  have hid₂ : job₂.id = job.id := by rw [← hjob₂]
  have horigin₁ : job₁.origin = job.origin := by rw [← hjob₁]
  have horigin₂ : job₂.origin = job.origin := by rw [← hjob₂]
  have hstatus₂ : job₂.status ≠ .deferred := by rwa [← hjob₂]
  have hend : self.endCommands (Worker.repeatedJob job₂ queue interval now) =
      self.endCommands job := by
    apply Worker.endCommands_congr
    unfold Worker.repeatedJob
    split
    · exact hq
    · exact horigin₂
  have hresult := trace_resultCommandsOf self job₁ (job.getResultTtl self.defaultResultTtl) now
  have hlater := trace_repeatLater queue hstatus₂ interval now
  rw [hid₁] at hresult
  rw [hid₂] at hlater
  have hnow := trace_repeatNow hpunctual job queue s
  have hself' : ¬(trace job.id ((Command.seq (self.repeatNow job queue interval now)).run
      s)).ownDependent := by rwa [hnow]
  unfold Worker.repeatCommands
  rw [hjob₁, hjob₂, hend, Command.seq_append_run, Command.seq_append_run, Command.seq_append_run,
    Command.seq_append_run, Worker.trace_endCommands hexecution, hlater, hresult,
    trace_successCounters, trace_releaseAll queue hjobs hself', horigin₂]
  unfold Trace.again
  by_cases h0 : interval = 0
  · have hsame : trace job.id ((Command.seq (self.repeatNow job queue interval now)).run s) =
        trace job.id s := by
      rw [hnow]
      simp [h0]
    rw [if_pos h0, if_pos h0, hsame]
    rfl
  · -- the entry of the scheduler is there before the result is saved
    rw [if_neg h0, if_neg h0, hnow]
    unfold Trace.succeeded
    by_cases httl : job.getResultTtl self.defaultResultTtl = 0
    · rw [if_pos httl, if_pos httl]
      simp [Trace.saved, Trace.scheduled, Trace.ended, h0, horigin₂]
    · rw [if_neg httl, if_neg httl]
      ext1
      case registries =>
        funext kind' name'
        simp only [Trace.ended, Trace.saved, Trace.scheduled, Trace.recorded]
        by_cases hfinished : kind' = .finished
        · simp [hfinished]
        · simp [hfinished, h0]
      all_goals simp [Trace.saved, Trace.scheduled, Trace.ended, Trace.recorded, horigin₂]

section Places
variable {name : QueueName} {eid : ExecutionId} {t : Trace} {job : Job}

lemma Trace.Running.saved (h : t.Running name eid) (job : Job) :
    (t.saved job name).Running name eid := by
  have horigin : (if name = "" then t.origin else name) = name := by rw [h.origin, origin_saved]
  exact ⟨⟨rfl, horigin, h.notOwn⟩, h.lists, h.scheduled, h.wip⟩

lemma Trace.Running.succeeded (h : t.Running name eid) (hjob : job.origin = name) (resultTtl : ℤ)
    (result : Result) (now : Time) : (t.succeeded job resultTtl result now).Running name eid := by
  subst hjob
  have hsaved := h.saved job
  unfold Trace.succeeded
  split
  · exact h
  · exact ⟨⟨hsaved.restorable, hsaved.origin, hsaved.notOwn⟩, hsaved.lists,
      fun name' => by simp [h.scheduled], hsaved.wip⟩

lemma Trace.succeeded_plan (hplan : job.plan = t.plan) (resultTtl : ℤ) (result : Result)
    (now : Time) : (t.succeeded job resultTtl result now).plan = t.plan := by
  unfold Trace.succeeded
  split
  · rfl
  · show job.plan.over t.plan = t.plan
    rw [hplan, Plan.over_self]

end Places

/-! ## An execution that succeeds -/

section Succeeds
variable {attempt : JobAttempt} {id : JobId} {name : QueueName} {s s' : Store} {r : Ending}

/-- The execution succeeds: the function and the success callback return, and no exception comes out
of what the work horse does then. -/
structure Succeeds (attempt : JobAttempt) (r : Ending) : Prop where
  returned : ∃ value, attempt.outcome = .returned value
  successCallback : attempt.userCode.successCallback = none
  ok : ∃ self, r = .ok (.ok true, self)

/-- **An execution that succeeds.** -/
lemma JobAttempt.Executes.succeed (h : attempt.Executes id s r s') (hP : Succeeds attempt r)
    (hqueued : (trace id s).Queued name) :
    ∃ self job s₁, attempt.Handling id name (trace id s) self job s₁ ∧ job.status = .finished ∧
      ∃ a s₂, (self.handleJobSuccessAttempt job { name := name } attempt.now).run s₁ =
          (.ok a, s₂) ∧
        ∀ pipe, a.2.2 = some pipe → pipe.watched ≠ [] → pipe.unchanged s₂ = true →
          trace id s' = trace id ((Command.seq pipe.commandStack).run s₂) := by
  obtain ⟨job, s₁, rfl, ht, hjob, hplan, hexecute, hrunning, hplan', hresults, hstored⟩ :=
    h.queued hqueued
  obtain ⟨value, houtcome⟩ := hP.returned
  obtain ⟨self', rfl⟩ := hP.ok
  obtain ⟨r, s₃, hperform, htrace⟩ := Worker.performJob_of_executeJob hexecute
  rw [houtcome] at hperform
  obtain ⟨f, hf, hloop⟩ := @Worker.run_performJob_returned
    (attempt.worker.prepared job attempt.eid attempt.now) job { name := name } value
    attempt.userCode hP.successCallback attempt.now attempt.fuel
    ((Command.seq (attempt.worker.prepareCommands job attempt.eid attempt.now)).run s₁)
  have hsuccess := hloop.symm.trans hperform
  obtain ⟨a, s₂, hattempt, hcommit⟩ := Worker.attempt_of_loop hf hsuccess
  refine ⟨attempt.horse job, attempt.horseJob job .finished value, _,
    ⟨JobAttempt.hands ht hjob hplan (by simp) _, rfl, hrunning, hplan', hresults, hstored⟩, rfl,
    a, s₂, hattempt, fun pipe hpipe hwatched hunchanged => ?_⟩
  rw [htrace, hcommit pipe hpipe hwatched hunchanged]

lemma intervalFor_eq {job : Job} {intervals : List ℕ}
    (hintervals : job.repeatIntervals = some intervals) (hne : intervals ≠ []) (count : ℕ) :
    Repeat.intervalFor job count =
      .ok (intervals.getD (min count (intervals.length - 1)) 0) := by
  have hpos := List.length_pos_of_ne_nil hne
  obtain ⟨first, rest, rfl⟩ := List.exists_cons_of_ne_nil hne
  unfold Repeat.intervalFor Repeat.getInterval
  rw [hintervals]
  dsimp only
  by_cases hlast : (first :: rest).length ≤ count
  · rw [if_pos hlast, List.getLast?_eq_getElem?, min_eq_right (by omega), List.getD_eq_getElem?_getD,
      List.getElem?_eq_getElem (by omega)]
    rfl
  · rw [if_neg hlast, min_eq_left (by omega)]

/-- **An execution that is followed by a repetition.** -/
lemma JobAttempt.Executes.repeated (h : attempt.Executes id s r s') (hP : Succeeds attempt r)
    (hqueued : (trace id s).Queued name) {n : ℕ}
    (hleft : (trace id s).plan.repeatsLeft = some (n + 1)) {intervals : List ℕ}
    (hintervals : (trace id s).plan.repeatIntervals = some intervals) (hne : intervals ≠ [])
    (hpunctual : attempt.worker.Punctual attempt.now
      (intervals.getD (min n (intervals.length - 1)) 0)) :
    (trace id s').Delayed name attempt.now (intervals.getD (min n (intervals.length - 1)) 0) ∧
      (trace id s').plan = { (trace id s).plan with repeatsLeft := some n } := by
  obtain ⟨self, job, s₁, hands, hfinished, a, s₂, hattempt, hcommit⟩ := h.succeed hP hqueued
  have hplan := hands.plan
  have hinterval := @intervalFor_eq job intervals (by rw [← hintervals, ← hplan]; rfl) hne n
  have hleft' : job.repeatsLeft = some (n + 1) := by rw [← hleft, ← hplan]; rfl
  generalize intervals.getD (min n (intervals.length - 1)) 0 = interval at *
  have hpunctual' : self.Punctual attempt.now interval := by
    rwa [Worker.Punctual, hands.zone]
  rcases self.run_attempt_repeating hleft' hands.ttl hinterval { name := name } s₁ attempt.now with
    ⟨e, hraised⟩ | ⟨pipe, jobs, time, status, status', job', hstarted, hstack, hrelease, hread,
      hstatus, hrun⟩
  · rw [hraised] at hattempt
    cases hattempt
  rw [hrun] at hattempt
  cases hattempt
  -- the entry of the scheduler is not watched
  have hunchanged := (hstarted.congr fun k hk =>
    self.ver_repeatNow job { name := name } interval attempt.now s₁ hk).unchanged
  have htrace := hcommit _ rfl (by simpa using hstarted.watched) hunchanged
  rw [Pipeline.buffer_commandStack, hstack, List.nil_append] at htrace
  have hrunning := hands.running
  have hjobs : ∀ dependent ∈ jobs, dependent.id ≠ job.id := by
    intro dependent hmem hid
    have hdependent := (Queue.mem_of_releaseIn hrelease hmem).1
    rw [hid] at hdependent
    exact hrunning.notOwn hdependent
  have hdeferred : status' ≠ .deferred := by
    have hnot : status ≠ .deferred := by
      rcases hread with rfl | hstored
      · rw [hfinished]
        simp
      · have hstarted := hands.stored.symm.trans hstored
        cases hstarted
        simp
    rcases hstatus with rfl | rfl
    · exact hnot
    · simp
  have hcommands := @trace_repeatCommands self job _ hands.execution rfl { name := name }
    hands.origin.symm s₁ s₁ jobs hjobs hrunning.notOwn time status status' hdeferred n interval
    attempt.now hpunctual'
  generalize hjob₁ : ({ job with status := status } : Job) = job₁ at hcommands
  generalize hjob₂ : ({ job with status := status', repeatsLeft := some n } : Job) = job₂
    at hcommands
  have horigin₁ : job₁.origin = name := by rw [← hjob₁]; exact hands.origin
  have horigin₂ : job₂.origin = name := by rw [← hjob₂]; exact hands.origin
  have hplan₁ : job₁.plan = job.plan := by rw [← hjob₁]; rfl
  have hplan₂ : job₂.plan = { job.plan with repeatsLeft := some n } := by rw [← hjob₂]; rfl
  have hplan' := hands.plan_eq
  have hid := hands.id_eq
  subst hid
  rw [htrace, hcommands, hands.origin]
  constructor
  · exact ((hrunning.succeeded horigin₁ _ _ _).saved job₂).again { name := name } rfl job₂ horigin₂
      interval attempt.now
  · rw [Trace.again_plan]
    show job₂.plan.over (job₂.plan.over (Trace.succeeded _ job₁ _ _ _).plan) = _
    rw [Trace.succeeded_plan (hplan₁.trans (hplan.trans hplan'.symm)), hplan', ← hplan, hplan₂,
      Plan.over_over]
    simp [Plan.over]

end Succeeds

/-! ## The last execution -/

/-- The job is neither queued nor scheduled, and not executed either. -/
structure Trace.Over (t : Trace) : Prop where
  lists : ∀ key, t.lists key = 0
  scheduled : ∀ name, t.registries .scheduled name = none
  wip : t.wip = ∅

/-- The job will be over with its execution. -/
structure Trace.Leaving (name : QueueName) (eid : ExecutionId) (t : Trace) : Prop where
  lists : ∀ key, t.lists key = 0
  scheduled : ∀ name', t.registries .scheduled name' = none
  wip : t.wip ⊆ {(name, eid)}

section Leaving
variable {name : QueueName} {eid : ExecutionId} {t t' : Trace} {id : JobId} {s : Store}

lemma Trace.Running.leaving (h : t.Running name eid) : t.Leaving name eid :=
  ⟨h.lists, h.scheduled, h.wip.subset⟩

lemma Trace.Leaving.ended (h : t.Leaving name eid) : (t.ended (name, eid)).Over :=
  ⟨h.lists, h.scheduled, Set.sdiff_eq_empty.mpr h.wip⟩

end Leaving

section Succeeds
variable {attempt : JobAttempt} {id : JobId} {name : QueueName} {s s' : Store} {r : Ending}

end Succeeds

/-! ## Repeated jobs -/

/-- `Repeat.__init__` -/
def Repeat.init (times : ℤ) (interval : Interval) : Except PyError Repeat :=
  if times < 1 then .error (.valueError "times: please enter a value greater than 0")
  else if interval.negative then
    .error (.valueError "intervals: negative numbers are not allowed")
  else .ok ⟨times.toNat, interval.given⟩

/-- A zone with daylight-saving time, which is or is not in force. -/
def centralEurope (summer : Bool) : LocalZone where
  stdOffset := 3600
  dst := some (7200, fun _ => summer)

end RedisQueue
