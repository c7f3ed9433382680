import RedisQueue.FailureTheorems
import RedisQueue.ReleaseTheorems

/-!
# The success of a job, alone

What one iteration of `handle_job_success` reads and writes when no other process runs meanwhile.

* `Worker.run_beginSuccess`: the release of dependents, up to `multi()`;
* `Worker.run_attempt`: the iteration for a job that is not repeated (`Worker.successIn`);
* `Worker.run_attempt_repeated`: the iteration for a job that is repeated.
-/

namespace RedisQueue

open Prog

variable {s s' : Store} {now : Time} {pipe : Pipeline Key Value}

/-! ## What does not depend on the status of the parent -/

namespace Queue

/-- A pipeline in a transaction that watches what the release of dependents has read. -/
structure Started (s : Store) (pipe : Pipeline Key Value) : Prop where
  watched : pipe.watched ≠ []
  keys : ∀ kv ∈ pipe.watched, Watchable kv.1
  explicitTransaction : pipe.explicitTransaction = true
  unchanged : pipe.unchanged s = true

lemma Started.immediate (h : Started s pipe) : pipe.immediate = false := by
  simp [Pipeline.immediate, h.explicitTransaction]

lemma Started.buffer (h : Started s pipe) (cs : List (Command Key Value)) :
    Started s (pipe.buffer cs) := ⟨h.watched, h.keys, h.explicitTransaction, h.unchanged⟩

/-- Other keys may have changed. -/
lemma Started.congr (h : Started s pipe) (hver : ∀ k, Watchable k → s'.ver k = s.ver k) :
    Started s' pipe := by
  refine ⟨h.watched, h.keys, h.explicitTransaction, ?_⟩
  have hold := h.unchanged
  simp only [Pipeline.unchanged, List.all_eq_true] at hold ⊢
  intro kv hkv
  rw [hver _ (h.keys kv hkv)]
  exact hold kv hkv

lemma releaseIn_parent {job : Job} {excludeJobId : Option JobId} {refreshJobStatus : Bool}
    {r : List Job × Job} (h : releaseIn s job excludeJobId refreshJobStatus = .ok r) :
    ∃ status, r.2 = { job with status := status } ∧ Job.StatusRead s job status := by
  unfold releaseIn at h
  split at h
  · cases h
    exact ⟨job.status, rfl, .inl rfl⟩
  · split at h
    · cases h
    · exact releasable_parent h

end Queue

namespace Worker

lemma run_beginSuccess (job : Job) (queue : Queue) (now : Time) (s : Store) :
    ∃ pipe, Queue.Started s pipe ∧ pipe.commandStack = [] ∧
      (beginSuccess job queue now).run s = ((Queue.releaseIn s job none true).map fun r =>
        (r.2, pipe.buffer (queue.releaseAll s job.id r.1 now)), s) := by
  obtain ⟨pipe, hstart, hwatch⟩ := Watching.start s (k := .dependents job.id) trivial
  obtain ⟨pipe', hwatched, hkeys, hunchanged, hrun, hstack⟩ :=
    queue.run_enqueueDependentsAttempt hwatch job none true now
  refine ⟨{ pipe' with explicitTransaction := true, commandStack := [] },
    ⟨hwatched, hkeys, rfl, hunchanged⟩, rfl, ?_⟩
  unfold beginSuccess
  simp only [Queue.enqueueDependents, bind_assoc]
  rw [Prog.run_bind_ok hstart]
  cases hin : Queue.releaseIn s job none true with
  | error e =>
    rw [Prog.run_bind_error (by rw [hrun, hin]; rfl)]
    rfl
  | ok r =>
    obtain ⟨hcs, hexplicit⟩ := hstack r hin
    rw [Prog.run_bind_ok (by rw [hrun, hin]; rfl)]
    have htransaction : startTransaction pipe' =
        .ret (({ pipe' with explicitTransaction := true, commandStack := [] } :
          Pipeline Key Value).buffer (queue.releaseAll s job.id r.1 now)) := by
      obtain ⟨watched, explicit, stack⟩ := pipe'
      simp only at hcs hexplicit
      unfold startTransaction
      rcases hexplicit with rfl | hnil
      · simp [Pipeline.buffer, hcs]
      · obtain rfl : stack = [] := by simpa [Queue.releaseAll, hnil] using hcs
        cases explicit <;> simp [Pipeline.buffer, Pipeline.multi, Queue.releaseAll, hnil]
    simp [Except.map, htransaction]

/-! ## The end of the transaction -/

/-- What `cleanup_execution` adds to a pipeline. -/
def endCommands (self : Worker) (job : Job) : List (Command Key Value) :=
  self.setCurrentJobId none ::
    match self.execution with
    | none => []
    | some execution => execution.deleteCommands job

lemma cleanupExecution_buffer (h : pipe.immediate = false) (self : Worker) (job : Job) :
    self.cleanupExecution job (some pipe) =
      .ret ({ self with execution := none }, some (pipe.buffer (self.endCommands job))) := by
  obtain ⟨name, queues, execution⟩ := self
  unfold cleanupExecution endCommands
  cases execution with
  | none => simp [Client.command_buffer h]
  | some execution => simp [Client.command_buffer h, Execution.delete_buffer, h]

/-- What `_handle_success` adds to a pipeline. -/
def resultCommandsOf (self : Worker) (job : Job) (resultTtl : ℤ) (now : Time) :
    List (Command Key Value) :=
  if resultTtl = 0 then [] else
    [hset job.id { status := some .finished },
      hset job.id (({ job with status := .finished } : Job).toDict false)] ++
    Job.resultCommands job.id
      (Job.makeResult .successful job.result none (self.executionInfo job)) (some resultTtl) now ++
    [zadd .finished job.origin job.id (registryScore resultTtl now)]

lemma recordResult_buffer (h : pipe.immediate = false) (self : Worker) (job : Job) (resultTtl : ℤ)
    (now : Time) : ∃ status, self.recordResult job resultTtl (some pipe) now =
      .ret ({ job with status := status },
        some (pipe.buffer (self.resultCommandsOf job resultTtl now))) ∧
      (status = job.status ∨ status = .finished) := by
  by_cases h0 : resultTtl = 0
  · exact ⟨job.status, by simp [recordResult, resultCommandsOf, h0], .inl rfl⟩
  · refine ⟨.finished, ?_, .inr rfl⟩
    simp [recordResult, resultCommandsOf, h0, Job._handleSuccess, Job.setStatus_buffer h,
      Job.save_buffer, Job.createResult_buffer, Client.command_buffer, h]

/-! ## A job that is not repeated -/

/-- What an iteration adds to the pipeline after the release, for a job that is not repeated. -/
def recordIn (self : Worker) (job : Job) (s : Store) (now : Time) :
    Except PyError (List (Command Key Value)) := do
  let time ← workingTime job
  let cleaning ← job.cleanupIn s (some (job.getResultTtl self.defaultResultTtl)) false now
  return [self.incrementSuccessfulJobCount, self.incrementTotalWorkingTime time] ++
    self.resultCommandsOf job (job.getResultTtl self.defaultResultTtl) now ++ cleaning ++
    self.endCommands job

lemma run_recordSuccess (h : pipe.immediate = false) (self : Worker) {job : Job}
    (hrepeats : job.repeatsLeft.getD 0 = 0) (queue : Queue) (s : Store) (now : Time) :
    ∃ s' status, Job.Trimmed job.id now s s' ∧
      (∀ cs, self.recordIn job s now = .ok cs →
        s' = Job.readStore s job.id (some (job.getResultTtl self.defaultResultTtl)) now) ∧
      (self.recordSuccess job queue (some pipe) now).run s =
        ((self.recordIn job s now).map fun cs =>
          ({ self with execution := none }, { job with status := status },
            some (pipe.buffer cs)), s') := by
  unfold recordSuccess recordIn
  simp only [Client.command_buffer h, Prog.ret_bind]
  cases htime : workingTime job with
  | error e => exact ⟨s, job.status, .inl rfl, nofun, rfl⟩
  | ok time =>
    obtain ⟨status, hresult, -⟩ := @recordResult_buffer (pipe.buffer
      [self.incrementSuccessfulJobCount, self.incrementTotalWorkingTime time])
      (by simpa using h) self job (job.getResultTtl self.defaultResultTtl) now
    obtain ⟨s', htrim, hread, hclean⟩ := @Job.run_cleanup (pipe.buffer
      ([self.incrementSuccessfulJobCount, self.incrementTotalWorkingTime time] ++
        self.resultCommandsOf job (job.getResultTtl self.defaultResultTtl) now))
      (by simpa using h) { job with status := status } s
      (some (job.getResultTtl self.defaultResultTtl)) false now
    have hin : ({ job with status := status } : Job).cleanupIn s
        (some (job.getResultTtl self.defaultResultTtl)) false now =
        job.cleanupIn s (some (job.getResultTtl self.defaultResultTtl)) false now := rfl
    obtain ⟨status', hcleaned⟩ : ∃ status', Job.cleaned { job with status := status } s
        (some (job.getResultTtl self.defaultResultTtl)) = { job with status := status' } :=
      ⟨_, rfl⟩
    rw [hin] at hclean hread
    rw [hcleaned] at hclean
    refine ⟨s', status', htrim, fun cs hcs => ?_, ?_⟩
    · cases hin : job.cleanupIn s (some (job.getResultTtl self.defaultResultTtl)) false now with
      | error e =>
        rw [hin] at hcs
        cases hcs
      | ok cleaning => exact hread cleaning hin
    simp only [Prog.ofExcept_ok, Prog.ret_bind, Client.command_buffer, Pipeline.immediate_buffer, h,
      Pipeline.buffer_buffer, List.singleton_append] at hresult ⊢
    rw [hresult]
    simp only [Prog.ret_bind, repeatOrCleanup, hrepeats, Nat.lt_irrefl, if_false]
    cases hcs : job.cleanupIn s (some (job.getResultTtl self.defaultResultTtl)) false now with
    | error e =>
      rw [Prog.run_bind_error (by rw [hclean, hcs]; rfl)]
      rfl
    | ok cleaning =>
      rw [Prog.run_bind_ok (by rw [hclean, hcs]; rfl)]
      have hend : self.endCommands { job with status := status' } = self.endCommands job := rfl
      simp [cleanupExecution_buffer, h, hend, Except.map, Except.ok_bind, pure, Except.pure]

/-- The outcome of an iteration for a job that is not repeated: the commands of its transaction. -/
def successIn (self : Worker) (job : Job) (queue : Queue) (s : Store) (now : Time) :
    Except PyError (List (Command Key Value)) := do
  let jobs ← (Queue.releaseIn s job none true).map Prod.fst
  let cs ← self.recordIn job s now
  return queue.releaseAll s job.id jobs now ++ cs

/-- The parts of the transaction. -/
lemma successIn_parts {self : Worker} {job : Job} {queue : Queue} {cs : List (Command Key Value)}
    (h : self.successIn job queue s now = .ok cs) :
    ∃ released time cleaning, Queue.releaseIn s job none true = .ok released ∧
      workingTime job = .ok time ∧
      job.cleanupIn s (some (job.getResultTtl self.defaultResultTtl)) false now = .ok cleaning ∧
      cs = queue.releaseAll s job.id released.1 now ++
        ([self.incrementSuccessfulJobCount, self.incrementTotalWorkingTime time] ++
          self.resultCommandsOf job (job.getResultTtl self.defaultResultTtl) now ++ cleaning ++
          self.endCommands job) := by
  unfold successIn recordIn at h
  cases hrelease : Queue.releaseIn s job none true with
  | error e =>
    rw [hrelease] at h
    cases h
  | ok released =>
    cases htime : workingTime job with
    | error e =>
      rw [hrelease, htime] at h
      cases h
    | ok time =>
      cases hclean : job.cleanupIn s (some (job.getResultTtl self.defaultResultTtl)) false now with
      | error e =>
        rw [hrelease, htime] at h
        simp only [Except.map, Except.ok_bind, hclean] at h
        cases h
      | ok cleaning =>
        rw [hrelease, htime] at h
        simp only [Except.map, Except.ok_bind, hclean] at h
        cases h
        exact ⟨released, time, cleaning, rfl, rfl, rfl, rfl⟩

/-- A job that has repeats left has a number of them. -/
lemma exists_repeatsLeft {job : Job} (h : job.repeatsLeft.getD 0 ≠ 0) :
    ∃ n, job.repeatsLeft = some (n + 1) := by
  cases hrepeats : job.repeatsLeft with
  | none => simp [hrepeats] at h
  | some n =>
    cases n with
    | zero => simp [hrepeats] at h
    | succ n => exact ⟨n, rfl⟩

lemma ver_zadd (kind : RegistryKind) (name : QueueName) (id : JobId) (score : Score) (s : Store)
    {k : Key} (hk : Watchable k) : ((zadd kind name id score).run s).ver k = s.ver k := by
  have hne : k ≠ .registry kind name := by
    rintro rfl
    exact hk
  simp only [zadd, Command.alter]
  split
  · rfl
  · simp [KeyStore.put, hne]

lemma ver_trimmed {id : JobId} (h : Job.Trimmed id now s s') {k : Key} (hk : Watchable k) :
    s'.ver k = s.ver k := by
  rcases h with rfl | rfl
  · rfl
  · have hne : k ≠ .executions id := by
      rintro rfl
      exact hk
    simp only [ExecutionRegistry.cleanup, Command.alter]
    split
    · rfl
    · simp [KeyStore.put, hne]

/-- **One iteration for a job that is not repeated.** -/
theorem run_attempt (self : Worker) {job : Job} (hrepeats : job.repeatsLeft.getD 0 = 0)
    (queue : Queue) (s : Store) (now : Time) :
    ∃ s' pipe status, Job.Trimmed job.id now s s' ∧
      (∀ cs, self.successIn job queue s now = .ok cs →
        s' = Job.readStore s job.id (some (job.getResultTtl self.defaultResultTtl)) now) ∧
      Queue.Started s' pipe ∧ pipe.commandStack = [] ∧
      (self.handleJobSuccessAttempt job queue now).run s =
        ((self.successIn job queue s now).map fun cs =>
          ({ self with execution := none }, { job with status := status },
            some (pipe.buffer cs)), s') := by
  obtain ⟨pipe, hstarted, hstack, hbegin⟩ := run_beginSuccess job queue now s
  unfold handleJobSuccessAttempt successIn
  cases hr : Queue.releaseIn s job none true with
  | error e =>
    refine ⟨s, pipe, job.status, .inl rfl, nofun, hstarted, hstack, ?_⟩
    rw [Prog.run_bind_error (by rw [hbegin, hr]; rfl)]
    rfl
  | ok r =>
    obtain ⟨jobs, job'⟩ := r
    obtain ⟨status, rfl, -⟩ := Queue.releaseIn_parent hr
    obtain ⟨s', status', htrim, hread, hrecord⟩ := @run_recordSuccess
      (pipe.buffer (queue.releaseAll s job.id jobs now)) (by simpa using hstarted.immediate) self
      { job with status := status } hrepeats queue s now
    have hin : self.recordIn { job with status := status } s now = self.recordIn job s now := rfl
    rw [hin] at hrecord hread
    refine ⟨s', pipe, status', htrim, fun cs hcs => ?_,
      hstarted.congr fun k hk => ver_trimmed htrim hk, hstack, ?_⟩
    · cases hin : self.recordIn job s now with
      | error e =>
        rw [hin] at hcs
        cases hcs
      | ok recording => exact hread recording hin
    rw [Prog.run_bind_ok (by rw [hbegin, hr]; rfl)]
    refine hrecord.trans ?_
    cases self.recordIn job s now with
    | error e => rfl
    | ok cs => simp [Except.map, Except.ok_bind, pure, Except.pure]

/-! ## A job that is repeated -/

lemma exists_intervalFor (job : Job) (repeatCount : ℕ) :
    ∃ interval, Repeat.intervalFor job repeatCount = .ok interval := by
  unfold Repeat.intervalFor
  cases job.repeatIntervals with
  | none => exact ⟨0, rfl⟩
  | some intervals =>
    cases intervals with
    | nil => exact ⟨0, rfl⟩
    | cons first rest =>
      simp only [Repeat.getInterval, List.getLast?_cons]
      split <;> exact ⟨_, rfl⟩

/-- What `Repeat.schedule` writes at once. -/
def repeatNow (self : Worker) (job : Job) (queue : Queue) (interval : ℕ) (now : Time) :
    List (Command Key Value) :=
  if interval = 0 then []
  else [zadd .scheduled queue.name job.id
    ((self.zone.assumedInstant (self.zone.naiveNow now + interval) : ℤ) : Score)]

lemma ver_repeatNow (self : Worker) (job : Job) (queue : Queue) (interval : ℕ) (now : Time)
    (s : Store) {k : Key} (hk : Watchable k) :
    ((Command.seq (self.repeatNow job queue interval now)).run s).ver k = s.ver k := by
  unfold repeatNow
  split
  · rfl
  · rw [Command.seq_cons_run, Command.seq_nil_run]
    exact ver_zadd _ _ _ _ s hk

/-- What `Repeat.schedule` adds to a pipeline. -/
def repeatLater (job : Job) (queue : Queue) (interval : ℕ) (now : Time) :
    List (Command Key Value) :=
  [hset job.id (job.toDict true)] ++
    if interval = 0 then enqueueCommands queue job false now
    else (.alter .queues fun q => q.insert queue.key) :: persistCommands job .scheduled now

/-- The job as `Repeat.schedule` leaves it. -/
def repeatedJob (job : Job) (queue : Queue) (interval : ℕ) (now : Time) : Job :=
  if interval = 0 then queue._prepareForQueue job now else { job with status := .scheduled }

lemma run_repeat (h : pipe.immediate = false) (self : Worker) {job : Job} (ht : job.ttl ≠ some 0)
    (queue : Queue) {n interval : ℕ} (hrepeats : job.repeatsLeft = some (n + 1))
    (hinterval : Repeat.intervalFor job n = .ok interval) (s : Store) (now : Time) :
    (Repeat.schedule job queue self.zone (some pipe) now).run s =
      (.ok (repeatedJob { job with repeatsLeft := some n } queue interval now, some (pipe.buffer
        (repeatLater { job with repeatsLeft := some n } queue interval now))),
        (Command.seq (self.repeatNow job queue interval now)).run s) := by
  have ht' : ({ job with repeatsLeft := some n } : Job).ttl ≠ some 0 := ht
  unfold Repeat.schedule
  rw [hrepeats]
  simp only [hinterval, Prog.ofExcept_ok, Prog.ret_bind, Job.save_buffer h]
  by_cases h0 : interval = 0
  · simp [h0, Queue.enqueueJob_buffer, h, ht', repeatedJob, repeatLater, repeatNow]
  · simp [h0, Queue.scheduleJob, Queue.scheduleOnPipeline_eq, h, ht', repeatedJob, repeatLater,
      repeatNow]

/-- After these commands the job is queued or scheduled again with `n` repeats left. -/
def Repeats (id : JobId) (n : ℕ) (cs : List (Command Key Value)) : Prop :=
  ∀ t : Store, (((Command.seq cs).run t).val (.job id)).repeatsLeft = some n ∧
    ((((Command.seq cs).run t).val (.job id)).status = some .queued ∨
      (((Command.seq cs).run t).val (.job id)).status = some .scheduled)

lemma repeats_repeatLater {job : Job} {n : ℕ} (hn : job.repeatsLeft = some n) (queue : Queue)
    (interval : ℕ) (now : Time) : Repeats job.id n (repeatLater job queue interval now) := by
  intro t
  by_cases h0 : interval = 0
  · by_cases ht : 0 < job.ttl.getD 0 <;> by_cases hd : job.status = .deferred <;>
      simp [repeatLater, h0, enqueueCommands, persistCommands, cleanupCommands, ht, hd,
        Queue._prepareForQueue, JobHash.update, Job.toDict, hn]
  · by_cases ht : 0 < job.ttl.getD 0 <;>
      simp [repeatLater, h0, persistCommands, cleanupCommands, ht, JobHash.update, Job.toDict, hn]

lemma keeps_endCommands (self : Worker) (job : Job) (id : JobId) :
    (Command.seq (self.endCommands job)).Keeps (.job id) := by
  refine Command.keeps_seq fun c hc t => ?_
  unfold endCommands at hc
  rcases List.mem_cons.mp hc with rfl | hc
  · simp [setCurrentJobId]
  · cases hexec : self.execution with
    | none => simp [hexec] at hc
    | some execution =>
      simp only [hexec, Execution.deleteCommands, List.mem_cons, List.not_mem_nil, or_false] at hc
      rcases hc with rfl | rfl | rfl <;> simp [removeExecution, ExecutionRegistry.remove]

lemma Repeats.append {id : JobId} {n : ℕ} {cs cs' : List (Command Key Value)}
    (h : Repeats id n cs) (hkeep : (Command.seq cs').Keeps (.job id))
    (before : List (Command Key Value)) : Repeats id n (before ++ cs ++ cs') := by
  intro t
  rw [Command.seq_append_run, Command.seq_append_run, hkeep]
  exact h _

/-- What an iteration adds to the pipeline for a job that is repeated. `status` and `status'` are the
status of the object before and after the result has been recorded. -/
def repeatCommands (self : Worker) (job : Job) (queue : Queue) (s : Store) (jobs : List Job)
    (time : ℤ) (status status' : JobStatus) (n interval : ℕ) (now : Time) :
    List (Command Key Value) :=
  queue.releaseAll s job.id jobs now ++
    [self.incrementSuccessfulJobCount, self.incrementTotalWorkingTime time] ++
    self.resultCommandsOf { job with status := status } (job.getResultTtl self.defaultResultTtl)
      now ++
    repeatLater { job with status := status', repeatsLeft := some n } queue interval now ++
    self.endCommands
      (repeatedJob { job with status := status', repeatsLeft := some n } queue interval now)

/-- **One iteration for a job that is repeated, command by command.** -/
theorem run_attempt_repeating (self : Worker) {job : Job} {n interval : ℕ}
    (hrepeats : job.repeatsLeft = some (n + 1)) (ht : job.ttl ≠ some 0)
    (hinterval : Repeat.intervalFor job n = .ok interval) (queue : Queue) (s : Store)
    (now : Time) :
    (∃ e, (self.handleJobSuccessAttempt job queue now).run s = (.error e, s)) ∨
      ∃ pipe jobs time status status' job', Queue.Started s pipe ∧ pipe.commandStack = [] ∧
        Queue.releaseIn s job none true = .ok (jobs, job') ∧ Job.StatusRead s job status ∧
        (status' = status ∨ status' = .finished) ∧
        (self.handleJobSuccessAttempt job queue now).run s =
          (.ok ({ self with execution := none },
            repeatedJob { job with status := status', repeatsLeft := some n } queue interval now,
            some (pipe.buffer
              (self.repeatCommands job queue s jobs time status status' n interval now))),
            (Command.seq (self.repeatNow job queue interval now)).run s) := by
  obtain ⟨pipe, hstarted, hstack, hbegin⟩ := run_beginSuccess job queue now s
  unfold handleJobSuccessAttempt
  cases hr : Queue.releaseIn s job none true with
  | error e => exact .inl ⟨e, Prog.run_bind_error (by rw [hbegin, hr]; rfl)⟩
  | ok r =>
    obtain ⟨jobs, job'⟩ := r
    obtain ⟨status, rfl, hrefreshed⟩ := Queue.releaseIn_parent hr
    rw [Prog.run_bind_ok (by rw [hbegin, hr]; rfl)]
    have h := hstarted.immediate
    simp only [recordSuccess, Client.command_buffer, Pipeline.immediate_buffer, h, Prog.ret_bind,
      Pipeline.buffer_buffer]
    cases htime : workingTime { job with status := status } with
    | error e => exact .inl ⟨e, rfl⟩
    | ok time =>
      right
      obtain ⟨status', hresult, hstatus⟩ := @recordResult_buffer (pipe.buffer
        (queue.releaseAll s job.id jobs now ++
          [self.incrementSuccessfulJobCount, self.incrementTotalWorkingTime time]))
        (by simpa using h) self { job with status := status }
        (({ job with status := status } : Job).getResultTtl self.defaultResultTtl) now
      simp only [Prog.ofExcept_ok, Prog.ret_bind, List.append_assoc, List.cons_append,
        List.nil_append] at hresult ⊢
      rw [hresult]
      have hschedule := fun cs : List (Command Key Value) => @run_repeat (pipe.buffer cs)
        (by simpa using h) self { job with status := status' } ht queue n interval hrepeats
          hinterval s now
      have hpositive : 0 < job.repeatsLeft.getD 0 := by simp [hrepeats]
      simp only [Prog.ret_bind, repeatOrCleanup, hpositive, if_true, Pipeline.buffer_buffer]
      rw [Prog.run_bind_ok (hschedule _), cleanupExecution_buffer (by simpa using h)]
      simp only [Prog.ret_bind, Prog.pure_eq, Prog.run_ret, Pipeline.buffer_buffer]
      refine ⟨pipe, jobs, time, status, status', _, hstarted, hstack, rfl, hrefreshed, hstatus, ?_⟩
      simp only [repeatCommands, List.append_assoc, List.cons_append, List.nil_append]
      rfl

/-- **One iteration for a job that is repeated.** -/
theorem run_attempt_repeated (self : Worker) {job : Job} {n : ℕ}
    (hrepeats : job.repeatsLeft = some (n + 1)) (ht : job.ttl ≠ some 0) (queue : Queue) (s : Store)
    (now : Time) :
    (∃ e, (self.handleJobSuccessAttempt job queue now).run s = (.error e, s)) ∨
      ∃ s' pipe job' cs, Queue.Started s' pipe ∧ pipe.commandStack = [] ∧
        (self.handleJobSuccessAttempt job queue now).run s =
          (.ok ({ self with execution := none }, job', some (pipe.buffer cs)), s') ∧
        job'.id = job.id ∧ job'.ttl = job.ttl ∧ job'.repeatsLeft = some n ∧
        Repeats job.id n cs := by
  obtain ⟨interval, hinterval⟩ := exists_intervalFor job n
  rcases self.run_attempt_repeating hrepeats ht hinterval queue s now with hraised |
    ⟨pipe, jobs, time, status, status', job', hstarted, hstack, -, -, -, hrun⟩
  · exact .inl hraised
  · right
    have hid : ∀ job : Job, (repeatedJob job queue interval now).id = job.id ∧
        (repeatedJob job queue interval now).ttl = job.ttl ∧
        (repeatedJob job queue interval now).repeatsLeft = job.repeatsLeft := fun job => by
      unfold repeatedJob
      split <;> exact ⟨rfl, rfl, rfl⟩
    obtain ⟨hid', httl', hleft'⟩ := hid { job with status := status', repeatsLeft := some n }
    exact ⟨_, pipe, _, _, hstarted.congr fun k hk => self.ver_repeatNow job queue interval now s hk,
      hstack, hrun, hid', httl', hleft',
      (repeats_repeatLater rfl queue interval now).append (keeps_endCommands self _ _) _⟩

end Worker

end RedisQueue
