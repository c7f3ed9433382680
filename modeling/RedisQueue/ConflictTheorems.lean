import RedisQueue.SuccessTheorems
import RedisQueue.Unguarded

/-!
# The success transaction under conflicts

`handle_job_success` when the first `k` of its `pipeline.execute()` raise a `WatchError`. The loop
goes on with the `Job` and the `Worker` as the failed iteration has left them.

* `runConflicts_not_repeated`: the transaction that is executed in the end;
* `runConflicts_repeated`: the repeats that are left in the end;
* `handleJobSuccess_idempotent_iff`: when the conflicts leave no trace.
-/

namespace RedisQueue

open Prog

variable {s s' : Store} {now : Time} {pipe : Pipeline Key Value}

/-! ## What does not depend on the status of the parent -/

namespace Queue

lemma metIn_congr {d job : Job} {status : JobStatus}
    (hval : ∀ k, k = .dependencies d.id ∨ Watchable k → s'.val k = s.val k) :
    d.metIn s' (some { job with status := status }) none true = d.metIn s (some job) none true := by
  have hjob : ∀ id, s'.val (.job id) = s.val (.job id) := fun id => hval _ (.inr trivial)
  simp only [Job.metIn, Job.statusesAllowedIn, Job.statusIn, hval _ (.inl rfl), hjob,
    Option.isSome_none, Bool.false_and, if_true]

lemma releasable_congr {job : Job} (status : JobStatus)
    (hval : ∀ k, (∃ id, k = .dependencies id) ∨ Watchable k → s'.val k = s.val k)
    (dependents : List (Option Job)) :
    (releasable s' none true dependents { job with status := status }).map Prod.fst =
      (releasable s none true dependents job).map Prod.fst := by
  induction dependents generalizing job status with
  | nil => rfl
  | cons dependent rest ih =>
    cases dependent with
    | none => exact ih status
    | some d =>
      have hmet := @metIn_congr s s' d job status fun k hk =>
        hval k (hk.imp (fun h => ⟨_, h⟩) id)
      simp only [releasable, hmet]
      cases hr : d.metIn s (some job) none true with
      | error e => rfl
      | ok r =>
        obtain ⟨met, parent⟩ := r
        obtain ⟨status', rfl, -⟩ := Job.metIn_parent hr
        have htail := @ih { job with status := status' } status'
        have hmap : ∀ x : Except PyError (List Job × Job), (x.map fun r =>
            (if met && d.status != .canceled then d :: r.1 else r.1, r.2)).map Prod.fst =
            (x.map Prod.fst).map fun jobs =>
              if met && d.status != .canceled then d :: jobs else jobs := fun x => by
          cases x <;> rfl
        simp only [Option.getD_some]
        rw [hmap, hmap]
        exact congrArg _ htail

lemma releaseIn_congr {job : Job} (status : JobStatus)
    (hval : ∀ k, (∃ id, k = .dependencies id) ∨ Watchable k → s'.val k = s.val k) :
    (releaseIn s' { job with status := status } none true).map Prod.fst =
      (releaseIn s job none true).map Prod.fst := by
  have hdependents : s'.val (.dependents job.id) = s.val (.dependents job.id) :=
    hval _ (.inr trivial)
  have hjob : ∀ id, s'.val (.job id) = s.val (.job id) := fun id => hval _ (.inr trivial)
  simp only [releaseIn, hdependents, hjob]
  split
  · rfl
  · split
    · rfl
    · exact releasable_congr status hval _

end Queue

namespace Worker

lemma successIn_congr {job : Job} (h : Job.Trimmed job.id now s s') (status : JobStatus)
    (self : Worker) (queue : Queue) :
    self.successIn { job with status := status } queue s' now =
      self.successIn job queue s now := by
  have hval : ∀ k, k ≠ .executions job.id → s'.val k = s.val k := fun k hk => h.val hk
  have hrelease := @Queue.releaseIn_congr s s' job status fun k hk => hval k (by
    rintro rfl
    rcases hk with ⟨id, hk⟩ | hk
    · cases hk
    · exact hk)
  have hdependents : s'.val (.dependents job.id) = s.val (.dependents job.id) := hval _ (by simp)
  have hstatus : s'.val (.job job.id) = s.val (.job job.id) := hval _ (by simp)
  have hgroup : ∀ g, s'.val (.group g) = s.val (.group g) := fun g => hval _ (by simp)
  have hclean : ∀ ttl, ({ job with status := status } : Job).cleanupIn s' ttl false now =
      job.cleanupIn s ttl false now := fun ttl => by
    simp only [Job.cleanupIn, Job.deletionIn, Job.leaveIn, Job.groupIn, hstatus, hgroup,
      h.executionsIn]
    rfl
  have hforget : ∀ jobs, queue.releaseAll s' job.id jobs now = queue.releaseAll s job.id jobs now :=
    fun jobs => by simp only [Queue.releaseAll, Queue.forgetCommand, hdependents]
  simp only [successIn, recordIn, hrelease, hclean, hforget]
  rfl

/-! ## The loop -/

variable {self self' : Worker} {job job' : Job} {queue : Queue} {fuel n : ℕ}

lemma runConflicts_attempting {r : Except PyError (Worker × Job × Client)}
    (h : (self.handleJobSuccessAttempt job queue now).run s = (r, s')) :
    (attempting (self.handleJobSuccessAttempt job queue now)).runConflicts n s =
      (match r with
        | .ok a => .ok (.ok a)
        | .error e => if e = .stillRunning then .error e else .ok (.error e), s', n) := by
  have hunguarded : (attempting (self.handleJobSuccessAttempt job queue now)).Unguarded
      fun _ => True := by
    unfold attempting catching
    refine Unguarded.tryCatch ?_ fun e => ?_
    · rw [unguarded_bind]
      exact unguarded_handleJobSuccessAttempt fun _ _ _ => trivial
    · split <;> trivial
  have hrun : (attempting (self.handleJobSuccessAttempt job queue now)).run s =
      (match r with
        | .ok a => .ok (.ok a)
        | .error e => if e = .stillRunning then .error e else .ok (.error e), s') := by
    unfold attempting catching
    rw [run_tryCatch]
    cases r with
    | ok a =>
      rw [Prog.run_bind_ok h]
      rfl
    | error e =>
      rw [Prog.run_bind_error h]
      by_cases he : e = .stillRunning <;> simp [he]
  rw [runConflicts_of_unguarded hunguarded, hrun]

lemma loop_eq : handleJobSuccessLoop queue now (fuel + 1) self job =
    attempting (self.handleJobSuccessAttempt job queue now) >>= fun r =>
      match r with
      | .error e => .ret (.error e, self, job)
      | .ok (self, job, pipeline) => (pipeline.getD {}).execute >>= fun committed =>
        if committed then .ret (.ok (), self, job)
        else handleJobSuccessLoop queue now fuel self job := rfl

lemma loop_conflict (h : (self.handleJobSuccessAttempt job queue now).run s =
    (.ok (self', job', some pipe), s')) (hw : pipe.watched ≠ []) :
    (handleJobSuccessLoop queue now (fuel + 1) self job).runConflicts (n + 1) s =
      (handleJobSuccessLoop queue now fuel self' job').runConflicts n s' := by
  rw [loop_eq, runConflicts_bind, runConflicts_attempting h]
  simp only [Option.getD_some, Pipeline.execute_of_watched hw]
  rfl

lemma loop_commit (h : (self.handleJobSuccessAttempt job queue now).run s =
    (.ok (self', job', some pipe), s')) (hw : pipe.watched ≠ []) (hu : pipe.unchanged s' = true) :
    (handleJobSuccessLoop queue now (fuel + 1) self job).runConflicts 0 s =
      (.ok (.ok (), self', job'), (Command.seq pipe.commandStack).run s', 0) := by
  rw [loop_eq, runConflicts_bind, runConflicts_attempting h]
  simp only [Option.getD_some, Pipeline.execute_of_watched hw, exec_bind, runConflicts, if_pos hu]
  rfl

lemma loop_error {e : PyError} (h : (self.handleJobSuccessAttempt job queue now).run s =
    (.error e, s')) : ∃ r, (handleJobSuccessLoop queue now (fuel + 1) self job).runConflicts n s =
      (r, s', n) ∧ ∀ a, r ≠ .ok (.ok (), a) := by
  rw [loop_eq, runConflicts_bind, runConflicts_attempting h]
  by_cases he : e = .stillRunning
  · exact ⟨_, by simp only [he, if_true]; rfl, by simp⟩
  · exact ⟨_, by simp only [he, if_false]; rfl, by simp⟩

/-! ## A job that is not repeated -/

/-- The worker while it executes `execution`. -/
def executing (self : Worker) (execution : Option Execution) : Worker :=
  { self with execution := execution }

@[simp] lemma executing_name (self : Worker) (execution : Option Execution) :
    (self.executing execution).name = self.name := rfl

@[simp] lemma executing_defaultResultTtl (self : Worker) (execution : Option Execution) :
    (self.executing execution).defaultResultTtl = self.defaultResultTtl := rfl

/-- The worker that `k` conflicts leave. -/
def afterConflicts (self : Worker) (k : ℕ) : Worker :=
  if k = 0 then self else self.executing none

lemma readStore_readStore (s : Store) (id : JobId) (ttl : Option ℤ) (now : Time) :
    Job.readStore (Job.readStore s id ttl now) id ttl now = Job.readStore s id ttl now := by
  have htrim := Job.trimmed_readStore s id ttl now
  unfold Job.readStore at htrim ⊢
  split
  · next h => simpa [h] using htrim.cleanup
  · rfl

lemma loop_commits {cs : List (Command Key Value)} (hrepeats : job.repeatsLeft.getD 0 = 0)
    (hin : self.successIn job queue s now = .ok cs) :
    ∃ a, (handleJobSuccessLoop queue now (fuel + 1) self job).runConflicts 0 s =
      (.ok (.ok (), a), (Command.seq cs).run
        (Job.readStore s job.id (some (job.getResultTtl self.defaultResultTtl)) now), 0) := by
  obtain ⟨s₁, pipe, status, -, hread, hstarted, hstack, hrun⟩ :=
    self.run_attempt hrepeats queue s now
  rw [hin] at hrun
  have hwatched : (pipe.buffer cs).watched ≠ [] := by simpa using hstarted.watched
  have hcommit := @loop_commit _ s₁ now _ self _ job _ queue fuel hrun hwatched
    (by simpa [Pipeline.unchanged] using hstarted.unchanged)
  rw [Pipeline.buffer_commandStack, hstack, List.nil_append, hread cs hin] at hcommit
  exact ⟨_, hcommit⟩

/-- **The transaction that is executed after `k` conflicts.** -/
theorem runConflicts_not_repeated {k : ℕ} {a : Worker × Job} (hrepeats : job.repeatsLeft.getD 0 = 0)
    (h : (handleJobSuccessLoop queue now fuel self job).runConflicts k s =
      (.ok (.ok (), a), s', 0)) :
    ∃ cs, (self.afterConflicts k).successIn job queue s now = .ok cs ∧
      s' = (Command.seq cs).run
        (Job.readStore s job.id (some (job.getResultTtl self.defaultResultTtl)) now) := by
  induction k generalizing self job fuel s with
  | zero =>
    cases fuel with
    | zero => cases h
    | succ fuel =>
      obtain ⟨s₁, pipe, status, -, -, -, -, hrun⟩ := self.run_attempt hrepeats queue s now
      cases hin : self.successIn job queue s now with
      | error e =>
        obtain ⟨r, hr, hne⟩ := @loop_error s s₁ now self job queue fuel 0 e (by rw [hrun, hin]; rfl)
        rw [hr] at h
        exact absurd (Prod.mk.inj h).1 (hne a)
      | ok cs =>
        obtain ⟨b, hcommit⟩ := @loop_commits s now self job queue fuel cs hrepeats hin
        rw [hcommit] at h
        exact ⟨cs, hin, (Prod.mk.inj (Prod.mk.inj h).2).1.symm⟩
  | succ k ih =>
    cases fuel with
    | zero => cases h
    | succ fuel =>
      obtain ⟨s₁, pipe, status, -, hread, hstarted, hstack, hrun⟩ :=
        self.run_attempt hrepeats queue s now
      cases hin : self.successIn job queue s now with
      | error e =>
        obtain ⟨r, hr, hne⟩ :=
          @loop_error s s₁ now self job queue fuel (k + 1) e (by rw [hrun, hin]; rfl)
        rw [hr] at h
        exact absurd (Prod.mk.inj h).1 (hne a)
      | ok cs =>
        rw [hin] at hrun
        have hwatched : (pipe.buffer cs).watched ≠ [] := by simpa using hstarted.watched
        rw [loop_conflict hrun hwatched] at h
        obtain ⟨cs', hcs', rfl⟩ := @ih _ _ { job with status := status } _ hrepeats h
        have hs := hread cs hin
        have hself : (self.executing none).afterConflicts k = self.afterConflicts (k + 1) := by
          unfold afterConflicts
          split <;> simp [executing]
        rw [← executing, hself, hs, successIn_congr (Job.trimmed_readStore _ _ _ _)] at hcs'
        refine ⟨cs', hcs', ?_⟩
        rw [hs]
        exact congrArg _ (readStore_readStore _ _ _ _)

/-! ## What the transaction tells about the execution -/

/-- The keys that tell about the executions of jobs. -/
def AboutExecutions : Key → Prop
  | .results _ | .execution _ _ | .executions _ | .wip _ => True
  | _ => False

lemma keeps_releaseAll {s : Store} {id : JobId} {jobs : List Job} {c : Command Key Value}
    (hc : c ∈ queue.releaseAll s id jobs now) {k : Key} (hk : AboutExecutions k) : c.Keeps k := by
  intro t
  unfold Queue.releaseAll at hc
  split at hc
  · simp at hc
  · rcases List.mem_append.mp hc with hc | hc
    · obtain ⟨d, -, rfl | hc⟩ := Queue.mem_releaseCommands hc
      · cases k <;> simp_all [AboutExecutions]
      · cases hc <;> cases k <;> simp_all [AboutExecutions]
    · obtain rfl := List.mem_singleton.mp hc
      unfold Queue.forgetCommand
      split <;> cases k <;> simp_all [AboutExecutions]

/-- Only two parts of the transaction depend on the execution of the worker. -/
lemma successIn_ok {execution : Option Execution} {cs : List (Command Key Value)}
    (h : (self.executing execution).successIn job queue s now = .ok cs) :
    ∃ before cleaning, (∀ c ∈ before, ∀ k, AboutExecutions k → c.Keeps k) ∧
      job.cleanupIn s (some (job.getResultTtl self.defaultResultTtl)) false now = .ok cleaning ∧
      ∀ execution, (self.executing execution).successIn job queue s now =
        .ok (before ++ ((self.executing execution).resultCommandsOf job
          (job.getResultTtl self.defaultResultTtl) now ++ (cleaning ++
          (self.executing execution).endCommands job))) := by
  obtain ⟨released, time, cleaning, hrelease, htime, hclean, -⟩ := successIn_parts h
  rw [executing_defaultResultTtl] at hclean
  refine ⟨queue.releaseAll s job.id released.1 now ++
    [self.incrementSuccessfulJobCount, self.incrementTotalWorkingTime time], cleaning,
    fun c hc k hk => ?_, hclean, fun execution => ?_⟩
  · simp only [List.mem_append, List.mem_cons, List.not_mem_nil, or_false] at hc
    rcases hc with hc | rfl | rfl
    · exact keeps_releaseAll hc hk
    · intro t
      cases k <;> simp_all [AboutExecutions, incrementSuccessfulJobCount]
    · intro t
      cases k <;> simp_all [AboutExecutions, incrementTotalWorkingTime]
  · simp [successIn, recordIn, hrelease, htime, hclean, Except.map, Except.ok_bind, pure,
      Except.pure, incrementSuccessfulJobCount, incrementTotalWorkingTime]

lemma idle_deleteCommands_iff (execution : Execution) (job : Job) (v : Store) :
    ((Command.seq (execution.deleteCommands job)).run v).val = v.val ↔
      v.val (.execution execution.jobId execution.id) = default ∧
      (execution.jobId, execution.id) ∉ v.val (.wip job.origin) ∧
      execution.id ∉ v.val (.executions execution.jobId) := by
  have hval : ((Command.seq (execution.deleteCommands job)).run v).val =
      Function.update (Function.update (Function.update v.val
        (.execution execution.jobId execution.id) default) (.wip job.origin)
        ((v.val (.wip job.origin)).remove (execution.jobId, execution.id)))
        (.executions execution.jobId)
        ((v.val (.executions execution.jobId)).remove execution.id) := by
    simp [Execution.deleteCommands, removeExecution, ExecutionRegistry.remove]
  rw [hval]
  constructor
  · intro h
    have hexecution := congrFun h (.execution execution.jobId execution.id)
    have hwip := congrFun h (.wip job.origin)
    have hexecutions := congrFun h (.executions execution.jobId)
    simp only [ne_eq, reduceCtorEq, not_false_eq_true, Function.update_of_ne,
      Function.update_self] at hexecution hwip hexecutions
    exact ⟨hexecution.symm, ZSet.remove_eq_self_iff.mp hwip, ZSet.remove_eq_self_iff.mp hexecutions⟩
  · rintro ⟨hexecution, hwip, hexecutions⟩
    rw [ZSet.remove_eq_self_iff.mpr hwip, ZSet.remove_eq_self_iff.mpr hexecutions, ← hexecution]
    simp only [Function.update_eq_self]

/-- A result that expires at once leaves nothing. -/
lemma run_resultCommands_congr (id : JobId) (result result' : Result) {ttl : ℤ} (h : ttl < -1)
    (now : Time) (t : Store) :
    (Command.seq (Job.resultCommands id result (some ttl) now)).run t =
      (Command.seq (Job.resultCommands id result' (some ttl) now)).run t := by
  have hexpire : RedisQueue.expire (.results id) ttl now = .del (.results id) := by
    unfold RedisQueue.expire
    rw [if_pos (by omega)]
  have hne : ttl ≠ -1 := by omega
  have hwritten : ∀ r : Result, (t.val (.results id)) ++ [r] ≠ default := fun r =>
    List.append_ne_nil_of_right_ne_nil _ (List.cons_ne_nil r [])
  simp only [Job.resultCommands, hne, if_false, hexpire, Command.seq_cons_run, Command.seq_nil_run]
  exact Command.del_write_run (hwritten _) (hwritten _)

/-- The records of the execution are gone by the end of the transaction, whether or not the worker
still has the execution. -/
def Traceless (job : Job) (resultTtl : ℤ) (id : ExecutionId) (s : Store) (now : Time) : Prop :=
  (resultTtl = 0 ∧ (id ∈ (s.val (.executions job.id)).removeRange (0 : ℤ) now ∨
    s.val (.execution job.id id) = default ∧ (job.id, id) ∉ s.val (.wip job.origin))) ∨
  (resultTtl < -1 ∧ s.val (.execution job.id id) = default ∧
    (job.id, id) ∉ s.val (.wip job.origin) ∧ id ∉ s.val (.executions job.id))

lemma keeps_resultCommandsOf {resultTtl : ℤ} {c : Command Key Value}
    (hc : c ∈ self.resultCommandsOf job resultTtl now) {k : Key} (hk : AboutExecutions k)
    (hne : k ≠ .results job.id) : c.Keeps k := by
  unfold resultCommandsOf at hc
  split at hc
  · simp at hc
  · simp only [List.mem_append, List.mem_cons, List.not_mem_nil, or_false, Job.resultCommands] at hc
    rcases hc with ((rfl | rfl) | rfl | hc) | rfl
    · intro t
      cases k <;> simp_all [AboutExecutions]
    · intro t
      cases k <;> simp_all [AboutExecutions]
    · exact Command.keeps_write hne
    · split at hc <;> obtain rfl := List.mem_singleton.mp hc
      · exact Command.keeps_persist
      · unfold RedisQueue.expire
        split
        · exact Command.keeps_del hne
        · exact Command.keeps_expire
    · intro t
      cases k <;> simp_all [AboutExecutions]

lemma endCommands_some (self : Worker) (execution : Execution) (job : Job) :
    (self.executing (some execution)).endCommands job =
      (self.executing none).endCommands job ++ execution.deleteCommands job :=
  rfl

lemma keeps_endCommands_none {k : Key} (hk : AboutExecutions k) :
    (Command.seq ((self.executing none).endCommands job)).Keeps k := by
  refine Command.keeps_seq fun c hc t => ?_
  obtain rfl := List.mem_singleton.mp hc
  cases k <;> simp_all [AboutExecutions, setCurrentJobId]

lemma val_resultCommandsOf {resultTtl : ℤ} (h0 : resultTtl ≠ 0) (hge : ¬resultTtl < -1) (u : Store) :
    ((Command.seq (self.resultCommandsOf job resultTtl now)).run u).val (.results job.id) =
      u.val (.results job.id) ++
        [Job.makeResult .successful job.result none (self.executionInfo job)] := by
  unfold resultCommandsOf Job.resultCommands
  by_cases h1 : resultTtl = -1
  · simp [h1]
  · have hpos : ¬resultTtl ≤ 0 := by omega
    simp [h0, h1, hpos, RedisQueue.expire]

/-- **Whether the worker still has the execution** makes no difference only for an execution that
leaves no trace. -/
theorem val_transaction_iff {execution : Execution} (hid : execution.jobId = job.id)
    {cs cs' : List (Command Key Value)}
    (h : (self.executing (some execution)).successIn job queue s now = .ok cs)
    (h' : (self.executing none).successIn job queue s now = .ok cs') :
    ((Command.seq cs').run (Job.readStore s job.id
        (some (job.getResultTtl self.defaultResultTtl)) now)).val =
      ((Command.seq cs).run (Job.readStore s job.id
        (some (job.getResultTtl self.defaultResultTtl)) now)).val ↔
      Traceless job (job.getResultTtl self.defaultResultTtl) execution.id s now := by
  obtain ⟨before, cleaning, hbefore, hclean, hsuccess⟩ := successIn_ok h
  rw [hsuccess] at h h'
  obtain rfl := Except.ok.inj h
  obtain rfl := Except.ok.inj h'
  rw [endCommands_some]
  generalize job.getResultTtl self.defaultResultTtl = resultTtl at *
  simp only [Command.seq_append_run]
  have htrim := Job.trimmed_readStore s job.id (some resultTtl) now
  have hread : resultTtl ≠ 0 → Job.readStore s job.id (some resultTtl) now = s := fun h0 => by
    simp [Job.readStore, h0]
  generalize Job.readStore s job.id (some resultTtl) now = t at *
  have hu : ∀ k, AboutExecutions k → ((Command.seq before).run t).val k = t.val k := fun k hk =>
    Command.keeps_seq (fun c hc => hbefore c hc k hk) t
  generalize (Command.seq before).run t = u at *
  have hend : ∀ (w : Store) {k : Key}, AboutExecutions k →
      ((Command.seq ((self.executing none).endCommands job)).run w).val k = w.val k :=
    fun w _ hk => keeps_endCommands_none hk w
  have hexecution : u.val (.execution job.id execution.id) =
      s.val (.execution job.id execution.id) :=
    (hu (.execution _ _) trivial).trans (htrim.val (by simp))
  have hwip : u.val (.wip job.origin) = s.val (.wip job.origin) :=
    (hu (.wip _) trivial).trans (htrim.val (by simp))
  by_cases h0 : resultTtl = 0
  · subst h0
    have hnone : ∀ w : Worker, w.resultCommandsOf job 0 now = [] := fun w => rfl
    obtain ⟨hgone, hhash, hentry⟩ := Job.val_deletion hclean execution.id u
    simp only [hnone, Command.seq_nil_run]
    rw [eq_comm, idle_deleteCommands_iff, hid, @hend _ (.execution _ _) trivial,
      @hend _ (.wip _) trivial, @hend _ (.executions _) trivial, hgone, hhash, hentry, hexecution,
      hwip]
    have hlt : ¬(0 : ℤ) < -1 := by omega
    unfold Traceless
    by_cases hlisted : execution.id ∈ (s.val (.executions job.id)).removeRange (0 : ℤ) now <;>
      simp only [hlisted, hlt, ZSet.notMem_default, not_true_eq_false, not_false_eq_true, true_or,
        false_or, true_and, and_true, and_false, false_and, or_false]
  · have hkeep : ∀ (w : Store) (k : Key), ((Command.seq cleaning).run w).val k = w.val k := by
      obtain rfl : cleanupCommands job.id (some resultTtl) now = cleaning := by
        simpa [Job.cleanupIn, h0] using hclean
      intro w k
      unfold cleanupCommands
      split <;> simp
    by_cases hlt : resultTtl < -1
    · have hresult : ∀ w : Worker, (Command.seq (w.resultCommandsOf job resultTtl now)).run u =
          (Command.seq (self.resultCommandsOf job resultTtl now)).run u := fun w => by
        simp only [resultCommandsOf, h0, if_false, Command.seq_append_run]
        rw [run_resultCommands_congr _ _ _ hlt]
      have hkept : ∀ {k : Key}, AboutExecutions k → k ≠ .results job.id →
          ((Command.seq (self.resultCommandsOf job resultTtl now)).run u).val k = u.val k :=
        fun hk hne => Command.keeps_seq (fun c hc => keeps_resultCommandsOf hc hk hne) u
      have hexecutions : u.val (.executions job.id) = s.val (.executions job.id) := by
        rw [hu (.executions _) trivial, hread h0]
      rw [hresult (self.executing none), hresult (self.executing (some execution)), eq_comm,
        idle_deleteCommands_iff, hid, @hend _ (.execution _ _) trivial,
        @hend _ (.wip _) trivial, @hend _ (.executions _) trivial, hkeep, hkeep, hkeep,
        @hkept (.execution _ _) trivial (by simp), @hkept (.wip _) trivial (by simp),
        @hkept (.executions _) trivial (by simp), hexecution, hwip, hexecutions]
      simp only [Traceless, h0, hlt, false_and, false_or, true_and]
    · refine iff_of_false (fun heq => ?_) (by rintro (⟨h, -⟩ | ⟨h, -⟩) <;> contradiction)
      have hresults := congrFun heq (.results job.id)
      have hdelete : ∀ w : Store, ((Command.seq (execution.deleteCommands job)).run w).val
          (.results job.id) = w.val (.results job.id) := fun w => by
        simp [Execution.deleteCommands, removeExecution, ExecutionRegistry.remove]
      rw [hdelete, @hend _ (.results _) trivial, @hend _ (.results _) trivial, hkeep, hkeep,
        val_resultCommandsOf h0 hlt, val_resultCommandsOf h0 hlt] at hresults
      have hresult := List.singleton_inj.mp (List.append_cancel_left hresults)
      cases congrArg Result.executionId hresult

/-! ## A job that is repeated -/

/-- The status that the transaction of a job that is not repeated leaves. -/
lemma status_successIn {cs : List (Command Key Value)}
    (h : self.successIn job queue s now = .ok cs) (t : Store) :
    (((Command.seq cs).run t).val (.job job.id)).status = some .finished ∨
      (((Command.seq cs).run t).val (.job job.id)).status = none := by
  obtain ⟨before, cleaning, -, hclean, hsuccess⟩ :=
    @successIn_ok s now self job queue self.execution cs h
  obtain rfl : _ = cs := Except.ok.inj ((hsuccess self.execution).symm.trans h)
  generalize job.getResultTtl self.defaultResultTtl = resultTtl at *
  simp only [Command.seq_append_run]
  rw [keeps_endCommands]
  generalize (Command.seq before).run t = u
  by_cases h0 : resultTtl = 0
  · subst h0
    obtain ⟨leaving, executions, group, -, -, -, rfl⟩ := Job.deletionIn_ok hclean
    right
    simp
    rfl
  · left
    obtain rfl : cleanupCommands job.id (some resultTtl) now = cleaning := by
      simpa [Job.cleanupIn, h0] using hclean
    have hkeep : ∀ w : Store, ((Command.seq (cleanupCommands job.id (some resultTtl) now)).run w).val
        (.job job.id) = w.val (.job job.id) := fun w => by
      unfold cleanupCommands
      split <;> simp
    rw [hkeep]
    by_cases h1 : resultTtl = -1
    · simp [resultCommandsOf, Job.resultCommands, h1, JobHash.update, Job.toDict]
    · by_cases hpos : resultTtl ≤ 0 <;>
        simp [resultCommandsOf, Job.resultCommands, h0, h1, hpos, RedisQueue.expire,
          JobHash.update, Job.toDict]

/-- **The repeats that are left after `k` conflicts**, unless the job is not repeated any more. -/
theorem runConflicts_repeated {k m : ℕ} {a : Worker × Job} (hrepeats : job.repeatsLeft = some m)
    (ht : job.ttl ≠ some 0) (h : (handleJobSuccessLoop queue now fuel self job).runConflicts k s =
      (.ok (.ok (), a), s', 0)) :
    (∃ left, left + (k + 1) = m ∧ (s'.val (.job job.id)).repeatsLeft = some left) ∨
      (s'.val (.job job.id)).status = some .finished ∨ (s'.val (.job job.id)).status = none := by
  induction m generalizing self job fuel s k with
  | zero =>
    obtain ⟨cs, hcs, rfl⟩ := runConflicts_not_repeated (by simp [hrepeats]) h
    exact .inr (status_successIn hcs _)
  | succ m ih =>
    cases fuel with
    | zero => cases h
    | succ fuel =>
      rcases self.run_attempt_repeated hrepeats ht queue s now with ⟨e, hrun⟩ |
        ⟨s₁, pipe, job', cs, hstarted, hstack, hrun, hid, httl, hleft, hcs⟩
      · obtain ⟨r, hr, hne⟩ := @loop_error s s now self job queue fuel k e hrun
        rw [hr] at h
        exact absurd (Prod.mk.inj h).1 (hne a)
      · have hwatched : (pipe.buffer cs).watched ≠ [] := by simpa using hstarted.watched
        cases k with
        | zero =>
          rw [loop_commit hrun hwatched (by simpa [Pipeline.unchanged] using hstarted.unchanged)]
            at h
          obtain rfl := (Prod.mk.inj (Prod.mk.inj h).2).1
          exact .inl ⟨m, rfl, by simpa [hstack] using (hcs s₁).1⟩
        | succ k =>
          rw [loop_conflict hrun hwatched] at h
          rcases ih hleft (by rwa [httl]) h with ⟨left, hsum, hleft'⟩ | hend
          · exact .inl ⟨left, by omega, by rwa [hid] at hleft'⟩
          · exact .inr (by rwa [hid] at hend)

lemma loop_of_handleJobSuccess {k : ℕ} {r : Worker × Job}
    (h : (self.handleJobSuccess job queue now fuel).runConflicts k s = (.ok r, s', 0)) :
    ∃ a, (handleJobSuccessLoop queue now fuel self job).runConflicts k s =
      (.ok (.ok (), a), s', 0) := by
  unfold handleJobSuccess at h
  rw [runConflicts_bind] at h
  rcases hloop : (handleJobSuccessLoop queue now fuel self job).runConflicts k s with
    ⟨e | ⟨e | _, a⟩, s₁, n⟩
  · rw [hloop] at h
    cases h
  · rw [hloop] at h
    cases h
  · rw [hloop] at h
    cases h
    exact ⟨a, rfl⟩

/-- **When the conflicts leave no trace.** -/
theorem handleJobSuccess_idempotent_iff {k : ℕ} {execution : Execution} {r : Worker × Job}
    (hexecution : self.execution = some execution) (hid : execution.jobId = job.id)
    (ht : job.ttl ≠ some 0)
    (h : (self.handleJobSuccess job queue now fuel).runConflicts k s = (.ok r, s', 0)) :
    s'.val = ((self.handleJobSuccess job queue now fuel).run s).2.val ↔
      k = 0 ∨ (job.repeatsLeft.getD 0 = 0 ∧
        Traceless job (job.getResultTtl self.defaultResultTtl) execution.id s now) := by
  cases k with
  | zero =>
    rw [runConflicts_zero] at h
    obtain rfl := (Prod.mk.inj (Prod.mk.inj h).2).1
    simp
  | succ k =>
    obtain ⟨a, hloop⟩ := loop_of_handleJobSuccess h
    have hrun : ((self.handleJobSuccess job queue now fuel).run s).2 =
        ((handleJobSuccessLoop queue now fuel self job).runConflicts 0 s).2.1 := by
      rw [runConflicts_zero]
      unfold handleJobSuccess
      rw [run_bind]
      rcases (handleJobSuccessLoop queue now fuel self job).run s with ⟨e | ⟨e | _, _⟩, t⟩ <;> rfl
    rw [hrun]
    have hne : ¬k + 1 = 0 := by omega
    simp only [hne, false_or]
    cases fuel with
    | zero => cases hloop
    | succ fuel =>
      by_cases hrepeats : job.repeatsLeft.getD 0 = 0
      · obtain ⟨cs', hcs', rfl⟩ := runConflicts_not_repeated hrepeats hloop
        have hself : self.executing (some execution) = self := by
          rw [← hexecution]
          rfl
        obtain ⟨cs, hcs⟩ : ∃ cs, (self.executing (some execution)).successIn job queue s now =
            .ok cs := by
          obtain ⟨before, cleaning, -, -, hsuccess⟩ :=
            @successIn_ok s now self job queue none cs' hcs'
          exact ⟨_, hsuccess (some execution)⟩
        obtain ⟨b, hcommit⟩ :=
          @loop_commits s now self job queue fuel cs hrepeats (by rw [← hself, hcs])
        rw [hcommit]
        exact (val_transaction_iff hid hcs hcs').trans (and_iff_right hrepeats).symm
      · obtain ⟨m, hm⟩ := exists_repeatsLeft hrepeats
        refine iff_of_false (fun heq => ?_) fun hno => hrepeats hno.1
        have hhash := congrFun heq (.job job.id)
        rcases self.run_attempt_repeated hm ht queue s now with ⟨e, herror⟩ |
          ⟨s₁, pipe, job', cs, hstarted, hstack, hattempt, -, -, -, hcs⟩
        · obtain ⟨r, hr, hne⟩ := @loop_error s s now self job queue fuel (k + 1) e herror
          rw [hr] at hloop
          exact absurd (Prod.mk.inj hloop).1 (hne a)
        · have hwatched : (pipe.buffer cs).watched ≠ [] := by simpa using hstarted.watched
          rw [loop_commit hattempt hwatched
            (by simpa [Pipeline.unchanged] using hstarted.unchanged)] at hhash
          simp only [Pipeline.buffer_commandStack, hstack, List.nil_append] at hhash
          obtain ⟨hleft, hstatus⟩ := hcs s₁
          rw [← hhash] at hleft hstatus
          rcases runConflicts_repeated hm ht hloop with ⟨left, hsum, hleft'⟩ | hend
          · have : left = m := Option.some.inj (hleft'.symm.trans hleft)
            omega
          · rcases hend with hend | hend <;> rcases hstatus with hstatus | hstatus <;>
              cases hend.symm.trans hstatus

/-! ### A conflict that leaves a trace -/

/-- A job whose work horse has just returned. -/
def returnedJob : Job :=
  { id := "job", origin := "default", status := .started, startedAt := some 1, endedAt := some 5 }

/-- The work horse that executes it. -/
def returnedWorker : Worker :=
  { name := "worker", queues := ["default"], execution := some ⟨"execution", "job", 0, 0⟩ }

/-- A job that waits for it. -/
def waitingDependent : Job :=
  { id := "dependent", data := "call", origin := "default", status := .deferred,
    dependencyIds := ["job"] }

/-- The database when the work horse of `job` returns. -/
def returnedStore (job : Job) : Store :=
  (do let _ ← job.save none
      let _ ← waitingDependent.save none
      let _ ← waitingDependent.registerDependency none 0
      returnedWorker.prepareExecution job "execution" 0 : Redis Worker).run Store.empty |>.2

/-- The same job when its result is not kept. -/
def forgottenJob : Job := { returnedJob with resultTtl := some 0 }

/-- The job is deleted, and its execution with it, after a conflict as without one; its dependent is
enqueued once. -/
theorem handleJobSuccess_idempotent_iff_forgotten : ∃ r s',
    (returnedWorker.handleJobSuccess forgottenJob { name := "default" } 7 2).runConflicts 1
      (returnedStore forgottenJob) = (.ok r, s', 0) ∧
    s'.val = ((returnedWorker.handleJobSuccess forgottenJob { name := "default" } 7 2).run
      (returnedStore forgottenJob)).2.val ∧
    s'.val (.list (queueKey "default")) = ["dependent"] := by
  have hlisted : "execution" ∈ ((returnedStore forgottenJob).val
      (.executions "job")).removeRange (0 : ℤ) (7 : ℤ) := by decide
  refine ⟨_, _, rfl, ?_, by decide⟩
  exact (@handleJobSuccess_idempotent_iff (returnedStore forgottenJob) _ 7 returnedWorker
    forgottenJob { name := "default" } 2 1 ⟨"execution", "job", 0, 0⟩ _ rfl rfl (by decide) rfl).mpr
    (.inr ⟨rfl, .inl ⟨rfl, .inl hlisted⟩⟩)

/-- After one conflict the execution is never deleted, and the result does not name it. The key a
heartbeat writes is watched, since the dependent is enqueued. -/
theorem conflict_leaves_execution :
    (∃ self job pipe s₁, (returnedWorker.handleJobSuccessAttempt returnedJob
      { name := "default" } 7).run (returnedStore returnedJob) = (.ok (self, job, some pipe), s₁) ∧
      Key.job "job" ∈ pipe.watched.map Prod.fst) ∧
    ∃ r s',
      (returnedWorker.handleJobSuccess returnedJob { name := "default" } 7 2).runConflicts 1
        (returnedStore returnedJob) = (.ok r, s', 0) ∧
      s'.val ≠ ((returnedWorker.handleJobSuccess returnedJob { name := "default" } 7 2).run
        (returnedStore returnedJob)).2.val := by
  refine ⟨⟨_, _, _, _, rfl, by decide⟩, _, _, rfl, fun h => ?_⟩
  exact absurd (congrFun h (.execution "job" "execution")) (by decide)

end Worker

end RedisQueue
