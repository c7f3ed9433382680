import RedisQueue.Enqueueing
import RedisQueue.FailureTheorems

/-!
# Jobs of synchronous queues

`Queue.run_sync` ends a job in the process of the caller.

* `run_runSync`: no other hash is touched, and the job is not queued afterwards.
-/

namespace RedisQueue

open Prog

variable {id : JobId} {now : Time} {s s' t : Store}

/-! ## Commands that end a job -/

/-- The command touches no other hash, and does not queue the job. -/
structure Settling (id : JobId) (c : Command Key Value) : Prop where
  others : ∀ id', id' ≠ id → c.Keeps (.job id')
  status : ∀ s, (s.val (.job id)).status ≠ some .queued →
    ((c.run s).val (.job id)).status ≠ some .queued

/-- The job has been ended between the two stores. -/
structure Ended (id : JobId) (s s' : Store) : Prop where
  others : ∀ id', id' ≠ id → s'.val (.job id') = s.val (.job id')
  status : (s'.val (.job id)).status ≠ some .queued

/-- No hash of a job has been touched. -/
def Unmoved (s s' : Store) : Prop := ∀ id, s'.val (.job id) = s.val (.job id)

lemma settling_of_keeps {c : Command Key Value} (h : ∀ id', c.Keeps (.job id')) :
    Settling id c :=
  ⟨fun id' _ => h id', fun s hs => by rwa [h id s]⟩

lemma settling_hset {m : JobHash} (hm : m.status ≠ some .queued) : Settling id (hset id m) := by
  refine ⟨fun id' hne => Command.keeps_write (by simpa using hne), fun s hs => ?_⟩
  rw [val_hset, Function.update_self]
  show (m.status <|> (s.val (.job id)).status) ≠ some .queued
  cases hstatus : m.status with
  | none => exact hs
  | some status =>
    rw [hstatus] at hm
    exact hm

lemma settling_deletionCommand {job : Job} {c : Command Key Value}
    (hc : Job.DeletionCommand job c) : Settling job.id c := by
  cases hc with
  | side k hk f =>
    refine settling_of_keeps fun id' => Command.keeps_alter ?_
    rintro rfl
    exact hk
  | leave name p _ => exact settling_of_keeps fun id' => Command.keeps_alter (by simp)
  | hash =>
    refine ⟨fun id' hne s => ?_, fun s _ => ?_⟩
    · simp [hne]
    · simp [default, instInhabitedJobHash.default]

lemma settling_failureCommand {job : Job} {c : Command Key Value}
    (hc : Job.FailureCommand job c) : Settling job.id c := by
  cases hc with
  | delete _ hc => exact settling_deletionCommand hc
  | expire k t => exact settling_of_keeps fun id' => Command.keeps_expire
  | register score => exact settling_of_keeps fun id' => Command.keeps_alter (by simp)
  | record f => exact settling_of_keeps fun id' => Command.keeps_write (by simp)
  | keep => exact settling_of_keeps fun id' => Command.keeps_persist
  | discard ttl now =>
    refine settling_of_keeps fun id' => ?_
    unfold expire
    split
    · exact Command.keeps_del (by simp)
    · exact Command.keeps_expire

/-- A transaction that begins with a status. -/
lemma ended_of_settling {status : JobStatus} (hstatus : status ≠ .queued)
    {cs : List (Command Key Value)} (hcs : ∀ c ∈ cs, Settling id c) (h : Unmoved s t) :
    Ended id s ((Command.seq (hset id { status := some status } :: cs)).run t) := by
  have hhead : Settling id (hset id { status := some status }) :=
    settling_hset (by simpa using hstatus)
  have hall : ∀ c ∈ hset id { status := some status } :: cs, Settling id c :=
    List.forall_mem_cons.mpr ⟨hhead, hcs⟩
  refine ⟨fun id' hne => ?_, ?_⟩
  · have hkeeps : (Command.seq (hset id { status := some status } :: cs)).Keeps (.job id') :=
      Command.keeps_seq fun c hc => (hall c hc).others id' hne
    rw [hkeeps, h]
  · rw [Command.seq_cons_run]
    refine Command.seq_preserves (P := fun s => (s.val (.job id)).status ≠ some .queued)
      (fun c hc => (hcs c hc).status) ?_
    simpa [JobHash.update] using hstatus

lemma unmoved_of_trimmed (h : Job.Trimmed id now s s') : Unmoved s s' := by
  rcases h with rfl | rfl
  · exact fun _ => rfl
  · exact fun id => by simp [ExecutionRegistry.cleanup]

lemma Unmoved.trans {u : Store} (h : Unmoved s t) (h' : Unmoved t u) : Unmoved s u := fun id =>
  (h' id).trans (h id)

/-! ## The run of a job -/

namespace Queue
variable {code : SyncCode} {job : Job}

/-- What `_handle_success` puts into a pipeline. -/
lemma handleSuccess_buffer {resultTtl : ℤ} (job : Job) :
    ∃ cs, (∀ c ∈ cs, Settling job.id c) ∧
      job._handleSuccess resultTtl (some {}) {} now =
        .ret ({ job with status := .finished },
          some (Pipeline.buffer {} (hset job.id { status := some .finished } :: cs))) := by
  have hresult : ∀ c ∈ Job.resultCommands job.id
      (Job.makeResult .successful job.result none {}) (some resultTtl) now, Settling job.id c :=
    fun c hc => settling_failureCommand (Job.failureCommand_of_mem_resultCommands hc)
  have hsave : Settling job.id
      (hset job.id (({ job with status := .finished } : Job).toDict false)) :=
    settling_hset (by simp [Job.toDict])
  by_cases h0 : resultTtl = 0
  · refine ⟨hset job.id (({ job with status := .finished } : Job).toDict false) ::
      Job.resultCommands job.id (Job.makeResult .successful job.result none {}) (some resultTtl)
        now, List.forall_mem_cons.mpr ⟨hsave, hresult⟩, ?_⟩
    simp [Job._handleSuccess, Job.setStatus_buffer, Job.save_buffer, Job.createResult_buffer, h0]
  · refine ⟨hset job.id (({ job with status := .finished } : Job).toDict false) ::
      (Job.resultCommands job.id (Job.makeResult .successful job.result none {}) (some resultTtl)
        now ++ [zadd .finished job.origin job.id (registryScore resultTtl now)]), ?_, ?_⟩
    · refine List.forall_mem_cons.mpr ⟨hsave, fun c hc => ?_⟩
      rcases List.mem_append.mp hc with hc | hc
      · exact hresult c hc
      · obtain rfl := List.mem_singleton.mp hc
        exact settling_of_keeps fun id' => Command.keeps_alter (by simp)
    · simp [Job._handleSuccess, Job.setStatus_buffer, Job.save_buffer, Job.createResult_buffer, h0,
        Client.command_buffer]

lemma settling_of_cleanupIn {ttl : Option ℤ} {removeFromQueue : Bool}
    {cs : List (Command Key Value)} (h : job.cleanupIn s ttl removeFromQueue now = .ok cs) :
    ∀ c ∈ cs, Settling job.id c := by
  intro c hc
  unfold Job.cleanupIn at h
  split at h
  · exact settling_deletionCommand (Job.deletionCommand_of_mem h hc)
  · cases h
    unfold cleanupCommands at hc
    split at hc
    · simp only [List.mem_cons, List.not_mem_nil, or_false] at hc
      rcases hc with rfl | rfl | rfl <;>
        exact settling_of_keeps fun id' => Command.keeps_expire
    · simp at hc

/-- `Queue.run_job` ends the job, or leaves it to the caller. -/
lemma run_runJob {r : Except PyError Unit} {job' : Job}
    (h : (runJob code job now).run s = (.ok (r, job'), s')) :
    job'.id = job.id ∧ ((∃ e, r = .error e) → Unmoved s s') ∧ (r = .ok () → Ended job.id s s') := by
  have hpersist : Unmoved s ((Command.persist (.job job.id)).run s) := fun id => by simp
  unfold runJob at h
  rw [Prog.run_bind_ok (Prog.run_perform _ _)] at h
  generalize (Command.persist (.job job.id)).run s = s₀ at h hpersist
  cases hperform : code.perform job.id with
  | error e =>
    rw [hperform] at h
    cases h
    exact ⟨rfl, fun _ => hpersist, nofun⟩
  | ok value =>
    rw [hperform] at h
    obtain ⟨r', s₁, hattempt, h⟩ := Prog.run_bind_eq_ok h
    generalize hjob : ({ job with result := value, endedAt := some now } : Job) = ended
      at hattempt h
    have hid : ended.id = job.id := by rw [← hjob]
    obtain ⟨cs, hcs, hbuffer⟩ := @handleSuccess_buffer now
      (ended.getResultTtl defaultResultTtl) ended
    -- the clean-up reads what the deletion of the job needs
    obtain ⟨s₂, htrim, -, hclean⟩ := @Job.run_cleanup
      (Pipeline.buffer {} (hset ended.id { status := some .finished } :: cs)) (by simp)
      { ended with status := .finished } s₀ (some (ended.getResultTtl defaultResultTtl)) true now
    have hmoved : Unmoved s s₂ := hpersist.trans (unmoved_of_trimmed htrim)
    unfold attempting catching at hattempt
    rw [Prog.run_tryCatch, hbuffer, Prog.ret_bind] at hattempt
    dsimp only at hattempt
    cases hin : ({ ended with status := .finished } : Job).cleanupIn s₀
        (some (ended.getResultTtl defaultResultTtl)) true now with
    | error e =>
      rw [Prog.run_bind_error (Prog.run_bind_error (by rw [hclean, hin]; rfl))] at hattempt
      dsimp only at hattempt
      split at hattempt
      · cases hattempt
      · cases hattempt
        cases h
        exact ⟨hid, fun _ => hmoved, nofun⟩
    | ok cleaning =>
      rw [Prog.run_bind_ok (by
        rw [Prog.run_bind_ok (by rw [hclean, hin]; rfl)]
        simp only [Option.getD_some]
        rw [Pipeline.execute_of_unwatched rfl (by simp), Prog.exec_bind, Prog.run_exec, if_pos rfl]
        rfl)] at hattempt
      cases hattempt
      cases h
      refine ⟨hid, nofun, fun _ => ?_⟩
      have hall : ∀ c ∈ cs ++ cleaning, Settling ended.id c := fun c hc =>
        (List.mem_append.mp hc).elim (hcs c) (settling_of_cleanupIn hin c)
      rw [← hid]
      exact ended_of_settling (show JobStatus.finished ≠ .queued by decide) hall hmoved

lemma run_raising {e : Option String} {job' : Job}
    (h : (raising e job).run s = (.ok job', s')) : s' = s := by
  cases e with
  | none =>
    cases h
    rfl
  | some e => cases h

/-- **A synchronous run ends its job.** -/
theorem run_runSync {job' : Job} (h : (runSync code job now).run s = (.ok job', s')) :
    Ended job.id s s' := by
  unfold runSync at h
  obtain ⟨⟨prepared, client⟩, s₀, hprepare, h⟩ := Prog.run_bind_eq_ok h
  have hprepared : prepared.id = job.id ∧ s₀ = s := by
    cases hprepare
    exact ⟨rfl, rfl⟩
  obtain ⟨⟨r, ran⟩, s₁, hrun, h⟩ := Prog.run_bind_eq_ok h
  obtain ⟨hid, hfailed, hfinished⟩ := run_runJob hrun
  rw [hprepared.1] at hid hfinished
  rw [hprepared.2] at hfailed hfinished
  cases r with
  | ok u =>
    have hs' : s' = s₁ := run_raising h
    rw [hs']
    exact hfinished rfl
  | error e =>
    obtain ⟨⟨failed, client⟩, s₂, hstatus, h⟩ := Prog.run_bind_eq_ok h
    rw [Job.setStatus_buffer Pipeline.immediate_empty] at hstatus
    cases hstatus
    obtain ⟨pipeline, s₃, hfailure, h⟩ := Prog.run_bind_eq_ok h
    obtain ⟨s₄, htrim, hspec⟩ := @Job.run_handleFailure
      (Pipeline.buffer {} [hset ran.id { status := some .failed }]) (by simp)
      { ran with status := .failed } s₁ (Worker.excText e) {} now
    rw [hspec] at hfailure
    cases hin : ({ ran with status := .failed } : Job).failureIn s₁ (Worker.excText e) {} now with
    | error e =>
      rw [hin] at hfailure
      cases hfailure
    | ok cs =>
      rw [hin] at hfailure
      cases hfailure
      obtain ⟨rest, rfl, hrest, -⟩ := Job.failureIn_ok hin
      obtain ⟨committed, s₅, hexecute, h⟩ := Prog.run_bind_eq_ok h
      have hs' : s' = s₅ := run_raising h
      simp only [Option.getD_some] at hexecute
      rw [Pipeline.execute_of_unwatched rfl (by simp), Prog.run_exec, if_pos rfl] at hexecute
      cases hexecute
      have hall : ∀ c ∈ hset ran.id (({ ran with status := .failed } : Job).toDict false) :: rest,
          Settling ran.id c :=
        List.forall_mem_cons.mpr ⟨settling_hset (by simp [Job.toDict]), fun c hc =>
          @settling_failureCommand { ran with status := .failed } c (hrest c hc)⟩
      rw [hs', ← hid]
      exact ended_of_settling (show JobStatus.failed ≠ .queued by decide) hall
        ((hfailed ⟨e, rfl⟩).trans (unmoved_of_trimmed htrim))

end Queue

end RedisQueue
