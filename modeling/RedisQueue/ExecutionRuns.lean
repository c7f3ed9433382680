import RedisQueue.DeletionTheorems

/-!
# Runs of the operations on execution records

The parent of a work horse creates an execution and sends heartbeats for it, the work horse deletes
it, and time passes.

* `readable_after_iff`: what one of these does to the records;
* `neverFails_iff_timely`: in which runs the records can always be read.
-/

namespace RedisQueue

/-! ## Events -/

/-- A time to live of an execution. -/
abbrev PositiveTtl := {ttl : ℤ // 0 < ttl}

/-- What happens to execution records. -/
inductive ExecutionEvent where
  | create (job : Job) (ttl : PositiveTtl) (id : ExecutionId)
  | heartbeat (execution : Execution) (name : QueueName) (ttl : PositiveTtl)
  | delete (execution : Execution) (job : Job)
  | pass (seconds : ℕ)

/-- The pipeline of an operation is executed. -/
def ExecutionEvent.program (now : Time) : ExecutionEvent → Redis Unit
  | .create job ttl id => do
    let (_, pipeline) ← Execution.create job ttl (some {}) id now
    let _ ← (pipeline.getD {}).execute
    return ()
  | .heartbeat execution name ttl => do
    let (_, pipeline) ← execution.heartbeat name ttl (some {}) now
    let _ ← (pipeline.getD {}).execute
    return ()
  | .delete execution job => do
    let pipeline ← execution.delete job (some {})
    let _ ← (pipeline.getD {}).execute
    return ()
  | .pass _ => return ()

/-- The store at some time. -/
structure Moment where
  store : Store
  now : Time

namespace Moment

def after (m : Moment) : ExecutionEvent → Moment
  | .pass seconds => ⟨m.store.expireAt (m.now + seconds), m.now + seconds⟩
  | event => ⟨((event.program m.now).run m.store).2, m.now⟩

/-- The moments of a run. -/
def moments (m : Moment) : List ExecutionEvent → List Moment
  | [] => [m]
  | event :: events => m :: (m.after event).moments events

/-- A heartbeat finds the hash of its execution, and the time that passes does not end between the
expiry of a hash and the expiry of its entry in the registry of executions. -/
def Timely (m : Moment) : ExecutionEvent → Prop
  | .create _ _ _ => True
  | .heartbeat execution _ _ =>
    (m.store.val (.execution execution.jobId execution.id)).createdAt.isSome
  | .delete _ _ => True
  | .pass seconds => ∀ id, ¬m.store.Expired (m.now + seconds) (.executions id) →
      ∀ eid ∈ (m.store.val (.executions id)).removeRange (0 : ℤ) (m.now + seconds : ℤ),
        ¬m.store.Expired (m.now + seconds) (.execution id eid)

def TimelyRun (m : Moment) : List ExecutionEvent → Prop
  | [] => True
  | event :: events => m.Timely event ∧ (m.after event).TimelyRun events

/-- The executions of every job can be read. -/
def Readable (m : Moment) : Prop := ∀ id, ExecutionsReadable m.now m.store id

/-! ## One event -/

section Values
variable {m : Moment} {job : Job} {execution : Execution} {id : ExecutionId} {ttl : PositiveTtl}
  {name : QueueName} {k : Key}

lemma expire_positive (k : Key) (now : Time) {t : ℤ} (h : 0 < t) :
    expire k t now = .expire k (now + t) :=
  if_neg (by omega)

/-- What is written to another key in between does not matter. -/
lemma update_update_of_ne {f : (k : Key) → Value k} {k' k'' : Key} {v : Value k'} {w : Value k''}
    (hk : k ≠ k') : Function.update (Function.update f k' v) k'' w k = Function.update f k'' w k := by
  by_cases hk' : k = k''
  · subst hk'
    rw [Function.update_self, Function.update_self]
  · rw [Function.update_of_ne hk', Function.update_of_ne hk', Function.update_of_ne hk]

lemma val_create (hk : ∀ name, k ≠ .wip name) :
    (m.after (.create job ttl id)).store.val k =
      Function.update (Function.update m.store.val (.execution job.id id) ⟨some m.now, some m.now⟩)
        (.executions job.id) ((m.store.val (.executions job.id)).add id
          ((m.now + ttl + 60 : ℤ) : Score)) k := by
  have httl := ttl.property
  have hlist : 0 < ttl.val + 60 := by omega
  simp [after, ExecutionEvent.program, Execution.create, ExecutionRegistry.add,
    Client.command_buffer, Pipeline.execute_of_unwatched, Prog.run_exec, expire_positive, httl,
    hlist, addExecution, hk]

lemma val_heartbeat (hk : ∀ name, k ≠ .wip name) :
    (m.after (.heartbeat execution name ttl)).store.val k =
      Function.update (Function.update m.store.val (.execution execution.jobId execution.id)
          { m.store.val (.execution execution.jobId execution.id) with
            lastHeartbeat := some m.now })
        (.executions execution.jobId) ((m.store.val (.executions execution.jobId)).add execution.id
          ((m.now + ttl + 60 : ℤ) : Score)) k := by
  have httl := ttl.property
  have hlist : 0 < ttl.val + 60 := by omega
  simp [after, ExecutionEvent.program, Execution.heartbeat, ExecutionRegistry.add,
    Client.command_buffer, Pipeline.execute_of_unwatched, Prog.run_exec, expire_positive, httl,
    hlist, addExecution, update_update_of_ne (hk name)]

lemma val_delete (hk : ∀ name, k ≠ .wip name) :
    (m.after (.delete execution job)).store.val k =
      Function.update (Function.update m.store.val (.execution execution.jobId execution.id) default)
        (.executions execution.jobId)
        ((m.store.val (.executions execution.jobId)).remove execution.id) k := by
  simp [after, ExecutionEvent.program, Execution.delete, ExecutionRegistry.remove,
    Client.command_buffer, Pipeline.execute_of_unwatched, Prog.run_exec, removeExecution,
    update_update_of_ne (hk job.origin)]

end Values

/-- The entry an execution gets lies in the future. -/
lemma inRange_future {α : Type} (a : α) (now : ℤ) (ttl : PositiveTtl) :
    ZSet.inRange ((0 : ℤ) : Score) ((now : ℤ) : Score) (a, ((now + ttl + 60 : ℤ) : Score)) =
      false := by
  have httl : 0 < ttl.val := ttl.property
  have hlt : now < now + ttl.val + 60 := by omega
  have hlater : ¬((now + ttl + 60 : ℤ) : Score) ≤ ((now : ℤ) : Score) := fun hle =>
    Int.not_le.mpr hlt (WithTop.coe_le_coe.mp hle)
  simp only [ZSet.inRange, hlater, decide_false, Bool.and_false]

/-- The hash of an execution can be read. -/
def Complete (h : ExecutionHash) : Prop := h.createdAt.isSome ∧ h.lastHeartbeat.isSome

/-- After a new entry for an execution the others are as readable as before. -/
lemma readable_of_added (m m' : Moment) {jobId : JobId} {eid : ExecutionId} {h : ExecutionHash}
    {ttl : PositiveTtl} (hnow : m'.now = m.now)
    (hval : ∀ k, (∀ name, k ≠ .wip name) → m'.store.val k =
      Function.update (Function.update m.store.val (.execution jobId eid) h)
        (.executions jobId) ((m.store.val (.executions jobId)).add eid
          ((m.now + ttl + 60 : ℤ) : Score)) k)
    (hm : m.Readable) : m'.Readable ↔ Complete h := by
  have hentry := inRange_future eid m.now ttl
  constructor
  · intro hm'
    have hlisted : eid ∈ (m'.store.val (.executions jobId)).removeRange ((0 : ℤ) : Score)
        ((m'.now : ℤ) : Score) := by
      rw [hval _ (by simp), Function.update_self, hnow, ZSet.mem_removeRange_add]
      exact .inl ⟨rfl, hentry⟩
    have hread := hm' jobId eid hlisted
    rw [hval _ (by simp), Function.update_of_ne (by simp), Function.update_self] at hread
    exact hread
  · intro hcomplete id eid' hlisted
    rw [hval _ (by simp), hnow] at hlisted
    rw [hval _ (by simp), Function.update_of_ne (by simp)]
    by_cases hid : id = jobId
    · subst hid
      rw [Function.update_self, ZSet.mem_removeRange_add] at hlisted
      rcases hlisted with ⟨rfl, -⟩ | ⟨hne, hlisted⟩
      · rw [Function.update_self]
        exact hcomplete
      · rw [Function.update_of_ne (by simpa using hne)]
        exact hm _ _ hlisted
    · rw [Function.update_of_ne (by simpa using hid)] at hlisted
      rw [Function.update_of_ne (by simp [hid])]
      exact hm _ _ hlisted

lemma readable_of_deleted {m : Moment} {execution : Execution} {job : Job} (hm : m.Readable) :
    (m.after (.delete execution job)).Readable := by
  intro id eid hlisted
  rw [val_delete (by simp)] at hlisted
  rw [val_delete (by simp), Function.update_of_ne (by simp)]
  by_cases hid : id = execution.jobId
  · subst hid
    rw [Function.update_self, ZSet.mem_removeRange_remove] at hlisted
    obtain ⟨hlisted, hne⟩ := hlisted
    rw [Function.update_of_ne (by simpa using hne)]
    exact hm _ _ hlisted
  · rw [Function.update_of_ne (by simpa using hid)] at hlisted
    rw [Function.update_of_ne (by simp [hid])]
    exact hm _ _ hlisted

/-- What can be read after `seconds`. -/
lemma readable_of_passed {m : Moment} (seconds : ℕ) (hm : m.Readable) :
    (m.after (.pass seconds)).Readable ↔ m.Timely (.pass seconds) := by
  have hlater : ((m.now : ℤ) : Score) ≤ ((m.now + seconds : ℤ) : Score) :=
    WithTop.coe_le_coe.mpr (Int.le_add_of_nonneg_right (Int.natCast_nonneg seconds))
  have hval : ∀ k, (m.after (.pass seconds)).store.val k =
      if m.store.Expired (m.now + seconds) k then default else m.store.val k := fun _ => rfl
  constructor
  · intro hm' id hid eid hlisted hexpired
    have hread := hm' id eid (by rw [hval, if_neg hid]; exact hlisted)
    rw [hval, if_pos hexpired] at hread
    cases hread.1
  · intro htimely id eid hlisted
    rw [hval] at hlisted ⊢
    by_cases hid : m.store.Expired (m.now + seconds) (.executions id)
    · rw [if_pos hid, ZSet.mem_removeRange] at hlisted
      obtain ⟨_, hmem, _⟩ := hlisted
      cases hmem
    · rw [if_neg hid] at hlisted
      rw [if_neg (htimely id hid eid hlisted)]
      exact hm id eid (ZSet.mem_of_mem_removeRange hlater hlisted)

/-- **One event.** -/
theorem readable_after_iff {m : Moment} (event : ExecutionEvent) (hm : m.Readable) :
    (m.after event).Readable ↔ m.Timely event := by
  cases event with
  | create job ttl id =>
    have hadded : (m.after (.create job ttl id)).Readable ↔ Complete ⟨some m.now, some m.now⟩ :=
      readable_of_added m _ rfl (fun k hk => val_create hk) hm
    exact ⟨fun _ => trivial, fun _ => hadded.mpr ⟨rfl, rfl⟩⟩
  | heartbeat execution name ttl =>
    have hadded : (m.after (.heartbeat execution name ttl)).Readable ↔
        Complete { m.store.val (.execution execution.jobId execution.id) with
          lastHeartbeat := some m.now } :=
      readable_of_added m _ rfl (fun k hk => val_heartbeat hk) hm
    exact hadded.trans ⟨fun h => h.1, fun h => ⟨h, rfl⟩⟩
  | delete execution job => exact ⟨fun _ => trivial, fun _ => readable_of_deleted hm⟩
  | pass seconds => exact readable_of_passed seconds hm

/-! ## What cannot fail -/

section NeverFails
variable {s : Store} {now : Time}

lemma command_ok (client : Client) (c : Command Key Value) (s : Store) :
    ∃ client' s', (client.command c).run s = (.ok client', s') := by
  cases client with
  | none => exact ⟨_, _, rfl⟩
  | some pipe =>
    cases himmediate : pipe.immediate with
    | false => exact ⟨_, _, by rw [Client.command_buffer himmediate, Prog.run_ret]⟩
    | true =>
      refine ⟨some pipe, c.run s, ?_⟩
      simp [Client.command, Pipeline.command, himmediate, Prog.run_bind]

lemma deleteAll_ok (job : Job) (executions : List Execution) (client : Client) (s : Store) :
    ∃ client' s', (ExecutionRegistry.deleteAll job executions client).run s =
      (.ok client', s') := by
  induction executions generalizing client s with
  | nil => exact ⟨_, _, rfl⟩
  | cons execution executions ih =>
    unfold ExecutionRegistry.deleteAll Execution.delete
    obtain ⟨client₁, s₁, h₁⟩ := command_ok client (.del (.execution execution.jobId execution.id)) s
    obtain ⟨client₂, s₂, h₂⟩ := command_ok client₁ (removeExecution job.origin execution) s₁
    obtain ⟨client₃, s₃, h₃⟩ := command_ok client₂ (ExecutionRegistry.remove execution) s₂
    obtain ⟨client', s', h'⟩ := ih client₃ s₃
    refine ⟨client', s', ?_⟩
    rw [Prog.run_bind_ok (by rw [Prog.run_bind_ok h₁, Prog.run_bind_ok h₂, h₃]), h']

lemma removeExecutions_ok {job : Job} (h : ExecutionsReadable now s job.id) (client : Client) :
    ∃ r, ((removeExecutions job client now).run s).1 = .ok r := by
  obtain ⟨executions, hin⟩ := (executionsIn_ok_iff s job.id now).mpr h
  unfold removeExecutions
  rw [Prog.run_bind_ok (by rw [ExecutionRegistry.run_getExecutions, hin])]
  by_cases hnil : executions = []
  · rw [if_pos hnil]
    exact ⟨client, rfl⟩
  · rw [if_neg hnil]
    obtain ⟨client', s', hrun⟩ := command_ok client _ _
    exact ⟨client', by rw [hrun]⟩

lemma registryDelete_ok {job : Job} (h : ExecutionsReadable now s job.id) (client : Client) :
    ∃ r, ((ExecutionRegistry.delete job client now).run s).1 = .ok r := by
  obtain ⟨executions, hin⟩ := (executionsIn_ok_iff s job.id now).mpr h
  unfold ExecutionRegistry.delete
  obtain ⟨client₁, s₁, h₁⟩ :=
    deleteAll_ok job executions client ((ExecutionRegistry.cleanup job.id now).run s)
  obtain ⟨client₂, s₂, h₂⟩ := command_ok client₁ (.del (.executions job.id)) s₁
  refine ⟨client₂, ?_⟩
  rw [Prog.run_bind_ok (by rw [ExecutionRegistry.run_getExecutions, hin]), Prog.run_bind_ok h₁, h₂]

/-- A deletion fails for other reasons only. -/
lemma delete_ok {job : Job} (h : ExecutionsReadable now s job.id)
    (hstatus : (s.val (.job job.id)).status.isSome)
    (hgroup : ∀ g, job.groupId = some g → (s.val (.group g)).elems ≠ []) :
    ∃ r, ((job.delete none true now).run s).1 = .ok r := by
  obtain ⟨executions, hexec⟩ := (executionsIn_ok_iff s job.id now).mpr h
  obtain ⟨leaving, hleave⟩ := leaveIn_ok hstatus ⟨_, hexec⟩
  obtain ⟨group, hgroupIn⟩ := (groupIn_ok_iff s job).mpr hgroup
  obtain ⟨_, -, hrun⟩ := Job.run_delete_ok hleave hexec hgroupIn
  exact ⟨_, by rw [hrun]⟩

/-- One iteration of the cancellation of a job that has been started. -/
lemma run_cancelAttempt {job : Job} (h : ExecutionsReadable now s job.id)
    (hstatus : (s.val (.job job.id)).status = some .started) (fuel : ℕ) :
    ∃ job' cs s', cs ≠ [] ∧ (job.cancelAttempt none (some {}) false false now fuel).run s =
      (.ok (job', some (Pipeline.buffer {} cs)), s') := by
  obtain ⟨leaving, hleave⟩ := @leaveIn_ok now s { job with status := .canceled }
    (by simp [hstatus]) ((executionsIn_ok_iff s job.id now).mpr h)
  have himmediate : (Pipeline.buffer ({} : Pipeline Key Value)
      ([hset job.id { status := some .canceled }] ++
        [lrem (queueKey job.origin) job.id])).immediate = false := rfl
  obtain ⟨s', -, hrun⟩ :=
    Job.run_leaveRegistry himmediate { job with status := .canceled } s now
  rw [hleave] at hrun
  refine ⟨Job.refreshed { job with status := .canceled } s, [hset job.id { status := some .canceled },
    lrem (queueKey job.origin) job.id] ++ leaving ++
      [zadd .canceled job.origin job.id (registryScore 0 now)], s', by simp, ?_⟩
  unfold Job.cancelAttempt Job._removeFromRegistries
  simp only [Job.setStatus_buffer Pipeline.immediate_empty, Prog.ret_bind, Bool.false_eq_true,
    if_false, if_true, Prog.pure_eq, Client.command_buffer, Pipeline.immediate_buffer,
    Pipeline.immediate_empty, Pipeline.buffer_buffer]
  rw [Prog.run_bind_ok hrun]
  rw [Prog.run_bind_ok (by rw [Client.command_buffer rfl, Prog.run_ret]), Prog.run_ret]
  simp

/-- A job that has been started can be canceled. -/
lemma cancel_ok {job : Job} (h : ExecutionsReadable now s job.id)
    (hstatus : (s.val (.job job.id)).status = some .started) (fuel : ℕ) :
    ∃ r, ((job.cancel none false false now (fuel + 1)).run s).1 = .ok r := by
  have hnot := Job.run_isStatus_of hstatus job rfl .canceled
  obtain ⟨job', cs, s', hcs, hattempt⟩ :=
    @run_cancelAttempt s now { job with status := .started } h hstatus fuel
  have hexecute : ((Pipeline.buffer {} cs).execute : Redis Bool).run s' =
      (.ok true, (Command.seq cs).run s') := by
    rw [Pipeline.execute_of_unwatched rfl (by simpa [Pipeline.buffer] using hcs), Prog.run_exec]
    rfl
  have hloop : (Job.cancelLoop false false now (fuel + 1) { job with status := .started }).run s =
      (.ok job', (Command.seq cs).run s') := by
    unfold Job.cancelLoop
    rw [Prog.run_bind_ok hattempt]
    exact Prog.run_bind_ok hexecute
  refine ⟨(job', none), ?_⟩
  unfold Job.cancel
  rw [Prog.run_bind_ok hnot]
  simp only [show (JobStatus.started == JobStatus.canceled) = false from rfl, Bool.false_eq_true,
    if_false]
  rw [Prog.run_bind_ok hloop]
  rfl

end NeverFails

/-- What can be relied on when the executions can be read. -/
structure NeverFails (m : Moment) : Prop where
  /-- Every id that `get_execution_ids` returns has a complete hash. -/
  ids : ∀ id eids s, (ExecutionRegistry.getExecutionIds id m.now).run m.store = (.ok eids, s) →
    ∀ eid ∈ eids, Complete (s.val (.execution id eid))
  getExecutions : ∀ id, ∃ executions,
    ((ExecutionRegistry.getExecutions id m.now).run m.store).1 = .ok executions
  /-- The part of `Job.cancel` that reads executions. -/
  removeExecutions : ∀ job client, ∃ r,
    ((removeExecutions job client m.now).run m.store).1 = .ok r
  cancel : ∀ (job : Job) (fuel : ℕ), (m.store.val (.job job.id)).status = some .started →
    ∃ r, ((job.cancel none false false m.now (fuel + 1)).run m.store).1 = .ok r
  /-- The part of `Job.delete` that reads executions. -/
  registryDelete : ∀ job client, ∃ r,
    ((ExecutionRegistry.delete job client m.now).run m.store).1 = .ok r
  delete : ∀ job : Job, (m.store.val (.job job.id)).status.isSome →
    (∀ g, job.groupId = some g → (m.store.val (.group g)).elems ≠ []) →
    ∃ r, ((job.delete none true m.now).run m.store).1 = .ok r

lemma neverFails_iff (m : Moment) : m.NeverFails ↔ m.Readable := by
  have hids : ∀ id, (ExecutionRegistry.getExecutionIds id m.now).run m.store =
      (.ok (((m.store.val (.executions id)).removeRange (0 : ℤ) m.now).ordered (· ≤ ·)),
        (ExecutionRegistry.cleanup id m.now).run m.store) := fun id => by
    unfold ExecutionRegistry.getExecutionIds
    rw [Prog.run_bind_ok (Prog.run_perform _ _), Prog.run_read]
    simp [ExecutionRegistry.cleanup]
  have hhash : ∀ id eid, ((ExecutionRegistry.cleanup id m.now).run m.store).val
      (.execution id eid) = m.store.val (.execution id eid) := fun id eid =>
    Command.keeps_alter (by simp) _
  constructor
  · intro h id eid heid
    have hcomplete := h.ids id _ _ (hids id) eid (ZSet.mem_ordered.mpr heid)
    rw [hhash] at hcomplete
    exact hcomplete
  · intro h
    refine ⟨fun id eids s hrun eid heid => ?_, fun id => ?_,
      fun job client => removeExecutions_ok (h job.id) client,
      fun job fuel hstatus => cancel_ok (h job.id) hstatus fuel,
      fun job client => registryDelete_ok (h job.id) client,
      fun job hstatus hgroup => delete_ok (h job.id) hstatus hgroup⟩
    · rw [hids] at hrun
      cases hrun
      rw [hhash]
      exact h id eid (ZSet.mem_ordered.mp heid)
    · obtain ⟨executions, hin⟩ := (executionsIn_ok_iff m.store id m.now).mpr (h id)
      exact ⟨executions, by rw [ExecutionRegistry.run_getExecutions, hin]⟩

/-! ## Runs -/

lemma readable_moments_iff {m : Moment} (events : List ExecutionEvent) (hm : m.Readable) :
    (∀ m' ∈ m.moments events, m'.Readable) ↔ m.TimelyRun events := by
  induction events generalizing m with
  | nil => simpa [moments, TimelyRun] using hm
  | cons event events ih =>
    have hevent := readable_after_iff event hm
    simp only [moments, TimelyRun, List.forall_mem_cons, hm, true_and]
    by_cases htimely : m.Timely event
    · rw [ih (hevent.mpr htimely), and_iff_right htimely]
    · refine iff_of_false (fun h => htimely (hevent.mp (h _ ?_))) fun h => htimely h.1
      cases events <;> simp [moments]

/-- **In which runs the execution records can always be read.** -/
theorem neverFails_iff_timely {m : Moment} (hm : m.NeverFails) (events : List ExecutionEvent) :
    (∀ m' ∈ m.moments events, m'.NeverFails) ↔ m.TimelyRun events := by
  simp only [neverFails_iff] at hm ⊢
  exact readable_moments_iff events hm

/-! ### A heartbeat that comes too late -/

/-- An execution. -/
def endedExecution : Execution := ⟨"execution", "job", 0, 0⟩

/-- The parent has created it. -/
def startedMoment : Moment :=
  (⟨Store.empty, 0⟩ : Moment).after (.create { id := "job" } ⟨90, by decide⟩ "execution")

lemma neverFails_startedMoment : startedMoment.NeverFails := by
  rw [neverFails_iff]
  refine (readable_after_iff _ ?_).mpr trivial
  intro id eid hlisted
  cases hlisted

/-- The execution is the only one that is listed. -/
def ListsAtMost (m : Moment) (execution : Execution) : Prop :=
  ∀ id, ∀ eid ∈ m.store.val (.executions id), id = execution.jobId ∧ eid = execution.id

section ListsAtMost
variable {m : Moment} {execution : Execution}

lemma listsAtMost_of_added {m' : Moment} {h : ExecutionHash} {score : Score}
    (hval : ∀ k, (∀ name, k ≠ .wip name) → m'.store.val k =
      Function.update (Function.update m.store.val (.execution execution.jobId execution.id) h)
        (.executions execution.jobId)
        ((m.store.val (.executions execution.jobId)).add execution.id score) k)
    (hm : m.ListsAtMost execution) : m'.ListsAtMost execution := by
  intro id eid hlisted
  rw [hval _ (by simp)] at hlisted
  by_cases hid : id = execution.jobId
  · subst hid
    rw [Function.update_self, ZSet.mem_add] at hlisted
    exact hlisted.elim (hm _ eid) fun heq => ⟨rfl, heq⟩
  · rw [Function.update_of_ne (by simpa using hid), Function.update_of_ne (by simp)] at hlisted
    exact hm id eid hlisted

lemma listsAtMost_pass (h : m.ListsAtMost execution) (seconds : ℕ) :
    (m.after (.pass seconds)).ListsAtMost execution := by
  intro id eid hlisted
  have hval : (m.after (.pass seconds)).store.val (.executions id) =
      if m.store.Expired (m.now + seconds) (.executions id) then default
      else m.store.val (.executions id) := rfl
  rw [hval] at hlisted
  split at hlisted
  · cases hlisted
  · exact h id eid hlisted

/-- After its deletion none is listed. -/
lemma notMem_delete {job : Job} (h : m.ListsAtMost execution) (id : JobId) (eid : ExecutionId) :
    eid ∉ (m.after (.delete execution job)).store.val (.executions id) := by
  intro hlisted
  rw [val_delete (by simp)] at hlisted
  by_cases hid : id = execution.jobId
  · subst hid
    rw [Function.update_self, ZSet.mem_remove] at hlisted
    exact hlisted.2 (h _ eid hlisted.1).2
  · rw [Function.update_of_ne (by simpa using hid), Function.update_of_ne (by simp)] at hlisted
    exact hid (h id eid hlisted).1

end ListsAtMost

/-- A heartbeat in time, half a minute, and the deletion by the work horse. -/
def endingEvents : List ExecutionEvent :=
  [.heartbeat endedExecution "default" ⟨90, by decide⟩, .pass 30,
    .delete endedExecution { id := "job" }, .pass 100]

lemma timelyRun_endingEvents : startedMoment.TimelyRun endingEvents := by
  have hstarted : startedMoment.ListsAtMost endedExecution :=
    listsAtMost_of_added (fun k hk => val_create hk) fun id eid hlisted => by cases hlisted
  have hbeat : (startedMoment.after
      (.heartbeat endedExecution "default" ⟨90, by decide⟩)).ListsAtMost endedExecution :=
    listsAtMost_of_added (fun k hk => val_heartbeat hk) hstarted
  refine ⟨rfl, fun id _ eid hlisted => ?_, trivial, fun id _ eid hlisted => ?_, trivial⟩
  · obtain ⟨score, hmem, -⟩ := ZSet.mem_removeRange.mp hlisted
    obtain ⟨rfl, rfl⟩ := hbeat id eid (ZSet.mem_iff_exists.mpr ⟨score, hmem⟩)
    decide
  · obtain ⟨score, hmem, -⟩ := ZSet.mem_removeRange.mp hlisted
    exact absurd (ZSet.mem_iff_exists.mpr ⟨score, hmem⟩)
      (notMem_delete (listsAtMost_pass hbeat 30) id eid)

/-- The records can be read at every moment of the run. -/
theorem neverFails_iff_timely_endingEvents :
    startedMoment.TimelyRun endingEvents ∧ ∀ m ∈ startedMoment.moments endingEvents, m.NeverFails :=
  ⟨timelyRun_endingEvents,
    (neverFails_iff_timely neverFails_startedMoment _).mpr timelyRun_endingEvents⟩

/-- The work horse deletes the execution before the heartbeat of its parent arrives. -/
def lateHeartbeat : List ExecutionEvent :=
  [.delete endedExecution { id := "job" }, .heartbeat endedExecution "default" ⟨90, by decide⟩]

theorem late_heartbeat_fails : ∃ m ∈ startedMoment.moments lateHeartbeat,
    ((ExecutionRegistry.getExecutions "job" m.now).run m.store).1 =
      .error (.keyError "created_at") :=
  ⟨_, .tail _ (.tail _ (.head _)), rfl⟩

end Moment
end RedisQueue
