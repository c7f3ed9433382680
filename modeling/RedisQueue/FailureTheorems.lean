import RedisQueue.Commands

/-!
# The end of a job, alone

What the deletion, the failure and the retry of a job read and write when no other process runs
meanwhile.

* `Job.run_delete`: the deletion of a job (`Job.deletionIn`);
* `Job.run_handleFailure`: the failure of a job (`Job.failureIn`);
* `Job.run_retry`: a retry (`Job.retryNow`, `Job.retryLater`).
-/

namespace RedisQueue

/-! ## Executions -/

/-- The outcome of `Execution.fetch` in the store `s`. -/
def Execution.readIn (s : Store) (jobId : JobId) (id : ExecutionId) : Except PyError Execution :=
  if s.val (.execution jobId id) = default then
    .error (.valueError s!"Execution {id} not found in Redis")
  else match (s.val (.execution jobId id)).createdAt,
      (s.val (.execution jobId id)).lastHeartbeat with
    | some createdAt, some lastHeartbeat => .ok ⟨id, jobId, createdAt, lastHeartbeat⟩
    | none, _ => .error (.keyError "created_at")
    | some _, none => .error (.keyError "last_heartbeat")

lemma Execution.run_fetch (s : Store) (jobId : JobId) (id : ExecutionId) :
    (Execution.fetch id jobId).run s = (Execution.readIn s jobId id, s) := by
  unfold Execution.fetch Execution.readIn
  rw [Prog.run_bind_ok (Prog.run_read _ _)]
  by_cases h : s.val (.execution jobId id) = default
  · rw [if_pos h, if_pos h]
    rfl
  · rw [if_neg h, if_neg h]
    cases (s.val (.execution jobId id)).createdAt with
    | none => rfl
    | some createdAt =>
      cases (s.val (.execution jobId id)).lastHeartbeat with
      | none => rfl
      | some lastHeartbeat => rfl

namespace ExecutionRegistry

/-- The outcome of fetching the executions `ids` in the store `s`. -/
def readAllIn (s : Store) (jobId : JobId) : List ExecutionId → Except PyError (List Execution)
  | [] => .ok []
  | id :: ids =>
    match Execution.readIn s jobId id with
    | .error e => .error e
    | .ok execution => (readAllIn s jobId ids).map fun executions => execution :: executions

lemma run_fetchAll (s : Store) (jobId : JobId) (ids : List ExecutionId) :
    (fetchAll jobId ids).run s = (readAllIn s jobId ids, s) := by
  induction ids with
  | nil => rfl
  | cons id ids ih =>
    simp only [fetchAll, readAllIn]
    cases hid : Execution.readIn s jobId id with
    | error e => rw [Prog.run_bind_error (by rw [Execution.run_fetch, hid])]
    | ok execution =>
      rw [Prog.run_bind_ok (by rw [Execution.run_fetch, hid])]
      cases hids : readAllIn s jobId ids with
      | error e =>
        rw [Prog.run_bind_error (by rw [ih, hids])]
        rfl
      | ok executions =>
        rw [Prog.run_bind_ok (by rw [ih, hids])]
        rfl

/-- The outcome of `ExecutionRegistry.get_executions` in the store `s`. -/
def executionsIn (s : Store) (jobId : JobId) (now : Time) : Except PyError (List Execution) :=
  readAllIn s jobId
    (((s.val (.executions jobId)).removeRange (0 : ℤ) now).ordered (· ≤ ·))

lemma readAllIn_congr {s s' : Store} {jobId : JobId}
    (h : ∀ id, s'.val (.execution jobId id) = s.val (.execution jobId id))
    (ids : List ExecutionId) : readAllIn s' jobId ids = readAllIn s jobId ids := by
  induction ids with
  | nil => rfl
  | cons id ids ih => simp only [readAllIn, Execution.readIn, h, ih]

lemma readAllIn_cleanup (s : Store) (jobId : JobId) (now : Time) (ids : List ExecutionId) :
    readAllIn ((cleanup jobId now).run s) jobId ids = readAllIn s jobId ids :=
  readAllIn_congr (fun id => by simp [cleanup]) ids

lemma run_getExecutions (s : Store) (jobId : JobId) (now : Time) :
    (getExecutions jobId now).run s = (executionsIn s jobId now, (cleanup jobId now).run s) := by
  simp only [getExecutions, getExecutionIds, bind_assoc]
  rw [Prog.run_bind_ok (Prog.run_perform _ _), Prog.run_bind_ok (Prog.run_read _ _), run_fetchAll]
  rw [readAllIn_cleanup]
  simp [executionsIn, cleanup]

lemma executionsIn_cleanup (s : Store) (jobId : JobId) (now : Time) :
    executionsIn ((cleanup jobId now).run s) jobId now = executionsIn s jobId now := by
  rw [executionsIn, readAllIn_cleanup]
  simp [executionsIn, cleanup]

end ExecutionRegistry

/-! ## Deletion -/

/-- What `Execution.delete` adds to a pipeline. -/
def Execution.deleteCommands (self : Execution) (job : Job) :
    List (Command Key Value) :=
  [.del (.execution self.jobId self.id), removeExecution job.origin self,
    ExecutionRegistry.remove self]

lemma Execution.delete_buffer {pipe : Pipeline Key Value} (h : pipe.immediate = false)
    (self : Execution)
    (job : Job) : self.delete job (some pipe) =
      .ret (some (pipe.buffer (self.deleteCommands job))) := by
  simp [Execution.delete, Execution.deleteCommands, Client.command_buffer, h]

lemma ExecutionRegistry.deleteAll_buffer {pipe : Pipeline Key Value} (h : pipe.immediate = false)
    (job : Job) (executions : List Execution) :
    ExecutionRegistry.deleteAll job executions (some pipe) =
      .ret (some (pipe.buffer (executions.flatMap fun e => e.deleteCommands job))) := by
  induction executions generalizing pipe with
  | nil => simp [deleteAll]
  | cons execution executions ih =>
    have hrest := fun cs : List (Command Key Value) => @ih (pipe.buffer cs) (by simpa using h)
    simp [deleteAll, Execution.delete_buffer h, hrest]

namespace Job

/-- What `Job._remove_from_registries` adds to a pipeline for a job whose stored status is `status`
and whose executions are `executions`. -/
def registryCommands (self : Job) (executions : List Execution) :
    JobStatus → List (Command Key Value)
  | .finished => [zrem .finished self.origin self.id]
  | .deferred => [zrem .deferred self.origin self.id]
  | .started => if executions = [] then [] else [.alter (.wip self.origin) fun z =>
      z.removeAll (executions.map fun e => (e.jobId, e.id))]
  | .scheduled => [zrem .scheduled self.origin self.id]
  | .failed => [zrem .failed self.origin self.id]
  | .stopped => [zrem .failed self.origin self.id]
  | .canceled => [zrem .canceled self.origin self.id]
  | .created => []
  | .queued => []

def unqueueCommands (self : Job) (removeFromQueue : Bool) : List (Command Key Value) :=
  if removeFromQueue then [lrem (queueKey self.origin) self.id] else []

variable {pipe : Pipeline Key Value}

lemma run_isStatus (self : Job) (status : JobStatus) (s : Store) :
    (self.isStatus status).run s =
      match (s.val (.job self.id)).status with
      | none => (.error (.invalidJobOperation s!"Failed to retrieve status for job: {self.id}"), s)
      | some current => (.ok (current == status, { self with status := current }), s) := by
  simp only [isStatus, Prog.run_bind, run_getStatus, statusIn, if_true]
  cases (s.val (.job self.id)).status <;> rfl

lemma run_isStatus_of {id : JobId} {s : Store} {current : JobStatus}
    (hs : (s.val (.job id)).status = some current) (job : Job) (hid : job.id = id)
    (status : JobStatus) :
    (job.isStatus status).run s = (.ok (current == status, { job with status := current }), s) := by
  rw [run_isStatus, hid, hs]

/-- The object once it has the stored status. -/
def refreshed (self : Job) (s : Store) : Job :=
  { self with status := ((s.val (.job self.id)).status).getD self.status }

@[simp] lemma refreshed_id (self : Job) (s : Store) : (self.refreshed s).id = self.id := rfl

@[simp] lemma refreshed_origin (self : Job) (s : Store) :
    (self.refreshed s).origin = self.origin := rfl

@[simp] lemma deleteCommands_refreshed (execution : Execution) (self : Job) (s : Store) :
    execution.deleteCommands (self.refreshed s) = execution.deleteCommands self := rfl

@[simp] lemma refreshed_groupId (self : Job) (s : Store) :
    (self.refreshed s).groupId = self.groupId := rfl

/-- The outcome of `leaveRegistry` in the store `s`: the commands it adds. -/
def leaveIn (self : Job) (s : Store) (now : Time) : Except PyError (List (Command Key Value)) :=
  match (s.val (.job self.id)).status with
  | none => .error (.invalidJobOperation s!"Failed to retrieve status for job: {self.id}")
  | some .started => (ExecutionRegistry.executionsIn s self.id now).map fun executions =>
      self.registryCommands executions .started
  | some status => .ok (self.registryCommands [] status)

/-- A store in which the expired executions of a job may have been removed. -/
def Trimmed (id : JobId) (now : Time) (s s' : Store) : Prop :=
  s' = s ∨ s' = (ExecutionRegistry.cleanup id now).run s

lemma Trimmed.cleanup {id : JobId} {now : Time} {s s' : Store} (h : Trimmed id now s s') :
    (ExecutionRegistry.cleanup id now).run s' = (ExecutionRegistry.cleanup id now).run s := by
  rcases h with rfl | rfl
  · rfl
  · simp only [ExecutionRegistry.cleanup]
    generalize hs' : (Command.alter (.executions id) fun z : ZSet ExecutionId =>
      z.removeRange (0 : ℤ) now).run s = s'
    have hval : s'.val (.executions id) = (s.val (.executions id)).removeRange (0 : ℤ) now := by
      simp [← hs']
    simp [Command.alter, hval]

lemma Trimmed.trans {id : JobId} {now : Time} {s t u : Store} (h : Trimmed id now s t)
    (h' : Trimmed id now t u) : Trimmed id now s u := by
  rcases h' with rfl | rfl
  · exact h
  · exact .inr h.cleanup

/-- Nothing but the registry of executions of the job has changed. -/
lemma Trimmed.val {id : JobId} {now : Time} {s s' : Store} (h : Trimmed id now s s') {k : Key}
    (hk : k ≠ .executions id) : s'.val k = s.val k := by
  rcases h with rfl | rfl
  · rfl
  · simp [ExecutionRegistry.cleanup, hk]

lemma Trimmed.executionsIn {id : JobId} {now : Time} {s s' : Store} (h : Trimmed id now s s') :
    ExecutionRegistry.executionsIn s' id now = ExecutionRegistry.executionsIn s id now := by
  rcases h with rfl | rfl
  · rfl
  · exact ExecutionRegistry.executionsIn_cleanup s id now

lemma run_leaveRegistry (h : pipe.immediate = false) (self : Job) (s : Store) (now : Time) :
    ∃ s', Trimmed self.id now s s' ∧ (self.leaveRegistry (some pipe) now).run s =
      ((self.leaveIn s now).map fun cs => (self.refreshed s, some (pipe.buffer cs)), s') := by
  unfold leaveRegistry leaveIn refreshed
  cases hstatus : (s.val (.job self.id)).status with
  | none =>
    refine ⟨s, .inl rfl, ?_⟩
    rw [Prog.run_bind_error (by rw [run_isStatus, hstatus])]
    rfl
  | some status =>
    have htest := run_isStatus_of hstatus
    cases status with
    | started =>
      refine ⟨_, .inr rfl, ?_⟩
      have hremove : (removeExecutions { self with status := .started } (some pipe) now).run s =
          ((ExecutionRegistry.executionsIn s self.id now).map fun executions =>
            some (pipe.buffer (self.registryCommands executions .started)),
            (ExecutionRegistry.cleanup self.id now).run s) := by
        unfold removeExecutions
        cases hin : ExecutionRegistry.executionsIn s self.id now with
        | error e =>
          rw [Prog.run_bind_error (by rw [ExecutionRegistry.run_getExecutions, hin])]
          rfl
        | ok executions =>
          rw [Prog.run_bind_ok (by rw [ExecutionRegistry.run_getExecutions, hin])]
          by_cases hnil : executions = []
          · simp [hnil, registryCommands, Except.map]
          · simp [hnil, registryCommands, Except.map, Client.command_buffer h]
      simp [Prog.run_bind, htest, hremove]
      cases ExecutionRegistry.executionsIn s self.id now <;> rfl
    | _ =>
      refine ⟨s, .inl rfl, ?_⟩
      simp [Prog.run_bind, htest, isFailedOrStopped, leave, Client.command_buffer h, Except.map,
        registryCommands]

/-- The group of the job, if it has one, is there. -/
def groupIn (self : Job) (s : Store) : Except PyError (List (Command Key Value)) :=
  match self.groupId with
  | none => .ok []
  | some groupId =>
    if (s.val (.group groupId)).elems = [] then .error .noSuchGroupError
    else .ok [.alter (.group groupId) fun g => g.erase self.id]

/-- The outcome of `Job.delete` in the store `s`: the commands it adds to a pipeline. -/
def deletionIn (self : Job) (s : Store) (removeFromQueue : Bool) (now : Time) :
    Except PyError (List (Command Key Value)) := do
  let leaving ← self.leaveIn s now
  let executions ← ExecutionRegistry.executionsIn s self.id now
  let group ← self.groupIn s
  return self.unqueueCommands removeFromQueue ++ leaving ++
    (executions.flatMap fun e => e.deleteCommands self) ++ [.del (.executions self.id)] ++ group ++
    [.seq [.del (.job self.id), .del (.dependents self.id), .del (.dependencies self.id)]]

lemma run_removeFromRegistries (h : pipe.immediate = false) (self : Job) (s : Store)
    (removeFromQueue : Bool) (now : Time) : ∃ s', Trimmed self.id now s s' ∧
      (self._removeFromRegistries (some pipe) removeFromQueue now).run s =
        ((self.leaveIn s now).map fun cs => (self.refreshed s,
          some (pipe.buffer (self.unqueueCommands removeFromQueue ++ cs))), s') := by
  have hpipe : (pipe.buffer (self.unqueueCommands removeFromQueue)).immediate = false := by
    simpa using h
  obtain ⟨s', htrim, hrun⟩ := run_leaveRegistry hpipe self s now
  refine ⟨s', htrim, ?_⟩
  have hleave : self._removeFromRegistries (some pipe) removeFromQueue now =
      self.leaveRegistry (some (pipe.buffer (self.unqueueCommands removeFromQueue))) now := by
    cases removeFromQueue <;>
      simp [_removeFromRegistries, unqueueCommands, Client.command_buffer h]
  rw [hleave, hrun]
  simp

lemma run_deleteExecutions (h : pipe.immediate = false) (self : Job) (s : Store) (now : Time) :
    (ExecutionRegistry.delete self (some pipe) now).run s =
      ((ExecutionRegistry.executionsIn s self.id now).map fun executions => some (pipe.buffer
        ((executions.flatMap fun e => e.deleteCommands self) ++ [.del (.executions self.id)])),
        (ExecutionRegistry.cleanup self.id now).run s) := by
  unfold ExecutionRegistry.delete
  cases hin : ExecutionRegistry.executionsIn s self.id now with
  | error e =>
    rw [Prog.run_bind_error (by rw [ExecutionRegistry.run_getExecutions, hin])]
    rfl
  | ok executions =>
    rw [Prog.run_bind_ok (by rw [ExecutionRegistry.run_getExecutions, hin])]
    simp [ExecutionRegistry.deleteAll_buffer h, Client.command_buffer, h, Except.map]

lemma run_leaveGroup (h : pipe.immediate = false) (self : Job) (groupId : String) (s : Store) :
    (self.leaveGroup groupId (some pipe)).run s =
      (if (s.val (.group groupId)).elems = [] then .error .noSuchGroupError
        else .ok (some (pipe.buffer [.alter (.group groupId) fun g => g.erase self.id])), s) := by
  unfold leaveGroup
  rw [Prog.run_bind_ok (Prog.run_read _ _)]
  by_cases hnil : (s.val (.group groupId)).elems = [] <;> simp [hnil, Client.command_buffer h]

/-- **The deletion of a job, alone.** -/
theorem run_delete (h : pipe.immediate = false) (self : Job) (s : Store) (removeFromQueue : Bool)
    (now : Time) : ∃ s', Trimmed self.id now s s' ∧
      (∀ cs, self.deletionIn s removeFromQueue now = .ok cs →
        s' = (ExecutionRegistry.cleanup self.id now).run s) ∧
      (self.delete (some pipe) removeFromQueue now).run s =
        ((self.deletionIn s removeFromQueue now).map fun cs =>
          (self.refreshed s, some (pipe.buffer cs)), s') := by
  obtain ⟨s₁, htrim, hrun⟩ := run_removeFromRegistries h self s removeFromQueue now
  unfold delete deletionIn
  cases hleave : self.leaveIn s now with
  | error e =>
    refine ⟨s₁, htrim, nofun, ?_⟩
    rw [Prog.run_bind_error (by rw [hrun, hleave]; rfl)]
    rfl
  | ok leaving =>
    rw [Prog.run_bind_ok (by rw [hrun, hleave]; rfl)]
    refine ⟨(ExecutionRegistry.cleanup self.id now).run s, .inr rfl, fun _ _ => rfl, ?_⟩
    have hdelete := @run_deleteExecutions
      (pipe.buffer (self.unqueueCommands removeFromQueue ++ leaving)) (by simpa using h)
      (self.refreshed s) s₁ now
    rw [refreshed_id, htrim.executionsIn, htrim.cleanup] at hdelete
    cases hin : ExecutionRegistry.executionsIn s self.id now with
    | error e =>
      rw [Prog.run_bind_error (by rw [hdelete, hin]; rfl)]
      rfl
    | ok executions =>
      rw [Prog.run_bind_ok (by rw [hdelete, hin]; rfl)]
      have hgroup : ∀ groupId, ((ExecutionRegistry.cleanup self.id now).run s).val (.group groupId)
          = s.val (.group groupId) := fun groupId => by simp [ExecutionRegistry.cleanup]
      unfold groupIn
      rw [refreshed_groupId]
      cases self.groupId with
      | none => simp [Except.map, Client.command_buffer, h, Except.ok_bind]
      | some groupId =>
        have hrun := @run_leaveGroup (pipe.buffer (self.unqueueCommands removeFromQueue ++
          leaving ++ ((executions.flatMap fun e => e.deleteCommands (self.refreshed s)) ++
            [.del (.executions self.id)]))) (by simpa using h) (self.refreshed s) groupId
          ((ExecutionRegistry.cleanup self.id now).run s)
        rw [hgroup] at hrun
        by_cases hnil : (s.val (.group groupId)).elems = []
        · rw [if_pos hnil] at hrun
          simp only [Pipeline.buffer_buffer, hnil, if_true]
          rw [Prog.run_bind_error hrun]
          rfl
        · rw [if_neg hnil] at hrun
          simp only [Pipeline.buffer_buffer, hnil, if_false]
          rw [Prog.run_bind_ok hrun]
          simp [Except.map, Client.command_buffer, h, Except.ok_bind]

/-! ## The commands of a deletion -/

/-- The keys of a job apart from its hash, its entries in `rq:wip` and its dependencies. -/
def Side : Key → Prop
  | .list _ | .registry _ _ | .execution _ _ | .executions _ | .group _ => True
  | _ => False

/-- The commands of `Job.delete`. -/
inductive DeletionCommand (self : Job) : Command Key Value → Prop where
  | side (k : Key) (hk : Side k) (f : Value k → Value k) : DeletionCommand self (.alter k f)
  | leave (name : QueueName) (p : (JobId × ExecutionId) × Score → Bool)
      (hp : ∀ e, e.1.1 ≠ self.id → p e = true) :
      DeletionCommand self (.alter (.wip name) fun z => z.filter p)
  | hash : DeletionCommand self
      (.seq [.del (.job self.id), .del (.dependents self.id), .del (.dependencies self.id)])

lemma readIn_ok {s : Store} {id : JobId} {eid : ExecutionId} {execution : Execution}
    (h : Execution.readIn s id eid = .ok execution) :
    execution.jobId = id ∧ execution.id = eid := by
  unfold Execution.readIn at h
  split at h
  · cases h
  · split at h <;> cases h
    exact ⟨rfl, rfl⟩

lemma readAllIn_ok {s : Store} {id : JobId} {eids : List ExecutionId}
    {executions : List Execution} (h : ExecutionRegistry.readAllIn s id eids = .ok executions) :
    (∀ e ∈ executions, e.jobId = id) ∧ executions.map Execution.id = eids := by
  induction eids generalizing executions with
  | nil =>
    cases h
    simp
  | cons eid eids ih =>
    simp only [ExecutionRegistry.readAllIn] at h
    split at h
    · cases h
    · next execution hread =>
      obtain ⟨hjob, hid⟩ := readIn_ok hread
      cases hrest : ExecutionRegistry.readAllIn s id eids with
      | error e =>
        rw [hrest] at h
        cases h
      | ok rest =>
        rw [hrest] at h
        cases h
        obtain ⟨hjobs, hids⟩ := ih hrest
        exact ⟨List.forall_mem_cons.mpr ⟨hjob, hjobs⟩, by rw [List.map_cons, hid, hids]⟩

lemma deletionCommand_of_mem_registryCommands {self : Job} {executions : List Execution}
    (he : ∀ e ∈ executions, e.jobId = self.id) {status : JobStatus} {c : Command Key Value}
    (hc : c ∈ self.registryCommands executions status) : DeletionCommand self c := by
  cases status with
  | started =>
    simp only [registryCommands] at hc
    split at hc
    · simp at hc
    · obtain rfl := List.mem_singleton.mp hc
      simp only [ZSet.removeAll]
      refine .leave self.origin _ fun e hne => ?_
      simp only [decide_eq_true_eq, List.mem_map, not_exists, not_and]
      intro x hx heq
      exact hne (by rw [← heq]; exact he x hx)
  | created => simp [registryCommands] at hc
  | queued => simp [registryCommands] at hc
  | _ =>
    obtain rfl := List.mem_singleton.mp hc
    exact .side (.registry _ _) trivial _

lemma deletionCommand_of_mem_deleteCommands {self : Job} {execution : Execution}
    (he : execution.jobId = self.id) {c : Command Key Value}
    (hc : c ∈ execution.deleteCommands self) : DeletionCommand self c := by
  simp only [Execution.deleteCommands, List.mem_cons, List.not_mem_nil, or_false] at hc
  rcases hc with rfl | rfl | rfl
  · exact .side (.execution _ _) trivial _
  · simp only [removeExecution, ZSet.remove]
    refine .leave self.origin _ fun e hne => ?_
    rw [decide_eq_true_iff]
    exact fun heq => hne (by rw [heq, he])
  · exact .side (.executions _) trivial _

/-- The parts of a deletion. -/
lemma deletionIn_ok {self : Job} {s : Store} {removeFromQueue : Bool} {now : Time}
    {cs : List (Command Key Value)} (h : self.deletionIn s removeFromQueue now = .ok cs) :
    ∃ leaving executions group, self.leaveIn s now = .ok leaving ∧
      ExecutionRegistry.executionsIn s self.id now = .ok executions ∧
      self.groupIn s = .ok group ∧
      cs = self.unqueueCommands removeFromQueue ++ leaving ++
        (executions.flatMap fun e => e.deleteCommands self) ++ [.del (.executions self.id)] ++
        group ++ [.seq [.del (.job self.id), .del (.dependents self.id),
          .del (.dependencies self.id)]] := by
  unfold deletionIn at h
  cases hleave : self.leaveIn s now with
  | error e => rw [hleave] at h; cases h
  | ok leaving =>
    cases hexec : ExecutionRegistry.executionsIn s self.id now with
    | error e => rw [hleave, hexec] at h; cases h
    | ok executions =>
      cases hgroup : self.groupIn s with
      | error e => rw [hleave, hexec, hgroup] at h; cases h
      | ok group =>
        rw [hleave, hexec, hgroup] at h
        cases h
        exact ⟨leaving, executions, group, rfl, rfl, rfl, rfl⟩

theorem deletionCommand_of_mem {self : Job} {s : Store} {removeFromQueue : Bool} {now : Time}
    {cs : List (Command Key Value)} (h : self.deletionIn s removeFromQueue now = .ok cs)
    {c : Command Key Value} (hc : c ∈ cs) : DeletionCommand self c := by
  obtain ⟨leaving, executions, group, hleave, hexec, hgroup, rfl⟩ := deletionIn_ok h
  have hid : ∀ e ∈ executions, e.jobId = self.id := (readAllIn_ok hexec).1
  simp only [List.mem_append, List.mem_flatMap, List.mem_singleton] at hc
  rcases hc with ((((hc | hc) | ⟨e, he, hc⟩) | rfl) | hc) | rfl
  · unfold unqueueCommands at hc
    split at hc
    · obtain rfl := List.mem_singleton.mp hc
      exact .side (.list _) trivial _
    · simp at hc
  · unfold leaveIn at hleave
    split at hleave
    · cases hleave
    · rw [hexec] at hleave
      cases hleave
      exact deletionCommand_of_mem_registryCommands hid hc
    · cases hleave
      exact deletionCommand_of_mem_registryCommands (by simp) hc
  · exact deletionCommand_of_mem_deleteCommands (hid e he) hc
  · exact .side (.executions _) trivial _
  · unfold groupIn at hgroup
    split at hgroup
    · cases hgroup
      simp at hc
    · split at hgroup
      · cases hgroup
      · cases hgroup
        obtain rfl := List.mem_singleton.mp hc
        exact .side (.group _) trivial _
  · exact .hash

lemma val_deleteAll {self : Job} {executions : List Execution}
    (hid : ∀ e ∈ executions, e.jobId = self.id) (eid : ExecutionId) (u : Store) :
    (((Command.seq (executions.flatMap fun e => e.deleteCommands self)).run u).val
        (.execution self.id eid) = default ↔
      eid ∈ executions.map Execution.id ∨ u.val (.execution self.id eid) = default) ∧
    ((self.id, eid) ∈ ((Command.seq (executions.flatMap fun e => e.deleteCommands self)).run u).val
        (.wip self.origin) ↔
      (self.id, eid) ∈ u.val (.wip self.origin) ∧ eid ∉ executions.map Execution.id) := by
  induction executions generalizing u with
  | nil => simp
  | cons e rest ih =>
    obtain ⟨hexecution, hwip⟩ := ih (fun e he => hid e (List.mem_cons_of_mem _ he))
      ((Command.seq (e.deleteCommands self)).run u)
    have he : e.jobId = self.id := hid e List.mem_cons_self
    rw [List.flatMap_cons, Command.seq_append_run, hexecution, hwip]
    by_cases heq : eid = e.id
    · subst heq
      simp [Execution.deleteCommands, he, removeExecution, ExecutionRegistry.remove]
    · simp [Execution.deleteCommands, he, heq, removeExecution, ExecutionRegistry.remove]

lemma val_registryCommands {self : Job} {executions : List Execution} {status : JobStatus}
    (hid : ∀ e ∈ executions, e.jobId = self.id) (eid : ExecutionId) (u : Store) :
    ((Command.seq (self.registryCommands executions status)).run u).val (.execution self.id eid) =
      u.val (.execution self.id eid) ∧
    ((self.id, eid) ∈ ((Command.seq (self.registryCommands executions status)).run u).val
        (.wip self.origin) ∧ eid ∉ executions.map Execution.id ↔
      (self.id, eid) ∈ u.val (.wip self.origin) ∧ eid ∉ executions.map Execution.id) := by
  cases status with
  | started =>
    by_cases hnil : executions = []
    · simp [registryCommands, hnil]
    · have hmem : ((self.id, eid) ∈ executions.map fun e => (e.jobId, e.id)) ↔
          eid ∈ executions.map Execution.id := by
        simp only [List.mem_map, Prod.mk.injEq]
        exact exists_congr fun e => and_congr_right fun he => by simp [hid e he]
      simp only [registryCommands, hnil, if_false, Command.seq_cons_run, Command.seq_nil_run,
        Command.val_alter, Function.update_self, ZSet.mem_removeAll, hmem]
      exact ⟨by simp, by tauto⟩
  | _ => simp [registryCommands]

lemma val_leaving {s : Store} {now : Time} {self : Job} {cs : List (Command Key Value)}
    {executions : List Execution} (h : self.leaveIn s now = .ok cs)
    (hexec : ExecutionRegistry.executionsIn s self.id now = .ok executions) (eid : ExecutionId)
    (u : Store) :
    ((Command.seq cs).run u).val (.execution self.id eid) = u.val (.execution self.id eid) ∧
    ((self.id, eid) ∈ ((Command.seq cs).run u).val (.wip self.origin) ∧
        eid ∉ executions.map Execution.id ↔
      (self.id, eid) ∈ u.val (.wip self.origin) ∧ eid ∉ executions.map Execution.id) := by
  unfold leaveIn at h
  split at h
  · cases h
  · rw [hexec] at h
    cases h
    exact val_registryCommands (readAllIn_ok hexec).1 eid u
  · next status hstarted hstatus =>
    cases h
    obtain ⟨hkeep, hwip⟩ := @val_registryCommands self [] status (by simp) eid u
    simp only [List.map_nil, List.not_mem_nil, not_false_eq_true, and_true] at hwip
    exact ⟨hkeep, and_congr_left fun _ => hwip⟩

/-- What a deletion does to the records of an execution. -/
lemma val_deletion {s : Store} {now : Time} {self : Job} {cs : List (Command Key Value)}
    (h : self.deletionIn s false now = .ok cs) (eid : ExecutionId) (u : Store) :
    ((Command.seq cs).run u).val (.executions self.id) = default ∧
    (((Command.seq cs).run u).val (.execution self.id eid) = default ↔
      eid ∈ (s.val (.executions self.id)).removeRange (0 : ℤ) now ∨
        u.val (.execution self.id eid) = default) ∧
    ((self.id, eid) ∈ ((Command.seq cs).run u).val (.wip self.origin) ↔
      (self.id, eid) ∈ u.val (.wip self.origin) ∧
        eid ∉ (s.val (.executions self.id)).removeRange (0 : ℤ) now) := by
  obtain ⟨leaving, executions, group, hleave, hexec, hgroup, rfl⟩ := deletionIn_ok h
  have hlisted : ∀ eid, eid ∈ executions.map Execution.id ↔
      eid ∈ (s.val (.executions self.id)).removeRange (0 : ℤ) now := fun eid => by
    rw [(readAllIn_ok hexec).2, ZSet.mem_ordered]
  have hkeepGroup : ∀ k, (∀ g, k ≠ .group g) → (Command.seq group).Keeps k := fun k hk => by
    refine Command.keeps_seq fun c hc => ?_
    unfold groupIn at hgroup
    split at hgroup
    · cases hgroup
      simp at hc
    · split at hgroup
      · cases hgroup
      · cases hgroup
        obtain rfl := List.mem_singleton.mp hc
        exact Command.keeps_alter (hk _)
  have hleaving := val_leaving hleave hexec eid u
  obtain ⟨hexecution, hwip⟩ := val_deleteAll (readAllIn_ok hexec).1 eid
    ((Command.seq leaving).run u)
  have hexecutions : ∀ t : Store, ((Command.seq group).run t).val (.executions self.id) =
    t.val (.executions self.id) := hkeepGroup _ (by simp)
  have hexecution' : ∀ t : Store, ((Command.seq group).run t).val (.execution self.id eid) =
    t.val (.execution self.id eid) := hkeepGroup _ (by simp)
  have hwip' : ∀ t : Store, ((Command.seq group).run t).val (.wip self.origin) =
    t.val (.wip self.origin) := hkeepGroup _ (by simp)
  rw [hleaving.1, hlisted] at hexecution
  rw [hleaving.2, hlisted] at hwip
  simp [unqueueCommands, hexecutions, hexecution', hwip', hexecution, hwip]

/-! ## The end of an execution -/

/-- The outcome of `Job.cleanup` in the store `s`: the commands it adds to a pipeline. -/
def cleanupIn (self : Job) (s : Store) (ttl : Option ℤ) (removeFromQueue : Bool) (now : Time) :
    Except PyError (List (Command Key Value)) :=
  if ttl = some 0 then self.deletionIn s removeFromQueue now
  else .ok (cleanupCommands self.id ttl now)

/-- The store after the reads of `Job.cleanup`, once they have succeeded. -/
def readStore (s : Store) (id : JobId) (ttl : Option ℤ) (now : Time) : Store :=
  if ttl = some 0 then (ExecutionRegistry.cleanup id now).run s else s

lemma trimmed_readStore (s : Store) (id : JobId) (ttl : Option ℤ) (now : Time) :
    Trimmed id now s (readStore s id ttl now) := by
  unfold readStore
  split
  · exact .inr rfl
  · exact .inl rfl

/-- The object after `Job.cleanup`: a deletion gives it the stored status. -/
def cleaned (self : Job) (s : Store) (ttl : Option ℤ) : Job :=
  { self with status := if ttl = some 0 then (self.refreshed s).status else self.status }

@[simp] lemma cleaned_id (self : Job) (s : Store) (ttl : Option ℤ) :
    (self.cleaned s ttl).id = self.id := rfl

@[simp] lemma cleaned_origin (self : Job) (s : Store) (ttl : Option ℤ) :
    (self.cleaned s ttl).origin = self.origin := rfl

@[simp] lemma cleaned_failureTtl (self : Job) (s : Store) (ttl : Option ℤ) :
    (self.cleaned s ttl).failureTtl = self.failureTtl := rfl

@[simp] lemma cleaned_zero (self : Job) (s : Store) : self.cleaned s (some 0) = self.refreshed s :=
  rfl

lemma cleaned_of_ne (self : Job) (s : Store) {ttl : Option ℤ} (ht : ttl ≠ some 0) :
    self.cleaned s ttl = self := by
  unfold cleaned
  rw [if_neg ht]

lemma run_cleanup (h : pipe.immediate = false) (self : Job) (s : Store) (ttl : Option ℤ)
    (removeFromQueue : Bool) (now : Time) : ∃ s', Trimmed self.id now s s' ∧
      (∀ cs, self.cleanupIn s ttl removeFromQueue now = .ok cs →
        s' = readStore s self.id ttl now) ∧
      (self.cleanup ttl (some pipe) removeFromQueue now).run s =
        ((self.cleanupIn s ttl removeFromQueue now).map fun cs =>
          (self.cleaned s ttl, some (pipe.buffer cs)), s') := by
  by_cases ht : ttl = some 0
  · subst ht
    obtain ⟨s', htrim, hread, hrun⟩ := run_delete h self s removeFromQueue now
    exact ⟨s', htrim, by simpa [cleanupIn, readStore] using hread,
      by simpa [cleanup, cleanupIn] using hrun⟩
  · exact ⟨s, .inl rfl, fun _ _ => by simp [readStore, ht],
      by simp [cleanup_buffer h self ht, cleanupIn, cleaned_of_ne, ht, Except.map]⟩

/-- The score of a job in the registry of failed jobs. -/
def failedScore (ttl : ℤ) (now : Time) : Score :=
  if ttl < 0 then (ttl : ℤ) else ((now + ttl : ℤ) : Score)

/-- The outcome of `FailedJobRegistry.add` in the store `s`. -/
def addToFailedIn (self : Job) (s : Store) (ttl : Option ℤ) (now : Time) :
    Except PyError (List (Command Key Value)) :=
  (self.cleanupIn s (some (ttl.getD defaultFailureTtl)) true now).map fun cs =>
    [hset self.id (self.toDict false)] ++ cs ++
      [zadd .failed self.origin self.id (failedScore (ttl.getD defaultFailureTtl) now)]

lemma getD_defaultFailureTtl {ttl : Option ℤ} :
    (some (ttl.getD defaultFailureTtl) = some 0) ↔ ttl = some 0 := by
  cases ttl with
  | none => simp [defaultFailureTtl]
  | some ttl => simp

lemma cleaned_getD (self : Job) (s : Store) (ttl : Option ℤ) :
    self.cleaned s (some (ttl.getD defaultFailureTtl)) = self.cleaned s ttl := by
  unfold cleaned
  simp only [getD_defaultFailureTtl]

lemma run_addToFailed (h : pipe.immediate = false) (self : Job) (s : Store) (ttl : Option ℤ)
    (now : Time) : ∃ s', Trimmed self.id now s s' ∧
      (self.addToFailed ttl (some pipe) now).run s =
        ((self.addToFailedIn s ttl now).map fun cs =>
          (self.cleaned s ttl, some (pipe.buffer cs)), s') := by
  obtain ⟨s', htrim, -, hrun⟩ := @run_cleanup
    (pipe.buffer [hset self.id (self.toDict false)]) (by simpa using h) self s
    (some (ttl.getD defaultFailureTtl)) true now
  refine ⟨s', htrim, ?_⟩
  simp only [addToFailed, addToFailedIn, save_buffer h, Prog.ret_bind]
  cases hin : self.cleanupIn s (some (ttl.getD defaultFailureTtl)) true now with
  | error e =>
    rw [Prog.run_bind_error (by rw [hrun, hin]; rfl)]
    rfl
  | ok cs =>
    rw [Prog.run_bind_ok (by rw [hrun, hin]; rfl)]
    simp [Client.command_buffer, h, Except.map, failedScore, cleaned_getD]

/-- The commands of `Result.save`. -/
def resultCommands (jobId : JobId) (result : Result) (ttl : Option ℤ) (now : Time) :
    List (Command Key Value) :=
  .write (.results jobId) (fun rs => rs ++ [result]) ::
    match ttl with
    | none => []
    | some ttl => if ttl = -1 then [.persist (.results jobId)] else [expire (.results jobId) ttl now]

/-- A result of the given type. -/
def makeResult (type : ResultType) (returnValue excString : Option String) (info : ExecutionInfo) :
    Result where
  type := type
  returnValue := returnValue
  excString := excString
  workerName := info.workerName
  executionId := info.executionId
  executionStartedAt := info.executionStartedAt
  executionEndedAt := info.executionEndedAt

lemma createResult_buffer (h : pipe.immediate = false) (self : Job) (type : ResultType)
    (ttl : Option ℤ) (returnValue excString : Option String) (info : ExecutionInfo) (now : Time) :
    self.createResult type ttl returnValue excString info (some pipe) now =
      .ret (some (pipe.buffer
        (resultCommands self.id (makeResult type returnValue excString info) ttl now))) := by
  cases ttl with
  | none => simp [createResult, Result.save, resultCommands, makeResult, Client.command_buffer h]
  | some ttl =>
    by_cases ht : ttl = -1 <;>
      simp [createResult, Result.save, resultCommands, makeResult, Client.command_buffer, h, ht]

/-- The outcome of `Job._handle_failure` in the store `s`. -/
def failureIn (self : Job) (s : Store) (excString : String) (info : ExecutionInfo) (now : Time) :
    Except PyError (List (Command Key Value)) :=
  (self.addToFailedIn s self.failureTtl now).map fun cs =>
    cs ++ resultCommands self.id (makeResult .failed none (some excString) info) self.failureTtl now

/-- **The failure of a job, alone.** -/
theorem run_handleFailure (h : pipe.immediate = false) (self : Job) (s : Store)
    (excString : String) (info : ExecutionInfo) (now : Time) : ∃ s', Trimmed self.id now s s' ∧
      (self._handleFailure excString (some pipe) info now).run s =
        ((self.failureIn s excString info now).map fun cs =>
          (self.cleaned s self.failureTtl, some (pipe.buffer cs)), s') := by
  obtain ⟨s', htrim, hrun⟩ := run_addToFailed h self s self.failureTtl now
  refine ⟨s', htrim, ?_⟩
  simp only [_handleFailure, failureIn]
  cases hin : self.addToFailedIn s self.failureTtl now with
  | error e =>
    rw [Prog.run_bind_error (by rw [hrun, hin]; rfl)]
    rfl
  | ok cs =>
    rw [Prog.run_bind_ok (by rw [hrun, hin]; rfl)]
    simp [createResult_buffer, h, Except.map]

/-- The commands of `Job._handle_failure`, but for the save. -/
inductive FailureCommand (self : Job) : Command Key Value → Prop where
  | delete (h0 : self.failureTtl = some 0) {c : Command Key Value} (hc : DeletionCommand self c) :
      FailureCommand self c
  | expire (k : Key) (t : Time) : FailureCommand self (.expire k t)
  | register (score : Score) : FailureCommand self (zadd .failed self.origin self.id score)
  | record (f : List Result → List Result) : FailureCommand self (.write (.results self.id) f)
  | keep : FailureCommand self (.persist (.results self.id))
  | discard (ttl : ℤ) (now : Time) : FailureCommand self (RedisQueue.expire (.results self.id) ttl now)

lemma failureCommand_of_mem_resultCommands {self : Job} {result : Result} {ttl : Option ℤ}
    {now : Time} {c : Command Key Value} (hc : c ∈ resultCommands self.id result ttl now) :
    FailureCommand self c := by
  rcases List.mem_cons.mp hc with rfl | hc
  · exact .record _
  · split at hc
    · simp at hc
    · split at hc <;> obtain rfl := List.mem_singleton.mp hc
      · exact .keep
      · exact .discard _ _

/-- `FailedJobRegistry.add`: the save, then the deletion if the failure TTL is zero, and the rest. -/
theorem addToFailedIn_ok {self : Job} {s : Store} {now : Time} {cs : List (Command Key Value)}
    (h : self.addToFailedIn s self.failureTtl now = .ok cs) :
    ∃ rest, cs = hset self.id (self.toDict false) :: rest ∧ (∀ c ∈ rest, FailureCommand self c) ∧
      (self.failureTtl = some 0 → .seq [.del (.job self.id), .del (.dependents self.id),
        .del (.dependencies self.id)] ∈ rest) := by
  unfold addToFailedIn at h
  cases hclean : self.cleanupIn s (some (self.failureTtl.getD defaultFailureTtl)) true now with
  | error e => rw [hclean] at h; cases h
  | ok cleaning =>
    rw [hclean] at h
    cases h
    refine ⟨cleaning ++ _, by simp only [List.singleton_append]; rfl, fun c hc => ?_,
      fun h0 => ?_⟩
    · rcases List.mem_append.mp hc with hc | hc
      · unfold cleanupIn at hclean
        split at hclean
        · next h0 => exact .delete (getD_defaultFailureTtl.mp h0) (deletionCommand_of_mem hclean hc)
        · cases hclean
          unfold cleanupCommands at hc
          split at hc
          · simp only [List.mem_cons, List.not_mem_nil, or_false] at hc
            rcases hc with rfl | rfl | rfl <;> exact .expire _ _
          · simp at hc
      · obtain rfl := List.mem_singleton.mp hc
        exact .register _
    · unfold cleanupIn at hclean
      rw [if_pos (getD_defaultFailureTtl.mpr h0)] at hclean
      obtain ⟨leaving, executions, group, -, -, -, rfl⟩ := deletionIn_ok hclean
      simp

/-- The failure of a job, with its result. -/
theorem failureIn_ok {self : Job} {s : Store} {excString : String} {info : ExecutionInfo}
    {now : Time} {cs : List (Command Key Value)}
    (h : self.failureIn s excString info now = .ok cs) :
    ∃ rest, cs = hset self.id (self.toDict false) :: rest ∧ (∀ c ∈ rest, FailureCommand self c) ∧
      (self.failureTtl = some 0 → .seq [.del (.job self.id), .del (.dependents self.id),
        .del (.dependencies self.id)] ∈ rest) := by
  unfold failureIn at h
  cases hadd : self.addToFailedIn s self.failureTtl now with
  | error e => rw [hadd] at h; cases h
  | ok adding =>
    rw [hadd] at h
    cases h
    obtain ⟨rest, rfl, hrest, hdelete⟩ := addToFailedIn_ok hadd
    refine ⟨rest ++ _, rfl, fun c hc => ?_, fun h0 => List.mem_append_left _ (hdelete h0)⟩
    rcases List.mem_append.mp hc with hc | hc
    · exact hrest c hc
    · exact failureCommand_of_mem_resultCommands hc

/-! ## Retries -/

/-- What `Job.retry` writes at once. -/
def retryNow (self : Job) (queue : Queue) (interval : ℕ) (now : Time) :
    List (Command Key Value) :=
  if interval = 0 then [] else [hset self.id { status := some .scheduled },
    zadd .scheduled queue.name self.id ((now + interval : ℤ) : Score)]

/-- What `Job.retry` adds to a pipeline. -/
def retryLater (self : Job) (queue : Queue) (interval : ℕ) (now : Time) :
    List (Command Key Value) :=
  if interval = 0 then enqueueCommands queue
    { self with retriesLeft := self.retriesLeft.map (· - 1) } self.enqueueAtFrontOnRetry now
  else (.alter .queues fun q => q.insert queue.key) :: persistCommands
    { self with retriesLeft := self.retriesLeft.map (· - 1), status := .scheduled } .scheduled now

/-- **A retry, alone.** -/
theorem run_retry (h : pipe.immediate = false) (self : Job) (ht : self.ttl ≠ some 0)
    (queue : Queue) (hretry : self.shouldRetry = true) (s : Store) (now : Time) :
    ∃ job : ℕ → Job, (self.retry queue (some pipe) now).run s =
      match self.getRetryInterval with
      | .error e => (.error e, s)
      | .ok interval => (.ok (job interval, some (pipe.buffer (self.retryLater queue interval now))),
          (Command.seq (self.retryNow queue interval now)).run s) := by
  cases hleft : self.retriesLeft with
  | none => simp [shouldRetry, hleft] at hretry
  | some n =>
    cases n with
    | zero => simp [shouldRetry, hleft] at hretry
    | succ n =>
      refine ⟨fun interval => if interval = 0
        then queue._prepareForQueue { self with retriesLeft := some n } now
        else { self with retriesLeft := some n, status := .scheduled }, ?_⟩
      unfold retry
      cases hinterval : self.getRetryInterval with
      | error e => rfl
      | ok interval =>
        simp only [Prog.ofExcept_ok, Prog.ret_bind, hleft]
        by_cases h0 : interval = 0
        · have hretried : ({ self with retriesLeft := some n } : Job).ttl ≠ some 0 := ht
          simp [h0, Queue.enqueueJob_buffer h queue hretried, retryLater, retryNow, hleft]
        · have hschedule := @Queue.scheduleOnPipeline_eq pipe h queue
            { self with retriesLeft := some n, status := .scheduled } ht (now + interval) now
          simp [h0, setStatus, Client.command, Queue.scheduleJob, hschedule, retryLater, retryNow,
            hleft, Prog.perform]

end Job

end RedisQueue
