import RedisQueue.AbandonedTheorems

/-!
# Deleting a job

`Job.delete` without a pipeline, as user code calls it.

* `run_delete_ok`, `run_delete_error`: what it performs;
* `deletes_iff`: when it succeeds and leaves nothing of the job.
-/

namespace RedisQueue

/-- Commands go to the server at once. -/
def Client.Direct (client : Client) : Prop := ∀ pipe ∈ client, pipe.immediate = true

lemma Client.direct_none : Client.Direct none := fun _ h => by cases h

lemma Client.direct_some {pipe : Pipeline Key Value} (h : pipe.immediate = true) :
    Client.Direct (some pipe) := fun _ hpipe => Option.some.inj hpipe ▸ h

lemma Client.run_command_direct {client : Client} (h : client.Direct) (c : Command Key Value)
    (s : Store) : (client.command c).run s = (.ok client, c.run s) := by
  cases client with
  | none => rfl
  | some pipe => simp [Client.command, Pipeline.command, h pipe rfl, Prog.run_bind]

namespace Job

open Prog

variable {s s' : Store} {now : Time} {self : Job} {client : Client}

/-! ## What is performed -/

lemma run_command_none (c : Command Key Value) (s : Store) :
    (Client.command none c).run s = (.ok none, c.run s) := rfl

lemma run_removeExecutions_direct (hclient : client.Direct) (self : Job) (s : Store) (now : Time) :
    (removeExecutions self client now).run s =
      ((ExecutionRegistry.executionsIn s self.id now).map fun _ => client,
        match ExecutionRegistry.executionsIn s self.id now with
        | .error _ => (ExecutionRegistry.cleanup self.id now).run s
        | .ok executions => (Command.seq (self.registryCommands executions .started)).run
            ((ExecutionRegistry.cleanup self.id now).run s)) := by
  unfold removeExecutions
  cases hin : ExecutionRegistry.executionsIn s self.id now with
  | error e =>
    rw [Prog.run_bind_error (by rw [ExecutionRegistry.run_getExecutions, hin])]
    rfl
  | ok executions =>
    rw [Prog.run_bind_ok (by rw [ExecutionRegistry.run_getExecutions, hin])]
    by_cases hnil : executions = [] <;>
      simp [hnil, registryCommands, Except.map, Client.run_command_direct hclient]

/-- The commands by which the reads of a deletion trim the registry of executions. -/
def Trims (self : Job) (now : Time) (cs : List (Command Key Value)) : Prop :=
  cs = [] ∨ cs = [ExecutionRegistry.cleanup self.id now]

lemma run_leaveRegistry_ok (hclient : client.Direct) {cs : List (Command Key Value)}
    (h : self.leaveIn s now = .ok cs) : ∃ trim, self.Trims now trim ∧
      (self.leaveRegistry client now).run s =
        (.ok (self.refreshed s, client), (Command.seq (trim ++ cs)).run s) := by
  unfold leaveIn at h
  cases hstatus : (s.val (.job self.id)).status with
  | none =>
    rw [hstatus] at h
    cases h
  | some status =>
    rw [hstatus] at h
    have hlast := run_isStatus_of hstatus
    unfold leaveRegistry refreshed
    rw [hstatus]
    cases status with
    | started =>
      refine ⟨_, .inr rfl, ?_⟩
      simp only at h
      cases hin : ExecutionRegistry.executionsIn s self.id now with
      | error e =>
        rw [hin] at h
        cases h
      | ok executions =>
        rw [hin] at h
        cases h
        have hremove := run_removeExecutions_direct hclient { self with status := .started } s now
        simp only [hin, Except.map] at hremove
        simp [Prog.run_bind, hlast, hremove, registryCommands]
    | _ =>
      cases h
      refine ⟨[], .inl rfl, ?_⟩
      simp [Prog.run_bind, hlast, isFailedOrStopped, leave, registryCommands,
        Client.run_command_direct hclient]

lemma run_leaveRegistry_error (hclient : client.Direct) {e : PyError}
    (h : self.leaveIn s now = .error e) :
    ((self.leaveRegistry client now).run s).1 = .error e := by
  unfold leaveIn at h
  unfold leaveRegistry
  cases hstatus : (s.val (.job self.id)).status with
  | none =>
    rw [hstatus] at h
    cases h
    rw [Prog.run_bind_error (by rw [run_isStatus, hstatus])]
  | some status =>
    rw [hstatus] at h
    have hlast := run_isStatus_of hstatus
    cases status with
    | started =>
      simp only at h
      cases hin : ExecutionRegistry.executionsIn s self.id now with
      | error e' =>
        rw [hin] at h
        cases h
        have hremove := run_removeExecutions_direct hclient { self with status := .started } s now
        simp only [hin, Except.map] at hremove
        simp [Prog.run_bind, hlast, hremove]
      | ok executions =>
        rw [hin] at h
        cases h
    | _ => cases h

lemma run_deleteAll_none (self : Job) (executions : List Execution) (s : Store) :
    (ExecutionRegistry.deleteAll self executions none).run s =
      (.ok none, (Command.seq (executions.flatMap fun e => e.deleteCommands self)).run s) := by
  induction executions generalizing s with
  | nil => rfl
  | cons execution executions ih =>
    rw [List.flatMap_cons, Command.seq_append_run]
    exact ih _

lemma run_deleteExecutions_error {e : PyError}
    (h : ExecutionRegistry.executionsIn s self.id now = .error e) :
    ((ExecutionRegistry.delete self none now).run s).1 = .error e := by
  unfold ExecutionRegistry.delete
  rw [Prog.run_bind_error (by rw [ExecutionRegistry.run_getExecutions, h])]

lemma executionsIn_congr (hlist : (s'.val (.executions self.id)).removeRange (0 : ℤ) now =
      (s.val (.executions self.id)).removeRange (0 : ℤ) now)
    (hhash : ∀ eid, s'.val (.execution self.id eid) = s.val (.execution self.id eid)) :
    ExecutionRegistry.executionsIn s' self.id now =
      ExecutionRegistry.executionsIn s self.id now := by
  rw [ExecutionRegistry.executionsIn, ExecutionRegistry.executionsIn, hlist]
  exact ExecutionRegistry.readAllIn_congr hhash _

/-- The commands by which a job leaves its registry. -/
lemma leaving_eq {cs : List (Command Key Value)} (h : self.leaveIn s now = .ok cs) :
    ∃ executions status, cs = self.registryCommands executions status := by
  unfold leaveIn at h
  split at h
  · cases h
  · cases hin : ExecutionRegistry.executionsIn s self.id now with
    | error e =>
      rw [hin] at h
      cases h
    | ok executions =>
      rw [hin] at h
      cases h
      exact ⟨_, _, rfl⟩
  · cases h
    exact ⟨_, _, rfl⟩

/-- What leaving a registry does not touch. -/
lemma keeps_leaving {cs : List (Command Key Value)} (h : self.leaveIn s now = .ok cs) {k : Key}
    (hwip : ∀ name, k ≠ .wip name) (hregistry : ∀ kind name, k ≠ .registry kind name) :
    (Command.seq cs).Keeps k := by
  obtain ⟨executions, status, rfl⟩ := leaving_eq h
  cases status with
  | started => by_cases hnil : executions = [] <;> intro u <;> simp [registryCommands, hnil, hwip]
  | _ => exact fun u => by simp [registryCommands, hregistry]

lemma keeps_group {cs : List (Command Key Value)} (h : self.groupIn s = .ok cs) {k : Key}
    (hk : ∀ g, self.groupId = some g → k ≠ .group g) : (Command.seq cs).Keeps k := by
  unfold groupIn at h
  split at h
  · cases h
    exact fun _ => rfl
  · next g hg =>
    split at h
    · cases h
    · cases h
      exact Command.keeps_seq fun c hc => by
        obtain rfl := List.mem_singleton.mp hc
        exact Command.keeps_alter (hk g hg)

lemma keeps_deleteAll {executions : List Execution} {k : Key}
    (hexecution : ∀ eid, k ≠ .execution self.id eid) (hid : ∀ e ∈ executions, e.jobId = self.id)
    (hlist : k ≠ .executions self.id) (hwip : k ≠ .wip self.origin) :
    (Command.seq (executions.flatMap fun e => e.deleteCommands self)).Keeps k := by
  refine Command.keeps_seq fun c hc => ?_
  obtain ⟨e, he, hc⟩ := List.mem_flatMap.mp hc
  have hjob : e.jobId = self.id := hid e he
  simp only [Execution.deleteCommands, List.mem_cons, List.not_mem_nil, or_false, hjob] at hc
  rcases hc with rfl | rfl | rfl
  · exact Command.keeps_del (hexecution _)
  · exact Command.keeps_alter hwip
  · refine Command.keeps_alter ?_
    rw [hjob]
    exact hlist

lemma keeps_trim {trim : List (Command Key Value)} (h : self.Trims now trim) {k : Key}
    (hk : k ≠ .executions self.id) : (Command.seq trim).Keeps k := by
  rcases h with rfl | rfl
  · exact fun _ => rfl
  · exact Command.keeps_seq fun c hc => by
      obtain rfl := List.mem_singleton.mp hc
      exact Command.keeps_alter hk

lemma removeRange_trim {trim : List (Command Key Value)} (h : self.Trims now trim) (s : Store) :
    (((Command.seq trim).run s).val (.executions self.id)).removeRange (0 : ℤ) now =
      (s.val (.executions self.id)).removeRange (0 : ℤ) now := by
  rcases h with rfl | rfl
  · rfl
  · simp [ExecutionRegistry.cleanup]

/-- The commands of a deletion outside a pipeline. -/
def deletionCommands (self : Job) (trim leaving group : List (Command Key Value))
    (executions : List Execution) (now : Time) : List (Command Key Value) :=
  [lrem (queueKey self.origin) self.id] ++ (trim ++ leaving) ++
    (ExecutionRegistry.cleanup self.id now ::
      (executions.flatMap fun e => e.deleteCommands self) ++ [.del (.executions self.id)]) ++
    group ++ [.seq [.del (.job self.id), .del (.dependents self.id), .del (.dependencies self.id)]]

/-- Leaving the queue and the registry. -/
lemma run_removeFromRegistries_ok (hclient : client.Direct) {leaving : List (Command Key Value)}
    (hleave : self.leaveIn s now = .ok leaving) :
    ∃ trim s₁, self.Trims now trim ∧
      s₁ = (Command.seq ([lrem (queueKey self.origin) self.id] ++ (trim ++ leaving))).run s ∧
      (self._removeFromRegistries client true now).run s = (.ok (self.refreshed s, client), s₁) ∧
      ExecutionRegistry.executionsIn s₁ self.id now = ExecutionRegistry.executionsIn s self.id now ∧
      ∀ g, s₁.val (.group g) = s.val (.group g) := by
  generalize hunqueued : (lrem (queueKey self.origin) self.id).run s = u
  have hval : ∀ k, (∀ key, k ≠ .list key) → u.val k = s.val k := fun k hk => by
    rw [← hunqueued, val_lrem, Function.update_of_ne (hk _)]
  have hexec : ExecutionRegistry.executionsIn u self.id now =
      ExecutionRegistry.executionsIn s self.id now :=
    executionsIn_congr (by rw [hval _ (by simp)]) fun eid => hval _ (by simp)
  have hleave' : self.leaveIn u now = .ok leaving := by
    rw [← hleave, leaveIn, leaveIn, hval _ (by simp), hexec]
  have hrefreshed : self.refreshed u = self.refreshed s := by
    rw [refreshed, refreshed, hval _ (by simp)]
  obtain ⟨trim, htrim, hrun⟩ := run_leaveRegistry_ok hclient hleave'
  rw [hrefreshed] at hrun
  refine ⟨trim, _, htrim, rfl, ?_, ?_, fun g => ?_⟩
  · unfold _removeFromRegistries
    rw [if_pos rfl, Prog.run_bind_ok (Client.run_command_direct hclient _ s), hunqueued, hrun,
      Command.seq_append_run [_], Command.seq_cons_run, Command.seq_nil_run, hunqueued]
  all_goals
    rw [Command.seq_append_run, Command.seq_cons_run, Command.seq_nil_run, hunqueued,
      Command.seq_append_run]
  · rw [← hexec]
    apply executionsIn_congr
    · rw [keeps_leaving hleave (by simp) (by simp), removeRange_trim htrim]
    · intro eid
      rw [keeps_leaving hleave (by simp) (by simp), keeps_trim htrim (by simp)]
  · rw [keeps_leaving hleave (by simp) (by simp), keeps_trim htrim (by simp), hval _ (by simp)]

/-- Deleting the executions. -/
lemma run_deleteExecutions_ok {executions : List Execution}
    (h : ExecutionRegistry.executionsIn s self.id now = .ok executions) :
    ∃ s₁, s₁ = (Command.seq (ExecutionRegistry.cleanup self.id now ::
        (executions.flatMap fun e => e.deleteCommands self) ++ [.del (.executions self.id)])).run s ∧
      (ExecutionRegistry.delete self none now).run s = (.ok none, s₁) ∧
      ∀ g, s₁.val (.group g) = s.val (.group g) := by
  have hjobs := (readAllIn_ok (h : ExecutionRegistry.readAllIn s self.id _ = _)).1
  refine ⟨_, rfl, ?_, fun g => ?_⟩
  · unfold ExecutionRegistry.delete
    rw [Prog.run_bind_ok (by rw [ExecutionRegistry.run_getExecutions, h]),
      Prog.run_bind_ok (run_deleteAll_none self executions _), run_command_none]
    simp
  · rw [Command.seq_append_run, Command.seq_cons_run, Command.seq_cons_run, Command.seq_nil_run,
      Command.val_del, Function.update_of_ne (by simp),
      keeps_deleteAll (by simp) hjobs (by simp) (by simp)]
    simp [ExecutionRegistry.cleanup]

/-- **A deletion that succeeds.** -/
theorem run_delete_ok {leaving group : List (Command Key Value)} {executions : List Execution}
    (hleave : self.leaveIn s now = .ok leaving)
    (hexec : ExecutionRegistry.executionsIn s self.id now = .ok executions)
    (hgroup : self.groupIn s = .ok group) :
    ∃ trim, self.Trims now trim ∧ (self.delete none true now).run s =
      (.ok (self.refreshed s, none),
        (Command.seq (self.deletionCommands trim leaving group executions now)).run s) := by
  obtain ⟨trim, s₁, htrim, hs₁, hremove, hexec₁, hgroup₁⟩ :=
    run_removeFromRegistries_ok Client.direct_none hleave
  obtain ⟨s₂, hs₂, hdelete, hgroup₂⟩ :=
    @run_deleteExecutions_ok _ _ (self.refreshed s) _ (hexec₁.trans hexec)
  have hval : ∀ g, s₂.val (.group g) = s.val (.group g) := fun g => by rw [hgroup₂, hgroup₁]
  have hstate : (Command.seq (self.deletionCommands trim leaving group executions now)).run s =
      (Command.seq (group ++ [.seq [.del (.job self.id), .del (.dependents self.id),
        .del (.dependencies self.id)]])).run s₂ := by
    rw [hs₂, hs₁]
    simp only [deletionCommands, refreshed_id, deleteCommands_refreshed, Command.seq_append_run, Command.seq_cons_run, Command.seq_nil_run]
  refine ⟨trim, htrim, ?_⟩
  unfold delete
  rw [Prog.run_bind_ok hremove, Prog.run_bind_ok hdelete, hstate]
  unfold groupIn at hgroup
  split at hgroup
  · next hnone =>
    cases hgroup
    simp [hnone, run_command_none, Prog.run_bind]
  · next g hsome =>
    split at hgroup
    · cases hgroup
    · next hmem =>
      cases hgroup
      simp [hsome, leaveGroup, hval, hmem, run_command_none, Prog.run_bind]

lemma run_removeFromRegistries_error (hclient : client.Direct) {e : PyError}
    (hleave : self.leaveIn s now = .error e) :
    ((self._removeFromRegistries client true now).run s).1 = .error e := by
  have hval : ∀ k, (∀ key, k ≠ .list key) →
      ((lrem (queueKey self.origin) self.id).run s).val k = s.val k := fun k hk => by
    rw [val_lrem, Function.update_of_ne (hk _)]
  have hexec := @executionsIn_congr s ((lrem (queueKey self.origin) self.id).run s) now self
    (by rw [hval _ (by simp)]) fun eid => hval _ (by simp)
  unfold _removeFromRegistries
  rw [if_pos rfl, Prog.run_bind_ok (Client.run_command_direct hclient _ s)]
  apply run_leaveRegistry_error hclient
  rw [← hleave, leaveIn, leaveIn, hval _ (by simp), hexec]

/-- **A deletion that raises.** -/
theorem run_delete_error (h : ¬Deletable now s self) :
    ∃ e, ((self.delete none true now).run s).1 = .error e := by
  rw [← deletionIn_ok_iff s self true now] at h
  unfold delete
  cases hleave : self.leaveIn s now with
  | error e => exact ⟨e, Prog.run_bind_raises
      (run_removeFromRegistries_error Client.direct_none hleave)⟩
  | ok leaving =>
    obtain ⟨trim, s₁, -, -, hremove, hexec₁, hgroup₁⟩ :=
      run_removeFromRegistries_ok Client.direct_none hleave
    rw [Prog.run_bind_ok hremove]
    cases hexec : ExecutionRegistry.executionsIn s self.id now with
    | error e =>
      exact ⟨e, Prog.run_bind_raises
        (@run_deleteExecutions_error _ _ (self.refreshed s) _ (hexec₁.trans hexec))⟩
    | ok executions =>
      obtain ⟨s₂, -, hdelete, hgroup₂⟩ :=
        @run_deleteExecutions_ok _ _ (self.refreshed s) _ (hexec₁.trans hexec)
      rw [Prog.run_bind_ok hdelete]
      cases hgroup : self.groupIn s with
      | ok group => exact absurd ⟨_, by rw [deletionIn, hleave, hexec, hgroup]; rfl⟩ h
      | error e =>
        unfold groupIn at hgroup
        split at hgroup
        · cases hgroup
        · next g hsome =>
          split at hgroup
          · next hnil =>
            exact ⟨.noSuchGroupError, by
              simp [hsome, leaveGroup, hgroup₂, hgroup₁, hnil, Prog.run_bind]⟩
          · cases hgroup

/-! ## What is left -/

/-- Nothing of the job is left. -/
structure Gone (id : JobId) (s : Store) : Prop where
  hash : s.val (.job id) = default
  dependents : s.val (.dependents id) = default
  dependencies : s.val (.dependencies id) = default
  queues : ∀ name, id ∉ s.val (.list (queueKey name))
  registries : ∀ kind name, id ∉ s.val (.registry kind name)
  started : ∀ name eid, (id, eid) ∉ s.val (.wip name)
  groups : ∀ g, id ∉ s.val (.group g)

/-- The registry, other than `rq:wip`, that goes with a status. -/
def registryOf : JobStatus → Option RegistryKind
  | .finished => some .finished
  | .deferred => some .deferred
  | .scheduled => some .scheduled
  | .failed => some .failed
  | .stopped => some .failed
  | .canceled => some .canceled
  | .started => none
  | .created => none
  | .queued => none

/-- The job is nowhere but in the queue of its origin, once at most, in the registry that goes with
its stored status, in the group it names and, by executions that are listed, in `rq:wip`. -/
structure Located (job : Job) (s : Store) (now : Time) : Prop where
  queues : ∀ name, job.id ∈ s.val (.list (queueKey name)) →
    name = job.origin ∧ (s.val (.list (queueKey name))).count job.id ≤ 1
  registries : ∀ kind name, job.id ∈ s.val (.registry kind name) →
    name = job.origin ∧ (s.val (.job job.id)).status.bind registryOf = some kind
  started : ∀ name eid, (job.id, eid) ∈ s.val (.wip name) →
    name = job.origin ∧ eid ∈ (s.val (.executions job.id)).removeRange (0 : ℤ) now
  groups : ∀ g, job.id ∈ s.val (.group g) → job.groupId = some g

lemma mem_registry_leaving {cs : List (Command Key Value)} (h : self.leaveIn s now = .ok cs)
    (kind : RegistryKind) (name : QueueName) (u : Store) :
    self.id ∈ ((Command.seq cs).run u).val (.registry kind name) ↔
      self.id ∈ u.val (.registry kind name) ∧
        ¬(name = self.origin ∧ (s.val (.job self.id)).status.bind registryOf = some kind) := by
  have hremoved : ∀ kind', self.id ∈
      ((Command.seq [zrem kind' self.origin self.id]).run u).val (.registry kind name) ↔
        self.id ∈ u.val (.registry kind name) ∧ ¬(name = self.origin ∧ some kind' = some kind) :=
    fun kind' => by
      by_cases hkey : kind = kind' ∧ name = self.origin
      · obtain ⟨rfl, rfl⟩ := hkey
        simp
      · have hne : Key.registry kind name ≠ .registry kind' self.origin := by
          rintro heq
          cases heq
          exact hkey ⟨rfl, rfl⟩
        have hkey' : ¬(name = self.origin ∧ some kind' = some kind) := fun h =>
          hkey ⟨(Option.some.inj h.2).symm, h.1⟩
        simp only [Command.seq_cons_run, Command.seq_nil_run, val_zrem, Function.update_of_ne hne,
          hkey', not_false_eq_true, and_true]
  unfold leaveIn at h
  cases hstatus : (s.val (.job self.id)).status with
  | none =>
    rw [hstatus] at h
    cases h
  | some status =>
    rw [hstatus] at h
    cases status with
    | started =>
      simp only at h
      cases hin : ExecutionRegistry.executionsIn s self.id now with
      | error e =>
        rw [hin] at h
        cases h
      | ok executions =>
        rw [hin] at h
        cases h
        by_cases hnil : executions = [] <;> simp [registryCommands, registryOf, hnil]
    | created =>
      cases h
      simp [registryCommands, registryOf]
    | queued =>
      cases h
      simp [registryCommands, registryOf]
    | _ =>
      cases h
      exact hremoved _

lemma keeps_leaving_wip {cs : List (Command Key Value)} (h : self.leaveIn s now = .ok cs)
    {name : QueueName} (hname : name ≠ self.origin) : (Command.seq cs).Keeps (.wip name) := by
  obtain ⟨executions, status, hcs⟩ := leaving_eq h
  rw [hcs]
  cases status with
  | started =>
    by_cases hnil : executions = [] <;> intro u <;> simp [registryCommands, hnil, hname]
  | _ => exact fun u => by simp [registryCommands]

section Val
variable {trim leaving group : List (Command Key Value)} {executions : List Execution}

/-- What comes after leaving the registry touches the records of the executions, the group and the
hashes only. -/
lemma val_deletionCommands (hid : ∀ e ∈ executions, e.jobId = self.id)
    (hgroup : self.groupIn s = .ok group) {k : Key} (hjob : k ≠ .job self.id)
    (hdependents : k ≠ .dependents self.id) (hdependencies : k ≠ .dependencies self.id)
    (hexecution : ∀ eid, k ≠ .execution self.id eid) (hexecutions : k ≠ .executions self.id)
    (hwip : k ≠ .wip self.origin) (hgroups : ∀ g, self.groupId = some g → k ≠ .group g) :
    ((Command.seq (self.deletionCommands trim leaving group executions now)).run s).val k =
      ((Command.seq leaving).run
        ((Command.seq trim).run ((lrem (queueKey self.origin) self.id).run s))).val k := by
  simp only [deletionCommands, Command.seq_append_run, Command.seq_cons_run, Command.seq_nil_run,
    Command.val_del, Function.update_of_ne hjob, Function.update_of_ne hdependents,
    Function.update_of_ne hdependencies]
  rw [keeps_group hgroup hgroups, Command.keeps_del hexecutions,
    keeps_deleteAll hexecution hid hexecutions hwip]
  exact Command.keeps_alter hexecutions _

lemma mem_list_deleted (htrim : self.Trims now trim) (hleave : self.leaveIn s now = .ok leaving)
    (hexec : ExecutionRegistry.executionsIn s self.id now = .ok executions)
    (hgroup : self.groupIn s = .ok group) (name : QueueName) :
    self.id ∉ ((Command.seq (self.deletionCommands trim leaving group executions now)).run s).val
        (.list (queueKey name)) ↔
      (self.id ∈ s.val (.list (queueKey name)) →
        name = self.origin ∧ (s.val (.list (queueKey name))).count self.id ≤ 1) := by
  rw [val_deletionCommands (readAllIn_ok hexec).1 hgroup (by simp) (by simp) (by simp) (by simp)
    (by simp) (by simp) (by simp), keeps_leaving hleave (by simp) (by simp),
    keeps_trim htrim (by simp), val_lrem]
  by_cases hname : name = self.origin
  · subst hname
    rw [Function.update_self, ← List.count_pos_iff, ← List.count_pos_iff, List.count_erase_self]
    simp only [true_and]
    omega
  · have hne : Key.list (queueKey name) ≠ .list (queueKey self.origin) := by
      simpa [queueKey_inj] using hname
    rw [Function.update_of_ne hne]
    simp [hname]

lemma mem_registry_deleted (htrim : self.Trims now trim) (hleave : self.leaveIn s now = .ok leaving)
    (hexec : ExecutionRegistry.executionsIn s self.id now = .ok executions)
    (hgroup : self.groupIn s = .ok group) (kind : RegistryKind) (name : QueueName) :
    self.id ∉ ((Command.seq (self.deletionCommands trim leaving group executions now)).run s).val
        (.registry kind name) ↔
      (self.id ∈ s.val (.registry kind name) →
        name = self.origin ∧ (s.val (.job self.id)).status.bind registryOf = some kind) := by
  rw [val_deletionCommands (readAllIn_ok hexec).1 hgroup (by simp) (by simp) (by simp) (by simp)
    (by simp) (by simp) (by simp), mem_registry_leaving hleave, keeps_trim htrim (by simp),
    val_lrem, Function.update_of_ne (by simp), not_and, not_not]

lemma mem_wip_deleted (htrim : self.Trims now trim) (hleave : self.leaveIn s now = .ok leaving)
    (hexec : ExecutionRegistry.executionsIn s self.id now = .ok executions)
    (hgroup : self.groupIn s = .ok group) (name : QueueName) (eid : ExecutionId) :
    (self.id, eid) ∉ ((Command.seq (self.deletionCommands trim leaving group executions now)).run
        s).val (.wip name) ↔
      ((self.id, eid) ∈ s.val (.wip name) →
        name = self.origin ∧ eid ∈ (s.val (.executions self.id)).removeRange (0 : ℤ) now) := by
  have hjobs := (readAllIn_ok hexec).1
  by_cases hname : name = self.origin
  · subst hname
    have hlisted : eid ∈ executions.map Execution.id ↔
        eid ∈ (s.val (.executions self.id)).removeRange (0 : ℤ) now := by
      rw [(readAllIn_ok hexec).2, ZSet.mem_ordered]
    simp only [deletionCommands, Command.seq_append_run, Command.seq_cons_run, Command.seq_nil_run,
      Command.val_del, ne_eq, reduceCtorEq, not_false_eq_true, Function.update_of_ne]
    rw [keeps_group hgroup (by simp), Command.keeps_del (by simp), (val_deleteAll hjobs eid _).2,
      show (ExecutionRegistry.cleanup self.id now).Keeps (.wip self.origin) from
        Command.keeps_alter (by simp),
      (val_leaving hleave hexec eid _).2, keeps_trim htrim (by simp), val_lrem,
      Function.update_of_ne (by simp), hlisted]
    simp only [true_and, not_and, not_not]
  · rw [val_deletionCommands hjobs hgroup (by simp) (by simp) (by simp) (by simp) (by simp)
      (by simpa using hname) (by simp), keeps_leaving_wip hleave hname, keeps_trim htrim (by simp),
      val_lrem, Function.update_of_ne (by simp)]
    simp [hname]

lemma mem_group_deleted (htrim : self.Trims now trim) (hleave : self.leaveIn s now = .ok leaving)
    (hexec : ExecutionRegistry.executionsIn s self.id now = .ok executions)
    (hgroup : self.groupIn s = .ok group) (g : String) :
    self.id ∉ ((Command.seq (self.deletionCommands trim leaving group executions now)).run s).val
        (.group g) ↔ (self.id ∈ s.val (.group g) → self.groupId = some g) := by
  by_cases hg : self.groupId = some g
  · simp only [hg, implies_true, iff_true]
    have hcommands : group = [.alter (.group g) fun members => members.erase self.id] := by
      unfold groupIn at hgroup
      rw [hg] at hgroup
      simp only at hgroup
      split at hgroup
      · cases hgroup
      · cases hgroup
        rfl
    simp [deletionCommands, hcommands]
  · rw [val_deletionCommands (readAllIn_ok hexec).1 hgroup (by simp) (by simp) (by simp) (by simp)
      (by simp) (by simp) (by rintro g' hg' heq; cases heq; exact hg hg'),
      keeps_leaving hleave (by simp) (by simp), keeps_trim htrim (by simp), val_lrem,
      Function.update_of_ne (by simp)]
    simp [hg]

end Val

/-- **When a deletion succeeds and leaves nothing of the job.** -/
theorem deletes_iff (self : Job) (s : Store) (now : Time) :
    ((∃ r, ((self.delete none true now).run s).1 = .ok r) ∧
      Gone self.id ((self.delete none true now).run s).2) ↔
      Deletable now s self ∧ self.Located s now := by
  by_cases hdeletable : Deletable now s self
  · obtain ⟨executions, hexec⟩ := (executionsIn_ok_iff s self.id now).mpr hdeletable.executions
    obtain ⟨leaving, hleave⟩ := leaveIn_ok hdeletable.status ⟨_, hexec⟩
    obtain ⟨group, hgroup⟩ := (groupIn_ok_iff s self).mpr hdeletable.group
    obtain ⟨trim, htrim, hrun⟩ := run_delete_ok hleave hexec hgroup
    rw [hrun]
    have hqueues := mem_list_deleted htrim hleave hexec hgroup
    have hregistries := mem_registry_deleted htrim hleave hexec hgroup
    have hstarted := mem_wip_deleted htrim hleave hexec hgroup
    have hgroups := mem_group_deleted htrim hleave hexec hgroup
    constructor
    · rintro ⟨-, hgone⟩
      exact ⟨hdeletable, fun name => (hqueues name).mp (hgone.queues name),
        fun kind name => (hregistries kind name).mp (hgone.registries kind name),
        fun name eid => (hstarted name eid).mp (hgone.started name eid),
        fun g => (hgroups g).mp (hgone.groups g)⟩
    · rintro ⟨-, hlocated⟩
      refine ⟨⟨_, rfl⟩, ?_, ?_, ?_, fun name => (hqueues name).mpr (hlocated.queues name),
        fun kind name => (hregistries kind name).mpr (hlocated.registries kind name),
        fun name eid => (hstarted name eid).mpr (hlocated.started name eid),
        fun g => (hgroups g).mpr (hlocated.groups g)⟩ <;>
      simp [deletionCommands]
  · obtain ⟨e, he⟩ := run_delete_error hdeletable
    refine iff_of_false (fun h => ?_) fun h => hdeletable h.1
    obtain ⟨r, hr⟩ := h.1
    rw [he] at hr
    cases hr

/-! ### A deletion that raises -/

/-- A job of a group. -/
def groupedJob : Job := { id := "job", origin := "default", groupId := some "group" }

/-- It has been enqueued and added to its group, and then deleted from the group. -/
def ungroupedStore : Store :=
  (do let _ ← Queue.enqueueJob { name := "default" } groupedJob none false false 0 1
      Group.addJobs "group" ["job"] {}
      groupedJob.leaveGroup "group" none : Redis Client).run Store.empty |>.2

theorem delete_of_last_of_group_raises :
    ungroupedStore.val (.job "job") ≠ default ∧
      ((do let job ← fetch "job"
           job.delete none true 1 : Redis (Job × Client)).run ungroupedStore).1 =
        .error .noSuchGroupError :=
  ⟨by decide, rfl⟩

end Job
end RedisQueue
