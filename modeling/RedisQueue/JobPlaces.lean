import Mathlib.Data.Set.Insert
import RedisQueue.DeletionTheorems
import RedisQueue.ReleaseEffects

/-!
# Where a job is

The place of a job is what its hash, the queues and the registries of its queue say about it. Each
lemma says what some commands make of the place.

* `JobPlace.of_leaving`: a job leaves its queue and its registry;
* `JobPlace.of_releaseAll`: dependents are released, the job itself among them or not.
-/

namespace RedisQueue

/-- What the hash of a job, the queues and the registries of one queue say about the job. -/
@[ext] structure JobPlace where
  status : Option JobStatus
  /-- How often the job is in the queue of that name. -/
  queued : QueueName → ℕ
  registries : Set RegistryKind
  /-- The executions in `rq:wip`. -/
  started : Set ExecutionId
  /-- The executions that the registry of executions of the job lists. -/
  listed : Set ExecutionId

namespace JobPlace

/-- The job leaves its queue `name` and what goes with `status`, and is canceled. -/
def leave (p : JobPlace) (name : QueueName) (status : JobStatus) : JobPlace :=
  { p with
    queued := Function.update p.queued name (p.queued name - 1)
    registries := insert .canceled (p.registries \ {kind | Job.registryOf status = some kind})
    started := if status = .started then p.started \ p.listed else p.started }

/-- The job is released to its queue `name`. -/
def release (p : JobPlace) (name : QueueName) : JobPlace :=
  { p with
    status := some .queued
    queued := Function.update p.queued name (p.queued name + 1)
    registries := p.registries \ {.deferred} }

def withStatus (p : JobPlace) (status : JobStatus) : JobPlace := { p with status := some status }

/-- Leaving once more changes nothing, unless the job is in the queue again. -/
lemma leave_leave {p : JobPlace} {name : QueueName} {status : JobStatus} (h : p.queued name ≤ 1) :
    (p.leave name status).leave name status = p.leave name status := by
  have hzero : p.queued name - 1 - 1 = p.queued name - 1 := by omega
  ext x
  · rfl
  · simp [leave, hzero]
  · simp only [leave, Set.mem_insert_iff, Set.mem_sdiff]
    tauto
  · simp only [leave]
    split
    · simp only [Set.mem_sdiff]
      tauto
    · rfl
  · rfl

/-- The place of the job `id` of the queue `name` in the store `s`. -/
def of (id : JobId) (name : QueueName) (now : Time) (s : Store) : JobPlace where
  status := (s.val (.job id)).status
  queued name' := (s.val (.list (queueKey name'))).count id
  registries := {kind | id ∈ s.val (.registry kind name)}
  started := {eid | (id, eid) ∈ s.val (.wip name)}
  listed := {eid | eid ∈ (s.val (.executions id)).removeRange (0 : ℤ) now}

variable {s t u : Store} {id id' : JobId} {name name' : QueueName} {now : Time}
  {kind kind' : RegistryKind}

/-! ## One command -/

lemma mem_registry_zrem : id ∈ ((zrem kind' name' id').run s).val (.registry kind name) ↔
    id ∈ s.val (.registry kind name) ∧ ¬(kind = kind' ∧ name = name' ∧ id = id') := by
  by_cases hkey : kind = kind' ∧ name = name'
  · obtain ⟨rfl, rfl⟩ := hkey
    simp
  · have hne : Key.registry kind name ≠ .registry kind' name' := fun he =>
      hkey ⟨(Key.registry.inj he).1, (Key.registry.inj he).2⟩
    rw [val_zrem, Function.update_of_ne hne]
    exact ⟨fun h => ⟨h, fun hall => hkey ⟨hall.1, hall.2.1⟩⟩, And.left⟩

lemma mem_registry_zadd {score : Score} :
    id ∈ ((zadd kind' name' id' score).run s).val (.registry kind name) ↔
      id ∈ s.val (.registry kind name) ∨ (kind = kind' ∧ name = name' ∧ id = id') := by
  by_cases hkey : kind = kind' ∧ name = name'
  · obtain ⟨rfl, rfl⟩ := hkey
    simp
  · have hne : Key.registry kind name ≠ .registry kind' name' := fun he =>
      hkey ⟨(Key.registry.inj he).1, (Key.registry.inj he).2⟩
    rw [val_zadd, Function.update_of_ne hne]
    exact ⟨.inl, fun h => h.resolve_right fun hall => hkey ⟨hall.1, hall.2.1⟩⟩

lemma count_list_push {key key' : String} {atFront : Bool} :
    (((push key' atFront id').run s).val (.list key)).count id =
      (s.val (.list key)).count id + if key = key' ∧ id' = id then 1 else 0 := by
  rw [val_push, Function.update_of_ne (by simp)]
  by_cases hkey : key = key'
  · subst hkey
    rw [Function.update_self]
    cases atFront with
    | true => simp [pushed, List.count_cons]
    | false => simp [pushed, List.count_append, List.count_singleton]
  · rw [Function.update_of_ne (by simpa using hkey)]
    simp [hkey]

lemma count_list_lrem {key key' : String} : (((lrem key' id).run s).val (.list key)).count id =
    if key = key' then (s.val (.list key)).count id - 1 else (s.val (.list key)).count id := by
  rw [val_lrem]
  by_cases hkey : key = key'
  · subst hkey
    rw [Function.update_self, if_pos rfl, List.count_erase_self]
  · rw [Function.update_of_ne (by simpa using hkey), if_neg hkey]

/-- The place depends on a few keys. -/
lemma of_congr (hjob : (t.val (.job id)).status = (s.val (.job id)).status)
    (hlist : ∀ key, (t.val (.list key)).count id = (s.val (.list key)).count id)
    (hregistry : ∀ kind, id ∈ t.val (.registry kind name) ↔ id ∈ s.val (.registry kind name))
    (hwip : t.val (.wip name) = s.val (.wip name))
    (hlisted : t.val (.executions id) = s.val (.executions id)) :
    of id name now t = of id name now s := by
  ext x
  · simp only [of, hjob]
  · simp only [of, hlist]
  · exact hregistry x
  · simp only [of, hwip]
  · simp only [of, hlisted]

lemma of_hset {mapping : JobHash} {status : JobStatus} (h : mapping.status = some status) :
    of id name now ((hset id mapping).run s) = (of id name now s).withStatus status := by
  ext x
  · simp [of, withStatus, JobHash.update, h]
  · simp [of, withStatus]
  · simp [of, withStatus]
  · simp [of, withStatus]
  · simp [of, withStatus]

lemma of_hset_ne {mapping : JobHash} (h : id' ≠ id) :
    of id name now ((hset id' mapping).run s) = of id name now s :=
  of_congr (by simp [Ne.symm h]) (by simp) (by simp) (by simp) (by simp)

lemma of_expire (k : Key) (t : ℤ) :
    of id name now ((Command.expire k t).run s) = of id name now s :=
  of_congr (by simp) (by simp) (by simp) (by simp) (by simp)

lemma of_dependents {f : RSet JobId → RSet JobId} :
    of id name now ((Command.alter (.dependents id') f).run s) = of id name now s :=
  of_congr (by simp) (by simp) (by simp) (by simp) (by simp)

lemma of_cleanup :
    of id name now ((ExecutionRegistry.cleanup id now).run s) = of id name now s := by
  ext x
  · simp [of, ExecutionRegistry.cleanup]
  · simp [of, ExecutionRegistry.cleanup]
  · simp [of, ExecutionRegistry.cleanup]
  · simp [of, ExecutionRegistry.cleanup]
  · simp [of, ExecutionRegistry.cleanup]

lemma of_lrem : of id name now ((lrem (queueKey name) id).run s) =
    { of id name now s with
      queued := Function.update (of id name now s).queued name
        ((of id name now s).queued name - 1) } := by
  ext x
  · simp [of]
  · simp only [of, count_list_lrem, queueKey_inj, Function.update_apply]
    by_cases hx : x = name
    · subst hx
      simp
    · simp [hx]
  · simp [of]
  · simp [of]
  · simp [of]

lemma of_zadd {score : Score} : of id name now ((zadd kind name id score).run s) =
    { of id name now s with registries := insert kind (of id name now s).registries } := by
  ext x
  · simp [of]
  · simp [of]
  · show id ∈ ((zadd kind name id score).run s).val (.registry x name) ↔
      x = kind ∨ id ∈ s.val (.registry x name)
    rw [mem_registry_zadd, or_comm]
    simp
  · simp [of]
  · simp [of]

lemma of_zrem : of id name now ((zrem kind name id).run s) =
    { of id name now s with registries := (of id name now s).registries \ {kind} } := by
  ext x
  · simp [of]
  · simp [of]
  · show id ∈ ((zrem kind name id).run s).val (.registry x name) ↔
      id ∈ s.val (.registry x name) ∧ ¬x = kind
    rw [mem_registry_zrem]
    simp
  · simp [of]
  · simp [of]

lemma of_zrem_ne (h : id' ≠ id) :
    of id name now ((zrem kind name' id').run s) = of id name now s :=
  of_congr (by simp) (by simp)
    (fun x => by
      rw [mem_registry_zrem]
      exact and_iff_left fun hall => h hall.2.2.symm)
    (by simp) (by simp)

lemma of_push {atFront : Bool} : of id name now ((push (queueKey name) atFront id).run s) =
    { of id name now s with
      queued := Function.update (of id name now s).queued name
        ((of id name now s).queued name + 1) } := by
  ext x
  · simp [of]
  · simp only [of, count_list_push, queueKey_inj, Function.update_apply, and_true]
    by_cases hx : x = name
    · subst hx
      simp
    · simp [hx]
  · simp [of]
  · simp [of]
  · simp [of]

lemma of_push_ne {key : String} {atFront : Bool} (h : id' ≠ id) :
    of id name now ((push key atFront id').run s) = of id name now s :=
  of_congr (by simp) (fun key' => by rw [count_list_push, if_neg fun hall => h hall.2]; rfl)
    (by simp) (by simp) (by simp)

/-! ## Leaving the queue and the registry -/

lemma mem_wip_leaving {self : Job} {cs : List (Command Key Value)} {status : JobStatus}
    (h : self.leaveIn s now = .ok cs) (hstatus : (s.val (.job self.id)).status = some status)
    {eid : ExecutionId} : (self.id, eid) ∈ ((Command.seq cs).run t).val (.wip self.origin) ↔
      (self.id, eid) ∈ t.val (.wip self.origin) ∧
        ¬(status = .started ∧ eid ∈ (s.val (.executions self.id)).removeRange (0 : ℤ) now) := by
  rw [Job.leaveIn, hstatus] at h
  cases status with
  | started =>
    cases hin : ExecutionRegistry.executionsIn s self.id now with
    | error e =>
      rw [hin] at h
      cases h
    | ok executions =>
      rw [hin] at h
      cases h
      obtain ⟨hjobs, hids⟩ := Job.readAllIn_ok hin
      have hlisted : (self.id, eid) ∈ executions.map (fun e => (e.jobId, e.id)) ↔
          eid ∈ (s.val (.executions self.id)).removeRange (0 : ℤ) now := by
        rw [← @ZSet.mem_ordered _ (· ≤ ·), ← hids, List.mem_map, List.mem_map]
        refine exists_congr fun e => and_congr_right fun he => ?_
        rw [hjobs e he, Prod.mk.injEq]
        exact and_iff_right rfl
      rw [← hlisted]
      by_cases hnil : executions = []
      · simp [Job.registryCommands, hnil]
      · simp [Job.registryCommands, hnil]
  | _ =>
    cases h
    simp [Job.registryCommands]

/-- A job leaves the registry that goes with its stored status. -/
lemma of_leaving {self : Job} {cs : List (Command Key Value)} {status : JobStatus}
    (h : self.leaveIn s now = .ok cs) (hstatus : (s.val (.job self.id)).status = some status)
    (hlisted : (of self.id self.origin now t).listed = (of self.id self.origin now s).listed) :
    of self.id self.origin now ((Command.seq cs).run t) =
      { of self.id self.origin now t with
        registries := (of self.id self.origin now t).registries \
          {kind | Job.registryOf status = some kind}
        started := if status = .started then
          (of self.id self.origin now t).started \ (of self.id self.origin now t).listed
          else (of self.id self.origin now t).started } := by
  ext x
  · simp only [of, Job.keeps_leaving h (k := .job self.id) (by simp) (by simp) t]
  · simp only [of, Job.keeps_leaving h (k := .list (queueKey x)) (by simp) (by simp) t]
  · have hmem := Job.mem_registry_leaving h x self.origin t
    rw [hstatus] at hmem
    simpa [of] using hmem
  · have hmem : (self.id, x) ∈ ((Command.seq cs).run t).val (.wip self.origin) ↔ _ :=
      mem_wip_leaving h hstatus
    have hx : x ∈ (of self.id self.origin now t).listed ↔
        x ∈ (s.val (.executions self.id)).removeRange (0 : ℤ) now := by
      rw [hlisted]
      rfl
    by_cases hstarted : status = .started
    · rw [if_pos hstarted, Set.mem_sdiff, hx]
      simpa [of, hstarted] using hmem
    · rw [if_neg hstarted]
      simpa [of, hstarted] using hmem
  · simp only [of, Job.keeps_leaving h (k := .executions self.id) (by simp) (by simp) t]

lemma of_trim {self : Job} {trim : List (Command Key Value)} (h : self.Trims now trim) :
    of self.id name now ((Command.seq trim).run s) = of self.id name now s := by
  rcases h with rfl | rfl
  · rfl
  · exact of_cleanup

/-- The commands by which a job that is canceled leaves its queue and its registry. -/
lemma of_leave {self : Job} {trim cs : List (Command Key Value)} {status : JobStatus}
    {score : Score} (htrim : self.Trims now trim) (h : self.leaveIn s now = .ok cs)
    (hstatus : (s.val (.job self.id)).status = some status)
    (hlisted : (of self.id self.origin now t).listed = (of self.id self.origin now s).listed) :
    of self.id self.origin now ((Command.seq (lrem (queueKey self.origin) self.id ::
      (trim ++ cs) ++ [zadd .canceled self.origin self.id score])).run t) =
        (of self.id self.origin now t).leave self.origin status := by
  have hlisted' : (of self.id self.origin now ((Command.seq trim).run
      ((lrem (queueKey self.origin) self.id).run t))).listed =
        (of self.id self.origin now s).listed := by
    rw [of_trim htrim, of_lrem]
    exact hlisted
  have hleave := of_leaving h hstatus hlisted'
  simp only [Command.seq_append_run, Command.seq_cons_run, Command.seq_nil_run]
  rw [of_zadd, hleave, of_trim htrim, of_lrem]
  rfl

/-! ## The release of dependents -/

variable {queue : Queue} {d : Job} {jobs : List Job} {now' : Time}

/-- The release of another job. -/
lemma of_release_ne (hd : d.id ≠ id) {c : Command Key Value}
    (hc : c = zrem .deferred d.origin d.id ∨ EnqueueCommand (queue.queueFor d) d now' c) :
    of id name now (c.run s) = of id name now s := by
  rcases hc with rfl | hc
  · exact of_zrem_ne hd
  · cases hc with
    | undefer => exact of_zrem_ne hd
    | status => exact of_hset_ne hd
    | save => exact of_hset_ne hd
    | expire k t => exact of_expire k t
    | push atFront => exact of_push_ne hd

lemma of_releaseCommands_ne (h : ∀ d ∈ jobs, d.id ≠ id) :
    of id name now ((Command.seq (queue.releaseCommands jobs now')).run s) = of id name now s :=
  Command.seq_preserves (P := fun t => of id name now t = of id name now s)
    (fun c hc t ht => by
      obtain ⟨d, hd, hc⟩ := Queue.mem_releaseCommands hc
      exact (of_release_ne (h d hd) hc).trans ht) rfl

lemma of_cleanupCommands {ttl : Option ℤ} :
    of id name now ((Command.seq (cleanupCommands id' ttl now')).run s) = of id name now s := by
  unfold cleanupCommands
  split
  · simp only [Command.seq_cons_run, Command.seq_nil_run, of_expire]
  · rfl

lemma of_persistCommands {status : JobStatus} :
    of d.id name now ((Command.seq (persistCommands d status now')).run s) =
      (of d.id name now s).withStatus status := by
  rw [persistCommands, Command.seq_append_run, of_cleanupCommands, Command.seq_cons_run,
    Command.seq_cons_run, Command.seq_nil_run, of_hset rfl, of_hset rfl]
  rfl

/-- The release of the job itself. -/
lemma of_release : of d.id d.origin now ((Command.seq (zrem .deferred d.origin d.id ::
      enqueueCommands (queue.queueFor d) d (d.enqueueAtFront.getD false) now')).run s) =
    (of d.id d.origin now s).release d.origin := by
  have hagain : ∀ t : Store, of d.id d.origin now ((Command.seq
      (if d.status = .deferred then [zrem .deferred d.origin d.id] else [])).run
        ((zrem .deferred d.origin d.id).run t)) =
      { of d.id d.origin now t with
        registries := (of d.id d.origin now t).registries \ {.deferred} } := fun t => by
    split
    · rw [Command.seq_cons_run, Command.seq_nil_run, of_zrem, of_zrem, sdiff_idem]
    · rw [Command.seq_nil_run, of_zrem]
  rw [Command.seq_cons_run, enqueueCommands, Queue.queueFor_name, Queue.queueFor_key,
    Command.seq_append_run, Command.seq_append_run, Command.seq_cons_run, Command.seq_nil_run,
    of_push]
  have hpersist : ∀ t : Store, of d.id d.origin now ((Command.seq (persistCommands
      ((queue.queueFor d)._prepareForQueue d now') .queued now')).run t) =
        (of d.id d.origin now t).withStatus .queued := fun t =>
    of_persistCommands (d := (queue.queueFor d)._prepareForQueue d now')
  rw [hpersist, hagain]
  rfl

lemma of_releaseCommands (hnodup : (jobs.map Job.id).Nodup)
    (horigin : ∀ d ∈ jobs, d.id = id → d.origin = name) :
    of id name now ((Command.seq (queue.releaseCommands jobs now')).run s) =
      if id ∈ jobs.map Job.id then (of id name now s).release name else of id name now s := by
  split
  · next hmem =>
    obtain ⟨d, hd, rfl⟩ := List.mem_map.mp hmem
    obtain rfl := horigin d hd rfl
    obtain ⟨before, after, rfl⟩ := List.append_of_mem hd
    -- only one of the jobs is the job itself
    rw [List.map_append, List.map_cons, List.nodup_middle, List.nodup_cons, List.mem_append,
      not_or] at hnodup
    have hbefore : ∀ d' ∈ before, d'.id ≠ d.id := fun d' hd' he =>
      hnodup.1.1 (List.mem_map.mpr ⟨d', hd', he⟩)
    have hafter : ∀ d' ∈ after, d'.id ≠ d.id := fun d' hd' he =>
      hnodup.1.2 (List.mem_map.mpr ⟨d', hd', he⟩)
    have hsplit : queue.releaseCommands (before ++ d :: after) now' =
        queue.releaseCommands before now' ++ ((zrem .deferred d.origin d.id ::
          enqueueCommands (queue.queueFor d) d (d.enqueueAtFront.getD false) now') ++
            queue.releaseCommands after now') := by
      simp [Queue.releaseCommands]
    rw [hsplit, Command.seq_append_run, Command.seq_append_run, of_releaseCommands_ne hafter,
      of_release, of_releaseCommands_ne hbefore]
  · next hmem =>
    exact of_releaseCommands_ne fun d hd he => hmem (List.mem_map.mpr ⟨d, hd, he⟩)

/-- What the release of dependents makes of the place of a job. -/
theorem of_releaseAll {parent : JobId} (hnodup : (jobs.map Job.id).Nodup)
    (horigin : ∀ d ∈ jobs, d.id = id → d.origin = name) :
    of id name now ((Command.seq (queue.releaseAll s parent jobs now')).run t) =
      if id ∈ jobs.map Job.id then (of id name now t).release name else of id name now t := by
  unfold Queue.releaseAll
  split
  · next hnil =>
    rw [hnil]
    rfl
  · rw [Command.seq_append_run, Command.seq_cons_run, Command.seq_nil_run]
    have hforget : ∀ u : Store, of id name now ((Queue.forgetCommand s parent jobs).run u) =
        of id name now u := fun u => by
      unfold Queue.forgetCommand
      split
      · exact of_dependents
      · exact of_dependents
    rw [hforget, of_releaseCommands hnodup horigin]

end JobPlace

end RedisQueue
