import RedisQueue.JobPlaces

/-!
# Canceling a job

`Job.cancel` with the pipelines that user code passes to it, when nobody else writes.

* `Job.CanceledIn`: what a cancellation is to leave behind;
* `Job.cancels_iff`: when it does.
-/

namespace RedisQueue

open Prog

/-! ## The calls -/

/-- The pipelines that user code passes to `Job.cancel`: none, a new one, or one that watches the
dependents of the job. -/
inductive PipelineMode where
  | none
  | plain
  | watching
deriving DecidableEq, Repr

def PipelineMode.pipeline (mode : PipelineMode) (job : Job) : Redis Client :=
  match mode with
  | .none => return Option.none
  | .plain => return some {}
  | .watching => some <$> Pipeline.watch {} [.dependents job.id]

namespace Job

/-- `Job.cancel`, and then `execute` on the pipeline of the caller. The outcome `false` is a
`WatchError`. -/
def cancelAndExecute (self : Job) (mode : PipelineMode)
    (enqueueDependents removeFromDependencies : Bool) (now : Time) (fuel : ℕ) : Redis Bool := do
  let pipeline ← mode.pipeline self
  let (_, pipeline) ← self.cancel pipeline enqueueDependents removeFromDependencies now fuel
  match pipeline with
  | none => return true
  | some pipe => pipe.execute

/-- The job is in the container that goes with its stored status, and nowhere else. -/
structure ContainedIn (job : Job) (s : Store) (status : JobStatus) : Prop where
  stored : (s.val (.job job.id)).status = some status
  named : status ≠ .created ∧ status ≠ .canceled
  queues : ∀ name, (s.val (.list (queueKey name))).count job.id =
    if status = .queued ∧ name = job.origin then 1 else 0
  registries : ∀ kind, job.id ∈ s.val (.registry kind job.origin) ↔ registryOf status = some kind
  started : (∃ eid, (job.id, eid) ∈ s.val (.wip job.origin)) ↔ status = .started

/-- What a cancellation is to leave behind. -/
structure CanceledIn (job : Job) (s : Store) : Prop where
  status : (s.val (.job job.id)).status = some .canceled
  canceled : job.id ∈ s.val (.registry .canceled job.origin)
  queues : ∀ name, job.id ∉ s.val (.list (queueKey name))
  registries : ∀ kind, kind ≠ .canceled → job.id ∉ s.val (.registry kind job.origin)
  started : ∀ eid, (job.id, eid) ∉ s.val (.wip job.origin)

/-- The job is one of its own dependents, and its other dependencies do not hold it up. -/
def ReleasesItself (job : Job) (s : Store) : Prop :=
  job.id ∈ s.val (.dependents job.id) ∧
    ∃ d, Job.restore job.id (s.val (.job job.id)) = .ok d ∧
      d.statusesAllowedIn s ((s.val (.dependencies job.id)).elems.filter (· ≠ job.id)) = true

/-- When a cancellation is complete: with a pipeline that is in immediate mode only for a job in a
queue, of a started job only if its executions are listed, and with the release of dependents only
if the job does not release itself from somewhere else. -/
structure Cancelable (job : Job) (mode : PipelineMode) (enqueueDependents : Bool) (s : Store)
    (status : JobStatus) (now : Time) : Prop where
  immediate : mode = .watching → status = .queued
  listed : status = .started → ∀ eid, (job.id, eid) ∈ s.val (.wip job.origin) →
    eid ∈ (s.val (.executions job.id)).removeRange (0 : ℤ) now
  released : mode = .none → enqueueDependents = true → job.ReleasesItself s →
    status = .queued ∨ status = .deferred

variable {self : Job} {s u : Store} {now : Time} {pipe : Pipeline Key Value} {client : Client}
  {status : JobStatus} {removeFromDependencies : Bool}

/-! ## The end of `cancel` -/

/-- The end of an iteration of `Job.cancel`. -/
def leaveAll (self : Job) (pipe : Client) (removeFromDependencies : Bool) (now : Time) :
    Redis (Job × Client) := do
  let pipe ← if removeFromDependencies then do
      let (dependencies, pipe) ← self.fetchDependencies false pipe
      self.leaveDependencies dependencies pipe
    else pure pipe
  let (self, pipe) ← self._removeFromRegistries pipe true now
  let pipe ← pipe.command (zadd .canceled self.origin self.id (registryScore 0 now))
  return (self, pipe)

/-- The commands of `leaveDependencies`. -/
def dependencyCommands (self : Job) (dependencies : List Job) : List (Command Key Value) :=
  dependencies.map fun dependency => .alter (.dependents dependency.id) fun d => d.erase self.id

lemma run_leaveDependencies_direct (hclient : client.Direct) (dependencies : List Job)
    (s : Store) : (self.leaveDependencies dependencies client).run s =
      (.ok client, (Command.seq (self.dependencyCommands dependencies)).run s) := by
  induction dependencies generalizing s with
  | nil => rfl
  | cons dependency rest ih =>
    rw [leaveDependencies, run_bind_ok (Client.run_command_direct hclient _ s), ih]
    rfl

lemma leaveDependencies_buffer (h : pipe.immediate = false) (dependencies : List Job) :
    self.leaveDependencies dependencies (some pipe) =
      .ret (some (pipe.buffer (self.dependencyCommands dependencies))) := by
  induction dependencies generalizing pipe with
  | nil => simp [leaveDependencies, dependencyCommands]
  | cons dependency rest ih =>
    have hrest := fun cs : List (Command Key Value) => @ih (pipe.buffer cs) (by simpa using h)
    simp [leaveDependencies, Client.command_buffer, h, hrest, dependencyCommands]

/-- The reads of `fetch_dependencies` change nothing. -/
lemma fetchDependencies_eq_ok {dependencies : List Job} {client' : Client}
    (h : (self.fetchDependencies false client).run s = (.ok (dependencies, client'), u)) :
    client' = client ∧ u = s := by
  have hfetch : ∀ pipeline : Client, (do
      let jobs ← fetchMany self.dependencyIds
      return (jobs.reduceOption, pipeline) : Redis (List Job × Client)).run s =
        (.ok (dependencies, client'), u) → client' = pipeline ∧ u = s := fun pipeline h => by
    obtain ⟨jobs, s₁, hjobs, hret⟩ := run_bind_eq_ok h
    obtain ⟨results, s₂, hread, hrestore⟩ := run_bind_eq_ok hjobs
    cases hread
    obtain ⟨-, rfl⟩ := run_ofExcept_eq_ok hrestore
    cases hret
    exact ⟨rfl, rfl⟩
  cases client with
  | none => exact hfetch none h
  | some pipe => exact hfetch (some pipe) h

/-- The commands by which a job that is canceled leaves its dependencies, its queue and its
registry. -/
def leaveCommands (self : Job) (dependencies : List Job) (trim leaving : List (Command Key Value))
    (now : Time) : List (Command Key Value) :=
  self.dependencyCommands dependencies ++ (lrem (queueKey self.origin) self.id ::
    (trim ++ leaving) ++ [zadd .canceled self.origin self.id (registryScore 0 now)])

/-- The first step of `leaveAll`. -/
lemma leaveAll_eq_ok {r : Job × Client}
    (h : (self.leaveAll client removeFromDependencies now).run s = (.ok r, u)) :
    ∃ dependencies, (do
      let pipe ← self.leaveDependencies dependencies client
      let (self, pipe) ← self._removeFromRegistries pipe true now
      let pipe ← pipe.command (zadd .canceled self.origin self.id (registryScore 0 now))
      return (self, pipe) : Redis (Job × Client)).run s = (.ok r, u) := by
  cases removeFromDependencies with
  | false => exact ⟨[], h⟩
  | true =>
    obtain ⟨⟨dependencies, pipe₀⟩, s₀, hfetch, hrest⟩ := run_bind_eq_ok h
    obtain ⟨rfl, rfl⟩ := fetchDependencies_eq_ok hfetch
    exact ⟨dependencies, hrest⟩

lemma leaveAll_direct (hclient : client.Direct) {r : Job × Client}
    (h : (self.leaveAll client removeFromDependencies now).run s = (.ok r, u)) :
    r = (self.refreshed s, client) ∧ ∃ dependencies trim leaving, self.Trims now trim ∧
      self.leaveIn s now = .ok leaving ∧
      u = (Command.seq (self.leaveCommands dependencies trim leaving now)).run s := by
  obtain ⟨dependencies, h⟩ := leaveAll_eq_ok h
  rw [run_bind_ok (run_leaveDependencies_direct hclient dependencies s)] at h
  generalize ht : (Command.seq (self.dependencyCommands dependencies)).run s = t at h
  have hval : ∀ k, (∀ id, k ≠ .dependents id) → t.val k = s.val k := fun k hk => by
    rw [← ht]
    refine Command.keeps_seq (fun c hc => ?_) s
    obtain ⟨dependency, -, rfl⟩ := List.mem_map.mp hc
    exact Command.keeps_alter (hk _)
  have hleaveIn : self.leaveIn t now = self.leaveIn s now := by
    rw [leaveIn, leaveIn, hval _ (by simp), executionsIn_congr (by rw [hval _ (by simp)])
      fun eid => hval _ (by simp)]
  have hrefreshed : self.refreshed t = self.refreshed s := by
    rw [refreshed, refreshed, hval _ (by simp)]
  cases hleave : self.leaveIn s now with
  | error e =>
    have herror := run_removeFromRegistries_error hclient (hleaveIn.trans hleave)
    obtain ⟨pipe', s₁, hremove, -⟩ := run_bind_eq_ok h
    rw [hremove] at herror
    cases herror
  | ok leaving =>
    obtain ⟨trim, s₁, htrim, rfl, hremove, -, -⟩ :=
      run_removeFromRegistries_ok hclient (hleaveIn.trans hleave)
    rw [run_bind_ok hremove, run_bind_ok (Client.run_command_direct hclient _ _), hrefreshed] at h
    cases h
    refine ⟨rfl, dependencies, trim, leaving, htrim, rfl, ?_⟩
    simp only [leaveCommands, Command.seq_append_run, Command.seq_cons_run, Command.seq_nil_run, ht,
      refreshed_id, refreshed_origin]

lemma leaveAll_buffered (hpipe : pipe.immediate = false) {r : Job × Client}
    (h : (self.leaveAll (some pipe) removeFromDependencies now).run s = (.ok r, u)) :
    Trimmed self.id now s u ∧ ∃ dependencies leaving, self.leaveIn s now = .ok leaving ∧
      r = (self.refreshed s,
        some (pipe.buffer (self.leaveCommands dependencies [] leaving now))) := by
  obtain ⟨dependencies, h⟩ := leaveAll_eq_ok h
  rw [leaveDependencies_buffer hpipe, ret_bind] at h
  have hbuffer : (pipe.buffer (self.dependencyCommands dependencies)).immediate = false := by
    rwa [Pipeline.immediate_buffer]
  obtain ⟨s₁, htrim, hremove⟩ := run_removeFromRegistries hbuffer self s true now
  cases hleave : self.leaveIn s now with
  | error e =>
    rw [run_bind_error (by rw [hremove, hleave]; rfl)] at h
    cases h
  | ok leaving =>
    rw [run_bind_ok (by rw [hremove, hleave]; rfl)] at h
    have hbuffers : ∀ cs, (pipe.buffer cs).immediate = false := fun cs => by simpa using hpipe
    simp only [Pipeline.buffer_buffer, Client.command_buffer (hbuffers _)] at h
    cases h
    refine ⟨htrim, dependencies, leaving, rfl, ?_⟩
    simp [leaveCommands, unqueueCommands]

lemma of_leaveCommands {t : Store} {dependencies : List Job}
    {trim leaving : List (Command Key Value)} (htrim : self.Trims now trim)
    (hleave : self.leaveIn s now = .ok leaving)
    (hstatus : (s.val (.job self.id)).status = some status)
    (hlisted : (JobPlace.of self.id self.origin now t).listed =
      (JobPlace.of self.id self.origin now s).listed) :
    JobPlace.of self.id self.origin now
        ((Command.seq (self.leaveCommands dependencies trim leaving now)).run t) =
      (JobPlace.of self.id self.origin now t).leave self.origin status := by
  have hdependencies : JobPlace.of self.id self.origin now
      ((Command.seq (self.dependencyCommands dependencies)).run t) =
        JobPlace.of self.id self.origin now t :=
    Command.seq_preserves
      (P := fun v => JobPlace.of self.id self.origin now v = JobPlace.of self.id self.origin now t)
      (fun c hc v hv => by
        obtain ⟨dependency, -, rfl⟩ := List.mem_map.mp hc
        exact JobPlace.of_dependents.trans hv) rfl
  rw [leaveCommands, Command.seq_append_run, JobPlace.of_leave htrim hleave hstatus
    (by rw [hdependencies, hlisted]), hdependencies]

/-! ## The release of the job by itself -/

/-- The job that is canceled is left out of the dependencies. -/
lemma decides_excluded (s : Store) (parent : Job) (refreshJobStatus : Bool) :
    Decides s parent (some parent.id) refreshJobStatus fun d => d.statusesAllowedIn s
      ((s.val (.dependencies d.id)).elems.filter (· ≠ parent.id)) && d.status != .canceled := by
  intro d r h
  unfold Job.metIn at h
  split at h
  · cases h
  · simp only [Option.isSome_some, Option.map_some, beq_self_eq_true, Bool.and_true,
      Except.ok.injEq] at h
    subst h
    exact ⟨rfl, rfl⟩

lemma mem_released_iff {r : List Job × Job} {refreshJobStatus : Bool}
    (h : Queue.releaseIn s self (some self.id) refreshJobStatus = .ok r) :
    self.id ∈ r.1.map Job.id ↔
      self.ReleasesItself s ∧ (s.val (.job self.id)).status ≠ some .canceled := by
  have hmem := fun d => @Queue.mem_of_decides s self _ _ _ r
    (decides_excluded s self refreshJobStatus) h d
  have hcanceled : ∀ d, Job.restore self.id (s.val (.job self.id)) = .ok d →
      ((d.status != .canceled) = true ↔ (s.val (.job self.id)).status ≠ some .canceled) := by
    intro d hd
    rw [restore_status hd]
    cases (s.val (.job self.id)).status with
    | none => simp
    | some status => simp
  constructor
  · intro hself
    obtain ⟨d, hd, hid⟩ := List.mem_map.mp hself
    obtain ⟨hdependent, hok, hready⟩ := (hmem d).mp hd
    rw [hid] at hdependent hok hready
    obtain ⟨hallowed, hlive⟩ := Bool.and_eq_true_iff.mp hready
    exact ⟨⟨hdependent, d, hok, hallowed⟩, (hcanceled d hok).mp hlive⟩
  · rintro ⟨⟨hdependent, d, hok, hallowed⟩, hlive⟩
    obtain hid := (restore_ok hok).1
    refine List.mem_map.mpr ⟨d, (hmem d).mpr ?_, hid⟩
    rw [hid]
    exact ⟨hdependent, hok, Bool.and_eq_true_iff.mpr ⟨hallowed, (hcanceled d hok).mpr hlive⟩⟩

/-- What the release does to the place of the job. -/
lemma of_released (self : Job) {r : List Job × Job} {refreshJobStatus : Bool} {queue : Queue}
    {t : Store}
    (h : Queue.releaseIn s self (some self.id) refreshJobStatus = .ok r)
    (horigin : s.origin self.id = self.origin) :
    JobPlace.of self.id self.origin now
        ((Command.seq (queue.releaseAll s self.id r.1 now)).run t) =
      if self.id ∈ r.1.map Job.id then
        (JobPlace.of self.id self.origin now t).release self.origin
      else JobPlace.of self.id self.origin now t := by
  have hdecides := decides_excluded s self refreshJobStatus
  refine JobPlace.of_releaseAll
    ((Queue.sublist_of_decides hdecides h).nodup (s.val (.dependents self.id)).nodup) ?_
  intro d hd hid
  obtain ⟨-, hok, -⟩ := (Queue.mem_of_decides hdecides h).mp hd
  rw [← Queue.origin_of_restore hok, hid, horigin]

/-- The parent only gets its status refreshed. -/
lemma releaseIn_parent {r : List Job × Job} {refreshJobStatus : Bool} {excludeJobId : Option JobId}
    (h : Queue.releaseIn s self excludeJobId refreshJobStatus = .ok r) :
    ∃ status, r.2 = { self with status := status } := by
  unfold Queue.releaseIn at h
  split at h
  · cases h
    exact ⟨self.status, rfl⟩
  · split at h
    · cases h
    · obtain ⟨status, hr, -⟩ := Queue.releasable_parent h
      exact ⟨status, hr⟩

/-! ## A pipeline that buffers -/

/-- The store after a cancellation, in terms of the place of the job: it has left what goes with
`status`. -/
def Leaves (self : Job) (now : Time) (s : Store) (status : JobStatus) (s' : Store) : Prop :=
  JobPlace.of self.id self.origin now s' =
    ((JobPlace.of self.id self.origin now s).leave self.origin status).withStatus .canceled

lemma of_trimmed {t : Store} (h : Trimmed self.id now s t) :
    JobPlace.of self.id self.origin now t = JobPlace.of self.id self.origin now s := by
  rcases h with rfl | rfl
  · rfl
  · exact JobPlace.of_cleanup

lemma cancelAttempt_buffered {pipeline : Client} {fuel : ℕ} {r : Job × Client}
    (hstatus : (s.val (.job self.id)).status = some status)
    (h : (self.cancelAttempt pipeline (some {}) false removeFromDependencies now fuel).run s =
      (.ok r, u)) :
    ∃ pipe : Pipeline Key Value, r.2 = some pipe ∧ pipe.watched = [] ∧
      self.Leaves now s status ((Command.seq pipe.commandStack).run u) := by
  have hattempt : self.cancelAttempt pipeline (some {}) false removeFromDependencies now fuel =
      ({ self with status := .canceled } : Job).leaveAll
        (some (({} : Pipeline Key Value).buffer [hset self.id { status := some .canceled }]))
        removeFromDependencies now := by
    simp only [cancelAttempt, setStatus_buffer Pipeline.immediate_empty, ret_bind]
    rfl
  rw [hattempt] at h
  obtain ⟨htrim, dependencies, leaving, hleave, rfl⟩ := leaveAll_buffered (by simp) h
  refine ⟨_, rfl, rfl, ?_⟩
  rw [Leaves, Pipeline.buffer_commandStack, Pipeline.buffer_commandStack, Command.seq_append_run]
  have hcanceled : JobPlace.of self.id self.origin now
      ((hset self.id { status := some .canceled }).run u) =
        (JobPlace.of self.id self.origin now s).withStatus .canceled := by
    rw [JobPlace.of_hset rfl, of_trimmed htrim]
  have hlisted : (JobPlace.of self.id self.origin now
      ((hset self.id { status := some .canceled }).run u)).listed =
        (JobPlace.of self.id self.origin now s).listed := by
    rw [hcanceled]
    rfl
  exact (of_leaveCommands (.inl rfl) hleave hstatus hlisted).trans
    (congrArg (fun p => p.leave self.origin status) hcanceled)

/-! ## A pipeline that watches -/

/-- A pipeline that has watched the dependents of the job in the store `s`. -/
def watchingPipeline (self : Job) (s : Store) : Pipeline Key Value :=
  { watched := [(.dependents self.id, s.ver (.dependents self.id))] }

lemma watching_watchingPipeline {t : Store}
    (h : t.ver (.dependents self.id) = s.ver (.dependents self.id)) :
    Watching t (self.watchingPipeline s) where
  watched := by simp [watchingPipeline]
  keys := by simp [watchingPipeline, Watchable]
  explicitTransaction := rfl
  commandStack := rfl
  unchanged := by simp [watchingPipeline, Pipeline.unchanged, h]

/-- The end of `cancel` after `enqueue_dependents` on a pipeline that watches. -/
lemma leaveAll_released (self : Job) {t : Store} {released : List (Command Key Value)}
    {r : Job × Client} (hstack : pipe.commandStack = released)
    (himmediate : pipe.immediate = true → released = [])
    (hplace : ∀ v, JobPlace.of self.id self.origin now ((Command.seq released).run v) =
      JobPlace.of self.id self.origin now v)
    (hstatus : (t.val (.job self.id)).status = some status)
    (h : (self.leaveAll (some pipe) removeFromDependencies now).run t = (.ok r, u)) :
    ∃ pipe' : Pipeline Key Value, r.2 = some pipe' ∧ pipe'.watched = pipe.watched ∧
      JobPlace.of self.id self.origin now ((Command.seq pipe'.commandStack).run u) =
        (JobPlace.of self.id self.origin now t).leave self.origin status := by
  cases hp : pipe.immediate with
  | true =>
    obtain ⟨rfl, dependencies, trim, leaving, htrim, hleave, rfl⟩ :=
      leaveAll_direct (Client.direct_some hp) h
    refine ⟨pipe, rfl, rfl, ?_⟩
    rw [hstack, himmediate hp]
    exact of_leaveCommands htrim hleave hstatus rfl
  | false =>
    obtain ⟨htrim, dependencies, leaving, hleave, rfl⟩ := leaveAll_buffered hp h
    refine ⟨_, rfl, rfl, ?_⟩
    rw [Pipeline.buffer_commandStack, hstack, Command.seq_append_run,
      of_leaveCommands (.inl rfl) hleave hstatus (by rw [hplace, of_trimmed htrim]), hplace,
      of_trimmed htrim]

lemma cancelAttempt_watching {enqueueDependents : Bool} {fuel : ℕ} {r : Job × Client}
    (horigin : s.origin self.id = self.origin)
    (h : (self.cancelAttempt (some (self.watchingPipeline s)) (some (self.watchingPipeline s))
      enqueueDependents removeFromDependencies now fuel).run s = (.ok r, u)) :
    ∃ pipe : Pipeline Key Value, r.2 = some pipe ∧ pipe.watched ≠ [] ∧
      self.Leaves now s .canceled ((Command.seq pipe.commandStack).run u) := by
  generalize ht : (hset self.id { status := some .canceled }).run s = t
  have hver : t.ver (.dependents self.id) = s.ver (.dependents self.id) := by
    rw [← ht]
    simp [hset, Command.write, KeyStore.put]
  have hwatch := watching_watchingPipeline hver
  have hplace : JobPlace.of self.id self.origin now t =
      (JobPlace.of self.id self.origin now s).withStatus .canceled := by
    rw [← ht, JobPlace.of_hset rfl]
  have hcanceled : (t.val (.job self.id)).status = some .canceled := congrArg JobPlace.status hplace
  have hrun : (self.setStatus .canceled (some (self.watchingPipeline s))).run s =
      (.ok ({ self with status := .canceled }, some (self.watchingPipeline s)), t) := by
    rw [setStatus,
      run_bind_ok (Client.run_command_direct (Client.direct_some hwatch.immediate) _ s), ht]
    rfl
  rw [cancelAttempt, run_bind_ok hrun] at h
  have hleaves : ((JobPlace.of self.id self.origin now s).withStatus .canceled).leave self.origin
      .canceled = ((JobPlace.of self.id self.origin now s).leave self.origin .canceled).withStatus
        .canceled := rfl
  cases enqueueDependents with
  | false =>
    have hrest : (({ self with status := .canceled } : Job).leaveAll
        (some (self.watchingPipeline s)) removeFromDependencies now).run t = (.ok r, u) := h
    obtain ⟨pipe', hr, hwatched, hfinal⟩ :=
      leaveAll_released { self with status := .canceled } rfl (fun _ => rfl) (fun _ => rfl)
        hcanceled hrest
    refine ⟨pipe', hr, by rw [hwatched]; exact hwatch.watched, ?_⟩
    exact hfinal.trans (by rw [hplace, ← hleaves])
  | true =>
    obtain ⟨⟨job, client⟩, s₁, henqueue, hrest⟩ := run_bind_eq_ok h
    obtain ⟨⟨pending, job', client'⟩, s₂, hattempt, hret⟩ := run_bind_eq_ok henqueue
    cases hret
    obtain ⟨pipe₁, hwatched, -, -, hrun₁, hstack⟩ := Queue.run_enqueueDependentsAttempt
      { name := self.origin } hwatch { self with status := .canceled } (some self.id) true now
    rw [hrun₁] at hattempt
    cases hrelease : Queue.releaseIn t { self with status := .canceled } (some self.id) true with
    | error e =>
      rw [hrelease] at hattempt
      cases hattempt
    | ok r₁ =>
      rw [hrelease] at hattempt
      cases hattempt
      obtain ⟨hcommands, hexplicit⟩ := hstack r₁ hrelease
      obtain ⟨status, hr₁⟩ := releaseIn_parent hrelease
      -- the hash says already that the job is canceled
      have hself : self.id ∉ r₁.1.map Job.id := fun hmem =>
        ((mem_released_iff hrelease).mp hmem).2 hcanceled
      have horigin' : Store.origin t self.id = self.origin := by
        rw [← horigin, ← ht]
        simp [Store.origin, JobHash.update]
      have hkeep : ∀ v, JobPlace.of self.id self.origin now ((Command.seq
          ((Queue.mk self.origin 180).releaseAll t self.id r₁.1 now)).run v) =
            JobPlace.of self.id self.origin now v := fun v =>
        (of_released { self with status := .canceled } hrelease horigin').trans (if_neg hself)
      have himmediate : pipe₁.immediate = true →
          (Queue.mk self.origin 180).releaseAll t self.id r₁.1 now = [] := fun hp => by
        rcases hexplicit with hmulti | hnil
        · simp [Pipeline.immediate, hmulti] at hp
        · rw [Queue.releaseAll, if_pos hnil]
      rw [hr₁] at hrest
      obtain ⟨pipe', hr, hwatched', hfinal⟩ :=
        leaveAll_released { self with status := status } hcommands himmediate hkeep
          hcanceled hrest
      refine ⟨pipe', hr, by rw [hwatched']; exact hwatched, ?_⟩
      exact hfinal.trans (by rw [hplace, ← hleaves])

/-! ## No pipeline, with the release of dependents -/

lemma keeps_leaveCommands {dependencies : List Job} {trim leaving : List (Command Key Value)}
    (htrim : self.Trims now trim) (hleave : self.leaveIn s now = .ok leaving) {k : Key}
    (hdependents : ∀ id, k ≠ .dependents id) (hlist : ∀ key, k ≠ .list key)
    (hexecutions : k ≠ .executions self.id) (hwip : ∀ name, k ≠ .wip name)
    (hregistry : ∀ kind name, k ≠ .registry kind name) :
    (Command.seq (self.leaveCommands dependencies trim leaving now)).Keeps k := by
  intro v
  simp only [leaveCommands, Command.seq_append_run, Command.seq_cons_run, Command.seq_nil_run,
    val_zadd, Function.update_of_ne (hregistry _ _)]
  rw [keeps_leaving hleave hwip hregistry, keeps_trim htrim hexecutions, val_lrem,
    Function.update_of_ne (hlist _)]
  refine Command.keeps_seq (fun c hc => ?_) v
  obtain ⟨dependency, -, rfl⟩ := List.mem_map.mp hc
  exact Command.keeps_alter (hdependents _)

lemma dependents_dependencyCommands {dependencies : List Job} {v : Store} {id d : JobId}
    (hd : d ∈ ((Command.seq (self.dependencyCommands dependencies)).run v).val (.dependents id)) :
    d ∈ v.val (.dependents id) := by
  induction dependencies generalizing v with
  | nil => exact hd
  | cons dependency rest ih =>
    have hrest := ih hd
    rw [Command.val_alter] at hrest
    by_cases hkey : id = dependency.id
    · subst hkey
      rw [Function.update_self] at hrest
      exact (RSet.mem_erase.mp hrest).1
    · rwa [Function.update_of_ne (by simpa using hkey)] at hrest

/-- Nobody becomes a dependent. -/
lemma dependents_leaveCommands {dependencies : List Job} {trim leaving : List (Command Key Value)}
    (htrim : self.Trims now trim) (hleave : self.leaveIn s now = .ok leaving) {v : Store}
    {id d : JobId} (hd : d ∈ ((Command.seq (self.leaveCommands dependencies trim leaving now)).run
      v).val (.dependents id)) : d ∈ v.val (.dependents id) := by
  simp only [leaveCommands, Command.seq_append_run, Command.seq_cons_run, Command.seq_nil_run,
    val_zadd] at hd
  rw [Function.update_of_ne (by simp), keeps_leaving hleave (by simp) (by simp),
    keeps_trim htrim (by simp), val_lrem, Function.update_of_ne (by simp)] at hd
  exact dependents_dependencyCommands hd

/-- The pipeline of `cancel`, once it watches the dependents of the job. -/
def ownPipeline (self : Job) (s : Store) : Pipeline Key Value where
  watched := [(.dependents self.id, s.ver (.dependents self.id))]
  commandStack := [hset self.id { status := some .canceled }]

/-- An iteration of `cancel` with its own pipeline, which watches the dependents of the job. -/
structure Attempted (job : Job) (now : Time) (s : Store) (status : JobStatus) (u : Store) :
    Prop where
  origin : u.origin job.id = s.origin job.id
  stays : ¬job.ReleasesItself s → JobPlace.of job.id job.origin now u =
    (JobPlace.of job.id job.origin now s).leave job.origin status
  released : job.ReleasesItself s → JobPlace.of job.id job.origin now u =
    ((JobPlace.of job.id job.origin now s).release job.origin).leave job.origin .queued
  disturbed : job.ReleasesItself s → (job.ownPipeline s).unchanged u = false
  once : ¬job.ReleasesItself u

/-- A job that has not been released is not released later either. -/
lemma releasesItself_of_advanced {queued : JobId → Prop} {t : Store} (h : Advanced s queued t)
    (ht : self.ReleasesItself t) : self.ReleasesItself s := by
  obtain ⟨hdependent, d, hok, hallowed⟩ := ht
  have hdata : (s.val (.job self.id)).data.isSome := by
    rw [← h.data]
    exact restore_isSome hok
  obtain ⟨d', hok'⟩ := exists_restore self.id hdata
  refine ⟨h.fewer _ _ hdependent, d', hok', ?_⟩
  have hsame : ∀ status, d'.statusAllowed status = d.statusAllowed status := fun status => by
    simp only [statusAllowed, allowedStatuses, restore_allows hok, restore_allows hok', h.allows]
  rw [h.dependencies, statusesAllowedIn, List.all_eq_true] at hallowed
  rw [statusesAllowedIn, List.all_eq_true]
  intro id hid
  have hid' := hallowed id hid
  by_cases hq : queued id
  · -- a job that is queued holds up the others
    rw [h.status id hq] at hid'
    simp only [statusAllowed, allowedStatuses] at hid'
    split at hid' <;> simp at hid'
  · rwa [h.kept id hq, ← hsame] at hid'

lemma releasesItself_of_leaveCommands {dependencies : List Job}
    {trim leaving : List (Command Key Value)} {t v : Store} (htrim : self.Trims now trim)
    (hleave : self.leaveIn t now = .ok leaving)
    (h : self.ReleasesItself
      ((Command.seq (self.leaveCommands dependencies trim leaving now)).run v)) :
    self.ReleasesItself v := by
  have hkeeps : ∀ k : Key, (∀ id, k ≠ .dependents id) → (∀ key, k ≠ .list key) →
      k ≠ .executions self.id → (∀ name, k ≠ .wip name) → (∀ kind name, k ≠ .registry kind name) →
      ((Command.seq (self.leaveCommands dependencies trim leaving now)).run v).val k = v.val k :=
    fun k h₁ h₂ h₃ h₄ h₅ => keeps_leaveCommands htrim hleave h₁ h₂ h₃ h₄ h₅ v
  obtain ⟨hdependent, d, hok, hallowed⟩ := h
  rw [hkeeps _ (by simp) (by simp) (by simp) (by simp) (by simp)] at hok
  refine ⟨dependents_leaveCommands htrim hleave hdependent, d, hok, ?_⟩
  rw [hkeeps _ (by simp) (by simp) (by simp) (by simp) (by simp)] at hallowed
  rw [← hallowed]
  simp only [statusesAllowedIn]
  congr 1
  funext id
  rw [hkeeps (.job id) (by simp) (by simp) (by simp) (by simp) (by simp)]

lemma cancelAttempt_attempted {fuel : ℕ} {r : Job × Client}
    (hstatus : (s.val (.job self.id)).status = some status) (hlive : status ≠ .canceled)
    (horigin : s.origin self.id = self.origin)
    (h : (self.cancelAttempt none (some {}) true removeFromDependencies now fuel).run s =
      (.ok r, u)) :
    ∃ status', r = ({ self with status := status' }, some (self.ownPipeline s)) ∧
      self.Attempted now s status u := by
  rw [cancelAttempt, setStatus_buffer Pipeline.immediate_empty, ret_bind] at h
  obtain ⟨watching, s₁, hwatch, h⟩ := run_bind_eq_ok h
  have hwatched : ((.ok (self.ownPipeline s), s) : Except PyError (Pipeline Key Value) × Store) =
      (.ok watching, s₁) := hwatch
  cases hwatched
  obtain ⟨⟨job, client⟩, t, hrun, hrest⟩ := run_bind_eq_ok h
  cases fuel with
  | zero => cases hrun
  | succ fuel =>
    rw [Queue.run_enqueueDependents] at hrun
    cases hrelease : Queue.releaseIn s { self with status := .canceled } (some self.id) true with
    | error e =>
      rw [hrelease] at hrun
      cases hrun
    | ok r₁ =>
      rw [hrelease] at hrun
      obtain ⟨status', hr₁⟩ := releaseIn_parent hrelease
      cases hrun
      rw [hr₁] at hrest
      generalize ht : (Command.seq ((Queue.mk self.origin 180).releaseAll s self.id r₁.1 now)).run s
        = t at hrest
      obtain ⟨rfl, dependencies, trim, leaving, htrim, hleave, rfl⟩ :=
        leaveAll_direct (Client.direct_some rfl) hrest
      have hdecides := decides_excluded s { self with status := .canceled } true
      have hadvanced : Advanced s (· ∈ r₁.1.map Job.id) t :=
        ht ▸ Queue.advanced_of_decides hdecides hrelease now
      have hself : self.id ∈ r₁.1.map Job.id ↔ self.ReleasesItself s :=
        (mem_released_iff hrelease).trans (and_iff_left fun hc => hlive
          (Option.some.inj (hstatus.symm.trans hc)))
      have hgone : self.ReleasesItself s → self.id ∉ t.val (.dependents self.id) := fun hs =>
        ht ▸ Queue.notMem_dependents_released hdecides hrelease (hself.mpr hs)
      have hplace : JobPlace.of self.id self.origin now t =
          if self.id ∈ r₁.1.map Job.id then
            (JobPlace.of self.id self.origin now s).release self.origin
          else JobPlace.of self.id self.origin now s :=
        ht ▸ of_released { self with status := .canceled } hrelease horigin
      have hlater :
          s.Later ((Command.seq (self.leaveCommands dependencies trim leaving now)).run t) :=
        (ht ▸ (Command.seq _).later s).trans ((Command.seq _).later t)
      refine ⟨_, rfl, ?_, fun hs => ?_, fun hs => ?_, fun hs => ?_, fun hu => ?_⟩
      · rw [← hadvanced.origin, Store.origin, keeps_leaveCommands htrim hleave (by simp) (by simp)
          (by simp) (by simp) (by simp)]
        rfl
      · rw [if_neg (mt hself.mp hs)] at hplace
        have hstored : (t.val (.job self.id)).status = some status :=
          (congrArg JobPlace.status hplace).trans hstatus
        exact (of_leaveCommands htrim hleave hstored rfl).trans
          (congrArg (fun p => p.leave self.origin status) hplace)
      · rw [if_pos (hself.mpr hs)] at hplace
        have hstored : (t.val (.job self.id)).status = some .queued :=
          congrArg JobPlace.status hplace
        exact (of_leaveCommands htrim hleave hstored rfl).trans
          (congrArg (fun p => p.leave self.origin .queued) hplace)
      · -- the job has left the key that is watched
        have hne : ¬((Command.seq (self.leaveCommands dependencies trim leaving now)).run t).ver
            (.dependents self.id) = s.ver (.dependents self.id) := fun hver => by
          have hval := (hlater (.dependents self.id)).2 hver
          have hmem : self.id ∈ s.val (.dependents self.id) := hs.1
          rw [← hval] at hmem
          exact hgone hs (dependents_leaveCommands htrim hleave hmem)
        exact (Bool.and_true _).trans (beq_eq_false_iff_ne.mpr hne)
      · have ht' := releasesItself_of_leaveCommands htrim hleave hu
        exact hgone (releasesItself_of_advanced hadvanced ht') ht'.1

lemma run_execute_own (t : Store) :
    ((self.ownPipeline s).execute : Redis Bool).run t =
      if (self.ownPipeline s).unchanged t then
        (.ok true, (hset self.id { status := some .canceled }).run t)
      else (.ok false, t) := by
  rw [Pipeline.execute_of_watched (by simp [ownPipeline]), run_exec]
  rfl

/-- Once the job does not release itself, every iteration finds it at the same place. -/
lemma cancelLoop_settled {fuel : ℕ} {job : Job}
    (hstatus : (s.val (.job self.id)).status = some status) (hlive : status ≠ .canceled)
    (horigin : s.origin self.id = self.origin) (hself : ¬self.ReleasesItself s)
    (hqueued : (JobPlace.of self.id self.origin now s).queued self.origin ≤ 1)
    (h : (cancelLoop true removeFromDependencies now fuel self).run s = (.ok job, u)) :
    self.Leaves now s status u := by
  induction fuel generalizing self s with
  | zero => cases h
  | succ fuel ih =>
    obtain ⟨⟨job₁, client⟩, t, hattempt, h⟩ := run_bind_eq_ok h
    obtain ⟨status', hr, hattempted⟩ := cancelAttempt_attempted hstatus hlive horigin hattempt
    cases hr
    have hplace := hattempted.stays hself
    obtain ⟨committed, v, hexecute, h⟩ := run_bind_eq_ok h
    have hexecuted := (run_execute_own t).symm.trans hexecute
    split at hexecuted
    · cases hexecuted
      cases h
      exact (JobPlace.of_hset rfl).trans (congrArg (·.withStatus .canceled) hplace)
    · cases hexecuted
      have hstored : (t.val (.job self.id)).status = some status :=
        (congrArg JobPlace.status hplace).trans hstatus
      have hleft : (JobPlace.of self.id self.origin now t).queued self.origin ≤ 1 := by
        rw [hplace]
        simp only [JobPlace.leave, Function.update_self]
        omega
      have hrest : ({ self with status := status' } : Job).Leaves now t status u :=
        ih hstored (hattempted.origin.trans horigin) hattempted.once hleft h
      have hagain := @JobPlace.leave_leave _ _ status hqueued
      rw [← hplace] at hagain
      exact hrest.trans (congrArg (·.withStatus .canceled) (hagain.trans hplace))

/-- The place of a job that has released itself: it leaves the queue it was pushed to. -/
def Returns (self : Job) (now : Time) (s s' : Store) : Prop :=
  JobPlace.of self.id self.origin now s' =
    ((((JobPlace.of self.id self.origin now s).release self.origin).leave self.origin
      .queued).leave self.origin .queued).withStatus .canceled

/-- A job that releases itself is found in its queue next. -/
lemma cancelLoop_returns {fuel : ℕ} {job : Job}
    (hstatus : (s.val (.job self.id)).status = some status) (hlive : status ≠ .canceled)
    (horigin : s.origin self.id = self.origin) (hself : self.ReleasesItself s)
    (hqueued : (JobPlace.of self.id self.origin now s).queued self.origin ≤ 1)
    (h : (cancelLoop true removeFromDependencies now fuel self).run s = (.ok job, u)) :
    self.Returns now s u := by
  cases fuel with
  | zero => cases h
  | succ fuel =>
    obtain ⟨⟨job₁, client⟩, t, hattempt, h⟩ := run_bind_eq_ok h
    obtain ⟨status', hr, hattempted⟩ := cancelAttempt_attempted hstatus hlive horigin hattempt
    cases hr
    have hplace := hattempted.released hself
    obtain ⟨committed, v, hexecute, h⟩ := run_bind_eq_ok h
    have hexecuted := (run_execute_own t).symm.trans hexecute
    rw [if_neg (by rw [hattempted.disturbed hself]; exact Bool.false_ne_true)] at hexecuted
    cases hexecuted
    have hstored : (t.val (.job self.id)).status = some .queued := congrArg JobPlace.status hplace
    have hleft : (JobPlace.of self.id self.origin now t).queued self.origin ≤ 1 := by
      rw [hplace]
      simp only [JobPlace.leave, JobPlace.release, Function.update_self]
      omega
    have hrest : ({ self with status := status' } : Job).Leaves now t .queued u :=
      cancelLoop_settled hstored (by simp) (hattempted.origin.trans horigin) hattempted.once hleft h
    exact hrest.trans
      (congrArg (fun p => (p.leave self.origin .queued).withStatus .canceled) hplace)

/-! ## What a cancellation leaves behind -/

lemma canceledIn_iff (now : Time) : self.CanceledIn s ↔
    (JobPlace.of self.id self.origin now s).status = some .canceled ∧
    (∀ name, (JobPlace.of self.id self.origin now s).queued name = 0) ∧
    (JobPlace.of self.id self.origin now s).registries = {.canceled} ∧
    (JobPlace.of self.id self.origin now s).started = ∅ := by
  constructor
  · intro h
    refine ⟨h.status, fun name => List.count_eq_zero.mpr (h.queues name), ?_, ?_⟩
    · refine Set.eq_singleton_iff_unique_mem.mpr ⟨h.canceled, fun kind hkind => ?_⟩
      by_contra hne
      exact h.registries kind hne hkind
    · exact Set.eq_empty_of_forall_notMem h.started
  · rintro ⟨hstatus, hqueues, hregistries, hstarted⟩
    have hmem : ∀ kind, self.id ∈ s.val (.registry kind self.origin) ↔ kind = .canceled :=
      fun kind => Set.ext_iff.mp hregistries kind
    exact {
      status := hstatus
      canceled := (hmem _).mpr rfl
      queues := fun name => List.count_eq_zero.mp (hqueues name)
      registries := fun kind hne hkind => hne ((hmem kind).mp hkind)
      started := fun eid heid => Set.notMem_empty eid (hstarted ▸ heid) }

section Contained
variable (hcontained : self.ContainedIn s status)
include hcontained

lemma ContainedIn.place_registries : (JobPlace.of self.id self.origin now s).registries =
    {kind | registryOf status = some kind} := Set.ext hcontained.registries

lemma ContainedIn.place_started :
    (JobPlace.of self.id self.origin now s).started = ∅ ↔ status ≠ .started := by
  rw [← not_iff_not, not_not, ← hcontained.started]
  exact Set.nonempty_iff_ne_empty.symm

lemma ContainedIn.place_queued_le (name : QueueName) :
    (JobPlace.of self.id self.origin now s).queued name ≤ 1 := by
  rw [show (JobPlace.of self.id self.origin now s).queued name = _ from hcontained.queues name]
  split <;> omega

/-- One removal is enough. -/
lemma ContainedIn.place_left (name : QueueName) :
    Function.update (JobPlace.of self.id self.origin now s).queued self.origin
      ((JobPlace.of self.id self.origin now s).queued self.origin - 1) name = 0 := by
  by_cases hname : name = self.origin
  · subst hname
    have hle : (JobPlace.of self.id self.origin now s).queued self.origin ≤ 1 :=
      hcontained.place_queued_le self.origin
    rw [Function.update_self]
    omega
  · rw [Function.update_of_ne hname,
      show (JobPlace.of self.id self.origin now s).queued name = _ from hcontained.queues name,
      if_neg fun h => hname h.2]

/-- The cancellation has found the stored status. -/
lemma canceledIn_of_leaves (h : self.Leaves now s status u) : self.CanceledIn u ↔
    (status = .started → ∀ eid, (self.id, eid) ∈ s.val (.wip self.origin) →
      eid ∈ (s.val (.executions self.id)).removeRange (0 : ℤ) now) := by
  have hplace : JobPlace.of self.id self.origin now u = _ := h
  have hregistries : insert RegistryKind.canceled
      ((JobPlace.of self.id self.origin now s).registries \
        {kind | registryOf status = some kind}) = {.canceled} := by
    rw [hcontained.place_registries, sdiff_self]
    exact insert_empty_eq _
  rw [canceledIn_iff now, hplace]
  simp only [JobPlace.withStatus, JobPlace.leave, hcontained.place_left, hregistries, true_and,
    implies_true]
  by_cases hstarted : status = .started
  · rw [if_pos hstarted, Set.sdiff_eq_empty]
    exact ⟨fun hsub _ eid heid => hsub heid, fun hall eid heid => hall hstarted eid heid⟩
  · rw [if_neg hstarted, hcontained.place_started]
    exact ⟨fun _ hs => absurd hs hstarted, fun _ => hstarted⟩

/-- The cancellation has found the status that it has set itself. -/
lemma canceledIn_of_leaves_canceled (h : self.Leaves now s .canceled u) :
    self.CanceledIn u ↔ status = .queued := by
  have hplace : JobPlace.of self.id self.origin now u = _ := h
  rw [canceledIn_iff now, hplace]
  simp only [JobPlace.withStatus, JobPlace.leave, hcontained.place_left, true_and, implies_true,
    reduceCtorEq, if_false, hcontained.place_started, hcontained.place_registries]
  have hregistries : insert RegistryKind.canceled
      ({kind | registryOf status = some kind} \ {kind | registryOf .canceled = some kind}) =
        {.canceled} ↔ ∀ kind, registryOf status = some kind → kind = .canceled := by
    rw [Set.eq_singleton_iff_unique_mem]
    simp [registryOf, eq_comm]
  rw [hregistries]
  obtain ⟨hcreated, hcanceled⟩ := hcontained.named
  cases status with
  | created => exact absurd rfl hcreated
  | canceled => exact absurd rfl hcanceled
  | _ => simp [registryOf]

/-- The job has been queued by its own release. -/
lemma canceledIn_of_returns (h : self.Returns now s u) :
    self.CanceledIn u ↔ status = .queued ∨ status = .deferred := by
  have hplace : JobPlace.of self.id self.origin now u = _ := h
  have hregistries : insert RegistryKind.canceled (insert RegistryKind.canceled
      (({kind | registryOf status = some kind} \ {RegistryKind.deferred}) \
        {kind | registryOf .queued = some kind}) \ {kind | registryOf .queued = some kind}) =
          {.canceled} ↔
        ∀ kind, registryOf status = some kind → ¬kind = .deferred → kind = .canceled := by
    rw [Set.eq_singleton_iff_unique_mem]
    simp [registryOf]
  rw [canceledIn_iff now, hplace]
  simp only [JobPlace.withStatus, JobPlace.leave, JobPlace.release, hcontained.place_registries,
    Function.update_self, Nat.add_one_sub_one, Function.update_idem, Function.update_eq_self,
    reduceCtorEq, if_false, hcontained.place_left, implies_true, hcontained.place_started,
    true_and, hregistries]
  obtain ⟨hcreated, hcanceled⟩ := hcontained.named
  cases status with
  | created => exact absurd rfl hcreated
  | canceled => exact absurd rfl hcanceled
  | _ => simp [registryOf]

end Contained

/-! ## The calls of `cancel` -/

section Calls
variable {mode : PipelineMode} {enqueueDependents : Bool} {fuel : ℕ}

/-- The job is not canceled yet. -/
lemma run_cancel_some (hstatus : (s.val (.job self.id)).status = some status)
    (hlive : status ≠ .canceled) (pipe : Pipeline Key Value) :
    (self.cancel (some pipe) enqueueDependents removeFromDependencies now fuel).run s =
      (cancelAttempt { self with status := status } (some pipe) (some pipe) enqueueDependents
        removeFromDependencies now fuel).run s := by
  unfold cancel
  rw [run_bind_ok (run_isStatus_of hstatus self rfl .canceled)]
  simp [hlive]

lemma run_cancel_none (hstatus : (s.val (.job self.id)).status = some status)
    (hlive : status ≠ .canceled) :
    (self.cancel none enqueueDependents removeFromDependencies now fuel).run s =
      (cancelLoop enqueueDependents removeFromDependencies now fuel { self with status := status } >>=
        fun job => .ret (job, none)).run s := by
  unfold cancel
  rw [run_bind_ok (run_isStatus_of hstatus self rfl .canceled)]
  simp [hlive]

lemma cancel_watching (hstatus : (s.val (.job self.id)).status = some status)
    (hlive : status ≠ .canceled) (horigin : s.origin self.id = self.origin)
    (h : (self.cancelAndExecute .watching enqueueDependents removeFromDependencies now fuel).run s =
      (.ok true, u)) : self.Leaves now s .canceled u := by
  have hpipeline : (PipelineMode.watching.pipeline self).run s =
      (.ok (some (self.watchingPipeline s)), s) := rfl
  rw [cancelAndExecute, run_bind_ok hpipeline] at h
  obtain ⟨r, t, hcancel, hexecute⟩ := run_bind_eq_ok h
  rw [run_cancel_some hstatus hlive] at hcancel
  obtain ⟨pipe, hr, hwatched, hleaves⟩ := cancelAttempt_watching horigin hcancel
  obtain ⟨job, client⟩ := r
  cases hr
  have hrun : (pipe.execute : Redis Bool).run t = (.ok true, u) := hexecute
  rw [Pipeline.execute_of_watched hwatched, run_exec] at hrun
  split at hrun
  · cases hrun
    exact hleaves
  · cases hrun

lemma cancel_plain (hstatus : (s.val (.job self.id)).status = some status)
    (hlive : status ≠ .canceled)
    (h : (self.cancelAndExecute .plain enqueueDependents removeFromDependencies now fuel).run s =
      (.ok true, u)) : self.Leaves now s status u := by
  have hpipeline : (PipelineMode.plain.pipeline self).run s = (.ok (some {}), s) := rfl
  rw [cancelAndExecute, run_bind_ok hpipeline] at h
  obtain ⟨r, t, hcancel, hexecute⟩ := run_bind_eq_ok h
  rw [run_cancel_some hstatus hlive] at hcancel
  cases enqueueDependents with
  | true =>
    -- the dependents cannot be read through a pipeline that buffers
    cases hcancel
  | false =>
    obtain ⟨pipe, hr, hwatched, hleaves⟩ :=
      @cancelAttempt_buffered { self with status := status } _ _ _ _ _ _ _ _ hstatus hcancel
    obtain ⟨job, client⟩ := r
    cases hr
    have hrun : (pipe.execute : Redis Bool).run t = (.ok true, u) := hexecute
    rw [Pipeline.run_execute_of_unwatched hwatched] at hrun
    cases hrun
    exact hleaves

lemma cancel_none (hstatus : (s.val (.job self.id)).status = some status)
    (hlive : status ≠ .canceled)
    (h : (self.cancelAndExecute .none enqueueDependents removeFromDependencies now fuel).run s =
      (.ok true, u)) :
    ∃ job, (cancelLoop enqueueDependents removeFromDependencies now fuel
      { self with status := status }).run s = (.ok job, u) := by
  have hpipeline : (PipelineMode.none.pipeline self).run s = (.ok none, s) := rfl
  rw [cancelAndExecute, run_bind_ok hpipeline] at h
  obtain ⟨r, t, hcancel, hret⟩ := run_bind_eq_ok h
  rw [run_cancel_none hstatus hlive] at hcancel
  obtain ⟨job, t', hloop, hr⟩ := run_bind_eq_ok hcancel
  cases hr
  cases hret
  exact ⟨job, hloop⟩

lemma cancelLoop_buffered {job : Job} (hstatus : (s.val (.job self.id)).status = some status)
    (h : (cancelLoop false removeFromDependencies now fuel self).run s = (.ok job, u)) :
    self.Leaves now s status u := by
  cases fuel with
  | zero => cases h
  | succ fuel =>
    obtain ⟨⟨job₁, client⟩, t, hattempt, h⟩ := run_bind_eq_ok h
    obtain ⟨pipe, hr, hwatched, hleaves⟩ := cancelAttempt_buffered hstatus hattempt
    cases hr
    obtain ⟨committed, v, hexecute, h⟩ := run_bind_eq_ok h
    cases (Pipeline.run_execute_of_unwatched hwatched t).symm.trans hexecute
    cases h
    exact hleaves

/-- **When a cancellation is complete.** -/
theorem cancels_iff (hcontained : self.ContainedIn s status)
    (horigin : s.origin self.id = self.origin)
    (hreturned : ((self.cancelAndExecute mode enqueueDependents removeFromDependencies now
      fuel).run s).1 = .ok true) :
    self.CanceledIn ((self.cancelAndExecute mode enqueueDependents removeFromDependencies now
        fuel).run s).2 ↔ self.Cancelable mode enqueueDependents s status now := by
  have hlive := hcontained.named.2
  have hstatus := hcontained.stored
  generalize hrun : (self.cancelAndExecute mode enqueueDependents removeFromDependencies now
    fuel).run s = r at hreturned ⊢
  obtain ⟨result, u⟩ := r
  cases hreturned
  cases mode with
  | watching =>
    rw [canceledIn_of_leaves_canceled hcontained (cancel_watching hstatus hlive horigin hrun)]
    constructor
    · rintro rfl
      exact ⟨fun _ => rfl, by simp, by simp⟩
    · exact fun h => h.immediate rfl
  | plain =>
    rw [canceledIn_of_leaves hcontained (cancel_plain hstatus hlive hrun)]
    exact ⟨fun h => ⟨by simp, h, by simp⟩, fun h => h.listed⟩
  | none =>
    obtain ⟨job, hloop⟩ := cancel_none hstatus hlive hrun
    have hqueued : (JobPlace.of self.id self.origin now s).queued self.origin ≤ 1 :=
      hcontained.place_queued_le self.origin
    by_cases hself : enqueueDependents = true ∧ self.ReleasesItself s
    · obtain ⟨rfl, hself⟩ := hself
      have hreturns : Returns { self with status := status } now s u :=
        cancelLoop_returns hstatus hlive horigin hself hqueued hloop
      rw [canceledIn_of_returns hcontained hreturns]
      constructor
      · intro h
        refine ⟨by simp, fun hstarted => ?_, fun _ _ _ => h⟩
        rw [hstarted] at h
        rcases h with hqueued | hdeferred
        · cases hqueued
        · cases hdeferred
      · exact fun h => h.released rfl rfl hself
    · have hleaves : Leaves { self with status := status } now s status u := by
        cases enqueueDependents with
        | false => exact cancelLoop_buffered hstatus hloop
        | true =>
          exact cancelLoop_settled hstatus hlive horigin (fun h => hself ⟨rfl, h⟩) hqueued hloop
      rw [canceledIn_of_leaves hcontained hleaves]
      exact ⟨fun h => ⟨by simp, h, fun _ hd hs => absurd ⟨hd, hs⟩ hself⟩,
        fun h => h.listed⟩

end Calls

/-- A failed job. -/
def failedJob : Job := { id := "j", origin := "q" }

def failedJobStore : Store :=
  (Command.seq [hset "j" { data := some "", origin := some "q", status := some .failed },
    zadd .failed "q" "j" (100 : ℤ)]).run Store.empty

lemma failedJob_contained : failedJob.ContainedIn failedJobStore .failed where
  stored := rfl
  named := by decide
  queues name := by
    have hempty : failedJobStore.val (.list (queueKey name)) = [] := rfl
    rw [hempty]
    simp
  registries kind := by
    cases kind <;> simp [failedJobStore, failedJob, Store.empty, registryOf]
  started := by simp [failedJobStore, failedJob, Store.empty]

/-- Without a pipeline the job leaves the failed ones. -/
theorem cancels_failed : failedJob.CanceledIn
    ((failedJob.cancelAndExecute .none true true 10 3).run failedJobStore).2 :=
  (cancels_iff failedJob_contained rfl rfl).mpr
    ⟨by simp, by simp, fun _ _ h => absurd h.1 (by decide +kernel)⟩

/-- With a pipeline that watches its dependents it stays there. -/
theorem cancels_failed_watching :
    failedJob.ContainedIn failedJobStore .failed ∧
    ((failedJob.cancelAndExecute .watching true false 10 3).run failedJobStore).1 = .ok true ∧
    "j" ∈ ((failedJob.cancelAndExecute .watching true false 10 3).run failedJobStore).2.val
      (.registry .failed "q") ∧
    ¬failedJob.CanceledIn
      ((failedJob.cancelAndExecute .watching true false 10 3).run failedJobStore).2 := by
  have hfailed : "j" ∈ ((failedJob.cancelAndExecute .watching true false 10 3).run
      failedJobStore).2.val (.registry .failed "q") := by decide +kernel
  exact ⟨failedJob_contained, rfl, hfailed, fun h => h.registries .failed (by simp) hfailed⟩

end Job

end RedisQueue
