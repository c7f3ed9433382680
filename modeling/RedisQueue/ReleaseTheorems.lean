import RedisQueue.Commands

/-!
# The release of dependents, alone

What `enqueue_dependents` reads and writes when no other process runs meanwhile. The reads are
described by functions of the store, the writes by lists of commands.

* `Job.metIn`: what `dependencies_are_met` answers;
* `Queue.releaseIn`: what is to be released;
* `Queue.run_enqueueDependents`: the release, by the commands `Queue.releaseAll`.
-/

namespace RedisQueue

/-! ## Watching -/

/-- The keys that the release of dependents watches. -/
def Watchable : Key → Prop
  | .job _ | .dependents _ => True
  | _ => False

/-- A pipeline in immediate mode none of whose watched keys has changed. -/
structure Watching (s : Store) (pipe : Pipeline Key Value) : Prop where
  watched : pipe.watched ≠ []
  keys : ∀ kv ∈ pipe.watched, Watchable kv.1
  explicitTransaction : pipe.explicitTransaction = false
  commandStack : pipe.commandStack = []
  unchanged : pipe.unchanged s = true

namespace Watching

variable {s : Store} {pipe : Pipeline Key Value}

lemma immediate (h : Watching s pipe) : pipe.immediate = true := by
  simp [Pipeline.immediate, h.explicitTransaction, h.watched]

lemma watch (h : Watching s pipe) (ks : List Key) (hks : ks ≠ []) (hw : ∀ k ∈ ks, Watchable k) :
    ∃ pipe', (pipe.watch ks : Redis (Pipeline Key Value)).run s = (.ok pipe', s) ∧
      Watching s pipe' := by
  refine ⟨{ pipe with watched := pipe.watched ++ ks.map fun k => (k, s.ver k) }, ?_, ?_⟩
  · simp [Pipeline.watch, h.explicitTransaction, hks]
  · refine ⟨by simp [h.watched], ?_, h.explicitTransaction, h.commandStack, ?_⟩
    · simp only [List.mem_append, List.mem_map]
      rintro kv (hkv | ⟨k, hk, rfl⟩)
      · exact h.keys kv hkv
      · exact hw k hk
    have hold := h.unchanged
    simp only [Pipeline.unchanged, List.all_eq_true, List.mem_append, List.mem_map] at hold ⊢
    rintro kv (hkv | ⟨k, -, rfl⟩)
    · exact hold kv hkv
    · simp

lemma start (s : Store) {k : Key} (hk : Watchable k) :
    ∃ pipe, (Pipeline.watch {} [k] : Redis (Pipeline Key Value)).run s = (.ok pipe, s) ∧
      Watching s pipe :=
  ⟨{ watched := [(k, s.ver k)] }, rfl, by simp, by simpa using hk, rfl, rfl, by
    simp [Pipeline.unchanged]⟩

end Watching

/-- The `EXEC` of a transaction that nobody has disturbed. -/
lemma run_execute {s : Store} {pipe : Pipeline Key Value} (hw : pipe.watched ≠ [])
    (hu : pipe.unchanged s = true) :
    (pipe.execute : Redis Bool).run s = (.ok true, (Command.seq pipe.commandStack).run s) := by
  simp [Pipeline.execute, hw, Prog.run_exec, hu]

/-! ## What `dependencies_are_met` reads -/

namespace Job

/-- Whether the statuses of all of `ids` are allowed in `s`. -/
def statusesAllowedIn (self : Job) (s : Store) (ids : List JobId) : Bool :=
  ids.all fun id => self.statusAllowed (s.val (.job id)).status

/-- The outcome of `Job.dependencies_are_met` on a watching pipeline in the store `s`. -/
def metIn (self : Job) (s : Store) (parentJob : Option Job) (excludeJobId : Option JobId)
    (refreshJobStatus : Bool) : Except PyError (Bool × Option Job) :=
  let dependencyIds := dropExcluded excludeJobId (s.val (.dependencies self.id)).elems
  if self.dependencyIds = [] then
    .error (.responseError "wrong number of arguments for 'watch' command")
  else match parentJob, excludeJobId.isSome && parentJob.map Job.id == excludeJobId with
    | some parent, false =>
      (parent.statusIn s refreshJobStatus).map fun r =>
        (!decide (r.1 = .canceled ∨ r.1 = .stopped) &&
          !decide (r.1 = .failed ∧ self.allowDependencyFailures ≠ some true) &&
          self.statusesAllowedIn s (dependencyIds.filter (· ≠ parent.id)), some r.2)
    | parentJob, _ => .ok (self.statusesAllowedIn s dependencyIds, parentJob)

/-- The status of an object that may have been refreshed. -/
def StatusRead (s : Store) (job : Job) (status : JobStatus) : Prop :=
  status = job.status ∨ (s.val (.job job.id)).status = some status

/-- The parent only gets its status refreshed. -/
lemma metIn_parent {self : Job} {s : Store} {parent : Job} {excludeJobId : Option JobId}
    {refreshJobStatus met : Bool} {parent' : Option Job}
    (h : self.metIn s (some parent) excludeJobId refreshJobStatus = .ok (met, parent')) :
    ∃ status, parent' = some { parent with status := status } ∧ StatusRead s parent status := by
  unfold metIn at h
  simp only at h
  split at h
  · cases h
  · split at h
    · next parent₀ heq _ =>
      cases heq
      cases hstatus : parent.statusIn s refreshJobStatus with
      | error e =>
        rw [hstatus] at h
        cases h
      | ok r =>
        rw [hstatus] at h
        cases h
        unfold statusIn at hstatus
        split at hstatus
        · split at hstatus
          · cases hstatus
          · next status hhash =>
            cases hstatus
            exact ⟨_, rfl, .inr hhash⟩
        · cases hstatus
          exact ⟨parent.status, rfl, .inl rfl⟩
    · cases h
      exact ⟨parent.status, rfl, .inl rfl⟩

lemma run_dependenciesAreMet (self : Job) {s : Store} {pipe : Pipeline Key Value}
    (h : Watching s pipe) (parentJob : Option Job) (excludeJobId : Option JobId)
    (refreshJobStatus : Bool) : ∃ pipe', Watching s pipe' ∧
      (self.dependenciesAreMet parentJob (some pipe) excludeJobId refreshJobStatus).run s =
        ((self.metIn s parentJob excludeJobId refreshJobStatus).map fun r =>
          (r.1, r.2, some pipe'), s) := by
  by_cases hids : self.dependencyIds = []
  · refine ⟨pipe, h, ?_⟩
    simp [dependenciesAreMet, metIn, hids, Pipeline.watch, h.explicitTransaction]
    rfl
  obtain ⟨pipe', hrun, h'⟩ := h.watch (self.dependencyIds.map Key.job)
    (by simpa using hids) (by simp [Watchable])
  refine ⟨pipe', h', ?_⟩
  unfold dependenciesAreMet
  simp only
  rw [Prog.run_bind_ok (Prog.run_map_ok some hrun)]
  simp only [Client.query, Pipeline.query, h'.immediate, if_true]
  rw [Prog.run_bind_ok (Prog.run_read _ _)]
  simp only [metIn, if_neg hids]
  have hall : ∀ ids : List JobId, (self.statusesAreAllowed ids).run s =
      (.ok (self.statusesAllowedIn s ids), s) := fun ids => Prog.run_read _ _
  generalize dropExcluded excludeJobId (s.val (.dependencies self.id)).elems = ids
  generalize (excludeJobId.isSome && parentJob.map Job.id == excludeJobId) = excluded
  cases parentJob with
  | none =>
    rw [Prog.run_bind_ok (hall _)]
    rfl
  | some parent =>
    cases excluded with
    | true =>
      rw [Prog.run_bind_ok (hall _)]
      rfl
    | false =>
      cases hstatus : parent.statusIn s refreshJobStatus with
      | error e =>
        rw [Prog.run_bind_error (by rw [run_getStatus, hstatus])]
        simp only [hstatus]
        rfl
      | ok r =>
        rw [Prog.run_bind_ok (by rw [run_getStatus, hstatus])]
        simp only [hstatus]
        by_cases hcanceled : r.1 = .canceled ∨ r.1 = .stopped
        · simp [hcanceled, Except.map]
        by_cases hfailed : r.1 = .failed ∧ self.allowDependencyFailures ≠ some true
        · simp [hfailed, Except.map]
        by_cases hnil : ids.filter (· ≠ parent.id) = []
        · rw [if_neg hcanceled, if_neg hfailed, if_pos hnil, hnil]
          simp [hcanceled, hfailed, statusesAllowedIn, Except.map]
        · rw [if_neg hcanceled, if_neg hfailed, if_neg hnil, Prog.run_bind_ok (hall _)]
          simp [hcanceled, hfailed, Except.map]

end Job

/-! ## The release -/

namespace Queue

/-- The outcome of `jobsToEnqueue` on a watching pipeline in the store `s`. -/
def releasable (s : Store) (excludeJobId : Option JobId) (refreshJobStatus : Bool) :
    List (Option Job) → Job → Except PyError (List Job × Job)
  | [], parent => .ok ([], parent)
  | none :: rest, parent => releasable s excludeJobId refreshJobStatus rest parent
  | some dependent :: rest, parent =>
    match dependent.metIn s (some parent) excludeJobId refreshJobStatus with
    | .error e => .error e
    | .ok (met, parent') =>
      (releasable s excludeJobId refreshJobStatus rest (parent'.getD parent)).map fun r =>
        (if met && dependent.status != .canceled then dependent :: r.1 else r.1, r.2)

lemma run_jobsToEnqueue {s : Store} (excludeJobId : Option JobId) (refreshJobStatus : Bool)
    (dependents : List (Option Job)) (parent : Job) {pipe : Pipeline Key Value}
    (h : Watching s pipe) : ∃ pipe', Watching s pipe' ∧
      (jobsToEnqueue excludeJobId refreshJobStatus dependents parent (some pipe)).run s =
        ((releasable s excludeJobId refreshJobStatus dependents parent).map fun r =>
          (r.1, r.2, some pipe'), s) := by
  induction dependents generalizing parent pipe with
  | nil => exact ⟨pipe, h, rfl⟩
  | cons dependent rest ih =>
    cases dependent with
    | none => exact ih parent h
    | some dependent =>
      obtain ⟨pipe₁, h₁, hrun⟩ :=
        dependent.run_dependenciesAreMet h (some parent) excludeJobId refreshJobStatus
      simp only [jobsToEnqueue, releasable]
      cases hmet : dependent.metIn s (some parent) excludeJobId refreshJobStatus with
      | error e =>
        refine ⟨pipe₁, h₁, ?_⟩
        rw [Prog.run_bind_error (by rw [hrun, hmet]; rfl)]
        rfl
      | ok r =>
        obtain ⟨pipe₂, h₂, hrest⟩ := ih (r.2.getD parent) h₁
        refine ⟨pipe₂, h₂, ?_⟩
        rw [Prog.run_bind_ok (by rw [hrun, hmet]; rfl)]
        cases hjobs : releasable s excludeJobId refreshJobStatus rest (r.2.getD parent) with
        | error e =>
          rw [Prog.run_bind_error (by rw [hrest, hjobs]; rfl)]
          simp only [hjobs]
          rfl
        | ok jobs =>
          rw [Prog.run_bind_ok (by rw [hrest, hjobs]; rfl)]
          simp only [hjobs, Except.map]
          split <;> rfl

/-- The commands of the loop over the jobs that `enqueue_dependents` releases. -/
def releaseCommands (self : Queue) (jobs : List Job) (now : Time) : List (Command Key Value) :=
  jobs.flatMap fun dependent => zrem .deferred dependent.origin dependent.id ::
    enqueueCommands (self.queueFor dependent) dependent (dependent.enqueueAtFront.getD false) now

lemma mem_releaseCommands {self : Queue} {jobs : List Job} {now : Time} {c : Command Key Value}
    (hc : c ∈ self.releaseCommands jobs now) : ∃ job ∈ jobs,
      c = zrem .deferred job.origin job.id ∨ EnqueueCommand (self.queueFor job) job now c := by
  obtain ⟨job, hjob, hc⟩ := List.mem_flatMap.mp hc
  refine ⟨job, hjob, ?_⟩
  rcases List.mem_cons.mp hc with rfl | hc
  · exact .inl rfl
  · exact .inr (enqueueCommand_of_mem hc)

lemma enqueueEach_buffer {pipe : Pipeline Key Value} (h : pipe.immediate = false) (self : Queue)
    (now : Time) {jobs : List Job} (ht : ∀ job ∈ jobs, job.ttl ≠ some 0) :
    self.enqueueEach now jobs (some pipe) =
      .ret (some (pipe.buffer (self.releaseCommands jobs now))) := by
  induction jobs generalizing pipe with
  | nil => simp [enqueueEach, releaseCommands]
  | cons job jobs ih =>
    have hjob : job.ttl ≠ some 0 := ht job List.mem_cons_self
    have hrest := fun cs : List (Command Key Value) => @ih (pipe.buffer cs) (by simpa using h)
      fun j hj => ht j (List.mem_cons_of_mem job hj)
    simp [enqueueEach, Client.command_buffer, h, enqueueJob_buffer, hjob, hrest, releaseCommands]

/-- The outcome of reading the dependents of `job` in the store `s`: those that are to be
enqueued, and the job with its status. -/
def releaseIn (s : Store) (job : Job) (excludeJobId : Option JobId) (refreshJobStatus : Bool) :
    Except PyError (List Job × Job) :=
  if (s.val (.dependents job.id)).elems = [] then .ok ([], job)
  else match Job.restoreMany
      ((s.val (.dependents job.id)).elems.map fun id => (id, s.val (.job id))) with
    | .error e => .error e
    | .ok fetched => releasable s excludeJobId refreshJobStatus fetched job

/-- What is left of the dependents of `id` once `jobs` have been enqueued. -/
def forgetCommand (s : Store) (id : JobId) (jobs : List Job) : Command Key Value :=
  if jobs.length = (s.val (.dependents id)).elems.length then .del (.dependents id)
  else .alter (.dependents id) fun d => d.eraseAll (jobs.map Job.id)

/-- The commands of `enqueue_dependents` in the store `s`. -/
def releaseAll (self : Queue) (s : Store) (id : JobId) (jobs : List Job) (now : Time) :
    List (Command Key Value) :=
  if jobs = [] then [] else self.releaseCommands jobs now ++ [forgetCommand s id jobs]

lemma mem_of_releasable {s : Store} {excludeJobId : Option JobId} {refreshJobStatus : Bool}
    {dependents : List (Option Job)} {parent : Job} {r : List Job × Job}
    (h : releasable s excludeJobId refreshJobStatus dependents parent = .ok r) {job : Job}
    (hjob : job ∈ r.1) : some job ∈ dependents := by
  induction dependents generalizing parent r with
  | nil =>
    cases h
    simp at hjob
  | cons dependent rest ih =>
    cases dependent with
    | none => exact List.mem_cons_of_mem _ (ih h hjob)
    | some dependent =>
      simp only [releasable] at h
      split at h
      · cases h
      · next met parent' _ =>
        cases hrest : releasable s excludeJobId refreshJobStatus rest (parent'.getD parent) with
        | error e =>
          rw [hrest] at h
          cases h
        | ok r' =>
          rw [hrest] at h
          cases h
          simp only at hjob
          split at hjob
          · rcases List.mem_cons.mp hjob with rfl | hjob
            · exact List.mem_cons_self
            · exact List.mem_cons_of_mem _ (ih hrest hjob)
          · exact List.mem_cons_of_mem _ (ih hrest hjob)

/-- The parent only gets its status refreshed. -/
lemma releasable_parent {s : Store} {excludeJobId : Option JobId} {refreshJobStatus : Bool}
    {dependents : List (Option Job)} {parent : Job} {r : List Job × Job}
    (h : releasable s excludeJobId refreshJobStatus dependents parent = .ok r) :
    ∃ status, r.2 = { parent with status := status } ∧ Job.StatusRead s parent status := by
  induction dependents generalizing parent r with
  | nil =>
    cases h
    exact ⟨parent.status, rfl, .inl rfl⟩
  | cons dependent rest ih =>
    cases dependent with
    | none => exact ih h
    | some dependent =>
      simp only [releasable] at h
      split at h
      · cases h
      · next met parent' hmet =>
        obtain ⟨status, rfl, hrefreshed⟩ := Job.metIn_parent hmet
        cases hrest : releasable s excludeJobId refreshJobStatus rest
            { parent with status := status } with
        | error e =>
          simp only [Option.getD_some, hrest] at h
          cases h
        | ok r' =>
          simp only [Option.getD_some, hrest] at h
          cases h
          obtain ⟨status', hr, hrefreshed'⟩ := ih hrest
          refine ⟨status', hr, ?_⟩
          rcases hrefreshed' with rfl | hhash
          · exact hrefreshed
          · exact .inr hhash

/-- What `enqueue_dependents` reads comes from the hashes of the dependents. -/
lemma mem_of_releaseIn {s : Store} {job : Job} {excludeJobId : Option JobId}
    {refreshJobStatus : Bool} {r : List Job × Job}
    (h : releaseIn s job excludeJobId refreshJobStatus = .ok r) {dependent : Job}
    (hd : dependent ∈ r.1) : dependent.id ∈ s.val (.dependents job.id) ∧
      s.val (.job dependent.id) ≠ default ∧
      Job.restore dependent.id (s.val (.job dependent.id)) = .ok dependent := by
  unfold releaseIn at h
  split at h
  · cases h
    simp at hd
  · split at h
    · cases h
    · next fetched hfetched =>
      obtain ⟨id, data, hmem, hne, hok⟩ :=
        mem_of_fetched (Job.restoreMany_ok hfetched) (mem_of_releasable h hd)
      obtain ⟨id', hid', heq⟩ := List.mem_map.mp hmem
      cases heq
      obtain rfl := (Job.restore_ok hok).1
      exact ⟨hid', hne, hok⟩

lemma run_enqueueDependentsAttempt (self : Queue) {s : Store} {pipe : Pipeline Key Value}
    (h : Watching s pipe) (job : Job) (excludeJobId : Option JobId) (refreshJobStatus : Bool)
    (now : Time) : ∃ pipe' : Pipeline Key Value, pipe'.watched ≠ [] ∧
      (∀ kv ∈ pipe'.watched, Watchable kv.1) ∧ pipe'.unchanged s = true ∧
      (self.enqueueDependentsAttempt job (some pipe) excludeJobId refreshJobStatus now).run s =
        ((releaseIn s job excludeJobId refreshJobStatus).map fun r =>
          (decide (r.1 ≠ []), r.2, some pipe'), s) ∧
      ∀ r, releaseIn s job excludeJobId refreshJobStatus = .ok r →
        pipe'.commandStack = self.releaseAll s job.id r.1 now ∧
        (pipe'.explicitTransaction = true ∨ r.1 = []) := by
  simp only [enqueueDependentsAttempt, releaseIn, Client.query, Pipeline.query, h.immediate, if_true]
  rw [Prog.run_bind_ok (Prog.run_read _ _)]
  by_cases hids : (s.val (.dependents job.id)).elems = []
  · refine ⟨pipe, h.watched, h.keys, h.unchanged, ?_, ?_⟩
    · simp [hids, Except.map]
    · simp [hids, h.commandStack, releaseAll]
  rw [if_neg hids, if_neg hids]
  cases hfetched : Job.restoreMany
      ((s.val (.dependents job.id)).elems.map fun id => (id, s.val (.job id))) with
  | error e =>
    refine ⟨pipe, h.watched, h.keys, h.unchanged, ?_, fun r hr => by cases hr⟩
    rw [Job.fetchMany, bind_assoc, Prog.run_bind_ok (Prog.run_read _ _), hfetched]
    rfl
  | ok fetched =>
    obtain ⟨pipe₁, h₁, hrun⟩ :=
      run_jobsToEnqueue excludeJobId refreshJobStatus fetched job h
    rw [Job.fetchMany, bind_assoc, Prog.run_bind_ok (Prog.run_read _ _), hfetched]
    simp only [Prog.ofExcept_ok, Prog.ret_bind]
    cases hjobs : releasable s excludeJobId refreshJobStatus fetched job with
    | error e =>
      refine ⟨pipe, h.watched, h.keys, h.unchanged, ?_, fun r hr => by cases hr⟩
      rw [Prog.run_bind_error (by rw [hrun, hjobs]; rfl)]
      rfl
    | ok r =>
      rw [Prog.run_bind_ok (by rw [hrun, hjobs]; rfl)]
      have hmulti : (pipe₁.multi : Redis (Pipeline Key Value)) =
          .ret { pipe₁ with explicitTransaction := true } := by
        simp [Pipeline.multi, h₁.explicitTransaction, h₁.commandStack]
      have hbuffer : ({ pipe₁ with explicitTransaction := true } : Pipeline Key Value).immediate =
          false := by
        simp [Pipeline.immediate]
      simp only [Option.getD_some, hmulti, Prog.ret_bind]
      by_cases hnil : r.1 = []
      · refine ⟨{ pipe₁ with explicitTransaction := true }, h₁.watched, h₁.keys, h₁.unchanged,
          ?_, ?_⟩
        · rw [if_pos hnil]
          simp [Except.map, hnil]
        · rintro r' ⟨⟩
          exact ⟨by simp [releaseAll, hnil, h₁.commandStack], .inl rfl⟩
      · have ht : ∀ job ∈ r.1, job.ttl ≠ some 0 := fun job hjob => by
          obtain ⟨id, data, -, -, hok⟩ :=
            mem_of_fetched (Job.restoreMany_ok hfetched) (mem_of_releasable hjobs hjob)
          exact (Job.restore_ok hok).2
        obtain ⟨jobs, job'⟩ := r
        obtain ⟨status, rfl, -⟩ := releasable_parent hjobs
        refine ⟨({ pipe₁ with explicitTransaction := true } : Pipeline Key Value).buffer
          (self.releaseAll s job.id jobs now), by simpa using h₁.watched, by simpa using h₁.keys,
          h₁.unchanged, ?_, ?_⟩
        · rw [if_neg hnil, enqueueEach_buffer hbuffer self now ht]
          simp only [releaseAll, if_neg hnil, forgetCommand]
          split <;> simp [Client.command_buffer, hbuffer, Except.map, hnil]
        · rintro r' ⟨⟩
          exact ⟨by simp [h₁.commandStack], .inl rfl⟩

/-- **The release of dependents, alone.** The outcome of the reads decides, and what they find is
released by one transaction. -/
theorem run_enqueueDependents (self : Queue) (s : Store) (job : Job)
    (excludeJobId : Option JobId) (refreshJobStatus : Bool) (now : Time) (fuel : ℕ) :
    (self.enqueueDependents job none excludeJobId refreshJobStatus now (fuel + 1)).run s =
      match releaseIn s job excludeJobId refreshJobStatus with
      | .error e => (.error e, s)
      | .ok r => (.ok (r.2, none), (Command.seq (self.releaseAll s job.id r.1 now)).run s) := by
  obtain ⟨pipe, hstart, hwatch⟩ := Watching.start s (k := .dependents job.id) trivial
  obtain ⟨pipe', hwatched, -, hunchanged, hrun, hstack⟩ :=
    self.run_enqueueDependentsAttempt hwatch job excludeJobId refreshJobStatus now
  simp only [enqueueDependents, enqueueDependentsLoop, bind_assoc]
  rw [Prog.run_bind_ok hstart]
  cases hin : releaseIn s job excludeJobId refreshJobStatus with
  | error e =>
    rw [Prog.run_bind_error (by rw [hrun, hin]; rfl)]
  | ok r =>
    obtain ⟨hcs, -⟩ := hstack r hin
    rw [Prog.run_bind_ok (by rw [hrun, hin]; rfl)]
    by_cases hnil : r.1 = []
    · simp [hnil, releaseAll]
    · simp only [ne_eq, hnil, not_false_eq_true, decide_true, if_true, Option.getD_some, bind_assoc]
      rw [Prog.run_bind_ok (run_execute hwatched hunchanged), hcs]
      simp

end Queue

end RedisQueue
