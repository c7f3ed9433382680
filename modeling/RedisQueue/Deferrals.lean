import RedisQueue.BatchResults

/-!
# Which jobs are deferred

`Queue.enqueue_job` and `Queue.enqueue_many` decide in different ways whether a job with dependencies
has to wait: `setup_dependencies` fetches the dependencies, `dependencies_are_met` reads their
statuses.

* `Queue.run_enqueueJob_deps`: the verdict of `setup_dependencies`;
* `Job.run_dependenciesMet`: the verdict of `dependencies_are_met`;
* `Queue.run_enqueueMany_single`: the verdict of `enqueue_many`;
* `Queue.defersAlike_iff`: when they agree.
-/

namespace RedisQueue

open Prog

variable {job : Job} {now : Time} {s : Store} {pipe : Pipeline Key Value} {fuel : ℕ}

/-! ## Dependencies as they are stored -/

/-- Every dependency of the job has a status, or does not exist. -/
def Job.DependenciesStored (self : Job) (s : Store) : Prop :=
  ∀ id ∈ self.dependencyIds, s.val (.job id) = default ∨
    ((s.val (.job id)).data.isSome ∧ (s.val (.job id)).status.isSome)

/-- A dependency with the status does not hold the job up. -/
def Job.Accepts (self : Job) (status : JobStatus) : Prop :=
  status = .finished ∨ (status = .failed ∧ self.allowDependencyFailures = some true)

/-- Every dependency that exists has a status that the job accepts. -/
def Job.Accepting (self : Job) (s : Store) : Prop :=
  ∀ id ∈ self.dependencyIds, ∀ status ∈ (s.val (.job id)).status, self.Accepts status

/-- A dependency that exists is not finished. -/
def Job.Unfinished (self : Job) (s : Store) : Prop :=
  ∃ id ∈ self.dependencyIds, ∃ status ∈ (s.val (.job id)).status, status ≠ .finished

instance (self : Job) (s : Store) : Decidable (self.Unfinished s) :=
  inferInstanceAs (Decidable (∃ id ∈ self.dependencyIds, ∃ status ∈ (s.val (.job id)).status,
    status ≠ .finished))

lemma Job.statusAllowed_iff {self : Job} {status : Option JobStatus} :
    self.statusAllowed status = true ↔ ∀ st ∈ status, self.Accepts st := by
  cases status with
  | none => simp [statusAllowed]
  | some st =>
    have hmem : self.statusAllowed (some st) = true ↔ st ∈ self.allowedStatuses := by
      simp [statusAllowed]
    rw [hmem, allowedStatuses]
    split
    · next hallow => simp [Accepts, hallow]
    · next hallow => simp [Accepts, hallow]

lemma Job.allowedIn_iff {self : Job} : self.allowedIn s = true ↔ self.Accepting s := by
  simp only [allowedIn, statusesAllowedIn, List.all_eq_true, statusAllowed_iff, Accepting]

lemma Job.status_of_restore {id : JobId} {h : JobHash} {job : Job} (hr : Job.restore id h = .ok job) :
    job.status = h.status.getD .created := by
  unfold Job.restore at hr
  split at hr
  · cases hr
  · cases hr
    rfl

/-- `fetch_many` finds the dependencies that exist. -/
lemma restoreMany_stored {ids : List JobId} (h : ∀ id ∈ ids, s.val (.job id) = default ∨
      ((s.val (.job id)).data.isSome ∧ (s.val (.job id)).status.isSome)) :
    ∃ jobs, Job.restoreMany (ids.map fun id => (id, s.val (.job id))) = .ok jobs ∧
      ((jobs.reduceOption.any fun dependency => dependency.status ≠ .finished) = true ↔
        ∃ id ∈ ids, ∃ status ∈ (s.val (.job id)).status, status ≠ .finished) := by
  induction ids with
  | nil => exact ⟨[], rfl, by simp⟩
  | cons id ids ih =>
    obtain ⟨jobs, hjobs, hany⟩ := ih fun id hid => h id (List.mem_cons_of_mem _ hid)
    rcases h id List.mem_cons_self with hnone | ⟨hdata, hstatus⟩
    · refine ⟨none :: jobs, ?_, ?_⟩
      · rw [List.map_cons, Job.restoreMany, if_pos hnone, hjobs]
        rfl
      · have hempty : (s.val (.job id)).status = none := by
          rw [hnone]
          rfl
        rw [List.reduceOption_cons_of_none, hany]
        simp [hempty]
    · obtain ⟨dependency, hdependency⟩ := Job.exists_restore id hdata
      obtain ⟨status, hsome⟩ := Option.isSome_iff_exists.mp hstatus
      have hst : dependency.status = status := by
        rw [Job.status_of_restore hdependency, hsome, Option.getD_some]
      refine ⟨some dependency :: jobs, ?_, ?_⟩
      · rw [List.map_cons, Job.restoreMany, if_neg (ne_default_of_data hdata), hdependency, hjobs]
        rfl
      · rw [List.reduceOption_cons_of_some, List.any_cons, Bool.or_eq_true, hany]
        simp [hsome, hst]

/-! ## Single jobs -/

lemma Job.registerDependency_buffer (hpipe : pipe.immediate = false) (self : Job) (now : Time) :
    self.registerDependency (some pipe) now =
      .ret (some (pipe.buffer (self.registerCommands now))) := by
  have hloop : ∀ (ids : List JobId) (pipe : Pipeline Key Value), pipe.immediate = false →
      self.registerDependencyLoop ids (some pipe) = .ret (some (pipe.buffer
        (ids.flatMap fun id => [.alter (.dependents id) fun d => d.insert self.id,
          .alter (.dependencies self.id) fun d => d.insert id]))) := fun ids => by
    induction ids with
    | nil => exact fun pipe _ => by simp [registerDependencyLoop]
    | cons id ids ih =>
      intro pipe hpipe
      rw [registerDependencyLoop, Client.command_buffer hpipe, Prog.ret_bind,
        Client.command_buffer (by simpa using hpipe), Prog.ret_bind, ih _ (by simpa using hpipe)]
      simp
  rw [registerDependency, Client.command_buffer hpipe, Prog.ret_bind,
    hloop _ _ (by simpa using hpipe)]
  simp [registerCommands]

namespace Queue
variable {self : Queue}

/-- The pipeline of `setup_dependencies` after its reads. -/
def attending (job : Job) (s : Store) : Pipeline Key Value :=
  { watching ({ watched := [(.dependencies job.id, s.ver (.dependencies job.id))] } :
      Pipeline Key Value) job.dependencyIds s with explicitTransaction := true }

/-- The commands that defer the job. -/
def deferCommands (job : Job) (now : Time) : List (Command Key Value) :=
  hset job.id { status := some .deferred } :: (job.registerCommands now ++
    hset job.id (({ job with status := .deferred } : Job).toDict true) ::
      cleanupCommands job.id job.ttl now)

/-- **`setup_dependencies` defers the job if a dependency that exists is not finished.** -/
lemma run_setupDependenciesAttempt (hids : job.dependencyIds ≠ [])
    (hstored : job.DependenciesStored s) (ht : job.ttl ≠ some 0) :
    (setupDependenciesAttempt job {} now).run s = (.ok (if job.Unfinished s
      then (true, { job with status := .deferred },
        some ((attending job s).buffer (deferCommands job now)))
      else (false, job, some (attending job s))), s) := by
  obtain ⟨jobs, hjobs, hany⟩ := restoreMany_stored hstored
  have hwatch : (Pipeline.watch {} [.dependencies job.id] : Redis (Pipeline Key Value)).run s =
      (.ok { watched := [(.dependencies job.id, s.ver (.dependencies job.id))] }, s) := by
    simp [Pipeline.watch]
  generalize hwatching : ({ watched := [(.dependencies job.id, s.ver (.dependencies job.id))] } :
    Pipeline Key Value) = watched at hwatch
  have hmulti : watched.explicitTransaction = false ∧ watched.commandStack = [] := by
    simp [← hwatching]
  have hfetch : (job.fetchDependencies true (some watched)).run s =
      (.ok (jobs.reduceOption, some (watching watched job.dependencyIds s)), s) := by
    have hnonempty : (true && !job.dependencyIds.isEmpty) = true := by simpa using hids
    unfold Job.fetchDependencies
    dsimp only
    rw [if_pos hnonempty, Prog.run_bind_ok (Prog.run_map_ok some (run_watch hids hmulti.1 s)),
      Job.fetchMany, bind_assoc, Prog.run_bind_ok (Prog.run_read _ s), hjobs]
    rfl
  have hbegin : ((watching watched job.dependencyIds s).multi : Redis (Pipeline Key Value)) =
      .ret (attending job s) := by
    simp [Pipeline.multi, watching, attending, ← hwatching]
  have himmediate : (attending job s).immediate = false := by
    simp [Pipeline.immediate, attending]
  rw [setupDependenciesAttempt, Prog.run_bind_ok hwatch, Prog.run_bind_ok hfetch]
  dsimp only
  rw [Option.getD_some, hbegin, Prog.ret_bind]
  by_cases hunfinished : job.Unfinished s
  · rw [if_pos (hany.mpr hunfinished), if_pos hunfinished, Job.setStatus_buffer himmediate,
      Prog.ret_bind]
    dsimp only
    rw [Job.registerDependency_buffer (by simpa using himmediate), Prog.ret_bind,
      Job.save_buffer (by simpa using himmediate), Prog.ret_bind,
      Job.cleanup_buffer (by simpa using himmediate) _ ht, Prog.ret_bind]
    simp [deferCommands, Job.registerCommands]
  · rw [if_neg (mt hany.mp hunfinished), if_neg hunfinished]
    rfl

/-- Alone the transaction is not disturbed. -/
lemma run_setupDependencies_deps (hids : job.dependencyIds ≠ [])
    (hstored : job.DependenciesStored s) (ht : job.ttl ≠ some 0) :
    ∃ s', (setupDependencies job none now (fuel + 1)).run s =
      (.ok (if job.Unfinished s then { job with status := .deferred } else job, none), s') := by
  have hattempt := @run_setupDependenciesAttempt job now s hids hstored ht
  have hloop : ∃ s', (setupDependenciesLoop job now (fuel + 1)).run s =
      (.ok (if job.Unfinished s then { job with status := .deferred } else job), s') := by
    rw [setupDependenciesLoop, Prog.run_bind_ok hattempt]
    by_cases hunfinished : job.Unfinished s
    · have hunchanged : ((attending job s).buffer (deferCommands job now)).unchanged s = true := by
        simp [Pipeline.unchanged, attending, watching]
      rw [if_pos hunfinished, if_pos hunfinished]
      dsimp only
      rw [if_pos rfl, Option.getD_some, Pipeline.execute_of_watched (by simp [attending, watching]),
        Prog.exec_bind, Prog.run_exec, if_pos hunchanged]
      exact ⟨_, rfl⟩
    · rw [if_neg hunfinished, if_neg hunfinished]
      exact ⟨s, rfl⟩
  obtain ⟨s', hloop⟩ := hloop
  refine ⟨s', ?_⟩
  generalize (if job.Unfinished s then ({ job with status := .deferred } : Job) else job) = job'
    at hloop ⊢
  cases hdeps : job.dependencyIds with
  | nil => exact absurd hdeps hids
  | cons id ids =>
    simp only [setupDependencies, hdeps]
    rw [Prog.run_bind_ok hloop]
    rfl

/-- **What `enqueue_job` returns.** -/
lemma run_enqueueJob_deps (self : Queue) (atFront : Bool) (hids : job.dependencyIds ≠ [])
    (hstored : job.DependenciesStored s) (ht : job.ttl ≠ some 0) :
    ∃ job' s', (self.enqueueJob job none atFront false now (fuel + 1)).run s =
      (.ok (job', none), s') ∧
        (job'.status = .deferred ↔ job.Unfinished s ∨ job.status = .deferred) := by
  obtain ⟨s₁, hsetup⟩ := @run_setupDependencies_deps { job with origin := self.name } now s fuel
    hids hstored ht
  have hiff : Job.Unfinished { job with origin := self.name } s ↔ job.Unfinished s := Iff.rfl
  generalize hjob₁ : (if Job.Unfinished { job with origin := self.name } s
    then { job with origin := self.name, status := .deferred }
    else ({ job with origin := self.name } : Job)) = job₁ at hsetup
  have ht₁ : job₁.ttl ≠ some 0 := by
    rw [← hjob₁]
    split <;> exact ht
  have hstatus : job₁.status = .deferred ↔ job.Unfinished s ∨ job.status = .deferred := by
    rw [← hjob₁]
    split
    · next h => simp [hiff.mp h]
    · next h => simp [mt hiff.mpr h]
  rw [enqueueJob, Bool.false_and, if_neg Bool.false_ne_true, Prog.run_bind_ok hsetup]
  dsimp only
  rw [Pipeline.command_eq_buffer Pipeline.immediate_empty, Prog.ret_bind,
    Prog.run_bind_ok (Pipeline.run_execute_of_unwatched rfl s₁), Prog.pure_eq, Prog.ret_bind]
  generalize (Command.seq _).run s₁ = s₂
  by_cases hdeferred : job₁.status = .deferred
  · rw [if_neg (not_not_intro hdeferred)]
    exact ⟨job₁, s₂, rfl, hstatus⟩
  · -- the job is pushed
    have hbuffer := @Queue.enqueueOnPipeline_buffer {} Pipeline.immediate_empty self
      (self._prepareForQueue job₁ now) ht₁ (job₁.status == .deferred) atFront now
    rw [if_pos hdeferred, _enqueueJob, if_neg Bool.false_ne_true]
    dsimp only
    rw [hbuffer, Prog.ret_bind]
    dsimp only
    rw [Option.getD_some, Prog.run_bind_ok (Pipeline.run_execute_of_unwatched rfl s₂)]
    refine ⟨_, _, rfl, ?_⟩
    rw [← hstatus]
    exact iff_of_false (by simp) hdeferred

end Queue

/-! ## The verdict on a registered job -/

/-- `Job.register_dependency`, then `Job.dependencies_are_met`. -/
def Job.dependenciesMet (self : Job) (now : Time) : Redis Bool := do
  let _ ← self.registerDependency none now
  let (met, _) ← self.dependenciesAreMet none none none true
  return met

/-- Through a connection the registration takes place at once. -/
lemma Job.run_registerDependency_none (self : Job) (now : Time) (s : Store) :
    (self.registerDependency none now).run s =
      (.ok none, (Command.seq (self.registerCommands now)).run s) := by
  have hloop : ∀ ids s, (self.registerDependencyLoop ids none).run s =
      (.ok none, (Command.seq (ids.flatMap fun id =>
        [.alter (.dependents id) fun d => d.insert self.id,
          .alter (.dependencies self.id) fun d => d.insert id])).run s) := fun ids => by
    induction ids with
    | nil => exact fun _ => rfl
    | cons id ids ih => exact fun s => ih _
  exact hloop self.dependencyIds _

/-- **What `dependencies_are_met` returns.** -/
lemma Job.run_dependenciesMet (hdeps : ∀ id ∈ s.val (.dependencies job.id), id ∈ job.dependencyIds)
    (now : Time) : ∃ s', (job.dependenciesMet now).run s = (.ok (job.allowedIn s), s') := by
  have hregister := job.run_registerDependency_none now s
  refine ⟨(Command.seq (job.registerCommands now)).run s, ?_⟩
  rw [dependenciesMet, Prog.run_bind_ok hregister, ← job.statusesAllowedIn_registered hdeps]
  rfl

namespace Queue
variable {self : Queue} {jd : EnqueueData}

/-! ## Batches -/

/-- The entry asks for a job with the same id, the same dependencies and the same tolerance. -/
structure Describes (jd : EnqueueData) (job : Job) : Prop where
  id : jd.id = job.id
  dependencies : jd.dependsOn.map DependsOn.dependencies = some job.dependencyIds
  allowFailure : jd.dependsOn.bind DependsOn.allowFailure = job.allowDependencyFailures

/-- The job that `enqueue_many` makes of the entry has the verdict of the job, unless it depends on
itself: it is saved as deferred before it is checked. -/
lemma allowedIn_deferred (h : Describes jd job) :
    (self.newJob jd .deferred none).allowedIn
        ((hset jd.id ((self.newJob jd .deferred none).toDict true)).run s) = true ↔
      job.Accepting s ∧ job.id ∉ job.dependencyIds := by
  have hids : (self.newJob jd .deferred none).dependencyIds = job.dependencyIds := by
    simp [newJob, h.dependencies]
  have haccepts : ∀ status, (self.newJob jd .deferred none).Accepts status ↔ job.Accepts status := by
    intro status
    simp [Job.Accepts, newJob, h.allowFailure]
  rw [Job.allowedIn_iff]
  simp only [Job.Accepting, hids, haccepts]
  constructor
  · intro hall
    have hnot : job.id ∉ job.dependencyIds := fun hself => by
      have hdeferred := hall job.id hself .deferred (by simp [h.id, JobHash.update, Job.toDict, newJob])
      simp [Job.Accepts] at hdeferred
    refine ⟨fun id hid status hstatus => hall id hid status ?_, hnot⟩
    have hne : id ≠ jd.id := fun heq => hnot (h.id ▸ heq ▸ hid)
    simpa [hne] using hstatus
  · rintro ⟨hall, hnot⟩ id hid status hstatus
    have hne : id ≠ jd.id := fun heq => hnot (h.id ▸ heq ▸ hid)
    exact hall id hid status (by simpa [hne] using hstatus)

/-- A job that is checked alone. -/
lemma run_getJobs_single (hids : job.dependencyIds ≠ []) (s : Store) :
    ∃ s', (getJobsWithMetDependencies now (fuel + 1) [(0, job)] {}).run s =
      (.ok (if registeredVerdict job now s then ([(0, job)], []) else ([], [(0, job)])), s') := by
  have hcheck := @run_checkDependencies now job {} fuel hids rfl rfl s
  rw [getJobsWithMetDependencies, Prog.run_bind_ok hcheck]
  cases registeredVerdict job now s with
  | true => exact ⟨_, rfl⟩
  | false => exact ⟨_, rfl⟩

/-- The pass over the entries with dependencies, when there is one. -/
lemma run_enqueueWithDeps_single (self : Queue) (hjd : jd.Accepted) (hpipe : pipe.watched = [])
    (hids : (self.newJob jd .deferred none).dependencyIds ≠ []) (s : Store) :
    ∃ job' client s', (self.enqueueWithDeps none [(0, jd)] none (some pipe) none now
      (fuel + 1)).run s = (.ok ([(0, job')], client), s') ∧
        (job'.status = .deferred ↔ registeredVerdict (self.newJob jd .deferred none) now
          ((Command.seq (pipe.commandStack ++
            [hset jd.id ((self.newJob jd .deferred none).toDict true)])).run s) = false) := by
  have haccepted : ∀ jd' ∈ [((0 : ℕ), jd)], jd'.2.Accepted := fun jd' hjd' => by
    obtain rfl := List.mem_singleton.mp hjd'
    exact hjd
  have ht := @newJob_ttl self none jd hjd .deferred
  have hdeferred : (self.newJob jd .deferred none).status = .deferred := rfl
  have himmediate : pipe.immediate = false := by simp [Pipeline.immediate, hpipe]
  have hsaved := @saveDeferred_ok self none pipe [(0, jd)] haccepted himmediate
  have hcommands : self.deferredCommands none [(0, jd)] =
      [hset jd.id ((self.newJob jd .deferred none).toDict true)] := rfl
  have hjobs : self.deferredJobs none [(0, jd)] = [(0, self.newJob jd .deferred none)] := rfl
  rw [hcommands, hjobs] at hsaved
  generalize self.newJob jd .deferred none = job₀ at *
  have hexecute : ((pipe.buffer [hset jd.id (job₀.toDict true)]).execute : Redis Bool).run s =
      (.ok true, (Command.seq (pipe.commandStack ++ [hset jd.id (job₀.toDict true)])).run s) := by
    rw [Pipeline.run_execute_of_unwatched (by simpa using hpipe), Pipeline.buffer_commandStack]
  obtain ⟨s₂, hget⟩ := @run_getJobs_single job₀ now fuel hids
    ((Command.seq (pipe.commandStack ++ [hset jd.id (job₀.toDict true)])).run s)
  have hidx : ∀ job : Job, idToIdx [(0, job₀)] job = 0 := fun job => by
    unfold idToIdx
    cases hfind : [((0 : ℕ), job₀)].reverse.find? fun d => d.2.id == job.id with
    | none => rfl
    | some d =>
      obtain rfl : d = (0, job₀) := by simpa using List.mem_of_find?_eq_some hfind
      rfl
  have hne : [((0 : ℕ), jd)] ≠ [] := List.cons_ne_nil _ _
  rw [enqueueWithDeps, if_neg hne, hsaved, Prog.ret_bind]
  dsimp only [executeOwn]
  rw [bind_assoc, Option.getD_some, Prog.run_bind_ok hexecute, Prog.pure_eq, Prog.ret_bind,
    Option.getD_some, Prog.run_bind_ok hget]
  cases registeredVerdict job₀ now
    ((Command.seq (pipe.commandStack ++ [hset jd.id (job₀.toDict true)])).run s) with
  | true =>
    -- the dependencies are met, and the job is pushed
    have hbuffer := enqueueMet_buffer (@consistent_nil self now [(0, job₀)] (by simp))
      Pipeline.immediate_empty fun d hd => by
        obtain rfl := List.mem_singleton.mp hd
        exact ht
    rw [if_pos rfl]
    dsimp only
    rw [hbuffer, Prog.ret_bind]
    dsimp only
    rw [bind_assoc, Option.getD_some,
      Prog.run_bind_ok (Pipeline.run_execute_of_unwatched rfl s₂)]
    generalize (Command.seq _).run s₂ = s₃
    refine ⟨self._prepareForQueue job₀ now, some {}, s₃, ?_, by simp [_prepareForQueue]⟩
    have hindex := hidx (self._prepareForQueue job₀ now)
    simp only [Prog.pure_eq, Prog.ret_bind, Prog.run_ret, List.map_cons, List.map_nil,
      List.reverse_singleton, List.append_nil, hindex]
  | false =>
    rw [if_neg Bool.false_ne_true]
    dsimp only
    refine ⟨job₀, some {}, s₂, ?_, by simp [hdeferred]⟩
    have hindex := hidx job₀
    simp only [enqueueMet, Prog.pure_eq, Prog.ret_bind, Option.getD_some, List.map_cons,
      List.map_nil, List.nil_append, hindex]
    rfl

/-- **What `enqueue_many` returns.** -/
lemma run_enqueueMany_single (self : Queue) (hjd : jd.Valid) (h : Describes jd job)
    (hdeps : ∀ id ∈ s.val (.dependencies job.id), id ∈ job.dependencyIds) :
    ∃ job' s', (self.enqueueMany none [jd] none none now (fuel + 1)).run s =
      (.ok ([job'], none), s') ∧
        (job'.status = .deferred ↔ ¬(job.Accepting s ∧ job.id ∉ job.dependencyIds)) := by
  obtain ⟨dependsOn, hdepends⟩ : ∃ dependsOn, jd.dependsOn = some dependsOn := by
    cases hdepends : jd.dependsOn with
    | none =>
      have hnone := h.dependencies
      rw [hdepends] at hnone
      cases hnone
    | some dependsOn => exact ⟨dependsOn, rfl⟩
  have hok : validate [jd] = .ok () := validate_ok_iff.mpr fun jd' hjd' hunique => by
    obtain rfl := List.mem_singleton.mp hjd'
    exact ⟨hjd.noDeps hunique, hjd.hasJobId hunique⟩
  have hpasses : uniqueNoDeps [jd] = [] ∧ normalNoDeps [jd] = [] ∧ withDeps [jd] = [(0, jd)] := by
    simp [uniqueNoDeps, normalNoDeps, withDeps, indexed, hdepends]
  have hids : (self.newJob jd .deferred none).dependencyIds = job.dependencyIds := by
    simp [newJob, h.dependencies]
  have hne : (self.newJob jd .deferred none).dependencyIds ≠ [] := by
    have hdependencies := h.dependencies
    rw [hdepends] at hdependencies
    rw [hids, ← Option.some.inj hdependencies]
    exact dependsOn.nonempty
  have hverdict : registeredVerdict (self.newJob jd .deferred none) now
      ((Command.seq (self.registering.commandStack ++
        [hset jd.id ((self.newJob jd .deferred none).toDict true)])).run s) = true ↔
      job.Accepting s ∧ job.id ∉ job.dependencyIds := by
    generalize hs₁ : (Command.seq (self.registering.commandStack ++
      [hset jd.id ((self.newJob jd .deferred none).toDict true)])).run s = s₁
    have hjobs : ∀ id, s₁.val (.job id) = ((hset jd.id
        ((self.newJob jd .deferred none).toDict true)).run s).val (.job id) := fun id => by
      by_cases hid : id = jd.id
      · subst hid
        simp [← hs₁, registering]
      · simp [← hs₁, registering, hid]
    have hid : (self.newJob jd .deferred none).id = job.id := h.id
    have hset : s₁.val (.dependencies (self.newJob jd .deferred none).id) =
        s.val (.dependencies job.id) := by
      rw [hid, ← hs₁]
      simp [registering]
    have hregistered := @Job.statusesAllowedIn_registered now (self.newJob jd .deferred none) s₁
      fun id hmem => by
        rw [hset] at hmem
        rw [hids]
        exact hdeps id hmem
    rw [registeredVerdict, hregistered, allowedIn_congr hjobs]
    exact allowedIn_deferred h
  obtain ⟨job', client, s', hdeferred, hstatus⟩ := @run_enqueueWithDeps_single now self.registering
    fuel jd self hjd.accepted rfl hne s
  refine ⟨job', s', ?_, by rw [hstatus, ← hverdict, Bool.not_eq_true]⟩
  unfold enqueueMany
  rw [hok, Prog.ofExcept_ok, Prog.ret_bind, Option.getD_none,
    Client.command_buffer Pipeline.immediate_empty, Prog.ret_bind, hpasses.1, hpasses.2.1,
    hpasses.2.2, enqueueUniques, Prog.pure_eq, Prog.ret_bind, enqueueNormalNoDeps, if_pos rfl,
    Prog.pure_eq, Prog.ret_bind]
  dsimp only
  rw [Prog.run_bind_ok (by exact hdeferred)]
  rfl

/-! ## The two alike -/

/-- `enqueue_job` defers the job. -/
def EnqueueJobDefers (self : Queue) (job : Job) (atFront : Bool) (now : Time) (fuel : ℕ)
    (s : Store) : Prop :=
  ∃ job' s', (self.enqueueJob job none atFront false now fuel).run s = (.ok (job', none), s') ∧
    job'.status = .deferred

/-- `enqueue_many` leaves the job of the entry deferred. -/
def EnqueueManyDefers (self : Queue) (jd : EnqueueData) (now : Time) (fuel : ℕ) (s : Store) :
    Prop :=
  ∃ job' s', (self.enqueueMany none [jd] none none now fuel).run s = (.ok ([job'], none), s') ∧
    job'.status = .deferred

/-- Both defer the job if and only if `dependencies_are_met` is false. -/
structure DefersAlike (self : Queue) (job : Job) (jd : EnqueueData) (atFront : Bool) (now : Time)
    (fuel : ℕ) (s : Store) : Prop where
  single : self.EnqueueJobDefers job atFront now fuel s ↔
    ((job.dependenciesMet now).run s).1 = .ok false
  batch : self.EnqueueManyDefers jd now fuel s ↔ ((job.dependenciesMet now).run s).1 = .ok false

/-- **The two defer alike exactly when there is a dependency with a status that the job does not
accept, or none has failed, the job is not one of them, and its object is not deferred already.** -/
theorem defersAlike_iff (self : Queue) (atFront : Bool) (now : Time) (fuel : ℕ)
    (hids : job.dependencyIds ≠ []) (hstored : job.DependenciesStored s)
    (hdeps : ∀ id ∈ s.val (.dependencies job.id), id ∈ job.dependencyIds)
    (ht : job.ttl ≠ some 0) (hjd : jd.Valid) (h : Describes jd job) :
    self.DefersAlike job jd atFront now (fuel + 1) s ↔
      (job.Accepting s → (∀ id ∈ job.dependencyIds, (s.val (.job id)).status ≠ some .failed) ∧
        job.id ∉ job.dependencyIds ∧ job.status ≠ .deferred) := by
  obtain ⟨job₁, s₁, hsingle, hstatus₁⟩ := @run_enqueueJob_deps job now s fuel self atFront hids
    hstored ht
  obtain ⟨job₂, s₂, hbatch, hstatus₂⟩ := @run_enqueueMany_single job now s fuel jd self hjd h hdeps
  obtain ⟨s₃, hmet⟩ := Job.run_dependenciesMet hdeps now
  have hdefers₁ : self.EnqueueJobDefers job atFront now (fuel + 1) s ↔
      job.Unfinished s ∨ job.status = .deferred := by
    rw [← hstatus₁]
    constructor
    · rintro ⟨job', s', hrun, hdeferred⟩
      rw [hsingle] at hrun
      cases hrun
      exact hdeferred
    · exact fun hdeferred => ⟨job₁, s₁, hsingle, hdeferred⟩
  have hdefers₂ : self.EnqueueManyDefers jd now (fuel + 1) s ↔
      ¬(job.Accepting s ∧ job.id ∉ job.dependencyIds) := by
    rw [← hstatus₂]
    constructor
    · rintro ⟨job', s', hrun, hdeferred⟩
      rw [hbatch] at hrun
      cases hrun
      exact hdeferred
    · exact fun hdeferred => ⟨job₂, s₂, hbatch, hdeferred⟩
  have hverdict : ((job.dependenciesMet now).run s).1 = .ok false ↔ ¬job.Accepting s := by
    rw [hmet, ← Job.allowedIn_iff, Bool.not_eq_true]
    constructor
    · exact fun heq => Except.ok.inj heq
    · exact fun heq => congrArg Except.ok heq
  -- an accepted dependency that is not finished has failed
  have hunfinished (haccepting : job.Accepting s) : job.Unfinished s ↔
      ¬∀ id ∈ job.dependencyIds, (s.val (.job id)).status ≠ some .failed := by
    constructor
    · rintro ⟨id, hid, status, hstatus, hne⟩ hall
      have hfailed := ((haccepting id hid status hstatus).resolve_left hne).1
      exact hall id hid (by rw [← hfailed]; exact hstatus)
    · intro hnot
      push Not at hnot
      obtain ⟨id, hid, hfailed⟩ := hnot
      exact ⟨id, hid, .failed, hfailed, by simp⟩
  have hrejected (hnot : ¬job.Accepting s) : job.Unfinished s := by
    unfold Job.Accepting at hnot
    push Not at hnot
    obtain ⟨id, hid, status, hstatus, hrefused⟩ := hnot
    exact ⟨id, hid, status, hstatus, fun hfinished => hrefused (.inl hfinished)⟩
  constructor
  · rintro ⟨hone, hmany⟩ haccepting
    rw [hdefers₁, hverdict, hunfinished haccepting] at hone
    rw [hdefers₂, hverdict] at hmany
    have hnot := mt hone.mp (not_not_intro haccepting)
    push Not at hnot
    refine ⟨hnot.1, ?_, hnot.2⟩
    have hboth := mt hmany.mp (not_not_intro haccepting)
    exact (not_not.mp hboth).2
  · intro hcondition
    refine ⟨hdefers₁.trans (Iff.trans ?_ hverdict.symm), hdefers₂.trans (Iff.trans ?_ hverdict.symm)⟩
    · by_cases haccepting : job.Accepting s
      · obtain ⟨hfailed, -, hdeferred⟩ := hcondition haccepting
        rw [hunfinished haccepting]
        simp only [not_not_intro hfailed, hdeferred, or_self, not_not_intro haccepting]
      · exact iff_of_true (.inl (hrejected haccepting)) haccepting
    · by_cases haccepting : job.Accepting s
      · obtain ⟨-, hself, -⟩ := hcondition haccepting
        exact iff_of_false (not_not_intro ⟨haccepting, hself⟩) (not_not_intro haccepting)
      · exact iff_of_true (fun hboth => haccepting hboth.1) haccepting

/-! ### A job that tolerates failures -/

/-- The only job has the status. -/
def toleratedStore (status : JobStatus) : Store :=
  (hset "a" { data := some "", status := some status }).run Store.empty

def tolerantEntry : EnqueueData where
  jobId := some "b"
  dependsOn := some { dependencies := ["a"], nonempty := by simp, allowFailure := some true }

def tolerantJob : Job := newJob { name := "q" } tolerantEntry .queued none

lemma valid_tolerantEntry : tolerantEntry.Valid where
  accepted := ⟨by simp [tolerantEntry], by simp [tolerantEntry], by
    have hid : jobIdPattern "b" = true := by decide
    simpa [tolerantEntry] using hid⟩
  noDeps h := by cases h
  hasJobId h := by cases h

lemma describes_tolerantEntry : Describes tolerantEntry tolerantJob := ⟨rfl, rfl, rfl⟩

lemma stored_tolerantJob (status : JobStatus) :
    tolerantJob.DependenciesStored (toleratedStore status) := by
  intro id hid
  obtain rfl : id = "a" := by simpa [tolerantJob, newJob, tolerantEntry] using hid
  exact .inr (by simp [toleratedStore, JobHash.update])

/-- When its dependency is finished it is enqueued. -/
theorem defersAlike_finished :
    DefersAlike { name := "q" } tolerantJob tolerantEntry false 0 1 (toleratedStore .finished) :=
  (defersAlike_iff { name := "q" } false 0 0 (by decide) (stored_tolerantJob _)
    (fun _ h => absurd h (RSet.notMem_empty _)) (by decide) valid_tolerantEntry
    describes_tolerantEntry).mpr fun _ => ⟨by decide, by decide, by decide⟩

/-- When it has failed, `enqueue_job` defers the job although its dependencies are met. -/
theorem tolerant_job_deferred :
    tolerantJob.DependenciesStored (toleratedStore .failed) ∧ tolerantEntry.Valid ∧
      Describes tolerantEntry tolerantJob ∧
        ¬DefersAlike { name := "q" } tolerantJob tolerantEntry false 0 1 (toleratedStore .failed) := by
  refine ⟨stored_tolerantJob _, valid_tolerantEntry, describes_tolerantEntry, ?_⟩
  rintro ⟨hsingle, -⟩
  obtain ⟨job', s', hrun, hstatus⟩ := @run_enqueueJob_deps tolerantJob 0 (toleratedStore .failed) 0
    { name := "q" } false (by decide) (stored_tolerantJob _) (by decide)
  have hfalse := hsingle.mp ⟨job', s', hrun, hstatus.mpr (.inl (by decide))⟩
  have htrue : ((tolerantJob.dependenciesMet 0).run (toleratedStore .failed)).1 = .ok true := rfl
  rw [htrue] at hfalse
  cases hfalse

end Queue

end RedisQueue
