import RedisQueue.DependencyChecks
import RedisQueue.Lib.Interference

/-!
# Jobs that are ready and jobs that have to wait

`Dependency.get_jobs_with_met_dependencies` (`rq/dependency.py`) among processes about which nothing
is known.

* `DependencyCheck`, `JobChecks`: an iteration of the loop for one job, and all of them;
* `among_checkDependencies`, `among_getJobs`: every run consists of such iterations;
* `splits_iff`: the runs in which the two lists are a partition of the jobs.

An iteration records its verdict before it commits, and the verdict stays when the commit fails.
-/

namespace RedisQueue

open Prog

variable {now : Time} {pipe : Pipeline Key Value} {job : Job} {fuel : ℕ}
  {ms : List (Prog.Moment Store)}

/-! ## One iteration -/

/-- An iteration of the loop for one job: the databases that its steps find. -/
structure DependencyCheck where
  /-- up to the second `WATCH` -/
  before : List Store
  /-- when the ids of the dependencies are read -/
  found : Store
  /-- when their statuses are read -/
  read : Store
  /-- at the `EXEC` -/
  exec : Store

namespace DependencyCheck

def moments (check : DependencyCheck) (succeeds : Bool) : List (Prog.Moment Store) :=
  check.before.map .step ++ [.step check.found, .step check.read, .commit check.exec succeeds]

/-- The dependencies of the job are met. -/
def met (check : DependencyCheck) (job : Job) : Bool :=
  job.statusesAllowedIn check.read (check.found.val (.dependencies job.id)).elems

lemma conflicts_moments (check : DependencyCheck) (succeeds : Bool) :
    conflicts (check.moments succeeds) = if succeeds then 0 else 1 := by
  have hbefore : conflicts (check.before.map Prog.Moment.step) = 0 := by
    rw [conflicts, List.countP_eq_zero]
    intro m hm
    obtain ⟨s, -, rfl⟩ := List.mem_map.mp hm
    exact Bool.false_ne_true
  rw [moments, conflicts_append, hbefore]
  cases succeeds <;> rfl

end DependencyCheck

lemma yields_watch {ids : List JobId} (hids : ids ≠ []) (hpipe : pipe.explicitTransaction = false) :
    (pipe.watch (ids.map Key.job) : Redis (Pipeline Key Value)).Yields fun ms pipe' =>
      ∃ s, ms = [.step s] ∧ pipe' = watching pipe ids s := by
  have hwatch : (pipe.watch (ids.map Key.job) : Redis (Pipeline Key Value)) =
      Prog.read (watching pipe ids) := by
    rw [Pipeline.watch, if_neg (by simp [hpipe]), if_neg (by simpa using hids)]
    rfl
  rw [hwatch]
  exact yields_read _

/-- Between `WATCH` and `MULTI` the registration takes several steps. -/
lemma yields_registerDependency (job : Job) (hpipe : pipe.immediate = true) :
    (job.registerDependency (some pipe) now).Yields fun ms client =>
      ∃ ss : List Store, ms = ss.map .step ∧ client = some pipe := by
  have hloop : ∀ ids, (job.registerDependencyLoop ids (some pipe)).Yields fun ms client =>
      ∃ ss : List Store, ms = ss.map .step ∧ client = some pipe := fun ids => by
    induction ids with
    | nil =>
      rintro ms r ⟨rfl, rfl⟩
      exact ⟨_, rfl, [], rfl, rfl⟩
    | cons id ids ih =>
      intro ms r h
      simp only [Job.registerDependencyLoop, Job.command_immediate hpipe, Prog.step_bind,
        Prog.ret_bind] at h
      obtain ⟨s, _, rfl, s', ms', rfl, hrest⟩ := h
      obtain ⟨client, hr, ss, rfl, hclient⟩ := ih ms' r hrest
      exact ⟨client, hr, s :: s' :: ss, rfl, hclient⟩
  intro ms r h
  simp only [Job.registerDependency, Job.command_immediate hpipe, Prog.step_bind,
    Prog.ret_bind] at h
  obtain ⟨s, ms', rfl, hrest⟩ := h
  obtain ⟨client, hr, ss, rfl, hclient⟩ := hloop _ _ _ hrest
  exact ⟨client, hr, s :: ss, rfl, hclient⟩

lemma yields_dependenciesAreMet (hids : job.dependencyIds ≠ [])
    (hpipe : pipe.explicitTransaction = false) :
    (job.dependenciesAreMet none (some pipe) none true).Yields fun ms result =>
      ∃ s found read, ms = [.step s, .step found, .step read] ∧
        result = (job.statusesAllowedIn read (found.val (.dependencies job.id)).elems, none,
          some (watching pipe job.dependencyIds s)) := by
  intro ms r h
  unfold Job.dependenciesAreMet at h
  simp only at h
  obtain ⟨client, ms₁, ms₂, rfl, ⟨_, ⟨s, rfl, rfl⟩, rfl⟩, h⟩ :=
    (yields_watch hids hpipe).map.among_bind h
  simp only [Client.query, Pipeline.query, immediate_watching hids hpipe s, if_true] at h
  obtain ⟨ids, ms₁, ms₂, rfl, ⟨found, rfl, rfl⟩, h⟩ := (yields_read _).among_bind h
  obtain ⟨met, ms₁, ms₂, rfl, ⟨read, rfl, rfl⟩, rfl, rfl⟩ := (yields_read _).among_bind h
  exact ⟨_, rfl, s, found, read, rfl, rfl⟩

/-- **An iteration.** It records its verdict whether or not its commit succeeds. -/
theorem among_iteration {r : Except PyError (List Bool)} (hids : job.dependencyIds ≠ [])
    (hpipe : pipe.explicitTransaction = false)
    (h : (Queue.checkDependencies job now (fuel + 1) pipe).Among ms r) :
    ∃ (check : DependencyCheck) (succeeds : Bool) (ms' : List (Prog.Moment Store)),
      ms = check.moments succeeds ++ ms' ∧
      (if succeeds then .ret [check.met job]
        else List.cons (check.met job) <$> Queue.checkDependencies job now fuel {} :
          Redis (List Bool)).Among ms' r := by
  rw [Queue.checkDependencies] at h
  obtain ⟨_, ms₁, ms₂, rfl, ⟨s, rfl, rfl⟩, h⟩ := (yields_watch hids hpipe).among_bind h
  have himmediate := immediate_watching hids hpipe s
  obtain ⟨_, ms₁, ms₂, rfl, ⟨ss, rfl, rfl⟩, h⟩ :=
    (yields_registerDependency job himmediate).among_bind h
  obtain ⟨_, ms₁, ms₂, rfl, ⟨s', found, read, rfl, rfl⟩, h⟩ :=
    (yields_dependenciesAreMet hids (by exact hpipe)).among_bind h
  dsimp only at h
  rw [Option.getD_some, Pipeline.execute_of_watched (by simp [watching, hids]), Prog.exec_bind] at h
  obtain ⟨exec, ms', rfl, hrest⟩ := h
  refine ⟨⟨s :: (ss ++ [s']), found, read, exec⟩, _, ms', ?_, hrest⟩
  simp [DependencyCheck.moments]

/-! ## The loop for one job -/

/-- The iterations of the loop for one job: those whose commit fails, and the last. -/
structure JobChecks where
  job : ℕ × Job
  failed : List DependencyCheck
  last : DependencyCheck

namespace JobChecks

def moments (checks : JobChecks) : List (Prog.Moment Store) :=
  checks.failed.flatMap (·.moments false) ++ checks.last.moments true

def verdicts (checks : JobChecks) : List Bool :=
  (checks.failed ++ [checks.last]).map (·.met checks.job.2)

/-- The dependencies of the job are met at its successful attempt. -/
def ready (checks : JobChecks) : Bool := checks.last.met checks.job.2

lemma conflicts_failed (failed : List DependencyCheck) :
    conflicts (failed.flatMap (·.moments false)) = failed.length := by
  induction failed with
  | nil => rfl
  | cons check failed ih =>
    rw [List.flatMap_cons, conflicts_append, check.conflicts_moments, ih, List.length_cons]
    simp
    omega

lemma conflicts_moments (checks : JobChecks) : conflicts checks.moments = checks.failed.length := by
  rw [moments, conflicts_append, conflicts_failed, DependencyCheck.conflicts_moments]
  rfl

end JobChecks

/-- The loop for one job ends with a commit that succeeds, or after as many failures as there are
iterations. -/
theorem among_checkDependencies {r : Except PyError (List Bool)} (i : ℕ)
    (hids : job.dependencyIds ≠ []) (hpipe : pipe.explicitTransaction = false)
    (h : (Queue.checkDependencies job now fuel pipe).Among ms r) :
    (∃ checks : JobChecks, checks.job = (i, job) ∧ ms = checks.moments ∧ r = .ok checks.verdicts) ∨
      r = .error .stillRunning ∧ fuel ≤ conflicts ms := by
  induction fuel generalizing pipe ms r with
  | zero =>
    obtain ⟨rfl, rfl⟩ := h
    exact .inr ⟨rfl, Nat.zero_le _⟩
  | succ fuel ih =>
    obtain ⟨check, succeeds, ms', rfl, hrest⟩ := among_iteration hids hpipe h
    cases succeeds with
    | true =>
      obtain ⟨rfl, rfl⟩ := hrest
      refine .inl ⟨⟨(i, job), [], check⟩, rfl, ?_, rfl⟩
      simp [JobChecks.moments]
    | false =>
      rcases among_map.mp hrest with ⟨e, he, rfl⟩ | ⟨verdicts, hverdicts, rfl⟩
      · rcases ih rfl he with ⟨_, -, -, hok⟩ | ⟨hstill, hfuel⟩
        · cases hok
        · refine .inr ⟨hstill, ?_⟩
          rw [conflicts_append, check.conflicts_moments]
          simp
          omega
      · rcases ih rfl hverdicts with ⟨checks, hjob, rfl, hok⟩ | ⟨hstill, -⟩
        · cases hok
          refine .inl ⟨⟨(i, job), check :: checks.failed, checks.last⟩, rfl, ?_, ?_⟩
          · simp [JobChecks.moments]
          · simp [JobChecks.verdicts, hjob]
        · cases hstill

/-! ## The loop over the jobs -/

/-- The jobs that are recorded with a verdict. -/
def recorded (verdict : Bool) (all : List JobChecks) : List (ℕ × Job) :=
  all.flatMap fun checks => (checks.verdicts.filter (· = verdict)).map fun _ => checks.job

/-- **The loop over the jobs.** Every iteration is recorded. -/
theorem among_getJobs {ds : List (ℕ × Job)}
    {r : Except PyError (List (ℕ × Job) × List (ℕ × Job))}
    (hids : ∀ d ∈ ds, d.2.dependencyIds ≠ []) (hpipe : pipe.explicitTransaction = false)
    (h : (Queue.getJobsWithMetDependencies now fuel ds pipe).Among ms r)
    (hfuel : conflicts ms < fuel) :
    ∃ all : List JobChecks, all.map JobChecks.job = ds ∧ ms = all.flatMap JobChecks.moments ∧
      r = .ok (recorded true all, recorded false all) := by
  induction ds generalizing pipe ms r with
  | nil =>
    obtain ⟨rfl, rfl⟩ := h
    exact ⟨[], rfl, rfl, rfl⟩
  | cons d ds ih =>
    obtain ⟨i, job⟩ := d
    rw [Queue.getJobsWithMetDependencies] at h
    rcases among_bind.mp h with ⟨e, he, rfl⟩ | ⟨verdicts, ms₁, ms₂, rfl, hverdicts, h⟩
    · rcases among_checkDependencies i (hids _ List.mem_cons_self) hpipe he with
        ⟨_, -, -, hok⟩ | ⟨-, hle⟩
      · cases hok
      · omega
    rw [conflicts_append] at hfuel
    rcases among_checkDependencies i (hids _ List.mem_cons_self) hpipe hverdicts with
      ⟨checks, hjob, rfl, hok⟩ | ⟨hstill, -⟩
    · cases hok
      have htail : ∀ d ∈ ds, d.2.dependencyIds ≠ [] := fun d hd =>
        hids d (List.mem_cons_of_mem _ hd)
      rcases among_bind.mp h with ⟨e, he, rfl⟩ | ⟨_, ms₁, ms₂, rfl, hrest, rfl, rfl⟩
      · obtain ⟨_, -, -, hok⟩ := ih htail rfl he (by omega)
        cases hok
      · rw [conflicts_append] at hfuel
        obtain ⟨all, hall, rfl, hok⟩ := ih htail rfl hrest (by omega)
        cases hok
        refine ⟨checks :: all, by simp [hjob, hall], by simp, ?_⟩
        have htrue : checks.verdicts.filter id = checks.verdicts.filter (· = true) :=
          List.filter_congr fun verdict _ => by cases verdict <;> rfl
        have hfalse : checks.verdicts.filter not = checks.verdicts.filter (· = false) :=
          List.filter_congr fun verdict _ => by cases verdict <;> rfl
        rw [htrue, hfalse, ← hjob]
        rfl
    · cases hstill

/-! ## The partition -/

lemma conflicts_eq_zero_iff (all : List JobChecks) :
    conflicts (all.flatMap JobChecks.moments) = 0 ↔ ∀ checks ∈ all, checks.failed = [] := by
  induction all with
  | nil => exact ⟨fun _ _ h => absurd h List.not_mem_nil, fun _ => rfl⟩
  | cons checks all ih =>
    rw [List.flatMap_cons, conflicts_append, checks.conflicts_moments, Nat.add_eq_zero_iff, ih,
      List.length_eq_zero_iff, List.forall_mem_cons]

lemma mem_recorded {verdict : Bool} {all : List JobChecks} {d : ℕ × Job} :
    d ∈ recorded verdict all ↔ ∃ checks ∈ all, verdict ∈ checks.verdicts ∧ checks.job = d := by
  simp only [recorded, List.mem_flatMap, List.mem_map, List.mem_filter, decide_eq_true_eq]
  constructor
  · rintro ⟨checks, hchecks, verdict, ⟨hverdict, rfl⟩, rfl⟩
    exact ⟨checks, hchecks, hverdict, rfl⟩
  · rintro ⟨checks, hchecks, hverdict, rfl⟩
    exact ⟨checks, hchecks, verdict, ⟨hverdict, rfl⟩, rfl⟩

/-- Every iteration has one of the two verdicts. -/
lemma length_filter_verdicts (verdicts : List Bool) :
    (verdicts.filter (· = true)).length + (verdicts.filter (· = false)).length =
      verdicts.length := by
  induction verdicts with
  | nil => rfl
  | cons verdict verdicts ih =>
    cases verdict
    · simp at ih ⊢
      omega
    · simp at ih ⊢
      omega

lemma count_recorded_cons (verdict : Bool) (checks : JobChecks) (all : List JobChecks)
    (d : ℕ × Job) : (recorded verdict (checks :: all)).count d =
      (if checks.job = d then (checks.verdicts.filter (· = verdict)).length else 0) +
        (recorded verdict all).count d := by
  rw [recorded, List.flatMap_cons, List.count_append, List.map_const', List.count_replicate]
  simp [recorded]

/-- A job is recorded once for each of its iterations. -/
lemma count_recorded {all : List JobChecks} (hdistinct : (all.map JobChecks.job).Nodup)
    {checks : JobChecks} (hchecks : checks ∈ all) :
    (recorded true all ++ recorded false all).count checks.job = checks.failed.length + 1 := by
  induction all with
  | nil => cases hchecks
  | cons first all ih =>
    rw [List.map_cons, List.nodup_cons] at hdistinct
    rw [List.count_append, count_recorded_cons, count_recorded_cons]
    rcases List.mem_cons.mp hchecks with rfl | htail
    · have hnone : ∀ verdict, (recorded verdict all).count checks.job = 0 := fun verdict => by
        rw [List.count_eq_zero]
        intro hmem
        obtain ⟨other, hother, -, heq⟩ := mem_recorded.mp hmem
        exact hdistinct.1 (List.mem_map.mpr ⟨other, hother, heq⟩)
      have hlength := length_filter_verdicts checks.verdicts
      have hverdicts : checks.verdicts.length = checks.failed.length + 1 := by
        simp [JobChecks.verdicts]
      rw [if_pos rfl, if_pos rfl, hnone, hnone]
      omega
    · have hne : first.job ≠ checks.job := fun heq =>
        hdistinct.1 (List.mem_map.mpr ⟨checks, htail, heq.symm⟩)
      have hrest := ih hdistinct.2 htail
      rw [List.count_append] at hrest
      rw [if_neg hne, if_neg hne]
      omega

/-- Without conflicts each list consists of the jobs with that verdict. -/
lemma recorded_of_failed {all : List JobChecks} (h : ∀ checks ∈ all, checks.failed = [])
    (verdict : Bool) :
    recorded verdict all = (all.filter (·.ready = verdict)).map JobChecks.job := by
  induction all with
  | nil => rfl
  | cons checks all ih =>
    have hverdicts : checks.verdicts = [checks.ready] := by
      rw [JobChecks.verdicts, h checks List.mem_cons_self]
      rfl
    have hrest := ih fun other hother => h other (List.mem_cons_of_mem _ hother)
    rw [recorded, List.flatMap_cons, hverdicts]
    by_cases hready : checks.ready = verdict
    · simpa [hready, recorded] using hrest
    · simpa [hready, recorded] using hrest

/-- The two lists are a partition of the jobs by what was found at their successful attempts. -/
structure Splits (all : List JobChecks) (met unmet : List (ℕ × Job)) : Prop where
  once : ∀ checks ∈ all, (met ++ unmet).count checks.job = 1
  jobs : ∀ d ∈ met ++ unmet, d ∈ all.map JobChecks.job
  metOrder : met.Sublist (all.map JobChecks.job)
  unmetOrder : unmet.Sublist (all.map JobChecks.job)
  ready : ∀ checks ∈ all, checks.job ∈ met ↔ checks.ready = true

/-- **The readiness split.** Whatever the others do between the steps, and whatever they change, the
two lists are a partition of the jobs just if no commit fails. -/
theorem splits_iff {ds : List (ℕ × Job)}
    {r : Except PyError (List (ℕ × Job) × List (ℕ × Job))}
    (hids : ∀ d ∈ ds, d.2.dependencyIds ≠ []) (hdistinct : (ds.map fun d => d.2.id).Nodup)
    (hpipe : pipe.explicitTransaction = false)
    (h : (Queue.getJobsWithMetDependencies now fuel ds pipe).Among ms r)
    (hfuel : conflicts ms < fuel) :
    ∃ all : List JobChecks, all.map JobChecks.job = ds ∧ ms = all.flatMap JobChecks.moments ∧
      ∃ met unmet, r = .ok (met, unmet) ∧ (Splits all met unmet ↔ conflicts ms = 0) := by
  obtain ⟨all, rfl, rfl, rfl⟩ := among_getJobs hids hpipe h hfuel
  refine ⟨all, rfl, rfl, _, _, rfl, ?_⟩
  have hnodup : (all.map JobChecks.job).Nodup := List.Nodup.of_map _ hdistinct
  rw [conflicts_eq_zero_iff]
  constructor
  · intro hsplits checks hchecks
    have hcount := count_recorded hnodup hchecks
    rw [hsplits.once checks hchecks] at hcount
    exact List.eq_nil_of_length_eq_zero (by omega)
  · intro hnone
    have hrecorded := recorded_of_failed hnone
    refine ⟨fun checks hchecks => ?_, ?_, ?_, ?_, ?_⟩
    · rw [count_recorded hnodup hchecks, hnone checks hchecks]
      rfl
    · intro d hd
      rcases List.mem_append.mp hd with hd | hd
      · obtain ⟨checks, hchecks, -, rfl⟩ := mem_recorded.mp hd
        exact List.mem_map_of_mem hchecks
      · obtain ⟨checks, hchecks, -, rfl⟩ := mem_recorded.mp hd
        exact List.mem_map_of_mem hchecks
    · rw [hrecorded]
      exact List.filter_sublist.map _
    · rw [hrecorded]
      exact List.filter_sublist.map _
    · intro checks hchecks
      rw [hrecorded, List.mem_map]
      constructor
      · rintro ⟨other, hother, heq⟩
        obtain ⟨hother, hready⟩ := List.mem_filter.mp hother
        obtain rfl := List.inj_on_of_nodup_map hnodup hother hchecks heq
        simpa using hready
      · intro hready
        exact ⟨checks, List.mem_filter.mpr ⟨hchecks, by simpa using hready⟩, rfl⟩

/-! ### A job that becomes ready during the call -/

def waiting : Job where
  id := "child"
  origin := "default"
  dependencyIds := ["parent"]

/-- The dependency has been registered, and the parent has this status. -/
def parentIs (status : JobStatus) (version : ℕ) : Store :=
  { (Store.empty.put (.dependencies "child") ((∅ : RSet JobId).insert "parent")).put (.job "parent")
      { (default : JobHash) with status := some status } with ver := fun _ => version }

/-- A job that waits for one that has finished. -/
def released : Job where
  id := "second"
  origin := "default"
  dependencyIds := ["done"]

def oneFinished : Store :=
  ((parentIs .started 0).put (.dependencies "second") ((∅ : RSet JobId).insert "done")).put
    (.job "done") { (default : JobHash) with status := some .finished }

/-- One job waits, the other one is ready. -/
theorem splits_waiting :
    ∃ ms, (Queue.getJobsWithMetDependencies 0 2 [(0, waiting), (1, released)] {}).Among ms
        (.ok ([(1, released)], [(0, waiting)])) ∧ conflicts ms = 0 ∧
      ∃ all : List JobChecks, all.map JobChecks.job = [(0, waiting), (1, released)] ∧
        Splits all [(1, released)] [(0, waiting)] := by
  have hreplay : (Queue.getJobsWithMetDependencies 0 2 [(0, waiting), (1, released)] {}).replay
      (List.replicate 16 oneFinished) = some (_, .ok ([(1, released)], [(0, waiting)])) := rfl
  have hamong := among_of_replay hreplay
  obtain ⟨all, hall, -, met, unmet, heq, hsplits⟩ :=
    splits_iff (by decide) (by decide) rfl hamong (by decide)
  cases heq
  exact ⟨_, hamong, rfl, all, hall, hsplits.mpr rfl⟩

/-- The parent finishes after it has been found unfinished, so the commit fails and the job is
recorded as ready as well. -/
theorem finished_between_attempts :
    ∃ ms, (Queue.getJobsWithMetDependencies 0 2 [(0, waiting)] {}).Among ms
        (.ok ([(0, waiting)], [(0, waiting)])) ∧ conflicts ms = 1 ∧
      ∀ all : List JobChecks, all.map JobChecks.job = [(0, waiting)] →
        ¬ Splits all [(0, waiting)] [(0, waiting)] := by
  have hreplay : (Queue.getJobsWithMetDependencies 0 2 [(0, waiting)] {}).replay
      (List.replicate 7 (parentIs .started 0) ++ List.replicate 9 (parentIs .finished 1)) =
        some (_, .ok ([(0, waiting)], [(0, waiting)])) := rfl
  refine ⟨_, among_of_replay hreplay, rfl, fun all hall hsplits => ?_⟩
  obtain ⟨checks, hchecks, hjob⟩ := List.mem_map.mp (hall ▸ List.mem_singleton_self (0, waiting))
  have honce := hsplits.once checks hchecks
  rw [hjob] at honce
  exact absurd honce (by decide)

end RedisQueue
