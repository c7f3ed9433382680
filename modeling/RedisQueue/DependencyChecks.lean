import RedisQueue.Enqueueing
import RedisQueue.ReleaseEffects
import RedisQueue.Unguarded

/-!
# Checking dependencies

`Dependency.get_jobs_with_met_dependencies`, and the loop of `Queue.enqueue_many` over the jobs whose
dependencies are met.

* `runOutcomes_checkDependencies`: the loop for one job, with any number of conflicts;
* `runOutcomes_getJobs`: the loop over the jobs;
* `enqueueMet_buffer`: every verdict is a push.
-/

namespace RedisQueue

open Prog

variable {now : Time} {pipe : Pipeline Key Value} {s : Store}

/-! ## Registering -/

namespace Job

/-- The commands of `Job.register_dependency`. -/
def registerCommands (self : Job) (now : Time) : List (Command Key Value) :=
  zadd .deferred self.origin self.id (now : ℤ) :: self.dependencyIds.flatMap fun id =>
    [.alter (.dependents id) fun d => d.insert self.id,
      .alter (.dependencies self.id) fun d => d.insert id]

/-- The statuses of the dependencies are such that the job can be enqueued. -/
def allowedIn (self : Job) (s : Store) : Bool := self.statusesAllowedIn s self.dependencyIds

lemma command_immediate (hpipe : pipe.immediate = true) (c : Command Key Value) :
    Client.command (some pipe) c = .step c.run fun _ => .ret (some pipe) := by
  simp [Client.command, Pipeline.command, hpipe, Prog.perform]

lemma unguarded_registerDependency (self : Job) (hpipe : pipe.immediate = true) :
    (self.registerDependency (some pipe) now).Unguarded fun _ => True := by
  have hloop : ∀ ids, (self.registerDependencyLoop ids (some pipe)).Unguarded fun _ => True :=
    fun ids => by
      induction ids with
      | nil => trivial
      | cons id ids ih =>
        simp only [registerDependencyLoop, command_immediate hpipe, Prog.step_bind, Prog.ret_bind]
        exact fun _ _ => ih
  simp only [registerDependency, command_immediate hpipe]
  exact fun _ => hloop _

/-- Between `WATCH` and `MULTI` the registration takes place at once. -/
lemma run_registerDependency (self : Job) (hpipe : pipe.immediate = true) (s : Store) :
    (self.registerDependency (some pipe) now).run s =
      (.ok (some pipe), (Command.seq (self.registerCommands now)).run s) := by
  have hloop : ∀ ids s, (self.registerDependencyLoop ids (some pipe)).run s =
      (.ok (some pipe), (Command.seq (ids.flatMap fun id =>
        [.alter (.dependents id) fun d => d.insert self.id,
          .alter (.dependencies self.id) fun d => d.insert id])).run s) := fun ids => by
    induction ids with
    | nil => exact fun _ => rfl
    | cons id ids ih =>
      intro s
      simp only [registerDependencyLoop, command_immediate hpipe, Prog.step_bind, Prog.ret_bind]
      exact ih _
  simp only [registerDependency, command_immediate hpipe]
  exact hloop _ _

/-- What a registration touches. -/
lemma mem_registerCommands {self : Job} {c : Command Key Value}
    (hc : c ∈ self.registerCommands now) :
    c = zadd .deferred self.origin self.id (now : ℤ) ∨
      ∃ id ∈ self.dependencyIds, c = .alter (.dependents id) (fun d => d.insert self.id) ∨
        c = .alter (.dependencies self.id) fun d => d.insert id := by
  rcases List.mem_cons.mp hc with rfl | hc
  · exact .inl rfl
  · obtain ⟨id, hid, hc⟩ := List.mem_flatMap.mp hc
    simp only [List.mem_cons, List.not_mem_nil, or_false] at hc
    exact .inr ⟨id, hid, hc⟩

lemma keeps_registerCommands (self : Job) {k : Key} (hdeferred : k ≠ .registry .deferred self.origin)
    (hdependents : ∀ id, k ≠ .dependents id) (hdependencies : k ≠ .dependencies self.id) :
    (Command.seq (self.registerCommands now)).Keeps k := by
  refine Command.keeps_seq fun c hc => ?_
  rcases mem_registerCommands hc with rfl | ⟨id, -, rfl | rfl⟩
  · exact Command.keeps_alter hdeferred
  · exact Command.keeps_alter (hdependents id)
  · exact Command.keeps_alter hdependencies

lemma keepsVer_registerCommands (self : Job) (id : JobId) :
    (Command.seq (self.registerCommands now)).KeepsVer (.job id) := by
  refine Command.keepsVer_seq fun c hc => ?_
  rcases mem_registerCommands hc with rfl | ⟨id', -, rfl | rfl⟩
  · exact Command.keepsVer_alter (by simp)
  · exact Command.keepsVer_alter (by simp)
  · exact Command.keepsVer_alter (by simp)

/-- The dependencies of the job are then in its set, and only they if it held no other. -/
lemma mem_dependencies_registerCommands (self : Job) (s : Store) (id : JobId) :
    id ∈ ((Command.seq (self.registerCommands now)).run s).val (.dependencies self.id) ↔
      id ∈ s.val (.dependencies self.id) ∨ id ∈ self.dependencyIds := by
  have hloop : ∀ (ids : List JobId) (s : Store), id ∈ ((Command.seq (ids.flatMap fun id =>
        [.alter (.dependents id) fun d => d.insert self.id,
          .alter (.dependencies self.id) fun d => d.insert id])).run s).val
            (.dependencies self.id) ↔ id ∈ s.val (.dependencies self.id) ∨ id ∈ ids := fun ids => by
    induction ids with
    | nil => simp
    | cons id' ids ih =>
      intro s
      rw [List.flatMap_cons, Command.seq_append_run, ih]
      simp [or_assoc]
  rw [registerCommands, Command.seq_cons_run, hloop]
  simp

/-- The verdict of `dependencies_are_met` right after a registration. -/
lemma statusesAllowedIn_registered (self : Job) {s : Store}
    (h : ∀ id ∈ s.val (.dependencies self.id), id ∈ self.dependencyIds) :
    self.statusesAllowedIn ((Command.seq (self.registerCommands now)).run s)
        (((Command.seq (self.registerCommands now)).run s).val (.dependencies self.id)).elems =
      self.allowedIn s := by
  have hjobs : ∀ id, ((Command.seq (self.registerCommands now)).run s).val (.job id) =
      s.val (.job id) := fun id => self.keeps_registerCommands (by simp) (by simp) (by simp) s
  have hmem : ∀ id, id ∈ (((Command.seq (self.registerCommands now)).run s).val
      (.dependencies self.id)).elems ↔ id ∈ self.dependencyIds := fun id => by
    rw [← RSet.mem_def, mem_dependencies_registerCommands]
    exact or_iff_right_of_imp (h id)
  rw [Bool.eq_iff_iff, allowedIn, statusesAllowedIn, statusesAllowedIn, List.all_eq_true,
    List.all_eq_true]
  simp only [hmem, hjobs]

/-- What the loop for one job performs that meets `conflicts` conflicts. The first of them loses
what has been in the pipeline. -/
def checkCommands (self : Job) (now : Time) (conflicts : ℕ) (stack : List (Command Key Value)) :
    List (Command Key Value) :=
  (List.replicate (conflicts + 1) (self.registerCommands now)).flatten ++
    if conflicts = 0 then stack else []

lemma checkCommands_succ (self : Job) (conflicts : ℕ) (stack : List (Command Key Value)) :
    self.checkCommands now (conflicts + 1) stack =
      self.registerCommands now ++ self.checkCommands now conflicts [] := by
  rw [checkCommands, checkCommands, List.replicate_succ, List.flatten_cons]
  simp

end Job

/-! ## The loop for one job -/

/-- The pipeline after a `WATCH`. -/
def watching (pipe : Pipeline Key Value) (ids : List JobId) (s : Store) : Pipeline Key Value :=
  { pipe with watched := pipe.watched ++ (ids.map Key.job).map fun k => (k, s.ver k) }

lemma run_watch {ids : List JobId} (hids : ids ≠ []) (hpipe : pipe.explicitTransaction = false)
    (s : Store) :
    (pipe.watch (ids.map Key.job) : Redis (Pipeline Key Value)).run s =
      (.ok (watching pipe ids s), s) := by
  simp [Pipeline.watch, hpipe, hids, watching]

lemma immediate_watching {ids : List JobId} (hids : ids ≠ [])
    (hpipe : pipe.explicitTransaction = false) (s : Store) :
    (watching pipe ids s).immediate = true := by
  simp [Pipeline.immediate, watching, hpipe, hids]

lemma run_dependenciesAreMet_self (self : Job) (hids : self.dependencyIds ≠ [])
    (hpipe : pipe.explicitTransaction = false) (s : Store) :
    (self.dependenciesAreMet none (some pipe) none true).run s =
      (.ok (self.statusesAllowedIn s (s.val (.dependencies self.id)).elems, none,
        some (watching pipe self.dependencyIds s)), s) := by
  unfold Job.dependenciesAreMet
  simp only
  rw [Prog.run_bind_ok (Prog.run_map_ok some (run_watch hids hpipe s))]
  simp only [Client.query, Pipeline.query, immediate_watching hids hpipe s, if_true]
  rw [Prog.run_bind_ok (Prog.run_read _ _)]
  rfl

namespace Queue
variable {job : Job} {fuel : ℕ} {os : List Bool}

/-- The registration is not a modification of the keys that are watched. -/
lemma unchanged_registered (job : Job) (hwatched : pipe.watched = []) (s : Store) :
    (watching (watching pipe job.dependencyIds s) job.dependencyIds
      ((Command.seq (job.registerCommands now)).run s)).unchanged
        ((Command.seq (job.registerCommands now)).run s) = true := by
  simp only [Pipeline.unchanged, watching, hwatched, List.nil_append, List.all_eq_true,
    List.mem_append, List.mem_map, beq_iff_eq]
  rintro kv (⟨k, ⟨id, -, rfl⟩, rfl⟩ | ⟨k, ⟨id, -, rfl⟩, rfl⟩)
  · exact job.keepsVer_registerCommands id s
  · rfl

/-- An iteration up to its `EXEC`. -/
lemma runOutcomes_iteration (hids : job.dependencyIds ≠ []) (hwatched : pipe.watched = [])
    (hpipe : pipe.explicitTransaction = false)
    (hdeps : ∀ id ∈ s.val (.dependencies job.id), id ∈ job.dependencyIds) :
    ∃ guard : Store → Bool, guard ((Command.seq (job.registerCommands now)).run s) = true ∧
      (checkDependencies job now (fuel + 1) pipe).runOutcomes os s =
        (Prog.exec true guard (Command.seq pipe.commandStack).run fun committed =>
          if committed then .ret [job.allowedIn s]
          else List.cons (job.allowedIn s) <$> checkDependencies job now fuel {}).runOutcomes os
            ((Command.seq (job.registerCommands now)).run s) := by
  have hunchanged := @unchanged_registered now pipe job hwatched s
  generalize hr : (Command.seq (job.registerCommands now)).run s = r at hunchanged ⊢
  have himmediate := immediate_watching hids hpipe s
  have hregister := @Job.run_registerDependency now _ job himmediate s
  have hmet := @run_dependenciesAreMet_self (watching pipe job.dependencyIds s) job hids hpipe r
  rw [hr] at hregister
  have hverdict := @Job.statusesAllowedIn_registered now job s hdeps
  rw [hr] at hverdict
  rw [hverdict] at hmet
  refine ⟨_, hunchanged, ?_⟩
  rw [checkDependencies, Prog.runOutcomes_bind_unguarded
      (unguarded_watch (Q := fun _ => True) fun _ => trivial) (run_watch hids hpipe s),
    Prog.runOutcomes_bind_unguarded (job.unguarded_registerDependency himmediate) hregister,
    Prog.runOutcomes_bind_unguarded
      (Job.unguarded_dependenciesAreMet (Q := fun _ => True) fun _ _ _ => trivial) hmet]
  dsimp only
  rw [Option.getD_some, Pipeline.execute_of_watched (by simp [watching, hids]), Prog.exec_bind]
  rfl

/-- The loop for one job: every iteration reaches the same verdict. -/
theorem runOutcomes_checkDependencies (hids : job.dependencyIds ≠ []) (conflicts : ℕ)
    (hfuel : conflicts < fuel) (hwatched : pipe.watched = [])
    (hpipe : pipe.explicitTransaction = false)
    (hdeps : ∀ id ∈ s.val (.dependencies job.id), id ∈ job.dependencyIds) :
    (checkDependencies job now fuel pipe).runOutcomes
        (List.replicate conflicts true ++ false :: os) s =
      (.ok (List.replicate (conflicts + 1) (job.allowedIn s)),
        (Command.seq (job.checkCommands now conflicts pipe.commandStack)).run s, os) := by
  induction conflicts generalizing fuel pipe s with
  | zero =>
    obtain ⟨fuel, rfl⟩ := Nat.exists_eq_succ_of_ne_zero (Nat.ne_of_gt hfuel)
    obtain ⟨guard, hguard, hiteration⟩ := @runOutcomes_iteration now pipe s job fuel
      (List.replicate 0 true ++ false :: os) hids hwatched hpipe hdeps
    rw [hiteration]
    simp [Prog.runOutcomes, hguard, Job.checkCommands]
  | succ conflicts ih =>
    obtain ⟨fuel, rfl⟩ := Nat.exists_eq_succ_of_ne_zero (Nat.ne_of_gt (Nat.zero_lt_of_lt hfuel))
    obtain ⟨guard, -, hiteration⟩ := @runOutcomes_iteration now pipe s job fuel
      (List.replicate (conflicts + 1) true ++ false :: os) hids hwatched hpipe hdeps
    have hjobs : ∀ id, ((Command.seq (job.registerCommands now)).run s).val (.job id) =
        s.val (.job id) := fun id =>
      job.keeps_registerCommands (by simp) (by simp) (by simp) s
    have hallowed : job.allowedIn ((Command.seq (job.registerCommands now)).run s) =
        job.allowedIn s := by
      simp only [Job.allowedIn, Job.statusesAllowedIn, hjobs]
    have hrest := @ih {} ((Command.seq (job.registerCommands now)).run s) fuel
      (Nat.lt_of_succ_lt_succ hfuel) rfl rfl fun id hid =>
        ((job.mem_dependencies_registerCommands s id).mp hid).elim (hdeps id) fun h => h
    rw [hiteration, List.replicate_succ, List.cons_append]
    simp only [Prog.runOutcomes, Bool.false_eq_true, if_false]
    rw [← bind_pure_comp, Prog.runOutcomes_bind_ok hrest, hallowed, Job.checkCommands_succ,
      Command.seq_append_run]
    rfl

/-! ## The loop over the jobs -/

/-- The outcomes of the commits when the jobs meet these numbers of conflicts. -/
def outcomes (conflicts : List ℕ) : List Bool :=
  conflicts.flatMap fun n => List.replicate n true ++ [false]

/-- What the loop over the jobs performs. Only the first commit has a `stack`. -/
def checkAll (now : Time) :
    List (ℕ × Job) → List ℕ → List (Command Key Value) → List (Command Key Value)
  | d :: ds, n :: ns, stack => d.2.checkCommands now n stack ++ checkAll now ds ns []
  | _, _, _ => []

lemma mem_checkCommands {conflicts : ℕ} {stack : List (Command Key Value)} {c : Command Key Value}
    (hc : c ∈ job.checkCommands now conflicts stack) :
    c ∈ job.registerCommands now ∨ conflicts = 0 ∧ c ∈ stack := by
  rcases List.mem_append.mp hc with hc | hc
  · obtain ⟨cs, hcs, hc⟩ := List.mem_flatten.mp hc
    obtain rfl := List.eq_of_mem_replicate hcs
    exact .inl hc
  · split at hc
    · next h => exact .inr ⟨h, hc⟩
    · cases hc

lemma registerCommands_subset {conflicts : ℕ} {stack : List (Command Key Value)}
    {c : Command Key Value} (hc : c ∈ job.registerCommands now) :
    c ∈ job.checkCommands now conflicts stack := by
  refine List.mem_append_left _ (List.mem_flatten.mpr ⟨_, ?_, hc⟩)
  rw [List.replicate_succ]
  exact List.mem_cons_self

/-- The commands in the pipeline are lost if the first job meets a conflict. -/
lemma mem_checkAll {ds : List (ℕ × Job)} {ns : List ℕ} {stack : List (Command Key Value)}
    {c : Command Key Value} (hc : c ∈ checkAll now ds ns stack) :
    (∃ d ∈ ds, c ∈ d.2.registerCommands now) ∨ ns.head? = some 0 ∧ c ∈ stack := by
  induction ds generalizing ns stack with
  | nil => cases hc
  | cons d ds ih =>
    match ns with
    | [] => cases hc
    | n :: ns =>
      rcases List.mem_append.mp hc with hc | hc
      · rcases mem_checkCommands hc with hregister | ⟨rfl, hstack⟩
        · exact .inl ⟨d, List.mem_cons_self, hregister⟩
        · exact .inr ⟨rfl, hstack⟩
      · rcases ih hc with ⟨d', hd', hc⟩ | ⟨-, hc⟩
        · exact .inl ⟨d', List.mem_cons_of_mem _ hd', hc⟩
        · cases hc

lemma registerCommands_subset_checkAll {ds : List (ℕ × Job)} {ns : List ℕ}
    (hlength : ns.length = ds.length) {stack : List (Command Key Value)} {c : Command Key Value}
    {d : ℕ × Job} (hd : d ∈ ds) (hc : c ∈ d.2.registerCommands now) :
    c ∈ checkAll now ds ns stack := by
  induction ds generalizing ns stack with
  | nil => cases hd
  | cons d' ds ih =>
    match ns with
    | [] => cases hlength
    | n :: ns =>
      rcases List.mem_cons.mp hd with rfl | hd
      · exact List.mem_append_left _ (registerCommands_subset hc)
      · exact List.mem_append_right _ (ih (Nat.succ.inj hlength) hd)

/-- A job with its index, the number of its conflicts and the verdict of its iterations. -/
structure Verdict where
  job : ℕ × Job
  conflicts : ℕ
  met : Bool

def verdicts (now : Time) :
    List (ℕ × Job) → List ℕ → List (Command Key Value) → Store → List Verdict
  | d :: ds, n :: ns, stack, s =>
    ⟨d, n, d.2.allowedIn s⟩ ::
      verdicts now ds ns [] ((Command.seq (d.2.checkCommands now n stack)).run s)
  | _, _, _, _ => []

lemma allowedIn_congr {s s' : Store} (h : ∀ id, s'.val (.job id) = s.val (.job id)) (self : Job) :
    self.allowedIn s' = self.allowedIn s := by
  simp only [Job.allowedIn, Job.statusesAllowedIn, h]

/-- Once the pipeline is empty a check does not change the statuses. -/
lemma verdicts_nil (ds : List (ℕ × Job)) (ns : List ℕ) (s : Store) :
    verdicts now ds ns [] s = (ds.zip ns).map fun p => ⟨p.1, p.2, p.1.2.allowedIn s⟩ := by
  induction ds generalizing ns s with
  | nil => rfl
  | cons d ds ih =>
    match ns with
    | [] => rfl
    | n :: ns =>
      have hjobs : ∀ id, ((Command.seq (d.2.checkCommands now n [])).run s).val (.job id) =
          s.val (.job id) := fun id => Command.keeps_seq (fun c hc => by
        rcases mem_checkCommands hc with hc | ⟨-, hc⟩
        · rcases Job.mem_registerCommands hc with rfl | ⟨id', -, rfl | rfl⟩ <;>
            exact Command.keeps_alter (by simp)
        · cases hc) s
      rw [verdicts, ih, List.zip_cons_cons, List.map_cons]
      simp only [allowedIn_congr hjobs]

/-- A job is recorded once for each iteration. -/
def copies (vs : List Verdict) (met : Bool) : List (ℕ × Job) :=
  vs.flatMap fun v => if v.met = met then List.replicate (v.conflicts + 1) v.job else []

lemma mem_copies {vs : List Verdict} {met : Bool} {d : ℕ × Job} :
    d ∈ copies vs met ↔ ∃ v ∈ vs, v.met = met ∧ v.job = d := by
  simp only [copies, List.mem_flatMap]
  refine exists_congr fun v => and_congr_right fun _ => ?_
  split
  · next h => simp [h, eq_comm]
  · next h => simp [h]

/-- A job that is found to have the verdict `met` is recorded once for each iteration. -/
lemma count_copies {vs : List Verdict} (hdistinct : (vs.map fun v => v.job.2.id).Nodup)
    {v : Verdict} (hv : v ∈ vs) (met : Bool) :
    ((copies vs met).map fun d => d.2.id).count v.job.2.id =
      if v.met = met then v.conflicts + 1 else 0 := by
  induction vs with
  | nil => cases hv
  | cons w vs ih =>
    rw [List.map_cons, List.nodup_cons] at hdistinct
    have hsplit : copies (w :: vs) met =
        (if w.met = met then List.replicate (w.conflicts + 1) w.job else []) ++ copies vs met := rfl
    rw [hsplit, List.map_append, List.count_append]
    rcases List.mem_cons.mp hv with rfl | hv
    · have hnone : v.job.2.id ∉ (copies vs met).map fun d => d.2.id := fun hmem => by
        obtain ⟨d, hd, hid⟩ := List.mem_map.mp hmem
        obtain ⟨w, hw, -, rfl⟩ := mem_copies.mp hd
        exact hdistinct.1 (List.mem_map.mpr ⟨w, hw, hid⟩)
      rw [List.count_eq_zero.mpr hnone]
      split <;> simp
    · have hne : w.job.2.id ≠ v.job.2.id := fun heq =>
        hdistinct.1 (List.mem_map.mpr ⟨v, hv, heq.symm⟩)
      rw [ih hdistinct.2 hv]
      split <;> simp [List.count_replicate, hne]

lemma filter_replicate_verdict (n : ℕ) (met : Bool) (d : ℕ × Job) :
    ((List.replicate n met).filter id).map (fun _ => d) =
        (if met = true then List.replicate n d else []) ∧
      ((List.replicate n met).filter not).map (fun _ => d) =
        (if met = false then List.replicate n d else []) := by
  cases met <;> simp

/-- The commands of a check leave the registrations of the other jobs alone. -/
lemma keeps_dependencies_checkCommands {id : JobId} (hid : id ≠ job.id) (conflicts : ℕ)
    {stack : List (Command Key Value)} (hstack : (Command.seq stack).Keeps (.dependencies id)) :
    (Command.seq (job.checkCommands now conflicts stack)).Keeps (.dependencies id) := by
  have hregister : (Command.seq (job.registerCommands now)).Keeps (.dependencies id) :=
    job.keeps_registerCommands (by simp) (by simp) (by simpa using hid)
  induction conflicts generalizing stack with
  | zero =>
    intro s
    simp only [Job.checkCommands, Nat.zero_add, List.replicate_one, List.flatten_cons,
      List.flatten_nil, List.append_nil, if_true, Command.seq_append_run]
    rw [hstack, hregister]
  | succ conflicts ih =>
    intro s
    rw [Job.checkCommands_succ, Command.seq_append_run, ih fun _ => rfl, hregister]

/-- **The loop over the jobs records every verdict of every iteration.** -/
theorem runOutcomes_getJobs {ds : List (ℕ × Job)} {ns : List ℕ} (hlength : ns.length = ds.length)
    (hids : ∀ d ∈ ds, d.2.dependencyIds ≠ []) (hfuel : ∀ n ∈ ns, n < fuel)
    (hwatched : pipe.watched = []) (hpipe : pipe.explicitTransaction = false)
    (hstack : ∀ d ∈ ds, (Command.seq pipe.commandStack).Keeps (.dependencies d.2.id))
    (hdistinct : (ds.map fun d => d.2.id).Nodup)
    (hdeps : ∀ d ∈ ds, ∀ id ∈ s.val (.dependencies d.2.id), id ∈ d.2.dependencyIds) :
    (getJobsWithMetDependencies now fuel ds pipe).runOutcomes (outcomes ns ++ os) s =
      (.ok (copies (verdicts now ds ns pipe.commandStack s) true,
          copies (verdicts now ds ns pipe.commandStack s) false),
        (Command.seq (checkAll now ds ns pipe.commandStack)).run s, os) := by
  induction ds generalizing ns pipe s with
  | nil =>
    obtain rfl := List.eq_nil_of_length_eq_zero hlength
    rfl
  | cons d ds ih =>
    match ns with
    | [] => cases hlength
    | n :: ns =>
      obtain ⟨i, job⟩ := d
      rw [List.map_cons, List.nodup_cons] at hdistinct
      have hhead := @runOutcomes_checkDependencies now pipe s job fuel (outcomes ns ++ os)
        (hids (i, job) List.mem_cons_self) n (hfuel n List.mem_cons_self) hwatched hpipe
        (hdeps (i, job) List.mem_cons_self)
      have hdeps' : ∀ d ∈ ds, ∀ id ∈ ((Command.seq (job.checkCommands now n
          pipe.commandStack)).run s).val (.dependencies d.2.id), id ∈ d.2.dependencyIds :=
        fun d hd => by
          have hne : d.2.id ≠ job.id := fun heq => hdistinct.1 (heq ▸ List.mem_map_of_mem hd)
          rw [keeps_dependencies_checkCommands hne n (hstack d (List.mem_cons_of_mem _ hd))]
          exact hdeps d (List.mem_cons_of_mem _ hd)
      have hrest := @ih {} ((Command.seq (job.checkCommands now n pipe.commandStack)).run s) ns
        (Nat.succ.inj hlength) (fun d hd => hids d (List.mem_cons_of_mem _ hd))
        (fun n hn => hfuel n (List.mem_cons_of_mem _ hn)) rfl rfl (fun _ _ _ => rfl) hdistinct.2
        hdeps'
      have hcopies := filter_replicate_verdict (n + 1) (job.allowedIn s) (i, job)
      have hsplit : outcomes (n :: ns) ++ os =
          List.replicate n true ++ false :: (outcomes ns ++ os) := by
        simp [outcomes]
      rw [getJobsWithMetDependencies, hsplit, Prog.runOutcomes_bind_ok hhead,
        Prog.runOutcomes_bind_ok hrest]
      simp only [Prog.pure_eq, Prog.runOutcomes, hcopies.1, hcopies.2, checkAll, verdicts, copies,
        List.flatMap_cons, Command.seq_append_run]

/-! ## The loop over the jobs whose dependencies are met -/

/-- The object that the loop enqueues: an earlier iteration may have changed it already. -/
def current (enqueued : List (ℕ × Job)) (d : ℕ × Job) : Job := (enqueued.lookup d.1).getD d.2

/-- The commands of the loop. -/
def metCommands (self : Queue) (now : Time) :
    List (ℕ × Job) → List (ℕ × Job) → List (Command Key Value)
  | [], _ => []
  | d :: ds, enqueued =>
    enqueueCommands self (current enqueued d) ((current enqueued d).enqueueAtFront.getD false) now ++
      metCommands self now ds ((d.1, self._prepareForQueue (current enqueued d) now) :: enqueued)

/-- What has been enqueued comes from the same objects, as have the jobs with one index. -/
structure Consistent (queue : Queue) (now : Time) (ds enqueued : List (ℕ × Job)) : Prop where
  enqueued : ∀ d ∈ ds, ∀ job ∈ enqueued.lookup d.1, job = queue._prepareForQueue d.2 now
  same : ∀ d ∈ ds, ∀ d' ∈ ds, d.1 = d'.1 → d.2 = d'.2

section Met
variable {self : Queue} {ds enqueued : List (ℕ × Job)} {d : ℕ × Job}

/-- A second iteration prepares the job as the first one did. -/
lemma Consistent.current (h : Consistent self now (d :: ds) enqueued) :
    self._prepareForQueue (current enqueued d) now = self._prepareForQueue d.2 now ∧
      (Queue.current enqueued d).ttl = d.2.ttl := by
  unfold Queue.current
  cases hlookup : enqueued.lookup d.1 with
  | none => exact ⟨rfl, rfl⟩
  | some job =>
    obtain rfl := h.enqueued d List.mem_cons_self job hlookup
    exact ⟨by simp [_prepareForQueue], rfl⟩

lemma Consistent.current_id (h : Consistent self now (d :: ds) enqueued) :
    (Queue.current enqueued d).id = d.2.id := by
  have hid := congrArg Job.id h.current.1
  exact hid

lemma Consistent.tail (h : Consistent self now (d :: ds) enqueued) :
    Consistent self now ds
      ((d.1, self._prepareForQueue (Queue.current enqueued d) now) :: enqueued) where
  enqueued := by
    intro d' hd' job hjob
    rw [List.lookup_cons] at hjob
    split at hjob
    · next heq =>
      have hsame := h.same d List.mem_cons_self d' (List.mem_cons_of_mem _ hd')
        (beq_iff_eq.mp heq).symm
      rw [← hsame, ← h.current.1]
      exact (Option.mem_some.mp hjob).symm
    · exact h.enqueued d' (List.mem_cons_of_mem _ hd') job hjob
  same := fun d' hd' d'' hd'' =>
    h.same d' (List.mem_cons_of_mem _ hd') d'' (List.mem_cons_of_mem _ hd'')

theorem enqueueMet_buffer (h : Consistent self now ds enqueued) (hpipe : pipe.immediate = false)
    (httl : ∀ d ∈ ds, d.2.ttl ≠ some 0) :
    self.enqueueMet none now ds enqueued (some pipe) =
      .ret ((ds.map fun d => (d.1, self._prepareForQueue d.2 now)).reverse ++ enqueued,
        some (pipe.buffer (self.metCommands now ds enqueued))) := by
  induction ds generalizing enqueued pipe with
  | nil => simp [enqueueMet, metCommands]
  | cons d ds ih =>
    obtain ⟨i, job⟩ := d
    obtain ⟨hprepare, httl'⟩ := h.current
    have hjob : (Queue.current enqueued (i, job)).ttl ≠ some 0 := by
      rw [httl']
      exact httl (i, job) List.mem_cons_self
    generalize hcurrent : Queue.current enqueued (i, job) = cur at hprepare hjob
    have hbuffer := @Queue.enqueueJob_buffer pipe hpipe self cur hjob
      (cur.enqueueAtFront.getD false) now
    have hrest := @ih (pipe.buffer (enqueueCommands self cur (cur.enqueueAtFront.getD false) now)) _
      h.tail hpipe fun d hd => httl d (List.mem_cons_of_mem _ hd)
    rw [hcurrent] at hrest
    have hlookup : (enqueued.lookup i).getD job = cur := hcurrent
    simp only [enqueueMet, _enqueueJobOn, hlookup, hbuffer, Prog.ret_bind, hrest]
    simp [metCommands, hcurrent, hprepare]

/-- The commands are those that move the jobs to the queue. -/
lemma mem_metCommands (h : Consistent self now ds enqueued) {c : Command Key Value}
    (hc : c ∈ self.metCommands now ds enqueued) : ∃ d ∈ ds, EnqueueCommand self d.2 now c := by
  induction ds generalizing enqueued with
  | nil => cases hc
  | cons d ds ih =>
    rcases List.mem_append.mp hc with hc | hc
    · have hid := h.current_id
      refine ⟨d, List.mem_cons_self, ?_⟩
      cases enqueueCommand_of_mem hc with
      | undefer =>
        rw [hid]
        exact .undefer
      | status =>
        rw [hid]
        exact .status
      | save =>
        rw [hid, h.current.1]
        exact .save
      | expire k t => exact .expire k t
      | push atFront =>
        rw [hid]
        exact .push atFront
    · obtain ⟨d', hd', hc⟩ := ih h.tail hc
      exact ⟨d', List.mem_cons_of_mem _ hd', hc⟩

/-- Every job is pushed as often as it occurs. -/
lemma log_metCommands (h : Consistent self now ds enqueued) (s : Store) :
    ((Command.seq (self.metCommands now ds enqueued)).run s).val .log =
      s.val .log ++ ds.map fun d => ⟨self.key, d.2.id⟩ := by
  induction ds generalizing enqueued s with
  | nil => simp [metCommands]
  | cons d ds ih =>
    have hid := h.current_id
    rw [metCommands, Command.seq_append_run, ih h.tail, log_enqueueCommands, hid]
    simp

/-- A deferred job leaves the registry when it is enqueued first. -/
lemma zrem_mem_metCommands (h : Consistent self now ds enqueued) (hd : d ∈ ds)
    (hfirst : enqueued.lookup d.1 = none) (hstatus : d.2.status = .deferred) :
    zrem .deferred self.name d.2.id ∈ self.metCommands now ds enqueued := by
  induction ds generalizing enqueued with
  | nil => cases hd
  | cons d' ds ih =>
    by_cases heq : d'.1 = d.1
    · have hsame := h.same d' List.mem_cons_self d hd heq
      have hcurrent : Queue.current enqueued d' = d.2 := by
        rw [Queue.current, heq, hfirst, Option.getD_none, hsame]
      refine List.mem_append_left _ ?_
      simp [hcurrent, enqueueCommands, hstatus]
    · have hd' : d ∈ ds := (List.mem_cons.mp hd).resolve_left fun h => heq (h ▸ rfl)
      refine List.mem_append_right _ (ih h.tail hd' ?_)
      have hbeq : (d.1 == d'.1) = false := by simpa using Ne.symm heq
      rw [List.lookup_cons, hbeq]
      exact hfirst

end Met

end Queue

end RedisQueue
