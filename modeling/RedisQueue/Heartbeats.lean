import Mathlib.Data.Rat.Floor
import Mathlib.Tactic.Linarith
import RedisQueue.Commands

/-!
# The heartbeats of a running execution

While its work horse runs, a worker wakes up every `job_monitoring_interval` seconds
(`Worker.monitor_work_horse`). It kills a horse that has been working for more than sixty seconds
after the timeout of its job, and otherwise renews the time to live of the execution
(`BaseWorker.maintain_heartbeats`).

* `Worker.lt_getHeartbeatTtlAt_iff`: which time to live lasts until the next beat;
* `Monitor.Run`: a monitored execution, with the clock and the other clients;
* `Monitor.timely_outlives`: an execution whose beats are timely is alive at every moment of its run.

Beats come at any moment of the day, so the working time is a rational number. The clock that is
written to Redis shows whole seconds.
-/

namespace RedisQueue

/-- `int` of a number: its fraction is dropped. -/
def truncate (q : ℚ) : ℤ := if 0 ≤ q then ⌊q⌋ else ⌈q⌉

lemma truncate_intCast (z : ℤ) : truncate z = z := by
  unfold truncate
  split
  · exact Int.floor_intCast z
  · exact Int.ceil_intCast z

lemma lt_truncate_iff {k : ℤ} {q : ℚ} : k < truncate q ↔ if k < 0 then (k : ℚ) < q else k + 1 ≤ q := by
  unfold truncate
  by_cases hq : 0 ≤ q
  · -- towards zero is down
    rw [if_pos hq, Int.lt_iff_add_one_le, Int.le_floor]
    push_cast
    split
    · next hk =>
      have hk' : (k : ℚ) + 1 ≤ 0 := by exact_mod_cast hk
      constructor
      · intro _
        linarith
      · intro _
        linarith
    · rfl
  · -- towards zero is up
    rw [if_neg hq, Int.lt_ceil]
    have hneg : q < 0 := lt_of_not_ge hq
    split
    · rfl
    · next hk =>
      have hk' : (0 : ℚ) ≤ k := by exact_mod_cast not_lt.mp hk
      constructor
      · intro h
        linarith
      · intro h
        linarith

namespace Worker

/-! ## The time to live of a beat -/

/-- `BaseWorker.get_heartbeat_ttl`, for a working time that is not a whole number of seconds. -/
def getHeartbeatTtlAt (self : Worker) (job : Job) (workingTime : ℚ) : ℤ :=
  match job.timeout with
  | none => self.jobMonitoringInterval + 60
  | some timeout =>
    if 0 < timeout then
      truncate (min (timeout - workingTime) self.jobMonitoringInterval) + 60
    else self.jobMonitoringInterval + 60

/-- The two agree on whole seconds. -/
lemma getHeartbeatTtl_eq (self : Worker) (job : Job) :
    self.getHeartbeatTtl job = self.getHeartbeatTtlAt job self.currentJobWorkingTime := by
  unfold getHeartbeatTtl getHeartbeatTtlAt
  cases job.timeout with
  | none => rfl
  | some timeout =>
    dsimp only
    split
    · rw [← Int.cast_sub, ← Int.cast_min, truncate_intCast]
    · rfl

/-- The next beat comes before the horse would be killed, and a second before if beats are a minute
or more apart. -/
def TimelyBeat (timeout interval : ℤ) (workingTime : ℚ) : Prop :=
  if interval < 60 then workingTime + interval < timeout + 60
  else workingTime + interval ≤ timeout + 59

/-- Exactly the beats that are timely set a time to live that lasts until the next one. -/
theorem lt_getHeartbeatTtlAt_iff {self : Worker} {job : Job} {timeout : ℤ} {workingTime : ℚ}
    (htimeout : job.timeout = some timeout) (hpos : 0 < timeout) :
    self.jobMonitoringInterval < self.getHeartbeatTtlAt job workingTime ↔
      TimelyBeat timeout self.jobMonitoringInterval workingTime := by
  unfold getHeartbeatTtlAt TimelyBeat
  rw [htimeout]
  dsimp only
  rw [if_pos hpos]
  generalize self.jobMonitoringInterval = m
  have hshift : m < truncate (min ((timeout : ℚ) - workingTime) m) + 60 ↔
      m - 60 < truncate (min ((timeout : ℚ) - workingTime) m) := by
    omega
  rw [hshift, lt_truncate_iff]
  by_cases hm : m < 60
  · have hm' : m - 60 < 0 := by omega
    rw [if_pos hm', if_pos hm, lt_min_iff]
    push_cast
    constructor
    · intro h
      linarith [h.1]
    · intro h
      exact ⟨by linarith, by linarith⟩
  · have hm' : ¬m - 60 < 0 := by omega
    rw [if_neg hm', if_neg hm, le_min_iff]
    push_cast
    constructor
    · intro h
      linarith [h.1]
    · intro h
      exact ⟨by linarith, by linarith⟩

/-! ## A beat -/

/-- `BaseWorker.maintain_heartbeats`. The replies to the two `HSET`s tell whether the field is new,
that is, whether a hash had gone in the meantime. -/
def maintainHeartbeats (self : Worker) (execution : Execution) (job : Job) (workingTime : ℚ)
    (now : Time) : Redis Execution := do
  let pipeline ← self.heartbeat (self.jobMonitoringInterval + 60) (some {}) now
  let ttl := self.getHeartbeatTtlAt job workingTime
  let (execution, pipeline) ← execution.heartbeat job.origin ttl pipeline now
  let (job, pipeline) ← job.heartbeat pipeline now
  let (workerIsNew, jobIsNew) ← Prog.step (Command.seq (pipeline.getD {}).commandStack).run fun s =>
    .ret ((s.val (.worker self.name)).lastHeartbeat.isNone,
      (s.val (.job job.id)).lastHeartbeat.isNone)
  let pipeline ← if jobIsNew then Client.command (some {}) (.del (.job job.id)) else pure (some {})
  let pipeline ← if workerIsNew
    then pipeline.command (hsetWorker self.name fun h => { h with lastHeartbeat := some now })
    else pure pipeline
  let _ ← (pipeline.getD {}).execute
  return execution

/-- An iteration of the loop of `Worker.monitor_work_horse` for a horse that has not exited. The
result is `none` when the horse is killed. -/
def monitorBeat (self : Worker) (execution : Execution) (job : Job) (workingTime : ℚ)
    (now : Time) : Redis (Option Execution) := do
  let (self, _) ← self.setCurrentJobWorkingTime (truncate workingTime) none
  match job.timeout with
  | none => .throw .typeError
  | some timeout =>
    if timeout ≠ -1 ∧ timeout + 60 < workingTime then do
      let _ ← self.heartbeat (self.jobMonitoringInterval + 60) none now
      return none
    else do
      let execution ← self.maintainHeartbeats execution job workingTime now
      return some execution

def workerBeat (self : Worker) (now : Time) : List (Command Key Value) :=
  [hsetWorker self.name fun h => { h with lastHeartbeat := some now },
    expire (.worker self.name) (self.jobMonitoringInterval + 60) now]

def executionBeat (execution : Execution) (ttl : ℤ) (now : Time) : List (Command Key Value) :=
  [.write (.execution execution.jobId execution.id) fun h => { h with lastHeartbeat := some now },
    expire (.execution execution.jobId execution.id) ttl now]

def jobBeat (execution : Execution) (job : Job) (ttl : ℤ) (now : Time) : List (Command Key Value) :=
  [.alter (.executions execution.jobId) fun z => z.add execution.id (((now + ttl) + 60 : ℤ) : Score),
    expire (.executions execution.jobId) (ttl + 60) now,
    hset job.id { lastHeartbeat := some (some now) }]

/-- What a beat with the time to live `ttl` executes in one transaction. -/
def beatCommands (self : Worker) (execution : Execution) (job : Job) (ttl : ℤ) (now : Time) :
    List (Command Key Value) :=
  self.workerBeat now ++ (executionBeat execution ttl now ++
    ([addExecution job.origin { execution with lastHeartbeat := now } ttl true now] ++
      jobBeat execution job ttl now))

/-- What the beat does afterwards concerns the hashes of the job and of the worker only. -/
lemma run_maintainHeartbeats (self : Worker) (execution : Execution) (job : Job) (workingTime : ℚ)
    (now : Time) (s : Store) :
    ∃ s', (self.maintainHeartbeats execution job workingTime now).run s =
        (.ok { execution with lastHeartbeat := now }, s') ∧
      ∀ k, k ≠ .job job.id → k ≠ .worker self.name → KeyStore.AgreeAt k s'
        ((Command.seq (self.beatCommands execution job
          (self.getHeartbeatTtlAt job workingTime) now)).run s) := by
  -- the second transaction, with or without each of its commands
  have hrest : ∀ cs : List (Command Key Value),
      (∀ c ∈ cs, ∀ k, k ≠ .job job.id → k ≠ .worker self.name → c.Frames k) → ∀ t : Store,
      ∃ s', ((do
          let _ ← (({} : Pipeline Key Value).buffer cs).execute
          .ret { execution with lastHeartbeat := now } : Redis Execution)).run t =
            (.ok { execution with lastHeartbeat := now }, s') ∧
        ∀ k, k ≠ .job job.id → k ≠ .worker self.name → KeyStore.AgreeAt k s' t := by
    intro cs hcs t
    refine ⟨_, Prog.run_bind_ok (Pipeline.run_execute_of_unwatched rfl t), fun k hj hw => ?_⟩
    exact Command.frames_seq (fun c hc => hcs c hc k hj hw) t
  have hdel : ∀ k, k ≠ .job job.id → k ≠ .worker self.name →
      (Command.del (.job job.id) : Command Key Value).Frames k :=
    fun k hj _ => Command.frames_alter hj
  have hset : ∀ k, k ≠ .job job.id → k ≠ .worker self.name →
      (hsetWorker self.name fun h => { h with lastHeartbeat := some now }).Frames k :=
    fun k _ hw => Command.frames_write hw
  unfold maintainHeartbeats
  simp only [heartbeat, Execution.heartbeat, ExecutionRegistry.add, Job.heartbeat,
    Client.command_buffer, Pipeline.immediate_buffer, Pipeline.immediate_empty, Prog.pure_eq,
    Prog.ret_bind, Pipeline.buffer_buffer, Option.getD_some, Pipeline.buffer_commandStack,
    Prog.step_bind, Prog.run_step, List.nil_append, List.cons_append]
  split
  · split
    · exact hrest _ (by simpa using ⟨hdel, hset⟩) _
    · exact hrest _ (by simpa using hdel) _
  · split
    · exact hrest _ (by simpa using hset) _
    · have hnone := hrest [] (by simp)
      rw [Pipeline.buffer_nil] at hnone
      exact hnone _

/-! ### The keys of the execution -/

lemma frames_expireIn {k k' : Key} (h : k ≠ k') (ttl : ℤ) (now : Time) :
    (expire k' ttl now).Frames k := by
  unfold expire
  split
  · exact Command.frames_alter h
  · exact Command.frames_expire h

lemma local_expireIn (k : Key) (ttl : ℤ) (now : Time) : (expire k ttl now).Local := by
  unfold expire
  split
  · exact Command.local_alter k _
  · exact Command.local_expire k _

lemma frames_workerBeat (self : Worker) (now : Time) {k : Key} (hk : k ≠ .worker self.name) :
    ∀ c ∈ self.workerBeat now, c.Frames k := by
  simp only [workerBeat, List.mem_cons, List.not_mem_nil, or_false]
  rintro c (rfl | rfl)
  · exact Command.frames_write hk
  · exact frames_expireIn hk _ _

lemma frames_executionBeat (execution : Execution) (ttl : ℤ) (now : Time) {k : Key}
    (hk : k ≠ .execution execution.jobId execution.id) :
    ∀ c ∈ executionBeat execution ttl now, c.Frames k := by
  simp only [executionBeat, List.mem_cons, List.not_mem_nil, or_false]
  rintro c (rfl | rfl)
  · exact Command.frames_write hk
  · exact frames_expireIn hk _ _

lemma local_executionBeat (execution : Execution) (ttl : ℤ) (now : Time) :
    ∀ c ∈ executionBeat execution ttl now, c.Local := by
  simp only [executionBeat, List.mem_cons, List.not_mem_nil, or_false]
  rintro c (rfl | rfl)
  · exact Command.local_write _ _
  · exact local_expireIn _ _ _

lemma beaten_ne_default (h : ExecutionHash) (now : Time) :
    ({ h with lastHeartbeat := some now } : ExecutionHash) ≠ default := by
  intro heq
  have hbeat : some now = none := congrArg ExecutionHash.lastHeartbeat heq
  cases hbeat

/-- A time to live that is not positive deletes the hash. -/
lemma val_executionBeat (execution : Execution) (ttl : ℤ) (now : Time) (s : Store) :
    ((Command.seq (executionBeat execution ttl now)).run s).val
      (.execution execution.jobId execution.id) ≠ default ↔ 0 < ttl := by
  simp only [executionBeat, Command.seq_cons_run, Command.seq_nil_run, expire]
  split
  · next hle =>
    rw [Command.val_del, Function.update_self]
    exact iff_of_false (fun hne => hne rfl) (not_lt.mpr hle)
  · next hpos =>
    rw [Command.val_expire, Command.val_write, Function.update_self]
    exact iff_of_true (beaten_ne_default _ now) (lt_of_not_ge hpos)

lemma exp_executionBeat (execution : Execution) {ttl : ℤ} (hpos : 0 < ttl) (now : Time)
    (s : Store) : ((Command.seq (executionBeat execution ttl now)).run s).exp
      (.execution execution.jobId execution.id) = some (now + ttl) := by
  simp only [executionBeat, Command.seq_cons_run, Command.seq_nil_run, expire,
    if_neg (not_le.mpr hpos), Command.expire]
  rw [if_neg]
  · show Function.update _ _ _ _ = _
    rw [Function.update_self]
  · rw [Command.val_write, Function.update_self]
    exact beaten_ne_default _ now

lemma frames_jobBeat (execution : Execution) (job : Job) (ttl : ℤ) (now : Time) {k : Key}
    (hk : k ≠ .executions execution.jobId) (hk' : k ≠ .job job.id) :
    ∀ c ∈ jobBeat execution job ttl now, c.Frames k := by
  simp only [jobBeat, List.mem_cons, List.not_mem_nil, or_false]
  rintro c (rfl | rfl | rfl)
  · exact Command.frames_alter hk
  · exact frames_expireIn hk _ _
  · exact Command.frames_write hk'

/-- The transaction of a beat touches the hash of the execution in one of its parts. -/
lemma beatCommands_execution (self : Worker) (execution : Execution) (job : Job) (ttl : ℤ)
    (now : Time) (s : Store) :
    KeyStore.AgreeAt (.execution execution.jobId execution.id)
      ((Command.seq (self.beatCommands execution job ttl now)).run s)
      ((Command.seq (executionBeat execution ttl now)).run s) := by
  apply Command.agreeAt_seq_middle
  · exact self.frames_workerBeat now (by simp)
  · exact local_executionBeat execution ttl now
  · intro c hc
    rcases List.mem_append.mp hc with hadd | hjob
    · obtain rfl := List.mem_singleton.mp hadd
      exact Command.frames_alter (by simp)
    · exact frames_jobBeat execution job ttl now (by simp) (by simp) c hjob

/-- And the registry of running executions in another. -/
lemma beatCommands_wip (self : Worker) (execution : Execution) (job : Job) (ttl : ℤ)
    (now : Time) (s : Store) :
    KeyStore.AgreeAt (.wip job.origin)
      ((Command.seq (self.beatCommands execution job ttl now)).run s)
      ((addExecution job.origin { execution with lastHeartbeat := now } ttl true now).run s) := by
  unfold beatCommands
  rw [← List.append_assoc]
  apply Command.agreeAt_seq_middle
  · intro c hc
    rcases List.mem_append.mp hc with hworker | hexecution
    · exact self.frames_workerBeat now (by simp) c hworker
    · exact frames_executionBeat execution ttl now (by simp) c hexecution
  · intro c hc
    obtain rfl := List.mem_singleton.mp hc
    exact Command.local_alter _ _
  · exact frames_jobBeat execution job ttl now (by simp) (by simp)

lemma local_beatCommands (self : Worker) (execution : Execution) (job : Job) (ttl : ℤ)
    (now : Time) : ∀ c ∈ self.beatCommands execution job ttl now, c.Local := by
  simp only [beatCommands, workerBeat, executionBeat, jobBeat, List.cons_append, List.nil_append,
    List.forall_mem_cons]
  exact ⟨Command.local_write _ _, local_expireIn _ _ _, Command.local_write _ _,
    local_expireIn _ _ _, Command.local_alter _ _, Command.local_alter _ _, local_expireIn _ _ _,
    Command.local_write _ _, List.forall_mem_nil _⟩

/-- A beat that lets the horse go on. -/
lemma run_monitorBeat (self : Worker) (execution : Execution) {job : Job} {timeout : ℤ}
    (htimeout : job.timeout = some timeout) {workingTime : ℚ} (hpasses : workingTime ≤ timeout + 60)
    (now : Time) (s : Store) :
    ∃ s', (self.monitorBeat execution job workingTime now).run s =
        (.ok (some { execution with lastHeartbeat := now }), s') ∧
      ∀ k, k ≠ .job job.id → k ≠ .worker self.name → KeyStore.AgreeAt k s'
        ((Command.seq (self.beatCommands execution job
          (self.getHeartbeatTtlAt job workingTime) now)).run s) := by
  have hgoes : ¬(timeout ≠ -1 ∧ (timeout : ℚ) + 60 < workingTime) :=
    fun hkill => absurd hkill.2 (not_lt.mpr hpasses)
  obtain ⟨s', hrun, hagree⟩ := run_maintainHeartbeats
    { self with currentJobWorkingTime := truncate workingTime } execution job workingTime now
    ((hsetWorker self.name fun h =>
      { h with currentJobWorkingTime := some (truncate workingTime) }).run s)
  refine ⟨s', ?_, fun k hj hw => (hagree k hj hw).trans ?_⟩
  · simp only [monitorBeat, setCurrentJobWorkingTime, Client.command, bind_assoc, Prog.pure_eq,
      Prog.ret_bind, htimeout, if_neg hgoes, Prog.run_bind_ok (Prog.run_perform _ _)]
    exact Prog.run_bind_ok hrun
  · -- the working time goes to the hash of the worker
    exact Command.local_seq (local_beatCommands self execution job _ now) k _ _
      (Command.frames_write hw s)

end Worker

/-! ## Monitored executions -/

/-- A worker, the job that its work horse runs and the execution that it monitors. -/
structure Monitor where
  worker : Worker
  job : Job
  executionId : ExecutionId
  startedAt : ℚ
  timeout : ℤ
  hasTimeout : job.timeout = some timeout
  timeout_pos : 0 < timeout
  interval_pos : 0 < worker.jobMonitoringInterval

/-- A moment of a monitored execution; `due` is when the next beat comes. -/
structure Watch where
  store : Store
  execution : Execution
  now : ℚ
  due : ℚ

namespace Monitor
variable (mon : Monitor)

def interval : ℤ := mon.worker.jobMonitoringInterval

def executionKey : Key := .execution mon.job.id mon.executionId

/-- The member of the registry of running executions. -/
def entry : JobId × ExecutionId := (mon.job.id, mon.executionId)

def ttl (workingTime : ℚ) : ℤ := mon.worker.getHeartbeatTtlAt mon.job workingTime

def Timely (workingTime : ℚ) : Prop :=
  Worker.TimelyBeat mon.timeout mon.interval workingTime

/-- The beat at the moment `now` lets the horse go on. -/
def Beats (now : ℚ) (w w' : Watch) : Prop :=
  now - mon.startedAt ≤ mon.timeout + 60 ∧
  (mon.worker.monitorBeat w.execution mon.job (now - mon.startedAt) ⌊now⌋).run w.store =
    (.ok (some w'.execution), w'.store) ∧
  w'.now = now ∧ w'.due = now + mon.interval

/-- What other clients do to a running execution: they leave its hash alone, and its entry as long
as that has not expired. -/
structure Spares (w : Watch) (s : Store) : Prop where
  hash : KeyStore.AgreeAt mon.executionKey s w.store
  entry : ∀ score, (mon.entry, score) ∈ (w.store.val (.wip mon.job.origin)).entries →
    ((⌊w.now⌋ : ℤ) : Score) < score → (mon.entry, score) ∈ (s.val (.wip mon.job.origin)).entries
  exp : s.exp (.wip mon.job.origin) = w.store.exp (.wip mon.job.origin)

/-- The run of an execution from its first beat on, as long as its horse is monitored. Beats are
`interval` seconds apart and have working times that satisfy `C`. -/
inductive Run (C : ℚ → Prop) : Watch → Prop
  | first {w w' : Watch} (hid : w.execution.jobId = mon.job.id ∧ w.execution.id = mon.executionId)
      (hentry : mon.entry ∈ w.store.val (.wip mon.job.origin))
      (hexp : w.store.exp (.wip mon.job.origin) = none)
      (hC : C (w.due - mon.startedAt)) (hbeat : mon.Beats w.due w w') : Run C w'
  | beat {w w' : Watch} (h : Run C w) (hdue : w.now = w.due) (hC : C (w.due - mon.startedAt))
      (hbeat : mon.Beats w.due w w') : Run C w'
  | wait {w : Watch} (h : Run C w) {t : ℚ} (hnow : w.now ≤ t) (hdue : t ≤ w.due) :
      Run C { w with store := w.store.expireAt ⌊t⌋, now := t }
  | others {w : Watch} (h : Run C w) {s : Store} (hs : mon.Spares w s) :
      Run C { w with store := s }

/-- Until the next beat the hash of the execution exists, its entry is in the registry, and no
clean-up finds it there among the entries that have expired. -/
structure Outlives (w : Watch) : Prop where
  hash : w.store.val mon.executionKey ≠ default
  unexpired : ∀ t ≤ w.due, ¬w.store.Expired ⌊t⌋ mon.executionKey
  listed : mon.entry ∈ w.store.val (.wip mon.job.origin)
  unclaimed : ∀ t ≤ w.due, mon.entry ∉
    (w.store.val (.wip mon.job.origin)).range StartedJobRegistry.entryLe (0 : ℤ) (⌊t⌋ : ℤ)

/-! ### What a beat does -/

/-- The execution is registered; it may have expired already. -/
structure Listed (w : Watch) : Prop where
  jobId : w.execution.jobId = mon.job.id
  id : w.execution.id = mon.executionId
  entry : mon.entry ∈ w.store.val (.wip mon.job.origin)
  exp : w.store.exp (.wip mon.job.origin) = none

variable {mon}

/-- After a beat. -/
structure Renewed (mon : Monitor) (now : ℚ) (w w' : Watch) : Prop where
  execution : w'.execution = { w.execution with lastHeartbeat := ⌊now⌋ }
  hash : KeyStore.AgreeAt mon.executionKey w'.store ((Command.seq
    (Worker.executionBeat w.execution (mon.ttl (now - mon.startedAt)) ⌊now⌋)).run w.store)
  wip : KeyStore.AgreeAt (.wip mon.job.origin) w'.store
    ((addExecution mon.job.origin { w.execution with lastHeartbeat := ⌊now⌋ }
      (mon.ttl (now - mon.startedAt)) true ⌊now⌋).run w.store)

lemma Beats.renewed {now : ℚ} {w w' : Watch} (h : mon.Beats now w w') (hw : mon.Listed w) :
    mon.Renewed now w w' := by
  obtain ⟨hpasses, hrun, -, -⟩ := h
  obtain ⟨s', hrun', hagree⟩ := mon.worker.run_monitorBeat w.execution mon.hasTimeout hpasses ⌊now⌋
    w.store
  rw [hrun'] at hrun
  obtain ⟨hexecution, rfl⟩ : { w.execution with lastHeartbeat := ⌊now⌋ } = w'.execution ∧
      s' = w'.store := by
    simpa using hrun
  have hkey : mon.executionKey = .execution w.execution.jobId w.execution.id := by
    rw [hw.jobId, hw.id, executionKey]
  refine ⟨hexecution.symm, ?_, ?_⟩
  · rw [hkey]
    exact (hagree _ (by simp) (by simp)).trans (Worker.beatCommands_execution ..)
  · exact (hagree _ (by simp) (by simp)).trans (Worker.beatCommands_wip ..)

lemma Renewed.entry {now : ℚ} {w w' : Watch} (h : mon.Renewed now w w') (hw : mon.Listed w) {e} :
    e ∈ (w'.store.val (.wip mon.job.origin)).entries ∧ e.1 = mon.entry ↔
      e = (mon.entry, registryScore (mon.ttl (now - mon.startedAt)) ⌊now⌋) := by
  have hentry : (w.execution.jobId, w.execution.id) = mon.entry := by
    rw [hw.jobId, hw.id]
    rfl
  have hmem : (w.execution.jobId, w.execution.id) ∈ w.store.val (.wip mon.job.origin) :=
    hentry ▸ hw.entry
  rw [h.wip.1, addExecution, Command.val_alter, Function.update_self]
  dsimp only
  rw [if_neg (by simp [hmem]), ZSet.mem_entries_add, hentry]
  constructor
  · rintro ⟨he | he, heq⟩
    · exact he
    · exact absurd heq he.2
  · rintro rfl
    exact ⟨.inl rfl, rfl⟩

lemma Renewed.listed {now : ℚ} {w w' : Watch} (h : mon.Renewed now w w') (hw : mon.Listed w) :
    mon.Listed w' where
  jobId := by rw [h.execution, hw.jobId]
  id := by rw [h.execution, hw.id]
  entry := ZSet.mem_iff_exists.mpr ⟨_, ((h.entry hw).mpr rfl).1⟩
  exp := by
    rw [h.wip.2]
    exact Command.exp_alter_of_none _ hw.exp

lemma Listed.key {w : Watch} (hw : mon.Listed w) :
    mon.executionKey = .execution w.execution.jobId w.execution.id := by
  rw [hw.jobId, hw.id]
  rfl

/-- The beat revives a hash that has expired, and a time to live that is not positive deletes it. -/
lemma Renewed.hash_iff {now : ℚ} {w w' : Watch} (h : mon.Renewed now w w') (hw : mon.Listed w) :
    w'.store.val mon.executionKey ≠ default ↔ 0 < mon.ttl (now - mon.startedAt) := by
  have hagree := h.hash
  rw [hw.key] at hagree ⊢
  rw [hagree.1]
  exact Worker.val_executionBeat ..

lemma Renewed.expiry {now : ℚ} {w w' : Watch} (h : mon.Renewed now w w') (hw : mon.Listed w)
    (hpos : 0 < mon.ttl (now - mon.startedAt)) :
    w'.store.exp mon.executionKey = some (⌊now⌋ + mon.ttl (now - mon.startedAt)) := by
  have hagree := h.hash
  rw [hw.key] at hagree ⊢
  rw [hagree.2]
  exact Worker.exp_executionBeat _ hpos _ _

/-! ### Runs -/

/-- The invariant of a run with timely beats. -/
structure Alive (mon : Monitor) (w : Watch) : Prop extends mon.Listed w where
  hash : w.store.val mon.executionKey ≠ default
  expiry : ∃ e : ℤ, w.store.exp mon.executionKey = some e ∧ ⌊w.due⌋ < e
  score : ∃ sc : ℤ, (mon.entry, (sc : Score)) ∈ (w.store.val (.wip mon.job.origin)).entries ∧
    ⌊w.due⌋ < sc
  now_le : w.now ≤ w.due

lemma floor_lt_of_le {t due : ℚ} {e : ℤ} (ht : t ≤ due) (he : ⌊due⌋ < e) : ⌊t⌋ < e :=
  lt_of_le_of_lt (Int.floor_le_floor ht) he

lemma Alive.outlives {w : Watch} (h : mon.Alive w) : mon.Outlives w where
  hash := h.hash
  unexpired t ht hexpired := by
    obtain ⟨e, he, hdue⟩ := h.expiry
    obtain ⟨e', he', hlt⟩ := hexpired
    rw [he, Option.mem_some_iff] at he'
    have hfloor := floor_lt_of_le ht hdue
    omega
  listed := h.entry
  unclaimed t ht hclaimed := by
    obtain ⟨sc, hsc, hdue⟩ := h.score
    obtain ⟨sc', hsc', hrange⟩ := ZSet.mem_range.mp hclaimed
    have hfloor := floor_lt_of_le ht hdue
    -- a member has one score
    have heq : (mon.entry, (sc : Score)) = (mon.entry, sc') :=
      List.inj_on_of_nodup_map (w.store.val (.wip mon.job.origin)).nodup hsc hsc' rfl
    obtain rfl : (sc : Score) = sc' := congrArg Prod.snd heq
    simp only [ZSet.inRange, Bool.and_eq_true, decide_eq_true_eq] at hrange
    have hle : sc ≤ ⌊t⌋ := WithTop.coe_le_coe.mp hrange.2
    omega

lemma ttl_gt_iff {workingTime : ℚ} :
    mon.interval < mon.ttl workingTime ↔ mon.Timely workingTime :=
  Worker.lt_getHeartbeatTtlAt_iff mon.hasTimeout mon.timeout_pos

lemma ttl_pos_of_timely {workingTime : ℚ} (h : mon.Timely workingTime) : 0 < mon.ttl workingTime :=
  mon.interval_pos.trans (ttl_gt_iff.mpr h)

/-- What a timely beat establishes. -/
lemma Beats.alive {w w' : Watch} (h : mon.Beats w.due w w') (hw : mon.Listed w)
    (htimely : mon.Timely (w.due - mon.startedAt)) : mon.Alive w' := by
  have hrenewed := h.renewed hw
  have hpos := ttl_pos_of_timely htimely
  have hlong := ttl_gt_iff.mpr htimely
  have hdue : ⌊w'.due⌋ = ⌊w.due⌋ + mon.interval := by
    rw [h.2.2.2, Int.floor_add_intCast]
  refine ⟨hrenewed.listed hw, (hrenewed.hash_iff hw).mpr hpos, ⟨_, hrenewed.expiry hw hpos, ?_⟩,
    ⟨⌊w.due⌋ + mon.ttl (w.due - mon.startedAt), ?_, ?_⟩, ?_⟩
  · omega
  · have hentry := ((hrenewed.entry hw).mpr rfl).1
    rwa [registryScore, if_neg (not_lt.mpr hpos.le)] at hentry
  · omega
  · rw [h.2.2.1, h.2.2.2]
    have hinterval : (0 : ℚ) < mon.interval := by exact_mod_cast mon.interval_pos
    linarith

lemma Alive.wait {w : Watch} (h : mon.Alive w) {t : ℚ} (ht : t ≤ w.due) :
    mon.Alive { w with store := w.store.expireAt ⌊t⌋, now := t } := by
  obtain ⟨e, he, hdue⟩ := h.expiry
  -- neither of the two keys goes
  have hhash : ¬w.store.Expired ⌊t⌋ mon.executionKey := h.outlives.unexpired t ht
  have hwip : ¬w.store.Expired ⌊t⌋ (.wip mon.job.origin) := by
    rintro ⟨e', he', -⟩
    rw [h.exp] at he'
    cases he'
  have hval : (w.store.expireAt ⌊t⌋).val (.wip mon.job.origin) = w.store.val (.wip mon.job.origin) :=
    if_neg hwip
  refine ⟨⟨h.jobId, h.id, ?_, ?_⟩, ?_, ⟨e, ?_, hdue⟩, ?_, ht⟩
  · rw [hval]
    exact h.entry
  · exact (if_neg hwip).trans h.exp
  · show (if w.store.Expired ⌊t⌋ mon.executionKey then default else _) ≠ default
    rw [if_neg hhash]
    exact h.hash
  · exact (if_neg hhash).trans he
  · rw [hval]
    exact h.score

lemma Alive.others {w : Watch} (h : mon.Alive w) {s : Store} (hs : mon.Spares w s) :
    mon.Alive { w with store := s } := by
  obtain ⟨sc, hsc, hdue⟩ := h.score
  -- the entry has not expired, so it is spared
  have hfloor := floor_lt_of_le h.now_le hdue
  have hentry := hs.entry sc hsc (WithTop.coe_lt_coe.mpr hfloor)
  refine ⟨⟨h.jobId, h.id, ZSet.mem_iff_exists.mpr ⟨sc, hentry⟩, hs.exp.trans h.exp⟩, ?_, ?_,
    ⟨sc, hentry, hdue⟩, h.now_le⟩
  · rw [hs.hash.1]
    exact h.hash
  · rw [hs.hash.2]
    exact h.expiry

lemma Run.alive {w : Watch} (h : mon.Run mon.Timely w) : mon.Alive w := by
  induction h with
  | first hid hentry hexp hC hbeat => exact hbeat.alive ⟨hid.1, hid.2, hentry, hexp⟩ hC
  | beat _ _ hC hbeat ih => exact hbeat.alive ih.toListed hC
  | wait _ _ hdue ih => exact ih.wait hdue
  | others _ hs ih => exact ih.others hs

/-- The times to live that last until the next beat are those of timely beats, and an execution
whose beats are all timely is alive in every state of its run. -/
theorem timely_outlives (mon : Monitor) :
    (∀ workingTime, 0 < mon.ttl workingTime ∧ mon.interval < mon.ttl workingTime ↔
      mon.Timely workingTime) ∧
    ∀ w, mon.Run mon.Timely w → mon.Outlives w :=
  ⟨fun _ => ⟨fun h => ttl_gt_iff.mp h.2, fun h => ⟨ttl_pos_of_timely h, ttl_gt_iff.mpr h⟩⟩,
    fun _ h => h.alive.outlives⟩

/-! ### A horse that does not obey its timeout -/

/-- The execution "e" of a job with a timeout of three minutes. -/
def defaults : Monitor where
  worker := { name := "worker", queues := ["default"] }
  job := { id := "job", origin := "default", timeout := some 180 }
  executionId := "e"
  startedAt := 1000
  timeout := 180
  hasTimeout := rfl
  timeout_pos := by decide
  interval_pos := by decide

/-- The moment of the beat after `workingTime` seconds. -/
def defaultsAt (workingTime : ℚ) : Watch where
  store := (addExecution "default" ⟨"e", "job", 1000, 1000⟩ 90 false 1000).run Store.empty
  execution := ⟨"e", "job", 1000, 1000⟩
  now := 1000 + workingTime
  due := 1000 + workingTime

lemma listed_defaultsAt (workingTime : ℚ) : defaults.Listed (defaultsAt workingTime) where
  jobId := rfl
  id := rfl
  entry := by
    show ("job", "e") ∈ ((addExecution "default" ⟨"e", "job", 1000, 1000⟩ 90 false 1000).run
      Store.empty).val (.wip "default")
    decide
  exp := rfl

lemma exists_beats {w : Watch} (h : w.due ≤ 1240) : ∃ w', defaults.Beats w.due w w' := by
  have hpasses : w.due - defaults.startedAt ≤ (180 : ℤ) + 60 := by
    show w.due - 1000 ≤ (180 : ℤ) + 60
    push_cast
    linarith
  obtain ⟨s', hrun, -⟩ := defaults.worker.run_monitorBeat w.execution
    defaults.hasTimeout hpasses ⌊w.due⌋ w.store
  exact ⟨⟨s', _, _, _⟩, hpasses, hrun, rfl, rfl⟩

lemma timely_defaults {due : ℚ} (h : due < 1210) : defaults.Timely (due - defaults.startedAt) := by
  unfold Timely Worker.TimelyBeat
  rw [if_pos (show defaults.interval < 60 by decide)]
  show due - 1000 + (30 : ℤ) < (180 : ℤ) + 60
  push_cast
  linarith

/-- Another client pushes a job. -/
lemma spares_push (mon : Monitor) (w : Watch) : mon.Spares w
    ((Command.write (.list (queueKey "default")) (· ++ ["other"])).run w.store) where
  hash := ⟨by simp [executionKey], Command.keepsExp_write (by simp [executionKey]) _⟩
  entry := fun _ h _ => by simpa using h
  exp := Command.keepsExp_write (by simp) _

/-- After two beats, between which another client has pushed a job. -/
theorem outlives_defaults :
    ∃ w, defaults.Run defaults.Timely w ∧ w.now = 1060 ∧ defaults.Outlives w := by
  have hlisted := listed_defaultsAt 30
  have hfirst : (defaultsAt 30).due = 1030 := by
    show (1000 : ℚ) + 30 = 1030
    norm_num
  obtain ⟨w₁, hbeat₁⟩ := @exists_beats (defaultsAt 30) (by rw [hfirst]; norm_num)
  have hdue : w₁.due = 1060 := by
    rw [hbeat₁.2.2.2, hfirst]
    show (1030 : ℚ) + (30 : ℤ) = 1060
    norm_num
  have hrun₁ : defaults.Run defaults.Timely w₁ :=
    .first ⟨rfl, rfl⟩ hlisted.entry hlisted.exp (timely_defaults (by rw [hfirst]; norm_num)) hbeat₁
  have hrun₂ := (hrun₁.others (spares_push _ _)).wait (t := w₁.due)
    (by rw [hbeat₁.2.2.1, hdue, hfirst]; norm_num) le_rfl
  obtain ⟨w₃, hbeat₃⟩ := @exists_beats ⟨_, _, _, w₁.due⟩ (by dsimp only; rw [hdue]; norm_num)
  have hrun₃ : defaults.Run defaults.Timely w₃ :=
    hrun₂.beat rfl (timely_defaults (by dsimp only; rw [hdue]; norm_num)) hbeat₃
  exact ⟨w₃, hrun₃, hbeat₃.2.2.1.trans hdue, (timely_outlives defaults).2 w₃ hrun₃⟩

/-- A minute after the timeout the beat lets the horse go on and deletes the execution. -/
theorem overdue_expires : (240 : ℚ) ≤ defaults.timeout + 60 ∧ defaults.ttl 240 = 0 ∧
    ∃ w, defaults.Run (fun _ => True) w ∧ ¬defaults.Outlives w := by
  have httl : defaults.ttl 240 = 0 := by
    show truncate (min ((180 : ℤ) - 240) (30 : ℤ)) + 60 = 0
    have hmin : min (((180 : ℤ) : ℚ) - 240) (30 : ℤ) = ((-60 : ℤ) : ℚ) := by norm_num
    rw [hmin, truncate_intCast]
    rfl
  have hdue : (defaultsAt 240).due ≤ 1240 := by
    show (1000 : ℚ) + 240 ≤ 1240
    norm_num
  obtain ⟨w, hbeat⟩ := exists_beats hdue
  have hlisted := listed_defaultsAt 240
  refine ⟨by norm_num [defaults], httl, w, ?_, fun houtlives => ?_⟩
  · exact .first ⟨rfl, rfl⟩ hlisted.entry hlisted.exp trivial hbeat
  · -- the hash has not survived the beat itself
    have hworking : (defaultsAt 240).due - defaults.startedAt = 240 := by
      show (1000 : ℚ) + 240 - 1000 = 240
      norm_num
    have hpos := ((hbeat.renewed hlisted).hash_iff hlisted).mp houtlives.hash
    rw [hworking, httl] at hpos
    exact absurd hpos (lt_irrefl 0)

end Monitor

end RedisQueue
