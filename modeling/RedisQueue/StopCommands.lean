import RedisQueue.Basic

/-!
# Commands to a worker

While the work horse of a worker executes a job, a thread of the worker listens for commands
(`rq/command.py`). `stop-job` and `kill-horse` kill the horse, and the main thread, which waits for
the horse, ends the job in its place (`Worker.monitor_work_horse`).

* `Workplace.handle`: a statement of the main thread, of the horse or of the command thread;
* `Workplace.ends_once`: in which runs every execution is ended exactly once, and as `stopped`
  just if a stop command has been accepted for it.

Executions are numbered from one, and the number is the process id of the horse. The status of a job
belongs to the job: the monitor of one execution may read what another one, or another client, has
left there.
-/

namespace RedisQueue

namespace StopCommands

/-! ## The processes -/

/-- How a work horse ends its job. -/
inductive Ending where
  | finished
  /-- The job has finished and has repeats left. -/
  | repeated
  /-- The job has returned a `Retry` object. -/
  | returnedRetry
  /-- The job has failed and has retries left. -/
  | retried
  | failed
deriving DecidableEq, Repr

/-- What is written to Redis when an execution ends. -/
inductive Record where
  | ended (ending : Ending)
  | stopped
  /-- The worker has found its horse dead. -/
  | terminated
deriving DecidableEq, Repr

/-- The statuses that a job can be left with. With a TTL of zero it is deleted, and has none. -/
def Record.leaves : Record → List (Option JobStatus)
  | .ended .finished => [some .finished, none]
  | .ended .repeated | .ended .returnedRetry | .ended .retried => [some .queued, some .scheduled]
  | .ended .failed => [some .failed, none]
  | .stopped => [some .stopped, none]
  | .terminated => [some .queued, some .scheduled, some .failed, none]

/-- How far a work horse is. -/
inductive Phase where
  | started
  /-- `prepare_job_execution` -/
  | prepared
  | committed
  /-- The exit status is zero, or it is not. -/
  | exited (ok : Bool)
deriving DecidableEq, Repr

/-- A child process that has not been waited for, with its copy of `_stopped_job_id`. -/
structure Horse where
  pid : ℕ
  jobId : JobId
  stoppedJobId : Option JobId
  /-- It is the leader of a process group of its own. -/
  grouped : Bool := false
  phase : Phase := .started
deriving DecidableEq, Repr

namespace Horse

/-- The record of a work horse. `handle_job_failure` looks at its copy of `_stopped_job_id`. -/
def record (horse : Horse) (ending : Ending) : Record :=
  if (ending = .failed ∨ ending = .retried) ∧ horse.stoppedJobId = some horse.jobId then .stopped
  else .ended ending

/-- A horse that has been sent a `SIGKILL`. -/
def killed (horse : Horse) : Horse :=
  match horse.phase with
  | .exited _ => horse
  | _ => { horse with phase := .exited false }

/-- The process group of a horse; `none` is that of the worker. -/
def group (horse : Horse) : Option ℕ := if horse.grouped then some horse.pid else none

end Horse

/-- What the main thread executes next. -/
inductive Main where
  | idle
  /-- `self._horse_pid = child_pid` -/
  | setHorsePid (jobId : JobId)
  | waitForHorse (jobId : JobId)
  /-- `self._horse_pid = 0`, when the status of the horse is known -/
  | resetHorsePid (jobId : JobId) (ok : Bool)
  /-- `job_status = job.get_status()` -/
  | getStatus (jobId : JobId)
  /-- `self._stopped_job_id == job.id` -/
  | stoppedTest (jobId : JobId) (status : JobStatus)
  | handleJobFailure (jobId : JobId)
deriving DecidableEq, Repr

/-- What the command thread executes next. -/
inductive Thread where
  | listening
  /-- `worker._stopped_job_id = job_id` -/
  | setStoppedJobId (jobId : JobId)
  /-- `os.getpgid(self.horse_pid)` -/
  | getpgid
  /-- `os.killpg`; `none` is the group of the worker -/
  | killpg (group : Option ℕ)
deriving DecidableEq, Repr

def Thread.kills : Thread → Bool
  | .killpg _ => true
  | _ => false

/-- A payload. -/
inductive Command where
  | stopJob (jobId : Option JobId)
  | killHorse
deriving DecidableEq, Repr

/-- A worker with its horse, and what Redis knows of them. -/
structure Workplace where
  alive : Bool := true
  main : Main := .idle
  thread : Thread := .listening
  horse : Option Horse := none
  /-- `_horse_pid` -/
  horsePid : ℕ := 0
  /-- `_stopped_job_id` -/
  stoppedJobId : Option JobId := none
  /-- The field `current_job` of the worker. -/
  currentJob : Option JobId := none
  /-- The status of every job in Redis. -/
  statuses : JobId → Option JobStatus := fun _ => none
  /-- How many horses have been forked. -/
  forks : ℕ := 0
  /-- What has been written about the executions. -/
  records : List (ℕ × Record) := []
  /-- The executions for which a stop command has been accepted. -/
  accepted : List ℕ := []

inductive HorseEvent where
  | setpgrp
  | prepareJobExecution
  /-- The job is left with the status. -/
  | commit (ending : Ending) (status : Option JobStatus)
  | exit (ok : Bool)
deriving DecidableEq, Repr

inductive Event where
  | executeJob (jobId : JobId)
  /-- The main thread goes on. Where it ends the job, it leaves it with the status. -/
  | main (status : Option JobStatus)
  /-- The main thread kills a horse that has not kept to its timeout, and waits for it. -/
  | overdue
  | horse (event : HorseEvent)
  /-- A message arrives. -/
  | command (command : Command)
  /-- The command thread goes on. -/
  | thread
  /-- Another client or worker changes the status of a job, or its hash expires. -/
  | client (jobId : JobId) (status : Option JobStatus)
deriving DecidableEq, Repr

namespace Workplace

/-! ## The main thread -/

/-- `prepare_execution` and `os.fork` -/
def executeJob (self : Workplace) (jobId : JobId) : Workplace :=
  { self with
    main := .setHorsePid jobId
    forks := self.forks + 1
    horse := some { pid := self.forks + 1, jobId := jobId, stoppedJobId := self.stoppedJobId } }

/-- `handle_job_failure` of the worker. -/
def handleJobFailure (self : Workplace) (jobId : JobId) (status : Option JobStatus) : Workplace :=
  let record := if self.stoppedJobId = some jobId then Record.stopped else .terminated
  if status ∈ record.leaves then
    { self with
      main := .idle
      stoppedJobId := if self.stoppedJobId = some jobId then none else self.stoppedJobId
      currentJob := none
      statuses := Function.update self.statuses jobId status
      records := self.records ++ [(self.forks, record)] }
  else self

/-- The next statement of `fork_work_horse` and `monitor_work_horse`. -/
def mainStep (self : Workplace) (status : Option JobStatus) : Workplace :=
  match self.main with
  | .idle => self
  | .setHorsePid jobId => { self with main := .waitForHorse jobId, horsePid := self.forks }
  | .waitForHorse jobId =>
    match self.horse with
    | some { phase := .exited ok, .. } =>
      { self with main := .resetHorsePid jobId ok, horse := none }
    | _ => self
  | .resetHorsePid jobId ok =>
    { self with main := if ok then .idle else .getStatus jobId, horsePid := 0 }
  | .getStatus jobId =>
    match self.statuses jobId with
    | some jobStatus => { self with main := .stoppedTest jobId jobStatus }
    -- `InvalidJobOperation`
    | none => { self with main := .idle }
  | .stoppedTest jobId jobStatus =>
    if self.stoppedJobId = some jobId then { self with main := .handleJobFailure jobId }
    else if jobStatus = .finished ∨ jobStatus = .failed then { self with main := .idle }
    else { self with main := .handleJobFailure jobId }
  | .handleJobFailure jobId => self.handleJobFailure jobId status

/-! ## The work horse -/

/-- `main_work_horse`. With the end of the job `current_job` is deleted. -/
def horseStep (self : Workplace) (horse : Horse) : HorseEvent → Workplace
  | .setpgrp =>
    if horse.phase = .started then { self with horse := some { horse with grouped := true } }
    else self
  | .prepareJobExecution =>
    if horse.phase = .started ∧ horse.grouped then
      { self with
        horse := some { horse with phase := .prepared }
        currentJob := some horse.jobId
        statuses := Function.update self.statuses horse.jobId (some .started) }
    else self
  | .commit ending status =>
    if horse.phase = .prepared ∧ status ∈ (horse.record ending).leaves then
      { self with
        horse := some { horse with phase := .committed }
        currentJob := none
        statuses := Function.update self.statuses horse.jobId status
        records := self.records ++ [(horse.pid, horse.record ending)] }
    else self
  -- the function of the job may exit at any time
  | .exit ok =>
    match horse.phase with
    | .exited _ => self
    | _ => { self with horse := some { horse with phase := .exited ok } }

/-! ## The command thread -/

/-- The test that `handle_stop_job_command` and `handle_kill_worker_command` make. -/
def passes (self : Workplace) : Command → Bool
  | .stopJob (some jobId) => jobId ≠ "" && self.currentJob = some jobId
  | .stopJob none => false
  | .killHorse => self.horsePid ≠ 0

/-- `handle_command`, up to the test. -/
def handleCommand (self : Workplace) (command : Command) : Workplace :=
  if self.passes command then
    match command with
    | .stopJob jobId =>
      { self with
        thread := .setStoppedJobId (jobId.getD "")
        accepted := self.accepted ++ [self.forks] }
    | .killHorse => { self with thread := .getpgid }
  else self

/-- `os.getpgid`. The process with the number zero is the one that asks. -/
def getpgid (self : Workplace) (pid : ℕ) : Option (Option ℕ) :=
  if pid = 0 then some none
  else (self.horse.filter fun horse => horse.pid = pid).map Horse.group

/-- `os.killpg` with `SIGKILL`. -/
def killpg (self : Workplace) (group : Option ℕ) : Workplace :=
  { self with
    alive := self.alive && group.isSome
    horse := self.horse.map fun horse => if horse.group = group then horse.killed else horse }

/-- `kill_horse` and `wait_for_horse` in `monitor_work_horse`, which does not look at the status. -/
def killOverdue (self : Workplace) : Workplace :=
  match self.main with
  | .waitForHorse jobId =>
    let killed := ((self.getpgid self.horsePid).map self.killpg).getD self
    if killed.alive then { killed with main := .resetHorsePid jobId false, horse := none }
    else killed
  | _ => self

/-- The next statement of `handle_stop_job_command` and `kill_horse`. -/
def threadStep (self : Workplace) : Workplace :=
  match self.thread with
  | .listening => self
  | .setStoppedJobId jobId => { self with stoppedJobId := some jobId, thread := .getpgid }
  | .getpgid =>
    match self.getpgid self.horsePid with
    | some group => { self with thread := .killpg group }
    -- `ESRCH`
    | none => { self with thread := .listening }
  | .killpg group => { self.killpg group with thread := .listening }

/-! ## Runs -/

def handle (self : Workplace) : Event → Workplace
  | .executeJob jobId =>
    if self.alive ∧ self.main = .idle then self.executeJob jobId else self
  | .main status => if self.alive then self.mainStep status else self
  | .overdue => if self.alive then self.killOverdue else self
  | .horse event =>
    match self.horse with
    | some horse => self.horseStep horse event
    | none => self
  | .command command =>
    if self.alive ∧ self.thread = .listening then self.handleCommand command else self
  | .thread => if self.alive then self.threadStep else self
  | .client jobId status => { self with statuses := Function.update self.statuses jobId status }

def run (self : Workplace) : List Event → Workplace
  | [] => self
  | event :: events => (self.handle event).run events

/-! ## Runs that nothing disturbs -/

/-- The horse works on its job, and the worker knows it. -/
def AtWork (self : Workplace) : Prop :=
  ∃ horse ∈ self.horse, horse.phase = .prepared ∧ self.main = .waitForHorse horse.jobId

/-- The last execution has ended. -/
def Ended (self : Workplace) : Prop := ∃ record ∈ self.records, record.1 = self.forks

/-- The monitor of a dead horse that reads this takes the job to have been ended. -/
def Closed (status : Option JobStatus) : Prop :=
  status = none ∨ status = some .finished ∨ status = some .failed

/-- The status of the job says whether the execution has ended. -/
def Told (self : Workplace) : Prop :=
  ∀ horse ∈ self.horse, Closed (self.statuses horse.jobId) ↔ self.Ended

/-- The horse of the job has died, and the monitor has not read the status yet. -/
def Examined (self : Workplace) (jobId : JobId) : Prop :=
  (∃ horse ∈ self.horse, horse.jobId = jobId ∧ horse.phase = .exited false) ∨
    self.main = .resetHorsePid jobId false ∨ self.main = .getStatus jobId

/-- A command that passes its test finds the horse at work, and between the test and the kill the
horse neither ends its job nor exits. When a horse dies, the status of its job says whether it has
ended it, and nobody changes the status before the monitor reads it. A horse that exits with zero
has ended its job. -/
def Allows (self : Workplace) : Event → Prop
  | .executeJob _ => True
  | .main _ => True
  | .overdue => self.thread = .listening ∧ self.Told ∧ ∀ horse ∈ self.horse, horse.grouped = true
  | .horse (.commit _ _) => self.thread = .listening
  | .horse (.exit ok) =>
    self.thread = .listening ∧ (ok = true → self.Ended) ∧ (ok = false → self.Told)
  | .horse _ => True
  | .command command => self.thread = .listening → self.passes command = true → self.AtWork
  | .thread => self.thread.kills = true → self.Told
  | .client jobId _ => ¬self.Examined jobId

def Undisturbed (self : Workplace) : List Event → Prop
  | [] => True
  | event :: events => self.Allows event ∧ (self.handle event).Undisturbed events

instance (self : Workplace) : Decidable self.AtWork :=
  inferInstanceAs (Decidable (∃ horse ∈ self.horse, _))

instance (self : Workplace) : Decidable self.Ended :=
  inferInstanceAs (Decidable (∃ record ∈ self.records, _))

instance (status : Option JobStatus) : Decidable (Closed status) :=
  inferInstanceAs (Decidable (_ ∨ _ ∨ _))

instance (self : Workplace) : Decidable self.Told :=
  inferInstanceAs (Decidable (∀ horse ∈ self.horse, _ ↔ _))

instance (self : Workplace) (jobId : JobId) : Decidable (self.Examined jobId) :=
  inferInstanceAs (Decidable ((∃ horse ∈ self.horse, _) ∨ _ ∨ _))

instance (self : Workplace) : (event : Event) → Decidable (self.Allows event)
  | .executeJob _ | .main _ => inferInstanceAs (Decidable True)
  | .thread => inferInstanceAs (Decidable (_ → self.Told))
  | .overdue => inferInstanceAs (Decidable (_ ∧ _ ∧ ∀ horse ∈ self.horse, _))
  | .horse (.commit _ _) => inferInstanceAs (Decidable (self.thread = .listening))
  | .horse (.exit _) => inferInstanceAs (Decidable (_ ∧ (_ → self.Ended) ∧ (_ → self.Told)))
  | .horse .setpgrp | .horse .prepareJobExecution => inferInstanceAs (Decidable True)
  | .command _ => inferInstanceAs (Decidable (_ → _ → self.AtWork))
  | .client jobId _ => inferInstanceAs (Decidable (¬self.Examined jobId))

instance (self : Workplace) : (events : List Event) → Decidable (self.Undisturbed events)
  | [] => inferInstanceAs (Decidable True)
  | event :: events => @instDecidableAnd _ _ _ (instDecidableUndisturbed (self.handle event) events)

/-! ## One ending for each execution -/

/-- The first `m` executions have been ended, once each, and those as stopped for which a stop
command has been accepted. -/
structure Recorded (records : List (ℕ × Record)) (accepted : List ℕ) (forks m : ℕ) : Prop where
  numbers : records.map Prod.fst = List.range' 1 m
  kinds : ∀ record ∈ records, record.2 = .stopped ↔ record.1 ∈ accepted
  accepted : ∀ k ∈ accepted, k ≤ forks

/-- The command thread has set `_stopped_job_id` just if the execution is to be stopped. -/
def Marked (accepted : List ℕ) (forks : ℕ) (jobId : JobId) (stoppedJobId : Option JobId) : Prop :=
  stoppedJobId = some jobId ∧ forks ∈ accepted ∨ stoppedJobId = none ∧ forks ∉ accepted

/-- The main thread before it has waited for the horse, with `_horse_pid`. -/
inductive Before (jobId : JobId) (forks : ℕ) : Main → ℕ → Prop where
  | setHorsePid : Before jobId forks (.setHorsePid jobId) 0
  | waitForHorse : Before jobId forks (.waitForHorse jobId) forks

/-- The main thread after that, up to the test of the status, with what it reads there. -/
inductive After (jobId : JobId) (forks : ℕ) (status : Option JobStatus) :
    Main → ℕ → Option JobStatus → Prop where
  | resetHorsePid : After jobId forks status (.resetHorsePid jobId false) forks status
  | getStatus : After jobId forks status (.getStatus jobId) 0 status
  | stoppedTest (read : JobStatus) :
    After jobId forks status (.stoppedTest jobId read) 0 (some read)

lemma After.congr {jobId : JobId} {forks horsePid : ℕ} {status status' read : Option JobStatus}
    {main : Main} (h : After jobId forks status main horsePid read)
    (heq : main = .resetHorsePid jobId false ∨ main = .getStatus jobId → status' = status) :
    After jobId forks status' main horsePid read := by
  cases h with
  | resetHorsePid =>
    obtain rfl := heq (.inl rfl)
    exact .resetHorsePid
  | getStatus =>
    obtain rfl := heq (.inr rfl)
    exact .getStatus
  | stoppedTest read => exact .stoppedTest read

/-- The states of a run that nothing has disturbed. -/
inductive Stage : Workplace → Prop where
  | idle {n : ℕ} {records : List (ℕ × Record)} {accepted : List ℕ}
    {statuses : JobId → Option JobStatus} (h : Recorded records accepted n n) :
    Stage { forks := n, records := records, accepted := accepted, statuses := statuses }
  /-- The horse is alive. -/
  | working {n : ℕ} {records : List (ℕ × Record)} {accepted : List ℕ} {jobId : JobId} {main : Main}
    {horsePid : ℕ} {grouped : Bool} {phase : Phase} {statuses : JobId → Option JobStatus}
    (h : Recorded records accepted (n + 1) n) (hnew : n + 1 ∉ accepted)
    (hmain : Before jobId (n + 1) main horsePid)
    (hphase : phase = .started ∨ phase = .prepared ∧ grouped = true) :
    Stage {
      main := main, horsePid := horsePid, forks := n + 1, records := records, accepted := accepted
      horse := some ⟨n + 1, jobId, none, grouped, phase⟩, statuses := statuses
      currentJob := if phase = .prepared then some jobId else none }
  /-- A stop command has been accepted. -/
  | flagging {n : ℕ} {records : List (ℕ × Record)} {accepted : List ℕ} {jobId : JobId}
    {statuses : JobId → Option JobStatus} (h : Recorded records accepted (n + 1) n)
    (haccepted : n + 1 ∈ accepted) :
    Stage {
      main := .waitForHorse jobId, horsePid := n + 1, forks := n + 1, records := records
      accepted := accepted, thread := .setStoppedJobId jobId, statuses := statuses
      horse := some ⟨n + 1, jobId, none, true, .prepared⟩, currentJob := some jobId }
  /-- The horse is to be killed. -/
  | killing {n : ℕ} {records : List (ℕ × Record)} {accepted : List ℕ} {jobId : JobId}
    {stoppedJobId : Option JobId} {thread : Thread} {statuses : JobId → Option JobStatus}
    (h : Recorded records accepted (n + 1) n) (hmarked : Marked accepted (n + 1) jobId stoppedJobId)
    (hthread : thread = .getpgid ∨ thread = .killpg (some (n + 1))) :
    Stage {
      main := .waitForHorse jobId, horsePid := n + 1, forks := n + 1, records := records
      accepted := accepted, thread := thread, stoppedJobId := stoppedJobId, statuses := statuses
      horse := some ⟨n + 1, jobId, none, true, .prepared⟩, currentJob := some jobId }
  /-- The horse is dead, and has not ended its job. -/
  | dead {n : ℕ} {records : List (ℕ × Record)} {accepted : List ℕ} {jobId : JobId} {main : Main}
    {horsePid : ℕ} {stoppedJobId currentJob : Option JobId} {horse : Option Horse}
    {statuses : JobId → Option JobStatus} (h : Recorded records accepted (n + 1) n)
    (hmarked : Marked accepted (n + 1) jobId stoppedJobId)
    (hmain : (∃ grouped, horse = some ⟨n + 1, jobId, none, grouped, .exited false⟩ ∧
        Before jobId (n + 1) main horsePid ∧ ¬Closed (statuses jobId)) ∨
      horse = none ∧ ((∃ read, After jobId (n + 1) (statuses jobId) main horsePid read ∧
        ¬Closed read) ∨ main = .handleJobFailure jobId ∧ horsePid = 0)) :
    Stage {
      main := main, horsePid := horsePid, forks := n + 1, records := records, accepted := accepted
      stoppedJobId := stoppedJobId, horse := horse, currentJob := currentJob
      statuses := statuses }
  /-- The horse has ended its job. -/
  | ended {n : ℕ} {records : List (ℕ × Record)} {accepted : List ℕ} {jobId : JobId} {main : Main}
    {horsePid : ℕ} {horse : Option Horse} {ending : Ending} {statuses : JobId → Option JobStatus}
    (h : Recorded (records ++ [(n + 1, .ended ending)]) accepted (n + 1) (n + 1))
    (hmain : (∃ grouped phase, horse = some ⟨n + 1, jobId, none, grouped, phase⟩ ∧
        (phase = .committed ∨ phase = .exited true ∨
          phase = .exited false ∧ Closed (statuses jobId)) ∧
        Before jobId (n + 1) main horsePid) ∨
      horse = none ∧ (main = .resetHorsePid jobId true ∧ horsePid = n + 1 ∨
        ∃ read, After jobId (n + 1) (statuses jobId) main horsePid read ∧ Closed read)) :
    Stage {
      main := main, horsePid := horsePid, forks := n + 1
      records := records ++ [(n + 1, .ended ending)], accepted := accepted, horse := horse
      statuses := statuses }

section Recorded
variable {records : List (ℕ × Record)} {accepted : List ℕ} {forks n m : ℕ}

lemma Recorded.fork (h : Recorded records accepted n m) : Recorded records accepted (n + 1) m :=
  ⟨h.numbers, h.kinds, fun k hk => Nat.le_succ_of_le (h.accepted k hk)⟩

/-- The numbers that have been recorded. -/
lemma Recorded.le (h : Recorded records accepted forks m) {record : ℕ × Record}
    (hmem : record ∈ records) : record.1 ≤ m := by
  have hfst : record.1 ∈ List.range' 1 m := h.numbers ▸ List.mem_map_of_mem hmem
  rw [List.mem_range'_1] at hfst
  omega

/-- The end of the next execution. -/
lemma Recorded.append (h : Recorded records accepted forks n) {record : Record}
    (hrecord : record = .stopped ↔ n + 1 ∈ accepted) :
    Recorded (records ++ [(n + 1, record)]) accepted forks (n + 1) where
  numbers := by
    rw [List.map_append, h.numbers, List.range'_1_concat, Nat.add_comm 1 n]
    rfl
  kinds r hr := by
    rcases List.mem_append.mp hr with hr | hr
    · exact h.kinds r hr
    · rw [List.mem_singleton.mp hr]
      exact hrecord
  accepted := h.accepted

/-- A stop command for an execution that has not ended. -/
lemma Recorded.accept (h : Recorded records accepted (n + 1) n) :
    Recorded records (accepted ++ [n + 1]) (n + 1) n where
  numbers := h.numbers
  kinds record hmem := by
    have hle := h.le hmem
    rw [h.kinds record hmem]
    simp only [List.mem_append, List.mem_singleton]
    constructor
    · exact .inl
    · rintro (hk | hk)
      · exact hk
      · omega
  accepted k hk := by
    rcases List.mem_append.mp hk with hk | hk
    · exact h.accepted k hk
    · rw [List.mem_singleton.mp hk]

end Recorded

/-! ### What the status says -/

variable {self : Workplace}

lemma not_ended {n : ℕ} (hforks : self.forks = n + 1)
    (h : Recorded self.records self.accepted (n + 1) n) : ¬self.Ended := by
  rintro ⟨record, hmem, hlast⟩
  have hle := h.le hmem
  omega

lemma ended_append {records : List (ℕ × Record)} {record : Record}
    (hrecords : self.records = records ++ [(self.forks, record)]) : self.Ended :=
  ⟨(self.forks, record), by simp [hrecords], rfl⟩

lemma Told.not_closed {horse : Horse} (h : self.Told) (hhorse : self.horse = some horse)
    (hended : ¬self.Ended) : ¬Closed (self.statuses horse.jobId) := fun hclosed =>
  hended ((h horse hhorse).mp hclosed)

lemma Told.closed {horse : Horse} (h : self.Told) (hhorse : self.horse = some horse)
    (hended : self.Ended) : Closed (self.statuses horse.jobId) := (h horse hhorse).mpr hended

/-! ### One event -/

lemma Stage.executeJob (h : self.Stage) (jobId : JobId) :
    (self.handle (.executeJob jobId)).Stage := by
  cases h with
  | @idle n records accepted statuses h =>
    refine .working h.fork (fun hmem => ?_) .setHorsePid (.inl rfl)
    have hle : n + 1 ≤ n := h.accepted _ hmem
    omega
  | working h hnew hmain hphase =>
    cases hmain with
    | setHorsePid => exact .working h hnew .setHorsePid hphase
    | waitForHorse => exact .working h hnew .waitForHorse hphase
  | flagging h haccepted => exact .flagging h haccepted
  | killing h hmarked hthread => exact .killing h hmarked hthread
  | @dead _ _ _ _ _ _ _ currentJob _ _ h hmarked hmain =>
    have hsame := @Stage.dead _ _ _ _ _ _ _ currentJob _ _ h hmarked hmain
    rcases hmain with ⟨grouped, rfl, hbefore, -⟩ | ⟨rfl, ⟨read, hafter, -⟩ | ⟨rfl, rfl⟩⟩
    · cases hbefore <;> exact hsame
    · cases hafter <;> exact hsame
    · exact hsame
  | ended h hmain =>
    have hsame := Stage.ended h hmain
    rcases hmain with ⟨grouped, phase, rfl, hphase, hbefore⟩ | ⟨rfl, ⟨rfl, rfl⟩ | ⟨read, hafter, -⟩⟩
    · cases hbefore <;> exact hsame
    · exact hsame
    · cases hafter <;> exact hsame

/-- The main thread ends a job whose horse is dead. -/
lemma Stage.handleJobFailure {n : ℕ} {records : List (ℕ × Record)} {accepted : List ℕ}
    {jobId : JobId} {stoppedJobId currentJob : Option JobId} {statuses : JobId → Option JobStatus}
    (h : Recorded records accepted (n + 1) n)
    (hmarked : Marked accepted (n + 1) jobId stoppedJobId) (status : Option JobStatus) :
    Stage (Workplace.handleJobFailure {
      main := .handleJobFailure jobId, forks := n + 1, records := records, accepted := accepted
      stoppedJobId := stoppedJobId, currentJob := currentJob, statuses := statuses } jobId
      status) := by
  have hsame := @Stage.dead _ _ _ jobId _ _ _ currentJob _ statuses h hmarked
    (.inr ⟨rfl, .inr ⟨rfl, rfl⟩⟩)
  rcases hmarked with ⟨rfl, haccepted⟩ | ⟨rfl, hnew⟩
  · simp only [Workplace.handleJobFailure, if_true]
    split
    · exact .idle (h.append (by simpa using haccepted))
    · exact hsame
  · simp only [Workplace.handleJobFailure, reduceCtorEq, if_false]
    split
    · exact .idle (h.append (by simpa using hnew))
    · exact hsame

lemma not_closed_iff {jobStatus : JobStatus} :
    ¬Closed (some jobStatus) ↔ ¬(jobStatus = .finished ∨ jobStatus = .failed) := by
  simp [Closed]

lemma Stage.mainStep (h : self.Stage) (status : Option JobStatus) :
    (self.handle (.main status)).Stage := by
  cases h with
  | idle h => exact .idle h
  | working h hnew hmain hphase =>
    cases hmain with
    | setHorsePid => exact .working h hnew .waitForHorse hphase
    | waitForHorse =>
      rcases hphase with rfl | ⟨rfl, rfl⟩
      · exact .working h hnew .waitForHorse (.inl rfl)
      · exact .working h hnew .waitForHorse (.inr ⟨rfl, rfl⟩)
  | flagging h haccepted => exact .flagging h haccepted
  | killing h hmarked hthread => exact .killing h hmarked hthread
  | @dead n records accepted jobId main horsePid stoppedJobId currentJob horse statuses h hmarked
      hmain =>
    rcases hmain with ⟨grouped, rfl, hbefore, hread⟩ | ⟨rfl, ⟨read, hafter, hread⟩ | ⟨rfl, rfl⟩⟩
    · cases hbefore with
      | setHorsePid => exact .dead h hmarked (.inl ⟨grouped, rfl, .waitForHorse, hread⟩)
      | waitForHorse => exact .dead h hmarked (.inr ⟨rfl, .inl ⟨_, .resetHorsePid, hread⟩⟩)
    · cases hafter with
      | resetHorsePid => exact .dead h hmarked (.inr ⟨rfl, .inl ⟨_, .getStatus, hread⟩⟩)
      | getStatus =>
        cases hstatus : statuses jobId with
        | none => exact absurd (.inl hstatus) hread
        | some jobStatus =>
          rw [hstatus] at hread
          have hnext := @Stage.dead _ _ _ _ _ _ _ currentJob _ statuses h hmarked
            (.inr ⟨rfl, .inl ⟨_, .stoppedTest jobStatus, hread⟩⟩)
          simpa [Workplace.handle, Workplace.mainStep, hstatus] using hnext
      | stoppedTest jobStatus =>
        have hnext := @Stage.dead _ _ _ _ _ _ _ currentJob _ statuses h hmarked
          (.inr ⟨rfl, .inr ⟨rfl, rfl⟩⟩)
        have hopen := not_closed_iff.mp hread
        rcases hmarked with ⟨rfl, -⟩ | ⟨rfl, -⟩
        · simpa [Workplace.handle, Workplace.mainStep] using hnext
        · simpa [Workplace.handle, Workplace.mainStep, hopen] using hnext
    · exact Stage.handleJobFailure h hmarked status
  | @ended n records accepted jobId main horsePid horse ending statuses h hmain =>
    rcases hmain with ⟨grouped, phase, rfl, hphase, hbefore⟩ |
      ⟨rfl, ⟨rfl, rfl⟩ | ⟨read, hafter, hread⟩⟩
    · cases hbefore with
      | setHorsePid => exact .ended h (.inl ⟨grouped, phase, rfl, hphase, .waitForHorse⟩)
      | waitForHorse =>
        rcases hphase with rfl | rfl | ⟨rfl, hread⟩
        · exact .ended h (.inl ⟨grouped, .committed, rfl, .inl rfl, .waitForHorse⟩)
        · exact .ended h (.inr ⟨rfl, .inl ⟨rfl, rfl⟩⟩)
        · exact .ended h (.inr ⟨rfl, .inr ⟨_, .resetHorsePid, hread⟩⟩)
    · exact .idle h
    · cases hafter with
      | resetHorsePid => exact .ended h (.inr ⟨rfl, .inr ⟨_, .getStatus, hread⟩⟩)
      | getStatus =>
        cases hstatus : statuses jobId with
        | none =>
          have hidle := @Stage.idle _ _ _ statuses h
          simpa [Workplace.handle, Workplace.mainStep, hstatus] using hidle
        | some jobStatus =>
          rw [hstatus] at hread
          have hnext := @Stage.ended _ _ _ jobId _ _ _ _ statuses h
            (.inr ⟨rfl, .inr ⟨_, .stoppedTest jobStatus, hread⟩⟩)
          simpa [Workplace.handle, Workplace.mainStep, hstatus] using hnext
      | stoppedTest jobStatus =>
        have hidle := @Stage.idle _ _ _ statuses h
        have hclosed := not_not.mp (not_closed_iff.not.mp (not_not_intro hread))
        simpa [Workplace.handle, Workplace.mainStep, hclosed] using hidle

/-- The horse is killed and waited for. -/
lemma killOverdue_eq {jobId : JobId} {horse : Horse} (halive : self.alive = true)
    (hmain : self.main = .waitForHorse jobId) (hhorse : self.horse = some horse)
    (hpid : horse.pid = self.horsePid) (hpos : self.horsePid ≠ 0)
    (hgrouped : horse.grouped = true) :
    self.killOverdue = { self with main := .resetHorsePid jobId false, horse := none } := by
  have hgroup : self.getpgid self.horsePid = some (some horse.pid) := by
    simp [getpgid, hpos, hhorse, hpid, Horse.group, hgrouped]
  rw [killOverdue, hmain]
  simp only [hgroup, Option.map_some, Option.getD_some]
  rw [if_pos (by simp [killpg, halive])]
  simp [killpg, halive]

lemma Stage.killOverdue (h : self.Stage) (hallows : self.Allows .overdue) :
    (self.handle .overdue).Stage := by
  obtain ⟨hlistening, htold, hgrouped⟩ := hallows
  cases h with
  | idle h => exact .idle h
  | @working n records accepted jobId main horsePid grouped phase statuses h hnew hmain hphase =>
    cases hmain with
    | setHorsePid => exact .working h hnew .setHorsePid hphase
    | waitForHorse =>
      have hread := htold.not_closed rfl (not_ended rfl h)
      rw [handle, if_pos rfl, killOverdue_eq rfl rfl rfl rfl n.succ_ne_zero (hgrouped _ rfl)]
      exact .dead h (.inr ⟨rfl, hnew⟩) (.inr ⟨rfl, .inl ⟨_, .resetHorsePid, hread⟩⟩)
  | flagging h haccepted => cases hlistening
  | killing h hmarked hthread => rcases hthread with rfl | rfl <;> cases hlistening
  | @dead n records accepted jobId main horsePid stoppedJobId currentJob horse statuses h hmarked
      hmain =>
    have hsame := @Stage.dead _ _ _ _ _ _ _ currentJob _ _ h hmarked hmain
    rcases hmain with ⟨grouped, rfl, hbefore, hread⟩ | ⟨rfl, ⟨read, hafter, -⟩ | ⟨rfl, rfl⟩⟩
    · cases hbefore with
      | setHorsePid => exact hsame
      | waitForHorse =>
        rw [handle, if_pos rfl, killOverdue_eq rfl rfl rfl rfl n.succ_ne_zero (hgrouped _ rfl)]
        exact .dead h hmarked (.inr ⟨rfl, .inl ⟨_, .resetHorsePid, hread⟩⟩)
    · cases hafter <;> exact hsame
    · exact hsame
  | @ended n records accepted jobId main horsePid horse ending statuses h hmain =>
    have hsame := Stage.ended h hmain
    rcases hmain with ⟨grouped, phase, rfl, hphase, hbefore⟩ | ⟨rfl, ⟨rfl, rfl⟩ | ⟨read, hafter, -⟩⟩
    · cases hbefore with
      | setHorsePid => exact hsame
      | waitForHorse =>
        have hread := htold.closed rfl (ended_append rfl)
        rw [handle, if_pos rfl, killOverdue_eq rfl rfl rfl rfl n.succ_ne_zero (hgrouped _ rfl)]
        exact .ended h (.inr ⟨rfl, .inr ⟨_, .resetHorsePid, hread⟩⟩)
    · exact hsame
    · cases hafter <;> exact hsame

lemma Stage.horse (h : self.Stage) {event : HorseEvent} (hallows : self.Allows (.horse event)) :
    (self.handle (.horse event)).Stage := by
  cases h with
  | idle h => exact .idle h
  | @working n records accepted jobId main horsePid grouped phase statuses h hnew hmain hphase =>
    have hsame := @Stage.working _ _ _ _ _ _ _ _ statuses h hnew hmain hphase
    cases event with
    | setpgrp =>
      rcases hphase with rfl | ⟨rfl, rfl⟩
      · exact .working h hnew hmain (.inl rfl)
      · exact hsame
    | prepareJobExecution =>
      rcases hphase with rfl | ⟨rfl, rfl⟩
      · cases grouped with
        | true => exact .working h hnew hmain (.inr ⟨rfl, rfl⟩)
        | false => exact hsame
      · exact hsame
    | commit ending status =>
      rcases hphase with rfl | ⟨rfl, rfl⟩
      · exact hsame
      · have hrecord :
            Horse.record ⟨n + 1, jobId, none, true, .prepared⟩ ending = .ended ending := by
          simp [Horse.record]
        have hended := h.append (show Record.ended ending = .stopped ↔ _ by simpa using hnew)
        simp only [Workplace.handle, horseStep, true_and, hrecord]
        split
        · exact .ended hended (.inl ⟨true, .committed, rfl, .inl rfl, hmain⟩)
        · exact hsame
    | exit ok =>
      cases ok with
      | true => exact absurd (hallows.2.1 rfl) (not_ended rfl h)
      | false =>
        have hread := (hallows.2.2 rfl).not_closed rfl (not_ended rfl h)
        have hdead := @Stage.dead _ _ _ _ _ _ _ (if phase = .prepared then some jobId else none) _ _
          h (.inr ⟨rfl, hnew⟩) (.inl ⟨grouped, rfl, hmain, hread⟩)
        rcases hphase with rfl | ⟨rfl, rfl⟩ <;> exact hdead
  | flagging h haccepted =>
    cases event with
    | setpgrp => exact .flagging h haccepted
    | prepareJobExecution => exact .flagging h haccepted
    | commit ending status => cases hallows
    | exit ok => cases hallows.1
  | killing h hmarked hthread =>
    cases event with
    | setpgrp => exact .killing h hmarked hthread
    | prepareJobExecution => exact .killing h hmarked hthread
    | commit ending status => rcases hthread with rfl | rfl <;> cases hallows
    | exit ok => rcases hthread with rfl | rfl <;> cases hallows.1
  | @dead n records accepted jobId main horsePid stoppedJobId currentJob horse statuses h hmarked
      hmain =>
    have hsame := @Stage.dead _ _ _ _ _ _ _ currentJob _ _ h hmarked hmain
    rcases hmain with ⟨grouped, rfl, hbefore, hread⟩ | ⟨rfl, hafter⟩
    · cases event <;> exact hsame
    · exact hsame
  | @ended n records accepted jobId main horsePid horse ending statuses h hmain =>
    have hsame := Stage.ended h hmain
    rcases hmain with ⟨grouped, phase, rfl, hphase, hbefore⟩ | ⟨rfl, hmain⟩
    · rcases hphase with rfl | rfl | ⟨rfl, hread⟩
      · cases event with
        | setpgrp => exact hsame
        | prepareJobExecution => exact hsame
        | commit ending status => exact hsame
        | exit ok =>
          cases ok with
          | true => exact .ended h (.inl ⟨grouped, _, rfl, .inr (.inl rfl), hbefore⟩)
          | false =>
            have hread := (hallows.2.2 rfl).closed rfl (ended_append rfl)
            exact .ended h (.inl ⟨grouped, _, rfl, .inr (.inr ⟨rfl, hread⟩), hbefore⟩)
      · cases event <;> exact hsame
      · cases event <;> exact hsame
    · exact hsame

/-- A command that does not pass its test is ignored. -/
lemma handle_command_of_not_passes {command : Command} (h : self.passes command = false) :
    self.handle (.command command) = self := by
  simp [handle, handleCommand, h]

/-- A command finds the horse at work, or is ignored. -/
lemma Stage.command (h : self.Stage) {command : Command}
    (hallows : self.Allows (.command command)) :
    (self.handle (.command command)).Stage := by
  by_cases hlistening : self.thread = .listening
  · cases hpasses : self.passes command with
    | false => exact (handle_command_of_not_passes hpasses).symm ▸ h
    | true =>
      obtain ⟨_, hhorse, hprepared, hwaits⟩ := hallows hlistening hpasses
      cases h with
      | idle h => cases hhorse
      | @working n records accepted jobId main horsePid grouped phase statuses h hnew hmain
          hphase =>
        cases hhorse
        obtain rfl : phase = .prepared := hprepared
        obtain rfl : main = .waitForHorse jobId := hwaits
        obtain rfl : grouped = true := by simpa using hphase
        cases hmain
        cases command with
        | stopJob stopped =>
          cases stopped with
          | none => cases hpasses
          | some stopped =>
            obtain ⟨hnonempty, rfl⟩ : stopped ≠ "" ∧ jobId = stopped := by
              simpa [passes] using hpasses
            have hflagging := @Stage.flagging _ _ _ jobId statuses h.accept (by simp)
            simpa [handle, handleCommand, passes, hnonempty] using hflagging
        | killHorse => exact .killing h (.inr ⟨rfl, hnew⟩) (.inl rfl)
      | flagging h haccepted => cases hlistening
      | killing h hmarked hthread => rcases hthread with rfl | rfl <;> cases hlistening
      | dead h hmarked hmain =>
        rcases hmain with ⟨grouped, rfl, -⟩ | ⟨rfl, -⟩
        · cases hhorse
          cases hprepared
        · cases hhorse
      | ended h hmain =>
        rcases hmain with ⟨grouped, phase, rfl, hphase, -⟩ | ⟨rfl, -⟩
        · cases hhorse
          rcases hphase with rfl | rfl | ⟨rfl, -⟩ <;> cases hprepared
        · cases hhorse
  · have hsame : self.handle (.command command) = self := by simp [handle, hlistening]
    exact hsame.symm ▸ h

lemma Stage.thread (h : self.Stage) (hallows : self.Allows .thread) :
    (self.handle .thread).Stage := by
  cases h with
  | idle h => exact .idle h
  | working h hnew hmain hphase => exact .working h hnew hmain hphase
  | flagging h haccepted => exact .killing h (.inl ⟨rfl, haccepted⟩) (.inl rfl)
  | @killing n records accepted jobId stoppedJobId thread statuses h hmarked hthread =>
    rcases hthread with rfl | rfl
    · have hgroup : Workplace.getpgid {
          main := .waitForHorse jobId, horsePid := n + 1, forks := n + 1, records := records
          accepted := accepted, thread := .getpgid, stoppedJobId := stoppedJobId
          horse := some ⟨n + 1, jobId, none, true, .prepared⟩, currentJob := some jobId
          statuses := statuses } (n + 1) = some (some (n + 1)) := by
        simp [Workplace.getpgid, Horse.group]
      rw [handle, if_pos rfl, Workplace.threadStep]
      simp only [hgroup]
      exact .killing h hmarked (.inr rfl)
    · have hread := (hallows rfl).not_closed rfl (not_ended rfl h)
      have hdead := @Stage.dead _ _ _ _ _ _ _ (some jobId) _ statuses h hmarked
        (.inl ⟨true, rfl, .waitForHorse, hread⟩)
      simpa [handle, Workplace.threadStep, Workplace.killpg, Horse.group, Horse.killed] using hdead
  | dead h hmarked hmain => exact .dead h hmarked hmain
  | ended h hmain => exact .ended h hmain

/-- Another client changes a status that the monitor does not wait to read. -/
lemma Stage.client (h : self.Stage) {changed : JobId} {status : Option JobStatus}
    (hallows : ¬self.Examined changed) : (self.handle (.client changed status)).Stage := by
  have hkept : ∀ jobId, self.Examined jobId →
      Function.update self.statuses changed status jobId = self.statuses jobId := fun jobId hread =>
    Function.update_of_ne (by rintro rfl; exact hallows hread) _ _
  cases h with
  | idle h => exact .idle h
  | working h hnew hmain hphase => exact .working h hnew hmain hphase
  | flagging h haccepted => exact .flagging h haccepted
  | killing h hmarked hthread => exact .killing h hmarked hthread
  | @dead n records accepted jobId main horsePid stoppedJobId currentJob horse statuses h hmarked
      hmain =>
    refine .dead h hmarked ?_
    rcases hmain with ⟨grouped, rfl, hbefore, hread⟩ | ⟨rfl, ⟨read, hafter, hread⟩ | hfails⟩
    · refine .inl ⟨grouped, rfl, hbefore, ?_⟩
      rwa [hkept jobId (.inl ⟨_, rfl, rfl, rfl⟩)]
    · refine .inr ⟨rfl, .inl ⟨read, ?_, hread⟩⟩
      exact hafter.congr fun hread => hkept jobId (.inr hread)
    · exact .inr ⟨rfl, .inr hfails⟩
  | @ended n records accepted jobId main horsePid horse ending statuses h hmain =>
    refine @Stage.ended n records accepted jobId _ _ _ ending
      (Function.update statuses changed status) h ?_
    rcases hmain with ⟨grouped, phase, rfl, hphase, hbefore⟩ |
      ⟨rfl, hexited | ⟨read, hafter, hread⟩⟩
    · refine .inl ⟨grouped, phase, rfl, hphase.imp_right (Or.imp_right ?_), hbefore⟩
      rintro ⟨rfl, hread⟩
      rw [hkept jobId (.inl ⟨_, rfl, rfl, rfl⟩)]
      exact ⟨rfl, hread⟩
    · exact .inr ⟨rfl, .inl hexited⟩
    · exact .inr ⟨rfl, .inr ⟨read, hafter.congr fun hread => hkept jobId (.inr hread), hread⟩⟩

lemma Stage.handle (h : self.Stage) {event : Event} (hallows : self.Allows event) :
    (self.handle event).Stage := by
  cases event with
  | executeJob jobId => exact h.executeJob jobId
  | main status => exact h.mainStep status
  | overdue => exact h.killOverdue hallows
  | horse event => exact h.horse hallows
  | command command => exact h.command hallows
  | thread => exact h.thread hallows
  | client jobId status => exact h.client hallows

lemma Stage.run (h : self.Stage) {events : List Event} (hundisturbed : self.Undisturbed events) :
    (self.run events).Stage := by
  induction events generalizing self with
  | nil => exact h
  | cons event events ih => exact ih (h.handle hundisturbed.1) hundisturbed.2

/-- A job ends between the test and the kill of a stop command. -/
def lateStop : List Event :=
  [.executeJob "a", .main none, .horse .setpgrp, .horse .prepareJobExecution,
    .command (.stopJob (some "a")), .horse (.commit .finished (some .finished)),
    .horse (.exit true), .main none, .main none, .executeJob "b", .main none, .horse .setpgrp,
    .horse .prepareJobExecution, .thread, .thread, .thread, .main none, .main none, .main none,
    .main none, .main (some .failed)]

-- another job is terminated, and the worker goes on remembering the stop command
example : (run {} lateStop).records = [(1, .ended .finished), (2, .terminated)] ∧
    (run {} lateStop).main = .idle ∧ (run {} lateStop).stoppedJobId = some "a" := by
  decide

/-- A job is twice in its queue, and its second horse dies before it has begun. -/
def queuedTwice : List Event :=
  [.executeJob "a", .main none, .horse .setpgrp, .horse .prepareJobExecution,
    .horse (.commit .finished (some .finished)), .horse (.exit true), .main none, .main none,
    .executeJob "a", .main none, .horse (.exit false), .main none, .main none, .main none,
    .main none]

-- the monitor reads the status of the first execution, and the second one gets no ending
example : (run {} queuedTwice).records = [(1, .ended .finished)] ∧
    (run {} queuedTwice).forks = 2 ∧ (run {} queuedTwice).main = .idle := by
  decide

end Workplace

end StopCommands

end RedisQueue
