import Mathlib.Data.List.Basic
import Mathlib.Data.Nat.Notation
import Mathlib.Tactic.Lemma

/-!
# The shutdown of a worker pool

`WorkerPool.start` (`rq/worker_pool.py`) keeps a number of worker processes alive. A signal handler,
`request_stop`, interrupts it between any two statements and sends a stop signal to the workers in
`worker_dict`.

* `Pool.statement`: the next statement of `start` and of the methods it calls;
* `Pool.pending`: how many workers are still to come at the point of an interruption;
* `Pool.stopsAll_iff`: the handler stops all workers if and only if none is to come.

A worker is known by its position in the list of all processes that the pool has spawned.
-/

namespace RedisQueue

namespace WorkerPool

/-- `WorkerPool.Status` -/
inductive Status where
  | idle | started | stopped
deriving DecidableEq, Repr

/-- A worker process. -/
structure Process where
  alive : Bool := true
  /-- It has been sent a stop signal. -/
  signalled : Bool := false
deriving DecidableEq, Repr

/-- The callers of `reap_workers`. -/
inductive Caller where
  | checkWorkers | allWorkersHaveStopped
deriving DecidableEq, Repr

/-- The next statement, with the local variables that are still read. -/
inductive Statement where
  /-- The head of `while True` and the test of the status, in `start`. -/
  | mainLoop
  /-- `worker_datas = list(self.worker_dict.values())`, in `reap_workers`. -/
  | workerDatas (caller : Caller)
  /-- The head of the `for` loop over the worker datas and `data.process.join(0.1)`. -/
  | join (caller : Caller) (datas : List ℕ)
  /-- `if data.process.is_alive()` -/
  | isAlive (caller : Caller) (data : ℕ) (datas : List ℕ)
  /-- `self.worker_dict.pop(worker_data.name)`, in `handle_dead_worker`. -/
  | pop (caller : Caller) (data : ℕ) (datas : List ℕ)
  /-- `if respawn and self.status != self.Status.STOPPED`, in `check_workers`. -/
  | respawn
  /-- `delta = self.num_workers - len(self.worker_dict)` -/
  | delta
  /-- The head of `for i in range(delta)`, with so many iterations to go. -/
  | forRange (n : ℕ)
  /-- `name = uuid4().hex`, in `start_worker`. -/
  | name (n : ℕ)
  /-- `process = self.get_worker_process(…)` -/
  | getWorkerProcess (n : ℕ)
  /-- `process.start()` -/
  | processStart (n : ℕ)
  /-- `worker_data = WorkerData(…)` -/
  | workerData (n : ℕ) (data : ℕ)
  /-- `self.worker_dict[name] = worker_data` -/
  | insert (n : ℕ) (data : ℕ)
  /-- `self.log.debug('Spawned worker …')` -/
  | log (n : ℕ)
  /-- `if burst and self.number_of_active_workers == 0`, in `start`. -/
  | burstTest
  /-- `return self.number_of_active_workers == 0`, in `all_workers_have_stopped`. -/
  | activeTest
  | sleep
  | exited
deriving DecidableEq, Repr

/-- A `WorkerPool` object that is running `start`, and the processes it has spawned. -/
structure Pool where
  numWorkers : ℕ
  burst : Bool
  status : Status := .started
  processes : List Process := []
  workerDict : List ℕ := []
  next : Statement := .mainLoop
deriving DecidableEq, Repr

namespace Pool

/-- `process.start()`, `worker_data = …` and `self.worker_dict[name] = worker_data`. -/
def startWorker (self : Pool) : Pool :=
  { self with
    processes := self.processes ++ [{}]
    workerDict := self.workerDict ++ [self.processes.length] }

/-- `WorkerPool.start_workers` -/
def startWorkers (self : Pool) : ℕ → Pool
  | 0 => self
  | n + 1 => self.startWorker.startWorkers n

/-- `WorkerPool.start` up to the moment when the signal handlers have been installed. -/
def start (numWorkers : ℕ) (burst : Bool) : Pool :=
  startWorkers { numWorkers := numWorkers, burst := burst } numWorkers

def isAlive (self : Pool) (data : ℕ) : Bool := (self.processes[data]?.map Process.alive).getD false

def isSignalled (self : Pool) (data : ℕ) : Bool :=
  (self.processes[data]?.map Process.signalled).getD false

/-- The next statement is executed. -/
def statement (self : Pool) : Pool :=
  match self.next with
  | .mainLoop =>
    if self.status = .stopped then { self with next := .workerDatas .allWorkersHaveStopped }
    else { self with next := .workerDatas .checkWorkers }
  | .workerDatas caller => { self with next := .join caller self.workerDict }
  | .join .checkWorkers [] => { self with next := .respawn }
  | .join .allWorkersHaveStopped [] => { self with next := .activeTest }
  | .join caller (data :: datas) => { self with next := .isAlive caller data datas }
  | .isAlive caller data datas =>
    if self.isAlive data then { self with next := .join caller datas }
    else { self with next := .pop caller data datas }
  | .pop caller data datas =>
    { self with workerDict := self.workerDict.filter (· ≠ data), next := .join caller datas }
  | .respawn =>
    -- `start` calls `check_workers(respawn=not burst)`
    if self.burst = false ∧ self.status ≠ .stopped then { self with next := .delta }
    else { self with next := .burstTest }
  | .delta => { self with next := .forRange (self.numWorkers - self.workerDict.length) }
  | .forRange 0 => { self with next := .burstTest }
  | .forRange (n + 1) => { self with next := .name n }
  | .name n => { self with next := .getWorkerProcess n }
  | .getWorkerProcess n => { self with next := .processStart n }
  | .processStart n =>
    { self with
      processes := self.processes ++ [{}]
      next := .workerData n self.processes.length }
  | .workerData n data => { self with next := .insert n data }
  | .insert n data => { self with workerDict := self.workerDict ++ [data], next := .log n }
  | .log n => { self with next := .forRange n }
  | .burstTest =>
    if self.burst = true ∧ self.workerDict = [] then { self with next := .exited }
    else { self with next := .sleep }
  | .activeTest =>
    if self.workerDict = [] then { self with next := .exited } else { self with next := .sleep }
  | .sleep => { self with next := .mainLoop }
  | .exited => self

/-- `WorkerPool.request_stop`: every worker in the dictionary is sent a stop signal. -/
def requestStop (self : Pool) : Pool :=
  { self with
    status := .stopped
    processes := self.processes.mapIdx fun data process =>
      if data ∈ self.workerDict then { process with signalled := true } else process }

/-- A worker process ends. -/
def die (self : Pool) (data : ℕ) : Pool :=
  { self with processes := self.processes.modify data fun process => { process with alive := false } }

end Pool

/-- What can happen next. -/
inductive Event where
  | statement
  | die (data : ℕ)
  /-- SIGINT or SIGTERM -/
  | signal
deriving DecidableEq, Repr

namespace Pool

def handle (self : Pool) : Event → Pool
  | .statement => self.statement
  | .die data => self.die data
  | .signal => self.requestStop

def run (self : Pool) (events : List Event) : Pool := events.foldl handle self

/-- Every worker that is alive has been sent a stop signal. -/
def AllSignalled (self : Pool) : Prop :=
  ∀ data, self.isAlive data = true → self.isSignalled data = true

/-- Whenever a signal that comes now has been handled and the main loop is reached, all workers that
are alive have been sent a stop signal, and no worker is spawned any more. -/
def StopsAll (self : Pool) : Prop :=
  ∀ events, (self.run (.signal :: events)).next = .mainLoop →
    (self.run (.signal :: events)).AllSignalled ∧
    ∀ later, (self.run (.signal :: events ++ later)).processes.length =
      (self.run (.signal :: events)).processes.length

/-- The workers that the interrupted statements still spawn, and the one that has been spawned
without being in the dictionary yet. -/
def pending (self : Pool) : ℕ :=
  match self.next with
  | .delta => self.numWorkers - self.workerDict.length
  | .forRange n | .log n => n
  | .name n | .getWorkerProcess n | .processStart n => n + 1
  | .workerData n data | .insert n data => n + (self.isAlive data).toNat
  | _ => 0

/-! ## What an event does to the processes -/

@[simp] lemma length_die (self : Pool) (data : ℕ) :
    (self.die data).processes.length = self.processes.length := by
  simp [die]

@[simp] lemma length_requestStop (self : Pool) :
    self.requestStop.processes.length = self.processes.length := by
  simp [requestStop]

/-- Nobody rises from the dead. -/
lemma isAlive_of_die {self : Pool} {data data' : ℕ} (h : (self.die data).isAlive data' = true) :
    self.isAlive data' = true := by
  simp only [isAlive, die, List.getElem?_modify] at h ⊢
  cases hprocess : self.processes[data']? with
  | none => simp [hprocess] at h
  | some process =>
    by_cases heq : data = data'
    · simp [hprocess, heq] at h
    · simpa [hprocess, heq] using h

@[simp] lemma isSignalled_die (self : Pool) (data data' : ℕ) :
    (self.die data).isSignalled data' = self.isSignalled data' := by
  simp only [isSignalled, die, List.getElem?_modify]
  cases self.processes[data']? with
  | none => simp
  | some process => by_cases heq : data = data' <;> simp [heq]

@[simp] lemma isAlive_requestStop (self : Pool) (data : ℕ) :
    self.requestStop.isAlive data = self.isAlive data := by
  simp only [isAlive, requestStop, List.getElem?_mapIdx]
  cases self.processes[data]? with
  | none => rfl
  | some process => by_cases hmem : data ∈ self.workerDict <;> simp [hmem]

lemma isSignalled_requestStop_of_notMem {self : Pool} {data : ℕ} (h : data ∉ self.workerDict) :
    self.requestStop.isSignalled data = self.isSignalled data := by
  simp only [isSignalled, requestStop, List.getElem?_mapIdx]
  cases self.processes[data]? <;> simp [h]

lemma isSignalled_requestStop {self : Pool} {data : ℕ} (halive : self.isAlive data = true)
    (h : data ∈ self.workerDict ∨ self.isSignalled data = true) :
    self.requestStop.isSignalled data = true := by
  simp only [isAlive, isSignalled, requestStop, List.getElem?_mapIdx] at *
  cases hprocess : self.processes[data]? with
  | none => simp [hprocess] at halive
  | some process =>
    by_cases hmem : data ∈ self.workerDict
    · simp [hmem]
    · simpa [hmem, hprocess] using h

lemma lt_length_of_isAlive {self : Pool} {data : ℕ} (h : self.isAlive data = true) :
    data < self.processes.length := by
  unfold isAlive at h
  cases hprocess : self.processes[data]? with
  | none => simp [hprocess] at h
  | some process => exact (List.getElem?_eq_some_iff.mp hprocess).1

/-! ## The invariant -/

/-- The worker has been spawned and is not in the dictionary yet. -/
def Starting (self : Pool) (data : ℕ) : Prop :=
  ∃ n, self.next = .workerData n data ∨ self.next = .insert n data

/-- The test of the status is past, the last worker is not spawned yet. -/
def Spawning (self : Pool) : Prop :=
  match self.next with
  | .delta | .forRange _ | .name _ | .getWorkerProcess _ | .processStart _ | .workerData _ _
  | .insert _ _ | .log _ => True
  | _ => False

structure Inv (pool : Pool) : Prop where
  registered : ∀ data, pool.isAlive data = true → data ∈ pool.workerDict ∨ pool.Starting data
  dead : ∀ caller data datas, pool.next = .pop caller data datas → pool.isAlive data = false
  bound : ∀ data ∈ pool.workerDict, data < pool.processes.length
  starting : ∀ data, pool.Starting data → data + 1 = pool.processes.length ∧
    data ∉ pool.workerDict ∧ pool.isSignalled data = false
  respawns : pool.Spawning → pool.burst = false

lemma Inv.die {self : Pool} (h : self.Inv) (data : ℕ) : (self.die data).Inv where
  registered data' halive := h.registered data' (isAlive_of_die halive)
  dead caller data' datas hnext := by
    by_contra halive
    have hdead := h.dead caller data' datas hnext
    rw [isAlive_of_die (by simpa using halive)] at hdead
    cases hdead
  bound data' hmem := by
    rw [length_die]
    exact h.bound data' hmem
  starting data' hstarting := by
    rw [length_die, isSignalled_die]
    exact h.starting data' hstarting
  respawns := h.respawns

lemma Inv.requestStop {self : Pool} (h : self.Inv) : self.requestStop.Inv where
  registered data halive := h.registered data (by simpa using halive)
  dead caller data datas hnext := by
    rw [isAlive_requestStop]
    exact h.dead caller data datas hnext
  bound data hmem := by
    rw [length_requestStop]
    exact h.bound data hmem
  starting data hstarting := by
    obtain ⟨hlast, hnotMem, hsignalled⟩ := h.starting data hstarting
    rw [length_requestStop, isSignalled_requestStop_of_notMem hnotMem]
    exact ⟨hlast, hnotMem, hsignalled⟩
  respawns := h.respawns

lemma isAlive_append {self : Pool} {data : ℕ} {workerDict : List ℕ} {next : Statement}
    (h : ({ self with processes := self.processes ++ [{}], workerDict := workerDict, next := next } :
      Pool).isAlive data = true) : self.isAlive data = true ∨ data = self.processes.length := by
  by_cases hlt : data < self.processes.length
  · simp only [isAlive, List.getElem?_append_left hlt] at h
    exact .inl h
  · have hle := lt_length_of_isAlive h
    simp only [List.length_append, List.length_singleton] at hle
    exact .inr (by omega)

/-- `process.start()` -/
lemma Inv.processStart {self : Pool} (h : self.Inv) {n : ℕ} (hnext : self.next = .processStart n) :
    ({ self with
      processes := self.processes ++ [{}]
      next := .workerData n self.processes.length } : Pool).Inv where
  registered data halive := by
    rcases isAlive_append halive with hold | rfl
    · rcases h.registered data hold with hmem | hstarting
      · exact .inl hmem
      · simp [Starting, hnext] at hstarting
    · exact .inr ⟨n, .inl rfl⟩
  dead := by simp
  bound data hmem := by
    have hlt := h.bound data hmem
    simp only [List.length_append, List.length_singleton]
    omega
  starting data hstarting := by
    obtain rfl : data = self.processes.length := by simpa [Starting, eq_comm] using hstarting
    refine ⟨by simp, fun hmem => absurd (h.bound _ hmem) (Nat.lt_irrefl _), ?_⟩
    simp [isSignalled]
  respawns _ := h.respawns (by simp [Spawning, hnext])

/-- `self.worker_dict[name] = worker_data` -/
lemma Inv.insert {self : Pool} (h : self.Inv) {n data : ℕ} (hnext : self.next = .insert n data) :
    ({ self with workerDict := self.workerDict ++ [data], next := .log n } : Pool).Inv where
  registered data' halive := by
    rcases h.registered data' halive with hmem | hstarting
    · exact .inl (List.mem_append_left _ hmem)
    · obtain rfl : data = data' := by simpa [Starting, hnext] using hstarting
      exact .inl (List.mem_append_right _ (List.mem_singleton_self data))
  dead := by simp
  bound data' hmem := by
    rcases List.mem_append.mp hmem with hmem | hmem
    · exact h.bound data' hmem
    · obtain rfl := List.mem_singleton.mp hmem
      have hlast := (h.starting data' ⟨n, .inr hnext⟩).1
      show data' < self.processes.length
      omega
  starting data' hstarting := by simp [Starting] at hstarting
  respawns _ := h.respawns (by simp [Spawning, hnext])

/-- `self.worker_dict.pop(worker_data.name)` -/
lemma Inv.pop {self : Pool} (h : self.Inv) {caller : Caller} {data : ℕ} {datas : List ℕ}
    (hnext : self.next = .pop caller data datas) :
    ({ self with
      workerDict := self.workerDict.filter (· ≠ data)
      next := .join caller datas } : Pool).Inv where
  registered data' halive := by
    -- who is popped is dead
    have hne : data' ≠ data := by
      rintro rfl
      have hdead := h.dead caller data' datas hnext
      rw [show self.isAlive data' = true from halive] at hdead
      cases hdead
    rcases h.registered data' halive with hmem | hstarting
    · exact .inl (List.mem_filter.mpr ⟨hmem, by simpa using hne⟩)
    · simp [Starting, hnext] at hstarting
  dead := by simp
  bound data' hmem := h.bound data' (List.mem_of_mem_filter hmem)
  starting data' hstarting := by simp [Starting] at hstarting
  respawns hspawning := by simp [Spawning] at hspawning

/-- A statement that neither spawns nor registers nor removes a worker. -/
lemma Inv.goTo {self : Pool} (h : self.Inv) (next : Statement)
    (hstarting : ∀ data, ({ self with next := next } : Pool).Starting data ↔ self.Starting data)
    (hdead : ∀ caller data datas, next = .pop caller data datas → self.isAlive data = false)
    (hrespawns : ({ self with next := next } : Pool).Spawning → self.burst = false) :
    ({ self with next := next } : Pool).Inv where
  registered data halive := (h.registered data halive).imp_right (hstarting data).mpr
  dead := hdead
  bound := h.bound
  starting data hs := h.starting data ((hstarting data).mp hs)
  respawns := hrespawns

lemma Inv.step {self : Pool} (h : self.Inv) : self.statement.Inv := by
  have hburst := h.respawns
  unfold statement
  cases hnext : self.next with
  | processStart n => exact h.processStart hnext
  | insert n data => exact h.insert hnext
  | pop caller data datas => exact h.pop hnext
  | isAlive caller data datas =>
    dsimp only
    split
    · apply h.goTo <;> simp [Starting, Spawning, hnext]
    · next hdead =>
      apply h.goTo
      · simp [Starting, hnext]
      · rintro _ _ _ ⟨⟩
        simpa using hdead
      · simp [Spawning]
  | respawn =>
    dsimp only
    split
    · next hrespawn =>
      apply h.goTo
      · simp [Starting, hnext]
      · simp
      · exact fun _ => hrespawn.1
    · apply h.goTo <;> simp [Starting, Spawning, hnext]
  | workerData n data =>
    apply h.goTo
    · intro data'
      simp [Starting, hnext]
    · simp
    · simpa [Spawning, hnext] using hburst
  | join caller datas =>
    cases datas <;> cases caller <;> apply h.goTo <;> simp [Starting, Spawning, hnext]
  | forRange n =>
    simp only [Spawning, hnext, true_imp_iff] at hburst
    cases n <;> apply h.goTo <;> simp [Starting, Spawning, hnext, hburst]
  | delta | name n | getWorkerProcess n | log n =>
    simp only [Spawning, hnext, true_imp_iff] at hburst
    apply h.goTo <;> simp [Starting, Spawning, hnext, hburst]
  | mainLoop | burstTest | activeTest =>
    dsimp only
    split <;> apply h.goTo <;> simp [Starting, Spawning, hnext]
  | workerDatas caller | sleep => apply h.goTo <;> simp [Starting, Spawning, hnext]
  | exited => exact h

lemma Inv.handle {self : Pool} (h : self.Inv) (event : Event) : (self.handle event).Inv := by
  cases event with
  | statement => exact h.step
  | die data => exact h.die data
  | signal => exact h.requestStop

lemma Inv.run {self : Pool} (h : self.Inv) (events : List Event) : (self.run events).Inv := by
  induction events generalizing self with
  | nil => exact h
  | cons event events ih => exact ih (h.handle event)

/-! ### The start -/

lemma Inv.startWorker {self : Pool} (h : self.Inv) (hnext : self.next = .mainLoop) :
    self.startWorker.Inv where
  registered data halive := by
    rcases isAlive_append halive with hold | rfl
    · rcases h.registered data hold with hmem | hstarting
      · exact .inl (List.mem_append_left _ hmem)
      · simp [Starting, hnext] at hstarting
    · exact .inl (List.mem_append_right _ (List.mem_singleton_self _))
  dead caller data datas hpop := by
    rw [show self.startWorker.next = self.next from rfl, hnext] at hpop
    cases hpop
  bound data hmem := by
    simp only [Pool.startWorker, List.length_append, List.length_singleton]
    rcases List.mem_append.mp hmem with hmem | hmem
    · have hlt := h.bound data hmem
      omega
    · obtain rfl := List.mem_singleton.mp hmem
      omega
  starting data hstarting := by simp [Starting, Pool.startWorker, hnext] at hstarting
  respawns hspawning := by simp [Spawning, Pool.startWorker, hnext] at hspawning

lemma Inv.startWorkers {self : Pool} (h : self.Inv) (hnext : self.next = .mainLoop) (n : ℕ) :
    (self.startWorkers n).Inv := by
  induction n generalizing self with
  | zero => exact h
  | succ n ih => exact ih (h.startWorker hnext) hnext

lemma inv_start (numWorkers : ℕ) (burst : Bool) : (start numWorkers burst).Inv := by
  apply Inv.startWorkers
  · constructor <;> simp [isAlive, Starting, Spawning]
  · rfl

/-! ## A signal when no worker is to come -/

/-- The pool has been stopped, everybody knows and nobody is to come. -/
structure Stopped (pool : Pool) : Prop where
  status : pool.status = .stopped
  pending : pool.pending = 0
  signalled : pool.AllSignalled

lemma pending_requestStop (self : Pool) : self.requestStop.pending = self.pending := by
  unfold pending
  simp only [isAlive_requestStop]
  rfl

/-- A death brings nobody. -/
lemma pending_die (self : Pool) (data : ℕ) (h : self.pending = 0) : (self.die data).pending = 0 := by
  have hdead : ∀ data', self.isAlive data' = false → (self.die data).isAlive data' = false := by
    intro data' hfalse
    by_contra halive
    rw [isAlive_of_die (by simpa using halive)] at hfalse
    cases hfalse
  unfold pending at *
  rw [show (self.die data).next = self.next from rfl]
  cases hnext : self.next with
  | workerData n data' | insert n data' =>
    simp only [hnext, Nat.add_eq_zero_iff, Bool.toNat_eq_zero] at h ⊢
    exact ⟨h.1, hdead data' h.2⟩
  | delta | forRange n | log n => simpa [hnext, die] using h
  | name n | getWorkerProcess n | processStart n => simp [hnext] at h
  | _ => rfl

lemma Inv.stopped {self : Pool} (h : self.Inv) (hpending : self.pending = 0) :
    self.requestStop.Stopped where
  status := rfl
  pending := by rw [pending_requestStop, hpending]
  signalled data halive := by
    rw [isAlive_requestStop] at halive
    apply isSignalled_requestStop halive
    rcases h.registered data halive with hmem | ⟨n, hnext⟩
    · exact .inl hmem
    · -- a worker that is starting would be pending
      rcases hnext with hnext | hnext <;> simp [Pool.pending, hnext, halive] at hpending

/-- After the stop only workers that are to come are spawned. -/
lemma Stopped.step {self : Pool} (h : self.Stopped) :
    self.statement.status = .stopped ∧ self.statement.pending = 0 ∧
      self.statement.processes = self.processes := by
  obtain ⟨hstatus, hpending, -⟩ := h
  unfold statement
  cases hnext : self.next with
  | mainLoop => simp [hstatus, Pool.pending]
  | workerDatas caller => simp [hstatus, Pool.pending]
  | join caller datas => cases datas <;> cases caller <;> simp [hstatus, Pool.pending]
  | isAlive caller data datas =>
    dsimp only
    split <;> simp [hstatus, Pool.pending]
  | pop caller data datas => simp [hstatus, Pool.pending]
  | respawn => simp [hstatus, Pool.pending]
  | delta =>
    simp only [Pool.pending, hnext] at hpending
    simp [hstatus, Pool.pending, hpending]
  | forRange n =>
    simp only [Pool.pending, hnext] at hpending
    subst hpending
    simp [hstatus, Pool.pending]
  | name n | getWorkerProcess n | processStart n => simp [Pool.pending, hnext] at hpending
  | workerData n data =>
    simp only [Pool.pending, hnext] at hpending
    exact ⟨hstatus, hpending, rfl⟩
  | insert n data =>
    simp only [Pool.pending, hnext, Nat.add_eq_zero_iff] at hpending
    simp [hstatus, Pool.pending, hpending.1]
  | log n =>
    simp only [Pool.pending, hnext] at hpending
    simp [hstatus, Pool.pending, hpending]
  | burstTest | activeTest =>
    dsimp only
    split <;> simp [hstatus, Pool.pending]
  | sleep | exited => simp [hstatus, Pool.pending, hnext]

lemma Stopped.handle {self : Pool} (h : self.Stopped) (event : Event) :
    (self.handle event).Stopped ∧
      (self.handle event).processes.length = self.processes.length := by
  cases event with
  | statement =>
    obtain ⟨hstatus, hpending, hprocesses⟩ := h.step
    refine ⟨⟨hstatus, hpending, fun data halive => ?_⟩, congrArg List.length hprocesses⟩
    simp only [Pool.handle, isAlive, isSignalled, hprocesses] at halive ⊢
    exact h.signalled data halive
  | die data =>
    refine ⟨⟨h.status, pending_die self data h.pending, fun data' halive => ?_⟩, length_die self data⟩
    rw [show self.handle (.die data) = self.die data from rfl, isSignalled_die]
    exact h.signalled data' (isAlive_of_die halive)
  | signal =>
    refine ⟨⟨rfl, ?_, fun data halive => ?_⟩, length_requestStop self⟩
    · exact (pending_requestStop self).trans h.pending
    · have halive' : self.isAlive data = true := by simpa [Pool.handle] using halive
      exact isSignalled_requestStop halive' (.inr (h.signalled data halive'))

lemma Stopped.run {self : Pool} (h : self.Stopped) (events : List Event) :
    (self.run events).Stopped ∧ (self.run events).processes.length = self.processes.length := by
  induction events generalizing self with
  | nil => exact ⟨h, rfl⟩
  | cons event events ih =>
    obtain ⟨hstopped, hlength⟩ := h.handle event
    obtain ⟨hrest, hrun⟩ := ih hstopped
    exact ⟨hrest, hrun.trans hlength⟩

lemma run_append (self : Pool) (events later : List Event) :
    self.run (events ++ later) = (self.run events).run later :=
  List.foldl_append

lemma Inv.stopsAll {self : Pool} (h : self.Inv) (hpending : self.pending = 0) : self.StopsAll := by
  intro events _
  have hstopped := ((h.stopped hpending).run events).1
  refine ⟨hstopped.signalled, fun later => ?_⟩
  rw [run_append]
  exact (hstopped.run later).2

/-! ## A signal when a worker is to come -/

/-- A worker is alive and has not been sent a stop signal. -/
def Missed (self : Pool) : Prop :=
  ∃ data, self.isAlive data = true ∧ self.isSignalled data = false

/-- The main loop can be reached with such a worker. -/
def Misses (self : Pool) : Prop :=
  ∃ events, (self.run events).next = .mainLoop ∧ (self.run events).Missed

lemma Misses.of_statement {self : Pool} (h : self.statement.Misses) : self.Misses := by
  obtain ⟨events, hnext, hmissed⟩ := h
  exact ⟨.statement :: events, hnext, hmissed⟩

lemma missed_append {self : Pool} {workerDict : List ℕ} {next : Statement} :
    ({ self with processes := self.processes ++ [{}], workerDict := workerDict, next := next } :
      Pool).Missed :=
  ⟨self.processes.length, by simp [isAlive], by simp [isSignalled]⟩

section
variable {self : Pool} {n : ℕ} (hburst : self.burst = false)
include hburst

/-- The loop that spawns goes on whatever the status. -/
lemma misses_forRange (hnext : self.next = .forRange n) (h : self.Missed ∨ 0 < n) :
    self.Misses := by
  induction n generalizing self with
  | zero =>
    obtain ⟨numWorkers, burst, status, processes, workerDict, next⟩ := self
    obtain rfl : next = .forRange 0 := hnext
    obtain rfl : burst = false := hburst
    have hmissed := h.resolve_right (Nat.lt_irrefl 0)
    -- `burstTest`, `sleep` and `mainLoop`
    apply Misses.of_statement
    apply Misses.of_statement
    apply Misses.of_statement
    exact ⟨[], rfl, hmissed⟩
  | succ n ih =>
    obtain ⟨numWorkers, burst, status, processes, workerDict, next⟩ := self
    obtain rfl : next = .forRange (n + 1) := hnext
    -- the statements of `start_worker`
    apply Misses.of_statement
    apply Misses.of_statement
    apply Misses.of_statement
    apply Misses.of_statement
    apply Misses.of_statement
    apply Misses.of_statement
    apply Misses.of_statement
    exact ih hburst rfl (.inl missed_append)

lemma misses_log (hnext : self.next = .log n) (h : self.Missed ∨ 0 < n) : self.Misses := by
  apply Misses.of_statement
  simp only [statement, hnext]
  exact misses_forRange hburst rfl h

lemma misses_insert {data : ℕ} (hnext : self.next = .insert n data) (h : self.Missed ∨ 0 < n) :
    self.Misses := by
  apply Misses.of_statement
  simp only [statement, hnext]
  exact misses_log hburst rfl h

lemma misses_workerData {data : ℕ} (hnext : self.next = .workerData n data)
    (h : self.Missed ∨ 0 < n) : self.Misses := by
  apply Misses.of_statement
  simp only [statement, hnext]
  exact misses_insert hburst rfl h

lemma misses_processStart (hnext : self.next = .processStart n) : self.Misses := by
  apply Misses.of_statement
  simp only [statement, hnext]
  exact misses_workerData hburst rfl (.inl missed_append)

lemma misses_getWorkerProcess (hnext : self.next = .getWorkerProcess n) : self.Misses := by
  apply Misses.of_statement
  simp only [statement, hnext]
  exact misses_processStart hburst rfl

lemma misses_name (hnext : self.next = .name n) : self.Misses := by
  apply Misses.of_statement
  simp only [statement, hnext]
  exact misses_getWorkerProcess hburst rfl

lemma misses_delta (hnext : self.next = .delta) (h : 0 < self.numWorkers - self.workerDict.length) :
    self.Misses := by
  apply Misses.of_statement
  simp only [statement, hnext]
  exact misses_forRange hburst rfl (.inr h)

end

/-- A worker that starts and is not in the dictionary misses the signal. -/
lemma Inv.missed_requestStop {self : Pool} (h : self.Inv) {n data : ℕ}
    (hnext : self.next = .workerData n data ∨ self.next = .insert n data)
    (hpending : n + (self.isAlive data).toNat ≠ 0) : self.requestStop.Missed ∨ 0 < n := by
  cases halive : self.isAlive data with
  | false =>
    rw [halive] at hpending
    exact .inr (Nat.pos_of_ne_zero hpending)
  | true =>
    obtain ⟨-, hnotMem, hsignalled⟩ := h.starting data ⟨n, hnext⟩
    refine .inl ⟨data, ?_, ?_⟩
    · rw [isAlive_requestStop, halive]
    · rw [isSignalled_requestStop_of_notMem hnotMem, hsignalled]

lemma Inv.misses {self : Pool} (h : self.Inv) (hpending : self.pending ≠ 0) :
    self.requestStop.Misses := by
  have hrespawns := h.respawns
  unfold Pool.pending at hpending
  simp only [Spawning] at hrespawns
  cases hnext : self.next with
  | delta =>
    rw [hnext] at hpending hrespawns
    exact misses_delta (hrespawns trivial) hnext (Nat.pos_of_ne_zero hpending)
  | forRange n =>
    rw [hnext] at hpending hrespawns
    exact misses_forRange (hrespawns trivial) hnext (.inr (Nat.pos_of_ne_zero hpending))
  | log n =>
    rw [hnext] at hpending hrespawns
    exact misses_log (hrespawns trivial) hnext (.inr (Nat.pos_of_ne_zero hpending))
  | name n =>
    rw [hnext] at hrespawns
    exact misses_name (hrespawns trivial) hnext
  | getWorkerProcess n =>
    rw [hnext] at hrespawns
    exact misses_getWorkerProcess (hrespawns trivial) hnext
  | processStart n =>
    rw [hnext] at hrespawns
    exact misses_processStart (hrespawns trivial) hnext
  | workerData n data =>
    rw [hnext] at hpending hrespawns
    exact misses_workerData (hrespawns trivial) hnext (h.missed_requestStop (.inl hnext) hpending)
  | insert n data =>
    rw [hnext] at hpending hrespawns
    exact misses_insert (hrespawns trivial) hnext (h.missed_requestStop (.inr hnext) hpending)
  | _ =>
    rw [hnext] at hpending
    exact absurd rfl hpending

/-- At whatever point of a run the signal comes, the shutdown reaches every worker if and only if no
worker is to come at that point. -/
theorem stopsAll_iff (numWorkers : ℕ) (burst : Bool) (earlier : List Event) :
    ((start numWorkers burst).run earlier).StopsAll ↔
      ((start numWorkers burst).run earlier).pending = 0 := by
  have hinv := (inv_start numWorkers burst).run earlier
  constructor
  · intro hstops
    by_contra hpending
    obtain ⟨events, hnext, data, halive, hmissed⟩ := hinv.misses hpending
    have hsignalled := (hstops events hnext).1 data halive
    rw [show ((start numWorkers burst).run earlier).run (.signal :: events) =
      ((start numWorkers burst).run earlier).requestStop.run events from rfl, hmissed] at hsignalled
    cases hsignalled
  · exact hinv.stopsAll

/-- A pool of one worker: it dies, and the signal comes when the next one has been spawned but is not
in the dictionary. -/
def lateSignal : List Event :=
  .die 0 :: List.replicate 12 .statement

theorem not_stopsAll_lateSignal : ¬((start 1 false).run lateSignal).StopsAll := by
  intro hstops
  have hmissed := hstops (List.replicate 6 .statement) (by decide)
  exact absurd (hmissed.1 1 (by decide)) (by decide)

end Pool

end WorkerPool

end RedisQueue
