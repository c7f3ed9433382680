import RedisQueue.Commands

/-!
# Scheduler locks

Any number of `RQScheduler` objects (`rq/scheduler.py`) with their locks `rq:scheduler-lock:<name>`.
An object does the work itself, or a worker has it start a process that works with a copy of it; when
that process is dead, the worker acquires locks again and starts another one (`auto_start`). A step
is one Redis command or one `EXEC`, with the local computation that follows it.

* `Cluster.OwnedBy`: every lock that a scheduler counts as its own is one it has set;
* `Cluster.exclusive_of_timely`: the locks are exclusive in runs in which no lock expires that a
  running scheduler counts as its own, and a process is only started again while the locks that the
  object of the worker counts as acquired are its own.
-/

namespace RedisQueue

/-- An `RQScheduler` object. -/
structure RQScheduler where
  queueNames : List QueueName
  pid : ℕ := 0
  interval : ℕ := 1
  acquiredLocks : RSet QueueName := ∅
  scheduledJobRegistries : List QueueName := []

namespace RQScheduler

variable (self : RQScheduler)

/-- `self.interval + 60` -/
def lockTtl : ℤ := self.interval + 60

/-- `SET key pid NX EX ttl`, by the scheduler object `i`. -/
def setLock (i : ℕ) (name : QueueName) (now : Time) (s : Store) : Store :=
  if s.val (.schedulerLock name) = none then
    (Command.seq [.write (.schedulerLock name) fun _ => some ⟨self.pid, i⟩,
      .expire (.schedulerLock name) (now + self.lockTtl)]).run s
  else s

/-- `successful_locks` after the attempt to set the lock of `name` in the store `s`. -/
def successfulLocks (name : QueueName) (successful : RSet QueueName) (s : Store) :
    RSet QueueName :=
  if s.val (.schedulerLock name) = none then successful.insert name else successful

/-- The end of `RQScheduler.acquire_locks`. -/
def addLocks (successful : RSet QueueName) : RQScheduler :=
  { self with
    scheduledJobRegistries := []
    acquiredLocks := successful.elems.foldl RSet.insert self.acquiredLocks }

/-- `RQScheduler.prepare_registries` at the beginning of `enqueue_scheduled_jobs` -/
def prepareRegistries : RQScheduler :=
  if self.scheduledJobRegistries = [] then
    { self with scheduledJobRegistries := self.acquiredLocks.elems }
  else self

/-- `RQScheduler.heartbeat`: a transaction of `EXPIRE`s, or a single one. -/
def heartbeat (now : Time) : Command Key Value :=
  .seq (self.acquiredLocks.elems.map fun name =>
    expire (.schedulerLock name) self.lockTtl now)

/-- The `DEL` of `RQScheduler.release_locks`. -/
def releaseCommand : Command Key Value :=
  .seq (self.acquiredLocks.elems.map fun name => .del (.schedulerLock name))

/-- `RQScheduler.release_locks`. Redis refuses a `DEL` without keys. -/
def releaseLocks : Redis RQScheduler :=
  if self.acquiredLocks = ∅ then
    .throw (.responseError "wrong number of arguments for 'del' command")
  else do
    Prog.perform self.releaseCommand.run
    return { self with acquiredLocks := ∅ }

end RQScheduler

/-- What a scheduler is doing. -/
inductive Activity where
  | idle
  /-- In `acquire_locks`: the names it has not tried yet, and `successful_locks`. -/
  | acquiring (names : List QueueName) (successful : RSet QueueName)
  /-- In `enqueue_scheduled_jobs`: the registries it has not begun with, and the rest of what it
  does for the current one. -/
  | enqueueing (names : List QueueName) (program : Redis Unit)

/-- A scheduler in the process that works with it. -/
structure SchedulerProcess where
  self : RQScheduler
  activity : Activity := .idle
  running : Bool := true
  /-- The object of the worker that starts the process, if there is one. While no process is running,
  `self` is this object, and what it acquires are the locks for the next process. -/
  worker : Option RQScheduler := none

/-- A lock that is counted as the scheduler's own: one that a running process has acquired, or one
that is just being acquired. -/
def SchedulerProcess.Claims (process : SchedulerProcess) (name : QueueName) : Prop :=
  (process.running = true ∧ name ∈ process.self.acquiredLocks) ∨
    ∃ names successful, process.activity = .acquiring names successful ∧ name ∈ successful

/-- The kinds of steps of a scheduler. -/
inductive SchedulerStep where
  | acquire | heartbeat | enqueue | release | start | die
deriving DecidableEq

/-- The steps of the scheduler object `i`. -/
inductive SchedulerProcess.Step (i : ℕ) (now : Time) :
    SchedulerStep → SchedulerProcess → Store → SchedulerProcess → Store → Prop where
  | acquire {self : RQScheduler} {worker : Option RQScheduler} {s : Store} :
    Step i now .acquire ⟨self, .idle, true, worker⟩ s
      ⟨self, .acquiring self.queueNames ∅, true, worker⟩ s
  -- `acquire_locks(auto_start=True)` in the worker, when the process is dead
  | reacquire {self worker : RQScheduler} {s : Store} :
    Step i now .acquire ⟨self, .idle, false, some worker⟩ s
      ⟨worker, .acquiring worker.queueNames ∅, false, some worker⟩ s
  | setLock {self : RQScheduler} {name : QueueName} {names : List QueueName}
      {successful : RSet QueueName} {running : Bool} {worker : Option RQScheduler} {s : Store} :
    Step i now .acquire ⟨self, .acquiring (name :: names) successful, running, worker⟩ s
      ⟨self, .acquiring names (RQScheduler.successfulLocks name successful s), running, worker⟩
      (self.setLock i name now s)
  | acquired {self : RQScheduler} {successful : RSet QueueName} {worker : Option RQScheduler}
      {s : Store} :
    Step i now .acquire ⟨self, .acquiring [] successful, true, worker⟩ s
      ⟨self.addLocks successful, .idle, true, worker⟩ s
  -- the worker starts a process if its object has acquired a lock at any time
  | restart {self : RQScheduler} {successful : RSet QueueName} {worker : Option RQScheduler}
      {pid : ℕ} {s : Store} (h : (self.addLocks successful).acquiredLocks ≠ ∅) :
    Step i now .start ⟨self, .acquiring [] successful, false, worker⟩ s
      ⟨{ self.addLocks successful with pid := pid }, .idle, true, some (self.addLocks successful)⟩ s
  | noRestart {self : RQScheduler} {successful : RSet QueueName} {worker : Option RQScheduler}
      {s : Store} (h : (self.addLocks successful).acquiredLocks = ∅) :
    Step i now .start ⟨self, .acquiring [] successful, false, worker⟩ s
      ⟨self.addLocks successful, .idle, false, some (self.addLocks successful)⟩ s
  -- the object that has worked itself so far starts a process
  | start {self : RQScheduler} {pid : ℕ} {s : Store} :
    Step i now .start ⟨self, .idle, true, none⟩ s
      ⟨{ self with pid := pid }, .idle, true, some self⟩ s
  | heartbeat {self : RQScheduler} {worker : Option RQScheduler} {s : Store} :
    Step i now .heartbeat ⟨self, .idle, true, worker⟩ s ⟨self, .idle, true, worker⟩
      ((self.heartbeat now).run s)
  | enqueue {self : RQScheduler} {worker : Option RQScheduler} {s : Store} :
    Step i now .enqueue ⟨self, .idle, true, worker⟩ s
      ⟨self.prepareRegistries,
        .enqueueing self.prepareRegistries.scheduledJobRegistries (.ret ()), true, worker⟩ s
  | nextRegistry {self : RQScheduler} {name : QueueName} {names : List QueueName}
      {worker : Option RQScheduler} {s : Store} :
    Step i now .enqueue ⟨self, .enqueueing (name :: names) (.ret ()), true, worker⟩ s
      ⟨self, .enqueueing names (enqueueDueJobs { name := name } now), true, worker⟩ s
  | advance {self : RQScheduler} {names : List QueueName} {p p' : Redis Unit}
      {worker : Option RQScheduler} {s s' : Store} (h : p.advance s = some (p', s')) :
    Step i now .enqueue ⟨self, .enqueueing names p, true, worker⟩ s
      ⟨self, .enqueueing names p', true, worker⟩ s'
  | enqueued {self : RQScheduler} {worker : Option RQScheduler} {s : Store} :
    Step i now .enqueue ⟨self, .enqueueing [] (.ret ()), true, worker⟩ s
      ⟨self, .idle, true, worker⟩ s
  -- an exception ends the process of the scheduler
  | raised {self : RQScheduler} {names : List QueueName} {e : PyError}
      {worker : Option RQScheduler} {s : Store} :
    Step i now .enqueue ⟨self, .enqueueing names (.throw e), true, worker⟩ s
      ⟨self, .idle, false, worker⟩ s
  | release {self self' : RQScheduler} {worker : Option RQScheduler} {s s' : Store}
      (h : self.releaseLocks.run s = (.ok self', s')) :
    Step i now .release ⟨self, .idle, true, worker⟩ s ⟨self', .idle, true, worker⟩ s'
  | releaseRaised {self : RQScheduler} {e : PyError} {worker : Option RQScheduler} {s s' : Store}
      (h : self.releaseLocks.run s = (.error e, s')) :
    Step i now .release ⟨self, .idle, true, worker⟩ s ⟨self, .idle, false, worker⟩ s'
  -- the process ends, or the call of `acquire_locks` in the worker does
  | die {process : SchedulerProcess} {s : Store} :
    Step i now .die process s { process with activity := .idle, running := false } s

/-- Any number of schedulers, the store and the clock. -/
structure Cluster where
  processes : ℕ → SchedulerProcess
  store : Store
  now : Time

namespace Cluster

/-- A step of the scheduler `i`. -/
inductive Step (i : ℕ) (kind : SchedulerStep) : Cluster → Cluster → Prop where
  | mk {c : Cluster} {process : SchedulerProcess} {s : Store}
      (h : SchedulerProcess.Step i c.now kind (c.processes i) c.store process s) :
    Step i kind c ⟨Function.update c.processes i process, s, c.now⟩

/-- Time passes. -/
def wait (c : Cluster) (seconds : ℕ) : Cluster := { c with now := c.now + seconds }

/-- Keys expire. -/
def expire (c : Cluster) : Cluster := { c with store := c.store.expireAt c.now }

/-- What happens in a run. -/
inductive Occurrence where
  | step (i : ℕ) (kind : SchedulerStep)
  | wait (seconds : ℕ)
  | expire

inductive Occurs : Occurrence → Cluster → Cluster → Prop where
  | step {c c' : Cluster} {i : ℕ} {kind : SchedulerStep} (h : Step i kind c c') :
    Occurs (.step i kind) c c'
  | wait {c : Cluster} {seconds : ℕ} : Occurs (.wait seconds) c (c.wait seconds)
  | expire {c : Cluster} : Occurs .expire c c.expire

/-- A run: whatever happens satisfies `C` in the state before it. -/
inductive Run (C : Cluster → Occurrence → Prop) : Cluster → Cluster → Prop where
  | refl {c : Cluster} : Run C c c
  | tail {c c' c'' : Cluster} {occurrence : Occurrence} (h : Run C c c')
      (hoccurs : Occurs occurrence c' c'') (hC : C c' occurrence) : Run C c c''

lemma Run.trans {C : Cluster → Occurrence → Prop} {c c' c'' : Cluster} (h : Run C c c')
    (h' : Run C c' c'') : Run C c c'' := by
  induction h' with
  | refl => exact h
  | tail _ hoccurs hC ih => exact ih.tail hoccurs hC

/-- No scheduler has done anything yet. The store may hold locks. -/
def Fresh (c : Cluster) : Prop :=
  ∀ i, (c.processes i).activity = .idle ∧ (c.processes i).self.acquiredLocks = ∅ ∧
    ∀ worker ∈ (c.processes i).worker, worker.acquiredLocks = ∅

/-- Each queue name is among the acquired locks of at most one running scheduler. -/
def Exclusive (c : Cluster) : Prop :=
  ∀ i j name, (c.processes i).running = true → (c.processes j).running = true →
    name ∈ (c.processes i).self.acquiredLocks → name ∈ (c.processes j).self.acquiredLocks → i = j

/-- From `c` to `c'` no lock changes, and no expiry of one, unless `i` has set it. -/
def ChangesOwn (i : ℕ) (c c' : Cluster) : Prop :=
  ∀ name, (∀ lock, c.store.val (.schedulerLock name) = some lock → lock.setBy ≠ i) →
    KeyStore.AgreeAt (.schedulerLock name) c'.store c.store

/-- The scheduler object `i` has set the lock. -/
def Owns (c : Cluster) (i : ℕ) (name : QueueName) : Prop :=
  ∃ lock, c.store.val (.schedulerLock name) = some lock ∧ lock.setBy = i

/-- No lock expires that a scheduler counts as its own, and a worker starts a process again only
while the locks that its object has acquired before are its own. -/
def Timely (c : Cluster) : Occurrence → Prop
  | .step i .start => (c.processes i).running = false →
    ∀ name ∈ (c.processes i).self.acquiredLocks, c.Owns i name
  | .expire => ∀ i name, (c.processes i).Claims name →
    ¬c.store.Expired c.now (.schedulerLock name)
  | _ => True

end Cluster

/-! ## What one step does to the locks -/

/-- The locks stay as they are. -/
def KeepsLocks (s s' : Store) : Prop :=
  ∀ name, s'.val (.schedulerLock name) = s.val (.schedulerLock name)

lemma KeepsLocks.refl (s : Store) : KeepsLocks s s := fun _ => rfl

lemma KeepsLocks.trans {s t u : Store} (h : KeepsLocks s t) (h' : KeepsLocks t u) :
    KeepsLocks s u := fun name => (h' name).trans (h name)

/-- A command of a scheduler tick is not about locks. -/
lemma keeps_tickCommand {queue : Queue} {ids : List JobId} {jobs : List (Option Job)} {now : Time}
    {c : Command Key Value} (hc : c ∈ tickCommands queue ids jobs now) (name : QueueName) :
    c.Keeps (.schedulerLock name) := by
  rcases mem_tickCommands hc with ⟨job, -, hc⟩ | ⟨id, -, rfl⟩
  · cases hc with
    | undefer => exact Command.keeps_alter (by simp)
    | status => exact Command.keeps_write (by simp)
    | save => exact Command.keeps_write (by simp)
    | expire k t => exact Command.keeps_expire
    | push atFront =>
      intro s
      simp
  · exact Command.keeps_alter (by simp)

lemma keepsLocks_enqueueDueJobs (queue : Queue) (now : Time) :
    (enqueueDueJobs queue now).Within (fun _ => True) KeepsLocks fun _ => True := by
  have hnothing : ∀ s : Store, True ∧ KeepsLocks s s := fun s => ⟨trivial, .refl s⟩
  rw [enqueueDueJobs_eq]
  intro s _
  refine ⟨hnothing s, ?_⟩
  dsimp only
  split
  · trivial
  · intro s' _
    refine ⟨hnothing s', ?_⟩
    dsimp only
    split
    · trivial
    · refine ⟨fun t _ _ => ⟨trivial, fun name => ?_⟩, fun _ => trivial⟩
      exact Command.keeps_seq (fun c hc => keeps_tickCommand hc name) t

namespace RQScheduler

variable {self : RQScheduler} {i : ℕ} {name : QueueName} {now : Time} {s : Store}

lemma mem_foldl_insert {names : List QueueName} {acquired : RSet QueueName} :
    name ∈ names.foldl RSet.insert acquired ↔ name ∈ acquired ∨ name ∈ names := by
  induction names generalizing acquired with
  | nil => simp
  | cons first names ih =>
    rw [List.foldl_cons, ih, RSet.mem_insert, List.mem_cons]
    exact or_assoc

/-- A lock that is held stays with its holder. -/
lemma setLock_of_held {name' : QueueName} {lock : SchedulerLock}
    (h : s.val (.schedulerLock name') = some lock) :
    (self.setLock i name now s).val (.schedulerLock name') = some lock := by
  unfold setLock
  split
  · next hfree =>
    have hne : name' ≠ name := by
      rintro rfl
      rw [hfree] at h
      cases h
    simp [hne, h]
  · exact h

lemma setLock_of_free (h : s.val (.schedulerLock name) = none) :
    (self.setLock i name now s).val (.schedulerLock name) = some ⟨self.pid, i⟩ := by
  simp [setLock, h]

lemma keepsLocks_heartbeat (self : RQScheduler) (now : Time) (s : Store) :
    KeepsLocks s ((self.heartbeat now).run s) := by
  intro name
  refine Command.keeps_seq (fun c hc => ?_) s
  obtain ⟨name', -, rfl⟩ := List.mem_map.mp hc
  have hpositive : ¬self.lockTtl ≤ 0 := by
    unfold lockTtl
    omega
  rw [RedisQueue.expire, if_neg hpositive]
  exact Command.keeps_expire

/-- A heartbeat renews acquired locks only. -/
lemma frames_heartbeat (h : name ∉ self.acquiredLocks) :
    (self.heartbeat now).Frames (.schedulerLock name) := by
  refine Command.frames_seq fun c hc => ?_
  obtain ⟨name', hname', rfl⟩ := List.mem_map.mp hc
  have hne : name ≠ name' := fun heq => h (heq ▸ hname')
  unfold RedisQueue.expire
  split
  · exact Command.frames_alter (by simpa using hne)
  · exact Command.frames_expire (by simpa using hne)

@[simp] lemma acquiredLocks_prepareRegistries (self : RQScheduler) :
    self.prepareRegistries.acquiredLocks = self.acquiredLocks := by
  unfold prepareRegistries
  split <;> rfl

/-- Only acquired locks are released. -/
lemma frames_releaseCommand (h : name ∉ self.acquiredLocks) :
    self.releaseCommand.Frames (.schedulerLock name) := by
  refine Command.frames_seq fun c hc => ?_
  obtain ⟨name', hname', rfl⟩ := List.mem_map.mp hc
  have hne : name ≠ name' := fun heq => h (heq ▸ hname')
  exact Command.frames_alter (by simpa using hne)

lemma releaseLocks_ok {self' : RQScheduler} {s' : Store}
    (h : self.releaseLocks.run s = (.ok self', s')) :
    self' = { self with acquiredLocks := ∅ } ∧ s' = self.releaseCommand.run s := by
  unfold releaseLocks at h
  split at h
  · cases h
  · rw [Prog.run_bind_ok (Prog.run_perform _ s)] at h
    cases h
    exact ⟨rfl, rfl⟩

/-- Without locks `release_locks` raises, and does nothing. -/
lemma releaseLocks_error {e : PyError} {s' : Store}
    (h : self.releaseLocks.run s = (.error e, s')) : self.acquiredLocks = ∅ ∧ s' = s := by
  unfold releaseLocks at h
  split at h
  · next hnone =>
    cases h
    exact ⟨hnone, rfl⟩
  · rw [Prog.run_bind_ok (Prog.run_perform _ s)] at h
    cases h

/-- In either case only acquired locks are touched. -/
lemma agreeAt_releaseLocks (h : name ∉ self.acquiredLocks) :
    KeyStore.AgreeAt (.schedulerLock name) (self.releaseLocks.run s).2 s := by
  rcases hrun : self.releaseLocks.run s with ⟨e | self', s'⟩
  · obtain ⟨-, rfl⟩ := releaseLocks_error hrun
    exact ⟨rfl, rfl⟩
  · obtain ⟨-, rfl⟩ := releaseLocks_ok hrun
    exact frames_releaseCommand h s

end RQScheduler

/-! ## Runs -/

namespace Cluster

variable {c c' : Cluster}

/-- What a scheduler enqueues leaves the locks alone. -/
def Harmless (c : Cluster) : Prop :=
  ∀ i names p, (c.processes i).activity = .enqueueing names p →
    p.Within (fun _ => True) KeepsLocks fun _ => True

/-- The locks that the scheduler `i` claims are locks it has set. -/
def OwnedBy (i : ℕ) (process : SchedulerProcess) (s : Store) : Prop :=
  ∀ name, process.Claims name → ∃ lock, s.val (.schedulerLock name) = some lock ∧ lock.setBy = i

/-- What one step of the scheduler `i` does to the locks. -/
structure StepEffect (i : ℕ) (process' : SchedulerProcess) (s s' : Store) : Prop where
  /-- The locks that other schedulers have set stay. -/
  others : ∀ name lock, s.val (.schedulerLock name) = some lock → lock.setBy ≠ i →
    s'.val (.schedulerLock name) = some lock
  owned : OwnedBy i process' s'

/-- A step that leaves the locks alone and claims nothing new. -/
lemma stepEffect_of_keeps {i : ℕ} {process process' : SchedulerProcess} {s s' : Store}
    (hown : OwnedBy i process s)
    (hclaims : ∀ name, process'.Claims name → process.Claims name) (hkeep : KeepsLocks s s') :
    StepEffect i process' s s' := by
  refine ⟨fun name lock hlock _ => by rw [hkeep name, hlock], fun name hname => ?_⟩
  obtain ⟨lock, hlock, hset⟩ := hown name (hclaims name hname)
  exact ⟨lock, by rw [hkeep name, hlock], hset⟩

/-- Without `acquire_locks` in progress a scheduler claims its acquired locks, if it is running. -/
lemma claims_iff {process : SchedulerProcess}
    (h : ∀ names successful, process.activity ≠ .acquiring names successful) (name : QueueName) :
    process.Claims name ↔ process.running = true ∧ name ∈ process.self.acquiredLocks :=
  or_iff_left fun ⟨names, successful, hactivity, _⟩ => h names successful hactivity

/-- Who is idle and not running claims nothing. -/
lemma not_claims_idle {self : RQScheduler} {worker : Option RQScheduler} {name : QueueName} :
    ¬SchedulerProcess.Claims ⟨self, .idle, false, worker⟩ name := by
  rw [claims_iff (by simp)]
  simp

/-- A step that leaves the locks alone and after which no more than the acquired locks is claimed,
which were acquired before. -/
lemma stepEffect_of_acquired {i : ℕ} {self self' : RQScheduler} {activity activity' : Activity}
    {worker worker' : Option RQScheduler} {s s' : Store}
    (hown : OwnedBy i ⟨self, activity, true, worker⟩ s)
    (hactivity : ∀ names successful, activity' ≠ .acquiring names successful)
    (hacquired : self'.acquiredLocks = self.acquiredLocks) (hkeep : KeepsLocks s s') :
    StepEffect i ⟨self', activity', true, worker'⟩ s s' := by
  refine stepEffect_of_keeps hown (fun name hname => ?_) hkeep
  rw [claims_iff hactivity] at hname
  exact .inl ⟨rfl, hacquired ▸ hname.2⟩

/-- `SET NX` claims a lock only if it was free, and then it is the scheduler's own. -/
lemma stepEffect_setLock {i : ℕ} {now : Time} {self : RQScheduler} {name : QueueName}
    {names : List QueueName} {successful : RSet QueueName} {running : Bool}
    {worker : Option RQScheduler} {s : Store}
    (hown : OwnedBy i ⟨self, .acquiring (name :: names) successful, running, worker⟩ s) :
    StepEffect i
      ⟨self, .acquiring names (RQScheduler.successfulLocks name successful s), running, worker⟩ s
      (self.setLock i name now s) := by
  refine ⟨fun name' lock hlock _ => RQScheduler.setLock_of_held hlock, fun name' hname' => ?_⟩
  -- what was claimed before is held, and a held lock stays
  have hkept : SchedulerProcess.Claims
      ⟨self, .acquiring (name :: names) successful, running, worker⟩ name' →
      ∃ lock, (self.setLock i name now s).val (.schedulerLock name') = some lock ∧
        lock.setBy = i := fun hclaim => by
    obtain ⟨lock, hlock, hset⟩ := hown name' hclaim
    exact ⟨lock, RQScheduler.setLock_of_held hlock, hset⟩
  rcases hname' with hacquired | ⟨names', successful', hactivity, hmem⟩
  · exact hkept (.inl hacquired)
  · cases hactivity
    unfold RQScheduler.successfulLocks at hmem
    split at hmem
    · next hfree =>
      rcases RSet.mem_insert.mp hmem with hmem | rfl
      · exact hkept (.inr ⟨_, _, rfl, hmem⟩)
      · exact ⟨_, RQScheduler.setLock_of_free hfree, rfl⟩
    · exact hkept (.inr ⟨_, _, rfl, hmem⟩)

/-- `release_locks` deletes only locks that the scheduler has set. -/
lemma stepEffect_release {i : ℕ} {self : RQScheduler} {activity activity' : Activity}
    {worker worker' : Option RQScheduler} {s : Store}
    (hown : OwnedBy i ⟨self, activity, true, worker⟩ s)
    (hactivity : ∀ names successful, activity' ≠ .acquiring names successful) :
    StepEffect i ⟨{ self with acquiredLocks := ∅ }, activity', true, worker'⟩ s
      (self.releaseCommand.run s) := by
  constructor
  · intro name lock hlock hother
    have hnot : name ∉ self.acquiredLocks := fun hmem => by
      obtain ⟨lock', hlock', hset⟩ := hown name (.inl ⟨rfl, hmem⟩)
      rw [hlock] at hlock'
      cases hlock'
      exact hother hset
    rw [((RQScheduler.frames_releaseCommand hnot) s).1, hlock]
  · intro name hname
    rw [claims_iff hactivity] at hname
    simp at hname

/-- **One step of a scheduler.** A process that is started again finds the locks that were acquired
before to be its own. -/
lemma stepEffect_of_step {i : ℕ} {now : Time} {kind : SchedulerStep}
    {process process' : SchedulerProcess} {s s' : Store}
    (h : SchedulerProcess.Step i now kind process s process' s') (hown : OwnedBy i process s)
    (hstart : kind = .start → process.running = false → ∀ name ∈ process.self.acquiredLocks,
      ∃ lock, s.val (.schedulerLock name) = some lock ∧ lock.setBy = i)
    (hharmless : ∀ names p, process.activity = .enqueueing names p →
      p.Within (fun _ => True) KeepsLocks fun _ => True) :
    StepEffect i process' s s' := by
  cases h with
  | @acquire self worker =>
    refine stepEffect_of_keeps hown (fun name hname => ?_) (.refl s)
    rcases hname with hname | ⟨names, successful, hactivity, hname⟩
    · exact .inl hname
    · cases hactivity
      simp at hname
  | @reacquire self worker =>
    refine stepEffect_of_keeps hown (fun name hname => ?_) (.refl s)
    rcases hname with ⟨hrunning, -⟩ | ⟨names, successful, hactivity, hname⟩
    · cases hrunning
    · cases hactivity
      simp at hname
  | setLock => exact stepEffect_setLock hown
  | @acquired self successful worker =>
    refine stepEffect_of_keeps hown (fun name hname => ?_) (.refl s)
    rw [claims_iff (by simp)] at hname
    rcases RQScheduler.mem_foldl_insert.mp hname.2 with hname | hname
    · exact .inl ⟨rfl, hname⟩
    · exact .inr ⟨_, _, rfl, hname⟩
  | @restart self successful worker pid =>
    refine ⟨fun _ _ hlock _ => hlock, fun name hname => ?_⟩
    rw [claims_iff (by simp)] at hname
    rcases RQScheduler.mem_foldl_insert.mp hname.2 with hname | hname
    · exact hstart rfl rfl name hname
    · exact hown name (.inr ⟨_, _, rfl, hname⟩)
  | noRestart => exact ⟨fun _ _ hlock _ => hlock, fun name hname => absurd hname not_claims_idle⟩
  | start => exact stepEffect_of_acquired hown (by simp) rfl (.refl s)
  | @heartbeat self worker =>
    exact stepEffect_of_keeps hown (fun _ hname => hname)
      (RQScheduler.keepsLocks_heartbeat self now s)
  | @enqueue self worker =>
    exact stepEffect_of_acquired hown (by simp) self.acquiredLocks_prepareRegistries (.refl s)
  | nextRegistry => exact stepEffect_of_acquired hown (by simp) rfl (.refl s)
  | @advance self names p p' worker _ _ hadv =>
    have hstep := (hharmless names p rfl).advance KeepsLocks.refl trivial hadv
    exact stepEffect_of_acquired hown (by simp) rfl hstep.2.1
  | enqueued => exact stepEffect_of_acquired hown (by simp) rfl (.refl s)
  | raised => exact ⟨fun _ _ hlock _ => hlock, fun name hname => absurd hname not_claims_idle⟩
  | release hrun =>
    obtain ⟨rfl, rfl⟩ := RQScheduler.releaseLocks_ok hrun
    exact stepEffect_release hown (by simp)
  | releaseRaised hrun =>
    obtain ⟨-, rfl⟩ := RQScheduler.releaseLocks_error hrun
    exact ⟨fun _ _ hlock _ => hlock, fun name hname => absurd hname not_claims_idle⟩
  | die => exact ⟨fun _ _ hlock _ => hlock, fun name hname => absurd hname not_claims_idle⟩

/-- A scheduler goes on to enqueue the jobs of another registry only. -/
lemma harmless_of_step {i : ℕ} {now : Time} {kind : SchedulerStep}
    {process process' : SchedulerProcess} {s s' : Store}
    (h : SchedulerProcess.Step i now kind process s process' s')
    (hharmless : ∀ names p, process.activity = .enqueueing names p →
      p.Within (fun _ => True) KeepsLocks fun _ => True) {names : List QueueName} {p : Redis Unit}
    (hp : process'.activity = .enqueueing names p) :
    p.Within (fun _ => True) KeepsLocks fun _ => True := by
  cases h with
  | enqueue =>
    cases hp
    trivial
  | @nextRegistry self name names =>
    cases hp
    exact keepsLocks_enqueueDueJobs { name := name } now
  | advance hadv =>
    cases hp
    exact ((hharmless _ _ rfl).advance KeepsLocks.refl trivial hadv).2.2
  | acquire | reacquire | setLock | acquired | restart | noRestart | start | heartbeat | enqueued
  | raised | release | releaseRaised | die => cases hp

/-- What holds throughout a timely run. -/
structure Sound (c : Cluster) : Prop where
  owned : ∀ i, OwnedBy i (c.processes i) c.store
  harmless : c.Harmless

lemma Sound.step {i : ℕ} {kind : SchedulerStep} (h : c.Sound) (htimely : c.Timely (.step i kind))
    (hstep : Step i kind c c') : c'.Sound := by
  obtain @⟨process, s, hstep⟩ := hstep
  have heffect := stepEffect_of_step hstep (h.owned i)
    (fun hkind => by subst hkind; exact htimely) (h.harmless i)
  constructor
  · intro j
    dsimp only
    by_cases hj : j = i
    · subst hj
      rw [Function.update_self]
      exact heffect.owned
    · rw [Function.update_of_ne hj]
      intro name hname
      obtain ⟨lock, hlock, hset⟩ := h.owned j name hname
      exact ⟨lock, heffect.others name lock hlock (hset ▸ hj), hset⟩
  · intro j names p hp
    dsimp only at hp
    by_cases hj : j = i
    · subst hj
      rw [Function.update_self] at hp
      exact harmless_of_step hstep (h.harmless j) hp
    · rw [Function.update_of_ne hj] at hp
      exact h.harmless j names p hp

lemma Sound.expire (h : c.Sound) (htimely : c.Timely .expire) : c.expire.Sound := by
  refine ⟨fun i name hname => ?_, h.harmless⟩
  obtain ⟨lock, hlock, hset⟩ := h.owned i name hname
  refine ⟨lock, ?_, hset⟩
  have hnot := htimely i name hname
  change (if c.store.Expired c.now (.schedulerLock name) then default
    else c.store.val (.schedulerLock name)) = some lock
  rw [if_neg hnot, hlock]

lemma Fresh.sound (h : c.Fresh) : c.Sound := by
  constructor
  · intro i name hname
    rw [claims_iff (by simp [(h i).1]), (h i).2.1] at hname
    simp at hname
  · intro i names p hp
    rw [(h i).1] at hp
    cases hp

lemma Run.sound (hrun : Run Timely c c') (h : c.Sound) : c'.Sound := by
  induction hrun with
  | refl => exact h
  | tail _ hoccurs htimely ih =>
    cases hoccurs with
    | step hstep => exact ih.step htimely hstep
    | wait => exact ⟨ih.owned, ih.harmless⟩
    | expire => exact ih.expire htimely

lemma Sound.exclusive (h : c.Sound) : c.Exclusive := by
  intro i j name hi hj hmemi hmemj
  obtain ⟨lock, hlock, rfl⟩ := h.owned i name (.inl ⟨hi, hmemi⟩)
  obtain ⟨lock', hlock', rfl⟩ := h.owned j name (.inl ⟨hj, hmemj⟩)
  rw [hlock] at hlock'
  cases hlock'
  rfl

/-- A heartbeat or a release changes locks of the scheduler itself only. -/
lemma Sound.changesOwn {i : ℕ} {kind : SchedulerStep} (h : c.Sound)
    (hkind : kind = .heartbeat ∨ kind = .release) (hstep : Step i kind c c') :
    c.ChangesOwn i c' := by
  obtain @⟨process, s, hstep⟩ := hstep
  intro name hother
  have hown := h.owned i
  -- the lock is none of those that `i` counts as acquired
  have hnot : ∀ (self : RQScheduler) worker, c.processes i = ⟨self, .idle, true, worker⟩ →
      name ∉ self.acquiredLocks := fun self worker hself hmem => by
    rw [hself] at hown
    obtain ⟨lock, hlock, hset⟩ := hown name (.inl ⟨rfl, hmem⟩)
    exact hother lock hlock hset
  generalize hprocess : c.processes i = before at hstep
  cases hstep with
  | heartbeat => exact RQScheduler.frames_heartbeat (hnot _ _ hprocess) c.store
  | @release self self' worker _ _ hrun =>
    have hagree := @RQScheduler.agreeAt_releaseLocks self name c.store (hnot _ _ hprocess)
    rwa [hrun] at hagree
  | @releaseRaised self e worker _ _ hrun =>
    have hagree := @RQScheduler.agreeAt_releaseLocks self name c.store (hnot _ _ hprocess)
    rwa [hrun] at hagree
  | acquire | reacquire | setLock | acquired | restart | noRestart | start | enqueue | nextRegistry
  | advance | enqueued | raised | die => simp at hkind

/-- **Scheduler locks are exclusive in timely runs.** -/
theorem exclusive_of_timely (h : c.Fresh) (hrun : Run Timely c c') :
    c'.Exclusive ∧ ∀ i kind c'', kind = .heartbeat ∨ kind = .release → Step i kind c' c'' →
      c'.ChangesOwn i c'' := by
  have hsound := hrun.sound h.sound
  exact ⟨hsound.exclusive, fun i kind c'' hkind hstep => hsound.changesOwn hkind hstep⟩

/-! ### Runs step by step -/

/-- The scheduler `i` and the store are replaced. -/
def put (c : Cluster) (i : ℕ) (process : SchedulerProcess) (s : Store) : Cluster :=
  ⟨Function.update c.processes i process, s, c.now⟩

@[simp] lemma processes_put_self (i : ℕ) (process : SchedulerProcess) (s : Store) :
    (c.put i process s).processes i = process := Function.update_self _ _ _

@[simp] lemma put_put (i : ℕ) (process process' : SchedulerProcess) (s s' : Store) :
    (c.put i process s).put i process' s' = c.put i process' s' := by
  simp [put]

/-- A run goes on with a step of the scheduler `i`. -/
lemma Run.step {C : Cluster → Occurrence → Prop} (h : Run C c c') {i : ℕ} {kind : SchedulerStep}
    {process process' : SchedulerProcess} {s : Store} (hprocess : c'.processes i = process)
    (hstep : SchedulerProcess.Step i c'.now kind process c'.store process' s)
    (hC : C c' (.step i kind)) : Run C c (c'.put i process' s) := by
  subst hprocess
  exact h.tail (.step (.mk hstep)) hC

/-! ### A lock that expires -/

/-- Schedulers for the same queue. -/
def sameQueue : Cluster where
  processes i := ⟨{ queueNames := ["default"], pid := 100 + i }, .idle, true, none⟩
  store := Store.empty
  now := 0

/-- The state after `self`, the scheduler `i`, has called `acquire_locks` for one queue name. -/
def afterAcquire (c : Cluster) (i : ℕ) (self : RQScheduler) (name : QueueName) : Cluster :=
  c.put i ⟨self.addLocks (RQScheduler.successfulLocks name ∅ c.store), .idle, true, none⟩
    (self.setLock i name c.now c.store)

lemma Run.acquire {C : Cluster → Occurrence → Prop} (h : Run C c c') {i : ℕ} {self : RQScheduler}
    {name : QueueName} (hself : c'.processes i = ⟨self, .idle, true, none⟩)
    (hnames : self.queueNames = [name]) (hC : ∀ c, C c (.step i .acquire)) :
    Run C c (c'.afterAcquire i self name) := by
  have hbegin : Run C c (c'.put i ⟨self, .acquiring [name] ∅, true, none⟩ c'.store) :=
    h.step hself (hnames ▸ .acquire) (hC _)
  have hset := hbegin.step (processes_put_self i _ _) .setLock (hC _)
  have hend := hset.step (processes_put_self i _ _) .acquired (hC _)
  rw [put_put, put_put] at hend
  exact hend

/-- The state after both of two schedulers have called `acquire_locks`, the second one when the lock
of the first had expired. -/
def takenOver : Cluster :=
  ((sameQueue.afterAcquire 0 { queueNames := ["default"], pid := 100 } "default").wait
    62).expire.afterAcquire 1 { queueNames := ["default"], pid := 101 } "default"

theorem lock_taken_over : Run (fun _ _ => True) sameQueue takenOver ∧ ¬takenOver.Exclusive ∧
    ∃ c, Step 0 .release takenOver c ∧ ¬takenOver.ChangesOwn 0 c := by
  refine ⟨?_, fun h => ?_, _, .mk (.release rfl), fun h => ?_⟩
  · have hfirst : Run (fun _ _ => True) sameQueue
        (sameQueue.afterAcquire 0 { queueNames := ["default"], pid := 100 } "default") :=
      .acquire .refl rfl rfl fun _ => trivial
    have hwaited : Run (fun _ _ => True) sameQueue ((sameQueue.afterAcquire 0
        { queueNames := ["default"], pid := 100 } "default").wait 62) := hfirst.tail .wait trivial
    have hexpired := hwaited.tail .expire trivial
    exact hexpired.acquire rfl rfl fun _ => trivial
  · exact absurd (h 0 1 "default" rfl rfl (by decide) (by decide)) (by decide)
  · have hkept := (h "default" (by
      intro lock hlock
      cases hlock
      decide)).1
    cases hkept

/-! ### A process that is started again -/

/-- Workers for the same queue, with their scheduler objects. -/
def workers : Cluster where
  processes i := ⟨{ queueNames := ["default"], pid := i }, .idle, false,
    some { queueNames := ["default"], pid := i }⟩
  store := Store.empty
  now := 0

lemma workers_fresh : workers.Fresh :=
  fun _ => ⟨rfl, rfl, fun _ hworker => by cases hworker; rfl⟩

/-- The state after the worker `i` has called `acquire_locks` for one queue name, while its process
is dead. -/
def afterReacquire (c : Cluster) (i : ℕ) (worker : RQScheduler) (name : QueueName) : Cluster :=
  c.put i ⟨worker, .acquiring [] (RQScheduler.successfulLocks name ∅ c.store), false, some worker⟩
    (worker.setLock i name c.now c.store)

lemma Run.reacquire {C : Cluster → Occurrence → Prop} (h : Run C c c') {i : ℕ}
    {self worker : RQScheduler} {name : QueueName}
    (hself : c'.processes i = ⟨self, .idle, false, some worker⟩)
    (hnames : worker.queueNames = [name]) (hC : ∀ c, C c (.step i .acquire)) :
    Run C c (c'.afterReacquire i worker name) := by
  have hbegin : Run C c (c'.put i ⟨worker, .acquiring [name] ∅, false, some worker⟩ c'.store) :=
    h.step hself (hnames ▸ .reacquire) (hC _)
  have hset := hbegin.step (processes_put_self i _ _) .setLock (hC _)
  rw [put_put] at hset
  exact hset

/-- The object of a worker, with what it has acquired. -/
def schedulerOf (i : ℕ) (acquired : List QueueName) : RQScheduler :=
  { queueNames := ["default"], pid := i, acquiredLocks := acquired.foldl RSet.insert ∅ }

/-- A process of the first worker, with the locks that its object has acquired. -/
def firstProcess (pid : ℕ) (running : Bool) : SchedulerProcess :=
  ⟨{ schedulerOf 0 ["default"] with pid := pid }, .idle, running, some (schedulerOf 0 ["default"])⟩

/-- The process of the first worker is started. -/
def firstStarted : Cluster :=
  let c := workers.afterReacquire 0 (schedulerOf 0 []) "default"
  c.put 0 (firstProcess 100 true) c.store

/-- It sends a heartbeat after half a minute, and dies. -/
def firstDead : Cluster :=
  let c := (firstStarted.wait 30).expire
  c.put 0 (firstProcess 100 false) (((firstProcess 100 true).self.heartbeat c.now).run c.store)

/-- The second worker does not get the lock, and the first one looks after its scheduler. -/
def secondFailed : Cluster :=
  let c := firstDead.afterReacquire 1 (schedulerOf 1 []) "default"
  ((c.put 1 ⟨schedulerOf 1 [], .idle, false, some (schedulerOf 1 [])⟩ c.store).wait 40).expire

/-- The process of the first worker is started again. -/
def firstRestarted : Cluster :=
  let c := secondFailed.afterReacquire 0 (schedulerOf 0 ["default"]) "default"
  c.put 0 (firstProcess 102 true) c.store

lemma run_firstStarted : Run Timely workers firstStarted := by
  have hacquired := @Run.reacquire _ _ Timely .refl 0 _ (schedulerOf 0 []) "default"
    (show workers.processes 0 = _ from rfl) rfl fun _ => trivial
  exact hacquired.step rfl (.restart (by decide)) fun _ _ hname => by cases hname

/-- The only expiry is that of the lock. -/
lemma exp_firstStarted {k : Key} {t : Time} (ht : t ∈ firstStarted.store.exp k) : t = 61 := by
  change t ∈ Function.update (fun _ => none) (.schedulerLock "default") (some 61) k at ht
  by_cases hk : k = .schedulerLock "default"
  · rw [hk, Function.update_self] at ht
    exact (Option.some.inj ht).symm
  · rw [Function.update_of_ne hk] at ht
    cases ht

lemma run_firstDead : Run Timely workers firstDead := by
  have hwaited : Run Timely workers (firstStarted.wait 30) := run_firstStarted.tail .wait trivial
  have hexpired := hwaited.tail .expire (by
    rintro i name - ⟨t, ht, hlt⟩
    obtain rfl := exp_firstStarted ht
    revert hlt
    decide)
  have hbeaten := @Run.step _ _ _ hexpired 0 _ (firstProcess 100 true) _ _ rfl .heartbeat trivial
  have hdead := hbeaten.step (processes_put_self 0 _ _) .die trivial
  rw [put_put] at hdead
  exact hdead

/-- Nobody is running, and nobody acquires anything. -/
lemma idle_firstDead (i : ℕ) : ∃ self worker, firstDead.processes i = ⟨self, .idle, false, worker⟩ := by
  by_cases hi : i = 0
  · subst hi
    exact ⟨_, _, rfl⟩
  · refine ⟨schedulerOf i [], some (schedulerOf i []), ?_⟩
    simp [firstDead, firstStarted, put, afterReacquire, wait, expire, hi, workers, schedulerOf]

lemma run_secondFailed : Run Timely workers secondFailed := by
  have hacquired := @Run.reacquire _ _ _ run_firstDead 1 _ (schedulerOf 1 []) "default"
    (show firstDead.processes 1 = _ from rfl) rfl fun _ => trivial
  have hprocess : (firstDead.afterReacquire 1 (schedulerOf 1 []) "default").processes 1 =
      ⟨schedulerOf 1 [], .acquiring [] ∅, false, some (schedulerOf 1 [])⟩ := rfl
  have hfailed := hacquired.step hprocess (.noRestart rfl) fun _ _ hname => by
    rw [hprocess] at hname
    cases hname
  have hwaited := @Run.tail _ _ _ _ (.wait 40) hfailed .wait trivial
  refine hwaited.tail .expire ?_
  intro i name hclaims
  by_cases hi : i = 1
  · subst hi
    exact absurd hclaims not_claims_idle
  · obtain ⟨self, worker, hidle⟩ := idle_firstDead i
    have hprocess : (firstDead.processes i).Claims name := by
      simpa [wait, put, afterReacquire, hi] using hclaims
    rw [hidle] at hprocess
    exact absurd hprocess not_claims_idle

lemma run_firstRestarted : Run Timely workers firstRestarted := by
  have hacquired := @Run.reacquire _ _ _ run_secondFailed 0 _ (schedulerOf 0 ["default"]) "default"
    (show secondFailed.processes 0 = _ from rfl) rfl fun _ => trivial
  refine hacquired.step rfl (.restart (by decide)) fun _ name hname => ?_
  -- the lock has been renewed before the process died
  replace hname : name ∈ (schedulerOf 0 ["default"]).acquiredLocks := hname
  obtain rfl : name = "default" := by simpa [schedulerOf] using hname
  exact ⟨⟨0, 0⟩, rfl, rfl⟩

/-- A worker that starts its scheduler again while it still has the lock. -/
theorem exclusive_of_timely_restart : firstRestarted.Exclusive ∧
    (firstRestarted.processes 0).running = true ∧
    "default" ∈ (firstRestarted.processes 0).self.acquiredLocks ∧
    (firstDead.processes 0).running = false :=
  ⟨(exclusive_of_timely workers_fresh run_firstRestarted).1, rfl, by decide, rfl⟩

end Cluster
end RedisQueue
