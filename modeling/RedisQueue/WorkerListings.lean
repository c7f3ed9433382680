import RedisQueue.WorkerRegistration

/-!
# The listings of workers

The key of a worker is in the set `rq:workers` and in the set of each queue that it serves, and its
hash expires if it is not renewed (`rq/worker_registration.py`, `rq/worker/base.py`). Any process
may take the key of a worker out of a set when it finds that the worker has no hash.

* `WorkerRegistry.cleanWorkerRegistry`, `BaseWorker.registerDeath`, `BaseWorker.heartbeat`: what
  besides `register_birth` and `find_by_key` writes to these keys;
* `WorkerRegistry.run_cleanWorkerRegistry`: what a clean-up alone removes;
* `BaseWorker.listed_iff`: when a worker stays listed, in every interleaving of processes.
-/

namespace RedisQueue

/-! ## Deaths and heartbeats -/

namespace BaseWorker

variable {Real : Type}

/-- The `SREM`s of `worker_registration.unregister` under the names of the queues. -/
def unregisterUnder (key : String) : List QueueName → RegistrationPipeline →
    Registering RegistrationPipeline
  | [], pipe => return pipe
  | name :: names, pipe => do
    let pipe ← pipe.command (.alter (.workersByQueue name) fun (workers : RSet String) =>
      workers.erase key)
    unregisterUnder key names pipe

/-- `worker_registration.unregister` -/
def unregister (self : BaseWorker Real) (pipeline : Option RegistrationPipeline) :
    Registering (Option RegistrationPipeline) := do
  let connection := pipeline.getD {}
  let connection ← connection.command (.alter .workers fun (workers : RSet String) =>
    workers.erase self.key)
  let connection ← unregisterUnder self.key self.queues connection
  if pipeline.isNone then do
    let _ ← connection.execute
    return none
  else return some connection

/-- A mapping of one field. -/
def single (field : WorkerField) (value : PyValue) : WorkerField → Option PyValue := fun f =>
  if f = field then some value else none

/-- `BaseWorker.register_death` at `now`, when the clock of the server shows `time`. -/
def registerDeath (self : BaseWorker Real) (now : DateTime) (time : Time) : Registering Unit := do
  let p ← self.unregister (some {})
  let p ← (p.getD {}).command (hset self.name (single .death (.text (utcformat now))))
  let p ← p.command (.expire (.worker self.name) (time + 60))
  let _ ← p.execute
  return ()

/-- A command on a pipeline, or on the connection. -/
def send (pipeline : Option RegistrationPipeline)
    (c : Command RegistrationKey RegistrationValue) :
    Registering (Option RegistrationPipeline) :=
  match pipeline with
  | none => do
    Prog.perform c.run
    return none
  | some pipe => do
    let pipe ← pipe.command c
    return some pipe

/-- `BaseWorker.heartbeat` -/
def heartbeat (self : BaseWorker Real) (timeout : Option ℤ) (pipeline : Option RegistrationPipeline)
    (now : DateTime) (time : Time) :
    Registering (BaseWorker Real × Option RegistrationPipeline) := do
  let timeout := match timeout with
    | some timeout => if timeout = 0 then self.workerTtl + 60 else timeout
    | none => self.workerTtl + 60
  let self := { self with lastHeartbeat := some now }
  let connection ← send pipeline
    (hset self.name (single .lastHeartbeat (.text (utcformat now))))
  let connection ← send connection (.expire (.worker self.name) (time + timeout))
  return (self, connection)

/-- `BaseWorker.maintain_heartbeats`, as far as it writes to the hash of the worker. The reply to
the first `HSET` tells whether the field is new. -/
def maintainHeartbeats (self : BaseWorker Real) (jobMonitoringInterval : ℤ) (now : DateTime)
    (time : Time) : Registering (BaseWorker Real) := do
  let (self, pipeline) ← self.heartbeat (some (jobMonitoringInterval + 60)) (some {}) now time
  let isNew ← Prog.step (Command.seq (pipeline.getD {}).commandStack).run fun s =>
    .ret (s.val (.worker self.name) .lastHeartbeat).isNone
  if isNew then do
    let mapping ← Prog.ofExcept self.serialize
    let mapping ← Prog.ofExcept (packed mapping)
    let pipeline ← ({} : RegistrationPipeline).command (hset self.name mapping)
    let _ ← pipeline.execute
    return self
  else return self

end BaseWorker

/-! ## Clean-ups -/

namespace WorkerRegistry

/-- `MAX_KEYS` -/
def maxKeys : ℕ := 1000

/-- `split_list` -/
def splitList {α : Type} (aList : List α) (segmentSize : ℕ) : List (List α) :=
  (List.range ((aList.length + segmentSize - 1) / segmentSize)).map fun i =>
    (aList.drop (i * segmentSize)).take segmentSize

/-- `worker_registration.get_keys` -/
def getKeys (queue : Option QueueName) (connected : Bool) : Registering (List String) :=
  match queue, connected with
  | none, false => .throw (.valueError "\"Queue\" or \"connection\" argument is required")
  | some name, _ => Prog.read fun s =>
    let workers : RSet String := s.val (.workersByQueue name)
    workers.elems
  | none, true => Prog.read fun s =>
    let workers : RSet String := s.val .workers
    workers.elems

/-- The prefix of the keys `WORKERS_BY_QUEUE_KEY % name` -/
def workersByQueuePrefix : String := "rq:workers:"

/-- `EXISTS`. The text of a key that is not of this database names nothing. -/
def keyExists (s : RegistrationStore) (key : String) : Bool :=
  if key = "rq:workers" then decide (s.val .workers ≠ default)
  else if workersByQueuePrefix.toList.isPrefixOf key.toList then
    decide (s.val (.workersByQueue
      (String.ofList (key.toList.drop workersByQueuePrefix.toList.length))) ≠ default)
  else match BaseWorker.nameOfKey key with
    | .ok name => decide (s.val (.worker name) ≠ default)
    | .error _ => false

/-- The two `SREM`s of a part of the invalid keys, a transaction, and then the other parts. -/
def removeSubsets (queue : QueueName) : List (List String) → Registering Unit
  | [] => return ()
  | invalidSubset :: subsets => do
    let pipeline ← ({} : RegistrationPipeline).command
      (.alter (.workersByQueue queue) fun (workers : RSet String) => workers.eraseAll invalidSubset)
    let pipeline ← pipeline.command
      (.alter .workers fun (workers : RSet String) => workers.eraseAll invalidSubset)
    let _ ← pipeline.execute
    removeSubsets queue subsets

/-- `clean_worker_registry`, once it has the keys. All `EXISTS` are one transaction. -/
def cleanKeys (queue : QueueName) (keys : List String) : Registering Unit := do
  let invalidKeys ← Prog.read fun s => keys.filter fun key => !keyExists s key
  if invalidKeys = [] then return ()
  else removeSubsets queue (splitList invalidKeys maxKeys)

/-- `worker_registration.clean_worker_registry` -/
def cleanWorkerRegistry (queue : QueueName) : Registering Unit := do
  let keys ← getKeys (some queue) false
  cleanKeys queue keys

/-! ### What a clean-up alone removes -/

lemma flatten_splitList {α : Type} (aList : List α) {segmentSize : ℕ} (hpos : 0 < segmentSize) :
    (splitList aList segmentSize).flatten = aList := by
  have hprefix : ∀ n, ((List.range n).map fun i =>
      (aList.drop (i * segmentSize)).take segmentSize).flatten = aList.take (n * segmentSize) := by
    intro n
    induction n with
    | zero => simp
    | succ n ih =>
      rw [List.range_succ, List.map_append, List.flatten_append, ih, Nat.succ_mul, List.take_add]
      simp
  rw [splitList, hprefix]
  apply List.take_of_length_le
  have hdiv := Nat.div_add_mod (aList.length + segmentSize - 1) segmentSize
  have hmod := Nat.mod_lt (aList.length + segmentSize - 1) hpos
  rw [Nat.mul_comm] at hdiv
  omega

/-- The two `SREM`s of a part. -/
def removalCommands (queue : QueueName) (invalidSubset : List String) :
    List (Command RegistrationKey RegistrationValue) :=
  [.alter (.workersByQueue queue) fun (workers : RSet String) => workers.eraseAll invalidSubset,
    .alter .workers fun (workers : RSet String) => workers.eraseAll invalidSubset]

lemma removeSubsets_cons (queue : QueueName) (invalidSubset : List String)
    (subsets : List (List String)) : removeSubsets queue (invalidSubset :: subsets) =
      .exec false (fun _ => true) (Command.seq (removalCommands queue invalidSubset)).run
        fun _ => removeSubsets queue subsets := by
  rw [removeSubsets, Pipeline.command_eq_buffer (by simp), Prog.ret_bind,
    Pipeline.command_eq_buffer (by simp), Prog.ret_bind,
    Pipeline.execute_of_unwatched (by simp) (by simp)]
  rfl

lemma eraseAll_eraseAll (workers : RSet String) (keys keys' : List String) :
    (workers.eraseAll keys).eraseAll keys' = workers.eraseAll (keys ++ keys') := by
  apply RSet.ext
  simp [RSet.eraseAll, List.filter_filter, Bool.and_comm]

lemma eraseAll_nil (workers : RSet String) : workers.eraseAll [] = workers := by
  apply RSet.ext
  simp [RSet.eraseAll]

/-- Without invalid keys there is no part to remove. -/
lemma cleanKeys_eq (queue : QueueName) (keys : List String) :
    cleanKeys queue keys = .step id fun s => removeSubsets queue
      (splitList (keys.filter fun key => !keyExists s key) maxKeys) := by
  refine congrArg (Prog.step id) (funext fun s => ?_)
  show (if keys.filter (fun key => !keyExists s key) = [] then Prog.ret () else _) = _
  split
  · next hnone =>
    rw [hnone]
    rfl
  · rfl

/-- What the removal of all parts comes to. -/
lemma run_removeSubsets (queue : QueueName) (subsets : List (List String)) (s : RegistrationStore) :
    ∃ s', (removeSubsets queue subsets).run s = (.ok (), s') ∧
      s'.val (.workersByQueue queue) =
        RSet.eraseAll (s.val (.workersByQueue queue)) subsets.flatten ∧
      s'.val .workers = RSet.eraseAll (s.val .workers) subsets.flatten ∧
      ∀ k, k ≠ .workersByQueue queue → k ≠ .workers → KeyStore.AgreeAt k s' s := by
  induction subsets generalizing s with
  | nil =>
    refine ⟨s, rfl, ?_, ?_, fun _ _ _ => ⟨rfl, rfl⟩⟩ <;> exact (eraseAll_nil _).symm
  | cons invalidSubset subsets ih =>
    obtain ⟨s', hrun, hqueue, hworkers, hframe⟩ :=
      ih ((Command.seq (removalCommands queue invalidSubset)).run s)
    refine ⟨s', ?_, ?_, ?_, fun k hk hk' => (hframe k hk hk').trans ?_⟩
    · rw [removeSubsets_cons, Prog.run_exec, if_pos rfl, hrun]
    · rw [hqueue, List.flatten_cons, ← eraseAll_eraseAll]
      simp [removalCommands]
    · rw [hworkers, List.flatten_cons, ← eraseAll_eraseAll]
      simp [removalCommands]
    · refine Command.frames_seq (fun c hc => ?_) s
      simp only [removalCommands, List.mem_cons, List.not_mem_nil, or_false] at hc
      rcases hc with rfl | rfl
      · exact Command.frames_alter hk
      · exact Command.frames_alter hk'

/-- **A clean-up alone.** Whatever the number of keys, exactly the members of the set of the queue
that do not exist leave that set and `rq:workers`; the others keep their order, and no other key is
touched. -/
theorem run_cleanWorkerRegistry (queue : QueueName) (s : RegistrationStore) :
    ∃ s', (cleanWorkerRegistry queue).run s = (.ok (), s') ∧
      RSet.elems (s'.val (.workersByQueue queue)) =
        (RSet.elems (s.val (.workersByQueue queue))).filter (keyExists s) ∧
      RSet.elems (s'.val .workers) = (RSet.elems (s.val .workers)).filter (fun key =>
        key ∉ RSet.elems (s.val (.workersByQueue queue)) ∨ keyExists s key) ∧
      ∀ k, k ≠ .workersByQueue queue → k ≠ .workers → KeyStore.AgreeAt k s' s := by
  generalize hinvalid : (RSet.elems (s.val (.workersByQueue queue))).filter
    (fun key => !keyExists s key) = invalidKeys
  have hmem : ∀ key, key ∈ invalidKeys ↔
      key ∈ RSet.elems (s.val (.workersByQueue queue)) ∧ keyExists s key = false := by
    simp [← hinvalid]
  have hclean : (cleanWorkerRegistry queue).run s =
      (removeSubsets queue (splitList invalidKeys maxKeys)).run s := by
    show (cleanKeys queue (RSet.elems (s.val (.workersByQueue queue)))).run s = _
    rw [cleanKeys_eq, Prog.run_step, hinvalid]
    rfl
  obtain ⟨s', hrun, hqueue, hworkers, hframe⟩ :=
    run_removeSubsets queue (splitList invalidKeys maxKeys) s
  rw [flatten_splitList _ (by decide)] at hqueue hworkers
  refine ⟨s', hclean.trans hrun, ?_, ?_, hframe⟩
  · rw [hqueue]
    refine List.filter_congr fun key hkey => ?_
    simp [hmem, hkey]
  · rw [hworkers]
    refine List.filter_congr fun key _ => ?_
    simp [hmem]

end WorkerRegistry

/-! ## Any number of processes -/

/-- What a process does with the registry. `Worker.all` is a `get_keys` and a `find_by_key` for each
key. -/
inductive Chore (Real : Type) where
  | birth (worker : BaseWorker Real) (now : DateTime) (time : Time)
  | death (worker : BaseWorker Real) (now : DateTime) (time : Time)
  | heartbeat (worker : BaseWorker Real) (timeout : Option ℤ) (now : DateTime) (time : Time)
  | maintain (worker : BaseWorker Real) (jobMonitoringInterval : ℤ) (now : DateTime) (time : Time)
  | find (float : ByteArray → Except PyError Real) (process : ProcessInfo) (workerKey : String)
  | clean (queue : QueueName)
  /-- The server removes what has expired. -/
  | expire (now : Time)

variable {Real : Type}

/-- What the process runs. Keys do not expire at a time at which the hash of the worker `kept`
would. -/
def Chore.program [Zero Real] (kept : WorkerName) : Chore Real → Registering Unit
  | .birth worker now time => do
    let _ ← worker.registerBirth now time
    return ()
  | .death worker now time => worker.registerDeath now time
  | .heartbeat worker timeout now time => do
    let _ ← worker.heartbeat timeout none now time
    return ()
  | .maintain worker jobMonitoringInterval now time => do
    let _ ← worker.maintainHeartbeats jobMonitoringInterval now time
    return ()
  | .find float process workerKey => do
    let _ ← BaseWorker.findByKey float process workerKey
    return ()
  | .clean queue => WorkerRegistry.cleanWorkerRegistry queue
  | .expire now =>
    .exec false (fun s => !decide (s.Expired now (.worker kept))) (fun s => s.expireAt now)
      fun _ => .ret ()

namespace BaseWorker

/-- The worker has a hash without a death, and its key is in every set that it belongs to. The sets
do not expire. -/
structure Listed (worker : BaseWorker Real) (s : RegistrationStore) : Prop where
  registered : s.val (.worker worker.name) ≠ default
  alive : s.val (.worker worker.name) .death = none
  workers : worker.key ∈ RSet.elems (s.val .workers)
  queues : ∀ name ∈ worker.queues, worker.key ∈ RSet.elems (s.val (.workersByQueue name))
  persistent : s.exp .workers = none
  queuesPersistent : ∀ name, s.exp (.workersByQueue name) = none

/-- `find_by_key` has found no hash under the key, and removes it next. -/
def forget (workerKey : String) : Registering Unit := do
  Prog.perform (Command.alter .workers fun (workers : RSet String) => workers.erase workerKey).run
  return ()

/-- The next step of the process, or one of the next, takes the worker out of a set. -/
inductive Removes (worker : BaseWorker Real) : Registering Unit → Prop where
  | cleaning {queue : QueueName} {subsets : List (List String)} (h : worker.key ∈ subsets.flatten) :
      Removes worker (WorkerRegistry.removeSubsets queue subsets)
  | finding : Removes worker (forget worker.key)
  | dying {other : BaseWorker Real} {now : DateTime} {time : Time} (h : other.name = worker.name) :
      Removes worker (other.registerDeath now time)

/-- A step that leaves the worker listed. -/
def Spares (worker : BaseWorker Real) (s s' : RegistrationStore) : Prop :=
  worker.Listed s → worker.Listed s'

variable {worker other : BaseWorker Real} {s s' : RegistrationStore}

lemma key_inj : other.key = worker.key ↔ other.name = worker.name := by
  constructor
  · intro h
    have hlists := congrArg String.toList h
    simpa [key, String.toList_inj] using hlists
  · intro h
    rw [key, key, h]

/-! ### One command -/

/-- A set of which the key of the worker is not removed. -/
lemma spares_alter_workers {f : RSet String → RSet String}
    (hf : ∀ workers, worker.key ∈ RSet.elems workers → worker.key ∈ RSet.elems (f workers)) :
    Spares worker s
      ((Command.alter .workers f : Command RegistrationKey RegistrationValue).run s) := by
  intro h
  have hframe : ∀ k, k ≠ .workers → KeyStore.AgreeAt k ((Command.alter .workers f).run s) s :=
    fun k hk => Command.frames_alter hk s
  constructor
  · rw [(hframe _ (by simp)).1]
    exact h.registered
  · rw [(hframe _ (by simp)).1]
    exact h.alive
  · simpa using hf _ h.workers
  · intro name hname
    rw [(hframe _ (by simp)).1]
    exact h.queues name hname
  · exact Command.exp_alter_of_none _ h.persistent
  · intro name
    rw [(hframe _ (by simp)).2]
    exact h.queuesPersistent name

lemma spares_alter_queue {queue : QueueName} {f : RSet String → RSet String}
    (hf : ∀ workers, worker.key ∈ RSet.elems workers → worker.key ∈ RSet.elems (f workers)) :
    Spares worker s ((Command.alter (.workersByQueue queue) f :
      Command RegistrationKey RegistrationValue).run s) := by
  intro h
  have hframe : ∀ k, k ≠ .workersByQueue queue →
      KeyStore.AgreeAt k ((Command.alter (.workersByQueue queue) f).run s) s :=
    fun k hk => Command.frames_alter hk s
  constructor
  · rw [(hframe _ (by simp)).1]
    exact h.registered
  · rw [(hframe _ (by simp)).1]
    exact h.alive
  · rw [(hframe _ (by simp)).1]
    exact h.workers
  · intro name hname
    rcases eq_or_ne name queue with rfl | hne
    · simpa using hf _ (h.queues name hname)
    · rw [(hframe _ (by simpa using hne)).1]
      exact h.queues name hname
  · rw [(hframe _ (by simp)).2]
    exact h.persistent
  · intro name
    exact Command.exp_alter_of_none _ (h.queuesPersistent name)

/-- What concerns the hashes of workers only, and leaves that of the worker without a death. -/
lemma spares_of_hashes (hsets : ∀ k, (∀ name, k ≠ .worker name) → KeyStore.AgreeAt k s' s)
    (hregistered : s.val (.worker worker.name) ≠ default → s'.val (.worker worker.name) ≠ default)
    (halive : s.val (.worker worker.name) .death = none →
      s'.val (.worker worker.name) .death = none) : Spares worker s s' := by
  intro h
  constructor
  · exact hregistered h.registered
  · exact halive h.alive
  · rw [(hsets .workers (by simp)).1]
    exact h.workers
  · intro name hname
    rw [(hsets (.workersByQueue name) (by simp)).1]
    exact h.queues name hname
  · rw [(hsets .workers (by simp)).2]
    exact h.persistent
  · intro name
    rw [(hsets (.workersByQueue name) (by simp)).2]
    exact h.queuesPersistent name

/-- Fields are written, but the death of that worker. -/
lemma spares_hset {name : WorkerName} {mapping : WorkerField → Option PyValue}
    (hdeath : name = worker.name → mapping .death = none) :
    Spares worker s ((hset name mapping).run s) := by
  have hframe : ∀ k, k ≠ .worker name → KeyStore.AgreeAt k ((hset name mapping).run s) s :=
    fun k hk => Command.frames_write hk s
  refine spares_of_hashes (fun k hk => hframe k (hk name)) ?_ ?_
  · intro hregistered
    rcases eq_or_ne worker.name name with rfl | hne
    · intro habsent
      refine hregistered (funext fun f => ?_)
      have hfield := congrFun habsent f
      simp only [hset, Command.val_write, Function.update_self] at hfield
      cases hvalue : mapping f with
      | none => simpa [hvalue] using hfield
      | some value =>
        rw [hvalue] at hfield
        cases hfield
    · rw [(hframe _ (by simpa using hne)).1]
      exact hregistered
  · intro halive
    rcases eq_or_ne worker.name name with rfl | hne
    · simp [hset, hdeath rfl, halive]
    · rw [(hframe _ (by simpa using hne)).1]
      exact halive

lemma spares_expire {name : WorkerName} {time : Time} :
    Spares worker s
      ((Command.expire (.worker name) time : Command RegistrationKey RegistrationValue).run s) :=
  spares_of_hashes (fun _ hk => Command.frames_expire (hk name) s) (by simp) (by simp)

lemma Spares.seq {cs : List (Command RegistrationKey RegistrationValue)}
    (hcs : ∀ c ∈ cs, ∀ s, Spares worker s (c.run s)) : Spares worker s ((Command.seq cs).run s) :=
  fun h => Command.seq_preserves hcs h

/-! ### The programs that take no worker out -/

/-- From any state the steps of the program leave the worker listed. -/
abbrev Harmless (worker : BaseWorker Real) {α : Type} (p : Registering α) : Prop :=
  p.Within (fun _ => True) (Spares worker) fun _ => True

lemma harmless_read {α : Type} (f : RegistrationStore → α) :
    worker.Harmless (Prog.read f : Registering α) :=
  Prog.within_read (fun _ h => h) fun _ _ => trivial

lemma harmless_ofExcept {α : Type} (x : Except PyError α) :
    worker.Harmless (Prog.ofExcept x : Registering α) :=
  Prog.within_ofExcept.mpr fun _ _ => trivial

lemma Harmless.bind {α β : Type} {p : Registering α} {k : α → Registering β}
    (h : worker.Harmless p) (hk : ∀ a, worker.Harmless (k a)) : worker.Harmless (p >>= k) :=
  Prog.within_bind.mpr (h.mono fun a _ => hk a)

/-- A transaction. -/
lemma harmless_execute {cs : List (Command RegistrationKey RegistrationValue)}
    (hcs : ∀ s, Spares worker s ((Command.seq cs).run s)) :
    worker.Harmless ((({} : RegistrationPipeline).buffer cs).execute : Registering Bool) := by
  rcases eq_or_ne cs [] with rfl | hne
  · exact trivial
  · rw [Pipeline.execute_of_unwatched (by simp) (by simpa using hne)]
    refine ⟨fun s _ _ => ⟨trivial, ?_⟩, fun _ => trivial⟩
    simpa using hcs s

/-- The hash of a worker that is born has no death, and its key is added to the sets. -/
lemma spares_birth (now : DateTime) (time : Time) :
    Spares worker s ((Command.seq ([.del (.worker other.name),
      hset other.name fun f => (other.fields now now f).join] ++ other.registerCommands ++
      [.expire (.worker other.name) (time + (other.workerTtl + 60))])).run s) := by
  generalize hborn : (Command.seq [.del (.worker other.name),
    hset other.name fun f => (other.fields now now f).join]).run s = born
  have hhash : born.val (.worker other.name) = other.registeredHash now := by
    rw [← hborn]
    funext f
    simp only [Command.seq_cons_run, Command.seq_nil_run, hset, Command.val_write,
      Function.update_self, Command.val_del]
    show ((other.fields now now f).join.map encode <|> none) = _
    simp [registeredHash]
  have hframe : ∀ k, k ≠ .worker other.name → KeyStore.AgreeAt k born s := by
    intro k hk
    rw [← hborn]
    refine Command.frames_seq (fun c hc => ?_) s
    simp only [List.mem_cons, List.not_mem_nil, or_false] at hc
    rcases hc with rfl | rfl
    · exact Command.frames_alter hk
    · exact Command.frames_write hk
  rw [Command.seq_append_run, Command.seq_append_run, hborn]
  refine fun h => spares_expire (Spares.seq ?_ (spares_of_hashes ?_ ?_ ?_ h))
  · intro c hc s
    simp only [registerCommands, List.mem_cons, List.mem_map] at hc
    rcases hc with rfl | ⟨queue, -, rfl⟩
    · exact spares_alter_workers fun workers hmem => RSet.mem_insert.mpr (.inl hmem)
    · exact spares_alter_queue fun workers hmem => RSet.mem_insert.mpr (.inl hmem)
  · exact fun k hk => hframe k (hk _)
  · intro hregistered
    rcases eq_or_ne worker.name other.name with heq | hne
    · rw [heq, hhash]
      intro habsent
      cases congrFun habsent .birth
    · rw [(hframe _ (by simpa using hne)).1]
      exact hregistered
  · intro halive
    rcases eq_or_ne worker.name other.name with heq | hne
    · rw [heq, hhash]
      rfl
    · rw [(hframe _ (by simpa using hne)).1]
      exact halive

lemma harmless_registerBirth (now : DateTime) (time : Time) :
    worker.Harmless (other.registerBirth now time) := by
  unfold registerBirth isActive
  refine Harmless.bind (Harmless.bind (harmless_read _) fun found => ?_) fun active => ?_
  · split
    · exact harmless_read _
    · trivial
  · split
    · trivial
    · rw [Pipeline.command_eq_buffer (by simp), Prog.ret_bind]
      refine Prog.within_bind.mpr (Prog.within_ofExcept.mpr fun mapping hmapping => ?_)
      obtain rfl : other.fields now now = mapping := by
        cases hmapping
        rfl
      refine Prog.within_bind.mpr (Prog.within_ofExcept.mpr fun packing hpacking => ?_)
      have hjoin : packing = fun f => (other.fields now now f).join := by
        unfold packed at hpacking
        split at hpacking <;> cases hpacking
        rfl
      rw [hjoin, Pipeline.command_eq_buffer (by simp), Prog.ret_bind, register_eq (by simp),
        Prog.ret_bind, Pipeline.command_eq_buffer (by simp), Prog.ret_bind]
      simp only [Pipeline.buffer_buffer]
      exact (harmless_execute fun s => spares_birth now time).bind fun _ => trivial

lemma harmless_perform {c : Command RegistrationKey RegistrationValue}
    (hc : ∀ s, Spares worker s (c.run s)) :
    worker.Harmless (Prog.perform c.run : Registering Unit) :=
  Prog.within_perform trivial fun s _ => ⟨trivial, hc s⟩

/-- A heartbeat writes no death. -/
lemma spares_beat {name : WorkerName} (now : DateTime) :
    Spares worker s ((hset name (single .lastHeartbeat (.text (utcformat now)))).run s) :=
  spares_hset fun _ => rfl

lemma harmless_heartbeat (timeout : Option ℤ) (now : DateTime) (time : Time) :
    worker.Harmless (other.heartbeat timeout none now time) := by
  simp only [heartbeat, send, bind_assoc, Prog.pure_eq, Prog.ret_bind]
  exact (harmless_perform fun _ => spares_beat now).bind fun _ =>
    (harmless_perform fun _ => spares_expire).bind fun _ => trivial

/-- What a worker tells about itself contains no death. -/
lemma death_eq_none {mapping : WorkerField → Option (Option PyValue)}
    {packing : WorkerField → Option PyValue} (hmapping : other.serialize = .ok mapping)
    (hpacking : packed mapping = .ok packing) : packing .death = none := by
  unfold serialize at hmapping
  split at hmapping <;> cases hmapping
  unfold packed at hpacking
  split at hpacking <;> cases hpacking
  rfl

lemma harmless_maintainHeartbeats (jobMonitoringInterval : ℤ) (now : DateTime) (time : Time) :
    worker.Harmless (other.maintainHeartbeats jobMonitoringInterval now time) := by
  unfold maintainHeartbeats heartbeat send
  simp only [Pipeline.command_eq_buffer, Pipeline.immediate_empty, Pipeline.immediate_buffer,
    Prog.ret_bind, Prog.pure_eq, Pipeline.buffer_buffer, Option.getD_some, Prog.step_bind]
  refine fun s _ => ⟨⟨trivial, fun h => spares_expire (spares_beat now h)⟩, ?_⟩
  dsimp only
  split
  · refine Prog.within_bind.mpr (Prog.within_ofExcept.mpr fun mapping hmapping => ?_)
    refine Prog.within_bind.mpr (Prog.within_ofExcept.mpr fun packing hpacking => ?_)
    have hspares : ∀ s, Spares worker s ((Command.seq [hset other.name packing]).run s) :=
      fun s h => spares_hset (fun _ => death_eq_none hmapping hpacking) h
    exact (harmless_execute hspares).bind fun _ => trivial
  · trivial

lemma unregisterUnder_eq {key : String} {names : List QueueName} {pipe : RegistrationPipeline}
    (h : pipe.immediate = false) : unregisterUnder key names pipe = .ret (pipe.buffer
      (names.map fun name => .alter (.workersByQueue name) fun (workers : RSet String) =>
        workers.erase key)) := by
  induction names generalizing pipe with
  | nil => simp [unregisterUnder]
  | cons name names ih =>
    rw [unregisterUnder, Pipeline.command_eq_buffer h, Prog.ret_bind, ih (by simpa using h)]
    simp

/-- The commands of a death. -/
def deathCommands (self : BaseWorker Real) (now : DateTime) (time : Time) :
    List (Command RegistrationKey RegistrationValue) :=
  (.alter .workers fun (workers : RSet String) => workers.erase self.key) ::
    ((self.queues.map fun name => .alter (.workersByQueue name) fun (workers : RSet String) =>
      workers.erase self.key) ++
    [hset self.name (single .death (.text (utcformat now))),
      .expire (.worker self.name) (time + 60)])

/-- A death is one transaction. -/
lemma registerDeath_eq (now : DateTime) (time : Time) : other.registerDeath now time =
    .exec false (fun _ => true) (Command.seq (other.deathCommands now time)).run
      fun _ => .ret () := by
  unfold registerDeath unregister
  simp only [Pipeline.command_eq_buffer, Pipeline.immediate_empty, Pipeline.immediate_buffer,
    Prog.ret_bind, Prog.pure_eq, Pipeline.buffer_buffer, Option.getD_some, unregisterUnder_eq]
  simp only [Option.isNone_some, Bool.false_eq_true, if_false, Prog.ret_bind, Option.getD_some,
    Pipeline.command_eq_buffer, Pipeline.immediate_empty, Pipeline.immediate_buffer,
    Pipeline.buffer_buffer]
  rw [Pipeline.execute_of_unwatched (by simp) (by simp)]
  simp [deathCommands]

lemma spares_death (now : DateTime) (time : Time) (hname : other.name ≠ worker.name) :
    Spares worker s ((Command.seq (other.deathCommands now time)).run s) := by
  have hkey : worker.key ≠ other.key := fun h => hname (key_inj.mp h.symm)
  have herase : ∀ workers : RSet String, worker.key ∈ RSet.elems workers →
      worker.key ∈ RSet.elems (workers.erase other.key) :=
    fun workers hmem => RSet.mem_erase.mpr ⟨hmem, hkey⟩
  refine Spares.seq fun c hc s => ?_
  simp only [deathCommands, List.mem_cons, List.mem_append, List.mem_map, List.not_mem_nil,
    or_false] at hc
  rcases hc with rfl | ⟨queue, -, rfl⟩ | rfl | rfl
  · exact spares_alter_workers herase
  · exact spares_alter_queue herase
  · exact spares_hset fun heq => absurd heq hname
  · exact spares_expire

lemma harmless_registerDeath (now : DateTime) (time : Time) (hname : other.name ≠ worker.name) :
    worker.Harmless (other.registerDeath now time) := by
  rw [registerDeath_eq]
  exact ⟨fun _ _ _ => ⟨trivial, spares_death now time hname⟩, fun _ => trivial⟩

/-! ### The programs that may take a worker out -/

/-- While the worker is listed, the steps of the program leave it listed. -/
lemma Harmless.within {α : Type} {p : Registering α} (h : worker.Harmless p) :
    p.Within worker.Listed (fun _ _ => True) fun _ => True := by
  induction p with
  | ret a => trivial
  | throw e => trivial
  | step act next ih => exact fun s hs => ⟨⟨(h s trivial).1.2 hs, trivial⟩, ih s (h s trivial).2⟩
  | exec w g act next ih =>
    exact ⟨fun s hs hg => ⟨(h.1 s trivial hg).2 hs, trivial⟩, fun b => ih b (h.2 b)⟩

lemma Harmless.left {α : Type} {p p' : Registering α} (h : worker.Harmless p) (hl : p.Leaves p') :
    p'.Within worker.Listed (fun _ _ => True) fun _ => True :=
  Harmless.within (Prog.Within.leaves (fun _ h => h) h hl)

lemma Harmless.discard {α : Type} {p : Registering α} (h : worker.Harmless p) :
    worker.Harmless (p >>= fun _ => (pure () : Registering Unit)) :=
  h.bind fun _ => trivial

lemma keyExists_key : WorkerRegistry.keyExists s worker.key =
    decide (s.val (.worker worker.name) ≠ default) := by
  have hworkers : worker.key ≠ "rq:workers" := fun heq => by
    have hlists := congrArg String.toList heq
    simp [key, namespacePrefix] at hlists
  have hqueue :
      WorkerRegistry.workersByQueuePrefix.toList.isPrefixOf worker.key.toList = false := by
    simp [key, namespacePrefix, WorkerRegistry.workersByQueuePrefix]
    rfl
  rw [WorkerRegistry.keyExists, if_neg hworkers, if_neg (by simp [hqueue]), nameOfKey_key]

lemma harmless_removeSubsets {queue : QueueName} {subsets : List (List String)}
    (hkey : worker.key ∉ subsets.flatten) :
    worker.Harmless (WorkerRegistry.removeSubsets queue subsets) := by
  induction subsets with
  | nil => trivial
  | cons invalidSubset subsets ih =>
    rw [List.flatten_cons, List.mem_append, not_or] at hkey
    have herase : ∀ workers : RSet String, worker.key ∈ RSet.elems workers →
        worker.key ∈ RSet.elems (workers.eraseAll invalidSubset) :=
      fun workers hmem => RSet.mem_eraseAll.mpr ⟨hmem, hkey.1⟩
    rw [WorkerRegistry.removeSubsets_cons]
    refine ⟨fun s _ _ => ⟨trivial, ?_⟩, fun _ => ih hkey.2⟩
    exact fun h => spares_alter_workers herase (spares_alter_queue herase h)

/-- A worker that has a hash is not among the invalid keys. -/
lemma within_cleanKeys (queue : QueueName) (keys : List String) :
    (WorkerRegistry.cleanKeys queue keys).Within worker.Listed (fun _ _ => True)
      fun _ => True := by
  rw [WorkerRegistry.cleanKeys_eq]
  refine fun s hs => ⟨⟨hs, trivial⟩, Harmless.within (harmless_removeSubsets ?_)⟩
  have hexists : WorkerRegistry.keyExists s worker.key = true := by
    rw [keyExists_key]
    exact decide_eq_true hs.registered
  rw [WorkerRegistry.flatten_splitList _ (by decide)]
  simp [hexists]

/-- What is left of a clean-up at any time. -/
lemma leaves_cleanWorkerRegistry {queue : QueueName} {p : Registering Unit}
    (h : (WorkerRegistry.cleanWorkerRegistry queue).Leaves p) :
    p = WorkerRegistry.cleanWorkerRegistry queue ∨
      (∃ keys, p = WorkerRegistry.cleanKeys queue keys) ∨
      ∃ subsets, p = WorkerRegistry.removeSubsets queue subsets := by
  refine h.of_advance (C := fun p => p = WorkerRegistry.cleanWorkerRegistry queue ∨
    (∃ keys, p = WorkerRegistry.cleanKeys queue keys) ∨
    ∃ subsets, p = WorkerRegistry.removeSubsets queue subsets) ?_ (.inl rfl)
  rintro p s p' s' (rfl | ⟨keys, rfl⟩ | ⟨subsets, rfl⟩) hadv
  · obtain ⟨rfl, -⟩ := Prod.mk.inj (Option.some.inj hadv)
    exact .inr (.inl ⟨_, rfl⟩)
  · rw [WorkerRegistry.cleanKeys_eq] at hadv
    obtain ⟨rfl, -⟩ := Prod.mk.inj (Option.some.inj hadv)
    exact .inr (.inr ⟨_, rfl⟩)
  · cases subsets with
    | nil => cases hadv
    | cons invalidSubset subsets =>
      rw [WorkerRegistry.removeSubsets_cons] at hadv
      obtain ⟨rfl, -⟩ := Prod.mk.inj (Option.some.inj hadv)
      exact .inr (.inr ⟨subsets, rfl⟩)

/-- A death that is left is there as a whole. -/
lemma leaves_registerDeath {now : DateTime} {time : Time} {p : Registering Unit}
    (h : (other.registerDeath now time).Leaves p) :
    p = other.registerDeath now time ∨ p = .ret () := by
  refine h.of_advance (C := fun p => p = other.registerDeath now time ∨ p = .ret ()) ?_ (.inl rfl)
  rintro p s p' s' (rfl | rfl) hadv
  · rw [registerDeath_eq] at hadv
    obtain ⟨rfl, -⟩ := Prod.mk.inj (Option.some.inj hadv)
    exact .inr rfl
  · cases hadv

lemma harmless_forget {workerKey : String} (hkey : worker.key ≠ workerKey) :
    worker.Harmless (forget workerKey) :=
  (harmless_perform fun _ => spares_alter_workers fun _ hmem =>
    RSet.mem_erase.mpr ⟨hmem, hkey⟩).discard

/-- A process that takes the worker out, alone. -/
lemma not_listed_of_removes {p : Registering Unit} (h : worker.Removes p) (s : RegistrationStore) :
    ¬worker.Listed (p.run s).2 := by
  cases h with
  | cleaning hkey =>
    next queue subsets =>
    obtain ⟨s', hrun, -, hworkers, -⟩ := WorkerRegistry.run_removeSubsets queue subsets s
    rw [hrun]
    intro hlisted
    have hmem := hlisted.workers
    rw [hworkers] at hmem
    exact (RSet.mem_eraseAll.mp hmem).2 hkey
  | finding =>
    intro hlisted
    have hworkers : ((forget worker.key).run s).2.val .workers =
        RSet.erase (s.val .workers) worker.key := by
      show ((Command.alter .workers fun (workers : RSet String) =>
        workers.erase worker.key).run s).val .workers = _
      simp
    have hmem := hlisted.workers
    rw [hworkers] at hmem
    exact (RSet.mem_erase.mp hmem).2 rfl
  | dying hname =>
    next other now time =>
    intro hlisted
    have halive := hlisted.alive
    rw [registerDeath_eq, Prog.run_exec, if_pos rfl, deathCommands, ← List.cons_append,
      Command.seq_append_run, ← hname] at halive
    simp [hset, single] at halive

/-! ### Searches and expiries -/

variable [Zero Real]

/-- What `find_by_key` does with the key of a worker. -/
lemma find_eq {float : ByteArray → Except PyError Real} {process : ProcessInfo} {workerKey : String}
    {name kept : WorkerName} (hname : nameOfKey workerKey = .ok name) :
    (Chore.find float process workerKey).program kept = .step id fun s =>
      if s.val (.worker name) ≠ default then do
        let _ ← refresh float process (new process [] name false)
        return ()
      else forget workerKey := by
  simp only [Chore.program, findByKey, hname, Prog.ofExcept_ok, Prog.ret_bind, Prog.read,
    Prog.step_bind, decide_eq_true_eq]
  refine congrArg (Prog.step id) (funext fun s => ?_)
  split
  · rw [bind_assoc]
    rfl
  · rfl

lemma harmless_refresh (float : ByteArray → Except PyError Real) (process : ProcessInfo) :
    worker.Harmless (other.refresh float process) := by
  refine (harmless_read _).bind fun rawData => ?_
  split
  · trivial
  · exact harmless_ofExcept _

/-- What is left of a search at any time. -/
lemma leaves_find (worker : BaseWorker Real) {float : ByteArray → Except PyError Real}
    {process : ProcessInfo} {workerKey : String} {kept : WorkerName} {p : Registering Unit}
    (h : ((Chore.find float process workerKey).program kept).Leaves p) :
    p = (Chore.find float process workerKey).program kept ∨ p = forget workerKey ∨
      worker.Harmless p := by
  refine h.of_advance (C := fun p => p = (Chore.find float process workerKey).program kept ∨
    p = forget workerKey ∨ worker.Harmless p) ?_ (.inl rfl)
  rintro p s p' s' (rfl | rfl | hp) hadv
  · cases hname : nameOfKey workerKey with
    | error e =>
      rw [Chore.program, findByKey, hname] at hadv
      cases hadv
    | ok name =>
      rw [find_eq hname] at hadv
      obtain ⟨rfl, -⟩ := Prod.mk.inj (Option.some.inj hadv)
      dsimp only
      split
      · exact .inr (.inr (harmless_refresh float process).discard)
      · exact .inr (.inl rfl)
  · cases hadv
    exact .inr (.inr trivial)
  · exact .inr (.inr (hp.advance (fun _ h => h) trivial hadv).2.2)

/-- The key of a worker that has a hash is not forgotten. -/
lemma within_find {float : ByteArray → Except PyError Real} {process : ProcessInfo}
    {workerKey : String} {kept : WorkerName} :
    ((Chore.find float process workerKey).program kept).Within worker.Listed (fun _ _ => True)
      fun _ => True := by
  cases hname : nameOfKey workerKey with
  | error e =>
    rw [Chore.program, findByKey, hname]
    trivial
  | ok name =>
    rw [find_eq hname]
    refine fun s hs => ⟨⟨hs, trivial⟩, ?_⟩
    dsimp only
    split
    · exact (harmless_refresh float process).discard.within
    · next habsent =>
      refine (harmless_forget fun hkey => habsent ?_).within
      rw [← hkey, nameOfKey_key] at hname
      obtain rfl := Except.ok.inj hname
      exact hs.registered

lemma harmless_expire (now : Time) : worker.Harmless ((Chore.expire now : Chore Real).program
    worker.name) := by
  refine ⟨fun s _ hkept => ⟨trivial, fun h => ?_⟩, fun _ => trivial⟩
  have hkept : ¬s.Expired now (.worker worker.name) := by simpa using hkept
  have hworkers : ¬s.Expired now .workers := by simp [KeyStore.Expired, h.persistent]
  have hqueues : ∀ name, ¬s.Expired now (.workersByQueue name) := fun name => by
    simp [KeyStore.Expired, h.queuesPersistent name]
  constructor <;> simp only [KeyStore.expireAt, hkept, hworkers, hqueues, if_false]
  · exact h.registered
  · exact h.alive
  · exact h.workers
  · exact h.queues
  · exact h.persistent
  · exact h.queuesPersistent

/-! ### Every interleaving -/

/-- Wherever a process is, it leaves the worker listed, or it takes it out next. -/
lemma within_or_removes {chore : Chore Real} {p : Registering Unit}
    (h : (chore.program worker.name).Leaves p) :
    p.Within worker.Listed (fun _ _ => True) (fun _ => True) ∨ worker.Removes p := by
  cases chore with
  | birth other now time => exact .inl ((harmless_registerBirth now time).discard.left h)
  | death other now time =>
    by_cases hname : other.name = worker.name
    · rcases leaves_registerDeath h with rfl | rfl
      · exact .inr (.dying hname)
      · exact .inl trivial
    · exact .inl ((harmless_registerDeath now time hname).left h)
  | heartbeat other timeout now time =>
    exact .inl ((harmless_heartbeat timeout now time).discard.left h)
  | maintain other jobMonitoringInterval now time =>
    exact .inl ((harmless_maintainHeartbeats jobMonitoringInterval now time).discard.left h)
  | find float process workerKey =>
    rcases leaves_find worker h with rfl | rfl | hp
    · exact .inl within_find
    · by_cases hkey : worker.key = workerKey
      · exact .inr (hkey ▸ .finding)
      · exact .inl (harmless_forget hkey).within
    · exact .inl hp.within
  | clean queue =>
    rcases leaves_cleanWorkerRegistry h with rfl | ⟨keys, rfl⟩ | ⟨subsets, rfl⟩
    · exact .inl fun s hs => ⟨⟨hs, trivial⟩, within_cleanKeys queue _⟩
    · exact .inl (within_cleanKeys queue keys)
    · by_cases hkey : worker.key ∈ subsets.flatten
      · exact .inr (.cleaning hkey)
      · exact .inl (harmless_removeSubsets hkey).within
  | expire now => exact .inl ((harmless_expire now).left h)

/-- **A worker stays listed.** Any number of processes are somewhere in the course of registering
births and deaths, heartbeats, searches, clean-ups and expiries, and may start more. A worker whose
hash does not expire stays listed in all interleavings just if no process has already found it
missing, and is about to take its key out, and none registers a death under its name. -/
theorem listed_iff {ι : Type} [DecidableEq ι] {P : System ι RegistrationStore PyError}
    (hprocs : ∀ i, ∃ chore : Chore Real, (chore.program worker.name).Leaves (P.procs i))
    (hlisted : worker.Listed P.store) :
    (∀ P', P.Reaches P' → worker.Listed P'.store) ↔ ∀ i, ¬worker.Removes (P.procs i) := by
  constructor
  · intro hstays i hremoves
    obtain ⟨P', hreaches, hstore⟩ := P.exists_reaches_run i
    exact not_listed_of_removes hremoves P.store (hstore ▸ hstays P' hreaches)
  · intro hnone P' hreaches
    refine hreaches.of_within (fun i => ?_) hlisted
    obtain ⟨chore, hleaves⟩ := hprocs i
    exact (within_or_removes hleaves).resolve_right (hnone i)

/-- A key that is in both sets, with this hash. -/
def listedStore (workerKey : String) (hash : RawWorkerHash) : RegistrationStore where
  val
    | .workers => RSet.insert ∅ workerKey
    | .workersByQueue _ => RSet.insert ∅ workerKey
    | .worker _ => hash
  ver _ := 0
  exp _ := none

lemma listed_listedStore : (listeningOn ["high"]).Listed
    (listedStore "rq:worker:w" fun f => if f = .birth then some .empty else none) where
  registered := fun h => by cases congrFun h .birth
  alive := rfl
  workers := show (listeningOn ["high"]).key ∈ ["rq:worker:w"] by decide
  queues := fun _ _ => show (listeningOn ["high"]).key ∈ ["rq:worker:w"] by decide
  persistent := rfl
  queuesPersistent := fun _ => rfl

/-- A clean-up has tested the key before the birth of the worker, and removes it now. -/
theorem listed_iff_lateRemoval : ¬∀ P', System.Reaches
    ⟨fun _ : ℕ => WorkerRegistry.removeSubsets "high" [["rq:worker:w"]],
      listedStore "rq:worker:w" fun f => if f = .birth then some .empty else none⟩ P' →
    (listeningOn ["high"]).Listed P'.store := by
  intro hstays
  have hleaves : (Chore.program "w" (.clean "high" : Chore ℤ)).Leaves
      (WorkerRegistry.removeSubsets "high" [["rq:worker:w"]]) := by
    -- the key is in the sets, and there is no hash
    let s := listedStore "rq:worker:w" default
    have htest : (WorkerRegistry.cleanKeys "high" ["rq:worker:w"]).advance s =
        some (WorkerRegistry.removeSubsets "high" [["rq:worker:w"]], s) := by
      rw [WorkerRegistry.cleanKeys_eq]
      have hinvalid : ["rq:worker:w"].filter (fun key => !WorkerRegistry.keyExists s key) =
          ["rq:worker:w"] := by decide
      rw [Prog.advance, hinvalid]
      rfl
    exact .head ⟨s, s, rfl⟩ (.single ⟨s, s, htest⟩)
  exact (listed_iff (fun _ => ⟨_, hleaves⟩) listed_listedStore).mp hstays 0 (.cleaning (by decide))

end BaseWorker

end RedisQueue
