import RedisQueue.Dequeueing
import RedisQueue.HashRoundTrip

/-!
# The registration of workers

A worker writes itself to the hash `rq:worker:<name>` when it starts, and other processes make a
worker from that hash (`rq/worker/base.py`, `rq/worker_registration.py`). The work horse of a
`SpawnWorker` is such a process.

* `BaseWorker.registerBirth`, `BaseWorker.findByKey`: writing and reading the hash;
* `BaseWorker.refreshedAttributes_registered`: what is read of a worker that has just been
  registered;
* `BaseWorker.queues_survive_iff`: when the names of its queues come back as they were.

The names are joined by commas, and a name may contain one.
-/

namespace RedisQueue

/-! ## The database -/

/-- The fields of the hash `rq:worker:<name>`. -/
inductive WorkerField where
  | birth | lastHeartbeat | queues | pid | hostname | ipAddress | version | pythonVersion
  | state | currentJob | failedJobCount | successfulJobCount | totalWorkingTime
  | currentJobWorkingTime | death
deriving DecidableEq, Repr

def WorkerField.all : List WorkerField :=
  [.birth, .lastHeartbeat, .queues, .pid, .hostname, .ipAddress, .version, .pythonVersion, .state,
    .currentJob, .failedJobCount, .successfulJobCount, .totalWorkingTime, .currentJobWorkingTime,
    .death]

lemma WorkerField.mem_all (f : WorkerField) : f ∈ WorkerField.all := by
  cases f <;> decide

abbrev RawWorkerHash := WorkerField → Option ByteArray

instance : DecidableEq RawWorkerHash := fun h h' =>
  decidable_of_iff (∀ f ∈ WorkerField.all, h f = h' f)
    ⟨fun heq => funext fun f => heq f f.mem_all, fun heq _ _ => heq ▸ rfl⟩

inductive RegistrationKey where
  /-- `rq:workers` -/
  | workers
  /-- `rq:workers:<queue name>` -/
  | workersByQueue (name : QueueName)
  /-- `rq:worker:<name>` -/
  | worker (name : WorkerName)
deriving DecidableEq, Repr

@[reducible] def RegistrationValue : RegistrationKey → Type
  | .workers => RSet String
  | .workersByQueue _ => RSet String
  | .worker _ => RawWorkerHash

instance RegistrationValue.decidableEq : (k : RegistrationKey) → DecidableEq (RegistrationValue k)
  | .workers => inferInstanceAs (DecidableEq (RSet String))
  | .workersByQueue _ => inferInstanceAs (DecidableEq (RSet String))
  | .worker _ => inferInstanceAs (DecidableEq RawWorkerHash)

instance RegistrationValue.inhabited : (k : RegistrationKey) → Inhabited (RegistrationValue k)
  | .workers => inferInstanceAs (Inhabited (RSet String))
  | .workersByQueue _ => inferInstanceAs (Inhabited (RSet String))
  | .worker _ => ⟨fun _ => none⟩

/-- The database. A hash without fields does not exist. -/
abbrev RegistrationStore := KeyStore RegistrationKey RegistrationValue

def RegistrationStore.empty : RegistrationStore where
  val _ := default
  ver _ := 0
  exp _ := none

abbrev RegistrationPipeline := Pipeline RegistrationKey RegistrationValue

/-- A program that talks to that database. -/
abbrev Registering (α : Type) := Prog RegistrationStore PyError α

/-! ## Worker objects -/

/-- What a process knows about itself. -/
structure ProcessInfo where
  hostname : String
  pid : ℤ
  /-- The address of the connection, or `unknown`. -/
  ipAddress : String
  /-- `VERSION` -/
  version : String
  /-- `sys.version` -/
  pythonVersion : String

/-- A worker object, with what it registers. `Real` are the floating point numbers. -/
structure BaseWorker (Real : Type) where
  name : WorkerName
  queues : List QueueName
  hostname : Option String
  pid : Option ℤ
  ipAddress : Option String
  version : String
  pythonVersion : String
  workerTtl : ℤ := 420
  state : String := "starting"
  jobId : Option JobId := none
  birthDate : Option DateTime := none
  lastHeartbeat : Option DateTime := none
  failedJobCount : ℤ := 0
  successfulJobCount : ℤ := 0
  totalWorkingTime : Real
  currentJobWorkingTime : Real

variable {Real : Type} [Zero Real]

namespace BaseWorker

/-- `BaseWorker.__init__` -/
def new (process : ProcessInfo) (queues : List QueueName) (name : WorkerName)
    (prepareForWork : Bool) : BaseWorker Real where
  name := name
  queues := queues
  hostname := if prepareForWork then some process.hostname else none
  pid := if prepareForWork then some process.pid else none
  ipAddress := if prepareForWork then some process.ipAddress else some "unknown"
  version := process.version
  pythonVersion := process.pythonVersion
  totalWorkingTime := 0
  currentJobWorkingTime := 0

/-- `redis_worker_namespace_prefix` -/
def namespacePrefix : String := "rq:worker:"

/-- `BaseWorker.key` -/
def key (self : BaseWorker Real) : String := namespacePrefix ++ self.name

/-! ### Writing -/

/-- `','.join(self.queue_names())` -/
def joinedQueues (self : BaseWorker Real) : String := String.intercalate "," self.queues

/-- The dictionary that `serialize` returns. The outer `Option` tells the fields that are in it, the
inner one is `None`. -/
def fields (self : BaseWorker Real) (birthDate lastHeartbeat : DateTime) :
    WorkerField → Option (Option PyValue)
  | .birth => some (some (.text (utcformat birthDate)))
  | .lastHeartbeat => some (some (.text (utcformat lastHeartbeat)))
  | .queues => some (some (.text self.joinedQueues))
  | .pid => some (self.pid.map .int)
  | .hostname => some (self.hostname.map .text)
  | .ipAddress => some (self.ipAddress.map .text)
  | .version => some (some (.text self.version))
  | .pythonVersion => some (some (.text self.pythonVersion))
  | _ => none

/-- `BaseWorker.serialize` -/
def serialize (self : BaseWorker Real) :
    Except PyError (WorkerField → Option (Option PyValue)) :=
  match self.birthDate, self.lastHeartbeat with
  | some birthDate, some lastHeartbeat => .ok (self.fields birthDate lastHeartbeat)
  | _, _ => .error .assertionError

/-- The client encodes no `None`. -/
def packed (mapping : WorkerField → Option (Option PyValue)) :
    Except PyError (WorkerField → Option PyValue) :=
  if ∀ f ∈ WorkerField.all, (mapping f).map Option.isSome ≠ some false then
    .ok fun f => (mapping f).join
  else .error (.redisError ("Invalid input of type: 'NoneType'. " ++
    "Convert to a bytes, string, int or float first."))

/-- `HSET` -/
def hset (name : WorkerName) (mapping : WorkerField → Option PyValue) :
    Command RegistrationKey RegistrationValue :=
  .write (.worker name) fun h f => (mapping f).map encode <|> h f

/-- The `SADD`s of `worker_registration.register` under the names of the queues. -/
def registerUnder (key : String) : List QueueName → RegistrationPipeline →
    Registering RegistrationPipeline
  | [], pipe => return pipe
  | name :: names, pipe => do
    let pipe ← pipe.command (.alter (.workersByQueue name) fun (workers : RSet String) =>
      workers.insert key)
    registerUnder key names pipe

/-- `worker_registration.register` on a pipeline -/
def register (self : BaseWorker Real) (pipe : RegistrationPipeline) :
    Registering RegistrationPipeline := do
  let pipe ← pipe.command (.alter .workers fun (workers : RSet String) => workers.insert self.key)
  registerUnder self.key self.queues pipe

/-- `self.birth_date = self.last_heartbeat = now()` -/
def born (self : BaseWorker Real) (now : DateTime) : BaseWorker Real :=
  { self with birthDate := some now, lastHeartbeat := some now }

/-- `exists(key) and not hexists(key, 'death')` -/
def isActive (name : WorkerName) : Registering Bool := do
  let found ← Prog.read fun s => decide (s.val (.worker name) ≠ default)
  if found then Prog.read fun s => (s.val (.worker name) .death).isNone
  else return false

/-- `BaseWorker.register_birth` at `now`, when the clock of the server shows `time`. -/
def registerBirth (self : BaseWorker Real) (now : DateTime) (time : Time) :
    Registering (BaseWorker Real) := do
  let active ← isActive self.name
  if active then
    .throw (.valueError s!"There exists an active worker named '{self.name}' already")
  else do
    let pipeline ← ({} : RegistrationPipeline).command (.del (.worker self.name))
    let self := self.born now
    let mapping ← Prog.ofExcept self.serialize
    -- the commands are encoded when the pipeline is executed, before any of them is sent
    let mapping ← Prog.ofExcept (packed mapping)
    let pipeline ← pipeline.command (hset self.name mapping)
    let pipeline ← self.register pipeline
    let pipeline ← pipeline.command (.expire (.worker self.name) (time + (self.workerTtl + 60)))
    let _ ← pipeline.execute
    return self

/-! ### Reading -/

/-- `decode_redis_hash(raw_data, decode_values=True)` -/
def decodeRedisHash (rawData : RawWorkerHash) : Except PyError Unit :=
  if ∀ f ∈ WorkerField.all, ((rawData f).all fun v => (decode v).isOk) = true then .ok ()
  else .error (.valueError "invalid utf-8")

/-- `split(',')` -/
def splitNames (text : String) : List QueueName := (text.toList.splitOn ',').map String.ofList

/-- `data['queues'].split(',')` -/
def readQueues (v : ByteArray) : Except PyError (List QueueName) := splitNames <$> decode v

/-- `BaseWorker.refresh`: every attribute but the queues. `float` reads a floating point number. -/
def refreshedAttributes (float : ByteArray → Except PyError Real) (process : ProcessInfo)
    (data : RawWorkerHash) (self : BaseWorker Real) : Except PyError (BaseWorker Real) := do
  let hostname ← readIf decode (truthy (data .hostname))
  let ipAddress ← readIf decode (truthy (data .ipAddress))
  let pid ← readIf parseInt (truthy (data .pid))
  let version ← readIf decode (truthy (data .version))
  let pythonVersion ← readIf decode (truthy (data .pythonVersion))
  let state ← readIf decode (data .state)
  let jobId ← readIf decode (data .currentJob)
  let lastHeartbeat ← readIf strToDate (truthy (data .lastHeartbeat))
  let birthDate ← readIf strToDate (truthy (data .birth))
  let failedJobCount ← readIf parseInt (truthy (data .failedJobCount))
  let successfulJobCount ← readIf parseInt (truthy (data .successfulJobCount))
  let totalWorkingTime ← readIf float (truthy (data .totalWorkingTime))
  let currentJobWorkingTime ← readIf float (truthy (data .currentJobWorkingTime))
  return { self with
    hostname := hostname
    ipAddress := ipAddress
    pid := pid
    version := version.getD process.version
    pythonVersion := pythonVersion.getD process.pythonVersion
    state := state.getD "?"
    jobId := jobId
    lastHeartbeat := lastHeartbeat
    birthDate := birthDate
    failedJobCount := failedJobCount.getD 0
    successfulJobCount := successfulJobCount.getD 0
    totalWorkingTime := totalWorkingTime.getD 0
    currentJobWorkingTime := currentJobWorkingTime.getD 0 }

/-- `BaseWorker.refresh`: the queues. Without any in the hash the worker keeps those it has. -/
def refreshedQueues (data : RawWorkerHash) (self : BaseWorker Real) :
    Except PyError (BaseWorker Real) := do
  let queues ← readIf readQueues (truthy (data .queues))
  return { self with queues := queues.getD self.queues }

/-- What `BaseWorker.refresh` makes of a hash. -/
def refreshed (float : ByteArray → Except PyError Real) (process : ProcessInfo)
    (data : RawWorkerHash) (self : BaseWorker Real) : Except PyError (BaseWorker Real) := do
  let _ ← decodeRedisHash data
  let self ← refreshedAttributes float process data self
  refreshedQueues data self

/-- `BaseWorker.refresh` -/
def refresh (float : ByteArray → Except PyError Real) (process : ProcessInfo)
    (self : BaseWorker Real) : Registering (BaseWorker Real) := do
  let rawData ← Prog.read fun s => s.val (.worker self.name)
  if rawData = default then return self
  else Prog.ofExcept (refreshed float process rawData self)

/-- The name in a key of a worker. -/
def nameOfKey (workerKey : String) : Except PyError WorkerName :=
  if namespacePrefix.toList.isPrefixOf workerKey.toList then
    .ok (String.ofList (workerKey.toList.drop namespacePrefix.toList.length))
  else .error (.valueError s!"Not a valid RQ worker key: {workerKey}")

/-- `BaseWorker.find_by_key` -/
def findByKey (float : ByteArray → Except PyError Real) (process : ProcessInfo)
    (workerKey : String) : Registering (Option (BaseWorker Real)) := do
  let name ← Prog.ofExcept (nameOfKey workerKey)
  let found ← Prog.read fun s => decide (s.val (.worker name) ≠ default)
  if found then do
    let worker ← refresh float process (new process [] name false)
    return some worker
  else do
    Prog.perform (Command.alter .workers fun (workers : RSet String) => workers.erase workerKey).run
    return none

/-! ## What is read of what is written -/

variable {self : BaseWorker Real} {s s' : RegistrationStore} {now : DateTime} {time : Time}
  {process : ProcessInfo} {float : ByteArray → Except PyError Real}

omit [Zero Real] in
/-- The names of the queues, joined and taken apart. -/
lemma splitNames_joinedQueues (hqueues : self.queues ≠ []) :
    splitNames self.joinedQueues = self.queues ↔ ∀ name ∈ self.queues, ',' ∉ name.toList := by
  have hlists : self.queues.map String.toList ≠ [] := by simpa using hqueues
  have hsplit := Text.splitOn_intercalate_iff ',' hlists
  have hjoined : self.joinedQueues.toList = [','].intercalate (self.queues.map String.toList) := by
    simp [joinedQueues]
  rw [splitNames, hjoined]
  have hnames : (self.queues.map String.toList).map String.ofList = self.queues := by
    simp
  constructor
  · intro h name hname
    refine hsplit.mp ?_ _ (List.mem_map_of_mem hname)
    have htexts := congrArg (List.map String.toList) h
    simpa using htexts
  · intro h
    rw [hsplit.mpr (by simpa using h), hnames]

/-! ### The hash after a birth -/

/-- The worker has been prepared for work. -/
structure Prepared (worker : BaseWorker Real) : Prop where
  hostname : worker.hostname.isSome = true
  pid : worker.pid.isSome = true
  ipAddress : worker.ipAddress.isSome = true

/-- No worker of that name is alive. -/
def Free (s : RegistrationStore) (name : WorkerName) : Prop :=
  s.val (.worker name) = default ∨ (s.val (.worker name) .death).isSome = true

/-- The hash after `register_birth`. -/
def registeredHash (self : BaseWorker Real) (now : DateTime) : RawWorkerHash := fun f =>
  (self.fields now now f).join.map encode

omit [Zero Real] in
lemma packed_fields (h : self.Prepared) :
    packed (self.fields now now) = .ok fun f => (self.fields now now f).join := by
  refine if_pos fun f _ => ?_
  cases f <;> simp [fields, h.hostname, h.pid, h.ipAddress]

/-- The commands of `worker_registration.register`. -/
def registerCommands (self : BaseWorker Real) : List (Command RegistrationKey RegistrationValue) :=
  .alter .workers (fun (workers : RSet String) => workers.insert self.key) ::
    self.queues.map fun name =>
      .alter (.workersByQueue name) fun (workers : RSet String) => workers.insert self.key

lemma registerUnder_eq {key : String} {names : List QueueName} {pipe : RegistrationPipeline}
    (h : pipe.immediate = false) : registerUnder key names pipe = .ret (pipe.buffer
      (names.map fun name => .alter (.workersByQueue name) fun (workers : RSet String) =>
        workers.insert key)) := by
  induction names generalizing pipe with
  | nil => simp [registerUnder]
  | cons name names ih =>
    rw [registerUnder, Pipeline.command_eq_buffer h, Prog.ret_bind, ih (by simpa using h)]
    simp

omit [Zero Real] in
lemma register_eq {pipe : RegistrationPipeline} (h : pipe.immediate = false) :
    self.register pipe = .ret (pipe.buffer self.registerCommands) := by
  rw [register, Pipeline.command_eq_buffer h, Prog.ret_bind, registerUnder_eq (by simpa using h)]
  simp [registerCommands]

omit [Zero Real] in
/-- Registering leaves the hashes of the workers alone. -/
lemma keeps_registerCommands (self : BaseWorker Real) (name : WorkerName) :
    (Command.seq self.registerCommands).Keeps (.worker name) := by
  apply Command.keeps_seq
  intro c hc
  simp only [registerCommands, List.mem_cons, List.mem_map] at hc
  rcases hc with rfl | ⟨queue, -, rfl⟩
  · exact Command.keeps_alter (by simp)
  · exact Command.keeps_alter (by simp)

lemma run_isActive {name : WorkerName} (hfree : Free s name) :
    (isActive name).run s = (.ok false, s) := by
  rw [isActive, Prog.run_bind_ok (Prog.run_read _ _)]
  rcases hfree with habsent | hdead
  · simp [habsent]
  · split
    · simpa using hdead
    · rfl

omit [Zero Real] in
/-- The birth of a worker under a free name. -/
lemma run_registerBirth (now : DateTime) (time : Time) (h : self.Prepared)
    (hfree : Free s self.name) :
    ∃ s', (self.registerBirth now time).run s = (.ok (self.born now), s') ∧
      s'.val (.worker self.name) = self.registeredHash now := by
  refine ⟨(Command.seq ([.del (.worker self.name),
      hset self.name fun f => (self.fields now now f).join] ++ self.registerCommands ++
      [.expire (.worker self.name) (time + (self.workerTtl + 60))])).run s, ?_, ?_⟩
  · have hpipe := Pipeline.run_execute_of_unwatched (ε := PyError)
      (p := (({} : RegistrationPipeline).buffer ([.del (.worker self.name),
        hset self.name fun f => (self.fields now now f).join] ++ self.registerCommands ++
        [.expire (.worker self.name) (time + (self.workerTtl + 60))]))) rfl s
    have hserialize : (self.born now).serialize = .ok (self.fields now now) := rfl
    have hname : (self.born now).name = self.name := rfl
    have hregister : (self.born now).registerCommands = self.registerCommands := rfl
    rw [registerBirth, Prog.run_bind_ok (run_isActive hfree), if_neg Bool.false_ne_true]
    simp only [hserialize, Prog.ofExcept_ok, Prog.ret_bind, packed_fields h,
      Pipeline.command_eq_buffer, Pipeline.immediate_empty, Pipeline.immediate_buffer,
      Pipeline.buffer_buffer, register_eq, hregister, hname]
    exact Prog.run_bind_ok hpipe
  · have hregister := keeps_registerCommands self self.name
    rw [Command.seq_append_run, Command.seq_append_run, Command.seq_cons_run, Command.seq_nil_run,
      Command.val_expire, hregister, Command.seq_cons_run, Command.seq_cons_run,
      Command.seq_nil_run, hset, Command.val_write, Function.update_self, Command.val_del,
      Function.update_self]
    funext f
    -- what was in the hash before has been deleted
    show ((self.fields now now f).join.map encode <|> none) = _
    cases hfield : (self.fields now now f).join <;> simp [registeredHash, hfield]

/-! ### The worker that is found -/

omit [Zero Real] in
/-- Everything in the hash is a text. -/
lemma registeredHash_text {f : WorkerField} {v : ByteArray}
    (h : self.registeredHash now f = some v) : ∃ text, v = encode (.text text) := by
  obtain ⟨value, hvalue, rfl⟩ := Option.map_eq_some_iff.mp h
  cases value with
  | text text => exact ⟨text, rfl⟩
  | int n => exact ⟨intText n, rfl⟩
  | bytes b =>
    exfalso
    revert hvalue
    cases f <;> simp [fields]

omit [Zero Real] in
lemma decodeRedisHash_registered : decodeRedisHash (self.registeredHash now) = .ok () := by
  refine if_pos fun f _ => ?_
  rw [Option.all_eq_true]
  intro v hv
  obtain ⟨text, rfl⟩ := registeredHash_text hv
  rw [decode_encode]
  rfl

omit [Zero Real] in
lemma readIf_queues : readIf readQueues (truthy (self.registeredHash now .queues)) =
    .ok (if self.joinedQueues = "" then none else some (splitNames self.joinedQueues)) := by
  show readIf readQueues (truthy (some (encode (.text self.joinedQueues)))) = _
  split
  · next h =>
    rw [h]
    rfl
  · next h =>
    rw [truthy_some (mt encode_text_eq_empty.mp h)]
    simp [readIf, readQueues]

omit [Zero Real] in
lemma readIf_pid : readIf parseInt (truthy (self.registeredHash now .pid)) = .ok self.pid := by
  show readIf parseInt (truthy ((self.pid.map PyValue.int).map encode)) = _
  exact readIf_truthy_map parseInt_encode encode_int_ne_empty self.pid

/-- The attributes of a worker that has just been registered. The empty text counts as `None`. -/
lemma refreshedAttributes_registered (worker : BaseWorker Real) :
    refreshedAttributes float process (self.registeredHash now) worker = .ok { worker with
      hostname := self.hostname.filter (· ≠ "")
      ipAddress := self.ipAddress.filter (· ≠ "")
      pid := self.pid
      version := if self.version = "" then process.version else self.version
      pythonVersion := if self.pythonVersion = "" then process.pythonVersion else self.pythonVersion
      state := "?"
      jobId := none
      lastHeartbeat := some now
      birthDate := some now
      failedJobCount := 0
      successfulJobCount := 0
      totalWorkingTime := 0
      currentJobWorkingTime := 0 } := by
  have hhostname : readIf decode (truthy (self.registeredHash now .hostname)) = _ :=
    readIf_text_map self.hostname
  have hipAddress : readIf decode (truthy (self.registeredHash now .ipAddress)) = _ :=
    readIf_text_map self.ipAddress
  have hversion : readIf decode (truthy (self.registeredHash now .version)) = _ :=
    readIf_text self.version
  have hpythonVersion : readIf decode (truthy (self.registeredHash now .pythonVersion)) = _ :=
    readIf_text self.pythonVersion
  have hlastHeartbeat : readIf strToDate (truthy (self.registeredHash now .lastHeartbeat)) = _ :=
    readIf_timeOrEmpty (some now)
  have hbirth : readIf strToDate (truthy (self.registeredHash now .birth)) = _ :=
    readIf_timeOrEmpty (some now)
  have hgetD : ∀ text default : String, (if text = "" then none else some text).getD default =
      if text = "" then default else text := by
    intro text default
    split <;> rfl
  unfold refreshedAttributes
  rw [hhostname, Except.ok_bind, hipAddress, Except.ok_bind, readIf_pid, Except.ok_bind, hversion,
    Except.ok_bind, hpythonVersion, Except.ok_bind]
  -- neither `state` nor `current_job` is in the hash, and no count and no time below
  show (readIf strToDate (truthy (self.registeredHash now .lastHeartbeat)) >>= _) = _
  rw [hlastHeartbeat, Except.ok_bind, hbirth, Except.ok_bind]
  simp only [hgetD]
  rfl

omit [Zero Real] in
/-- The queues are split at every comma. -/
lemma refreshedQueues_eq {data : RawWorkerHash} (worker : BaseWorker Real)
    (hdata : data .queues = self.registeredHash now .queues) (hjoined : self.joinedQueues ≠ "") :
    refreshedQueues data worker = .ok { worker with queues := splitNames self.joinedQueues } := by
  unfold refreshedQueues
  rw [hdata, readIf_queues, if_neg hjoined]
  rfl

/-- What is read of a worker that has just been registered. -/
lemma exists_refreshed_registered (self worker : BaseWorker Real) (now : DateTime)
    (float : ByteArray → Except PyError Real) (process : ProcessInfo)
    (hjoined : self.joinedQueues ≠ "") :
    ∃ horse, refreshed float process (self.registeredHash now) worker = .ok horse := by
  unfold refreshed
  rw [decodeRedisHash_registered, Except.ok_bind, refreshedAttributes_registered, Except.ok_bind,
    refreshedQueues_eq _ rfl hjoined]
  exact ⟨_, rfl⟩

/-- Whatever has become of the other fields, the queues are those that have been written. -/
lemma queues_refreshed {data : RawWorkerHash} {worker horse : BaseWorker Real}
    (hdata : data .queues = self.registeredHash now .queues) (hjoined : self.joinedQueues ≠ "")
    (h : refreshed float process data worker = .ok horse) :
    horse.queues = splitNames self.joinedQueues := by
  unfold refreshed at h
  cases hdecode : decodeRedisHash data with
  | error e =>
    rw [hdecode, Except.error_bind] at h
    cases h
  | ok u =>
    rw [hdecode, Except.ok_bind] at h
    cases hattributes : refreshedAttributes float process data worker with
    | error e =>
      rw [hattributes, Except.error_bind] at h
      cases h
    | ok worker' =>
      rw [hattributes, Except.ok_bind, refreshedQueues_eq worker' hdata hjoined] at h
      cases h
      rfl

/-! ### The worker that is found -/

omit [Zero Real] in
lemma nameOfKey_key : nameOfKey self.key = .ok self.name := by
  simp [nameOfKey, key]

omit [Zero Real] in
/-- Names that are not empty are not joined to the empty text. -/
lemma joinedQueues_ne_empty (hqueues : self.queues ≠ [])
    (hnonempty : ∀ name ∈ self.queues, name ≠ "") : self.joinedQueues ≠ "" := by
  intro hempty
  have hlist := congrArg String.toList hempty
  cases hnames : self.queues with
  | nil => exact hqueues hnames
  | cons name names =>
    have hname : name ≠ "" := hnonempty name (by simp [hnames])
    cases names with
    | nil => exact hname (by simpa [joinedQueues, hnames] using hlist)
    | cons name' names =>
      -- there is a comma
      simp [joinedQueues, hnames] at hlist

/-- The hash of the worker still has the queues. -/
def KeepsQueues (name : WorkerName) (s s' : RegistrationStore) : Prop :=
  s'.val (.worker name) .queues = s.val (.worker name) .queues

/-- A worker that exists is made from its hash. -/
lemma run_findByKey (hfound : s.val (.worker self.name) ≠ default) :
    (findByKey float process self.key).run s =
      ((refreshed float process (s.val (.worker self.name)) (new process [] self.name false)).map
        some, s) := by
  have hname : (new process [] self.name false : BaseWorker Real).name = self.name := rfl
  rw [findByKey, nameOfKey_key, Prog.ofExcept_ok, Prog.ret_bind,
    Prog.run_bind_ok (Prog.run_read _ _), if_pos (decide_eq_true hfound), refresh, bind_assoc,
    Prog.run_bind_ok (Prog.run_read _ _), hname, if_neg hfound]
  cases hworker : refreshed float process (s.val (.worker self.name))
      (new process [] self.name false) with
  | error e => rfl
  | ok worker => rfl

/-- A worker that has just been registered is found. -/
lemma run_findByKey_registered (float : ByteArray → Except PyError Real) (process : ProcessInfo)
    (hhash : s.val (.worker self.name) = self.registeredHash now)
    (hjoined : self.joinedQueues ≠ "") :
    ∃ horse, (findByKey float process self.key).run s = (.ok (some horse), s) ∧
      horse.queues = splitNames self.joinedQueues := by
  have hfound : s.val (.worker self.name) ≠ default := fun habsent => by
    have hnone := congrFun (hhash.symm.trans habsent) .queues
    cases hnone
  obtain ⟨horse, hhorse⟩ := exists_refreshed_registered self (new process [] self.name false) now
    float process hjoined
  refine ⟨horse, ?_, queues_refreshed rfl hjoined hhorse⟩
  rw [run_findByKey hfound, hhash, hhorse]
  rfl

/-- The worker that another process finds serves the same queues. With several queues it removes
nothing from the intermediate queue, and a parent with several queues has moved nothing there. -/
structure Agrees (parent horse : BaseWorker Real) : Prop where
  queues : horse.queues = parent.queues
  single : horse.queues.length = 1 ↔ parent.queues.length = 1
  /-- The test of `perform_job`, and the choice of `Queue.dequeue_any`. -/
  removes : ∀ version, Queue.supportsLmove version = true →
    (horse.queues.length = 1 ↔ ∃ key, Queue.Holds version (parent.queues.map queueKey) key)

omit [Zero Real] in
lemma agrees_of_queues {horse : BaseWorker Real} (h : horse.queues = self.queues) :
    Agrees self horse := by
  refine ⟨h, by rw [h], fun version hversion => ?_⟩
  rw [h, List.length_eq_one_iff]
  constructor
  · rintro ⟨name, hname⟩
    exact ⟨queueKey name, by rw [hname]; rfl, hversion⟩
  · rintro ⟨key, hkeys, -⟩
    obtain ⟨name, hname, -⟩ := List.map_eq_singleton_iff.mp hkeys
    exact ⟨name, hname⟩

/-- **The queues of a worker.** In every database in which its hash has the queues that the worker
has registered, another process finds a worker with the same queues just if no name contains a
comma. -/
theorem queues_survive_iff (h : self.Prepared) (hfree : Free s self.name)
    (hqueues : self.queues ≠ []) (hnonempty : ∀ name ∈ self.queues, name ≠ "") :
    ∃ s', (self.registerBirth now time).run s = (.ok (self.born now), s') ∧
      (∃ horse, (findByKey float process self.key).run s' = (.ok (some horse), s')) ∧
      ∀ t t' horse, KeepsQueues self.name s' t →
        (findByKey float process self.key).run t = (.ok (some horse), t') →
        (Agrees self horse ↔ ∀ name ∈ self.queues, ',' ∉ name.toList) := by
  obtain ⟨s', hrun, hhash⟩ := run_registerBirth now time h hfree
  have hjoined := joinedQueues_ne_empty hqueues hnonempty
  refine ⟨s', hrun, ?_, fun t t' horse hkeeps hfind => ?_⟩
  · obtain ⟨horse, hfind, -⟩ := run_findByKey_registered float process hhash hjoined
    exact ⟨horse, hfind⟩
  · have hkept : t.val (.worker self.name) .queues = self.registeredHash now .queues := by
      rw [hkeeps, hhash]
    have hfound : t.val (.worker self.name) ≠ default := fun habsent => by
      rw [habsent] at hkept
      cases hkept
    rw [run_findByKey hfound] at hfind
    cases hworker : refreshed float process (t.val (.worker self.name))
        (new process [] self.name false) with
    | error e =>
      rw [hworker] at hfind
      cases hfind
    | ok worker =>
      rw [hworker] at hfind
      obtain rfl : worker = horse := by
        cases hfind
        rfl
      have hsplit := queues_refreshed hkept hjoined hworker
      rw [← splitNames_joinedQueues hqueues, ← hsplit]
      exact ⟨Agrees.queues, agrees_of_queues⟩

/-! ### One queue that is read as two -/

def office : ProcessInfo where
  hostname := "office"
  pid := 7
  ipAddress := "127.0.0.1:6379"
  version := "2.6.1"
  pythonVersion := "3.12"

def listeningOn (queues : List QueueName) : BaseWorker ℤ := new office queues "w" true

lemma prepared_listeningOn (queues : List QueueName) : (listeningOn queues).Prepared :=
  ⟨rfl, rfl, rfl⟩

theorem queues_survive_high_low :
    ∃ s', ((listeningOn ["high", "low"]).registerBirth DateTime.least 0).run .empty =
        (.ok ((listeningOn ["high", "low"]).born DateTime.least), s') ∧
      (∃ horse, (findByKey parseInt office "rq:worker:w").run s' = (.ok (some horse), s')) ∧
      ∀ t t' horse, KeepsQueues "w" s' t →
        (findByKey parseInt office "rq:worker:w").run t = (.ok (some horse), t') →
        (Agrees (listeningOn ["high", "low"]) horse ↔
          ∀ name ∈ ["high", "low"], ',' ∉ name.toList) :=
  queues_survive_iff (prepared_listeningOn _) (.inl rfl) (by decide) (by decide)

/-- The parent of a single queue moves the job to the intermediate queue, and its work horse, which
sees two queues, does not remove it from there. -/
theorem comma_read_as_two :
    let parent := listeningOn ["a,b"]
    ∃ s' horse, (parent.registerBirth DateTime.least 0).run .empty =
        (.ok (parent.born DateTime.least), s') ∧
      (findByKey parseInt office parent.key).run s' = (.ok (some horse), s') ∧
      horse.queues = ["a", "b"] ∧
      Queue.Holds (7, 0, 0) (parent.queues.map queueKey) (queueKey "a,b") ∧
      ¬ Agrees parent horse := by
  intro parent
  obtain ⟨s', hrun, hhash⟩ := run_registerBirth DateTime.least 0
    (prepared_listeningOn ["a,b"]) (.inl rfl : Free .empty "w")
  obtain ⟨horse, hfind, hqueues⟩ := run_findByKey_registered parseInt office hhash (by decide)
  have hnames : splitNames parent.joinedQueues = ["a", "b"] := by decide
  refine ⟨s', horse, hrun, hfind, hqueues.trans hnames, ⟨rfl, by decide⟩, fun hagrees => ?_⟩
  have hsame := hagrees.queues.symm.trans (hqueues.trans hnames)
  exact absurd hsame (by decide)

end BaseWorker

end RedisQueue
