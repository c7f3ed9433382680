import RedisQueue.Cron
import RedisQueue.HashRoundTrip
import RedisQueue.Lib.Json

/-!
# The records of cron schedulers

The hash `rq:cron_scheduler:<name>` with all that it holds: `CronJob.to_dict`, `CronJob.from_dict`,
`CronScheduler.to_dict`, `CronScheduler.save_jobs_data` and `CronScheduler.restore` (`rq/cron.py`).
The jobs are one JSON text, in which arguments and metadata are JSON texts again.

* `CronJobRecord`, `CronSchedulerRecord`: the attributes that are kept;
* `CronJobRecord.fromDict_toDict`: a job comes back, without its function;
* `CronSchedulerRecord.restore_saved`: a scheduler comes back with its jobs.

`croniter` is a parameter, and so is the text of floats.
-/

namespace RedisQueue

variable {F : Type}

/-! ## Python objects -/

/-- The objects that are arguments or metadata: JSON values, tuples of JSON values, and other
objects, which are true and which `json.dumps` refuses. -/
inductive PyData (F : Type) where
  | json (v : Json F)
  | tuple (items : List (Json F))
  | foreign

/-- `None` -/
def PyData.pyNone : PyData F := .json .null

/-- `bool(v)` -/
def truthyJson (floats : Json.FloatFormat F) : Json F → Bool
  | .null => false
  | .bool b => b
  | .int n => n ≠ 0
  | .float x => !floats.isZero x
  | .str s => s ≠ ""
  | .arr items => !items.isEmpty
  | .obj fields => !fields.isEmpty

def PyData.truthy (floats : Json.FloatFormat F) : PyData F → Bool
  | .json v => truthyJson floats v
  | .tuple items => !items.isEmpty
  | .foreign => true

def PyData.isNone : PyData F → Bool
  | .json .null => true
  | _ => false

/-- `json.dumps` -/
def dumps (floats : Json.FloatFormat F) (v : Json F) : String := String.ofList (v.write floats)

/-- The class of exceptions that `json.loads` raises. -/
def jsonDecodeError : PyError := .valueError "JSONDecodeError"

/-- `json.loads` -/
def loads (floats : Json.FloatFormat F) (text : String) : Except PyError (Json F) :=
  match Json.loads floats text.toList with
  | some v => .ok v
  | none => .error jsonDecodeError

/-- `NOT_JSON_SERIALIZABLE` -/
def notJsonSerializable : String := "<not JSON serializable>"

/-- `safe_json_dumps` -/
def safeJsonDumps (floats : Json.FloatFormat F) : PyData F → String
  | .json v => dumps floats v
  | .tuple items => dumps floats (.arr items)
  | .foreign => notJsonSerializable

/-- `iter(v)` -/
def iterate : Json F → Except PyError (List (Json F))
  | .arr items => .ok items
  | .obj fields => .ok (fields.map fun f => .str f.1)
  | .str s => .ok (s.toList.map fun c => .str (String.singleton c))
  | .null | .bool _ | .int _ | .float _ => .error .typeError

/-- A dictionary from its items, where `none` stands for an item that is left out. -/
def presentFields (items : List (String × Option (Json F))) : List (String × Json F) :=
  items.filterMap fun item => item.2.map fun v => (item.1, v)

/-! ## Cron jobs -/

/-- `croniter(expr, start_time).get_next(datetime)`, which raises if there is no such time. -/
abbrev Croniter := String → DateTime → Except PyError DateTime

/-- `CronJob.job_options`: an option is absent from the dictionary if it is `None`. -/
structure JobOptions (F : Type) where
  jobTimeout : Option ℤ := none
  resultTtl : Option ℤ := some 500
  ttl : Option ℤ := none
  failureTtl : Option ℤ := none
  metadata : PyData F := .pyNone

/-- The attributes of a `CronJob`. A function is given by its module and its name. -/
structure CronJobRecord (F : Type) where
  func : Option (String × String)
  funcName : String
  args : PyData F
  kwargs : PyData F
  interval : Option ℤ
  cron : Option String
  queueName : QueueName
  nextEnqueueTime : Option DateTime
  latestEnqueueTime : Option DateTime
  jobOptions : JobOptions F

/-- The arguments of `CronJob`. -/
structure CronJobArguments (F : Type) where
  queueName : QueueName
  func : Option (String × String) := none
  funcName : Option String := none
  args : PyData F := .pyNone
  kwargs : PyData F := .pyNone
  interval : Option ℤ := none
  cron : Option String := none
  jobOptions : JobOptions F := {}

namespace CronJobRecord

variable (floats : Json.FloatFormat F) (croniter : Croniter)

/-- The expression of a job with one that is not empty. -/
def expression (cron : Option String) : Option String := cron.filter (· ≠ "")

/-- The name of the function of the job. -/
def nameOf (func : Option (String × String)) (funcName : Option String) : Except PyError String :=
  match func, funcName.filter (· ≠ "") with
  | some (module, name), _ => .ok s!"{module}.{name}"
  | none, some funcName => .ok funcName
  | none, none => .error (.valueError "Either func or func_name must be provided")

/-- The first time of a job with an expression. -/
def firstTime (cron : Option String) (now : DateTime) : Except PyError (Option DateTime) :=
  match expression cron with
  | some expr => some <$> croniter expr now
  | none => .ok none

/-- `CronJob.__init__` -/
def init (now : DateTime) (args : CronJobArguments F) : Except PyError (CronJobRecord F) :=
  if CronJob.hasInterval args.interval && (expression args.cron).isSome then
    .error (.valueError "Cannot specify both interval and cron parameters")
  else if !CronJob.hasInterval args.interval && (expression args.cron).isNone then
    .error (.valueError "Must specify either interval or cron parameter")
  else do
    let funcName ← nameOf args.func args.funcName
    let nextEnqueueTime ← firstTime croniter args.cron now
    return {
      func := args.func
      funcName := funcName
      args := if args.args.truthy floats then args.args else .tuple []
      kwargs := if args.kwargs.truthy floats then args.kwargs else .json (.obj [])
      interval := args.interval
      cron := args.cron
      queueName := args.queueName
      nextEnqueueTime := nextEnqueueTime
      latestEnqueueTime := none
      jobOptions := args.jobOptions }

/-! ### Writing -/

/-- `safe_json_dumps(v) if v else None` -/
def dumpsOrNone (v : PyData F) : Json F :=
  if v.truthy floats then .str (safeJsonDumps floats v) else .null

def intOrNone (v : Option ℤ) : Json F := (v.map Json.int).getD .null

def textOrNone (v : Option String) : Json F := (v.map Json.str).getD .null

def timeOrNone (v : Option DateTime) : Json F := textOrNone (v.map utcformat)

/-- The items of `CronJob.to_dict`. Only job options may be left out. -/
def items (self : CronJobRecord F) : List (String × Option (Json F)) :=
  [("func_name", some (.str self.funcName)),
    ("queue_name", some (.str self.queueName)),
    ("args", some (dumpsOrNone floats self.args)),
    ("kwargs", some (dumpsOrNone floats self.kwargs)),
    ("interval", some (intOrNone self.interval)),
    ("cron", some (textOrNone self.cron)),
    ("latest_enqueue_time", some (timeOrNone self.latestEnqueueTime)),
    ("next_enqueue_time", some (timeOrNone self.nextEnqueueTime)),
    ("job_timeout", self.jobOptions.jobTimeout.map .int),
    ("result_ttl", self.jobOptions.resultTtl.map .int),
    ("ttl", self.jobOptions.ttl.map .int),
    ("failure_ttl", self.jobOptions.failureTtl.map .int),
    ("meta", if self.jobOptions.metadata.isNone then none
      else some (.str (safeJsonDumps floats self.jobOptions.metadata)))]

/-- `CronJob.to_dict` -/
def toDict (self : CronJobRecord F) : List (String × Json F) := presentFields (self.items floats)

/-! ### Reading -/

/-- A value of a type that `to_dict` does not write under the key: it is not followed further. -/
def unexpected : PyError := .userError "unexpected type"

/-- `data.get(key)` -/
def get (data : List (String × Json F)) (key : String) : Json F := (data.lookup key).getD .null

/-- `data.get(key)` of an integer -/
def getInt (data : List (String × Json F)) (key : String) : Except PyError (Option ℤ) :=
  match get data key with
  | .null => .ok none
  | .int n => .ok (some n)
  | _ => .error unexpected

/-- `data.get(key)` of a text -/
def getText (data : List (String × Json F)) (key : String) : Except PyError (Option String) :=
  match get data key with
  | .null => .ok none
  | .str s => .ok (some s)
  | _ => .error unexpected

/-- `data[key]` of a text -/
def demandText (data : List (String × Json F)) (key : String) : Except PyError String :=
  match data.lookup key with
  | none => .error (.keyError key)
  | some (.str s) => .ok s
  | some _ => .error unexpected

/-- A JSON text is read, and anything else that is false, or the placeholder, is taken as it is. -/
def getObject (read : Json F → Except PyError (PyData F)) (data : List (String × Json F))
    (key : String) : Except PyError (PyData F) :=
  match get data key with
  | .str text =>
    if text = "" ∨ text = notJsonSerializable then .ok (.json (.str text))
    else do
      let v ← loads floats text
      read v
  | v => if truthyJson floats v then .error .typeError else .ok (.json v)

/-- `tuple(v)` -/
def toTuple (v : Json F) : Except PyError (PyData F) := PyData.tuple <$> iterate v

/-- A time, or what the constructor has set. -/
def getTime (data : List (String × Json F)) (key : String) (initial : Option DateTime) :
    Except PyError (Option DateTime) := do
  let text ← getText data key
  match text.filter (· ≠ "") with
  | some text => some <$> utcparse text
  | none => .ok initial

/-- `data.get('result_ttl', DEFAULT_RESULT_TTL)` -/
def getResultTtl (data : List (String × Json F)) : Except PyError (Option ℤ) :=
  if (data.lookup "result_ttl").isNone then .ok (some 500) else getInt data "result_ttl"

/-- `CronJob.from_dict` -/
def fromDict (now : DateTime) (data : List (String × Json F)) :
    Except PyError (CronJobRecord F) := do
  let args ← getObject floats toTuple data "args"
  let kwargs ← getObject floats (fun v => .ok (.json v)) data "kwargs"
  let metadata ← getObject floats (fun v => .ok (.json v)) data "meta"
  let queueName ← demandText data "queue_name"
  let funcName ← demandText data "func_name"
  let interval ← getInt data "interval"
  let cron ← getText data "cron"
  let jobTimeout ← getInt data "job_timeout"
  let resultTtl ← getResultTtl data
  let ttl ← getInt data "ttl"
  let failureTtl ← getInt data "failure_ttl"
  let job ← init floats croniter now {
    queueName := queueName
    funcName := some funcName
    args := args
    kwargs := kwargs
    interval := interval
    cron := cron
    jobOptions := ⟨jobTimeout, resultTtl, ttl, failureTtl, metadata⟩ }
  let latestEnqueueTime ← getTime data "latest_enqueue_time" job.latestEnqueueTime
  let nextEnqueueTime ← getTime data "next_enqueue_time" job.nextEnqueueTime
  return { job with latestEnqueueTime := latestEnqueueTime, nextEnqueueTime := nextEnqueueTime }

end CronJobRecord

/-! ## Cron schedulers -/

/-- The fields of the hash of a scheduler. -/
inductive CronField where
  | hostname | pid | name | createdAt | configFile | cronJobs
deriving DecidableEq, Repr

def CronField.all : List CronField := [.hostname, .pid, .name, .createdAt, .configFile, .cronJobs]

/-- The contents of the hash. -/
abbrev RawCronHash := CronField → Option ByteArray

/-- The attributes of a `CronScheduler`, without its connection and its log. -/
structure CronSchedulerRecord (F : Type) where
  hostname : String
  pid : ℤ
  name : String
  createdAt : DateTime
  configFile : String
  cronJobs : List (CronJobRecord F)

namespace CronSchedulerRecord

variable (floats : Json.FloatFormat F) (croniter : Croniter)

/-- `json.dumps([job.to_dict() for job in self._cron_jobs])` -/
def dumpsJobs (self : CronSchedulerRecord F) : String :=
  dumps floats (.arr (self.cronJobs.map fun job => .obj (job.toDict floats)))

/-- `CronScheduler.to_dict` -/
def toDict (self : CronSchedulerRecord F) : CronField → String
  | .hostname => self.hostname
  | .pid => intText self.pid
  | .name => self.name
  | .createdAt => utcformat self.createdAt
  | .configFile => self.configFile
  | .cronJobs => self.dumpsJobs floats

/-- `HSET`: the fields of the mapping replace those of the hash, the others stay. -/
def hset (h : RawCronHash) (mapping : CronField → Option String) : RawCronHash := fun f =>
  ((mapping f).map fun text => encode (.text text)) <|> h f

/-- The hash after `CronScheduler.save`. -/
def save (self : CronSchedulerRecord F) (h : RawCronHash) : RawCronHash :=
  hset h fun f => some (self.toDict floats f)

/-- The hash after `CronScheduler.save_jobs_data`. -/
def saveJobsData (self : CronSchedulerRecord F) (h : RawCronHash) : RawCronHash :=
  hset h fun f => if f = .cronJobs then some (self.dumpsJobs floats) else none

/-- `decode_redis_hash(…, decode_values=True)` -/
def decodeRedisHash (h : RawCronHash) : Except PyError (CronField → Option String) :=
  if CronField.all.all fun f => (h f).all fun v => (String.fromUTF8? v).isSome then
    .ok fun f => (h f).bind String.fromUTF8?
  else .error (.valueError "invalid utf-8")

/-- `obj[key]` -/
def demand (obj : CronField → Option String) (f : CronField) (key : String) :
    Except PyError String :=
  match obj f with
  | some text => .ok text
  | none => .error (.keyError key)

/-- `int(text)` -/
def parsePid (text : String) : Except PyError ℤ :=
  match Text.whole Text.readInt text.toList with
  | some n => .ok n
  | none => .error (.valueError s!"invalid literal for int() with base 10: '{text}'")

/-- `str_to_date` of a text -/
def textToDate (text : String) : Except PyError DateTime :=
  if text = "" then .error (.valueError "Empty string or bytestring provided") else utcparse text

/-- `CronJob.from_dict(v)`: what is no dictionary has no method `get`. -/
def jobOfJson (now : DateTime) : Json F → Except PyError (CronJobRecord F)
  | .obj fields => CronJobRecord.fromDict floats croniter now fields
  | _ => .error (.userError "AttributeError")

/-- The jobs in a JSON text. Each constructor reads the clock. -/
def loadJobs (clock : ℕ → DateTime) (text : String) : Except PyError (List (CronJobRecord F)) := do
  let data ← loads floats text
  let jobsData ← iterate data
  jobsData.zipIdx.mapM fun (jobData, k) => jobOfJson floats croniter (clock k) jobData

/-- The exceptions after which there are no jobs. -/
def isHandled : PyError → Bool
  | .keyError _ | .typeError => true
  | e => e = jsonDecodeError

/-- The jobs of the hash. -/
def restoreJobs (clock : ℕ → DateTime) (text : Option String) :
    Except PyError (List (CronJobRecord F)) :=
  match text.filter (· ≠ "") with
  | none => .ok []
  | some text =>
    match loadJobs floats croniter clock text with
    | .ok jobs => .ok jobs
    | .error e => if isHandled e then .ok [] else .error e

/-- `CronScheduler.restore` -/
def restore (clock : ℕ → DateTime) (rawData : RawCronHash) :
    Except PyError (CronSchedulerRecord F) := do
  let obj ← decodeRedisHash rawData
  let hostname ← demand obj .hostname "hostname"
  let pid ← match obj .pid with
    | some text => parsePid text
    | none => .ok 0
  let name ← demand obj .name "name"
  let createdAtText ← demand obj .createdAt "created_at"
  let createdAt ← textToDate createdAtText
  let configFile ← demand obj .configFile "config_file"
  let cronJobs ← restoreJobs floats croniter clock (obj .cronJobs)
  return {
    hostname := hostname
    pid := pid
    name := name
    createdAt := createdAt
    configFile := configFile
    cronJobs := cronJobs }

end CronSchedulerRecord

/-! ## The round trip -/

section Dumps
variable {floats : Json.FloatFormat F}

lemma loads_dumps (hf : floats.Lawful) {v : Json F} (hnative : v.native) :
    loads floats (dumps floats v) = .ok v := by
  rw [loads, dumps, String.toList_ofList, Json.loads_write hf hnative]

/-- Neither the empty text nor the placeholder is a JSON text. -/
lemma dumps_ne (hf : floats.Lawful) {v : Json F} (hnative : v.native) :
    ¬ (dumps floats v = "" ∨ dumps floats v = notJsonSerializable) := by
  have hloads := loads_dumps hf hnative
  rintro (h | h)
  · rw [h] at hloads
    cases hloads
  · rw [h] at hloads
    cases hloads

end Dumps

lemma presentFields_cons (item : String × Option (Json F))
    (items : List (String × Option (Json F))) : presentFields (item :: items) =
      (item.2.map fun v => (item.1, v)).toList ++ presentFields items := by
  cases h : item.2 <;> simp [presentFields, h]

lemma keys_presentFields (items : List (String × Option (Json F))) :
    ((presentFields items).map Prod.fst).Sublist (items.map Prod.fst) := by
  induction items with
  | nil => exact List.Sublist.slnil
  | cons item items ih =>
    rw [presentFields_cons]
    cases item.2 with
    | none => exact ih.cons _
    | some v => exact ih.cons_cons _

lemma lookup_presentFields {items : List (String × Option (Json F))}
    (h : (items.map Prod.fst).Nodup) (key : String) :
    (presentFields items).lookup key = (items.lookup key).join := by
  induction items with
  | nil => rfl
  | cons item items ih =>
    obtain ⟨key', v⟩ := item
    obtain ⟨hkey', hnodup⟩ := List.nodup_cons.mp h
    rw [presentFields_cons, List.lookup_cons]
    cases hkey : key == key' with
    | true =>
      obtain rfl : key = key' := eq_of_beq hkey
      cases v with
      | some v => simp
      | none =>
        have habsent : key ∉ (presentFields items).map Prod.fst := fun hmem =>
          hkey' ((keys_presentFields items).subset hmem)
        simp only [List.mem_map, not_exists, not_and] at habsent
        simpa using fun k v hmem heq => habsent (k, v) hmem heq.symm
    | false =>
      cases v with
      | some v => simpa [List.lookup_cons, hkey] using ih hnodup
      | none => simp [ih hnodup]

namespace CronJobRecord

variable {floats : Json.FloatFormat F} {croniter : Croniter}

lemma nodup_items (self : CronJobRecord F) : ((self.items floats).map Prod.fst).Nodup := by
  simp only [items, List.map_cons, List.map_nil]
  decide

/-- All values are integers, texts or `None`. -/
lemma native_items (self : CronJobRecord F) :
    ∀ item ∈ self.items floats, ∀ v ∈ item.2, v.native := by
  have hobject : ∀ v, (dumpsOrNone floats v).native := fun v => by
    unfold dumpsOrNone
    split <;> rfl
  have hint : ∀ v, (intOrNone v : Json F).native := fun v => by cases v <;> rfl
  have htext : ∀ v, (textOrNone v : Json F).native := fun v => by cases v <;> rfl
  simp [items, hobject, hint, htext, timeOrNone]

lemma lookup_toDict (self : CronJobRecord F) (key : String) :
    (self.toDict floats).lookup key = ((self.items floats).lookup key).join :=
  lookup_presentFields self.nodup_items key

lemma get_toDict (self : CronJobRecord F) (key : String) :
    get (self.toDict floats) key = ((self.items floats).lookup key).join.getD .null := by
  rw [get, lookup_toDict]

lemma getInt_of_get {data : List (String × Json F)} {key : String} {v : Option ℤ}
    (h : get data key = intOrNone v) : getInt data key = .ok v := by
  rw [getInt, h]
  cases v <;> rfl

lemma getText_of_get {data : List (String × Json F)} {key : String} {v : Option String}
    (h : get data key = textOrNone v) : getText data key = .ok v := by
  rw [getText, h]
  cases v <;> rfl

lemma demandText_of_lookup {data : List (String × Json F)} {key text : String}
    (h : data.lookup key = some (.str text)) : demandText data key = .ok text := by
  rw [demandText, h]

lemma utcformat_ne_empty (t : DateTime) : utcformat t ≠ "" := fun h =>
  encode_time_ne_empty t (encode_text_eq_empty.mpr h)

lemma utcparse_utcformat (t : DateTime) : utcparse (utcformat t) = .ok t := by
  simp [utcparse, utcformat, DateTime.parse_format]

lemma getTime_of_get {data : List (String × Json F)} {key : String} {v initial : Option DateTime}
    (h : get data key = timeOrNone v) (hinitial : v = none → initial = none) :
    getTime data key initial = .ok v := by
  have htext := getText_of_get h
  rw [getTime, htext, Except.ok_bind]
  cases v with
  | none => rw [hinitial rfl]; rfl
  | some t =>
    have hfilter : (some (utcformat t)).filter (· ≠ "") = some (utcformat t) := by
      simp [Option.filter, utcformat_ne_empty]
    rw [Option.map_some, hfilter]
    dsimp only
    rw [utcparse_utcformat]
    rfl

/-- A JSON text is read back as what it stands for. -/
lemma getObject_of_get (hf : floats.Lawful) {read : Json F → Except PyError (PyData F)}
    {data : List (String × Json F)} {key : String} {v : Json F} (hnative : v.native)
    (h : get data key = .str (dumps floats v)) : getObject floats read data key = read v := by
  rw [getObject, h]
  dsimp only
  rw [if_neg (dumps_ne hf hnative), loads_dumps hf hnative, Except.ok_bind]

lemma getObject_of_null {read : Json F → Except PyError (PyData F)}
    {data : List (String × Json F)} {key : String} (h : get data key = .null) :
    getObject floats read data key = .ok .pyNone := by
  rw [getObject, h]
  rfl

/-- What the constructor makes of JSON-native arguments with a name and one schedule, whatever the
times have become. Options are integers, and only the result has a default. -/
structure Native (job : CronJobRecord F) : Prop where
  args : ∃ items, job.args = .tuple items ∧ (Json.arr items).native
  kwargs : ∃ fields, job.kwargs = .json (.obj fields) ∧ (Json.obj fields).native
  metadata : job.jobOptions.metadata = .pyNone ∨
    ∃ fields, job.jobOptions.metadata = .json (.obj fields) ∧ (Json.obj fields).native
  resultTtl : job.jobOptions.resultTtl ≠ none
  funcName : job.funcName ≠ ""
  schedule : (CronJob.hasInterval job.interval ∧ expression job.cron = none) ∨
    CronJob.hasInterval job.interval = false ∧ expression job.cron ≠ none
  nextEnqueueTime : expression job.cron ≠ none → job.nextEnqueueTime ≠ none

lemma nameOf_ne_empty {func : Option (String × String)} {funcName : Option String} {name : String}
    (h : nameOf func funcName = .ok name) : name ≠ "" := by
  unfold nameOf at h
  split at h
  · cases h
    intro heq
    have hdot : toString "." = "" := by
      simp only [String.append_eq_empty_iff] at heq
      exact heq.1.2
    exact absurd hdot (by decide)
  · next hfilter =>
    cases h
    exact of_decide_eq_true (Option.filter_eq_some_iff.mp hfilter).2
  · cases h

/-- The constructor gives such jobs, and they stay so when their times are set. -/
theorem native_init {now : DateTime} {args : CronJobArguments F} {job : CronJobRecord F}
    (hargs : args.args = .pyNone ∨
      ∃ items, args.args = .tuple items ∧ (Json.arr items).native)
    (hkwargs : args.kwargs = .pyNone ∨
      ∃ fields, args.kwargs = .json (.obj fields) ∧ (Json.obj fields).native)
    (hmetadata : args.jobOptions.metadata = .pyNone ∨
      ∃ fields, args.jobOptions.metadata = .json (.obj fields) ∧ (Json.obj fields).native)
    (hresultTtl : args.jobOptions.resultTtl ≠ none)
    (h : init floats croniter now args = .ok job) (latest next : Option DateTime)
    (hnext : expression job.cron ≠ none → next ≠ none) :
    Native
      ({ job with latestEnqueueTime := latest, nextEnqueueTime := next } : CronJobRecord F) := by
  unfold init at h
  split at h
  · cases h
  · next hboth =>
    split at h
    · cases h
    · next hneither =>
      cases hname : nameOf args.func args.funcName with
      | error e =>
        rw [hname] at h
        cases h
      | ok funcName =>
        cases hfirst : firstTime croniter args.cron now with
        | error e =>
          rw [hname, hfirst] at h
          cases h
        | ok first =>
          rw [hname, hfirst] at h
          cases h
          refine ⟨?_, ?_, hmetadata, hresultTtl, nameOf_ne_empty hname, ?_, hnext⟩
          · rcases hargs with heq | ⟨items, heq, hitems⟩
            · exact ⟨[], by rw [heq]; rfl, rfl⟩
            · refine ⟨items, ?_, hitems⟩
              rw [heq]
              cases items <;> rfl
          · rcases hkwargs with heq | ⟨fields, heq, hfields⟩
            · exact ⟨[], by rw [heq]; rfl, rfl⟩
            · refine ⟨fields, ?_, hfields⟩
              rw [heq]
              cases fields <;> rfl
          · dsimp only
            cases hinterval : CronJob.hasInterval args.interval <;>
              cases hexpression : expression args.cron <;>
              simp_all

/-- `croniter` has a time after `now` for the expression of the job, if it has one. -/
def Scheduled (croniter : Croniter) (now : DateTime) (self : CronJobRecord F) : Prop :=
  ∀ expr ∈ expression self.cron, ∃ t, croniter expr now = .ok t

/-- The arguments that are given to the constructor again. -/
lemma getObject_args (hf : floats.Lawful) {job : CronJobRecord F} (h : job.Native) :
    ∃ args, getObject floats toTuple (job.toDict floats) "args" = .ok args ∧
      (if args.truthy floats then args else .tuple []) = job.args := by
  obtain ⟨items, hargs, hnative⟩ := h.args
  have hget : get (job.toDict floats) "args" = dumpsOrNone floats job.args := by
    rw [get_toDict]
    rfl
  rw [hargs] at hget ⊢
  cases items with
  | nil => exact ⟨.pyNone, getObject_of_null hget, rfl⟩
  | cons v vs => exact ⟨.tuple (v :: vs), getObject_of_get hf hnative hget, rfl⟩

lemma getObject_kwargs (hf : floats.Lawful) {job : CronJobRecord F} (h : job.Native) :
    ∃ kwargs, getObject floats (fun v => .ok (.json v)) (job.toDict floats) "kwargs" = .ok kwargs ∧
      (if kwargs.truthy floats then kwargs else .json (.obj [])) = job.kwargs := by
  obtain ⟨fields, hkwargs, hnative⟩ := h.kwargs
  have hget : get (job.toDict floats) "kwargs" = dumpsOrNone floats job.kwargs := by
    rw [get_toDict]
    rfl
  rw [hkwargs] at hget ⊢
  cases fields with
  | nil => exact ⟨.pyNone, getObject_of_null hget, rfl⟩
  | cons f fs => exact ⟨.json (.obj (f :: fs)), getObject_of_get hf hnative hget, rfl⟩

/-- Empty metadata are written, and no metadata are left out. -/
lemma getObject_metadata (hf : floats.Lawful) {job : CronJobRecord F} (h : job.Native) :
    getObject floats (fun v => .ok (.json v)) (job.toDict floats) "meta" =
      .ok job.jobOptions.metadata := by
  have hget : get (job.toDict floats) "meta" = (if job.jobOptions.metadata.isNone then none
      else some (Json.str (safeJsonDumps floats job.jobOptions.metadata))).getD .null := by
    rw [get_toDict]
    rfl
  rcases h.metadata with hmetadata | ⟨fields, hmetadata, hnative⟩
  · rw [hmetadata] at hget ⊢
    exact getObject_of_null hget
  · rw [hmetadata] at hget ⊢
    exact getObject_of_get hf hnative hget

/-- The default of the constructor is not used, as the result has a time to live of its own. -/
lemma getResultTtl_toDict {job : CronJobRecord F} (h : job.Native) :
    getResultTtl (job.toDict floats) = .ok job.jobOptions.resultTtl := by
  obtain ⟨ttl, httl⟩ := Option.ne_none_iff_exists'.mp h.resultTtl
  have hlookup : (job.toDict floats).lookup "result_ttl" =
      job.jobOptions.resultTtl.map Json.int := by
    rw [lookup_toDict]
    rfl
  rw [getResultTtl, hlookup, httl, Option.map_some, Option.isNone_some,
    if_neg Bool.false_ne_true]
  exact getInt_of_get (by rw [get, hlookup, httl]; rfl)

/-- The constructor accepts a schedule again, and sets a first time just for an expression. -/
lemma init_native {job : CronJobRecord F} (h : job.Native) {now : DateTime}
    (hcron : job.Scheduled croniter now) {args kwargs : PyData F}
    (hargs : (if args.truthy floats then args else .tuple []) = job.args)
    (hkwargs : (if kwargs.truthy floats then kwargs else .json (.obj [])) = job.kwargs) :
    ∃ first, (expression job.cron = none → first = none) ∧ init floats croniter now {
        queueName := job.queueName
        funcName := some job.funcName
        args := args
        kwargs := kwargs
        interval := job.interval
        cron := job.cron
        jobOptions := job.jobOptions } =
      .ok { job with func := none, nextEnqueueTime := first, latestEnqueueTime := none } := by
  have hname : nameOf none (some job.funcName) = .ok job.funcName := by
    simp [nameOf, Option.filter, h.funcName]
  unfold init
  dsimp only
  rw [hname, hargs, hkwargs]
  rcases h.schedule with ⟨hinterval, hexpression⟩ | ⟨hinterval, hexpression⟩
  · have hfirst : firstTime croniter job.cron now = .ok none := by rw [firstTime, hexpression]
    refine ⟨none, fun _ => rfl, ?_⟩
    rw [hinterval, hexpression, hfirst]
    rfl
  · obtain ⟨expr, hexpr⟩ := Option.ne_none_iff_exists'.mp hexpression
    obtain ⟨t, ht⟩ := hcron expr hexpr
    have hfirst : firstTime croniter job.cron now = .ok (some t) := by
      rw [firstTime, hexpr]
      dsimp only
      rw [ht]
      rfl
    refine ⟨some t, fun hnone => absurd hnone hexpression, ?_⟩
    rw [hinterval, hexpr, hfirst]
    rfl

/-- **A job comes back**, without its function. -/
theorem fromDict_toDict (hf : floats.Lawful) {job : CronJobRecord F} (h : job.Native)
    {now : DateTime} (hcron : job.Scheduled croniter now) :
    fromDict floats croniter now (job.toDict floats) = .ok { job with func := none } := by
  obtain ⟨args, hargs, hargs'⟩ := getObject_args hf h
  obtain ⟨kwargs, hkwargs, hkwargs'⟩ := getObject_kwargs hf h
  have hmetadata := getObject_metadata hf h
  have hqueueName : demandText (job.toDict floats) "queue_name" = .ok job.queueName :=
    demandText_of_lookup (by rw [lookup_toDict]; rfl)
  have hfuncName : demandText (job.toDict floats) "func_name" = .ok job.funcName :=
    demandText_of_lookup (by rw [lookup_toDict]; rfl)
  have hinterval : getInt (job.toDict floats) "interval" = .ok job.interval :=
    getInt_of_get (by rw [get_toDict]; rfl)
  have hcron' : getText (job.toDict floats) "cron" = .ok job.cron :=
    getText_of_get (by rw [get_toDict]; rfl)
  have hjobTimeout : getInt (job.toDict floats) "job_timeout" = .ok job.jobOptions.jobTimeout :=
    getInt_of_get (by rw [get_toDict]; rfl)
  have httl : getInt (job.toDict floats) "ttl" = .ok job.jobOptions.ttl :=
    getInt_of_get (by rw [get_toDict]; rfl)
  have hfailureTtl : getInt (job.toDict floats) "failure_ttl" = .ok job.jobOptions.failureTtl :=
    getInt_of_get (by rw [get_toDict]; rfl)
  obtain ⟨first, hfirst, hinit⟩ := init_native h hcron hargs' hkwargs'
  have hlatest : getTime (job.toDict floats) "latest_enqueue_time" none =
      .ok job.latestEnqueueTime :=
    getTime_of_get (by rw [get_toDict]; rfl) fun _ => rfl
  -- a job without a next time has no expression, so the constructor has set none either
  have hnext : getTime (job.toDict floats) "next_enqueue_time" first = .ok job.nextEnqueueTime :=
    getTime_of_get (by rw [get_toDict]; rfl) fun hnone => hfirst <| by
      by_contra hexpression
      exact h.nextEnqueueTime hexpression hnone
  unfold fromDict
  rw [hargs, Except.ok_bind, hkwargs, Except.ok_bind, hmetadata, Except.ok_bind, hqueueName,
    Except.ok_bind, hfuncName, Except.ok_bind, hinterval, Except.ok_bind, hcron', Except.ok_bind,
    hjobTimeout, Except.ok_bind, getResultTtl_toDict h, Except.ok_bind, httl, Except.ok_bind,
    hfailureTtl, Except.ok_bind, hinit, Except.ok_bind, hlatest,
    Except.ok_bind, hnext, Except.ok_bind]
  rfl

end CronJobRecord

namespace CronSchedulerRecord

variable {floats : Json.FloatFormat F} {croniter : Croniter}

/-- The scheduler whose jobs have no functions. -/
def withoutFunctions (self : CronSchedulerRecord F) : CronSchedulerRecord F :=
  { self with cronJobs := self.cronJobs.map fun job => { job with func := none } }

lemma native_dicts {jobs : List (CronJobRecord F)} :
    (Json.arr (jobs.map fun job => Json.obj (job.toDict floats))).native := by
  rw [Json.native_arr]
  intro v hv
  obtain ⟨job, -, rfl⟩ := List.mem_map.mp hv
  refine Json.native_obj.mpr ⟨?_, fun f hf => ?_⟩
  · exact (keys_presentFields _).nodup job.nodup_items
  · obtain ⟨item, hitem, hvalue⟩ := List.mem_filterMap.mp hf
    obtain ⟨v, hv, rfl⟩ := Option.map_eq_some_iff.mp hvalue
    exact job.native_items item hitem v hv

/-- The loop over the jobs, from the one at the index `n` on. -/
lemma mapM_fromDict (hf : floats.Lawful) {jobs : List (CronJobRecord F)}
    (hnative : ∀ job ∈ jobs, job.Native) {clock : ℕ → DateTime}
    (hcron : ∀ job ∈ jobs, ∀ k, job.Scheduled croniter (clock k)) (n : ℕ) :
    (((jobs.map fun job => Json.obj (job.toDict floats)).zipIdx n).mapM fun (jobData, k) =>
      jobOfJson floats croniter (clock k) jobData) =
        .ok (jobs.map fun job => { job with func := none }) := by
  induction jobs generalizing n with
  | nil => rfl
  | cons job jobs ih =>
    have hjob := CronJobRecord.fromDict_toDict hf (hnative job List.mem_cons_self)
      (hcron job List.mem_cons_self n)
    have hjobs := ih (fun other hother => hnative other (List.mem_cons_of_mem _ hother))
      (fun other hother => hcron other (List.mem_cons_of_mem _ hother)) (n + 1)
    rw [List.map_cons, List.zipIdx_cons, List.mapM_cons]
    dsimp only [jobOfJson] at hjobs ⊢
    rw [hjob, Except.ok_bind, hjobs]
    rfl

lemma loadJobs_dumpsJobs (hf : floats.Lawful) {self : CronSchedulerRecord F}
    (hnative : ∀ job ∈ self.cronJobs, job.Native) {clock : ℕ → DateTime}
    (hcron : ∀ job ∈ self.cronJobs, ∀ k, job.Scheduled croniter (clock k)) :
    loadJobs floats croniter clock (self.dumpsJobs floats) =
      .ok self.withoutFunctions.cronJobs := by
  rw [loadJobs, dumpsJobs, loads_dumps hf native_dicts, Except.ok_bind]
  exact mapM_fromDict hf hnative hcron 0

/-- The text of the jobs is not empty, so there are jobs to be restored. -/
lemma restoreJobs_dumpsJobs (hf : floats.Lawful) {self : CronSchedulerRecord F}
    (hnative : ∀ job ∈ self.cronJobs, job.Native) {clock : ℕ → DateTime}
    (hcron : ∀ job ∈ self.cronJobs, ∀ k, job.Scheduled croniter (clock k)) :
    restoreJobs floats croniter clock (some (self.dumpsJobs floats)) =
      .ok self.withoutFunctions.cronJobs := by
  have hne : self.dumpsJobs floats ≠ "" := fun h => dumps_ne hf native_dicts (.inl h)
  have hfilter : (some (self.dumpsJobs floats)).filter (· ≠ "") = some (self.dumpsJobs floats) := by
    simp [Option.filter, hne]
  rw [restoreJobs, hfilter]
  dsimp only
  rw [loadJobs_dumpsJobs hf hnative hcron]

lemma decodeRedisHash_encode {h : RawCronHash} {texts : CronField → String}
    (hh : ∀ f, h f = some (encode (.text (texts f)))) :
    decodeRedisHash h = .ok fun f => some (texts f) := by
  have hdecode : ∀ text, String.fromUTF8? (encode (.text text)) = some text := fun text =>
    dif_pos text.isValidUTF8
  have hvalid : CronField.all.all fun f => (h f).all fun v => (String.fromUTF8? v).isSome := by
    simp [hh, hdecode]
  rw [decodeRedisHash, if_pos hvalid]
  simp [hh, hdecode]

lemma parsePid_intText (n : ℤ) : parsePid (intText n) = .ok n := by
  rw [parsePid, toList_intText, Text.whole_writeInt]

lemma textToDate_utcformat (t : DateTime) : textToDate (utcformat t) = .ok t := by
  rw [textToDate, if_neg (CronJobRecord.utcformat_ne_empty t), CronJobRecord.utcparse_utcformat]

/-- The hash of a scheduler gives the scheduler back. -/
theorem restore_hash (hf : floats.Lawful) {self : CronSchedulerRecord F}
    (hnative : ∀ job ∈ self.cronJobs, job.Native) {clock : ℕ → DateTime}
    (hcron : ∀ job ∈ self.cronJobs, ∀ k, job.Scheduled croniter (clock k)) {h : RawCronHash}
    (hh : ∀ f, h f = some (encode (.text (self.toDict floats f)))) :
    restore floats croniter clock h = .ok self.withoutFunctions := by
  unfold restore
  rw [decodeRedisHash_encode hh, Except.ok_bind]
  simp only [demand, toDict, Except.ok_bind, parsePid_intText, textToDate_utcformat,
    restoreJobs_dumpsJobs hf hnative hcron]
  rfl

/-- **A scheduler comes back with its jobs**, whether the jobs have been saved with it or on their
own since. -/
theorem restore_saved (hf : floats.Lawful) (self : CronSchedulerRecord F)
    (hnative : ∀ job ∈ self.cronJobs, job.Native) (clock : ℕ → DateTime)
    (hcron : ∀ job ∈ self.cronJobs, ∀ k, job.Scheduled croniter (clock k)) (h : RawCronHash) :
    restore floats croniter clock (self.save floats h) = .ok self.withoutFunctions ∧
      ∀ jobs, restore floats croniter clock
        (self.saveJobsData floats ({ self with cronJobs := jobs }.save floats h)) =
          .ok self.withoutFunctions := by
  refine ⟨restore_hash hf hnative hcron fun f => rfl, fun jobs => ?_⟩
  refine restore_hash hf hnative hcron fun f => ?_
  cases f <;> rfl

end CronSchedulerRecord

/-! ## An example -/

/-- Two floats. -/
inductive Half where
  | zero | half
deriving DecidableEq, Repr

namespace Half

def format : Json.FloatFormat Half where
  write
    | .zero => "0.0".toList
    | .half => "0.5".toList
  read text :=
    if text = "0.0".toList then some .zero else if text = "0.5".toList then some .half else none
  isZero x := x = .zero

lemma lawful_format : format.Lawful where
  read_write x := by cases x <;> decide
  write_ne_nil x := by cases x <;> decide
  numeric x := List.all_eq_true.mp (by cases x <;> rfl)
  not_int x := by cases x <;> rfl

/-- A nested array with an escaped character. -/
example : safeJsonDumps format (.tuple [.int 1, .arr [.float .half, .str "ß"], .null]) =
    "[1, [0.5, \"\\u00df\"], null]" := by
  decide

/-- A midnight, and a minute later. -/
def midnight : DateTime := ⟨2025, 3, 1, 0, 0, 0, 0, by decide⟩

def minuteLater : DateTime := ⟨2025, 3, 1, 0, 1, 0, 0, by decide⟩

/-- `croniter('* * * * *', midnight).get_next(datetime)` -/
def everyMinute : Croniter := fun _ _ => .ok minuteLater

/-- A job with an interval that has not run yet, nested arguments and empty metadata. -/
def report : CronJobRecord Half where
  func := some ("app", "report")
  funcName := "app.report"
  args := .tuple [.int 1, .arr [.float .half, .str "ß"], .null]
  kwargs := .json (.obj [])
  interval := some 60
  cron := none
  queueName := "q"
  nextEnqueueTime := none
  latestEnqueueTime := none
  jobOptions := { metadata := .json (.obj []) }

/-- A job with an expression that has run, without arguments and metadata. -/
def cleanup : CronJobRecord Half where
  func := some ("app", "cleanup")
  funcName := "app.cleanup"
  args := .tuple []
  kwargs := .json (.obj [("deep", .obj [("dry", .bool false)])])
  interval := none
  cron := some "* * * * *"
  queueName := "low"
  nextEnqueueTime := some minuteLater
  latestEnqueueTime := some midnight
  jobOptions := { jobTimeout := some 10, resultTtl := some 0, failureTtl := some (-1) }

def scheduler : CronSchedulerRecord Half where
  hostname := "host"
  pid := 7
  name := "host:7:abc123"
  createdAt := midnight
  configFile := ""
  cronJobs := [report, cleanup]

lemma native_jobs : ∀ job ∈ scheduler.cronJobs, job.Native := by
  have hreport : report.Native :=
    ⟨⟨_, rfl, by decide⟩, ⟨_, rfl, by decide⟩, .inr ⟨_, rfl, by decide⟩, by decide, by decide,
      .inl ⟨by decide, by decide⟩, by decide⟩
  have hcleanup : cleanup.Native :=
    ⟨⟨_, rfl, by decide⟩, ⟨_, rfl, by decide⟩, .inl rfl, by decide, by decide,
      .inr ⟨by decide, by decide⟩, by decide⟩
  intro job hjob
  simp only [scheduler, List.mem_cons, List.not_mem_nil, or_false] at hjob
  rcases hjob with rfl | rfl
  · exact hreport
  · exact hcleanup

end Half

namespace CronSchedulerRecord

open Half

/-- The two jobs come back without their functions. -/
theorem restore_saved_two :
    restore format everyMinute (fun _ => midnight) (scheduler.save format fun _ => none) =
      .ok { scheduler with
        cronJobs := [{ report with func := none }, { cleanup with func := none }] } ∧
    ∀ jobs, restore format everyMinute (fun _ => midnight) (scheduler.saveJobsData format
      (save format ({ scheduler with cronJobs := jobs } : CronSchedulerRecord Half)
        fun _ => none)) = .ok scheduler.withoutFunctions :=
  restore_saved lawful_format scheduler native_jobs (fun _ => midnight)
    (fun _ _ _ _ _ => ⟨minuteLater, rfl⟩) fun _ => none

end CronSchedulerRecord

end RedisQueue
