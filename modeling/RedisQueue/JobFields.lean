import RedisQueue.Basic
import RedisQueue.Lib.Timestamps

/-!
# The job hash, byte by byte

`Job.to_dict` and `Job.restore` (`rq/job.py`) with all their fields, and what the client library
makes of the values. The other modules treat the hash of a job as a record; here it is what Redis
stores: a partial map from the names of the fields to byte strings.

* `JobField`, `RawHash`: the fields and their contents;
* `JobRecord`: a `Job` object with every attribute that is persisted;
* `toDict`, `encode`, `hset`: what `Job.save` writes;
* `restore`: what `Job.refresh` reads. Each attribute is read by one of a few readers.

What pickles and compresses is a parameter, `Codec`.
-/

namespace RedisQueue

/-! ## Values and their bytes -/

/-- The fields of the hash `rq:job:<id>`. -/
inductive JobField where
  | createdAt | data | successCallbackName | failureCallbackName | stoppedCallbackName
  | startedAt | endedAt | lastHeartbeat | workerName | groupId
  | numberOfRetries | retriesLeft | retryIntervals | enqueueAtFrontOnRetry
  | origin | description | enqueuedAt | repeatsLeft | repeatIntervals
  | result | excInfo | timeout
  | successCallbackTimeout | failureCallbackTimeout | stoppedCallbackTimeout
  | resultTtl | failureTtl | status | dependencyId | dependencyIds | metadata | ttl
  | allowDependencyFailures | enqueueAtFront
deriving DecidableEq, Repr

def JobField.all : List JobField :=
  [.createdAt, .data, .successCallbackName, .failureCallbackName, .stoppedCallbackName, .startedAt,
    .endedAt, .lastHeartbeat, .workerName, .groupId, .numberOfRetries, .retriesLeft,
    .retryIntervals, .enqueueAtFrontOnRetry, .origin, .description, .enqueuedAt, .repeatsLeft,
    .repeatIntervals, .result, .excInfo, .timeout, .successCallbackTimeout,
    .failureCallbackTimeout, .stoppedCallbackTimeout, .resultTtl, .failureTtl, .status,
    .dependencyId, .dependencyIds, .metadata, .ttl, .allowDependencyFailures, .enqueueAtFront]

lemma JobField.mem_all (f : JobField) : f ∈ JobField.all := by
  cases f <;> decide

/-- There are two such instances; the definitions here use the one of the core library. -/
instance (priority := 1100) decidableEqBytes : DecidableEq ByteArray := ByteArray.instDecidableEq

/-- The contents of a hash. -/
abbrev RawHash := JobField → Option ByteArray

instance : DecidableEq RawHash := fun h h' =>
  decidable_of_iff (∀ f ∈ JobField.all, h f = h' f)
    ⟨fun heq => funext fun f => heq f f.mem_all, fun heq _ _ => heq ▸ rfl⟩

/-- The values that `Job.to_dict` puts into its dictionary. -/
inductive PyValue where
  | bytes (value : ByteArray)
  | text (value : String)
  | int (value : ℤ)

/-- `str` of an integer. -/
def intText (n : ℤ) : String := String.ofList (Text.writeInt n)

/-- The encoder of the client: bytes as they are, texts in UTF-8, integers in decimal. -/
def encode : PyValue → ByteArray
  | .bytes value => value
  | .text value => value.toByteArray
  | .int value => (intText value).toByteArray

/-- `bytes.decode` -/
def decode (bytes : ByteArray) : Except PyError String :=
  match String.fromUTF8? bytes with
  | some text => .ok text
  | none => .error (.valueError "invalid utf-8")

/-- `HSET`: the fields of the mapping replace those of the hash, the others stay. -/
def RawHash.update (h : RawHash) (mapping : JobField → Option PyValue) : RawHash := fun f =>
  (mapping f).map encode <|> h f

/-- What a job is serialised and compressed with. `Obj` are the Python objects that are serialised:
the call of a job, its metadata (a dictionary) and its result. -/
structure Codec (Obj : Type) where
  dumps : Obj → ByteArray
  /-- `none` stands for an exception. -/
  loads : ByteArray → Option Obj
  compress : ByteArray → ByteArray
  /-- `none` stands for a `zlib.error`. -/
  decompress : ByteArray → Option ByteArray
  /-- `{}` -/
  emptyDict : Obj
  /-- `{'unserialized': …}` -/
  unserialized : ByteArray → Obj
  /-- `UNSERIALIZABLE_RETURN_VALUE_PAYLOAD` -/
  unserializableReturnValue : Obj

/-- The serialiser and the compression can be undone, and neither gives an empty byte string. -/
structure Codec.Lawful {Obj : Type} (c : Codec Obj) : Prop where
  loads_dumps : ∀ o, c.loads (c.dumps o) = some o
  dumps_ne_empty : ∀ o, c.dumps o ≠ ByteArray.empty
  decompress_compress : ∀ b, c.decompress (c.compress b) = some b
  compress_ne_empty : ∀ b, c.compress b ≠ ByteArray.empty

/-- The value of a `JobStatus`. -/
def JobStatus.text : JobStatus → String
  | .created => "created"
  | .queued => "queued"
  | .finished => "finished"
  | .failed => "failed"
  | .started => "started"
  | .deferred => "deferred"
  | .scheduled => "scheduled"
  | .stopped => "stopped"
  | .canceled => "canceled"

/-- `JobStatus(text)` -/
def JobStatus.ofText (text : String) : Except PyError JobStatus :=
  match [JobStatus.created, .queued, .finished, .failed, .started, .deferred, .scheduled, .stopped,
      .canceled].find? (·.text = text) with
  | some status => .ok status
  | none => .error (.valueError s!"'{text}' is not a valid JobStatus")

/-- `utcformat` -/
def utcformat (t : DateTime) : String := String.ofList t.format

/-- `utcparse` -/
def utcparse (text : String) : Except PyError DateTime :=
  match DateTime.parse true text.toList with
  | some t => .ok t
  | none =>
    -- the format of old versions
    match DateTime.parse false text.toList with
    | some t => .ok t
    | none => .error (.valueError s!"time data '{text}' does not match format")

/-! ## Job objects -/

/-- The attributes of a `Job` that are persisted. -/
structure JobRecord (Obj : Type) where
  id : JobId
  createdAt : DateTime
  data : ByteArray
  successCallbackName : Option String := none
  failureCallbackName : Option String := none
  stoppedCallbackName : Option String := none
  description : Option String := none
  origin : String := ""
  enqueuedAt : Option DateTime := none
  startedAt : Option DateTime := none
  endedAt : Option DateTime := none
  lastHeartbeat : Option DateTime := none
  result : Option Obj := none
  excInfo : Option String := none
  timeout : Option ℤ := none
  successCallbackTimeout : Option ℤ := none
  failureCallbackTimeout : Option ℤ := none
  stoppedCallbackTimeout : Option ℤ := none
  resultTtl : Option ℤ := none
  failureTtl : Option ℤ := none
  ttl : Option ℤ := none
  workerName : Option String := none
  status : JobStatus := .created
  dependencyIds : List JobId := []
  metadata : Obj
  retriesLeft : Option ℤ := none
  numberOfRetries : Option ℤ := none
  retryIntervals : Option (List ℤ) := none
  allowDependencyFailures : Option Bool := none
  enqueueAtFront : Option Bool := none
  groupId : Option String := none
  enqueueAtFrontOnRetry : Bool := false
  repeatsLeft : Option ℤ := none
  repeatIntervals : Option (List ℤ) := none

variable {Obj : Type} [DecidableEq Obj]

/-! ## Writing -/

/-- `x or ''` -/
def textOrEmpty (x : Option String) : PyValue := .text (x.getD "")

/-- `utcformat(x) if x else ''` -/
def timeOrEmpty (x : Option DateTime) : PyValue := .text ((x.map utcformat).getD "")

/-- `int(x)` of a boolean. -/
def boolInt (x : Bool) : PyValue := .int (if x then 1 else 0)

/-- `json.dumps` of integers. -/
def dumpsInts (l : List ℤ) : String := String.ofList (Text.writeArray Text.writeInt l)

/-- `json.dumps` of strings. -/
def dumpsTexts (l : List String) : String :=
  String.ofList (Text.writeArray Text.writeString (l.map String.toList))

namespace JobRecord

/-- `Job.to_dict` -/
def toDict (c : Codec Obj) (self : JobRecord Obj) (includeMeta includeResult : Bool) :
    JobField → Option PyValue
  | .createdAt => some (.text (utcformat self.createdAt))
  | .data => some (.bytes (c.compress self.data))
  | .successCallbackName => some (textOrEmpty self.successCallbackName)
  | .failureCallbackName => some (textOrEmpty self.failureCallbackName)
  | .stoppedCallbackName => some (textOrEmpty self.stoppedCallbackName)
  | .startedAt => some (timeOrEmpty self.startedAt)
  | .endedAt => some (timeOrEmpty self.endedAt)
  | .lastHeartbeat => some (timeOrEmpty self.lastHeartbeat)
  | .workerName => some (textOrEmpty self.workerName)
  | .groupId => some (textOrEmpty self.groupId)
  | .numberOfRetries => self.numberOfRetries.map .int
  | .retriesLeft => self.retriesLeft.map .int
  | .retryIntervals => self.retryIntervals.map fun l => .text (dumpsInts l)
  | .enqueueAtFrontOnRetry =>
    if self.enqueueAtFrontOnRetry then some (boolInt self.enqueueAtFrontOnRetry) else none
  | .origin => if self.origin = "" then none else some (.text self.origin)
  | .description => self.description.map .text
  | .enqueuedAt => self.enqueuedAt.map fun t => .text (utcformat t)
  | .repeatsLeft => self.repeatsLeft.map .int
  | .repeatIntervals => self.repeatIntervals.map fun l => .text (dumpsInts l)
  | .result => if includeResult then self.result.map fun o => .bytes (c.dumps o) else none
  | .excInfo =>
    if includeResult then self.excInfo.map fun e => .bytes (c.compress e.toByteArray) else none
  | .timeout => self.timeout.map .int
  | .successCallbackTimeout => self.successCallbackTimeout.map .int
  | .failureCallbackTimeout => self.failureCallbackTimeout.map .int
  | .stoppedCallbackTimeout => self.stoppedCallbackTimeout.map .int
  | .resultTtl => self.resultTtl.map .int
  | .failureTtl => self.failureTtl.map .int
  | .status => some (.text self.status.text)
  | .dependencyId => self.dependencyIds.head?.map .text
  | .dependencyIds =>
    if self.dependencyIds = [] then none else some (.text (dumpsTexts self.dependencyIds))
  | .metadata =>
    if self.metadata ≠ c.emptyDict ∧ includeMeta then some (.bytes (c.dumps self.metadata))
    else none
  | .ttl => (self.ttl.filter (· ≠ 0)).map .int
  | .allowDependencyFailures => self.allowDependencyFailures.map boolInt
  | .enqueueAtFront => self.enqueueAtFront.map boolInt

end JobRecord

/-! ## Reading -/

/-- `v if (v := obj.get(…))`: an empty byte string counts as `None`. -/
def truthy (v : Option ByteArray) : Option ByteArray := v.filter (· ≠ ByteArray.empty)

/-- Reads a field that is there and not empty. -/
def readIf {α : Type} (read : ByteArray → Except PyError α) :
    Option ByteArray → Except PyError (Option α)
  | none => .ok none
  | some v => some <$> read v

/-- `int(v)` -/
def parseInt (v : ByteArray) : Except PyError ℤ := do
  let text ← decode v
  match Text.whole Text.readInt text.toList with
  | some n => .ok n
  | none => .error (.valueError s!"invalid literal for int() with base 10: '{text}'")

/-- `str_to_date(v)` -/
def strToDate (v : ByteArray) : Except PyError DateTime := do
  let text ← decode v
  utcparse text

/-- `bool(int(v))` -/
def parseBool (v : ByteArray) : Except PyError Bool := do
  let n ← parseInt v
  return decide (n ≠ 0)

/-- `json.loads(v.decode())` of integers. -/
def loadsInts (v : ByteArray) : Except PyError (List ℤ) := do
  let text ← decode v
  match Text.loads Text.readJsonInt text.toList with
  | some l => .ok l
  | none => .error (.valueError "JSONDecodeError")

/-- `json.loads(v.decode())` of strings. -/
def loadsTexts (v : ByteArray) : Except PyError (List String) := do
  let text ← decode v
  match Text.loads Text.readString text.toList with
  | some l => .ok (l.map String.ofList)
  | none => .error (.valueError "JSONDecodeError")

/-- `JobStatus(as_text(v))` -/
def parseStatus (v : ByteArray) : Except PyError JobStatus := do
  let text ← decode v
  JobStatus.ofText text

/-- A compressed text; one that is not compressed is taken as it is. -/
def decompressText (c : Codec Obj) (v : ByteArray) : Except PyError String :=
  decode ((c.decompress v).getD v)

/-- The result of a job, if there is one. -/
def loadsResult (c : Codec Obj) (v : Option ByteArray) : Option Obj :=
  (truthy v).map fun v => (c.loads v).getD c.unserializableReturnValue

def loadsMetadata (c : Codec Obj) (v : Option ByteArray) : Obj :=
  match truthy v with
  | some v => (c.loads v).getD (c.unserialized v)
  | none => c.emptyDict

namespace JobRecord

/-- A `Job` object as its constructor leaves it. -/
def new (c : Codec Obj) (id : JobId) (now : DateTime) : JobRecord Obj :=
  { id := id, createdAt := now, data := ByteArray.empty, metadata := c.emptyDict }

/-- `obj['data']`. The message of the exception goes on with the hash, which is left out. -/
def readData (obj : RawHash) : Except PyError ByteArray :=
  match obj .data with
  | some rawData => .ok rawData
  | none => .error (.noSuchJobError "Unexpected job format")

/-- `Job.restore`: the data of the call, and where the job belongs. -/
def restoreCall (c : Codec Obj) (obj : RawHash) (now : DateTime) (self : JobRecord Obj) :
    Except PyError (JobRecord Obj) := do
  let rawData ← readData obj
  let createdAt ← readIf strToDate (truthy (obj .createdAt))
  let origin ← readIf decode (truthy (obj .origin))
  let workerName ← readIf decode (truthy (obj .workerName))
  let description ← readIf decode (truthy (obj .description))
  return { self with
    -- data that is not compressed is taken as it is
    data := (c.decompress rawData).getD rawData
    createdAt := createdAt.getD now
    origin := origin.getD ""
    workerName := workerName
    description := description }

/-- `Job.restore`: the timestamps, and the group. -/
def restoreTimes (obj : RawHash) (self : JobRecord Obj) : Except PyError (JobRecord Obj) := do
  let enqueuedAt ← readIf strToDate (truthy (obj .enqueuedAt))
  let startedAt ← readIf strToDate (truthy (obj .startedAt))
  let endedAt ← readIf strToDate (truthy (obj .endedAt))
  let lastHeartbeat ← readIf strToDate (truthy (obj .lastHeartbeat))
  let groupId ← readIf decode (truthy (obj .groupId))
  return { self with
    enqueuedAt := enqueuedAt
    startedAt := startedAt
    endedAt := endedAt
    lastHeartbeat := lastHeartbeat
    groupId := groupId }

/-- `Job.restore`: the result, the times to live and the status. -/
def restoreLimits (c : Codec Obj) (obj : RawHash) (self : JobRecord Obj) :
    Except PyError (JobRecord Obj) := do
  let timeout ← readIf parseInt (truthy (obj .timeout))
  let resultTtl ← readIf parseInt (truthy (obj .resultTtl))
  let failureTtl ← readIf parseInt (truthy (obj .failureTtl))
  let status ← readIf parseStatus (truthy (obj .status))
  return { self with
    result := loadsResult c (obj .result)
    timeout := timeout
    resultTtl := resultTtl
    failureTtl := failureTtl
    status := status.getD .created }

/-- `Job.restore`: the callbacks. Their timeouts are read whenever they are there. -/
def restoreCallbacks (obj : RawHash) (self : JobRecord Obj) : Except PyError (JobRecord Obj) := do
  let successCallbackName ← readIf decode (truthy (obj .successCallbackName))
  let successCallbackTimeout ← readIf parseInt (obj .successCallbackTimeout)
  let failureCallbackName ← readIf decode (truthy (obj .failureCallbackName))
  let failureCallbackTimeout ← readIf parseInt (obj .failureCallbackTimeout)
  let stoppedCallbackName ← readIf decode (truthy (obj .stoppedCallbackName))
  let stoppedCallbackTimeout ← readIf parseInt (obj .stoppedCallbackTimeout)
  return { self with
    successCallbackName := successCallbackName
    successCallbackTimeout := successCallbackTimeout
    failureCallbackName := failureCallbackName
    failureCallbackTimeout := failureCallbackTimeout
    stoppedCallbackName := stoppedCallbackName
    stoppedCallbackTimeout := stoppedCallbackTimeout }

/-- `Job.restore`: the dependencies. -/
def readDependencyIds (obj : RawHash) : Except PyError (List JobId) :=
  match truthy (obj .dependencyIds), truthy (obj .dependencyId) with
  | some dependencyIds, _ => loadsTexts dependencyIds
  | none, some dependencyId => do
    -- the only dependency of a job that an old version has saved
    let dependencyId ← decode dependencyId
    return [dependencyId]
  | none, none => .ok []

/-- `Job.restore`: the dependencies, the time to live and the metadata. -/
def restoreDependencies (c : Codec Obj) (obj : RawHash) (self : JobRecord Obj) :
    Except PyError (JobRecord Obj) := do
  let dependencyIds ← readDependencyIds obj
  let allowDependencyFailures ← readIf parseBool (truthy (obj .allowDependencyFailures))
  let enqueueAtFront ← readIf parseBool (obj .enqueueAtFront)
  let ttl ← readIf parseInt (truthy (obj .ttl))
  return { self with
    dependencyIds := dependencyIds
    allowDependencyFailures := allowDependencyFailures
    enqueueAtFront := enqueueAtFront
    ttl := ttl
    metadata := loadsMetadata c (obj .metadata) }

/-- `Job.restore`: retries, repeats and the exception. -/
def restoreRetries (c : Codec Obj) (obj : RawHash) (self : JobRecord Obj) :
    Except PyError (JobRecord Obj) := do
  let numberOfRetries ← readIf parseInt (truthy (obj .numberOfRetries))
  let retriesLeft ← readIf parseInt (truthy (obj .retriesLeft))
  let retryIntervals ← readIf loadsInts (truthy (obj .retryIntervals))
  let enqueueAtFrontOnRetry ← readIf parseBool (truthy (obj .enqueueAtFrontOnRetry))
  let repeatsLeft ← readIf parseInt (truthy (obj .repeatsLeft))
  let repeatIntervals ← readIf loadsInts (truthy (obj .repeatIntervals))
  let excInfo ← readIf (decompressText c) (truthy (obj .excInfo))
  return { self with
    numberOfRetries := numberOfRetries
    retriesLeft := retriesLeft
    retryIntervals := retryIntervals
    enqueueAtFrontOnRetry := enqueueAtFrontOnRetry.getD false
    repeatsLeft := repeatsLeft
    repeatIntervals := repeatIntervals
    excInfo := excInfo }

/-- `Job.restore` on a new object. -/
def restore (c : Codec Obj) (id : JobId) (now : DateTime) (obj : RawHash) :
    Except PyError (JobRecord Obj) := do
  let job ← restoreCall c obj now (new c id now)
  let job ← restoreTimes obj job
  let job ← restoreLimits c obj job
  let job ← restoreCallbacks obj job
  let job ← restoreDependencies c obj job
  restoreRetries c obj job

end JobRecord
end RedisQueue
