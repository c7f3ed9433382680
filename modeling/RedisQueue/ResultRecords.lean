import RedisQueue.HashRoundTrip
import RedisQueue.Lib.EntryStream

/-!
# Results

`Result.serialize`, `Result.restore`, `Result.save`, `Result.all` and `Result.fetch_latest`
(`rq/results.py`), byte by byte, on a database with the streams `rq:results:<id>`.

* `ResultRecord`: a `Result` object;
* `ResultRecord.restore_serialize`: what is restored is what has been serialised;
* `ResultRecord.saved_results`: after some saves all results come back, the newest first, and the
  latest one whether or not the reader blocks.

What serialises, compresses and encodes is a parameter, `ResultCodec`.
-/

namespace RedisQueue

/-! ## Payloads -/

/-- The fields of an entry. -/
inductive ResultField where
  | type | workerName | excString | returnValue | executionId | executionStartedAt
  | executionEndedAt
deriving DecidableEq, Repr

def ResultField.all : List ResultField :=
  [.type, .workerName, .excString, .returnValue, .executionId, .executionStartedAt,
    .executionEndedAt]

lemma ResultField.mem_all (f : ResultField) : f ∈ ResultField.all := by
  cases f <;> decide

abbrev Payload := ResultField → Option ByteArray

instance : DecidableEq Payload := fun h h' =>
  decidable_of_iff (∀ f ∈ ResultField.all, h f = h' f)
    ⟨fun heq => funext fun f => heq f f.mem_all, fun heq _ _ => heq ▸ rfl⟩

/-- A moment, in microseconds. -/
abbrev Microseconds := ℤ

/-- What a result is encoded with. `Obj` are the Python objects that a job may return. -/
structure ResultCodec (Obj : Type) where
  /-- `None` -/
  pyNone : Obj
  /-- `UNSERIALIZABLE_RETURN_VALUE_PAYLOAD` -/
  unserializableReturnValue : Obj
  /-- `Option.none` stands for an exception. -/
  dumps : Obj → Option ByteArray
  loads : ByteArray → Option Obj
  compress : ByteArray → ByteArray
  decompress : ByteArray → Option ByteArray
  /-- `b64encode(…).decode()` -/
  b64encode : ByteArray → String
  b64decode : String → Option ByteArray
  /-- The text of the number that `datetime.timestamp` returns. -/
  timestamp : Microseconds → String
  /-- `datetime.fromtimestamp(float(…))` -/
  fromTimestamp : String → Option Microseconds

/-- Whatever is encoded can be decoded, and the payload for what cannot be serialised can. No
compressed text, no timestamp and no encoding of something is empty. -/
structure ResultCodec.Lawful {Obj : Type} (c : ResultCodec Obj) : Prop where
  loads_dumps : ∀ o b, c.dumps o = some b → c.loads b = some o
  dumps_unserializable : ∃ b, c.dumps c.unserializableReturnValue = some b
  decompress_compress : ∀ b, c.decompress (c.compress b) = some b
  compress_ne_empty : ∀ b, c.compress b ≠ ByteArray.empty
  b64decode_b64encode : ∀ b, c.b64decode (c.b64encode b) = some b
  b64encode_ne_empty : ∀ b, b ≠ ByteArray.empty → c.b64encode b ≠ ""
  fromTimestamp_timestamp : ∀ t, c.fromTimestamp (c.timestamp t) = some t
  timestamp_ne_empty : ∀ t, c.timestamp t ≠ ""

/-- The value of a `Result.Type`. -/
def ResultType.value : ResultType → ℤ
  | .successful => 1
  | .failed => 2
  | .stopped => 3
  | .retried => 4
  | .maxRetriesExceeded => 5

/-- `Result.Type(value)` -/
def ResultType.ofValue (value : ℤ) : Except PyError ResultType :=
  match [ResultType.successful, .failed, .stopped, .retried, .maxRetriesExceeded].find?
      (·.value = value) with
  | some type => .ok type
  | none => .error (.valueError s!"{value} is not a valid Type")

@[simp] lemma ResultType.ofValue_value (type : ResultType) : ofValue type.value = .ok type := by
  cases type <;> rfl

/-- The text of the id of an entry. -/
def entryText (id : EntryId) : String :=
  String.ofList (Text.writeInt id.ms ++ '-' :: Text.writeInt id.seq)

/-! ## Results -/

/-- A `Result` object. -/
structure ResultRecord (Obj : Type) where
  jobId : JobId
  type : ResultType
  id : Option String := none
  createdAt : Microseconds := 0
  returnValue : Obj
  excString : Option String := none
  workerName : String := ""
  executionId : Option ExecutionId := none
  executionStartedAt : Option Microseconds := none
  executionEndedAt : Option Microseconds := none

variable {Obj : Type} [DecidableEq Obj]

namespace ResultRecord

/-! ### Writing -/

/-- The serialised return value: that of a fixed text if it cannot be serialised. -/
def serialized (c : ResultCodec Obj) (self : ResultRecord Obj) : Except PyError ByteArray :=
  match c.dumps self.returnValue <|> c.dumps c.unserializableReturnValue with
  | some serialized => .ok serialized
  | none => .error (.userError "not serializable")

/-- `Result.serialize`. A number that is not an integer is given by its text. -/
def serialize (c : ResultCodec Obj) (self : ResultRecord Obj) :
    Except PyError (ResultField → Option PyValue) := do
  let serialized ← self.serialized c
  return fun
    | .type => some (.int self.type.value)
    | .workerName => some (.text self.workerName)
    | .excString => self.excString.map fun e => .text (c.b64encode (c.compress e.toByteArray))
    | .returnValue =>
      if self.returnValue = c.pyNone then none else some (.text (c.b64encode serialized))
    | .executionId => (self.executionId.filter (· ≠ "")).map .text
    | .executionStartedAt => self.executionStartedAt.map fun t => .text (c.timestamp t)
    | .executionEndedAt => self.executionEndedAt.map fun t => .text (c.timestamp t)

/-- The payload of an entry. -/
def payload (data : ResultField → Option PyValue) : Payload := fun f => (data f).map encode

/-! ### Reading -/

/-- `b64decode(v)` -/
def readBase64 (c : ResultCodec Obj) (v : ByteArray) : Except PyError ByteArray := do
  let text ← decode v
  match c.b64decode text with
  | some bytes => .ok bytes
  | none => .error (.valueError "Incorrect padding")

/-- `serializer.loads(b64decode(v.decode()))` -/
def readReturnValue (c : ResultCodec Obj) (v : ByteArray) : Except PyError Obj := do
  let bytes ← readBase64 c v
  match c.loads bytes with
  | some o => .ok o
  | none => .error (.userError "not deserializable")

/-- `zlib.decompress(b64decode(v)).decode()` -/
def readExcString (c : ResultCodec Obj) (v : ByteArray) : Except PyError String := do
  let bytes ← readBase64 c v
  match c.decompress bytes with
  | some text => decode text
  | none => .error (.userError "zlib.error")

/-- `datetime.fromtimestamp(float(v), tz=timezone.utc)` -/
def readTimestamp (c : ResultCodec Obj) (v : ByteArray) : Except PyError Microseconds := do
  let text ← decode v
  match c.fromTimestamp text with
  | some t => .ok t
  | none => .error (.valueError s!"could not convert string to float: '{text}'")

/-- The time in the id of an entry: `int(result_id.split('-')[0]) / 1000`. -/
def readCreatedAt (resultId : String) : Except PyError Microseconds :=
  match Text.whole Text.readInt (resultId.toList.takeWhile (· ≠ '-')) with
  | some ms => .ok (ms * 1000)
  | none => .error (.valueError "invalid literal for int() with base 10")

/-- `Result.Type(int(payload['type']))` -/
def readType (v : Option ByteArray) : Except PyError ResultType :=
  match v with
  | some v => do
    let value ← parseInt v
    ResultType.ofValue value
  | none => .error (.keyError "type")

/-- `Result.restore`. An empty value, which `serialize` never writes, is read as `None`. -/
def restore (c : ResultCodec Obj) (jobId : JobId) (resultId : String) (payload : Payload) :
    Except PyError (ResultRecord Obj) := do
  let createdAt ← readCreatedAt resultId
  -- a return value counts when it is there
  let returnValue ← readIf (readReturnValue c) (payload .returnValue)
  let excString ← readIf (readExcString c) (truthy (payload .excString))
  let workerName ← readIf decode (truthy (payload .workerName))
  let executionId ← readIf decode (truthy (payload .executionId))
  let executionStartedAt ← readIf (readTimestamp c) (truthy (payload .executionStartedAt))
  let executionEndedAt ← readIf (readTimestamp c) (truthy (payload .executionEndedAt))
  let type ← readType (payload .type)
  return {
    jobId := jobId
    type := type
    id := some resultId
    createdAt := createdAt
    returnValue := returnValue.getD c.pyNone
    excString := excString
    workerName := workerName.getD ""
    executionId := executionId
    executionStartedAt := executionStartedAt
    executionEndedAt := executionEndedAt }

end ResultRecord

/-! ## Streams of results -/

/-- The database: the stream `rq:results:<id>` of each job. -/
abbrev ResultStore := KeyStore JobId fun _ => EntryStream Payload

abbrev ResultPipeline := Pipeline JobId fun _ => EntryStream Payload

abbrev ResultCommand := Command JobId fun _ => EntryStream Payload

/-- A program that talks to that database. -/
abbrev Resulting (α : Type) := Prog ResultStore PyError α

/-- What the server adds to a save: its clock in milliseconds and in seconds, and how many entries
it would like to remove. `XADD` with an approximate `MAXLEN` may remove fewer. -/
structure ServerMoment where
  clock : ℕ
  evicted : ℕ
  now : Time

/-- `XADD` with `maxlen=10` -/
def xadd (jobId : JobId) (payload : Payload) (m : ServerMoment) : ResultCommand :=
  .write jobId fun results => (results.add m.clock payload).trim 10 m.evicted

/-- `PERSIST` or `EXPIRE`. A key that is to live no longer is deleted. -/
def ttlCommands (jobId : JobId) (ttl : Option ℤ) (m : ServerMoment) : List ResultCommand :=
  match ttl with
  | none => []
  | some ttl =>
    if ttl = -1 then [.persist jobId]
    else if ttl ≤ 0 then [.del jobId] else [.expire jobId (m.now + ttl)]

namespace ResultRecord

/-- Sends the commands through the pipeline. -/
def commandEach : List ResultCommand → ResultPipeline → Resulting ResultPipeline
  | [], pipe => return pipe
  | c :: cs, pipe => do
    let pipe ← pipe.command c
    commandEach cs pipe

/-- Sends the commands through the connection. -/
def performEach : List ResultCommand → Resulting Unit
  | [] => return ()
  | c :: cs => do
    Prog.perform c.run
    performEach cs

/-- `Result.save`. Only without a pipeline the id is known. -/
def save (c : ResultCodec Obj) (self : ResultRecord Obj) (ttl : Option ℤ)
    (pipeline : Option ResultPipeline) (m : ServerMoment) :
    Resulting (ResultRecord Obj × Option ResultPipeline) := do
  let data ← Prog.ofExcept (self.serialize c)
  match pipeline with
  | none => do
    let id ← .step (xadd self.jobId (payload data) m).run fun s =>
      .ret ((s.val self.jobId).lastId.next m.clock)
    performEach (ttlCommands self.jobId ttl m)
    return ({ self with id := some (entryText id) }, none)
  | some pipe => do
    let pipe ← pipe.command (xadd self.jobId (payload data) m)
    let pipe ← commandEach (ttlCommands self.jobId ttl m) pipe
    return (self, some pipe)

/-- `Result.all` -/
def all (c : ResultCodec Obj) (jobId : JobId) : Resulting (List (ResultRecord Obj)) := do
  let response ← Prog.read fun s => (s.val jobId).newestFirst
  Prog.ofExcept (response.mapM fun e => restore c jobId (entryText e.1) e.2)

/-- The latest entry. With a timeout the reader waits while there is none. -/
def latestEntry (jobId : JobId) (timeout : ℕ) : Resulting (Option (EntryId × Payload)) :=
  if timeout ≠ 0 then Prog.read fun s => ((s.val jobId).after EntryId.zero).getLast?
  else Prog.read fun s => ((s.val jobId).newestFirst.take 1).head?

/-- `Result.fetch_latest` -/
def fetchLatest (c : ResultCodec Obj) (jobId : JobId) (timeout : ℕ) :
    Resulting (Option (ResultRecord Obj)) := do
  match ← latestEntry jobId timeout with
  | none => return none
  | some e => Prog.ofExcept (some <$> restore c jobId (entryText e.1) e.2)

/-! ## The round trip -/

/-- The return value that comes back. -/
def storedValue (c : ResultCodec Obj) (self : ResultRecord Obj) : Obj :=
  if self.returnValue = c.pyNone then c.pyNone
  else if (c.dumps self.returnValue).isSome then self.returnValue else c.unserializableReturnValue

/-- What is restored is what has been saved. -/
structure Restored (c : ResultCodec Obj) (saved restored : ResultRecord Obj) : Prop where
  jobId : restored.jobId = saved.jobId
  type : restored.type = saved.type
  returnValue : restored.returnValue = saved.storedValue c
  excString : restored.excString = saved.excString
  workerName : restored.workerName = saved.workerName
  executionId : restored.executionId = saved.executionId
  executionStartedAt : restored.executionStartedAt = saved.executionStartedAt
  executionEndedAt : restored.executionEndedAt = saved.executionEndedAt

variable {c : ResultCodec Obj} {self : ResultRecord Obj}

omit [DecidableEq Obj] in
lemma readBase64_encode (hc : c.Lawful) (b : ByteArray) :
    readBase64 c (encode (.text (c.b64encode b))) = .ok b := by
  unfold readBase64
  rw [decode_encode, Except.ok_bind, hc.b64decode_b64encode]

omit [DecidableEq Obj] in
lemma readExcString_encode (hc : c.Lawful) (text : String) :
    readExcString c (encode (.text (c.b64encode (c.compress text.toByteArray)))) = .ok text := by
  unfold readExcString
  rw [readBase64_encode hc, Except.ok_bind, hc.decompress_compress]
  exact decode_encode text

omit [DecidableEq Obj] in
lemma readTimestamp_encode (hc : c.Lawful) (t : Microseconds) :
    readTimestamp c (encode (.text (c.timestamp t))) = .ok t := by
  unfold readTimestamp
  rw [decode_encode, Except.ok_bind, hc.fromTimestamp_timestamp]

omit [DecidableEq Obj] in
/-- What has been serialised is the return value or the fixed text. -/
lemma serialized_eq (hc : c.Lawful) (self : ResultRecord Obj) :
    ∃ b, self.serialized c = .ok b ∧ c.loads b =
      some (if (c.dumps self.returnValue).isSome then self.returnValue
        else c.unserializableReturnValue) := by
  cases hdumps : c.dumps self.returnValue with
  | some b =>
    refine ⟨b, by simp [serialized, hdumps], ?_⟩
    simpa using hc.loads_dumps _ _ hdumps
  | none =>
    obtain ⟨b, hb⟩ := hc.dumps_unserializable
    refine ⟨b, by simp [serialized, hdumps, hb], ?_⟩
    simpa using hc.loads_dumps _ _ hb

lemma readCreatedAt_entryText (id : EntryId) :
    readCreatedAt (entryText id) = .ok (id.ms * 1000) := by
  have hdigits : ∀ ch ∈ Text.writeInt id.ms, decide (ch ≠ '-') = true := fun ch hch => by
    have hdigit : ch.isDigit = true := Text.isDigit_toDigits id.ms ch hch
    exact decide_eq_true fun h => absurd (h ▸ hdigit) (by decide)
  have htake : (entryText id).toList.takeWhile (· ≠ '-') = Text.writeInt id.ms := by
    rw [entryText, String.toList_ofList, List.takeWhile_append_of_pos hdigits]
    simp
  rw [readCreatedAt, htake, Text.whole_writeInt]

/-- What `Result.serialize` returns, when `serialized` is the serialised return value. -/
lemma serialize_eq {b : ByteArray} (hb : self.serialized c = .ok b) :
    ∃ data, self.serialize c = .ok data ∧
      payload data .type = some (encode (.int self.type.value)) ∧
      payload data .workerName = some (encode (.text self.workerName)) ∧
      payload data .excString = (self.excString.map fun e =>
        PyValue.text (c.b64encode (c.compress e.toByteArray))).map encode ∧
      payload data .returnValue = (if self.returnValue = c.pyNone then none
        else some (.text (c.b64encode b))).map encode ∧
      payload data .executionId =
        ((self.executionId.filter (· ≠ "")).map PyValue.text).map encode ∧
      payload data .executionStartedAt =
        (self.executionStartedAt.map fun t => PyValue.text (c.timestamp t)).map encode ∧
      payload data .executionEndedAt =
        (self.executionEndedAt.map fun t => PyValue.text (c.timestamp t)).map encode := by
  unfold serialize
  rw [hb]
  exact ⟨_, rfl, rfl, rfl, rfl, rfl, rfl, rfl, rfl⟩

omit [DecidableEq Obj] in
lemma readIf_timestamp (hc : c.Lawful) (t : Option Microseconds) :
    readIf (readTimestamp c)
      (truthy ((t.map fun t => PyValue.text (c.timestamp t)).map encode)) = .ok t :=
  readIf_truthy_map (readTimestamp_encode hc)
    (fun t => mt encode_text_eq_empty.mp (hc.timestamp_ne_empty t)) t

omit [DecidableEq Obj] in
lemma readIf_excString (hc : c.Lawful) (text : Option String) :
    readIf (readExcString c) (truthy ((text.map fun e =>
      PyValue.text (c.b64encode (c.compress e.toByteArray))).map encode)) = .ok text :=
  readIf_truthy_map (readExcString_encode hc) (fun _ =>
    mt encode_text_eq_empty.mp (hc.b64encode_ne_empty _ (hc.compress_ne_empty _))) text

/-- `None` is left out, and every other value counts, even if it is false. -/
lemma readIf_returnValue (hc : c.Lawful) {b : ByteArray} (hloads : c.loads b =
      some (if (c.dumps self.returnValue).isSome then self.returnValue
        else c.unserializableReturnValue)) :
    ∃ o, readIf (readReturnValue c) ((if self.returnValue = c.pyNone then none
        else some (PyValue.text (c.b64encode b))).map encode) = .ok o ∧
      o.getD c.pyNone = self.storedValue c := by
  unfold storedValue
  split
  · exact ⟨none, rfl, rfl⟩
  · have hread : readReturnValue c (encode (.text (c.b64encode b))) =
        .ok (if (c.dumps self.returnValue).isSome then self.returnValue
          else c.unserializableReturnValue) := by
      unfold readReturnValue
      rw [readBase64_encode hc, Except.ok_bind, hloads]
    refine ⟨some _, ?_, rfl⟩
    show some <$> readReturnValue c (encode (.text (c.b64encode b))) = _
    rw [hread]
    rfl

/-- **The round trip of a result.** -/
theorem restore_serialize (hc : c.Lawful) (self : ResultRecord Obj)
    (hexecution : self.executionId ≠ some "") (id : EntryId) :
    ∃ data, self.serialize c = .ok data ∧ ∃ restored,
      restore c self.jobId (entryText id) (payload data) = .ok restored ∧
        Restored c self restored := by
  obtain ⟨b, hb, hloads⟩ := serialized_eq hc self
  obtain ⟨data, hdata, htype, hworkerName, hexcString, hreturnValue, hexecutionId, hstartedAt,
    hendedAt⟩ := serialize_eq hb
  obtain ⟨o, ho, hvalue⟩ := readIf_returnValue hc hloads
  have hread : restore c self.jobId (entryText id) (payload data) = .ok {
      jobId := self.jobId
      type := self.type
      id := some (entryText id)
      createdAt := id.ms * 1000
      returnValue := o.getD c.pyNone
      excString := self.excString
      workerName := (if self.workerName = "" then none else some self.workerName).getD ""
      executionId := (self.executionId.filter (· ≠ "")).filter (· ≠ "")
      executionStartedAt := self.executionStartedAt
      executionEndedAt := self.executionEndedAt } := by
    unfold restore
    rw [readCreatedAt_entryText, Except.ok_bind, hreturnValue, ho, Except.ok_bind, hexcString,
      readIf_excString hc, Except.ok_bind, hworkerName, readIf_text, Except.ok_bind, hexecutionId,
      readIf_text_map, Except.ok_bind, hstartedAt, readIf_timestamp hc, Except.ok_bind, hendedAt,
      readIf_timestamp hc, Except.ok_bind, htype, readType, parseInt_encode, Except.ok_bind,
      ResultType.ofValue_value, Except.ok_bind]
    rfl
  have hworker : (if self.workerName = "" then none else some self.workerName).getD "" =
      self.workerName := by
    split
    · next h => exact h.symm
    · rfl
  have hexecution' : (self.executionId.filter (· ≠ "")).filter (· ≠ "") = self.executionId := by
    cases hid : self.executionId with
    | none => rfl
    | some executionId =>
      have hne : executionId ≠ "" := fun h => hexecution (hid.trans (congrArg some h))
      simp [Option.filter, hne]
  exact ⟨data, hdata, _, hread, ⟨rfl, rfl, hvalue, rfl, hworker, hexecution', rfl, rfl⟩⟩

/-! ## Sequences of saves -/

/-- A save: the result, its time to live, and whether it goes through a pipeline of its own. -/
structure SaveCall (Obj : Type) where
  result : ResultRecord Obj
  ttl : Option ℤ
  pipelined : Bool
  moment : ServerMoment

/-- The time to live of the save is `None`, `-1` or positive. -/
def SaveCall.KeepsResults (call : SaveCall Obj) : Prop :=
  ∀ ttl ∈ call.ttl, ttl = -1 ∨ 0 < ttl

/-- Makes one save. -/
def saveOne (c : ResultCodec Obj) (call : SaveCall Obj) : Resulting Unit :=
  if call.pipelined then do
    let (_, pipeline) ← save c call.result call.ttl (some {}) call.moment
    let _ ← (pipeline.getD {}).execute
    return ()
  else do
    let _ ← save c call.result call.ttl none call.moment
    return ()

/-- Makes the saves one after the other. -/
def saveEach (c : ResultCodec Obj) : List (SaveCall Obj) → Resulting Unit
  | [] => return ()
  | call :: calls => do
    saveOne c call
    saveEach c calls

omit [DecidableEq Obj] in
lemma commandEach_eq {pipe : ResultPipeline} (h : pipe.immediate = false)
    (cs : List ResultCommand) : commandEach cs pipe = .ret (pipe.buffer cs) := by
  induction cs generalizing pipe with
  | nil => simp [commandEach]
  | cons command cs ih =>
    rw [commandEach, Pipeline.command_eq_buffer h, Prog.ret_bind, ih (by simpa using h)]
    simp

omit [DecidableEq Obj] in
lemma run_performEach (cs : List ResultCommand) (s : ResultStore) :
    (performEach cs).run s = (.ok (), (Command.seq cs).run s) := by
  induction cs generalizing s with
  | nil => rfl
  | cons command cs ih => exact ih (command.run s)

/-- A save sends the same commands either way. -/
lemma run_saveOne {call : SaveCall Obj} {data : ResultField → Option PyValue}
    (hdata : call.result.serialize c = .ok data) (s : ResultStore) :
    (saveOne c call).run s = (.ok (),
      (Command.seq (xadd call.result.jobId (payload data) call.moment ::
        ttlCommands call.result.jobId call.ttl call.moment)).run s) := by
  unfold saveOne save
  rw [hdata, Prog.ofExcept_ok, Prog.ret_bind, Prog.ret_bind]
  split
  · have hpipe := Pipeline.run_execute_of_unwatched (ε := PyError)
      (p := ({} : ResultPipeline).buffer (xadd call.result.jobId (payload data) call.moment ::
        ttlCommands call.result.jobId call.ttl call.moment)) rfl s
    simp only [Pipeline.command_eq_buffer, Pipeline.immediate_empty, Pipeline.immediate_buffer,
      Pipeline.buffer_buffer, commandEach_eq, Prog.ret_bind, Prog.pure_eq, Option.getD_some]
    exact Prog.run_bind_ok hpipe
  · simp only [Prog.step_bind, Prog.ret_bind, bind_assoc, Prog.run_step]
    rw [Prog.run_bind_ok (run_performEach _ _)]
    rfl

omit [DecidableEq Obj] in
/-- A time to live does not change what is in the streams. -/
lemma val_ttlCommands {call : SaveCall Obj} (h : call.KeepsResults) (jobId : JobId)
    (s : ResultStore) :
    ((Command.seq (ttlCommands jobId call.ttl call.moment)).run s).val = s.val := by
  unfold ttlCommands
  cases httl : call.ttl with
  | none => rfl
  | some ttl =>
    rcases h ttl httl with rfl | hpos
    · simp
    · have hne : ttl ≠ -1 := by omega
      simp [hne, not_le.mpr hpos]

/-- The entries that a save appends. -/
def Appends (c : ResultCodec Obj) (call : SaveCall Obj) (e : EntryId × Payload) : Prop :=
  ∃ data, call.result.serialize c = .ok data ∧ e.2 = payload data

/-- While there is room, the saves of a job append an entry each. -/
lemma run_saveEach (hc : c.Lawful) {jobId : JobId} {calls : List (SaveCall Obj)}
    (hjob : ∀ call ∈ calls, call.result.jobId = jobId) (hkeeps : ∀ call ∈ calls, call.KeepsResults)
    (s : ResultStore) (hroom : (s.val jobId).entries.length + calls.length ≤ 10) :
    ∃ s' added, (saveEach c calls).run s = (.ok (), s') ∧
      (s'.val jobId).entries = (s.val jobId).entries ++ added ∧
      List.Forall₂ (Appends c) calls added := by
  induction calls generalizing s with
  | nil => exact ⟨s, [], rfl, by simp, .nil⟩
  | cons call calls ih =>
    obtain ⟨b, hb, -⟩ := serialized_eq hc call.result
    obtain ⟨data, hdata, -⟩ := serialize_eq hb
    have hone := run_saveOne hdata s
    rw [hjob call List.mem_cons_self] at hone
    generalize hs₁ : (Command.seq (xadd jobId (payload data) call.moment ::
      ttlCommands jobId call.ttl call.moment)).run s = s₁ at hone
    rw [List.length_cons] at hroom
    have hentries : (s₁.val jobId).entries = (s.val jobId).entries ++
        [((s.val jobId).lastId.next call.moment.clock, payload data)] := by
      rw [← hs₁, Command.seq_cons_run, val_ttlCommands (hkeeps call List.mem_cons_self), xadd,
        Command.val_write, Function.update_self, EntryStream.entries_trim]
      · rfl
      · simp only [EntryStream.add, List.length_append, List.length_singleton]
        omega
    obtain ⟨s', added, hrun, hadded, hall⟩ := ih (fun other hother => hjob other
      (List.mem_cons_of_mem _ hother)) (fun other hother => hkeeps other
      (List.mem_cons_of_mem _ hother)) s₁ (by
        rw [hentries, List.length_append, List.length_singleton]
        omega)
    refine ⟨s', ((s.val jobId).lastId.next call.moment.clock, payload data) :: added, ?_, ?_,
      .cons ⟨data, hdata, rfl⟩ hall⟩
    · rw [saveEach, Prog.run_bind_ok hone]
      exact hrun
    · rw [hadded, hentries, List.append_assoc]
      rfl

omit [DecidableEq Obj] in
/-- Lists that agree element by element agree in the last one. -/
lemma rel_getLast? {α β : Type} {r : α → β → Prop} {as : List α} {bs : List β}
    (h : List.Forall₂ r as bs) : Option.Rel r as.getLast? bs.getLast? := by
  rw [← List.head?_reverse, ← List.head?_reverse]
  have hreverse := List.forall₂_reverse_iff.mpr h
  generalize as.reverse = as', bs.reverse = bs' at hreverse
  cases hreverse with
  | nil => exact .none
  | cons hab _ => exact .some hab

/-- An entry is restored as the result that has been saved. -/
lemma restore_appended (hc : c.Lawful) {call : SaveCall Obj} {e : EntryId × Payload}
    (hexecution : call.result.executionId ≠ some "") (h : Appends c call e) :
    ∃ restored, restore c call.result.jobId (entryText e.1) e.2 = .ok restored ∧
      Restored c call.result restored := by
  obtain ⟨data, hdata, he⟩ := h
  obtain ⟨data', hdata', hrestored⟩ := restore_serialize hc call.result hexecution e.1
  obtain rfl : data' = data := Except.ok.inj (hdata'.symm.trans hdata)
  rwa [he]

lemma mapM_restore (hc : c.Lawful) {jobId : JobId} {calls : List (SaveCall Obj)}
    {entries : List (EntryId × Payload)} (hjob : ∀ call ∈ calls, call.result.jobId = jobId)
    (hexecution : ∀ call ∈ calls, call.result.executionId ≠ some "")
    (h : List.Forall₂ (Appends c) calls entries) :
    ∃ results, (entries.mapM fun e => restore c jobId (entryText e.1) e.2) = .ok results ∧
      List.Forall₂ (Restored c) (calls.map SaveCall.result) results := by
  induction h with
  | nil => exact ⟨[], rfl, .nil⟩
  | @cons call e calls entries hcall _ ih =>
    obtain ⟨restored, hrestored, hsame⟩ := restore_appended hc
      (hexecution call List.mem_cons_self) hcall
    obtain ⟨results, hresults, hall⟩ := ih
      (fun other hother => hjob other (List.mem_cons_of_mem _ hother))
      (fun other hother => hexecution other (List.mem_cons_of_mem _ hother))
    rw [hjob call List.mem_cons_self] at hrestored
    refine ⟨restored :: results, ?_, .cons hsame hall⟩
    rw [List.mapM_cons, hrestored, Except.ok_bind, hresults]
    rfl

/-- Both ways to read the latest entry agree. -/
lemma run_latestEntry (jobId : JobId) (timeout : ℕ) (s : ResultStore) :
    (latestEntry jobId timeout).run s = (.ok (s.val jobId).entries.getLast?, s) := by
  unfold latestEntry
  split
  · rw [Prog.run_read, EntryStream.after_zero]
  · rw [Prog.run_read, EntryStream.head?_newestFirst]

lemma run_fetchLatest (hc : c.Lawful) {jobId : JobId} {calls : List (SaveCall Obj)}
    {s : ResultStore} (hjob : ∀ call ∈ calls, call.result.jobId = jobId)
    (hexecution : ∀ call ∈ calls, call.result.executionId ≠ some "")
    (h : List.Forall₂ (Appends c) calls (s.val jobId).entries) (timeout : ℕ) :
    ∃ latest, (fetchLatest c jobId timeout).run s = (.ok latest, s) ∧
      Option.Rel (Restored c) (calls.map SaveCall.result).getLast? latest := by
  have hlast := rel_getLast? h
  rw [fetchLatest, Prog.run_bind_ok (run_latestEntry jobId timeout s), List.getLast?_map]
  cases hcalls : calls.getLast? with
  | none =>
    rw [hcalls] at hlast
    cases hentries : (s.val jobId).entries.getLast? with
    | none => exact ⟨none, rfl, .none⟩
    | some e => rw [hentries] at hlast; cases hlast
  | some call =>
    have hmem : call ∈ calls := List.mem_of_getLast? hcalls
    rw [hcalls] at hlast
    cases hentries : (s.val jobId).entries.getLast? with
    | none => rw [hentries] at hlast; cases hlast
    | some e =>
      rw [hentries] at hlast
      cases hlast with
      | some hcall =>
        obtain ⟨restored, hrestored, hsame⟩ := restore_appended hc (hexecution call hmem) hcall
        rw [hjob call hmem] at hrestored
        refine ⟨some restored, ?_, .some hsame⟩
        show (Prog.ofExcept (some <$> restore c jobId (entryText e.1) e.2) : Resulting _).run s = _
        rw [hrestored]
        rfl

/-- **Results come back.** From a stream without entries, at most ten saves that keep the stream are
read back, the newest first, and the last one alone, whether or not the reader blocks. Nothing is
lost from any record on the way. -/
theorem saved_results (hc : c.Lawful) {jobId : JobId} (calls : List (SaveCall Obj))
    (hlength : calls.length ≤ 10) (hjob : ∀ call ∈ calls, call.result.jobId = jobId)
    (hexecution : ∀ call ∈ calls, call.result.executionId ≠ some "")
    (hkeeps : ∀ call ∈ calls, call.KeepsResults) (s : ResultStore)
    (hs : (s.val jobId).entries = []) :
    (∀ self : ResultRecord Obj, self.executionId ≠ some "" → ∀ id : EntryId,
      ∃ data, self.serialize c = .ok data ∧ ∃ restored,
        restore c self.jobId (entryText id) (payload data) = .ok restored ∧
          Restored c self restored) ∧
    ∃ s', (saveEach c calls).run s = (.ok (), s') ∧
      (∃ results, (all c jobId).run s' = (.ok results, s') ∧
        List.Forall₂ (Restored c) (calls.map SaveCall.result).reverse results) ∧
      ∀ timeout, ∃ latest, (fetchLatest c jobId timeout).run s' = (.ok latest, s') ∧
        Option.Rel (Restored c) (calls.map SaveCall.result).getLast? latest := by
  obtain ⟨s', entries, hrun, hentries, hall⟩ := run_saveEach hc hjob hkeeps s (by simpa [hs])
  rw [hs, List.nil_append] at hentries
  refine ⟨fun self hself id => restore_serialize hc self hself id, s', hrun, ?_, fun timeout => ?_⟩
  · obtain ⟨results, hresults, hsame⟩ := mapM_restore hc
      (fun call hcall => hjob call (List.mem_reverse.mp hcall))
      (fun call hcall => hexecution call (List.mem_reverse.mp hcall))
      (List.forall₂_reverse_iff.mpr hall)
    refine ⟨results, ?_, by rwa [List.map_reverse] at hsame⟩
    rw [all, Prog.run_bind_ok (Prog.run_read _ _), EntryStream.newestFirst, hentries, hresults]
    rfl
  · exact run_fetchLatest hc hjob hexecution (hentries ▸ hall) timeout

end ResultRecord

/-! ## An example -/

/-- Return values: `None`, `0`, a function, which cannot be pickled, and the fixed text. -/
inductive Answer where
  | pyNone | zero | function | placeholder
deriving DecidableEq, Repr

namespace Answer

/-- `pickle.dumps(None)` -/
def pickledNone : ByteArray := ⟨#[128, 5, 78, 46]⟩

/-- `pickle.dumps(0)` -/
def pickledZero : ByteArray := ⟨#[128, 5, 75, 0, 46]⟩

/-- `pickle.dumps('Unserializable return value')` -/
def pickledPlaceholder : ByteArray :=
  ⟨#[128, 5, 149, 31, 0, 0, 0, 0, 0, 0, 0, 140, 27, 85, 110, 115, 101, 114, 105, 97, 108, 105, 122,
    97, 98, 108, 101, 32, 114, 101, 116, 117, 114, 110, 32, 118, 97, 108, 117, 101, 148, 46]⟩

/-- `zlib.compress(b'')` -/
def compressedEmpty : ByteArray := ⟨#[120, 156, 3, 0, 0, 0, 0, 1]⟩

/-- Base64 on the byte strings above. -/
def base64Table : List (ByteArray × String) :=
  [(pickledZero, "gAVLAC4="),
    (pickledPlaceholder, "gAWVHwAAAAAAAACMG1Vuc2VyaWFsaXphYmxlIHJldHVybiB2YWx1ZZQu"),
    (compressedEmpty, "eJwDAAAAAAE=")]

/-- The first of January 2024, in microseconds. -/
def newYear : Microseconds := 1704067200000000

/-- Pickle, zlib, base64 and timestamps on what is used here. Other bytes are stored after a zero,
and written after a star. -/
def codec : ResultCodec Answer where
  pyNone := .pyNone
  unserializableReturnValue := .placeholder
  dumps
    | .pyNone => some pickledNone
    | .zero => some pickledZero
    | .function => none
    | .placeholder => some pickledPlaceholder
  loads b :=
    if b = pickledNone then some .pyNone
    else if b = pickledZero then some .zero
    else if b = pickledPlaceholder then some .placeholder else none
  compress b := if b = ByteArray.empty then compressedEmpty else ⟨(0 :: b.data.toList).toArray⟩
  decompress b :=
    if b = compressedEmpty then some ByteArray.empty
    else if b.data.toList.head? = some 0 then some ⟨b.data.toList.tail.toArray⟩ else none
  b64encode b :=
    match base64Table.find? (·.1 = b) with
    | some e => e.2
    | none => String.ofList ('*' :: b.data.toList.map fun x => Char.ofNat x.toNat)
  b64decode text :=
    match base64Table.find? (·.2 = text) with
    | some e => some e.1
    | none => some ⟨(text.toList.tail.map fun ch => UInt8.ofNat ch.toNat).toArray⟩
  timestamp t :=
    if t = newYear then "1704067200.0" else String.ofList (Text.writeInt t)
  fromTimestamp text :=
    if text = "1704067200.0" then some newYear else Text.whole Text.readInt text.toList

/-- A byte string is in the table, or its text starts with a star. -/
lemma b64encode_cases (b : ByteArray) :
    (∃ e ∈ base64Table, e.1 = b ∧ codec.b64encode b = e.2) ∨
      codec.b64encode b = String.ofList ('*' :: b.data.toList.map fun x => Char.ofNat x.toNat) := by
  cases hfind : base64Table.find? (·.1 = b) with
  | some e =>
    refine .inl ⟨e, List.mem_of_find?_eq_some hfind, ?_, by simp only [codec, hfind]⟩
    simpa using List.find?_some hfind
  | none => exact .inr (by simp only [codec, hfind])

lemma b64decode_table : ∀ e ∈ base64Table, codec.b64decode e.2 = some e.1 := by
  decide

lemma b64decode_star (b : ByteArray) : codec.b64decode (String.ofList
    ('*' :: b.data.toList.map fun x => Char.ofNat x.toNat)) = some b := by
  have hstar : ∀ e ∈ base64Table, e.2.toList.head? ≠ some '*' := by decide
  have hfind : base64Table.find? (fun e => e.2 = String.ofList
      ('*' :: b.data.toList.map fun x => Char.ofNat x.toNat)) = none := by
    rw [List.find?_eq_none]
    intro e he heq
    rw [decide_eq_true_eq] at heq
    exact hstar e he (by rw [heq, String.toList_ofList]; rfl)
  have hbyte : ∀ x : UInt8, UInt8.ofNat (Char.ofNat x.toNat).toNat = x := fun x => by
    have hvalid : x.toNat.isValidChar := .inl (x.toNat_lt.trans (by decide))
    rw [Char.ofNat, dif_pos hvalid]
    exact UInt8.ofNat_toNat
  have hbytes : (b.data.toList.map fun x => UInt8.ofNat (Char.ofNat x.toNat).toNat) =
      b.data.toList := by
    simp [hbyte]
  simp only [codec, hfind, String.toList_ofList, List.tail_cons, List.map_map]
  rw [Function.comp_def, hbytes]

lemma whole_timestamp (t : Microseconds) :
    Text.whole Text.readInt (String.ofList (Text.writeInt t)).toList = some t := by
  rw [String.toList_ofList]
  exact Text.whole_writeInt t

lemma timestamp_ne (t : Microseconds) : String.ofList (Text.writeInt t) ≠ "1704067200.0" := by
  intro h
  have hnone : Text.whole Text.readInt "1704067200.0".toList = none := by decide
  have hwhole := whole_timestamp t
  rw [h, hnone] at hwhole
  cases hwhole

lemma lawful_codec : codec.Lawful where
  loads_dumps o b h := by
    cases o <;> cases h <;> decide
  dumps_unserializable := ⟨_, rfl⟩
  decompress_compress b := by
    by_cases h : b = ByteArray.empty
    · rw [h]
      decide
    · have hne : (⟨(0 :: b.data.toList).toArray⟩ : ByteArray) ≠ compressedEmpty := by
        intro heq
        have hlist := congrArg (fun b : ByteArray => b.data.toList.head?) heq
        simp [compressedEmpty] at hlist
      simp [codec, h, hne]
  compress_ne_empty b := by
    by_cases h : b = ByteArray.empty
    · rw [h]
      decide
    · have hstored : codec.compress b = ⟨(0 :: b.data.toList).toArray⟩ := if_neg h
      intro heq
      have hsize : (0 :: b.data.toList).toArray.size = 0 :=
        (congrArg ByteArray.size (hstored.symm.trans heq)).trans ByteArray.size_empty
      simp at hsize
  b64decode_b64encode b := by
    rcases b64encode_cases b with ⟨e, he, rfl, hencode⟩ | hencode
    · rw [hencode]
      exact b64decode_table e he
    · rw [hencode]
      exact b64decode_star b
  b64encode_ne_empty b _ := by
    have htable : ∀ e ∈ base64Table, e.2 ≠ "" := by decide
    rcases b64encode_cases b with ⟨e, he, -, hencode⟩ | hencode
    · rw [hencode]
      exact htable e he
    · rw [hencode]
      simp
  fromTimestamp_timestamp t := by
    by_cases h : t = newYear
    · rw [h]
      decide
    · simp only [codec, if_neg h, if_neg (timestamp_ne t)]
      exact whole_timestamp t
  timestamp_ne_empty t := by
    by_cases h : t = newYear
    · rw [h]
      decide
    · intro heq
      have hnone : Text.whole Text.readInt "".toList = none := by decide
      have hwhole := whole_timestamp t
      simp only [codec, if_neg h] at heq
      rw [heq, hnone] at hwhole
      cases hwhole

/-- A function as the return value, and an empty text of the exception. -/
def lost : ResultRecord Answer where
  jobId := "a"
  type := .failed
  returnValue := .function
  excString := some ""
  workerName := "w"
  executionId := some "e"

/-- A false return value, with both times. -/
def counted : ResultRecord Answer where
  jobId := "a"
  type := .successful
  returnValue := .zero
  executionStartedAt := some newYear
  executionEndedAt := some newYear

/-- No return value. -/
def stopped : ResultRecord Answer where
  jobId := "a"
  type := .stopped
  returnValue := .pyNone

/-- The three of them, saved one after the other. -/
def calls : List (ResultRecord.SaveCall Answer) :=
  [⟨lost, none, false, ⟨1, 0, 0⟩⟩, ⟨counted, some (-1), true, ⟨1, 0, 0⟩⟩,
    ⟨stopped, some 500, false, ⟨2, 1, 0⟩⟩]

end Answer

namespace ResultRecord

open Answer

/-- Three results with the same clock are told apart, and each comes back. -/
theorem saved_results_three :
    (lost.storedValue codec = .placeholder ∧ counted.storedValue codec = .zero ∧
      stopped.storedValue codec = .pyNone) ∧
    ∃ s', (saveEach codec calls).run ⟨fun _ => default, fun _ => 0, fun _ => none⟩ = (.ok (), s') ∧
      (∃ results, (all codec "a").run s' = (.ok results, s') ∧
        List.Forall₂ (Restored codec) [stopped, counted, lost] results) ∧
      ∀ timeout, ∃ latest, (fetchLatest codec "a" timeout).run s' = (.ok latest, s') ∧
        Option.Rel (Restored codec) (some stopped) latest :=
  ⟨by decide, (saved_results lawful_codec calls (by decide) (by decide) (by decide)
    (by simp [calls, SaveCall.KeepsResults]) _ rfl).2⟩

end ResultRecord

end RedisQueue
