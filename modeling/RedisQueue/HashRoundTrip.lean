import RedisQueue.JobFields

/-!
# The round trip of a job hash

* the readers of `Job.restore` undo what `Job.to_dict` writes, one lemma for each kind of value;
* `JobRecord.Reads`: the attributes that a hash stands for, one field of the hash at a time;
* `JobRecord.restore_of_reads`: `Job.restore` gives these attributes;
* `JobRecord.reads_toDict`: what a new hash holds after `Job.save`. The empty string and `None` are
  the only values that are not kept apart.
-/

namespace RedisQueue

/-! ## The readers -/

@[simp] lemma decode_encode (text : String) : decode (encode (.text text)) = .ok text := by
  have h : String.fromUTF8? text.toByteArray = some text := dif_pos text.isValidUTF8
  simp [decode, encode, h]

@[simp] lemma toList_intText (n : ℤ) : (intText n).toList = Text.writeInt n := by
  simp [intText]

lemma intText_ne_empty (n : ℤ) : intText n ≠ "" := by
  intro h
  have hlist := congrArg String.toList h
  obtain ⟨c, cs, hc, -⟩ := Text.starts_writeInt n
  rw [toList_intText, hc] at hlist
  simp at hlist

lemma parseInt_encode (n : ℤ) : parseInt (encode (.int n)) = .ok n := by
  show (decode (encode (.text (intText n))) >>= _) = _
  rw [decode_encode, Except.ok_bind, toList_intText, Text.whole_writeInt]

lemma parseBool_encode (b : Bool) : parseBool (encode (boolInt b)) = .ok b := by
  cases b <;> simp [parseBool, boolInt, parseInt_encode, Except.ok_bind, pure, Except.pure]

lemma strToDate_encode (t : DateTime) : strToDate (encode (.text (utcformat t))) = .ok t := by
  unfold strToDate
  rw [decode_encode, Except.ok_bind]
  simp [utcparse, utcformat, DateTime.parse_format]

lemma loadsInts_encode (l : List ℤ) : loadsInts (encode (.text (dumpsInts l))) = .ok l := by
  have hloads := Text.loads_writeArray Text.inverts_readJsonInt Text.starts_writeInt l
  unfold loadsInts
  rw [decode_encode, Except.ok_bind, dumpsInts, String.toList_ofList, hloads]

lemma loadsTexts_encode (l : List String) : loadsTexts (encode (.text (dumpsTexts l))) = .ok l := by
  have hread : Text.Inverts Text.Delimited Text.readString Text.writeString :=
    Text.inverts_readString.mono fun _ _ => trivial
  have hloads := Text.loads_writeArray hread Text.starts_writeString (l.map String.toList)
  unfold loadsTexts
  rw [decode_encode, Except.ok_bind, dumpsTexts, String.toList_ofList, hloads]
  simp

lemma decompressText_compress {Obj : Type} {c : Codec Obj} (hc : c.Lawful) (e : String) :
    decompressText c (encode (.bytes (c.compress e.toByteArray))) = .ok e := by
  simp only [decompressText, encode, hc.decompress_compress, Option.getD_some]
  exact decode_encode e

/-! ### Empty values -/

lemma encode_text_eq_empty {text : String} : encode (.text text) = ByteArray.empty ↔ text = "" :=
  String.toByteArray_eq_empty_iff

lemma encode_int_ne_empty (n : ℤ) : encode (.int n) ≠ ByteArray.empty := fun h =>
  intText_ne_empty n (String.toByteArray_eq_empty_iff.mp h)

lemma encode_bool_ne_empty (b : Bool) : encode (boolInt b) ≠ ByteArray.empty :=
  encode_int_ne_empty _

lemma ofList_cons_ne_empty (c : Char) (cs : List Char) : String.ofList (c :: cs) ≠ "" := by
  intro h
  have hlist := congrArg String.toList h
  simp at hlist

lemma encode_time_ne_empty (t : DateTime) : encode (.text (utcformat t)) ≠ ByteArray.empty := by
  intro h
  have hlength := congrArg (fun text => text.toList.length) (encode_text_eq_empty.mp h)
  simp [utcformat, DateTime.format] at hlength

lemma encode_ints_ne_empty (l : List ℤ) : encode (.text (dumpsInts l)) ≠ ByteArray.empty := fun h =>
  ofList_cons_ne_empty _ _ (encode_text_eq_empty.mp h)

lemma encode_texts_ne_empty (l : List String) : encode (.text (dumpsTexts l)) ≠ ByteArray.empty :=
  fun h => ofList_cons_ne_empty _ _ (encode_text_eq_empty.mp h)

lemma JobStatus.text_ne_empty (status : JobStatus) : status.text ≠ "" := by
  cases status <;> decide

@[simp] lemma JobStatus.ofText_text (status : JobStatus) :
    JobStatus.ofText status.text = .ok status := by
  cases status <;> decide

@[simp] lemma truthy_none : truthy none = none := rfl

lemma truthy_some {v : ByteArray} (h : v ≠ ByteArray.empty) : truthy (some v) = some v := by
  simp [truthy, Option.filter, h]

/-! ### Optional values -/

section Optional
variable {α : Type} {read : ByteArray → Except PyError α} {write : α → PyValue}

/-- A value that is left out when it is `None`, and tested for being there. -/
lemma readIf_map (h : ∀ a, read (encode (write a)) = .ok a) (x : Option α) :
    readIf read ((x.map write).map encode) = .ok x := by
  cases x with
  | none => rfl
  | some a => simp [readIf, h]

/-- A value that is left out when it is `None`, and tested for being true: what is written is never
empty, not even for zero, `False` or an empty list. -/
lemma readIf_truthy_map (h : ∀ a, read (encode (write a)) = .ok a)
    (hne : ∀ a, encode (write a) ≠ ByteArray.empty) (x : Option α) :
    readIf read (truthy ((x.map write).map encode)) = .ok x := by
  cases x with
  | none => rfl
  | some a => simp [truthy_some (hne a), readIf, h]

end Optional

/-- The empty string counts as `None`. -/
lemma readIf_text (text : String) : readIf decode (truthy (some (encode (.text text)))) =
    .ok (if text = "" then none else some text) := by
  split
  · next h =>
    rw [h]
    rfl
  · next h =>
    have hne : encode (.text text) ≠ ByteArray.empty := mt encode_text_eq_empty.mp h
    rw [truthy_some hne]
    simp [readIf]

lemma readIf_textOrEmpty (x : Option String) :
    readIf decode (truthy (some (encode (textOrEmpty x)))) = .ok (x.filter (· ≠ "")) := by
  unfold textOrEmpty
  rw [readIf_text]
  cases x with
  | none => rfl
  | some text => by_cases h : text = "" <;> simp [h, Option.filter]

lemma readIf_text_map (x : Option String) :
    readIf decode (truthy ((x.map PyValue.text).map encode)) = .ok (x.filter (· ≠ "")) := by
  cases x with
  | none => rfl
  | some text =>
    show readIf decode (truthy (some (encode (.text text)))) = _
    rw [readIf_text]
    by_cases h : text = "" <;> simp [h, Option.filter]

lemma readIf_timeOrEmpty (x : Option DateTime) :
    readIf strToDate (truthy (some (encode (timeOrEmpty x)))) = .ok x := by
  cases x with
  | none => rfl
  | some t =>
    show readIf strToDate (truthy (some (encode (.text (utcformat t))))) = _
    rw [truthy_some (encode_time_ne_empty t)]
    simp [readIf, strToDate_encode]

/-! ## What a hash stands for -/

variable {Obj : Type} [DecidableEq Obj] {c : Codec Obj}

namespace JobRecord

/-- `job` has the attributes that the fields of the hash stand for. `now` is the clock. -/
structure Reads (c : Codec Obj) (now : DateTime) (obj : RawHash) (job : JobRecord Obj) : Prop where
  data : ∃ rawData, obj .data = some rawData ∧ job.data = (c.decompress rawData).getD rawData
  createdAt : ∃ t, readIf strToDate (truthy (obj .createdAt)) = .ok t ∧ job.createdAt = t.getD now
  origin : ∃ o, readIf decode (truthy (obj .origin)) = .ok o ∧ job.origin = o.getD ""
  workerName : readIf decode (truthy (obj .workerName)) = .ok job.workerName
  description : readIf decode (truthy (obj .description)) = .ok job.description
  enqueuedAt : readIf strToDate (truthy (obj .enqueuedAt)) = .ok job.enqueuedAt
  startedAt : readIf strToDate (truthy (obj .startedAt)) = .ok job.startedAt
  endedAt : readIf strToDate (truthy (obj .endedAt)) = .ok job.endedAt
  lastHeartbeat : readIf strToDate (truthy (obj .lastHeartbeat)) = .ok job.lastHeartbeat
  groupId : readIf decode (truthy (obj .groupId)) = .ok job.groupId
  result : job.result = loadsResult c (obj .result)
  timeout : readIf parseInt (truthy (obj .timeout)) = .ok job.timeout
  resultTtl : readIf parseInt (truthy (obj .resultTtl)) = .ok job.resultTtl
  failureTtl : readIf parseInt (truthy (obj .failureTtl)) = .ok job.failureTtl
  status : ∃ status, readIf parseStatus (truthy (obj .status)) = .ok status ∧
    job.status = status.getD .created
  successCallbackName : readIf decode (truthy (obj .successCallbackName)) =
    .ok job.successCallbackName
  successCallbackTimeout : readIf parseInt (obj .successCallbackTimeout) =
    .ok job.successCallbackTimeout
  failureCallbackName : readIf decode (truthy (obj .failureCallbackName)) =
    .ok job.failureCallbackName
  failureCallbackTimeout : readIf parseInt (obj .failureCallbackTimeout) =
    .ok job.failureCallbackTimeout
  stoppedCallbackName : readIf decode (truthy (obj .stoppedCallbackName)) =
    .ok job.stoppedCallbackName
  stoppedCallbackTimeout : readIf parseInt (obj .stoppedCallbackTimeout) =
    .ok job.stoppedCallbackTimeout
  dependencyIds : readDependencyIds obj = .ok job.dependencyIds
  allowDependencyFailures : readIf parseBool (truthy (obj .allowDependencyFailures)) =
    .ok job.allowDependencyFailures
  enqueueAtFront : readIf parseBool (obj .enqueueAtFront) = .ok job.enqueueAtFront
  ttl : readIf parseInt (truthy (obj .ttl)) = .ok job.ttl
  metadata : job.metadata = loadsMetadata c (obj .metadata)
  numberOfRetries : readIf parseInt (truthy (obj .numberOfRetries)) = .ok job.numberOfRetries
  retriesLeft : readIf parseInt (truthy (obj .retriesLeft)) = .ok job.retriesLeft
  retryIntervals : readIf loadsInts (truthy (obj .retryIntervals)) = .ok job.retryIntervals
  enqueueAtFrontOnRetry : ∃ b, readIf parseBool (truthy (obj .enqueueAtFrontOnRetry)) = .ok b ∧
    job.enqueueAtFrontOnRetry = b.getD false
  repeatsLeft : readIf parseInt (truthy (obj .repeatsLeft)) = .ok job.repeatsLeft
  repeatIntervals : readIf loadsInts (truthy (obj .repeatIntervals)) = .ok job.repeatIntervals
  excInfo : readIf (decompressText c) (truthy (obj .excInfo)) = .ok job.excInfo

namespace Reads
variable {now : DateTime} {obj : RawHash} {job : JobRecord Obj}

omit [DecidableEq Obj]

lemma restoreCall_eq (h : Reads c now obj job) (self : JobRecord Obj) :
    restoreCall c obj now self = .ok { self with
      data := job.data, createdAt := job.createdAt, origin := job.origin,
      workerName := job.workerName, description := job.description } := by
  obtain ⟨rawData, hraw, hdata⟩ := h.data
  obtain ⟨createdAt, hcreated, hcreatedAt⟩ := h.createdAt
  obtain ⟨origin, horigin, horiginEq⟩ := h.origin
  have hread : readData obj = .ok rawData := by simp [readData, hraw]
  unfold restoreCall
  rw [hread, Except.ok_bind, hcreated, Except.ok_bind, horigin, Except.ok_bind, h.workerName,
    Except.ok_bind, h.description, Except.ok_bind, hdata, hcreatedAt, horiginEq]
  rfl

lemma restoreTimes_eq (h : Reads c now obj job) (self : JobRecord Obj) :
    restoreTimes obj self = .ok { self with
      enqueuedAt := job.enqueuedAt, startedAt := job.startedAt, endedAt := job.endedAt,
      lastHeartbeat := job.lastHeartbeat, groupId := job.groupId } := by
  unfold restoreTimes
  rw [h.enqueuedAt, Except.ok_bind, h.startedAt, Except.ok_bind, h.endedAt, Except.ok_bind,
    h.lastHeartbeat, Except.ok_bind, h.groupId, Except.ok_bind]
  rfl

lemma restoreLimits_eq (h : Reads c now obj job) (self : JobRecord Obj) :
    restoreLimits c obj self = .ok { self with
      result := job.result, timeout := job.timeout, resultTtl := job.resultTtl,
      failureTtl := job.failureTtl, status := job.status } := by
  obtain ⟨status, hstatus, hstatusEq⟩ := h.status
  unfold restoreLimits
  rw [h.timeout, Except.ok_bind, h.resultTtl, Except.ok_bind, h.failureTtl, Except.ok_bind, hstatus,
    Except.ok_bind, hstatusEq, h.result]
  rfl

lemma restoreCallbacks_eq (h : Reads c now obj job) (self : JobRecord Obj) :
    restoreCallbacks obj self = .ok { self with
      successCallbackName := job.successCallbackName,
      successCallbackTimeout := job.successCallbackTimeout,
      failureCallbackName := job.failureCallbackName,
      failureCallbackTimeout := job.failureCallbackTimeout,
      stoppedCallbackName := job.stoppedCallbackName,
      stoppedCallbackTimeout := job.stoppedCallbackTimeout } := by
  unfold restoreCallbacks
  rw [h.successCallbackName, Except.ok_bind, h.successCallbackTimeout, Except.ok_bind,
    h.failureCallbackName, Except.ok_bind, h.failureCallbackTimeout, Except.ok_bind,
    h.stoppedCallbackName, Except.ok_bind, h.stoppedCallbackTimeout, Except.ok_bind]
  rfl

lemma restoreDependencies_eq (h : Reads c now obj job) (self : JobRecord Obj) :
    restoreDependencies c obj self = .ok { self with
      dependencyIds := job.dependencyIds, allowDependencyFailures := job.allowDependencyFailures,
      enqueueAtFront := job.enqueueAtFront, ttl := job.ttl, metadata := job.metadata } := by
  unfold restoreDependencies
  rw [h.dependencyIds, Except.ok_bind, h.allowDependencyFailures, Except.ok_bind, h.enqueueAtFront,
    Except.ok_bind, h.ttl, Except.ok_bind, h.metadata]
  rfl

lemma restoreRetries_eq (h : Reads c now obj job) (self : JobRecord Obj) :
    restoreRetries c obj self = .ok { self with
      numberOfRetries := job.numberOfRetries, retriesLeft := job.retriesLeft,
      retryIntervals := job.retryIntervals, enqueueAtFrontOnRetry := job.enqueueAtFrontOnRetry,
      repeatsLeft := job.repeatsLeft, repeatIntervals := job.repeatIntervals,
      excInfo := job.excInfo } := by
  obtain ⟨onRetry, honRetry, honRetryEq⟩ := h.enqueueAtFrontOnRetry
  unfold restoreRetries
  rw [h.numberOfRetries, Except.ok_bind, h.retriesLeft, Except.ok_bind, h.retryIntervals,
    Except.ok_bind, honRetry, Except.ok_bind, h.repeatsLeft, Except.ok_bind, h.repeatIntervals,
    Except.ok_bind, h.excInfo, Except.ok_bind, honRetryEq]
  rfl

end Reads

omit [DecidableEq Obj] in
/-- `Job.restore` gives the attributes that the fields stand for. -/
theorem restore_of_reads {now : DateTime} {obj : RawHash} {job : JobRecord Obj}
    (h : Reads c now obj job) : restore c job.id now obj = .ok job := by
  unfold restore
  rw [h.restoreCall_eq, Except.ok_bind, h.restoreTimes_eq, Except.ok_bind, h.restoreLimits_eq,
    Except.ok_bind, h.restoreCallbacks_eq, Except.ok_bind, h.restoreDependencies_eq,
    Except.ok_bind, h.restoreRetries_eq]
  rfl

/-! ## What is read back from a new hash -/

/-- A job as it comes back from its hash: an empty text is `None` then, and so is a time to live
of zero. -/
def normalized (job : JobRecord Obj) : JobRecord Obj :=
  { job with
    successCallbackName := job.successCallbackName.filter (· ≠ "")
    failureCallbackName := job.failureCallbackName.filter (· ≠ "")
    stoppedCallbackName := job.stoppedCallbackName.filter (· ≠ "")
    description := job.description.filter (· ≠ "")
    workerName := job.workerName.filter (· ≠ "")
    groupId := job.groupId.filter (· ≠ "")
    ttl := job.ttl.filter (· ≠ 0) }

end JobRecord

lemma parseStatus_encode (status : JobStatus) :
    parseStatus (encode (.text status.text)) = .ok status := by
  unfold parseStatus
  rw [decode_encode, Except.ok_bind, JobStatus.ofText_text]

lemma encode_status_ne_empty (status : JobStatus) :
    encode (.text status.text) ≠ ByteArray.empty :=
  mt encode_text_eq_empty.mp status.text_ne_empty

namespace JobRecord
variable {job : JobRecord Obj} {obj : RawHash}

/-- The fields hold what `Job.to_dict` gives, and nothing else. -/
def Saved (c : Codec Obj) (job : JobRecord Obj) (obj : RawHash) : Prop :=
  ∀ f, obj f = (job.toDict c true true f).map encode

namespace Saved

lemma readDependencyIds_eq (h : Saved c job obj) :
    readDependencyIds obj = .ok job.dependencyIds := by
  have hids := h .dependencyIds
  have hid := h .dependencyId
  simp only [toDict] at hids hid
  unfold readDependencyIds
  rw [hids, hid]
  cases hd : job.dependencyIds with
  | nil => rfl
  | cons id ids =>
    have htexts : truthy (some (encode (.text (dumpsTexts (id :: ids))))) =
        some (encode (.text (dumpsTexts (id :: ids)))) :=
      truthy_some (encode_texts_ne_empty _)
    rw [if_neg (by simp), Option.map_some, htexts]
    exact loadsTexts_encode _

lemma loadsMetadata_eq (hc : c.Lawful) (h : Saved c job obj) :
    loadsMetadata c (obj .metadata) = job.metadata := by
  rw [h, toDict]
  by_cases hm : job.metadata = c.emptyDict
  · simp [hm, loadsMetadata]
  · simp [hm, loadsMetadata, encode, truthy_some (hc.dumps_ne_empty _), hc.loads_dumps]

lemma loadsResult_eq (hc : c.Lawful) (h : Saved c job obj) :
    loadsResult c (obj .result) = job.result := by
  rw [h, toDict]
  cases hr : job.result with
  | none => rfl
  | some o => simp [loadsResult, encode, truthy_some (hc.dumps_ne_empty _), hc.loads_dumps]

/-- Of every field, `Job.restore` reads what `Job.to_dict` has written. -/
theorem reads (hc : c.Lawful) (h : Saved c job obj) (now : DateTime) :
    Reads c now obj job.normalized where
  data := by
    refine ⟨_, h .data, ?_⟩
    simp [encode, hc.decompress_compress, normalized]
  createdAt := by
    refine ⟨some job.createdAt, ?_, rfl⟩
    rw [h]
    show readIf strToDate (truthy (some (encode (.text (utcformat job.createdAt))))) = _
    rw [truthy_some (encode_time_ne_empty _)]
    simp [readIf, strToDate_encode]
  origin := by
    refine ⟨if job.origin = "" then none else some job.origin, ?_, ?_⟩
    · rw [h, toDict]
      by_cases ho : job.origin = ""
      · simp [ho, readIf]
      · rw [if_neg ho, Option.map_some, readIf_text]
    · by_cases ho : job.origin = "" <;> simp [ho, normalized]
  workerName := by rw [h]; exact readIf_textOrEmpty _
  description := by rw [h]; exact readIf_text_map _
  enqueuedAt := by rw [h]; exact readIf_truthy_map strToDate_encode encode_time_ne_empty _
  startedAt := by rw [h]; exact readIf_timeOrEmpty _
  endedAt := by rw [h]; exact readIf_timeOrEmpty _
  lastHeartbeat := by rw [h]; exact readIf_timeOrEmpty _
  groupId := by rw [h]; exact readIf_textOrEmpty _
  result := (h.loadsResult_eq hc).symm
  timeout := by rw [h]; exact readIf_truthy_map parseInt_encode encode_int_ne_empty _
  resultTtl := by rw [h]; exact readIf_truthy_map parseInt_encode encode_int_ne_empty _
  failureTtl := by rw [h]; exact readIf_truthy_map parseInt_encode encode_int_ne_empty _
  status := by
    refine ⟨some job.status, ?_, rfl⟩
    rw [h]
    show readIf parseStatus (truthy (some (encode (.text job.status.text)))) = _
    rw [truthy_some (encode_status_ne_empty _)]
    simp [readIf, parseStatus_encode]
  successCallbackName := by rw [h]; exact readIf_textOrEmpty _
  successCallbackTimeout := by rw [h]; exact readIf_map parseInt_encode _
  failureCallbackName := by rw [h]; exact readIf_textOrEmpty _
  failureCallbackTimeout := by rw [h]; exact readIf_map parseInt_encode _
  stoppedCallbackName := by rw [h]; exact readIf_textOrEmpty _
  stoppedCallbackTimeout := by rw [h]; exact readIf_map parseInt_encode _
  dependencyIds := h.readDependencyIds_eq
  allowDependencyFailures := by
    rw [h]
    exact readIf_truthy_map parseBool_encode encode_bool_ne_empty _
  enqueueAtFront := by rw [h]; exact readIf_map parseBool_encode _
  ttl := by rw [h]; exact readIf_truthy_map parseInt_encode encode_int_ne_empty _
  metadata := (h.loadsMetadata_eq hc).symm
  numberOfRetries := by rw [h]; exact readIf_truthy_map parseInt_encode encode_int_ne_empty _
  retriesLeft := by rw [h]; exact readIf_truthy_map parseInt_encode encode_int_ne_empty _
  retryIntervals := by rw [h]; exact readIf_truthy_map loadsInts_encode encode_ints_ne_empty _
  enqueueAtFrontOnRetry := by
    rw [h, toDict]
    cases hb : job.enqueueAtFrontOnRetry with
    | false => exact ⟨none, rfl, hb⟩
    | true =>
      refine ⟨some true, ?_, hb⟩
      exact readIf_truthy_map parseBool_encode encode_bool_ne_empty (some true)
  repeatsLeft := by rw [h]; exact readIf_truthy_map parseInt_encode encode_int_ne_empty _
  repeatIntervals := by rw [h]; exact readIf_truthy_map loadsInts_encode encode_ints_ne_empty _
  excInfo := by
    rw [h, toDict, if_pos rfl]
    have hne : ∀ e : String, encode (.bytes (c.compress e.toByteArray)) ≠ ByteArray.empty :=
      fun e => hc.compress_ne_empty _
    exact readIf_truthy_map (decompressText_compress hc) hne job.excInfo

end Saved
end JobRecord
end RedisQueue
