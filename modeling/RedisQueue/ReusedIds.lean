import RedisQueue.SavedJobs

/-!
# Using a job id again

`Job.save` merges the fields of the new job into the hash that is there, and leaves out the fields
in which the new job has nothing to say.

* `Left`: the hashes that the operations of rq can leave behind;
* `Holds`: what their fields can hold. On such values every reader of `Job.restore` is injective;
* `RawQueue.agreesAfter_iff`: after the same job has been enqueued over two old hashes, the two are
  fetched alike, with the expiry that the job implies, if and only if the old hashes agree in the
  fields that the job leaves out and no old expiry survives.
-/

namespace RedisQueue

variable {Obj : Type} [DecidableEq Obj] {c : Codec Obj}

open JobRecord

/-! ## The hashes that can be there -/

/-- The mapping of `Job.prepare_for_execution`. -/
def preparation (workerName : String) (now : DateTime) : JobField → Option PyValue
  | .lastHeartbeat => some (.text (utcformat now))
  | .status => some (.text JobStatus.started.text)
  | .startedAt => some (.text (utcformat now))
  | .workerName => some (.text workerName)
  | _ => none

/-- A hash that the operations of rq can leave: none, or one that they have written to. -/
inductive Left (c : Codec Obj) : RawHash → Prop where
  | absent : Left c fun _ => none
  | save {h : RawHash} (job : JobRecord Obj) (includeMeta includeResult : Bool) (hleft : Left c h) :
      Left c (h.update (job.toDict c includeMeta includeResult))
  | setStatus {h : RawHash} (status : JobStatus) (hleft : Left c h) :
      Left c (h.update (single .status (.text status.text)))
  | heartbeat {h : RawHash} (now : DateTime) (hleft : Left c h) :
      Left c (h.update (single .lastHeartbeat (.text (utcformat now))))
  | prepare {h : RawHash} (workerName : String) (now : DateTime) (hleft : Left c h) :
      Left c (h.update (preparation workerName now))
  | saveMeta {h : RawHash} (metadata : Obj) (hleft : Left c h) :
      Left c (h.update (single .metadata (.bytes (c.dumps metadata))))

/-- What a field of such a hash can hold. -/
def Holds (c : Codec Obj) : JobField → ByteArray → Prop
  | .createdAt, v | .enqueuedAt, v => ∃ t : DateTime, v = encode (.text (utcformat t))
  | .startedAt, v | .endedAt, v | .lastHeartbeat, v =>
    ∃ x : Option DateTime, v = encode (timeOrEmpty x)
  | .successCallbackName, v | .failureCallbackName, v | .stoppedCallbackName, v | .workerName, v
  | .groupId, v | .description, v | .dependencyId, v => ∃ text : String, v = encode (.text text)
  | .numberOfRetries, v | .retriesLeft, v | .repeatsLeft, v | .timeout, v | .resultTtl, v
  | .failureTtl, v | .ttl, v | .successCallbackTimeout, v | .failureCallbackTimeout, v
  | .stoppedCallbackTimeout, v => ∃ n : ℤ, v = encode (.int n)
  | .retryIntervals, v | .repeatIntervals, v => ∃ l : List ℤ, v = encode (.text (dumpsInts l))
  | .allowDependencyFailures, v | .enqueueAtFront, v => ∃ b : Bool, v = encode (boolInt b)
  -- `False` is never written
  | .enqueueAtFrontOnRetry, v => v = encode (boolInt true)
  | .origin, v => ∃ text : String, text ≠ "" ∧ v = encode (.text text)
  | .dependencyIds, v => ∃ ids : List JobId, v = encode (.text (dumpsTexts ids))
  | .result, v | .metadata, v => ∃ o : Obj, v = c.dumps o
  | .excInfo, v => ∃ e : String, v = c.compress e.toByteArray
  | .data, v => ∃ data : ByteArray, v = c.compress data
  | .status, v => ∃ status : JobStatus, v = encode (.text status.text)

lemma holds_toDict (job : JobRecord Obj) (includeMeta includeResult : Bool) {f : JobField}
    {v : PyValue} (h : job.toDict c includeMeta includeResult f = some v) :
    Holds c f (encode v) := by
  -- one case for each way in which `to_dict` writes a field
  cases f with
  | createdAt => exact ⟨job.createdAt, congrArg encode (Option.some.inj h).symm⟩
  | data => exact ⟨job.data, congrArg encode (Option.some.inj h).symm⟩
  | status => exact ⟨job.status, congrArg encode (Option.some.inj h).symm⟩
  | successCallbackName | failureCallbackName | stoppedCallbackName | workerName | groupId =>
    exact ⟨_, congrArg encode (Option.some.inj h).symm⟩
  | startedAt | endedAt | lastHeartbeat => exact ⟨_, congrArg encode (Option.some.inj h).symm⟩
  | numberOfRetries | retriesLeft | retryIntervals | description | enqueuedAt | repeatsLeft
  | repeatIntervals | timeout | successCallbackTimeout | failureCallbackTimeout
  | stoppedCallbackTimeout | resultTtl | failureTtl | dependencyId | ttl | allowDependencyFailures
  | enqueueAtFront =>
    obtain ⟨x, -, hv⟩ := Option.map_eq_some_iff.mp h
    exact ⟨x, congrArg encode hv.symm⟩
  | enqueueAtFrontOnRetry =>
    obtain ⟨hfront, hv⟩ := Option.ite_none_right_eq_some.mp h
    rw [hfront] at hv
    exact congrArg encode (Option.some.inj hv).symm
  | origin =>
    obtain ⟨horigin, hv⟩ := Option.ite_none_left_eq_some.mp h
    exact ⟨job.origin, horigin, congrArg encode (Option.some.inj hv).symm⟩
  | result =>
    obtain ⟨-, hv⟩ := Option.ite_none_right_eq_some.mp h
    obtain ⟨o, -, ho⟩ := Option.map_eq_some_iff.mp hv
    exact ⟨o, congrArg encode ho.symm⟩
  | excInfo =>
    obtain ⟨-, hv⟩ := Option.ite_none_right_eq_some.mp h
    obtain ⟨e, -, he⟩ := Option.map_eq_some_iff.mp hv
    exact ⟨e, congrArg encode he.symm⟩
  | dependencyIds =>
    obtain ⟨-, hv⟩ := Option.ite_none_left_eq_some.mp h
    exact ⟨job.dependencyIds, congrArg encode (Option.some.inj hv).symm⟩
  | metadata =>
    obtain ⟨-, hv⟩ := Option.ite_none_right_eq_some.mp h
    exact ⟨job.metadata, congrArg encode (Option.some.inj hv).symm⟩

omit [DecidableEq Obj] in
lemma holds_preparation {workerName : String} {now : DateTime} {f : JobField} {v : PyValue}
    (h : preparation workerName now f = some v) : Holds c f (encode v) := by
  cases f with
  | lastHeartbeat | startedAt => exact ⟨some now, congrArg encode (Option.some.inj h).symm⟩
  | status => exact ⟨.started, congrArg encode (Option.some.inj h).symm⟩
  | workerName => exact ⟨workerName, congrArg encode (Option.some.inj h).symm⟩
  | _ => cases h

lemma eq_of_single {f f' : JobField} {value v : PyValue} (h : single f value f' = some v) :
    f' = f ∧ v = value := by
  obtain ⟨hf, hv⟩ := Option.ite_none_right_eq_some.mp h
  exact ⟨hf, (Option.some.inj hv).symm⟩

omit [DecidableEq Obj] in
lemma holds_update {h : RawHash} {mapping : JobField → Option PyValue} {f : JobField}
    {v : ByteArray} (hv : h.update mapping f = some v)
    (hmapping : ∀ w, mapping f = some w → Holds c f (encode w))
    (hh : h f = some v → Holds c f v) : Holds c f v := by
  cases hm : mapping f with
  | none => exact hh (by simpa [RawHash.update, hm] using hv)
  | some w =>
    have hvw : encode w = v := by simpa [RawHash.update, hm] using hv
    exact hvw ▸ hmapping w hm

/-- Nothing else is left. The induction is on the writes. -/
lemma Left.holds {h : RawHash} (hleft : Left c h) {f : JobField} {v : ByteArray}
    (hv : h f = some v) : Holds c f v := by
  induction hleft with
  | absent => cases hv
  | save job includeMeta includeResult _ ih =>
    exact holds_update hv (fun w hw => holds_toDict job includeMeta includeResult hw) ih
  | setStatus status _ ih =>
    refine holds_update hv (fun w hw => ?_) ih
    obtain ⟨rfl, rfl⟩ := eq_of_single hw
    exact ⟨status, rfl⟩
  | heartbeat now _ ih =>
    refine holds_update hv (fun w hw => ?_) ih
    obtain ⟨rfl, rfl⟩ := eq_of_single hw
    exact ⟨some now, rfl⟩
  | prepare workerName now _ ih => exact holds_update hv (fun w hw => holds_preparation hw) ih
  | saveMeta metadata _ ih =>
    refine holds_update hv (fun w hw => ?_) ih
    obtain ⟨rfl, rfl⟩ := eq_of_single hw
    exact ⟨metadata, rfl⟩

/-- The two fields for the dependencies are written together. -/
lemma Left.dependencies {h : RawHash} (hleft : Left c h) :
    (h .dependencyIds = none ∧ h .dependencyId = none) ∨
      ∃ id ids, h .dependencyIds = some (encode (.text (dumpsTexts (id :: ids)))) ∧
        h .dependencyId = some (encode (.text id)) := by
  induction hleft with
  | absent => exact .inl ⟨rfl, rfl⟩
  | save job includeMeta includeResult _ ih =>
    cases hids : job.dependencyIds with
    | nil => simpa [RawHash.update, toDict, hids] using ih
    | cons id ids => exact .inr ⟨id, ids, by simp [RawHash.update, toDict, hids]⟩
  | setStatus | heartbeat | saveMeta =>
    next ih => simpa [RawHash.update, single] using ih
  | prepare =>
    next ih => simpa [RawHash.update, preparation] using ih

/-! ## Reading such a hash -/

section Readers
variable {α : Type} {read : ByteArray → Except PyError α} {write : α → PyValue}
  {x x' : Option ByteArray}

lemma eq_some_of_truthy {v : ByteArray} (h : truthy x = some v) : x = some v :=
  (Option.filter_eq_some_iff.mp h).1

lemma exists_readIf (hread : ∀ a, read (encode (write a)) = .ok a)
    (hx : ∀ v, x = some v → ∃ a, v = encode (write a)) : ∃ y, readIf read x = .ok y := by
  cases x with
  | none => exact ⟨none, rfl⟩
  | some v =>
    obtain ⟨a, rfl⟩ := hx v rfl
    exact ⟨some a, by simp [readIf, hread]⟩

lemma exists_readIf_truthy (hread : ∀ a, read (encode (write a)) = .ok a)
    (hx : ∀ v, x = some v → ∃ a, v = encode (write a)) : ∃ y, readIf read (truthy x) = .ok y :=
  exists_readIf hread fun v hv => hx v (eq_some_of_truthy hv)

/-- What has been written can be told from what is read. -/
lemma eq_of_readIf (hread : ∀ a, read (encode (write a)) = .ok a)
    (hx : ∀ v, x = some v → ∃ a, v = encode (write a))
    (hx' : ∀ v, x' = some v → ∃ a, v = encode (write a)) {y : Option α}
    (h : readIf read x = .ok y) (h' : readIf read x' = .ok y) : x = x' := by
  have hshape : ∀ {z : Option ByteArray}, (∀ v, z = some v → ∃ a, v = encode (write a)) →
      readIf read z = .ok y → z = (y.map write).map encode := by
    intro z hz hzy
    cases z with
    | none => cases hzy; rfl
    | some v =>
      obtain ⟨a, rfl⟩ := hz v rfl
      have hya : some a = y := by simpa [readIf, hread] using hzy
      rw [← hya]
      rfl
  rw [hshape hx h, hshape hx' h']

lemma truthy_eq_self (hne : ∀ a, encode (write a) ≠ ByteArray.empty)
    (hx : ∀ v, x = some v → ∃ a, v = encode (write a)) : truthy x = x := by
  cases x with
  | none => rfl
  | some v =>
    obtain ⟨a, rfl⟩ := hx v rfl
    exact truthy_some (hne a)

lemma eq_of_readIf_truthy (hread : ∀ a, read (encode (write a)) = .ok a)
    (hne : ∀ a, encode (write a) ≠ ByteArray.empty)
    (hx : ∀ v, x = some v → ∃ a, v = encode (write a))
    (hx' : ∀ v, x' = some v → ∃ a, v = encode (write a)) {y : Option α}
    (h : readIf read (truthy x) = .ok y) (h' : readIf read (truthy x') = .ok y) : x = x' := by
  rw [truthy_eq_self hne hx] at h
  rw [truthy_eq_self hne hx'] at h'
  exact eq_of_readIf hread hx hx' h h'

/-- The same for an attribute with a default that is never written. -/
lemma eq_of_readIf_default (hread : ∀ a, read (encode (write a)) = .ok a) {d : α}
    (hne : ∀ a, a ≠ d → encode (write a) ≠ ByteArray.empty)
    (hx : ∀ v, x = some v → ∃ a, a ≠ d ∧ v = encode (write a))
    (hx' : ∀ v, x' = some v → ∃ a, a ≠ d ∧ v = encode (write a)) {y y' : Option α}
    (h : readIf read (truthy x) = .ok y) (h' : readIf read (truthy x') = .ok y')
    (heq : y.getD d = y'.getD d) : x = x' := by
  have hshape : ∀ {z : Option ByteArray} {y : Option α},
      (∀ v, z = some v → ∃ a, a ≠ d ∧ v = encode (write a)) → readIf read (truthy z) = .ok y →
      z = (y.map write).map encode ∧ y ≠ some d := by
    intro z y hz hzy
    cases z with
    | none =>
      cases hzy
      exact ⟨rfl, nofun⟩
    | some v =>
      obtain ⟨a, ha, rfl⟩ := hz v rfl
      have hya : some a = y := by simpa [readIf, hread, truthy_some (hne a ha)] using hzy
      rw [← hya]
      exact ⟨rfl, fun had => ha (Option.some.inj had)⟩
  obtain ⟨hxy, hy⟩ := hshape hx h
  obtain ⟨hxy', hy'⟩ := hshape hx' h'
  have hyy : y = y' := by
    cases y with
    | none =>
      cases y' with
      | none => rfl
      | some a' => exact absurd (congrArg some heq.symm) hy'
    | some a =>
      cases y' with
      | none => exact absurd (congrArg some heq) hy
      | some a' => exact congrArg some heq
  rw [hxy, hxy', hyy]

end Readers

omit [DecidableEq Obj] in
lemma exists_readTime {x : Option ByteArray}
    (hx : ∀ v, x = some v → ∃ t : Option DateTime, v = encode (timeOrEmpty t)) :
    ∃ y, readIf strToDate (truthy x) = .ok y := by
  cases x with
  | none => exact ⟨none, rfl⟩
  | some v =>
    obtain ⟨t, rfl⟩ := hx v rfl
    exact ⟨t, readIf_timeOrEmpty t⟩

omit [DecidableEq Obj] in
lemma exists_readOrigin {x : Option ByteArray}
    (hx : ∀ v, x = some v → ∃ text : String, text ≠ "" ∧ v = encode (.text text)) :
    ∃ y, readIf decode (truthy x) = .ok y :=
  exists_readIf_truthy decode_encode fun v hv => by
    obtain ⟨text, -, htext⟩ := hx v hv
    exact ⟨text, htext⟩

lemma Left.readDependencyIds_eq {h : RawHash} (hleft : Left c h) :
    ∃ ids, readDependencyIds h = .ok ids := by
  obtain ⟨hids, hid⟩ | ⟨id, ids, hids, -⟩ := hleft.dependencies
  · exact ⟨[], by simp [readDependencyIds, hids, hid]⟩
  · refine ⟨id :: ids, ?_⟩
    simp only [readDependencyIds, hids, truthy_some (encode_texts_ne_empty _)]
    exact loadsTexts_encode _

lemma Left.exists_times {h : RawHash} (hleft : Left c h) :
    ∃ createdAt enqueuedAt startedAt endedAt lastHeartbeat,
      readIf strToDate (truthy (h .createdAt)) = .ok createdAt ∧
      readIf strToDate (truthy (h .enqueuedAt)) = .ok enqueuedAt ∧
      readIf strToDate (truthy (h .startedAt)) = .ok startedAt ∧
      readIf strToDate (truthy (h .endedAt)) = .ok endedAt ∧
      readIf strToDate (truthy (h .lastHeartbeat)) = .ok lastHeartbeat := by
  have hv : ∀ {f : JobField} (v), h f = some v → Holds c f v := fun _ hv => hleft.holds hv
  obtain ⟨createdAt, hCreatedAt⟩ := exists_readIf_truthy strToDate_encode (hv (f := .createdAt))
  obtain ⟨enqueuedAt, hEnqueuedAt⟩ := exists_readIf_truthy strToDate_encode (hv (f := .enqueuedAt))
  obtain ⟨startedAt, hStartedAt⟩ := exists_readTime (hv (f := .startedAt))
  obtain ⟨endedAt, hEndedAt⟩ := exists_readTime (hv (f := .endedAt))
  obtain ⟨lastHeartbeat, hLastHeartbeat⟩ := exists_readTime (hv (f := .lastHeartbeat))
  exact ⟨_, _, _, _, _, hCreatedAt, hEnqueuedAt, hStartedAt, hEndedAt, hLastHeartbeat⟩

omit [DecidableEq Obj] in
/-- A callback has a name and a timeout. -/
lemma exists_callback {h : RawHash} {f f' : JobField}
    (hname : ∀ v, h f = some v → ∃ text : String, v = encode (.text text))
    (htimeout : ∀ v, h f' = some v → ∃ n : ℤ, v = encode (.int n)) :
    ∃ name timeout, readIf decode (truthy (h f)) = .ok name ∧
      readIf parseInt (h f') = .ok timeout := by
  obtain ⟨name, hname⟩ := exists_readIf_truthy decode_encode hname
  obtain ⟨timeout, htimeout⟩ := exists_readIf parseInt_encode htimeout
  exact ⟨_, _, hname, htimeout⟩

lemma Left.exists_retries {h : RawHash} (hleft : Left c h) :
    ∃ numberOfRetries retriesLeft retryIntervals onRetry repeatsLeft repeatIntervals,
      readIf parseInt (truthy (h .numberOfRetries)) = .ok numberOfRetries ∧
      readIf parseInt (truthy (h .retriesLeft)) = .ok retriesLeft ∧
      readIf loadsInts (truthy (h .retryIntervals)) = .ok retryIntervals ∧
      readIf parseBool (truthy (h .enqueueAtFrontOnRetry)) = .ok onRetry ∧
      readIf parseInt (truthy (h .repeatsLeft)) = .ok repeatsLeft ∧
      readIf loadsInts (truthy (h .repeatIntervals)) = .ok repeatIntervals := by
  have hv : ∀ {f : JobField} (v), h f = some v → Holds c f v := fun _ hv => hleft.holds hv
  obtain ⟨numberOfRetries, hNumberOfRetries⟩ :=
    exists_readIf_truthy parseInt_encode (hv (f := .numberOfRetries))
  obtain ⟨retriesLeft, hRetriesLeft⟩ := exists_readIf_truthy parseInt_encode (hv (f := .retriesLeft))
  obtain ⟨retryIntervals, hRetryIntervals⟩ :=
    exists_readIf_truthy loadsInts_encode (hv (f := .retryIntervals))
  obtain ⟨onRetry, hOnRetry⟩ := exists_readIf_truthy parseBool_encode
    fun v hx => ⟨true, hv (f := .enqueueAtFrontOnRetry) v hx⟩
  obtain ⟨repeatsLeft, hRepeatsLeft⟩ := exists_readIf_truthy parseInt_encode (hv (f := .repeatsLeft))
  obtain ⟨repeatIntervals, hRepeatIntervals⟩ :=
    exists_readIf_truthy loadsInts_encode (hv (f := .repeatIntervals))
  exact ⟨_, _, _, _, _, _, hNumberOfRetries, hRetriesLeft, hRetryIntervals, hOnRetry, hRepeatsLeft,
    hRepeatIntervals⟩

/-- A hash that is left and has the data of a call can be read. -/
theorem Left.exists_reads (hc : c.Lawful) {h : RawHash} (hleft : Left c h) {rawData : ByteArray}
    (hdata : h .data = some rawData) (id : JobId) (now : DateTime) :
    ∃ job : JobRecord Obj, job.id = id ∧ Reads c now h job := by
  have hv : ∀ {f : JobField} (v), h f = some v → Holds c f v := fun _ hv => hleft.holds hv
  obtain ⟨createdAt, enqueuedAt, startedAt, endedAt, lastHeartbeat, hCreatedAt, hEnqueuedAt,
    hStartedAt, hEndedAt, hLastHeartbeat⟩ := hleft.exists_times
  obtain ⟨origin, hOrigin⟩ := exists_readOrigin (hv (f := .origin))
  obtain ⟨workerName, hWorkerName⟩ := exists_readIf_truthy decode_encode (hv (f := .workerName))
  obtain ⟨description, hDescription⟩ := exists_readIf_truthy decode_encode (hv (f := .description))
  obtain ⟨groupId, hGroupId⟩ := exists_readIf_truthy decode_encode (hv (f := .groupId))
  obtain ⟨timeout, hTimeout⟩ := exists_readIf_truthy parseInt_encode (hv (f := .timeout))
  obtain ⟨resultTtl, hResultTtl⟩ := exists_readIf_truthy parseInt_encode (hv (f := .resultTtl))
  obtain ⟨failureTtl, hFailureTtl⟩ := exists_readIf_truthy parseInt_encode (hv (f := .failureTtl))
  obtain ⟨status, hStatus⟩ := exists_readIf_truthy parseStatus_encode (hv (f := .status))
  obtain ⟨successCallbackName, successCallbackTimeout, hSuccessCallbackName,
    hSuccessCallbackTimeout⟩ :=
    exists_callback (hv (f := .successCallbackName)) (hv (f := .successCallbackTimeout))
  obtain ⟨failureCallbackName, failureCallbackTimeout, hFailureCallbackName,
    hFailureCallbackTimeout⟩ :=
    exists_callback (hv (f := .failureCallbackName)) (hv (f := .failureCallbackTimeout))
  obtain ⟨stoppedCallbackName, stoppedCallbackTimeout, hStoppedCallbackName,
    hStoppedCallbackTimeout⟩ :=
    exists_callback (hv (f := .stoppedCallbackName)) (hv (f := .stoppedCallbackTimeout))
  obtain ⟨dependencyIds, hDependencyIds⟩ := hleft.readDependencyIds_eq
  obtain ⟨allowDependencyFailures, hAllowDependencyFailures⟩ :=
    exists_readIf_truthy parseBool_encode (hv (f := .allowDependencyFailures))
  obtain ⟨enqueueAtFront, hEnqueueAtFront⟩ :=
    exists_readIf parseBool_encode (hv (f := .enqueueAtFront))
  obtain ⟨ttl, hTtl⟩ := exists_readIf_truthy parseInt_encode (hv (f := .ttl))
  obtain ⟨numberOfRetries, retriesLeft, retryIntervals, onRetry, repeatsLeft, repeatIntervals,
    hNumberOfRetries, hRetriesLeft, hRetryIntervals, hOnRetry, hRepeatsLeft, hRepeatIntervals⟩ :=
    hleft.exists_retries
  obtain ⟨excInfo, hExcInfo⟩ :=
    exists_readIf_truthy (decompressText_compress hc) (hv (f := .excInfo))
  let job : JobRecord Obj :=
    { id, enqueuedAt, startedAt, endedAt, lastHeartbeat, workerName, description, groupId
      timeout, resultTtl, failureTtl, successCallbackName, successCallbackTimeout
      failureCallbackName, failureCallbackTimeout, stoppedCallbackName, stoppedCallbackTimeout
      dependencyIds, allowDependencyFailures, enqueueAtFront, ttl, numberOfRetries, retriesLeft
      retryIntervals, repeatsLeft, repeatIntervals, excInfo
      data := (c.decompress rawData).getD rawData
      createdAt := createdAt.getD now
      origin := origin.getD ""
      result := loadsResult c (h .result)
      status := status.getD .created
      enqueueAtFrontOnRetry := onRetry.getD false
      metadata := loadsMetadata c (h .metadata) }
  exact ⟨job, rfl, {
      data := ⟨rawData, hdata, rfl⟩
      createdAt := ⟨createdAt, hCreatedAt, rfl⟩
      origin := ⟨origin, hOrigin, rfl⟩
      workerName := hWorkerName
      description := hDescription
      enqueuedAt := hEnqueuedAt
      startedAt := hStartedAt
      endedAt := hEndedAt
      lastHeartbeat := hLastHeartbeat
      groupId := hGroupId
      result := rfl
      timeout := hTimeout
      resultTtl := hResultTtl
      failureTtl := hFailureTtl
      status := ⟨status, hStatus, rfl⟩
      successCallbackName := hSuccessCallbackName
      successCallbackTimeout := hSuccessCallbackTimeout
      failureCallbackName := hFailureCallbackName
      failureCallbackTimeout := hFailureCallbackTimeout
      stoppedCallbackName := hStoppedCallbackName
      stoppedCallbackTimeout := hStoppedCallbackTimeout
      dependencyIds := hDependencyIds
      allowDependencyFailures := hAllowDependencyFailures
      enqueueAtFront := hEnqueueAtFront
      ttl := hTtl
      metadata := rfl
      numberOfRetries := hNumberOfRetries
      retriesLeft := hRetriesLeft
      retryIntervals := hRetryIntervals
      enqueueAtFrontOnRetry := ⟨onRetry, hOnRetry, rfl⟩
      repeatsLeft := hRepeatsLeft
      repeatIntervals := hRepeatIntervals
      excInfo := hExcInfo }⟩

omit [DecidableEq Obj] in
/-- The hash may have other metadata, if it reads the same. -/
lemma JobRecord.Reads.congr {now : DateTime} {h₁ h₂ : RawHash} {job : JobRecord Obj}
    (hreads : Reads c now h₁ job) (hsame : ∀ f, f ≠ .metadata → h₁ f = h₂ f)
    (hmetadata : loadsMetadata c (h₁ .metadata) = loadsMetadata c (h₂ .metadata)) :
    Reads c now h₂ job := by
  have heq : h₂ = fun f => if f = .metadata then h₂ .metadata else h₁ f := by
    funext f
    by_cases hf : f = .metadata
    · rw [if_pos hf, hf]
    · rw [if_neg hf, hsame f hf]
  rw [heq]
  exact { hreads with metadata := hreads.metadata.trans hmetadata }

/-! ## What the new job leaves of the old one -/

/-- The two hashes agree in the fields that `job` has nothing to write to. The metadata is compared
as it is read: an empty dictionary is as good as none. -/
def SameLeftovers (c : Codec Obj) (job : JobRecord Obj) (h₁ h₂ : RawHash) : Prop :=
  ∀ f, job.toDict c true true f = none →
    if f = .metadata then loadsMetadata c (h₁ f) = loadsMetadata c (h₂ f) else h₁ f = h₂ f

lemma Left.dependencies_eq {h₁ h₂ : RawHash} (hleft₁ : Left c h₁) (hleft₂ : Left c h₂)
    (heq : readDependencyIds h₁ = readDependencyIds h₂) :
    h₁ .dependencyIds = h₂ .dependencyIds ∧ h₁ .dependencyId = h₂ .dependencyId := by
  have hread : ∀ {h : RawHash}, Left c h → ∃ ids, readDependencyIds h = .ok ids ∧
      h .dependencyIds = (if ids = [] then none else some (encode (.text (dumpsTexts ids)))) ∧
      h .dependencyId = ids.head?.map fun id => encode (.text id) := by
    intro h hleft
    obtain ⟨hids, hid⟩ | ⟨id, ids, hids, hid⟩ := hleft.dependencies
    · exact ⟨[], by simp [readDependencyIds, hids, hid], hids, hid⟩
    · refine ⟨id :: ids, ?_, hids, hid⟩
      simp only [readDependencyIds, hids, truthy_some (encode_texts_ne_empty _)]
      exact loadsTexts_encode _
  obtain ⟨ids₁, hread₁, hids₁, hid₁⟩ := hread hleft₁
  obtain ⟨ids₂, hread₂, hids₂, hid₂⟩ := hread hleft₂
  have hids : ids₁ = ids₂ := Except.ok.inj (hread₁.symm.trans (heq.trans hread₂))
  rw [hids₁, hid₁, hids₂, hid₂, hids]
  exact ⟨rfl, rfl⟩

omit [DecidableEq Obj] in
lemma eq_of_loadsResult (hc : c.Lawful) {x x' : Option ByteArray}
    (hx : ∀ v, x = some v → ∃ o, v = c.dumps o) (hx' : ∀ v, x' = some v → ∃ o, v = c.dumps o)
    (heq : loadsResult c x = loadsResult c x') : x = x' := by
  have hread : ∀ {z : Option ByteArray}, (∀ v, z = some v → ∃ o, v = c.dumps o) →
      z = (loadsResult c z).map c.dumps := by
    intro z hz
    cases z with
    | none => rfl
    | some v =>
      obtain ⟨o, rfl⟩ := hz v rfl
      simp [loadsResult, truthy_some (hc.dumps_ne_empty o), hc.loads_dumps]
  rw [hread hx, hread hx', heq]

/-- What is read tells the fields apart that the job has not written. -/
lemma Left.eq_of_reads (hc : c.Lawful) {h₁ h₂ : RawHash} (hleft₁ : Left c h₁)
    (hleft₂ : Left c h₂) {now : DateTime} {r : JobRecord Obj} (hr₁ : Reads c now h₁ r)
    (hr₂ : Reads c now h₂ r) {job : JobRecord Obj} (hdescription : job.description ≠ none)
    {f : JobField} (hf : job.toDict c true true f = none) (hmetadata : f ≠ .metadata) :
    h₁ f = h₂ f := by
  have hv₁ : ∀ v, h₁ f = some v → Holds c f v := fun _ hv => hleft₁.holds hv
  have hv₂ : ∀ v, h₂ f = some v → Holds c f v := fun _ hv => hleft₂.holds hv
  cases f with
  | createdAt | data | successCallbackName | failureCallbackName | stoppedCallbackName | startedAt
  | endedAt | lastHeartbeat | workerName | groupId | status => cases hf
  | description => exact absurd (Option.map_eq_none_iff.mp hf) hdescription
  | metadata => exact absurd rfl hmetadata
  | numberOfRetries =>
    exact eq_of_readIf_truthy parseInt_encode encode_int_ne_empty hv₁ hv₂ hr₁.numberOfRetries
      hr₂.numberOfRetries
  | retriesLeft =>
    exact eq_of_readIf_truthy parseInt_encode encode_int_ne_empty hv₁ hv₂ hr₁.retriesLeft
      hr₂.retriesLeft
  | repeatsLeft =>
    exact eq_of_readIf_truthy parseInt_encode encode_int_ne_empty hv₁ hv₂ hr₁.repeatsLeft
      hr₂.repeatsLeft
  | timeout =>
    exact eq_of_readIf_truthy parseInt_encode encode_int_ne_empty hv₁ hv₂ hr₁.timeout hr₂.timeout
  | resultTtl =>
    exact eq_of_readIf_truthy parseInt_encode encode_int_ne_empty hv₁ hv₂ hr₁.resultTtl
      hr₂.resultTtl
  | failureTtl =>
    exact eq_of_readIf_truthy parseInt_encode encode_int_ne_empty hv₁ hv₂ hr₁.failureTtl
      hr₂.failureTtl
  | ttl => exact eq_of_readIf_truthy parseInt_encode encode_int_ne_empty hv₁ hv₂ hr₁.ttl hr₂.ttl
  | successCallbackTimeout =>
    exact eq_of_readIf parseInt_encode hv₁ hv₂ hr₁.successCallbackTimeout
      hr₂.successCallbackTimeout
  | failureCallbackTimeout =>
    exact eq_of_readIf parseInt_encode hv₁ hv₂ hr₁.failureCallbackTimeout
      hr₂.failureCallbackTimeout
  | stoppedCallbackTimeout =>
    exact eq_of_readIf parseInt_encode hv₁ hv₂ hr₁.stoppedCallbackTimeout
      hr₂.stoppedCallbackTimeout
  | retryIntervals =>
    exact eq_of_readIf_truthy loadsInts_encode encode_ints_ne_empty hv₁ hv₂ hr₁.retryIntervals
      hr₂.retryIntervals
  | repeatIntervals =>
    exact eq_of_readIf_truthy loadsInts_encode encode_ints_ne_empty hv₁ hv₂ hr₁.repeatIntervals
      hr₂.repeatIntervals
  | allowDependencyFailures =>
    exact eq_of_readIf_truthy parseBool_encode encode_bool_ne_empty hv₁ hv₂
      hr₁.allowDependencyFailures hr₂.allowDependencyFailures
  | enqueueAtFront =>
    exact eq_of_readIf parseBool_encode hv₁ hv₂ hr₁.enqueueAtFront hr₂.enqueueAtFront
  | enqueuedAt =>
    exact eq_of_readIf_truthy strToDate_encode encode_time_ne_empty hv₁ hv₂ hr₁.enqueuedAt
      hr₂.enqueuedAt
  | excInfo =>
    exact eq_of_readIf_truthy (decompressText_compress hc) (fun _ => hc.compress_ne_empty _) hv₁ hv₂
      hr₁.excInfo hr₂.excInfo
  | result => exact eq_of_loadsResult hc hv₁ hv₂ (hr₁.result.symm.trans hr₂.result)
  | dependencyId =>
    exact (hleft₁.dependencies_eq hleft₂ (hr₁.dependencyIds.trans hr₂.dependencyIds.symm)).2
  | dependencyIds =>
    exact (hleft₁.dependencies_eq hleft₂ (hr₁.dependencyIds.trans hr₂.dependencyIds.symm)).1
  | origin =>
    obtain ⟨o₁, ho₁, horigin₁⟩ := hr₁.origin
    obtain ⟨o₂, ho₂, horigin₂⟩ := hr₂.origin
    exact eq_of_readIf_default decode_encode (fun _ => mt encode_text_eq_empty.mp) hv₁ hv₂ ho₁ ho₂
      (horigin₁.symm.trans horigin₂)
  | enqueueAtFrontOnRetry =>
    obtain ⟨b₁, hb₁, hfront₁⟩ := hr₁.enqueueAtFrontOnRetry
    obtain ⟨b₂, hb₂, hfront₂⟩ := hr₂.enqueueAtFrontOnRetry
    exact eq_of_readIf_default parseBool_encode (fun _ _ => encode_bool_ne_empty _)
      (fun v hv => ⟨true, by decide, hv₁ v hv⟩) (fun v hv => ⟨true, by decide, hv₂ v hv⟩) hb₁ hb₂
      (hfront₁.symm.trans hfront₂)

/-! ## Enqueueing over an old hash -/

lemma RawHash.update_update (h : RawHash) {m m' : JobField → Option PyValue}
    (hm : ∀ f, m' f = none → m f = none) : (h.update m).update m' = h.update m' := by
  funext f
  unfold RawHash.update
  cases hf : m' f with
  | none => simp [hm f hf]
  | some v => simp

lemma RawHash.update_ne_default (id : JobId) (h : RawHash) {m : JobField → Option PyValue}
    {f : JobField} (hf : m f ≠ none) : h.update m ≠ (default : RawValue (.job id)) := by
  intro heq
  obtain ⟨v, hv⟩ := Option.ne_none_iff_exists'.mp hf
  have hfield : h.update m f = some (encode v) := by simp [RawHash.update, hv]
  exact Option.some_ne_none _ (hfield.symm.trans (congrFun heq f))

namespace JobRecord

lemma val_hset (id : JobId) (m : JobField → Option PyValue) (s : RawStore) :
    ((hset id m).run s).val (.job id) = RawHash.update (s.val (.job id)) m := by
  simp [hset]

lemma frames_hset (id : JobId) (m : JobField → Option PyValue) {k : RawKey} (hk : k ≠ .job id) :
    (hset id m).Frames k := by
  unfold hset
  exact Command.frames_write hk

/-- `HSET` keeps the expiry of the key. -/
lemma exp_hset (id : JobId) {m : JobField → Option PyValue} {f : JobField} (hf : m f ≠ none)
    (s : RawStore) : ((hset id m).run s).exp (.job id) = s.exp (.job id) := by
  have hne : RawHash.update (s.val (.job id)) m ≠ default :=
    RawHash.update_ne_default id _ hf
  show (if RawHash.update (s.val (.job id)) m = default then _ else s.exp) (.job id) = _
  rw [if_neg hne]

omit [DecidableEq Obj] in
lemma exp_cleanup (job : JobRecord Obj) (ttl : Option ℤ) (now : DateTime) {s : RawStore}
    (hs : s.val (.job job.id) ≠ default) :
    ((Command.seq (job.cleanup ttl now)).run s).exp (.job job.id) =
      if 0 < ttl.getD 0 then some (now.timestamp + ttl.getD 0) else s.exp (.job job.id) := by
  unfold cleanup
  split
  · have hrest : (Command.seq
        [(.expire (.dependents job.id) (now.timestamp + ttl.getD 0) : RawCommand),
          .expire (.dependencies job.id) (now.timestamp + ttl.getD 0)]).Frames (.job job.id) := by
      apply Command.frames_seq
      intro cmd hcmd
      obtain rfl | hcmd := List.mem_cons.mp hcmd
      · exact Command.frames_expire nofun
      · rw [List.mem_singleton.mp hcmd]
        exact Command.frames_expire nofun
    rw [Command.seq_cons_run, (hrest _).2]
    show (if s.val (.job job.id) = default then s else _).exp (.job job.id) = _
    rw [if_neg hs]
    exact Function.update_self _ _ _
  · rfl

omit [DecidableEq Obj] in
lemma keeps_cleanup (job : JobRecord Obj) (ttl : Option ℤ) (now : DateTime) (k : RawKey) :
    (Command.seq (job.cleanup ttl now)).Keeps k := by
  apply Command.keeps_seq
  intro cmd hcmd
  unfold cleanup at hcmd
  split at hcmd
  · simp only [List.mem_cons, List.not_mem_nil, or_false] at hcmd
    obtain rfl | rfl | rfl := hcmd <;> exact Command.keeps_expire
  · cases hcmd

/-- What a status, a save and a cleanup make of the key, with commands on other keys between. -/
lemma run_persisted (job : JobRecord Obj) (status : JobStatus) (now : DateTime)
    (between after : List RawCommand) (hbetween : ∀ cmd ∈ between, cmd.Frames (.job job.id))
    (hafter : ∀ cmd ∈ after, cmd.Frames (.job job.id)) (s : RawStore) :
    let s' := (Command.seq (setStatus job.id status ::
      (between ++ save c job :: (job.cleanup job.ttl now ++ after)))).run s
    s'.val (.job job.id) = RawHash.update (s.val (.job job.id)) (job.toDict c true true) ∧
      s'.exp (.job job.id) =
        if 0 < job.ttl.getD 0 then some (now.timestamp + job.ttl.getD 0)
        else s.exp (.job job.id) := by
  intro s'
  have hs' : s' = (Command.seq after).run ((Command.seq (job.cleanup job.ttl now)).run
      ((save c job).run ((Command.seq between).run ((setStatus job.id status).run s)))) := by
    simp only [s', Command.seq_cons_run, Command.seq_append_run]
  have hstatus : ∀ f, job.toDict c true true f = none →
      single .status (.text status.text) f = none := by
    intro f hf
    have hne : f ≠ .status := by
      rintro rfl
      cases hf
    simp [single, hne]
  set s₁ := (setStatus job.id status).run s with hs₁
  set s₂ := (Command.seq between).run s₁ with hs₂
  set s₃ := (save c job).run s₂ with hs₃
  have hval₁ : s₁.val (.job job.id) = RawHash.update (s.val (.job job.id)) _ := val_hset _ _ s
  have hexp₁ : s₁.exp (.job job.id) = s.exp (.job job.id) :=
    exp_hset (f := .status) _ (by simp [single]) s
  have hagree₂ := Command.frames_seq hbetween s₁
  have hval₃ : s₃.val (.job job.id) =
      RawHash.update (s.val (.job job.id)) (job.toDict c true true) := by
    rw [hs₃, save, val_hset, hagree₂.1, hval₁]
    exact RawHash.update_update _ hstatus
  have hexp₃ : s₃.exp (.job job.id) = s.exp (.job job.id) := by
    have hkept := exp_hset (f := .status) job.id (m := job.toDict c true true)
      (Option.some_ne_none _) s₂
    exact (hkept.trans hagree₂.2).trans hexp₁
  have hne : s₃.val (.job job.id) ≠ default := by
    rw [hval₃]
    exact RawHash.update_ne_default (f := .status) _ _ (Option.some_ne_none _)
  have hagree := Command.frames_seq hafter ((Command.seq (job.cleanup job.ttl now)).run s₃)
  rw [hs', hagree.1, hagree.2, keeps_cleanup, exp_cleanup _ _ _ hne, hval₃, hexp₃]
  exact ⟨rfl, rfl⟩

end JobRecord

namespace RawQueue

/-- The job as `Queue.enqueue_job` saves it. -/
def savedJob (queue : RawQueue) (job : JobRecord Obj) (deferred : Bool) (now : DateTime) :
    JobRecord Obj :=
  if deferred then { job with origin := queue.name, status := .deferred }
  else queue.prepareForQueue { job with origin := queue.name } now

lemma run_deferCommands (job : JobRecord Obj) (now : DateTime) (s : RawStore) :
    let s' := (Command.seq (deferCommands c job now)).run s
    let saved : JobRecord Obj := { job with status := .deferred }
    s'.val (.job job.id) = RawHash.update (s.val (.job job.id)) (saved.toDict c true true) ∧
      s'.exp (.job job.id) =
        if 0 < job.ttl.getD 0 then some (now.timestamp + job.ttl.getD 0)
        else s.exp (.job job.id) := by
  have hbetween : ∀ cmd ∈ job.registerDependency now, cmd.Frames (.job job.id) := by
    intro cmd hcmd
    obtain rfl | hcmd := List.mem_cons.mp hcmd
    · exact Command.frames_alter nofun
    · obtain ⟨dependencyId, -, hmem⟩ := List.mem_flatMap.mp hcmd
      simp only [List.mem_cons, List.not_mem_nil, or_false] at hmem
      obtain rfl | rfl := hmem <;> exact Command.frames_alter nofun
  have hrun := run_persisted (c := c) { job with status := .deferred } .deferred now
    (job.registerDependency now) [] hbetween nofun s
  rw [List.append_nil] at hrun
  exact hrun

lemma run_asyncCommands (queue : RawQueue) {job : JobRecord Obj} (hstatus : job.status ≠ .deferred)
    (atFront : Bool) (now : DateTime) (s : RawStore) :
    let s' := (Command.seq (queue.asyncCommands c job atFront now)).run s
    s'.val (.job job.id) =
        RawHash.update (s.val (.job job.id)) ((queue.prepareForQueue job now).toDict c true true) ∧
      s'.exp (.job job.id) =
        if 0 < job.ttl.getD 0 then some (now.timestamp + job.ttl.getD 0)
        else s.exp (.job job.id) := by
  have hafter : ∀ cmd ∈ [queue.pushJobId job.id atFront], cmd.Frames (.job job.id) := by
    intro cmd hcmd
    rw [List.mem_singleton.mp hcmd]
    exact Command.frames_write nofun
  have hrun := run_persisted (c := c) (queue.prepareForQueue job now) .queued now []
    [queue.pushJobId job.id atFront] nofun hafter s
  unfold asyncCommands
  rw [if_neg hstatus]
  exact hrun

/-- What `Queue.enqueue_job` makes of the key of the job. -/
lemma enqueueJob_spec (queue : RawQueue) (job : JobRecord Obj) (hqueued : job.status = .queued)
    (atFront : Bool) (now : DateTime) {s : RawStore} {deferred : Bool}
    (hdeferred : unfinished c { job with origin := queue.name } now s = .ok deferred) :
    ∃ r, queue.enqueueJob c job atFront now s = .ok r ∧
      r.2.val (.job job.id) = RawHash.update (s.val (.job job.id))
        ((queue.savedJob job deferred now).toDict c true true) ∧
      r.2.exp (.job job.id) =
        if 0 < job.ttl.getD 0 then some (now.timestamp + job.ttl.getD 0)
        else s.exp (.job job.id) := by
  have hregister : ∀ t : RawStore, KeyStore.AgreeAt (.job job.id) (queue.register.run t) t :=
    Command.frames_alter nofun
  unfold enqueueJob setupDependencies
  rw [hdeferred, Except.ok_bind]
  cases deferred with
  | true =>
    have hrun := run_deferCommands (c := c) { job with origin := queue.name } now s
    have hagree := hregister
      ((Command.seq (deferCommands c { job with origin := queue.name } now)).run s)
    exact ⟨_, rfl, hagree.1.trans hrun.1, hagree.2.trans hrun.2⟩
  | false =>
    have hne : ({ job with origin := queue.name } : JobRecord Obj).status ≠ .deferred := by
      simp [hqueued]
    have hrun := queue.run_asyncCommands (c := c) hne atFront now (queue.register.run s)
    have hagree := hregister s
    refine ⟨_, if_pos hne, ?_, ?_⟩
    · rw [← hagree.1]
      exact hrun.1
    · rw [← hagree.2]
      exact hrun.2

lemma exists_unfinished {queue : RawQueue} {job : JobRecord Obj} {atFront : Bool} {now : DateTime}
    {s : RawStore} {r : JobRecord Obj × RawStore}
    (h : queue.enqueueJob c job atFront now s = .ok r) :
    ∃ deferred, unfinished c { job with origin := queue.name } now s = .ok deferred := by
  cases hu : unfinished c { job with origin := queue.name } now s with
  | ok deferred => exact ⟨deferred, rfl⟩
  | error e =>
    unfold enqueueJob setupDependencies at h
    rw [hu] at h
    cases h

/-! ## Two old hashes -/

/-- `Queue.enqueue` succeeds in both stores, what is fetched then is the same, and the key expires
when the time to live of the new job says. -/
def AgreesAfter (c : Codec Obj) (queue : RawQueue) (args : JobArguments Obj) (atFront : Bool)
    (created now later : DateTime) (s₁ s₂ : RawStore) : Prop :=
  ∃ r₁ r₂, queue.enqueue c args atFront created now s₁ = .ok r₁ ∧
    queue.enqueue c args atFront created now s₂ = .ok r₂ ∧
    (∃ job, fetch c args.id later r₁.2 = .ok job ∧ fetch c args.id later r₂.2 = .ok job) ∧
    r₁.2.exp (.job args.id) = args.ttl.map (now.timestamp + ·) ∧
    r₂.2.exp (.job args.id) = args.ttl.map (now.timestamp + ·)

/-- The dependencies of the new job are found unfinished in both stores or in none, the old hashes
agree in what the new job leaves out, and a job without a time to live finds no expiry. -/
def Clean (c : Codec Obj) (queue : RawQueue) (args : JobArguments Obj) (created now : DateTime)
    (s₁ s₂ : RawStore) : Prop :=
  let job := queue.newJob c { args with status := .queued } created
  ∃ deferred, unfinished c job now s₁ = .ok deferred ∧ unfinished c job now s₂ = .ok deferred ∧
    SameLeftovers c (queue.savedJob job deferred now) (s₁.val (.job args.id))
      (s₂.val (.job args.id)) ∧
    (args.ttl = none → s₁.exp (.job args.id) = none ∧ s₂.exp (.job args.id) = none)

lemma exp_eq_iff {ttl : Option ℤ} (httl : ∀ t ∈ ttl, 0 < t) (start : ℤ) (old : Option ℤ) :
    (if 0 < ttl.getD 0 then some (start + ttl.getD 0) else old) = ttl.map (start + ·) ↔
      (ttl = none → old = none) := by
  cases ttl with
  | none => simp
  | some t => simp [httl t rfl]

omit [DecidableEq Obj] in
lemma createJob_spec {queue : RawQueue} {args : JobArguments Obj} {created : DateTime}
    {job : JobRecord Obj}
    (hcreate : queue.createJob c { args with status := .queued } created = .ok job) :
    job = queue.newJob c { args with status := .queued } created ∧ (∀ ttl ∈ args.ttl, 0 < ttl) ∧
      parseJobId args.id = args.id := by
  obtain ⟨hjob, -, httl, hid⟩ := createJob_eq hcreate
  exact ⟨hjob, httl, parseJobId_of_pattern hid⟩

section
variable {queue : RawQueue} {job : JobRecord Obj} {deferred : Bool} {now : DateTime} {h : RawHash}

lemma data_savedJob : h.update ((queue.savedJob job deferred now).toDict c true true) .data =
    some (c.compress (queue.savedJob job deferred now).data) := rfl

lemma fetch_of_reads {s : RawStore} {later : DateTime} {id : JobId} {r : JobRecord Obj}
    (hid : parseJobId id = id) (hr : r.id = id)
    (hval : s.val (.job id) = h.update ((queue.savedJob job deferred now).toDict c true true))
    (hreads : Reads c later
      (h.update ((queue.savedJob job deferred now).toDict c true true)) r) :
    fetch c id later s = .ok r := by
  have hne : s.val (.job id) ≠ default := by
    rw [hval]
    exact RawHash.update_ne_default (f := .data) _ _ (Option.some_ne_none _)
  unfold fetch
  rw [hid, if_neg hne, hval, ← hr]
  exact restore_of_reads hreads

/-- What is fetched is what the hash stands for. -/
lemma reads_of_fetch (hc : c.Lawful) (hleft : Left c h) {s : RawStore} {id : JobId}
    (hid : parseJobId id = id)
    (hval : s.val (.job id) = h.update ((queue.savedJob job deferred now).toDict c true true))
    {later : DateTime} {r : JobRecord Obj} (hfetch : fetch c id later s = .ok r) :
    Reads c later (h.update ((queue.savedJob job deferred now).toDict c true true)) r := by
  have hleft' := hleft.save (queue.savedJob job deferred now) true true
  obtain ⟨r', hr', hreads⟩ := hleft'.exists_reads hc data_savedJob id later
  obtain rfl := Except.ok.inj (hfetch.symm.trans (fetch_of_reads hid hr' hval hreads))
  exact hreads

/-- The status that is read tells whether the job was deferred. -/
lemma status_of_reads {later : DateTime} {r : JobRecord Obj}
    (hreads : Reads c later (h.update ((queue.savedJob job deferred now).toDict c true true)) r) :
    r.status = if deferred then .deferred else .queued := by
  obtain ⟨status, hread, hstatus⟩ := hreads.status
  have hfield : h.update ((queue.savedJob job deferred now).toDict c true true) .status =
      some (encode (.text (queue.savedJob job deferred now).status.text)) := rfl
  rw [hfield, truthy_some (encode_status_ne_empty _)] at hread
  have hsome : some (queue.savedJob job deferred now).status = status := by
    simpa [readIf, parseStatus_encode] using hread
  rw [hstatus, ← hsome]
  cases deferred <;> rfl

/-- What `Queue.enqueue` makes of the key of the job. -/
lemma enqueue_spec {args : JobArguments Obj} {created : DateTime} {job : JobRecord Obj}
    (hcreate : queue.createJob c { args with status := .queued } created = .ok job)
    (atFront : Bool) {s : RawStore} (hdeferred : unfinished c job now s = .ok deferred) :
    ∃ r, queue.enqueue c args atFront created now s = .ok r ∧
      r.2.val (.job args.id) = RawHash.update (s.val (.job args.id))
        ((queue.savedJob job deferred now).toDict c true true) ∧
      (r.2.exp (.job args.id) = args.ttl.map (now.timestamp + ·) ↔
        (args.ttl = none → s.exp (.job args.id) = none)) := by
  obtain ⟨rfl, httl, -⟩ := createJob_spec hcreate
  obtain ⟨r, hr, hval, hexp⟩ := enqueueJob_spec queue
    (queue.newJob c { args with status := .queued } created) rfl atFront now hdeferred
  refine ⟨r, ?_, hval, ?_⟩
  · unfold enqueue
    rw [hcreate, Except.ok_bind]
    exact hr
  · rw [← exp_eq_iff httl now.timestamp]
    exact iff_of_eq (congrArg (· = _) hexp)

lemma unfinished_of_enqueue {args : JobArguments Obj} {created : DateTime} {job : JobRecord Obj}
    (hcreate : queue.createJob c { args with status := .queued } created = .ok job)
    {atFront : Bool} {s : RawStore} {r : JobRecord Obj × RawStore}
    (h : queue.enqueue c args atFront created now s = .ok r) :
    ∃ deferred, unfinished c job now s = .ok deferred := by
  obtain ⟨rfl, -⟩ := createJob_spec hcreate
  unfold enqueue at h
  rw [hcreate, Except.ok_bind] at h
  exact exists_unfinished h

/-- Whoever reads the same from both hashes knows what the job has left out. -/
lemma sameLeftovers_of_reads (hc : c.Lawful) {h₁ h₂ : RawHash} (hleft₁ : Left c h₁)
    (hleft₂ : Left c h₂) (hdescription : job.description ≠ none) {later : DateTime}
    {r : JobRecord Obj}
    (hr₁ : Reads c later
      (h₁.update ((queue.savedJob job deferred now).toDict c true true)) r)
    (hr₂ : Reads c later
      (h₂.update ((queue.savedJob job deferred now).toDict c true true)) r) :
    SameLeftovers c (queue.savedJob job deferred now) h₁ h₂ := by
  intro f hf
  have hsaved : (queue.savedJob job deferred now).description ≠ none := by
    cases deferred <;> exact hdescription
  -- the save leaves such a field as it is
  have hkept : ∀ h : RawHash,
      h.update ((queue.savedJob job deferred now).toDict c true true) f = h f := by
    intro h
    simp [RawHash.update, hf]
  split
  · next hmetadata =>
    subst hmetadata
    rw [← hkept h₁, ← hkept h₂, ← hr₁.metadata, ← hr₂.metadata]
  · next hmetadata =>
    rw [← hkept h₁, ← hkept h₂]
    exact (hleft₁.save _ true true).eq_of_reads hc (hleft₂.save _ true true) hr₁ hr₂ hsaved hf
      hmetadata

omit [DecidableEq Obj] in
lemma eq_update_of_some {h₁ h₂ : RawHash} {m : JobField → Option PyValue} {f : JobField}
    (hf : m f ≠ none) : h₁.update m f = h₂.update m f := by
  obtain ⟨v, hv⟩ := Option.ne_none_iff_exists'.mp hf
  simp [RawHash.update, hv]

lemma reads_of_sameLeftovers {h₁ h₂ : RawHash} {later : DateTime} {r : JobRecord Obj}
    (hsame : SameLeftovers c (queue.savedJob job deferred now) h₁ h₂)
    (hr₁ : Reads c later
      (h₁.update ((queue.savedJob job deferred now).toDict c true true)) r) :
    Reads c later (h₂.update ((queue.savedJob job deferred now).toDict c true true)) r := by
  apply hr₁.congr
  · intro f hmetadata
    by_cases hf : (queue.savedJob job deferred now).toDict c true true f = none
    · have heq := hsame f hf
      rw [if_neg hmetadata] at heq
      simp [RawHash.update, hf, heq]
    · exact eq_update_of_some hf
  · by_cases hf : (queue.savedJob job deferred now).toDict c true true .metadata = none
    · have heq := hsame .metadata hf
      simpa [RawHash.update, hf] using heq
    · rw [eq_update_of_some hf]

lemma clean_of_agreesAfter (hc : c.Lawful) {args : JobArguments Obj} {created : DateTime}
    (hcreate : queue.createJob c { args with status := .queued } created = .ok job)
    {atFront : Bool} {later : DateTime} {s₁ s₂ : RawStore}
    (hleft₁ : Left c (s₁.val (.job args.id)))
    (hleft₂ : Left c (s₂.val (.job args.id)))
    (hagrees : AgreesAfter c queue args atFront created now later s₁ s₂) :
    Clean c queue args created now s₁ s₂ := by
  obtain ⟨hjob, -, hid⟩ := createJob_spec hcreate
  have hdescription : job.description ≠ none := by
    rw [hjob]
    exact Option.some_ne_none _
  unfold Clean
  rw [← hjob]
  obtain ⟨r₁, r₂, hr₁, hr₂, ⟨fetched, hfetch₁, hfetch₂⟩, hexp₁, hexp₂⟩ := hagrees
  obtain ⟨deferred₁, hdeferred₁⟩ := unfinished_of_enqueue hcreate hr₁
  obtain ⟨deferred₂, hdeferred₂⟩ := unfinished_of_enqueue hcreate hr₂
  obtain ⟨_, hrun₁, hval₁, hexpiry₁⟩ := enqueue_spec hcreate atFront hdeferred₁
  obtain ⟨_, hrun₂, hval₂, hexpiry₂⟩ := enqueue_spec hcreate atFront hdeferred₂
  obtain rfl := Except.ok.inj (hr₁.symm.trans hrun₁)
  obtain rfl := Except.ok.inj (hr₂.symm.trans hrun₂)
  have hreads₁ := reads_of_fetch hc hleft₁ hid hval₁ hfetch₁
  have hreads₂ := reads_of_fetch hc hleft₂ hid hval₂ hfetch₂
  have hstatus := (status_of_reads hreads₁).symm.trans (status_of_reads hreads₂)
  have hdeferred : deferred₂ = deferred₁ := by
    cases deferred₁ <;> cases deferred₂ <;> first | rfl | cases hstatus
  subst hdeferred
  exact ⟨deferred₂, hdeferred₁, hdeferred₂,
    sameLeftovers_of_reads hc hleft₁ hleft₂ hdescription hreads₁ hreads₂,
    fun httl => ⟨hexpiry₁.mp hexp₁ httl, hexpiry₂.mp hexp₂ httl⟩⟩

lemma agreesAfter_of_clean (hc : c.Lawful) {args : JobArguments Obj} {created : DateTime}
    (hcreate : queue.createJob c { args with status := .queued } created = .ok job)
    {atFront : Bool} {later : DateTime} {s₁ s₂ : RawStore}
    (hleft₁ : Left c (s₁.val (.job args.id)))
    (hclean : Clean c queue args created now s₁ s₂) :
    AgreesAfter c queue args atFront created now later s₁ s₂ := by
  obtain ⟨hjob, -, hid⟩ := createJob_spec hcreate
  unfold Clean at hclean
  rw [← hjob] at hclean
  obtain ⟨deferred, hdeferred₁, hdeferred₂, hsame, hexp⟩ := hclean
  obtain ⟨r₁, hrun₁, hval₁, hexpiry₁⟩ := enqueue_spec hcreate atFront hdeferred₁
  obtain ⟨r₂, hrun₂, hval₂, hexpiry₂⟩ := enqueue_spec hcreate atFront hdeferred₂
  have hleft := hleft₁.save (queue.savedJob job deferred now) true true
  obtain ⟨fetched, hfetchedId, hreads₁⟩ := hleft.exists_reads hc data_savedJob args.id later
  have hreads₂ := reads_of_sameLeftovers hsame hreads₁
  have hfetch₁ := fetch_of_reads hid hfetchedId hval₁ hreads₁
  have hfetch₂ := fetch_of_reads hid hfetchedId hval₂ hreads₂
  exact ⟨r₁, r₂, hrun₁, hrun₂, ⟨fetched, hfetch₁, hfetch₂⟩,
    hexpiry₁.mpr fun httl => (hexp httl).1, hexpiry₂.mpr fun httl => (hexp httl).2⟩

end

/-- After the same job has been enqueued over two old hashes, the two are alike if and only if the
old hashes agree in what the job leaves out, and no expiry is left. -/
theorem agreesAfter_iff (hc : c.Lawful) {queue : RawQueue} {args : JobArguments Obj}
    {created : DateTime} {job : JobRecord Obj}
    (hcreate : queue.createJob c { args with status := .queued } created = .ok job)
    (atFront : Bool) (now later : DateTime) {s₁ s₂ : RawStore}
    (hleft₁ : Left c (s₁.val (.job args.id))) (hleft₂ : Left c (s₂.val (.job args.id))) :
    AgreesAfter c queue args atFront created now later s₁ s₂ ↔
      Clean c queue args created now s₁ s₂ :=
  ⟨clean_of_agreesAfter hc hcreate hleft₁ hleft₂, agreesAfter_of_clean hc hcreate hleft₁⟩

open Sample

/-- The job of an earlier call with the same id, after its execution. -/
def finishedJob : JobRecord Sample :=
  { queue.newJob codec arguments newYear with
    status := .finished
    enqueuedAt := some newYear
    startedAt := some newYear
    endedAt := some newYear }

/-- A store with that job, retried so many times. -/
def storeAfter (numberOfRetries : Option ℤ) : RawStore :=
  (save codec { finishedJob with numberOfRetries }).run emptyStore

lemma val_storeAfter (numberOfRetries : Option ℤ) : (storeAfter numberOfRetries).val (.job "a") =
    RawHash.update (fun _ => none)
      (({ finishedJob with numberOfRetries } : JobRecord Sample).toDict codec true true) :=
  JobRecord.val_hset _ _ _

lemma left_storeAfter (numberOfRetries : Option ℤ) :
    Left codec ((storeAfter numberOfRetries).val (.job "a")) := by
  rw [val_storeAfter]
  exact Left.absent.save _ true true

lemma create_arguments : queue.createJob codec { arguments with status := .queued } newYear =
    .ok (queue.newJob codec arguments newYear) := rfl

/-- Nothing is left of a job that has not been retried. -/
theorem agreesAfter_sample :
    AgreesAfter codec queue arguments false newYear newYear newYear emptyStore
      (storeAfter none) := by
  have hempty : ∀ f, (queue.savedJob (queue.newJob codec arguments newYear) false newYear).toDict
      codec true true f = none → (storeAfter none).val (.job "a") f = none := by
    intro f hf
    rw [val_storeAfter]
    cases f <;> first | rfl | cases hf
  have hsame : SameLeftovers codec
      (queue.savedJob (queue.newJob codec arguments newYear) false newYear)
      (emptyStore.val (.job "a")) ((storeAfter none).val (.job "a")) := by
    intro f hf
    rw [hempty f hf]
    split <;> rfl
  have hexp : (storeAfter none).exp (.job "a") = none :=
    JobRecord.exp_hset (f := .status) "a" (Option.some_ne_none _) emptyStore
  exact (agreesAfter_iff lawful_codec create_arguments false newYear newYear Left.absent
    (left_storeAfter none)).mpr ⟨false, rfl, rfl, hsame, fun _ => ⟨rfl, hexp⟩⟩

lemma fetched_retries {s : RawStore} (hleft : Left codec (s.val (.job "a"))) {n : Option ℤ}
    (hretries : s.val (.job "a") .numberOfRetries = n.map fun n => encode (.int n)) :
    ∃ r job, queue.enqueue codec arguments false newYear newYear s = .ok r ∧
      fetch codec "a" newYear r.2 = .ok job ∧ job.numberOfRetries = n := by
  have hid : parseJobId "a" = "a" := parseJobId_of_pattern (by decide)
  have hready : unfinished codec (queue.newJob codec arguments newYear) newYear s = .ok false := rfl
  obtain ⟨r, hr, hval, -⟩ := enqueue_spec create_arguments false hready
  have hleft' := hleft.save
    (queue.savedJob (queue.newJob codec arguments newYear) false newYear) true true
  obtain ⟨job, hjob, hreads⟩ := hleft'.exists_reads lawful_codec data_savedJob "a" newYear
  refine ⟨r, job, hr, fetch_of_reads hid hjob hval hreads, ?_⟩
  have hread : readIf parseInt (truthy (s.val (.job "a") .numberOfRetries)) =
      .ok job.numberOfRetries := hreads.numberOfRetries
  have hn : readIf parseInt (truthy (s.val (.job "a") .numberOfRetries)) = .ok n := by
    rw [hretries]
    cases n with
    | none => rfl
    | some n =>
      simp only [Option.map_some, truthy_some (encode_int_ne_empty n), readIf, parseInt_encode]
      rfl
  exact Except.ok.inj (hread.symm.trans hn)

/-- The number of retries of the old job becomes that of the new one. -/
theorem leftover_retries :
    Left codec (emptyStore.val (.job "a")) ∧ Left codec ((storeAfter (some 2)).val (.job "a")) ∧
      (∀ k, k ≠ .job "a" → KeyStore.AgreeAt k emptyStore (storeAfter (some 2))) ∧
      ∃ r₁ r₂ job₁ job₂,
        queue.enqueue codec arguments false newYear newYear emptyStore = .ok r₁ ∧
        queue.enqueue codec arguments false newYear newYear (storeAfter (some 2)) = .ok r₂ ∧
        fetch codec "a" newYear r₁.2 = .ok job₁ ∧ fetch codec "a" newYear r₂.2 = .ok job₂ ∧
        job₁.numberOfRetries = none ∧ job₂.numberOfRetries = some 2 := by
  have hframes : ∀ k, k ≠ .job "a" →
      (save codec { finishedJob with numberOfRetries := some 2 }).Frames k :=
    fun k hk => JobRecord.frames_hset _ _ hk
  obtain ⟨r₁, job₁, hr₁, hfetch₁, hjob₁⟩ :=
    fetched_retries (s := emptyStore) (n := none) Left.absent rfl
  obtain ⟨r₂, job₂, hr₂, hfetch₂, hjob₂⟩ :=
    fetched_retries (n := some 2) (left_storeAfter (some 2)) (by rw [val_storeAfter]; rfl)
  exact ⟨Left.absent, left_storeAfter _, fun k hk => (hframes k hk emptyStore).symm, r₁, r₂, job₁,
    job₂, hr₁, hr₂, hfetch₁, hfetch₂, hjob₁, hjob₂⟩

end RawQueue
end RedisQueue
