import RedisQueue.RawQueue

/-!
# Saving a job and fetching it again

* `JobRecord.fetch_save`: a job that is saved to a key that does not exist comes back with every
  attribute it has, except that an empty text comes back as `None`;
* `RawQueue.fetch_created`: a job made by `Queue.create_job`, whatever its counters and timestamps
  have become, comes back as it is, if its group and its callbacks have names;
* `RawQueue.nameless_group`: a job of a group with an empty name comes back without a group.
-/

namespace RedisQueue

variable {Obj : Type} [DecidableEq Obj] {c : Codec Obj}

/-! ## Saving to a new key -/

lemma RawHash.update_default (mapping : JobField → Option PyValue) (f : JobField) :
    RawHash.update (fun _ => none) mapping f = (mapping f).map encode := by
  simp [RawHash.update]

lemma colon_notMem_of_pattern {id : JobId} (h : jobIdPattern id = true) : ':' ∉ id.toList := by
  intro hcolon
  have hchar := List.all_eq_true.mp (Bool.and_eq_true_iff.mp h).2 ':' hcolon
  exact absurd hchar (by decide)

lemma parseJobId_of_pattern {id : JobId} (h : jobIdPattern id = true) :
    JobRecord.parseJobId id = id := by
  have htake : id.toList.takeWhile (· ≠ ':') = id.toList :=
    List.takeWhile_eq_self_iff.mpr fun ch hch => decide_eq_true fun heq =>
      colon_notMem_of_pattern h (heq ▸ hch)
  rw [JobRecord.parseJobId, htake, String.ofList_toList]

namespace JobRecord

lemma saved_of_new {job : JobRecord Obj} {s : RawStore} (h : s.val (.job job.id) = default) :
    Saved c job (((save c job).run s).val (.job job.id)) := by
  intro f
  have hupdate := RawHash.update_default (job.toDict c true true) f
  simp only [save, hset, Command.val_write, Function.update_self, h]
  exact hupdate

omit [DecidableEq Obj] in
lemma ne_default_of_data {obj : RawHash} (h : obj .data ≠ none) {id : JobId} :
    obj ≠ (default : RawValue (.job id)) := by
  rintro rfl
  exact h rfl

theorem fetch_save (hc : c.Lawful) {job : JobRecord Obj} (hid : parseJobId job.id = job.id)
    {s : RawStore} (h : s.val (.job job.id) = default) (now : DateTime) :
    fetch c job.id now ((save c job).run s) = .ok job.normalized := by
  have hsaved := saved_of_new (c := c) h
  have hdata : ((save c job).run s).val (.job job.id) .data ≠ none := by
    rw [hsaved .data]
    simp [toDict]
  have hrestore := restore_of_reads (hsaved.reads hc now)
  unfold fetch
  rw [hid, if_neg (ne_default_of_data hdata)]
  exact hrestore

omit [DecidableEq Obj] in
/-- The job comes back as it is unless one of these texts is empty, or the time to live zero. -/
lemma normalized_eq {job : JobRecord Obj} (hsuccess : job.successCallbackName ≠ some "")
    (hfailure : job.failureCallbackName ≠ some "") (hstopped : job.stoppedCallbackName ≠ some "")
    (hdescription : job.description ≠ some "") (hworker : job.workerName ≠ some "")
    (hgroup : job.groupId ≠ some "") (httl : job.ttl ≠ some 0) : job.normalized = job := by
  have hfilter : ∀ {α : Type} [DecidableEq α] {x : Option α} {a : α}, x ≠ some a →
      x.filter (· ≠ a) = x := by
    intro α _ x a hx
    cases x with
    | none => rfl
    | some b =>
      have hb : b ≠ a := fun heq => hx (by rw [heq])
      simp [Option.filter, hb]
  simp only [normalized, hfilter hsuccess, hfilter hfailure, hfilter hstopped, hfilter hdescription,
    hfilter hworker, hfilter hgroup, hfilter httl]

end JobRecord

/-! ## Jobs made by `create_job` -/

/-- The counters and the timestamps of a job, which change while it is queued and executed. -/
structure Progress where
  createdAt : DateTime
  enqueuedAt : Option DateTime := none
  startedAt : Option DateTime := none
  endedAt : Option DateTime := none
  lastHeartbeat : Option DateTime := none
  retriesLeft : Option ℤ := none
  numberOfRetries : Option ℤ := none
  repeatsLeft : Option ℤ := none

/-- The job with other counters and timestamps. -/
def JobRecord.withProgress (job : JobRecord Obj) (p : Progress) : JobRecord Obj :=
  { job with
    createdAt := p.createdAt
    enqueuedAt := p.enqueuedAt
    startedAt := p.startedAt
    endedAt := p.endedAt
    lastHeartbeat := p.lastHeartbeat
    retriesLeft := p.retriesLeft
    numberOfRetries := p.numberOfRetries
    repeatsLeft := p.repeatsLeft }

/-- The group and the callbacks have names. -/
def JobArguments.Named (args : JobArguments Obj) : Prop :=
  args.groupId ≠ some "" ∧
    ∀ callback ∈ args.onSuccess.toList ++ args.onFailure.toList ++ args.onStopped.toList,
      callback.name ≠ ""

instance (args : JobArguments Obj) : Decidable args.Named := inferInstanceAs (Decidable (_ ∧ _))

namespace RawQueue

omit [DecidableEq Obj] in
lemma createJob_eq {queue : RawQueue} {args : JobArguments Obj} {now : DateTime}
    {job : JobRecord Obj} (h : queue.createJob c args now = .ok job) :
    job = queue.newJob c args now ∧ args.ttl ≠ some 0 ∧ (∀ ttl ∈ args.ttl, 0 < ttl) ∧
      jobIdPattern args.id = true := by
  unfold createJob at h
  split at h
  · cases h
  · split at h
    · cases h
    · next httl =>
      split at h
      · cases h
      · next hid =>
        cases h
        refine ⟨rfl, ?_, ?_, ?_⟩
        · intro h0
          simp [h0] at httl
        · intro ttl hmem
          rw [Option.mem_def.mp hmem] at httl
          simpa using httl
        · unfold JobArguments.id
          cases hjob : args.jobId with
          | none => exact args.uuid.property
          | some id => simpa [hjob] using hid

omit [DecidableEq Obj] in
lemma description_ne_empty (args : JobArguments Obj) :
    (args.description.filter (· ≠ "")).getD args.callString ≠ "" := by
  have hcall : args.callString ≠ "" := by
    intro h
    have hlist := congrArg String.toList h
    simp [JobArguments.callString] at hlist
  cases hd : args.description with
  | none => exact hcall
  | some text =>
    by_cases htext : text = ""
    · simpa [htext, Option.filter] using hcall
    · simp [htext, Option.filter]

omit [DecidableEq Obj] in
lemma name_ne_empty {callback : Option Callback} (h : ∀ cb ∈ callback.toList, cb.name ≠ "") :
    callback.map Callback.name ≠ some "" := by
  intro heq
  obtain ⟨cb, hcb, hname⟩ := Option.map_eq_some_iff.mp heq
  exact h cb (by simp [hcb]) hname

/-- A job that `create_job` has made is saved and fetched without loss. -/
theorem fetch_created (hc : c.Lawful) {queue : RawQueue} {args : JobArguments Obj} {now : DateTime}
    {job : JobRecord Obj} (hcreate : queue.createJob c args now = .ok job) (hnamed : args.Named)
    (p : Progress) {s : RawStore} (habsent : s.val (.job job.id) = default) (later : DateTime) :
    JobRecord.fetch c job.id later ((JobRecord.save c (job.withProgress p)).run s) =
        .ok (job.withProgress p) ∧
      c.loads job.data = some args.call := by
  obtain ⟨rfl, httl, -, hid⟩ := createJob_eq hcreate
  obtain ⟨hgroup, hcallbacks⟩ := hnamed
  have hmem : ∀ cb, cb ∈ args.onSuccess.toList ∨ cb ∈ args.onFailure.toList ∨
      cb ∈ args.onStopped.toList → cb.name ≠ "" := by
    intro cb hcb
    exact hcallbacks cb (by simpa [or_assoc] using hcb)
  have hnormalized : ((queue.newJob c args now).withProgress p).normalized =
      (queue.newJob c args now).withProgress p := by
    apply JobRecord.normalized_eq
    · exact name_ne_empty fun cb hcb => hmem cb (.inl hcb)
    · exact name_ne_empty fun cb hcb => hmem cb (.inr (.inl hcb))
    · exact name_ne_empty fun cb hcb => hmem cb (.inr (.inr hcb))
    · exact fun h => description_ne_empty args (Option.some.inj h)
    · exact nofun
    · exact hgroup
    · exact httl
  have hparse : JobRecord.parseJobId ((queue.newJob c args now).withProgress p).id =
      ((queue.newJob c args now).withProgress p).id :=
    parseJobId_of_pattern hid
  have hfetch := JobRecord.fetch_save hc hparse habsent later
  rw [hnormalized] at hfetch
  exact ⟨hfetch, hc.loads_dumps args.call⟩

end RawQueue

/-! ## An example -/

/-- Two objects that are serialised: `{}` and the call `('f', None, (), {})`. -/
inductive Sample where
  | emptyDict | call
deriving DecidableEq, Repr

namespace Sample

/-- `pickle.dumps({})` -/
def pickledDict : ByteArray := ⟨#[128, 5, 125, 148, 46]⟩

/-- `pickle.dumps(('f', None, (), {}))` -/
def pickledCall : ByteArray :=
  ⟨#[128, 5, 149, 12, 0, 0, 0, 0, 0, 0, 0, 40, 140, 1, 102, 148, 78, 41, 125, 148, 116, 148, 46]⟩

/-- `zlib.compress(pickle.dumps(('f', None, (), {})))` -/
def compressedCall : ByteArray :=
  ⟨#[120, 156, 107, 96, 157, 202, 195, 0, 1, 26, 61, 140, 105, 83, 252, 52, 107, 167, 148, 76, 209,
    3, 0, 51, 221, 5, 148]⟩

/-- Pickle and zlib on the two objects. Any other bytes are stored uncompressed after a zero. -/
def codec : Codec Sample where
  dumps
    | .emptyDict => pickledDict
    | .call => pickledCall
  loads b :=
    if b = pickledDict then some .emptyDict else if b = pickledCall then some .call else none
  compress b := if b = pickledCall then compressedCall else ⟨(0 :: b.data.toList).toArray⟩
  decompress b :=
    if b = compressedCall then some pickledCall
    else if b.data.toList.head? = some 0 then some ⟨b.data.toList.tail.toArray⟩ else none
  emptyDict := .emptyDict
  unserialized _ := .emptyDict
  unserializableReturnValue := .emptyDict

lemma lawful_codec : codec.Lawful where
  loads_dumps o := by
    cases o <;> decide
  dumps_ne_empty o := by
    cases o <;> decide
  decompress_compress b := by
    by_cases h : b = pickledCall
    · rw [h]
      decide
    · have hne : (⟨(0 :: b.data.toList).toArray⟩ : ByteArray) ≠ compressedCall := by
        intro heq
        have hlist := congrArg (fun b : ByteArray => b.data.toList.head?) heq
        simp [compressedCall] at hlist
      simp [codec, h, hne]
  compress_ne_empty b := by
    by_cases h : b = pickledCall
    · rw [h]
      decide
    · have hstored : codec.compress b = ⟨(0 :: b.data.toList).toArray⟩ := if_neg h
      intro heq
      have hsize : (0 :: b.data.toList).toArray.size = 0 :=
        (congrArg ByteArray.size (hstored.symm.trans heq)).trans ByteArray.size_empty
      simp at hsize

/-- The first of January 2024. -/
def newYear : DateTime := ⟨2024, 1, 1, 0, 0, 0, 0, by decide⟩

/-- `create_job('f', job_id='a', …)` -/
def arguments : JobArguments Sample where
  call := .call
  funcName := "f"
  jobId := some "a"
  uuid := ⟨"a", by decide⟩
  resultTtl := some 0
  failureTtl := some (-1)
  groupId := some "g"
  onFailure := some (Callback.new "on_failure" none)

def queue : RawQueue := { name := "q" }

def emptyStore : RawStore where
  val _ := default
  ver _ := 0
  exp _ := none

end Sample

namespace RawQueue

open Sample

/-- A job with a group and a callback, and without retries left. -/
theorem fetch_created_sample :
    let p : Progress := { createdAt := newYear, retriesLeft := some 0, repeatsLeft := some 0 }
    let job := queue.newJob codec arguments newYear
    JobRecord.fetch codec "a" newYear ((JobRecord.save codec (job.withProgress p)).run emptyStore) =
      .ok (job.withProgress p) ∧ codec.loads job.data = some .call := by
  have hcreate : queue.createJob codec arguments newYear =
      .ok (queue.newJob codec arguments newYear) := rfl
  exact fetch_created lawful_codec hcreate (by decide) _ rfl newYear

/-- The arguments of a job with a group and a callback that have empty names. -/
def namelessArguments : JobArguments Sample :=
  { arguments with groupId := some "", onFailure := some (Callback.new "" none) }

/-- Such a job comes back without a group and without a callback. -/
theorem nameless_group :
    let job := queue.newJob codec namelessArguments newYear
    queue.createJob codec namelessArguments newYear = .ok job ∧ codec.Lawful ∧
      emptyStore.val (.job job.id) = default ∧
      job.groupId = some "" ∧ job.failureCallbackName = some "" ∧
      ∃ fetched, JobRecord.fetch codec "a" newYear ((JobRecord.save codec job).run emptyStore) =
        .ok fetched ∧ fetched.groupId = none ∧ fetched.failureCallbackName = none := by
  refine ⟨rfl, lawful_codec, rfl, rfl, rfl, ?_⟩
  have hparse : JobRecord.parseJobId "a" = "a" := parseJobId_of_pattern (by decide)
  have hfetch := @JobRecord.fetch_save _ _ codec lawful_codec
    (queue.newJob codec namelessArguments newYear) hparse emptyStore rfl newYear
  exact ⟨_, hfetch, rfl, rfl⟩

end RawQueue
end RedisQueue
