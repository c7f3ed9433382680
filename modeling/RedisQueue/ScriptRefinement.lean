import RedisQueue.ReusedIds

/-!
# The scripts and the ordinary path

With `unique`, `Queue.enqueue_job` and `Queue.schedule_job` save a job with the scripts of
`rq/scripts.py`. These encode the hash, set the expiry, push the id and score the registry entry on
their own, in Lua and in helper functions.

* `luaNumber`: what Lua makes of an integer. Its numbers are doubles;
* `buildHsetArgs`, `uniqueEnqueueScript`, `uniqueScheduleScript`: the scripts and their arguments;
* `QueueCall`: the calls that can be made with and without `unique`;
* `unique_refines`: on a new id both leave the same in the store, up to the clock, unless the time
  to live is too long for a Lua number.
-/

/-! ## Numbers of Lua -/

/-- The multiple of `2 ^ e` nearest to `n`, of two nearest ones the even multiple. -/
def roundHalfEven (n e : ℕ) : ℕ :=
  let q := n / 2 ^ e
  let r := n % 2 ^ e
  if 2 * r < 2 ^ e ∨ 2 * r = 2 ^ e ∧ q % 2 = 0 then q * 2 ^ e else (q + 1) * 2 ^ e

/-- `tonumber` of the decimal digits of an integer: the nearest double, with 53 significant bits.
(Integers from `2 ^ 1024` on are infinite in Lua; Redis rejects such times and scores anyway.) -/
def luaNumber (n : ℤ) : ℤ := n.sign * roundHalfEven n.natAbs (n.natAbs.log2 + 1 - 53)

lemma roundHalfEven_zero (n : ℕ) : roundHalfEven n 0 = n := by
  simp [roundHalfEven, Nat.mod_one]

/-- A double can hold every integer up to `2 ^ 53`. -/
lemma luaNumber_of_le {n : ℤ} (h : n.natAbs ≤ 2 ^ 53) : luaNumber n = n := by
  obtain hlt | heq := Nat.lt_or_eq_of_le h
  · have hbits : n.natAbs.log2 + 1 - 53 = 0 := by
      by_cases h0 : n.natAbs = 0
      · rw [h0]
        rfl
      · have hlog := (Nat.log2_lt h0).mpr hlt
        omega
    unfold luaNumber
    rw [hbits, roundHalfEven_zero]
    exact Int.sign_mul_natAbs n
  · have hround : roundHalfEven n.natAbs (n.natAbs.log2 + 1 - 53) = n.natAbs := by
      rw [heq]
      decide +kernel
    unfold luaNumber
    rw [hround]
    exact Int.sign_mul_natAbs n

namespace RedisQueue

variable {Obj : Type} [DecidableEq Obj] {c : Codec Obj}

open JobRecord

/-! ## The scripts -/

/-- What `_build_hset_args` makes of a value: texts and bytes stay, the rest is turned into text. -/
def hsetArg : PyValue → PyValue
  | .bytes value => .bytes value
  | .text value => .text value
  | .int value => .text (intText value)

/-- `_build_hset_args`: the fields and values, in the order of the dictionary. -/
def buildHsetArgs (c : Codec Obj) (job : JobRecord Obj) : List (JobField × ByteArray) :=
  JobField.all.filterMap fun f => (job.toDict c true true f).map fun v => (f, encode (hsetArg v))

/-- Sets a field of a hash. -/
def RawHash.set (h : RawHash) (arg : JobField × ByteArray) : RawHash :=
  Function.update h arg.1 (some arg.2)

/-- The direction in which a script pushes: `'L'`, `'R'`, or `'N'` for not at all. -/
inductive PushDirection where
  | left | right | none
deriving DecidableEq, Repr

namespace RawQueue

/-- `HSET` of the arguments, and `EXPIRE` for a positive time to live: how both scripts begin if
the hash does not exist. A job without a time to live has the argument `-1`. -/
def saveScript (c : Codec Obj) (job : JobRecord Obj) (now : DateTime) : List RawCommand :=
  let ttl := luaNumber (job.ttl.getD (-1))
  .write (.job job.id) (fun h => (buildHsetArgs c job).foldl RawHash.set h) ::
    (if 0 < ttl then [.expire (.job job.id) (now.timestamp + ttl)] else [])

/-- `UNIQUE_ENQUEUE_SCRIPT` for a hash that does not exist. -/
def uniqueEnqueueScript (c : Codec Obj) (self : RawQueue) (job : JobRecord Obj)
    (direction : PushDirection) (now : DateTime) : List RawCommand :=
  saveScript c job now ++
    match direction with
    | .left => [self.pushJobId job.id true]
    | .right => [self.pushJobId job.id false]
    | .none => []

/-- `UNIQUE_SCHEDULE_SCRIPT` for a hash that does not exist. -/
def uniqueScheduleScript (c : Codec Obj) (self : RawQueue) (job : JobRecord Obj) (timestamp : ℤ)
    (now : DateTime) : List RawCommand :=
  saveScript c job now ++
    [.alter (.scheduled self.name) fun z => ZSet.add z job.id (luaNumber timestamp : Score),
      self.register]

/-- What a call returns or raises, and the store it leaves. -/
abbrev Outcome (Obj : Type) := Except PyError (JobRecord Obj) × RawStore

/-- A script that does nothing if the hash exists, and the exception that is raised then. -/
def runUnique (job : JobRecord Obj) (script : List RawCommand) (s : RawStore) : Outcome Obj :=
  if s.val (.job job.id) ≠ default then
    (.error (.duplicateJobError s!"Job with ID '{job.id}' already exists"), s)
  else (.ok job, (Command.seq script).run s)

/-! ## The calls -/

/-- A `datetime`: `tzinfo` is what `utcoffset` gives in microseconds if there is a time zone. -/
structure ScheduledDatetime where
  fields : DateTime
  tzinfo : Option (Option ℤ) := none

/-- The offset from UTC; a datetime without a time zone is local. -/
def ScheduledDatetime.offset (t : ScheduledDatetime) (localOffset : ℤ) : ℤ :=
  match t.tzinfo with
  | none => localOffset
  | some utcoffset => utcoffset.getD 0

/-- `calendar.timegm(scheduled_datetime.utctimetuple())` -/
def ScheduledDatetime.timestamp (t : ScheduledDatetime) (localOffset : ℤ) : Except PyError ℤ :=
  let utc := t.fields.microseconds - t.offset localOffset
  if utc < DateTime.least.microseconds ∨ DateTime.greatest.microseconds < utc then
    .error (.overflowError "date value out of range")
  else .ok (utc / 1000000)

/-- `Queue.enqueue_job` on a synchronous queue, without `unique`, up to `run_sync`. -/
def enqueueSyncJob (c : Codec Obj) (self : RawQueue) (job : JobRecord Obj) (now : DateTime)
    (s : RawStore) : Except PyError (JobRecord Obj × RawStore) := do
  let (job, s) ← setupDependencies c { job with origin := self.name } now s
  let s := self.register.run s
  if job.status ≠ .deferred then
    return (self.prepareForQueue job now, (Command.seq (self.syncCommands c job now)).run s)
  else return (job, s)

/-- `Queue.schedule_job` without `unique`. The registry is written to at once, the other commands
are in a pipeline. -/
def scheduleJob (c : Codec Obj) (self : RawQueue) (job : JobRecord Obj) (t : ScheduledDatetime)
    (localOffset : ℤ) (now : DateTime) (s : RawStore) :
    Except PyError (JobRecord Obj × RawStore) := do
  let timestamp ← t.timestamp localOffset
  let zadd : RawCommand :=
    .alter (.scheduled self.name) fun z => ZSet.add z job.id (timestamp : Score)
  return ({ job with status := .scheduled },
    (Command.seq (self.register :: persistJob c job .scheduled now)).run (zadd.run s))

/-- `Queue.enqueue_job` with `unique`, up to `run_sync` if the queue is synchronous. `hasId` tells
whether the job has been given an id. -/
def enqueueUniqueJob (c : Codec Obj) (self : RawQueue) (job : JobRecord Obj) (hasId isAsync : Bool)
    (atFront : Bool) (now : DateTime) (s : RawStore) : Outcome Obj :=
  if !hasId then (.error (.valueError "unique=True requires an explicit job_id"), s)
  else if job.dependencyIds ≠ [] then
    (.error (.valueError "unique=True is not supported with job dependencies"), s)
  else
    -- without dependencies there is nothing to set up
    let s := self.register.run s
    let job := { job with origin := self.name }
    if job.status ≠ .deferred then
      let job := self.prepareForQueue job now
      let direction := if !isAsync then .none else if atFront then .left else .right
      runUnique job (self.uniqueEnqueueScript c job direction now) s
    else (.ok job, s)

/-- `Queue.schedule_job` with `unique`. -/
def scheduleUniqueJob (c : Codec Obj) (self : RawQueue) (job : JobRecord Obj) (hasId : Bool)
    (t : ScheduledDatetime) (localOffset : ℤ) (now : DateTime) (s : RawStore) : Outcome Obj :=
  if !hasId then (.error (.valueError "unique=True requires an explicit job_id"), s)
  else
    let job := { job with status := .scheduled }
    match t.timestamp localOffset with
    | .error e => (.error e, s)
    | .ok timestamp => runUnique job (self.uniqueScheduleScript c job timestamp now) s

/-- The calls that take `unique`. `localOffset` is the offset of the local time zone. -/
inductive QueueCall where
  | enqueue (atFront : Bool)
  | enqueueSync
  | schedule (t : ScheduledDatetime) (localOffset : ℤ)

/-- An exception before the first write leaves the store as it was. -/
def settle (s : RawStore) : Except PyError (JobRecord Obj × RawStore) → Outcome Obj
  | .ok (job, s') => (.ok job, s')
  | .error e => (.error e, s)

/-- The call with `unique=False`. -/
def QueueCall.plain (c : Codec Obj) (self : RawQueue) (job : JobRecord Obj) (now : DateTime)
    (s : RawStore) : QueueCall → Outcome Obj
  | .enqueue atFront => settle s (self.enqueueJob c job atFront now s)
  | .enqueueSync => settle s (self.enqueueSyncJob c job now s)
  | .schedule t localOffset => settle s (self.scheduleJob c job t localOffset now s)

/-- The call with `unique=True`. -/
def QueueCall.unique (c : Codec Obj) (self : RawQueue) (job : JobRecord Obj) (hasId : Bool)
    (now : DateTime) (s : RawStore) : QueueCall → Outcome Obj
  | .enqueue atFront => self.enqueueUniqueJob c job hasId true atFront now s
  | .enqueueSync => self.enqueueUniqueJob c job hasId false false now s
  | .schedule t localOffset => self.scheduleUniqueJob c job hasId t localOffset now s

/-! ## The same up to the clock -/

/-- Both are missing, or each is what `g` makes of its own clock. -/
def UpToClock {α : Type} (g : DateTime → α) (now now' : DateTime) (x x' : Option α) : Prop :=
  (x = none ∧ x' = none) ∨ (x = some (g now) ∧ x' = some (g now'))

/-- The outcomes of two calls at the times `now` and `now'` are the same up to these times: both
raise the same exception or none, the hash of the job is the same byte by byte except for the time
at which it was enqueued, it expires the same time after the call, and everything else is equal. -/
structure SameOutcome (job : JobRecord Obj) (now now' : DateTime) (o o' : Outcome Obj) : Prop where
  raised : ∀ e, o.1 = .error e ↔ o'.1 = .error e
  field : ∀ f, f ≠ .enqueuedAt → o.2.val (.job job.id) f = o'.2.val (.job job.id) f
  enqueuedAt : UpToClock (fun t => encode (.text (utcformat t))) now now'
    (o.2.val (.job job.id) .enqueuedAt) (o'.2.val (.job job.id) .enqueuedAt)
  expiry : UpToClock (fun t => t.timestamp + job.ttl.getD 0) now now' (o.2.exp (.job job.id))
    (o'.2.exp (.job job.id))
  elsewhere : ∀ k, k ≠ .job job.id → KeyStore.AgreeAt k o.2 o'.2

/-- No key of the job exists. -/
structure Fresh (id : JobId) (s : RawStore) : Prop where
  job : s.val (.job id) = default
  expiry : s.exp (.job id) = none
  dependents : s.val (.dependents id) = default
  dependencies : s.val (.dependencies id) = default

/-! ### The hash -/

lemma encode_hsetArg (v : PyValue) : encode (hsetArg v) = encode v := by
  cases v <;> rfl

lemma foldl_hset (m : JobField → Option ByteArray) {l : List JobField} (hl : l.Nodup) (h : RawHash)
    (f : JobField) :
    ((l.filterMap fun f => (m f).map fun v => (f, v)).foldl RawHash.set h) f =
      if f ∈ l then m f <|> h f else h f := by
  -- a field is written at most once
  induction l generalizing h with
  | nil => simp
  | cons g l ih =>
    obtain ⟨hg, hl⟩ := List.nodup_cons.mp hl
    cases hm : m g with
    | none =>
      simp only [List.filterMap_cons, hm, Option.map_none, ih hl]
      by_cases hf : f = g
      · simp [hf, hg, hm]
      · simp [hf]
    | some v =>
      simp only [List.filterMap_cons, hm, Option.map_some, List.foldl_cons, ih hl]
      by_cases hf : f = g
      · simp [RawHash.set, hf, hg, hm]
      · simp [RawHash.set, hf]

/-- The arguments of the script are the mapping of `Job.save`. -/
lemma hset_buildHsetArgs (job : JobRecord Obj) (h : RawHash) :
    (buildHsetArgs c job).foldl RawHash.set h = RawHash.update h (job.toDict c true true) := by
  have hargs : buildHsetArgs c job = JobField.all.filterMap fun f =>
      ((job.toDict c true true f).map encode).map fun v => (f, v) := by
    simp only [buildHsetArgs, encode_hsetArg, Option.map_map, Function.comp_def]
  have hnodup : JobField.all.Nodup := by decide
  funext f
  rw [hargs, foldl_hset _ hnodup, if_pos f.mem_all]
  rfl

/-! ### Saving a new job -/

/-- `s'` is `s` with a new hash for the job, saved at the time `now`. -/
structure Stored (c : Codec Obj) (job : JobRecord Obj) (now : DateTime) (s s' : RawStore) :
    Prop where
  hash : s'.val (.job job.id) = RawHash.update (fun _ => none) (job.toDict c true true)
  expiry : s'.exp (.job job.id) = job.ttl.map (now.timestamp + ·)
  elsewhere : ∀ k, k ≠ .job job.id → KeyStore.AgreeAt k s' s

/-- Commands on other keys may follow. -/
lemma Stored.run {job : JobRecord Obj} {now : DateTime} {s s' : RawStore}
    (h : Stored c job now s s') {cs : List RawCommand}
    (hframes : ∀ cmd ∈ cs, cmd.Frames (.job job.id)) (hlocal : ∀ cmd ∈ cs, cmd.Local) :
    Stored c job now ((Command.seq cs).run s) ((Command.seq cs).run s') where
  hash := (Command.frames_seq hframes s').1.trans h.hash
  expiry := (Command.frames_seq hframes s').2.trans h.expiry
  elsewhere k hk := Command.local_seq hlocal k _ _ (h.elsewhere k hk)

lemma Fresh.of_agree {id : JobId} {s s' : RawStore} (h : Fresh id s)
    (hagree : ∀ k, k = .job id ∨ k = .dependents id ∨ k = .dependencies id →
      KeyStore.AgreeAt k s' s) : Fresh id s' where
  job := (hagree _ (.inl rfl)).1.trans h.job
  expiry := (hagree _ (.inl rfl)).2.trans h.expiry
  dependents := (hagree _ (.inr (.inl rfl))).1.trans h.dependents
  dependencies := (hagree _ (.inr (.inr rfl))).1.trans h.dependencies

lemma expire_of_default {k : RawKey} {t : ℤ} {s : RawStore} (h : s.val k = default) :
    (Command.expire k t).run s = s :=
  if_pos h

omit [DecidableEq Obj] in
/-- Of the three keys that `Job.cleanup` lets expire only the hash exists. -/
lemma agreeAt_cleanup (job : JobRecord Obj) (now : DateTime) {s : RawStore}
    (hdependents : s.val (.dependents job.id) = default)
    (hdependencies : s.val (.dependencies job.id) = default) {k : RawKey} (hk : k ≠ .job job.id) :
    KeyStore.AgreeAt k ((Command.seq (job.cleanup job.ttl now)).run s) s := by
  unfold cleanup
  split
  · have hval : ((Command.expire (.job job.id) (now.timestamp + job.ttl.getD 0)).run s).val =
        s.val := Command.val_expire _ _ s
    rw [Command.seq_cons_run, Command.seq_cons_run, expire_of_default (by rw [hval, hdependents]),
      Command.seq_cons_run, expire_of_default (by rw [hval, hdependencies])]
    exact Command.frames_expire hk s
  · exact ⟨rfl, rfl⟩

lemma expiry_eq {ttl : Option ℤ} (hpos : ∀ t ∈ ttl, 0 < t) (start : ℤ) :
    (if 0 < ttl.getD 0 then some (start + ttl.getD 0) else none) = ttl.map (start + ·) :=
  (exp_eq_iff hpos start none).mpr fun _ => rfl

/-- `Queue._persist_job` on a new id. -/
lemma stored_persistJob (job : JobRecord Obj) (hpos : ∀ ttl ∈ job.ttl, 0 < ttl)
    (status : JobStatus) (now : DateTime) {s : RawStore} (h : Fresh job.id s) :
    Stored c { job with status := status } now s
      ((Command.seq (persistJob c job status now)).run s) := by
  have hrun := run_persisted (c := c) { job with status := status } status now [] [] nofun nofun s
  rw [List.append_nil] at hrun
  refine ⟨hrun.1.trans ?_, hrun.2.trans ?_, ?_⟩
  · rw [h.job]
    rfl
  · rw [h.expiry]
    exact expiry_eq hpos _
  · intro k hk
    have hkept : ∀ k, k ≠ .job job.id → KeyStore.AgreeAt k ((save c { job with status }).run
        ((setStatus job.id status).run s)) s := fun k hk =>
      (frames_hset job.id _ hk _).trans (frames_hset job.id _ hk s)
    have hcleanup := agreeAt_cleanup job now ((hkept (.dependents _) nofun).1.trans h.dependents)
      ((hkept (.dependencies _) nofun).1.trans h.dependencies) hk
    exact hcleanup.trans (hkept k hk)

/-- The part of the scripts that saves the job, on a new id. -/
lemma stored_saveScript (job : JobRecord Obj) (hpos : ∀ ttl ∈ job.ttl, 0 < ttl)
    (hdouble : ∀ ttl ∈ job.ttl, ttl ≤ 2 ^ 53) (now : DateTime) {s : RawStore}
    (h : Fresh job.id s) : Stored c job now s ((Command.seq (saveScript c job now)).run s) := by
  have hval := JobRecord.val_hset job.id (job.toDict c true true) s
  have hexp : ((save c job).run s).exp (.job job.id) = s.exp (.job job.id) :=
    exp_hset (f := .status) job.id (Option.some_ne_none _) s
  rw [h.job] at hval
  unfold saveScript
  simp only [hset_buildHsetArgs]
  show Stored c job now s ((Command.seq (save c job :: _)).run s)
  rw [Command.seq_cons_run]
  cases hcase : job.ttl with
  | none =>
    -- Lua gets the time to live -1
    refine ⟨hval, ?_, fun k hk => frames_hset job.id _ hk s⟩
    rw [hcase]
    exact hexp.trans h.expiry
  | some ttl =>
    have httl : luaNumber ttl = ttl := by
      have hle := hdouble ttl hcase
      have hlt := hpos ttl hcase
      exact luaNumber_of_le (by omega)
    have hne : ((save c job).run s).val (.job job.id) ≠ default := by
      rw [show ((save c job).run s).val (.job job.id) = _ from hval]
      exact RawHash.update_ne_default (f := .status) _ _ (Option.some_ne_none _)
    rw [Option.getD_some, httl, if_pos (hpos ttl hcase), Command.seq_cons_run,
      Command.seq_nil_run]
    refine ⟨?_, ?_, ?_⟩
    · rw [Command.val_expire]
      exact hval
    · rw [hcase]
      show (if ((save c job).run s).val (.job job.id) = default then (save c job).run s
        else _).exp (.job job.id) = _
      rw [if_neg hne]
      exact Function.update_self _ _ _
    · intro k hk
      exact (Command.frames_expire hk _).trans (frames_hset job.id _ hk s)

/-- Two ways of saving a job, at different times. -/
lemma sameOutcome_of_stored {job job₁ job₂ r₁ r₂ : JobRecord Obj} {now now' : DateTime}
    {base s₁ s₂ : RawStore} (h₁ : Stored c job₁ now base s₁) (h₂ : Stored c job₂ now' base s₂)
    (hid₁ : job₁.id = job.id) (hid₂ : job₂.id = job.id) (httl₁ : job₁.ttl = job.ttl)
    (httl₂ : job₂.ttl = job.ttl)
    (hfield : ∀ f, f ≠ .enqueuedAt → job₁.toDict c true true f = job₂.toDict c true true f)
    (henqueuedAt : UpToClock id now now' job₁.enqueuedAt job₂.enqueuedAt) :
    SameOutcome job now now' (.ok r₁, s₁) (.ok r₂, s₂) where
  raised e := by simp
  field f hf := by
    rw [← hid₁, h₁.hash, hid₁, ← hid₂, h₂.hash]
    simp only [RawHash.update, hfield f hf]
  enqueuedAt := by
    rw [← hid₁, h₁.hash, hid₁, ← hid₂, h₂.hash]
    simp only [RawHash.update, toDict]
    obtain ⟨hat₁, hat₂⟩ | ⟨hat₁, hat₂⟩ := henqueuedAt
    · exact .inl (by simp [hat₁, hat₂])
    · exact .inr (by simp [hat₁, hat₂])
  expiry := by
    rw [← hid₁, h₁.expiry, hid₁, ← hid₂, h₂.expiry, httl₁, httl₂]
    cases job.ttl with
    | none => exact .inl ⟨rfl, rfl⟩
    | some ttl => exact .inr ⟨rfl, rfl⟩
  elsewhere k hk :=
    (h₁.elsewhere k (hid₁ ▸ hk)).trans (h₂.elsewhere k (hid₂ ▸ hk)).symm

/-! ## The calls with and without `unique` -/

section
variable {queue : RawQueue} {job : JobRecord Obj} {now now' : DateTime} {s : RawStore}

lemma fresh_alter {id : JobId} {k : RawKey} {f : RawValue k → RawValue k}
    (hjob : k ≠ .job id) (hdependents : k ≠ .dependents id) (hdependencies : k ≠ .dependencies id)
    (h : Fresh id s) : Fresh id ((Command.alter k f).run s) := by
  apply h.of_agree
  intro k' hk'
  apply Command.frames_alter
  obtain rfl | rfl | rfl := hk'
  · exact hjob.symm
  · exact hdependents.symm
  · exact hdependencies.symm

lemma fresh_register (queue : RawQueue) {id : JobId} (h : Fresh id s) :
    Fresh id (queue.register.run s) :=
  fresh_alter nofun nofun nofun h

lemma setupDependencies_eq (hdeps : job.dependencyIds = []) :
    setupDependencies c job now s = .ok (job, s) := by
  unfold setupDependencies unfinished
  rw [hdeps]
  rfl

omit [DecidableEq Obj] in
/-- Two calls that write nothing, of a deferred job or because of the same exception. -/
lemma sameOutcome_self (r : Except PyError (JobRecord Obj)) (h : Fresh job.id s) :
    SameOutcome job now now' (r, s) (r, s) where
  raised _ := Iff.rfl
  field _ _ := rfl
  enqueuedAt := .inl (by rw [h.job]; exact ⟨rfl, rfl⟩)
  expiry := .inl (by rw [h.expiry]; exact ⟨rfl, rfl⟩)
  elsewhere _ _ := ⟨rfl, rfl⟩

/-- What a prepared job has in its hash apart from the time. -/
lemma toDict_prepareForQueue (f : JobField) (hf : f ≠ .enqueuedAt) :
    (queue.prepareForQueue job now).toDict c true true f =
      (queue.prepareForQueue job now').toDict c true true f := by
  cases f <;> first | rfl | exact absurd rfl hf

/-! ### What the calls do without dependencies -/

lemma enqueueJob_eq (hdeps : job.dependencyIds = []) (atFront : Bool) :
    queue.enqueueJob c job atFront now s =
      if job.status ≠ .deferred then
        .ok (queue.prepareForQueue job now,
          (Command.seq (persistJob c (queue.prepareForQueue job now) .queued now ++
            [queue.pushJobId job.id atFront])).run (queue.register.run s))
      else .ok ({ job with origin := queue.name }, queue.register.run s) := by
  have hsetup : setupDependencies c { job with origin := queue.name } now s =
      .ok ({ job with origin := queue.name }, s) := setupDependencies_eq hdeps
  unfold enqueueJob
  rw [hsetup, Except.ok_bind]
  by_cases hstatus : job.status = .deferred
  · simp [hstatus, pure, Except.pure]
  · simp [hstatus, asyncCommands, pure, Except.pure, prepareForQueue]

lemma enqueueSyncJob_eq (hdeps : job.dependencyIds = []) :
    queue.enqueueSyncJob c job now s =
      if job.status ≠ .deferred then
        .ok (queue.prepareForQueue job now,
          (Command.seq (persistJob c (queue.prepareForQueue job now) .queued now)).run
            (queue.register.run s))
      else .ok ({ job with origin := queue.name }, queue.register.run s) := by
  have hsetup : setupDependencies c { job with origin := queue.name } now s =
      .ok ({ job with origin := queue.name }, s) := setupDependencies_eq hdeps
  unfold enqueueSyncJob
  rw [hsetup, Except.ok_bind]
  by_cases hstatus : job.status = .deferred
  · simp [hstatus, pure, Except.pure]
  · simp [hstatus, syncCommands, pure, Except.pure, prepareForQueue]

omit [DecidableEq Obj] in
lemma runUnique_eq (h : Fresh job.id s) (script : List RawCommand) :
    runUnique job script s = (.ok job, (Command.seq script).run s) :=
  if_neg (not_not_intro h.job)

lemma enqueueUniqueJob_eq (hdeps : job.dependencyIds = []) (h : Fresh job.id s)
    (isAsync atFront : Bool) :
    queue.enqueueUniqueJob c job true isAsync atFront now s =
      if job.status ≠ .deferred then
        (.ok (queue.prepareForQueue job now),
          (Command.seq (queue.uniqueEnqueueScript c (queue.prepareForQueue job now)
            (if !isAsync then .none else if atFront then .left else .right) now)).run
              (queue.register.run s))
      else (.ok { job with origin := queue.name }, queue.register.run s) := by
  unfold enqueueUniqueJob
  rw [if_neg (by decide), if_neg (not_not_intro hdeps)]
  by_cases hstatus : job.status = .deferred
  · simp [hstatus]
  · have hfresh : Fresh (queue.prepareForQueue job now).id (queue.register.run s) :=
      fresh_register queue h
    simp only [ne_eq, hstatus, not_false_eq_true, if_true]
    exact runUnique_eq hfresh _

/-- The range of `datetime` is far from where Lua numbers get coarse. -/
lemma luaNumber_timestamp {t : ScheduledDatetime} {localOffset timestamp : ℤ}
    (h : t.timestamp localOffset = .ok timestamp) : luaNumber timestamp = timestamp := by
  have hleast : (-62135596800000000 : ℤ) = DateTime.least.microseconds := by decide +kernel
  have hgreatest : (253402300799999999 : ℤ) = DateTime.greatest.microseconds := by decide +kernel
  unfold ScheduledDatetime.timestamp at h
  rw [← hleast, ← hgreatest] at h
  dsimp only at h
  split at h
  · cases h
  · next hrange =>
    cases h
    apply luaNumber_of_le
    omega

/-! ### Both ways -/

variable (hpos : ∀ ttl ∈ job.ttl, 0 < ttl) (hdouble : ∀ ttl ∈ job.ttl, ttl ≤ 2 ^ 53)
include hpos hdouble

/-- Queued both ways, with the same commands after the hash has been saved. -/
lemma sameOutcome_queued (h : Fresh job.id s) (cs : List RawCommand)
    (hframes : ∀ cmd ∈ cs, cmd.Frames (.job job.id)) (hlocal : ∀ cmd ∈ cs, cmd.Local)
    (r₁ r₂ : JobRecord Obj) :
    SameOutcome job now now'
      (.ok r₁, (Command.seq (persistJob c (queue.prepareForQueue job now) .queued now ++ cs)).run s)
      (.ok r₂, (Command.seq (saveScript c (queue.prepareForQueue job now') now' ++ cs)).run s) := by
  have hplain := (stored_persistJob (c := c) (queue.prepareForQueue job now) hpos .queued now
    h).run hframes hlocal
  have hunique := (stored_saveScript (c := c) (queue.prepareForQueue job now') hpos hdouble
    now' h).run hframes hlocal
  rw [Command.seq_append_run, Command.seq_append_run]
  exact sameOutcome_of_stored hplain hunique rfl rfl rfl rfl toDict_prepareForQueue
    (.inr ⟨rfl, rfl⟩)

lemma sameOutcome_enqueue (hdeps : job.dependencyIds = []) (h : Fresh job.id s) (atFront : Bool) :
    SameOutcome job now now' (QueueCall.plain c queue job now s (.enqueue atFront))
      (QueueCall.unique c queue job true now' s (.enqueue atFront)) := by
  have hregistered := fresh_register queue h
  have hscript : queue.uniqueEnqueueScript c (queue.prepareForQueue job now')
      (if !true then .none else if atFront then .left else .right) now' =
      saveScript c (queue.prepareForQueue job now') now' ++ [queue.pushJobId job.id atFront] := by
    cases atFront <;> rfl
  simp only [QueueCall.plain, QueueCall.unique]
  rw [enqueueJob_eq hdeps, enqueueUniqueJob_eq hdeps h, hscript]
  by_cases hstatus : job.status = .deferred
  · simp only [ne_eq, hstatus, not_true_eq_false, if_false]
    exact sameOutcome_self _ hregistered
  · simp only [ne_eq, hstatus, not_false_eq_true, if_true]
    apply sameOutcome_queued hpos hdouble hregistered [queue.pushJobId job.id atFront]
    · intro cmd hcmd
      rw [List.mem_singleton.mp hcmd]
      exact Command.frames_write nofun
    · intro cmd hcmd
      rw [List.mem_singleton.mp hcmd]
      exact Command.local_write _ _

lemma sameOutcome_enqueueSync (hdeps : job.dependencyIds = []) (h : Fresh job.id s) :
    SameOutcome job now now' (QueueCall.plain c queue job now s .enqueueSync)
      (QueueCall.unique c queue job true now' s .enqueueSync) := by
  have hregistered := fresh_register queue h
  simp only [QueueCall.plain, QueueCall.unique]
  rw [enqueueSyncJob_eq hdeps, enqueueUniqueJob_eq hdeps h]
  by_cases hstatus : job.status = .deferred
  · simp only [ne_eq, hstatus, not_true_eq_false, if_false]
    exact sameOutcome_self _ hregistered
  · simp only [ne_eq, hstatus, not_false_eq_true, if_true]
    rw [← List.append_nil (persistJob c (queue.prepareForQueue job now) .queued now)]
    exact sameOutcome_queued hpos hdouble hregistered [] nofun nofun _ _

lemma sameOutcome_schedule (hnew : job.enqueuedAt = none) (h : Fresh job.id s)
    (t : ScheduledDatetime) (localOffset : ℤ) :
    SameOutcome job now now' (QueueCall.plain c queue job now s (.schedule t localOffset))
      (QueueCall.unique c queue job true now' s (.schedule t localOffset)) := by
  simp only [QueueCall.plain, QueueCall.unique]
  cases htimestamp : t.timestamp localOffset with
  | error e =>
    -- the datetime cannot be converted: nothing is written
    unfold scheduleJob scheduleUniqueJob
    rw [htimestamp]
    exact sameOutcome_self _ h
  | ok timestamp =>
    -- the two commands that do not concern the hash
    let zadd : RawCommand :=
      .alter (.scheduled queue.name) fun z => ZSet.add z job.id (timestamp : Score)
    have hbase : Fresh job.id (queue.register.run (zadd.run s)) :=
      fresh_register queue (fresh_alter nofun nofun nofun h)
    have hplain := stored_persistJob (c := c) job hpos .scheduled now hbase
    have hframes : ∀ cmd ∈ [zadd, queue.register], cmd.Frames (.job job.id) := by
      intro cmd hcmd
      simp only [List.mem_cons, List.not_mem_nil, or_false] at hcmd
      obtain rfl | rfl := hcmd <;> exact Command.frames_alter nofun
    have hlocal : ∀ cmd ∈ [zadd, queue.register], cmd.Local := by
      intro cmd hcmd
      simp only [List.mem_cons, List.not_mem_nil, or_false] at hcmd
      obtain rfl | rfl := hcmd <;> exact Command.local_alter _ _
    have hunique := (stored_saveScript (c := c) { job with status := .scheduled } hpos
      hdouble now' h).run hframes hlocal
    have hscript : queue.uniqueScheduleScript c { job with status := .scheduled } timestamp now' =
        saveScript c { job with status := .scheduled } now' ++ [zadd, queue.register] := by
      unfold uniqueScheduleScript
      rw [luaNumber_timestamp htimestamp]
    have hplainEq : queue.scheduleJob c job t localOffset now s =
        .ok ({ job with status := .scheduled }, (Command.seq (persistJob c job .scheduled now)).run
          (queue.register.run (zadd.run s))) := by
      unfold scheduleJob
      rw [htimestamp]
      rfl
    have huniqueEq : queue.scheduleUniqueJob c job true t localOffset now' s =
        (.ok { job with status := .scheduled },
          (Command.seq (saveScript c { job with status := .scheduled } now' ++
            [zadd, queue.register])).run s) := by
      unfold scheduleUniqueJob
      rw [htimestamp, ← hscript]
      exact if_neg (not_not_intro h.job)
    rw [hplainEq, huniqueEq, Command.seq_append_run]
    exact sameOutcome_of_stored hplain hunique rfl rfl rfl rfl (fun _ _ => rfl) (.inl ⟨hnew, hnew⟩)

end

/-- On an id that does not exist, the scripts leave what the ordinary path leaves, for a job that
`create_job` has made with an id and without dependencies. -/
theorem unique_refines {queue : RawQueue} {args : JobArguments Obj} {created : DateTime}
    {job : JobRecord Obj} (hcreate : queue.createJob c args created = .ok job)
    (hid : args.jobId.isSome) (hdeps : job.dependencyIds = [])
    (hdouble : ∀ ttl ∈ args.ttl, ttl ≤ 2 ^ 53) (call : QueueCall) (now now' : DateTime)
    {s : RawStore} (hfresh : Fresh job.id s) :
    SameOutcome job now now' (call.plain c queue job now s)
      (call.unique c queue job args.jobId.isSome now' s) := by
  obtain ⟨rfl, -, hpos, -⟩ := createJob_eq hcreate
  rw [hid]
  cases call with
  | enqueue atFront => exact sameOutcome_enqueue hpos hdouble hdeps hfresh atFront
  | enqueueSync => exact sameOutcome_enqueueSync hpos hdouble hdeps hfresh
  | schedule t localOffset => exact sameOutcome_schedule hpos hdouble rfl hfresh t localOffset

open Sample

/-- The arguments of a job with the longest time to live that a double holds exactly. -/
def timedArguments : JobArguments Sample := { arguments with ttl := some 9007199254740992 }

/-- The job of the example, enqueued both ways within a second. -/
theorem unique_refines_sample :
    SameOutcome (queue.newJob codec timedArguments newYear) newYear newYear
      (QueueCall.plain codec queue (queue.newJob codec timedArguments newYear) newYear emptyStore
        (.enqueue true))
      (QueueCall.unique codec queue (queue.newJob codec timedArguments newYear) true newYear
        emptyStore (.enqueue true)) := by
  have hcreate : queue.createJob codec timedArguments newYear =
      .ok (queue.newJob codec timedArguments newYear) := rfl
  have hfresh : Fresh (queue.newJob codec timedArguments newYear).id emptyStore :=
    ⟨rfl, rfl, rfl, rfl⟩
  have hdouble : ∀ ttl ∈ timedArguments.ttl, ttl ≤ 2 ^ 53 := by
    rintro ttl ⟨⟩
    decide
  exact unique_refines hcreate rfl rfl hdouble (.enqueue true) newYear newYear hfresh

/-- The arguments of a job with a time to live of `2 ^ 53 + 1` seconds. -/
def longArguments : JobArguments Sample := { arguments with ttl := some 9007199254740993 }

/-- Lua rounds a time to live that a double cannot hold. -/
theorem long_ttl :
    let job := queue.newJob codec longArguments newYear
    queue.createJob codec longArguments newYear = .ok job ∧ job.dependencyIds = [] ∧
      Fresh job.id emptyStore ∧
      (QueueCall.plain codec queue job newYear emptyStore (.enqueue false)).2.exp (.job "a") =
        some (newYear.timestamp + 9007199254740993) ∧
      (QueueCall.unique codec queue job true newYear emptyStore (.enqueue false)).2.exp
        (.job "a") = some (newYear.timestamp + 9007199254740992) := by
  refine ⟨rfl, rfl, ⟨rfl, rfl, rfl, rfl⟩, ?_, ?_⟩
  · decide +kernel
  · decide +kernel

end RawQueue
end RedisQueue
