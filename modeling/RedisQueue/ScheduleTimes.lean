import Mathlib.Tactic.Ring
import RedisQueue.Maintenance
import RedisQueue.ScriptRefinement

/-!
# Times of scheduled jobs

Which score `ScheduledJobRegistry.schedule` and `schedule_unique_job` give a job, and how it is read
again (`rq/registry.py`, `rq/scripts.py`).

* `LocalZone.schedulesRight_iff`: a datetime without a time zone is scheduled at its instant just if
  the offset for daylight-saving time is the one that is in force then;
* `ScheduledJobRegistry.roundTrips_iff`: the time of a job is read back, and the job becomes due
  at it, just if it is after the first second of the epoch.

Times are microseconds since the epoch, offsets are seconds.
-/

namespace RedisQueue

open RawQueue

/-! ## The instant of a datetime -/

/-- The instant of a datetime with the given offset of the local time zone, in microseconds. -/
def RawQueue.ScheduledDatetime.instant (t : ScheduledDatetime) (localOffset : ℤ) : ℤ :=
  t.fields.microseconds - t.offset localOffset

/-- The instants that a `datetime` can hold in UTC: those of the years 1 to 9999. -/
def InDatetimeRange (instant : ℤ) : Prop :=
  DateTime.least.microseconds ≤ instant ∧ instant ≤ DateTime.greatest.microseconds

instance (instant : ℤ) : Decidable (InDatetimeRange instant) := inferInstanceAs (Decidable (_ ∧ _))

lemma timestamp_of_inRange {t : ScheduledDatetime} {localOffset : ℤ}
    (h : InDatetimeRange (t.instant localOffset)) :
    t.timestamp localOffset = .ok (t.instant localOffset / 1000000) := by
  have hin : ¬ (t.instant localOffset < DateTime.least.microseconds ∨
      DateTime.greatest.microseconds < t.instant localOffset) :=
    not_or.mpr ⟨not_lt.mpr h.1, not_lt.mpr h.2⟩
  unfold ScheduledDatetime.instant at hin ⊢
  unfold ScheduledDatetime.timestamp
  dsimp only
  rw [if_neg hin]

lemma timestamp_of_not_inRange {t : ScheduledDatetime} {localOffset : ℤ}
    (h : ¬ InDatetimeRange (t.instant localOffset)) :
    t.timestamp localOffset = .error (.overflowError "date value out of range") := by
  have hout : t.instant localOffset < DateTime.least.microseconds ∨
      DateTime.greatest.microseconds < t.instant localOffset := by
    rcases not_and_or.mp h with hlow | hhigh
    · exact .inl (not_le.mp hlow)
    · exact .inr (not_le.mp hhigh)
  unfold ScheduledDatetime.instant at hout
  unfold ScheduledDatetime.timestamp
  dsimp only
  rw [if_pos hout]

/-! ## The local time zone -/

namespace LocalZone

variable (zone : LocalZone)

/-- What a local clock shows. -/
def localTime (instant : ℤ) : ℤ := instant + zone.offsetAt instant * 1000000

/-- The datetime exists in the zone, at this instant only. -/
def Shows (t : DateTime) (instant : ℤ) : Prop :=
  zone.localTime instant = t.microseconds ∧
    ∀ other, zone.localTime other = t.microseconds → other = instant

variable {zone}

/-- How far the instant that the code takes is from the right one. -/
lemma instant_assumed {t : DateTime} {instant : ℤ} (h : zone.Shows t instant) :
    (⟨t, none⟩ : ScheduledDatetime).instant (zone.assumedOffset * 1000000) =
      instant + (zone.offsetAt instant - zone.assumedOffset) * 1000000 := by
  have hlocal : t.microseconds = instant + zone.offsetAt instant * 1000000 := h.1.symm
  show t.microseconds - zone.assumedOffset * 1000000 = _
  rw [hlocal]
  ring

end LocalZone

/-! ## What the two calls store -/

section
variable {Obj : Type} [DecidableEq Obj] {c : Codec Obj} {queue : RawQueue} {job : JobRecord Obj}
  {now : DateTime} {s : RawStore} {t : ScheduledDatetime} {localOffset : ℤ}

/-- The call has returned, and the score of the job is that of the instant. -/
def StoresInstant (queue : RawQueue) (id : JobId) (instant : ℤ) (o : Outcome Obj) : Prop :=
  o.1.isOk = true ∧
    ZSet.score (o.2.val (.scheduled queue.name)) id = some ((instant / 1000000 : ℤ) : Score)

omit [DecidableEq Obj] in
lemma storesInstant_of_score {o : Outcome Obj} {score : ℤ} (hok : o.1.isOk = true)
    (h : ZSet.score (o.2.val (.scheduled queue.name)) job.id = some (score : Score))
    (instant : ℤ) : StoresInstant queue job.id instant o ↔ score = instant / 1000000 := by
  unfold StoresInstant
  rw [h, and_iff_right hok, Option.some.injEq, WithTop.coe_inj]

lemma keeps_persist (queue : RawQueue) (job : JobRecord Obj) (now : DateTime) :
    (Command.seq (queue.register :: persistJob c job .scheduled now)).Keeps
      (.scheduled queue.name) := by
  intro s
  have hkey : RawKey.scheduled queue.name ≠ .job job.id := by simp
  have hregister : queue.register.Keeps (.scheduled queue.name) := Command.keeps_alter (by simp)
  have hstatus : (JobRecord.setStatus job.id .scheduled).Keeps (.scheduled queue.name) :=
    (Command.frames_iff.mp (JobRecord.frames_hset _ _ hkey)).1
  have hsave : (JobRecord.save c { job with status := .scheduled }).Keeps (.scheduled queue.name) :=
    (Command.frames_iff.mp (JobRecord.frames_hset _ _ hkey)).1
  unfold persistJob
  rw [Command.seq_cons_run, Command.seq_cons_run, Command.seq_cons_run,
    JobRecord.keeps_cleanup, hsave, hstatus, hregister]

/-- `Queue.schedule_job` stores the timestamp in the registry before anything else. -/
lemma stores_plain {timestamp : ℤ} (h : t.timestamp localOffset = .ok timestamp) (instant : ℤ) :
    StoresInstant queue job.id instant
      (QueueCall.plain c queue job now s (.schedule t localOffset)) ↔
        timestamp = instant / 1000000 := by
  have hcall : QueueCall.plain c queue job now s (.schedule t localOffset) =
      (.ok { job with status := .scheduled },
        (Command.seq (queue.register :: persistJob c job .scheduled now)).run
          ((Command.alter (.scheduled queue.name) fun z =>
            ZSet.add z job.id (timestamp : Score)).run s)) := by
    show settle s (queue.scheduleJob c job t localOffset now s) = _
    unfold scheduleJob
    rw [h]
    rfl
  rw [hcall]
  apply storesInstant_of_score rfl
  dsimp only
  rw [keeps_persist, Command.val_alter, Function.update_self, ZSet.score_add, if_pos rfl]

lemma not_stores_plain {e : PyError} (h : t.timestamp localOffset = .error e) (instant : ℤ) :
    ¬ StoresInstant queue job.id instant
      (QueueCall.plain c queue job now s (.schedule t localOffset)) := by
  have hcall : QueueCall.plain c queue job now s (.schedule t localOffset) = (.error e, s) := by
    show settle s (queue.scheduleJob c job t localOffset now s) = _
    unfold scheduleJob
    rw [h]
    rfl
  rw [hcall]
  rintro ⟨hok, -⟩
  cases hok

/-- The script adds the job to the registry after it has saved it. -/
lemma stores_unique {timestamp : ℤ} (hnew : s.val (.job job.id) = default)
    (h : t.timestamp localOffset = .ok timestamp) (instant : ℤ) :
    StoresInstant queue job.id instant
      (QueueCall.unique c queue job true now s (.schedule t localOffset)) ↔
        timestamp = instant / 1000000 := by
  have hcall : QueueCall.unique c queue job true now s (.schedule t localOffset) =
      (.ok { job with status := .scheduled },
        (Command.seq (queue.uniqueScheduleScript c { job with status := .scheduled } timestamp
          now)).run s) := by
    show queue.scheduleUniqueJob c job true t localOffset now s = _
    unfold RawQueue.scheduleUniqueJob
    rw [h]
    exact if_neg (not_not_intro hnew)
  have hregister : queue.register.Keeps (.scheduled queue.name) := Command.keeps_alter (by simp)
  rw [hcall]
  apply storesInstant_of_score rfl
  unfold uniqueScheduleScript
  dsimp only
  rw [luaNumber_timestamp h, Command.seq_append_run, Command.seq_cons_run, Command.seq_cons_run,
    Command.seq_nil_run, hregister, Command.val_alter, Function.update_self, ZSet.score_add,
    if_pos rfl]

lemma not_stores_unique {e : PyError} (h : t.timestamp localOffset = .error e) (instant : ℤ) :
    ¬ StoresInstant queue job.id instant
      (QueueCall.unique c queue job true now s (.schedule t localOffset)) := by
  have hcall : QueueCall.unique c queue job true now s (.schedule t localOffset) = (.error e, s) := by
    show queue.scheduleUniqueJob c job true t localOffset now s = _
    unfold RawQueue.scheduleUniqueJob
    rw [h]
    rfl
  rw [hcall]
  rintro ⟨hok, -⟩
  cases hok

/-- Either call stores the score of an instant just if it computes the timestamp of this instant. -/
lemma stores_iff (hnew : s.val (.job job.id) = default) (unique : Bool) (instant : ℤ) :
    StoresInstant queue job.id instant
      (if unique then QueueCall.unique c queue job true now s (.schedule t localOffset)
        else QueueCall.plain c queue job now s (.schedule t localOffset)) ↔
      t.timestamp localOffset = .ok (instant / 1000000) := by
  cases unique with
  | false =>
    rw [if_neg Bool.false_ne_true]
    cases htimestamp : t.timestamp localOffset with
    | error e => exact iff_of_false (not_stores_plain htimestamp instant) (by simp)
    | ok timestamp => rw [stores_plain htimestamp, Except.ok.injEq]
  | true =>
    rw [if_pos rfl]
    cases htimestamp : t.timestamp localOffset with
    | error e => exact iff_of_false (not_stores_unique htimestamp instant) (by simp)
    | ok timestamp => rw [stores_unique hnew htimestamp, Except.ok.injEq]

/-- A datetime without a time zone that the local clock shows at one instant only is scheduled at
that instant just if it is in the years 1 to 9999 of UTC and the offset for daylight-saving time is
in force then, if the zone has one that differs from the standard offset. -/
theorem LocalZone.schedulesRight_iff {zone : LocalZone} {naive : DateTime} {instant : ℤ}
    (hshows : zone.Shows naive instant) (hnew : s.val (.job job.id) = default) (unique : Bool) :
    StoresInstant queue job.id instant
      (if unique then QueueCall.unique c queue job true now s
          (.schedule ⟨naive, none⟩ (zone.assumedOffset * 1000000))
        else QueueCall.plain c queue job now s
          (.schedule ⟨naive, none⟩ (zone.assumedOffset * 1000000))) ↔
      zone.Assumes instant ∧ InDatetimeRange instant := by
  rw [stores_iff hnew, assumes_iff]
  have hinstant := instant_assumed hshows
  constructor
  · intro htimestamp
    by_cases hrange : InDatetimeRange
        ((⟨naive, none⟩ : ScheduledDatetime).instant (zone.assumedOffset * 1000000))
    · rw [timestamp_of_inRange hrange, Except.ok.injEq, hinstant,
        Int.add_mul_ediv_right _ _ (by decide)] at htimestamp
      have hoffset : zone.offsetAt instant = zone.assumedOffset := by omega
      rw [hinstant, hoffset, sub_self, zero_mul, add_zero] at hrange
      exact ⟨hoffset, hrange⟩
    · rw [timestamp_of_not_inRange hrange] at htimestamp
      cases htimestamp
  · rintro ⟨hoffset, hrange⟩
    rw [hoffset, sub_self, zero_mul, add_zero] at hinstant
    rw [← hinstant] at hrange
    rw [timestamp_of_inRange hrange, hinstant]

end

/-! ### Central Europe -/

namespace LocalZone

open Sample

/-- In 2024, one hour ahead of UTC, and two from the last Sunday of March to that of October. -/
def centralEurope : LocalZone where
  stdOffset := 3600
  dst := some (7200, fun instant => decide (1711846800000000 ≤ instant ∧ instant < 1729990800000000))

/-- Noon on the 15th of July and on the 15th of January. -/
def summerNoon : DateTime := ⟨2024, 7, 15, 12, 0, 0, 0, by decide⟩

def winterNoon : DateTime := ⟨2024, 1, 15, 12, 0, 0, 0, by decide⟩

/-- A local time in which the two offsets lie on the same side of both changes. -/
lemma centralEurope_shows {t : DateTime} {l instant : ℤ} (hlocal : l = t.microseconds)
    (h : l - 3600000000 = instant ∧
        (l < 1711846800000000 + 3600000000 ∨ 1729990800000000 + 7200000000 ≤ l) ∨
      l - 7200000000 = instant ∧
        1711846800000000 + 7200000000 ≤ l ∧ l < 1729990800000000 + 3600000000) :
    centralEurope.Shows t instant := by
  unfold Shows localTime offsetAt centralEurope
  rw [← hlocal]
  simp only [decide_eq_true_eq]
  refine ⟨?_, fun other hother => ?_⟩
  · split <;> omega
  · split at hother <;> omega

lemma summerNoon_shown : centralEurope.Shows summerNoon 1721037600000000 :=
  centralEurope_shows (l := 1721044800000000) (by decide +kernel) (by omega)

lemma winterNoon_shown : centralEurope.Shows winterNoon 1705316400000000 :=
  centralEurope_shows (l := 1705320000000000) (by decide +kernel) (by omega)

/-- In summer the job is scheduled at the right instant. -/
theorem summer_scheduled :
    StoresInstant queue "a" 1721037600000000
      (if true then QueueCall.unique codec queue (queue.newJob codec arguments newYear) true newYear
          emptyStore (.schedule ⟨summerNoon, none⟩ (centralEurope.assumedOffset * 1000000))
        else QueueCall.plain codec queue (queue.newJob codec arguments newYear) newYear
          emptyStore (.schedule ⟨summerNoon, none⟩ (centralEurope.assumedOffset * 1000000))) := by
  refine (schedulesRight_iff summerNoon_shown rfl true).mpr ⟨?_, by decide +kernel⟩
  rintro dstOffset inForce hdst
  cases hdst
  left
  decide

/-- In winter it is scheduled an hour too early. -/
theorem winter_scheduled_early :
    centralEurope.Shows winterNoon 1705316400000000 ∧
    (⟨winterNoon, none⟩ : ScheduledDatetime).timestamp (centralEurope.assumedOffset * 1000000) =
      .ok 1705312800 ∧
    ∀ unique : Bool, ¬ StoresInstant queue "a" 1705316400000000
      (if unique then QueueCall.unique codec queue (queue.newJob codec arguments newYear) true
          newYear emptyStore (.schedule ⟨winterNoon, none⟩ (centralEurope.assumedOffset * 1000000))
        else QueueCall.plain codec queue (queue.newJob codec arguments newYear) newYear
          emptyStore (.schedule ⟨winterNoon, none⟩ (centralEurope.assumedOffset * 1000000))) := by
  have htimestamp : (⟨winterNoon, none⟩ : ScheduledDatetime).timestamp
      (centralEurope.assumedOffset * 1000000) = .ok 1705312800 := by decide +kernel
  refine ⟨winterNoon_shown, htimestamp, fun unique hstores => ?_⟩
  have hright := (stores_iff rfl unique 1705316400000000).mp hstores
  rw [htimestamp] at hright
  cases hright

end LocalZone

/-! ## Reading the times again -/

namespace ScheduledJobRegistry

/-- `ScheduledJobRegistry.schedule` -/
def schedule (queue : Queue) (job : Job) (t : ScheduledDatetime) (localOffset : ℤ) : Redis Unit :=
  match t.timestamp localOffset with
  | .error e => .throw e
  | .ok timestamp => queue.scheduledRegistrySchedule job timestamp none

/-- `ScheduledJobRegistry.get_jobs_to_schedule` -/
def getJobsToSchedule (name : QueueName) (timestamp : Time) (chunkSize : ℕ) :
    Redis (List JobId) :=
  .read fun s =>
    ((s.val (.registry .scheduled name)).range (· ≤ ·) (0 : ℤ) timestamp).take chunkSize

/-- `datetime.fromtimestamp(score, tz=timezone.utc)`. The message of the `ValueError` also names the
year. -/
def fromTimestamp : Score → Except PyError Time
  | none => .error (.overflowError "cannot convert float infinity to integer")
  | some score =>
    if InDatetimeRange (score * 1000000) then .ok score
    else .error (.valueError "year is out of range")

/-- `ScheduledJobRegistry.get_scheduled_time` -/
def getScheduledTime (name : QueueName) (jobId : JobId) : Redis Time := do
  let score ← .read fun s => (s.val (.registry .scheduled name)).score jobId
  match score with
  | none => .throw (.noSuchJobError "")
  | some score =>
    -- a score of zero counts as none
    if score = (0 : ℤ) then .throw (.noSuchJobError "")
    else Prog.ofExcept (fromTimestamp score)

/-- The scheduler reads a chunk of a thousand. -/
example (name : QueueName) (timestamp : Time) :
    RedisQueue.getJobsToSchedule name timestamp = getJobsToSchedule name timestamp 1000 := rfl

variable {queue : Queue} {job : Job} {t : ScheduledDatetime} {localOffset : ℤ} {s s' : Store}

/-- `get_scheduled_time` gives the second of the instant, and with a chunk that is large enough the
job is among the due ones of each second from this one on. -/
def RoundTrips (name : QueueName) (jobId : JobId) (instant : ℤ) (s : Store) : Prop :=
  (getScheduledTime name jobId).run s = (.ok (instant / 1000000), s) ∧
    ∀ (timestamp : Time) (chunkSize : ℕ),
      (s.val (.registry .scheduled name)).entries.length ≤ chunkSize →
      ∃ ids, (getJobsToSchedule name timestamp chunkSize).run s = (.ok ids, s) ∧
        (jobId ∈ ids ↔ instant / 1000000 ≤ timestamp)

/-- What `schedule` stores. -/
lemma score_schedule (h : (schedule queue job t localOffset).run s = (.ok (), s')) :
    InDatetimeRange (t.instant localOffset) ∧
      (s'.val (.registry .scheduled queue.name)).score job.id =
        some ((t.instant localOffset / 1000000 : ℤ) : Score) := by
  by_cases hrange : InDatetimeRange (t.instant localOffset)
  · refine ⟨hrange, ?_⟩
    unfold schedule at h
    rw [timestamp_of_inRange hrange] at h
    cases h
    rw [val_zadd, Function.update_self, ZSet.score_add, if_pos rfl]
  · unfold schedule at h
    rw [timestamp_of_not_inRange hrange] at h
    cases h

/-- A score between zero and the timestamp is in the chunk. -/
lemma mem_due_iff {name : QueueName} {jobId : JobId} {score : ℤ}
    (h : (s.val (.registry .scheduled name)).score jobId = some (score : Score)) (timestamp : Time)
    {chunkSize : ℕ} (hchunk : (s.val (.registry .scheduled name)).entries.length ≤ chunkSize) :
    jobId ∈ ((s.val (.registry .scheduled name)).range (· ≤ ·) (0 : ℤ) timestamp).take chunkSize ↔
      0 ≤ score ∧ score ≤ timestamp := by
  set z := s.val (.registry .scheduled name) with hz
  have hlength : (z.range (· ≤ ·) (0 : ℤ) timestamp).length ≤ chunkSize := by
    unfold ZSet.range ZSet.ordered ZSet.filter
    rw [List.length_map, List.length_insertionSort]
    exact (List.length_filter_le _ _).trans hchunk
  rw [List.take_of_length_le hlength, ZSet.mem_range]
  have hinRange : ∀ sc : Score, ZSet.inRange (0 : ℤ) timestamp (jobId, sc) = true ↔
      ((0 : ℤ) : Score) ≤ sc ∧ sc ≤ ((timestamp : ℤ) : Score) := by
    intro sc
    simp [ZSet.inRange]
  constructor
  · rintro ⟨sc, hmem, hin⟩
    have hsc : sc = (score : Score) := Option.some.inj ((ZSet.score_eq_some.mpr hmem).symm.trans h)
    rw [hinRange, hsc] at hin
    exact ⟨WithTop.coe_le_coe.mp hin.1, WithTop.coe_le_coe.mp hin.2⟩
  · rintro ⟨hlow, hhigh⟩
    exact ⟨(score : Score), ZSet.score_eq_some.mp h,
      (hinRange _).mpr ⟨WithTop.coe_le_coe.mpr hlow, WithTop.coe_le_coe.mpr hhigh⟩⟩

/-- The time is read back unless the score is zero. -/
lemma run_getScheduledTime {name : QueueName} {jobId : JobId} {score : ℤ}
    (h : (s.val (.registry .scheduled name)).score jobId = some (score : Score))
    (hrange : InDatetimeRange (score * 1000000)) :
    (getScheduledTime name jobId).run s =
      if score = 0 then (.error (.noSuchJobError ""), s) else (.ok score, s) := by
  unfold getScheduledTime
  rw [Prog.run_bind_ok (Prog.run_read _ _), h]
  dsimp only
  by_cases hzero : score = 0
  · rw [if_pos hzero, if_pos (congrArg _ hzero)]
    rfl
  · have hne : (score : Score) ≠ ((0 : ℤ) : Score) := fun heq => hzero (WithTop.coe_inj.mp heq)
    rw [if_neg hzero, if_neg hne]
    have hfrom : fromTimestamp (score : Score) = .ok score := if_pos hrange
    rw [hfrom]
    rfl

/-- The second of an instant in the range is in the range. -/
lemma inDatetimeRange_floor {instant : ℤ} (h : InDatetimeRange instant) :
    InDatetimeRange (instant / 1000000 * 1000000) := by
  have hleast : (-62135596800000000 : ℤ) = DateTime.least.microseconds := by decide +kernel
  unfold InDatetimeRange at h ⊢
  rw [← hleast] at h ⊢
  omega

/-- After `schedule` has returned, the time of the job is read back, and the job is due from this
time on, just if the second of its instant is after that of the epoch. -/
theorem roundTrips_iff (h : (schedule queue job t localOffset).run s = (.ok (), s')) :
    RoundTrips queue.name job.id (t.instant localOffset) s' ↔
      0 < t.instant localOffset / 1000000 := by
  obtain ⟨hrange, hscore⟩ := score_schedule h
  have htime := run_getScheduledTime hscore (inDatetimeRange_floor hrange)
  unfold RoundTrips
  generalize t.instant localOffset / 1000000 = score at *
  have hdue := fun timestamp chunkSize => @mem_due_iff s' _ _ _ hscore timestamp chunkSize
  constructor
  · rintro ⟨hread, hjobs⟩
    have hne : score ≠ 0 := by
      intro hzero
      rw [htime, if_pos hzero] at hread
      cases hread
    obtain ⟨ids, hids, hmem⟩ := hjobs score _ (le_refl _)
    cases hids
    have hlow := ((hdue score _ (le_refl _)).mp (hmem.mpr (le_refl _))).1
    omega
  · intro hpos
    refine ⟨?_, fun timestamp chunkSize hchunk => ⟨_, rfl, ?_⟩⟩
    · rw [htime, if_neg (by omega)]
    · rw [hdue timestamp chunkSize hchunk]
      exact and_iff_right (by omega)

/-! ### Around the epoch -/

/-- A job for a time in UTC. -/
def utc (fields : DateTime) : ScheduledDatetime := ⟨fields, some (some 0)⟩

/-- The store after a job has been scheduled in an empty one. -/
def scheduledAt (score : ℤ) : Store := (zadd .scheduled "q" "a" score).run Store.empty

/-- Half a second after the first second of the epoch. -/
def secondSecond : DateTime := ⟨1970, 1, 1, 0, 0, 1, 500000, by decide⟩

def epoch : DateTime := ⟨1970, 1, 1, 0, 0, 0, 0, by decide⟩

def lastOf1969 : DateTime := ⟨1969, 12, 31, 23, 59, 59, 0, by decide⟩

theorem roundTrips_secondSecond :
    RoundTrips "q" "a" ((utc secondSecond).instant 0) (scheduledAt 1) := by
  have hrun : (schedule { name := "q" } { id := "a", data := "f" } (utc secondSecond) 0).run
      Store.empty = (.ok (), scheduledAt 1) := by
    have htimestamp : (utc secondSecond).timestamp 0 = .ok 1 := by decide +kernel
    unfold schedule
    rw [htimestamp]
    rfl
  exact (roundTrips_iff hrun).mpr (by decide +kernel)

/-- The time of a job for the epoch is not read back, and a job for the second before never becomes
due. -/
theorem epoch_lost :
    (schedule { name := "q" } { id := "a", data := "f" } (utc epoch) 0).run Store.empty =
      (.ok (), scheduledAt 0) ∧
    (getScheduledTime "q" "a").run (scheduledAt 0) =
      (.error (.noSuchJobError ""), scheduledAt 0) ∧
    (schedule { name := "q" } { id := "a", data := "f" } (utc lastOf1969) 0).run Store.empty =
      (.ok (), scheduledAt (-1)) ∧
    (∀ timestamp chunkSize, (getJobsToSchedule "q" timestamp chunkSize).run (scheduledAt (-1)) =
      (.ok [], scheduledAt (-1))) ∧
    ¬ RoundTrips "q" "a" ((utc epoch).instant 0) (scheduledAt 0) ∧
    ¬ RoundTrips "q" "a" ((utc lastOf1969).instant 0) (scheduledAt (-1)) := by
  have hepoch : (utc epoch).timestamp 0 = .ok 0 := by decide +kernel
  have hbefore : (utc lastOf1969).timestamp 0 = .ok (-1) := by decide +kernel
  have hread : (getScheduledTime "q" "a").run (scheduledAt 0) =
      (.error (.noSuchJobError ""), scheduledAt 0) := rfl
  have hdue : ∀ timestamp chunkSize, (getJobsToSchedule "q" timestamp chunkSize).run
      (scheduledAt (-1)) = (.ok [], scheduledAt (-1)) := by
    intro timestamp chunkSize
    -- the score is below the range, whatever its upper end is
    have hrange : ((scheduledAt (-1)).val (.registry .scheduled "q")).range (· ≤ ·) (0 : ℤ)
        timestamp = [] := rfl
    unfold getJobsToSchedule
    rw [Prog.run_read, hrange, List.take_nil]
  refine ⟨?_, hread, ?_, hdue, ?_, ?_⟩
  · unfold schedule
    rw [hepoch]
    rfl
  · unfold schedule
    rw [hbefore]
    rfl
  · rintro ⟨htime, -⟩
    rw [hread] at htime
    cases htime
  · rintro ⟨-, hjobs⟩
    obtain ⟨ids, hids, hmem⟩ := hjobs 0 _ (le_refl _)
    rw [hdue] at hids
    cases hids
    exact absurd (hmem.mpr (by decide +kernel)) List.not_mem_nil

end ScheduledJobRegistry

end RedisQueue
