import RedisQueue.ReusedIds

/-!
# Fetching many jobs at once

`Job.fetch_many` beside `Job.fetch` (`rq/job.py`), on all fields of the hashes that rq can leave.

* `JobRecord.fetchesAlike_iff`: `fetch_many` gives what `fetch` gives for each id just if no id of
  the list has a hash without the field `data`.
-/

namespace RedisQueue

/-- A job id, or the composite key of an execution, that the constructor of `Job` accepts. -/
abbrev JobReference := {reference : String // jobIdPattern (JobRecord.parseJobId reference) = true}

namespace JobRecord

variable {Obj : Type} [DecidableEq Obj]

/-- All hashes are such as rq can leave. -/
def LeftStore (c : Codec Obj) (s : RawStore) : Prop := ∀ id, Left c (s.val (.job id))

/-- The hash of the job. -/
def hashOf (s : RawStore) (reference : JobReference) : RawHash :=
  s.val (.job (parseJobId reference.val))

/-- There is no hash. -/
def Absent (s : RawStore) (reference : JobReference) : Prop :=
  s.val (.job (parseJobId reference.val)) = default

/-- A hash that exists without the data of a call. -/
def Damaged (s : RawStore) (reference : JobReference) : Prop :=
  ¬ Absent s reference ∧ hashOf s reference .data = none

/-- `None` stands for an id for which `Job.fetch` raises `NoSuchJobError`, and a job for one for
which it gives the same job. -/
def Answers (c : Codec Obj) (now : DateTime) (s : RawStore) (reference : JobReference) :
    Option (JobRecord Obj) → Prop
  | none => ∃ message, fetch c reference.val now s = .error (.noSuchJobError message)
  | some job => fetch c reference.val now s = .ok job

/-- `Job.fetch_many` gives a list, with an answer for each id. -/
def FetchesAlike (c : Codec Obj) (now : DateTime) (s : RawStore)
    (references : List JobReference) : Prop :=
  ∃ jobs, fetchMany c now s (references.map Subtype.val) = .ok jobs ∧
    List.Forall₂ (Answers c now s) references jobs

section
variable {c : Codec Obj} {now : DateTime} {s : RawStore} {reference : JobReference}

/-! ## One id -/

omit [DecidableEq Obj] in
lemma fetch_absent (h : Absent s reference) :
    ∃ message, fetch c reference.val now s = .error (.noSuchJobError message) :=
  ⟨_, if_pos h⟩

omit [DecidableEq Obj] in
lemma fetch_present (h : ¬ Absent s reference) :
    fetch c reference.val now s = restore c (parseJobId reference.val) now (hashOf s reference) :=
  if_neg h

omit [DecidableEq Obj] in
lemma restore_damaged {obj : RawHash} (h : obj .data = none) (id : JobId) :
    restore c id now obj = .error (.noSuchJobError "Unexpected job format") := by
  have hread : readData obj = .error (.noSuchJobError "Unexpected job format") := by
    rw [readData, h]
  unfold restore restoreCall
  rw [hread]
  rfl

/-- A hash with data can be restored, since all its fields have been written by rq. -/
lemma restore_intact (hc : c.Lawful) {obj : RawHash} (hleft : Left c obj) (h : obj .data ≠ none)
    (id : JobId) : ∃ job : JobRecord Obj, restore c id now obj = .ok job := by
  obtain ⟨rawData, hdata⟩ := Option.ne_none_iff_exists'.mp h
  obtain ⟨job, hid, hreads⟩ := hleft.exists_reads hc hdata id now
  have hrestore := restore_of_reads hreads
  rw [hid] at hrestore
  exact ⟨job, hrestore⟩

/-! ## One step of `fetch_many` -/

variable (rest : List JobId)

omit [DecidableEq Obj] in
lemma fetchMany_absent (h : Absent s reference) :
    fetchMany c now s (reference.val :: rest) =
      (fetchMany c now s rest).map fun jobs => none :: jobs := by
  have habsent : s.val (.job (parseJobId reference.val)) = default := h
  rw [fetchMany, if_pos habsent]
  cases fetchMany c now s rest <;> rfl

omit [DecidableEq Obj] in
lemma fetchMany_intact {job : JobRecord Obj} (h : ¬ Absent s reference)
    (hrestore : restore c (parseJobId reference.val) now (hashOf s reference) = .ok job) :
    fetchMany c now s (reference.val :: rest) =
      (fetchMany c now s rest).map fun jobs => some job :: jobs := by
  have hpresent : s.val (.job (parseJobId reference.val)) ≠ default := h
  unfold hashOf at hrestore
  rw [fetchMany, if_neg hpresent, hrestore, Except.ok_bind]
  cases fetchMany c now s rest <;> rfl

omit [DecidableEq Obj] in
/-- A damaged hash ends the whole call. -/
lemma fetchMany_damaged (h : Damaged s reference) :
    fetchMany c now s (reference.val :: rest) =
      .error (.noSuchJobError "Unexpected job format") := by
  have hpresent : s.val (.job (parseJobId reference.val)) ≠ default := h.1
  have hrestore : restore c (parseJobId reference.val) now (hashOf s reference) =
      .error (.noSuchJobError "Unexpected job format") := restore_damaged h.2 _
  unfold hashOf at hrestore
  rw [fetchMany, if_neg hpresent, hrestore]
  rfl

/-! ## The whole list -/

/-- An answer for the first id in front of those for the others. -/
lemma fetchesAlike_cons (hc : c.Lawful) (hs : LeftStore c s) (hdamaged : ¬ Damaged s reference)
    (references : List JobReference) :
    FetchesAlike c now s (reference :: references) ↔ FetchesAlike c now s references := by
  -- the answer for the first id, and what it does to the list
  obtain ⟨answer, hanswer, hstep⟩ : ∃ answer, Answers c now s reference answer ∧
      fetchMany c now s (reference.val :: references.map Subtype.val) =
        (fetchMany c now s (references.map Subtype.val)).map fun jobs => answer :: jobs := by
    by_cases habsent : Absent s reference
    · exact ⟨none, fetch_absent habsent, fetchMany_absent _ habsent⟩
    · have hdata : hashOf s reference .data ≠ none := fun hnone => hdamaged ⟨habsent, hnone⟩
      obtain ⟨job, hrestore⟩ := restore_intact hc (hs _) hdata (parseJobId reference.val)
      exact ⟨some job, (fetch_present habsent).trans hrestore,
        fetchMany_intact _ habsent hrestore⟩
  unfold FetchesAlike
  rw [List.map_cons, hstep]
  constructor
  · rintro ⟨jobs, hjobs, hall⟩
    cases hfetched : fetchMany c now s (references.map Subtype.val) with
    | error e =>
      rw [hfetched] at hjobs
      cases hjobs
    | ok others =>
      rw [hfetched] at hjobs
      cases hjobs
      exact ⟨others, rfl, (List.forall₂_cons.mp hall).2⟩
  · rintro ⟨others, hothers, hall⟩
    refine ⟨answer :: others, ?_, .cons hanswer hall⟩
    rw [hothers]
    rfl

/-- `Job.fetch_many` gives what `Job.fetch` gives for each id just if none of the ids has a hash
without the data of a call. -/
theorem fetchesAlike_iff (hc : c.Lawful) (hs : LeftStore c s) (references : List JobReference) :
    FetchesAlike c now s references ↔ ∀ reference ∈ references, ¬ Damaged s reference := by
  induction references with
  | nil => exact iff_of_true ⟨[], rfl, .nil⟩ (by simp)
  | cons reference references ih =>
    rw [List.forall_mem_cons]
    by_cases hdamaged : Damaged s reference
    · -- the call ends with an exception
      refine iff_of_false ?_ fun h => h.1 hdamaged
      rintro ⟨jobs, hjobs, -⟩
      rw [List.map_cons, fetchMany_damaged _ hdamaged] at hjobs
      cases hjobs
    · rw [fetchesAlike_cons hc hs hdamaged, ih, and_iff_right hdamaged]

end

/-! ## A heartbeat after the deletion -/

section
variable {c : Codec Obj} {s : RawStore}

lemma leftStore_hset {id : JobId} {mapping : JobField → Option PyValue} (hs : LeftStore c s)
    (h : ∀ {obj : RawHash}, Left c obj → Left c (obj.update mapping)) :
    LeftStore c ((hset id mapping).run s) := by
  intro other
  by_cases heq : other = id
  · subst heq
    have hval := val_hset other mapping s
    rw [hval]
    exact h (hs other)
  · have hkey : RawKey.job other ≠ .job id := fun h => heq (RawKey.job.inj h)
    have hval := (frames_hset id mapping hkey s).1
    rw [hval]
    exact hs other

lemma leftStore_del {id : JobId} (hs : LeftStore c s) :
    LeftStore c ((Command.del (.job id)).run s) := by
  intro other
  rw [Command.val_del]
  by_cases heq : other = id
  · rw [heq, Function.update_self]
    exact Left.absent
  · rw [Function.update_of_ne fun h => heq (RawKey.job.inj h)]
    exact hs other

end

open Sample RawQueue

/-- A job that has been saved and deleted, another job, and then a heartbeat for the first. -/
def strayHeartbeat : RawStore :=
  (hset "a" (single .lastHeartbeat (.text (utcformat newYear)))).run
    ((save codec { finishedJob with id := "b" }).run
      ((Command.del (.job "a")).run ((save codec finishedJob).run emptyStore)))

lemma leftStore_strayHeartbeat : LeftStore codec strayHeartbeat := by
  have hsaved : LeftStore codec ((save codec finishedJob).run emptyStore) :=
    leftStore_hset (fun _ => Left.absent) fun hleft => hleft.save finishedJob true true
  have hother : LeftStore codec ((save codec { finishedJob with id := "b" }).run
      ((Command.del (.job "a")).run ((save codec finishedJob).run emptyStore))) :=
    leftStore_hset (leftStore_del hsaved) fun hleft => hleft.save _ true true
  exact leftStore_hset hother fun hleft => hleft.heartbeat newYear

/-- The hash of the deleted job holds the heartbeat only. -/
lemma val_strayHeartbeat : strayHeartbeat.val (.job "a") =
    RawHash.update (fun _ => none) (single .lastHeartbeat (.text (utcformat newYear))) := by
  have hother : (save codec { finishedJob with id := "b" }).Frames (.job "a") :=
    frames_hset "b" _ (by decide)
  rw [strayHeartbeat, val_hset, (hother _).1, Command.val_del, Function.update_self]
  rfl

lemma data_strayHeartbeat : strayHeartbeat.val (.job "b") .data ≠ none := by
  have hheartbeat : (hset "a" (single .lastHeartbeat (.text (utcformat newYear)))).Frames
      (.job "b") := frames_hset "a" _ (by decide)
  rw [strayHeartbeat, (hheartbeat _).1, save, val_hset]
  exact Option.some_ne_none _

/-- The ids `b` and `b:e`, the composite key of an execution. -/
def otherJob : JobReference := ⟨"b", by decide⟩

def otherExecution : JobReference := ⟨"b:e", by decide⟩

def deletedJob : JobReference := ⟨"a", by decide⟩

lemma hashOf_eq {s : RawStore} {reference : JobReference} {id : JobId}
    (h : parseJobId reference.val = id) : hashOf s reference = s.val (.job id) := by
  subst h
  rfl

/-- The other job is fetched as often as it is asked for. -/
theorem fetchesAlike_sample :
    FetchesAlike codec newYear strayHeartbeat [otherJob, otherExecution, otherJob] := by
  have hintact : ∀ reference : JobReference, parseJobId reference.val = "b" →
      ¬ Damaged strayHeartbeat reference := by
    intro reference hparse hdamaged
    have hdata := hdamaged.2
    rw [hashOf_eq hparse] at hdata
    exact data_strayHeartbeat hdata
  refine (fetchesAlike_iff lawful_codec leftStore_strayHeartbeat _).mpr ?_
  intro reference hmem
  simp only [List.mem_cons, List.not_mem_nil, or_false] at hmem
  rcases hmem with rfl | rfl | rfl
  · exact hintact otherJob (by decide)
  · exact hintact otherExecution (by decide)
  · exact hintact otherJob (by decide)

/-- The other job is not fetched together with the deleted one. -/
theorem strayHeartbeat_raises :
    LeftStore codec strayHeartbeat ∧
    (∀ f, f ≠ .lastHeartbeat → strayHeartbeat.val (.job "a") f = none) ∧
    fetchMany codec newYear strayHeartbeat [deletedJob.val, otherJob.val] =
      .error (.noSuchJobError "Unexpected job format") ∧
    ¬ FetchesAlike codec newYear strayHeartbeat [deletedJob, otherJob] := by
  have hhash : hashOf strayHeartbeat deletedJob =
      RawHash.update (fun _ => none) (single .lastHeartbeat (.text (utcformat newYear))) :=
    (hashOf_eq (by decide)).trans val_strayHeartbeat
  have hdamaged : Damaged strayHeartbeat deletedJob := by
    refine ⟨fun habsent => ?_, by rw [hhash]; rfl⟩
    have hfield := congrFun (hhash.symm.trans habsent) .lastHeartbeat
    cases hfield
  have hraises : fetchMany codec newYear strayHeartbeat [deletedJob.val, otherJob.val] =
      .error (.noSuchJobError "Unexpected job format") := fetchMany_damaged _ hdamaged
  refine ⟨leftStore_strayHeartbeat, fun f hf => ?_, hraises, ?_⟩
  · rw [val_strayHeartbeat]
    simp [RawHash.update, single, hf]
  · rintro ⟨jobs, hjobs, -⟩
    rw [List.map_cons, List.map_cons, List.map_nil, hraises] at hjobs
    cases hjobs

end JobRecord
end RedisQueue
