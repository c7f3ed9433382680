import Mathlib.Data.Set.Card
import RedisQueue.ReleaseEffects
import RedisQueue.SchedulerTicks

/-!
# The registry of failed jobs

Any number of clients that requeue failed jobs (`BaseRegistry.requeue`, `Job.requeue`), remove them
from the registry (`BaseRegistry.remove`) or clean it up (`FailedJobRegistry.cleanup`).

* `RegistryCall`: the calls, and `takingProg`, `savingProg`, `pushingProg`: what is left of one;
* `Present`, `Requeued`, `Evicted`: what has become of a job of the registry;
* `requeues_conserve`: in every interleaving each job is requeued once, evicted once, or there.
-/

namespace RedisQueue

/-! ## Calls -/

/-- `FailedJobRegistry.cleanup`. The scores of the registry are integers, so that a timestamp counts
as the last integer before it. -/
def FailedJobRegistry.cleanup (name : QueueName) (timestamp : Score) : Redis Unit :=
  Prog.perform (Command.alter (.registry .failed name) fun z => z.removeRange (0 : ℤ) timestamp).run

/-- `BaseRegistry.remove`, without `delete_job`. -/
def FailedJobRegistry.remove (name : QueueName) (id : JobId) : Redis Unit :=
  Prog.perform (zrem .failed name id).run

/-- `BaseRegistry.requeue` of an id. -/
def FailedJobRegistry.requeueId (name : QueueName) (id : JobId) (atFront : Bool) (now : Time) :
    Redis Job := do
  let job ← Job.fetch id
  Job.requeue .failed name job atFront now

/-- The calls on the registry of failed jobs: `registry.requeue(job)`, `registry.requeue(job_id)`,
`job.requeue()`, `registry.cleanup(timestamp)` and `registry.remove(job_id)`. The objects are those
of the callers, however old. -/
inductive RegistryCall where
  | requeue (job : Job) (atFront : Bool) (now : Time)
  | requeueId (id : JobId) (atFront : Bool) (now : Time)
  | jobRequeue (job : Job) (atFront : Bool) (now : Time)
  | cleanup (timestamp : Score)
  | remove (id : JobId)

namespace RegistryCall

/-- What the call does on the registry of `name`. -/
def prog (name : QueueName) : RegistryCall → Redis Unit
  | requeue job atFront now => do
    let _ ← Job.requeue .failed name job atFront now
  | requeueId id atFront now => do
    let _ ← FailedJobRegistry.requeueId name id atFront now
  | jobRequeue job atFront now => do
    let _ ← Job.requeue .failed job.origin job atFront now
  | cleanup timestamp => FailedJobRegistry.cleanup name timestamp
  | remove id => FailedJobRegistry.remove name id

/-- A call on the registry of `name`: the registry of a job is that of its queue. The time to live of
a job is never zero, which `create_job` refuses and a hash does not hold. -/
def On (name : QueueName) : RegistryCall → Prop
  | requeue job _ _ => job.ttl ≠ some 0
  | jobRequeue job _ _ => job.origin = name ∧ job.ttl ≠ some 0
  | _ => True

/-- The call requeues the job. -/
def Requeues (jobId : JobId) : RegistryCall → Prop
  | requeue job _ _ => job.id = jobId
  | requeueId id _ _ => id = jobId
  | jobRequeue job _ _ => job.id = jobId
  | cleanup _ => False
  | remove _ => False

/-- The call evicts or removes jobs. -/
def removes : RegistryCall → Bool
  | cleanup _ => true
  | remove _ => true
  | _ => false

lemma removes_of_requeues {jobId : JobId} {c : RegistryCall} (h : c.Requeues jobId) :
    c.removes = false := by
  cases c with
  | requeue => rfl
  | requeueId => rfl
  | jobRequeue => rfl
  | cleanup => exact h.elim
  | remove => exact h.elim

/-- The call is about the job, whose score is the given one. -/
def Targets (jobId : JobId) (score : Score) : RegistryCall → Prop
  | requeue job _ _ => job.id = jobId
  | requeueId id _ _ => id = jobId
  | jobRequeue job _ _ => job.id = jobId
  | cleanup timestamp => ((0 : ℤ) : Score) ≤ score ∧ score ≤ timestamp
  | remove id => id = jobId

/-- The queue that the call puts the job on, if it is stored as in `s`. -/
def queue (s : Store) : RegistryCall → QueueName
  | requeue job _ _ => job.origin
  | requeueId id _ _ => s.origin id
  | jobRequeue job _ _ => job.origin
  | cleanup _ => ""
  | remove _ => ""

end RegistryCall

/-! ## What is left of a call -/

/-- The object that `requeue` saves. -/
def Job.cleared (self : Job) : Job := { self with startedAt := none, endedAt := none }

/-- The transaction that is left when the job has been saved. -/
def pushingProg (job : Job) (atFront : Bool) (now : Time) : Redis Unit :=
  .exec false (fun _ => true)
    (Command.seq (enqueueCommands { name := job.origin } job.cleared atFront now)).run
    fun _ => .ret ()

/-- What is left when the job has been taken from the registry. -/
def savingProg (job : Job) (atFront : Bool) (now : Time) : Redis Unit :=
  .step (hset job.id (job.cleared.toDict true)).run fun _ => pushingProg job atFront now

/-- What is left when there is an object. -/
def takingProg (name : QueueName) (job : Job) (atFront : Bool) (now : Time) : Redis Unit :=
  .step (zrem .failed name job.id).run fun s =>
    if job.id ∉ s.val (.registry .failed name) then .throw (.invalidJobOperation "")
    else savingProg job atFront now

/-- What is left when there is only an id. -/
def fetchingProg (name : QueueName) (id : JobId) (atFront : Bool) (now : Time) : Redis Unit :=
  .step (fun s => s) fun s =>
    if s.val (.job id) = default then .throw (.noSuchJobError s!"No such job: rq:job:{id}")
    else match Job.restore id (s.val (.job id)) with
      | .error e => .throw e
      | .ok job => takingProg name job atFront now

section Programs
variable {name : QueueName} {job : Job} {atFront : Bool} {now : Time}

/-- **`requeue` is a removal, a save and a transaction.** -/
lemma requeue_eq (ht : job.ttl ≠ some 0) :
    (do let _ ← Job.requeue .failed name job atFront now : Redis Unit) =
      takingProg name job atFront now := by
  have hbuffer := @Queue.enqueueJob_buffer {} Pipeline.immediate_empty { name := job.origin }
    job.cleared ht atFront now
  have hne : (({} : Pipeline Key Value).buffer (enqueueCommands { name := job.origin } job.cleared
      atFront now)).commandStack ≠ [] := by
    simp [enqueueCommands, Pipeline.buffer]
  have hexecute : (({} : Pipeline Key Value).buffer (enqueueCommands { name := job.origin }
      job.cleared atFront now)).execute = (.exec false (fun _ => true)
        (Command.seq (enqueueCommands { name := job.origin } job.cleared atFront now)).run .ret :
        Redis Bool) := by
    rw [Pipeline.execute_of_unwatched rfl hne, Pipeline.buffer_commandStack]
    rfl
  have hsaving : (do
      let _ ← job.cleared.save none
      let r ← Queue._enqueueJob { name := job.origin } job.cleared (some {}) atFront false now
      let _ ← (r.2.getD {}).execute
      return () : Redis Unit) = savingProg job atFront now := by
    rw [hbuffer]
    simp only [Prog.ret_bind, Option.getD_some, hexecute]
    rfl
  unfold Job.requeue takingProg
  simp only [Prog.step_bind]
  congr 1
  funext s
  split
  · rfl
  · rw [← hsaving]
    simp only [bind_assoc, pure_bind]
    rfl

/-- **`requeue` of an id is a read before that.** -/
lemma requeueId_eq (name : QueueName) (id : JobId) (atFront : Bool) (now : Time) :
    RegistryCall.prog name (.requeueId id atFront now) = fetchingProg name id atFront now := by
  unfold RegistryCall.prog FailedJobRegistry.requeueId Job.fetch Prog.read fetchingProg
  simp only [Prog.step_bind, Prog.ret_bind, bind_assoc]
  congr 1
  funext s
  split
  · rfl
  · cases hr : Job.restore id (s.val (.job id)) with
    | error e => rfl
    | ok job => exact requeue_eq (Job.restore_ok hr).2

end Programs

/-! ## What the other calls leave alone -/

/-- What matters of the job stays as it is, and the job is not pushed. -/
structure Spares (name : QueueName) (id : JobId) (s s' : Store) : Prop where
  score : (s'.val (.registry .failed name)).score id = (s.val (.registry .failed name)).score id
  hash : s'.val (.job id) = s.val (.job id)
  log : ∃ new, s'.val .log = s.val .log ++ new ∧ ∀ push ∈ new, push.id ≠ id

section Spares
variable {name : QueueName} {id id' : JobId} {job : Job} {s : Store}

lemma spares_zrem (h : id' ≠ id) : Spares name id s ((zrem .failed name id').run s) where
  score := by simp [ZSet.score_remove, h.symm]
  hash := by simp
  log := ⟨[], by simp, by simp⟩

lemma spares_hset (h : id' ≠ id) (m : JobHash) : Spares name id s ((hset id' m).run s) where
  score := by simp
  hash := by simp [h.symm]
  log := ⟨[], by simp, by simp⟩

lemma spares_enqueueCommands (h : job.id ≠ id) (queue : Queue) (atFront : Bool) (now : Time) :
    Spares name id s ((Command.seq (enqueueCommands queue job atFront now)).run s) where
  score := by simp [val_enqueueCommands]
  hash := by simp [val_enqueueCommands, h.symm]
  log := ⟨[⟨queue.key, job.id⟩], by simp [val_enqueueCommands], by simpa using h⟩

/-- A call that requeues another job. -/
lemma spares_takingProg (h : job.id ≠ id) (atFront : Bool) (now : Time) :
    (takingProg name job atFront now).Within (fun _ => True) (Spares name id) fun _ => True := by
  intro s _
  refine ⟨⟨trivial, spares_zrem h⟩, ?_⟩
  dsimp only
  split
  · trivial
  · intro s _
    refine ⟨⟨trivial, spares_hset h _⟩, fun s _ _ => ⟨trivial, ?_⟩, fun _ => trivial⟩
    exact @spares_enqueueCommands name id job.cleared s h _ atFront now

lemma spares_fetchingProg (h : id' ≠ id) (atFront : Bool) (now : Time) :
    (fetchingProg name id' atFront now).Within (fun _ => True) (Spares name id) fun _ => True := by
  intro s _
  refine ⟨⟨trivial, rfl, rfl, [], by simp, by simp⟩, ?_⟩
  dsimp only
  split
  · trivial
  · split
    · trivial
    · next job hjob =>
      obtain rfl := (Job.restore_ok hjob).1
      exact spares_takingProg h atFront now

end Spares

/-! ## One step of a call -/

/-- What is left of a call that has not got hold of the job. `C` is what is known of its object, `h`
the hash that it may still read. -/
inductive Trying (name : QueueName) (id : JobId) (h : JobHash) (C : Job → Prop) : Redis Unit → Prop
  | fetching (atFront : Bool) (now : Time) (hC : ∀ job, Job.restore id h = .ok job → C job) :
      Trying name id h C (fetchingProg name id atFront now)
  | taking (job : Job) (atFront : Bool) (now : Time) (hid : job.id = id) (hC : C job) :
      Trying name id h C (takingProg name job atFront now)

/-- What is left of a call that does not requeue the job. -/
inductive Elsewhere (name : QueueName) (id : JobId) (c : RegistryCall) : Redis Unit → Prop
  | start (hc : c.removes = true) : Elsewhere name id c (c.prog name)
  | done (hc : c.removes = true) : Elsewhere name id c (.ret ())
  | spares {p : Redis Unit} (hc : c.removes = false)
      (hp : p.Within (fun _ => True) (Spares name id) fun _ => True) : Elsewhere name id c p

section Calls
variable {name : QueueName} {id : JobId} {h : JobHash} {C : Job → Prop} {c : RegistryCall}
  {p p' : Redis Unit} {s s' s₀ : Store}

lemma trying_prog (hon : c.On name) (hc : c.Requeues id) :
    Trying name id (s₀.val (.job id)) (fun job => job.origin = c.queue s₀) (c.prog name) := by
  cases c with
  | requeue job atFront now =>
    have hprog : RegistryCall.prog name (.requeue job atFront now) =
        takingProg name job atFront now := requeue_eq hon
    rw [hprog]
    exact .taking job atFront now hc rfl
  | requeueId id' atFront now =>
    obtain rfl : id' = id := hc
    rw [requeueId_eq]
    exact .fetching atFront now fun job hjob => (Queue.origin_of_restore hjob).symm
  | jobRequeue job atFront now =>
    obtain ⟨horigin, ht⟩ := hon
    have hprog : RegistryCall.prog name (.jobRequeue job atFront now) =
        takingProg name job atFront now := by
      rw [← horigin]
      exact requeue_eq ht
    rw [hprog]
    exact .taking job atFront now hc rfl
  | cleanup timestamp => exact hc.elim
  | remove id' => exact hc.elim

lemma elsewhere_prog (hon : c.On name) (hc : ¬c.Requeues id) :
    Elsewhere name id c (c.prog name) := by
  cases c with
  | requeue job atFront now =>
    refine .spares rfl ?_
    have hprog : RegistryCall.prog name (.requeue job atFront now) =
        takingProg name job atFront now := requeue_eq hon
    rw [hprog]
    exact spares_takingProg hc atFront now
  | requeueId id' atFront now =>
    refine .spares rfl ?_
    rw [requeueId_eq]
    exact spares_fetchingProg hc atFront now
  | jobRequeue job atFront now =>
    obtain ⟨horigin, ht⟩ := hon
    refine .spares rfl ?_
    have hprog : RegistryCall.prog name (.jobRequeue job atFront now) =
        takingProg name job atFront now := by
      rw [← horigin]
      exact requeue_eq ht
    rw [hprog]
    exact spares_takingProg hc atFront now
  | cleanup timestamp => exact .start rfl
  | remove id' => exact .start rfl

/-- A call that tries reads the hash, or sees whether the job is in the registry. -/
lemma Trying.advance (ht : Trying name id h C p) (hdata : (s.val (.job id)).data.isSome)
    (hh : s.val (.job id) = h ∨ ∀ job, C job) (hadv : p.advance s = some (p', s')) :
    (s' = s ∧ Trying name id h C p') ∨
      ∃ job atFront now, job.id = id ∧ C job ∧ s' = (zrem .failed name id).run s ∧
        p' = if id ∉ s.val (.registry .failed name) then .throw (.invalidJobOperation "")
          else savingProg job atFront now := by
  cases ht with
  | fetching atFront now hC =>
    obtain ⟨job, hjob⟩ := Job.exists_restore id hdata
    obtain ⟨hid, -⟩ := Job.restore_ok hjob
    have hadv' : (fetchingProg name id atFront now).advance s =
        some (takingProg name job atFront now, s) := by
      unfold fetchingProg Prog.advance
      dsimp only
      rw [if_neg (ne_default_of_data hdata), hjob]
    rw [hadv'] at hadv
    cases hadv
    refine .inl ⟨rfl, .taking job atFront now hid ?_⟩
    rcases hh with hh | hall
    · exact hC job (hh ▸ hjob)
    · exact hall job
  | taking job atFront now hid hC =>
    subst hid
    cases hadv
    exact .inr ⟨job, atFront, now, rfl, hC, rfl, rfl⟩

/-- What an eviction or a removal does to the job. -/
structure Removed (name : QueueName) (id : JobId) (c : RegistryCall) (s s' : Store) : Prop where
  hash : s'.val (.job id) = s.val (.job id)
  log : s'.val .log = s.val .log
  gone (score : Score) (hscore : (s.val (.registry .failed name)).score id = some score)
    (htarget : c.Targets id score) : (s'.val (.registry .failed name)).score id = none
  kept (hnot : ∀ score, (s.val (.registry .failed name)).score id = some score →
    ¬c.Targets id score) :
    (s'.val (.registry .failed name)).score id = (s.val (.registry .failed name)).score id

lemma advance_removes (hc : c.removes = true) (hadv : (c.prog name).advance s = some (p', s')) :
    p' = .ret () ∧ Removed name id c s s' := by
  cases c with
  | requeue => cases hc
  | requeueId => cases hc
  | jobRequeue => cases hc
  | cleanup timestamp =>
    cases hadv
    refine ⟨rfl, by simp, by simp, fun score hscore htarget => ?_, fun hnot => ?_⟩
    · have hrange : ZSet.inRange ((0 : ℤ) : Score) timestamp (id, score) = true := by
        simpa [ZSet.inRange, RegistryCall.Targets] using htarget
      rw [Command.val_alter, Function.update_self, ZSet.score_removeRange, hscore]
      simp only [Option.filter_some, hrange]
      rfl
    · simp only [Command.val_alter, Function.update_self, ZSet.score_removeRange]
      cases hscore : (s.val (.registry .failed name)).score id with
      | none => rfl
      | some score =>
        have hrange : ZSet.inRange ((0 : ℤ) : Score) timestamp (id, score) = false := by
          rw [← Bool.not_eq_true]
          exact fun htrue => hnot score hscore
            (by simpa [ZSet.inRange, RegistryCall.Targets] using htrue)
        simp only [Option.filter_some, hrange]
        rfl
  | remove id' =>
    cases hadv
    refine ⟨rfl, by simp, by simp, fun score hscore htarget => ?_, fun hnot => ?_⟩
    · obtain rfl : id' = id := htarget
      simp [ZSet.score_remove]
    · by_cases hid : id' = id
      · -- the job is not there
        have hnone : (s.val (.registry .failed name)).score id = none := by
          rw [Option.eq_none_iff_forall_not_mem]
          exact fun score hscore => hnot score hscore hid
        simp [ZSet.score_remove, hid, hnone]
      · simp [ZSet.score_remove, Ne.symm hid]

end Calls

/-! ## What has become of the job -/

/-- The pushes of the job. -/
def pushesOf (id : JobId) (s : Store) : List Push := (s.val .log).filter fun push => push.id = id

/-- What is left of a requeue that comes too late. -/
def Losing (name : QueueName) (id : JobId) (h : JobHash) (p : Redis Unit) : Prop :=
  Trying name id h (fun _ => True) p ∨ p = .throw (.invalidJobOperation "")

/-- What is left of the call that has taken the job from the registry. -/
inductive Winning (origin : QueueName) (id : JobId) (s₀ s : Store) : Redis Unit → Prop
  | saving (job : Job) (atFront : Bool) (now : Time) (hid : job.id = id)
      (horigin : job.origin = origin) (hpushes : pushesOf id s = pushesOf id s₀) :
      Winning origin id s₀ s (savingProg job atFront now)
  | pushing (job : Job) (atFront : Bool) (now : Time) (hid : job.id = id)
      (horigin : job.origin = origin) (hpushes : pushesOf id s = pushesOf id s₀) :
      Winning origin id s₀ s (pushingProg job atFront now)
  | returned (hpushes : pushesOf id s = pushesOf id s₀ ++ [⟨queueKey origin, id⟩])
      (hstatus : (s.val (.job id)).status = some .queued)
      (hstarted : (s.val (.job id)).startedAt = some none)
      (hended : (s.val (.job id)).endedAt = some none) : Winning origin id s₀ s (.ret ())

section Course
variable {ι : Type} [DecidableEq ι] (calls : ι → RegistryCall) (name : QueueName) (id : JobId)
  (s₀ : Store)

/-- A call of `cleanup` or `remove` takes the job from the registry. -/
def evicts (e : System.Event ι Store) : Bool :=
  (calls e.proc).removes && decide (id ∈ e.before.val (.registry .failed name) ∧
    id ∉ e.after.val (.registry .failed name))

/-- The times that the job was evicted or removed. -/
def evictions (es : List (System.Event ι Store)) : ℕ := es.countP (evicts calls name id)

/-- The job is in the registry, or one call has taken it, or it has been evicted. The `Option` is the
call that has taken the job, the number that of the evictions. -/
inductive Fate (P : System ι Store PyError) : Option ι → ℕ → Prop
  | present
      (hscore : (P.store.val (.registry .failed name)).score id =
        (s₀.val (.registry .failed name)).score id)
      (hhash : P.store.val (.job id) = s₀.val (.job id))
      (hpushes : pushesOf id P.store = pushesOf id s₀)
      (htrying : ∀ i, (calls i).Requeues id → Trying name id (s₀.val (.job id))
        (fun job => job.origin = (calls i).queue s₀) (P.procs i))
      (hstart : ∀ i score, (calls i).removes = true →
        (s₀.val (.registry .failed name)).score id = some score → (calls i).Targets id score →
        P.procs i = (calls i).prog name) : Fate P none 0
  | requeued (w : ι)
      (habsent : (P.store.val (.registry .failed name)).score id = none)
      (hdata : (P.store.val (.job id)).data.isSome) (hw : (calls w).Requeues id)
      (hwinning : Winning ((calls w).queue s₀) id s₀ P.store (P.procs w))
      (hlosing : ∀ i ≠ w, (calls i).Requeues id →
        Losing name id (s₀.val (.job id)) (P.procs i)) : Fate P (some w) 0
  | evicted
      (habsent : (P.store.val (.registry .failed name)).score id = none)
      (hdata : (P.store.val (.job id)).data.isSome)
      (hpushes : pushesOf id P.store = pushesOf id s₀)
      (hlosing : ∀ i, (calls i).Requeues id → Losing name id (s₀.val (.job id)) (P.procs i)) :
      Fate P none 1

/-- The calls that have requeued the job and returned. -/
def returnedCalls (P : System ι Store PyError) : Set ι :=
  {i | (calls i).Requeues id ∧ P.procs i = .ret ()}

/-- What is to hold of a job of the registry, with the given score, after the steps `es`. -/
structure Conserved (score : Score) (es : List (System.Event ι Store)) (P : System ι Store PyError) :
    Prop where
  atMostOne : (returnedCalls calls id P).encard + evictions calls name id es ≤ 1
  /-- Every push is that of a call that has returned. -/
  pushes : ∃ new, pushesOf id P.store = pushesOf id s₀ ++ new ∧
    (returnedCalls calls id P).encard = new.length ∧
      ∀ push ∈ new, ∃ i ∈ returnedCalls calls id P, push = ⟨queueKey ((calls i).queue s₀), id⟩
  exactlyOne (hreturned : ∀ i, (P.procs i).Returned) (htarget : ∃ i, (calls i).Targets id score) :
    (returnedCalls calls id P).encard + evictions calls name id es = 1
  others (i : ι) (hi : (calls i).Requeues id) (hnot : i ∉ returnedCalls calls id P)
    (hreturned : (P.procs i).Returned) : P.procs i = .throw (.invalidJobOperation "") ∧
      ∀ e ∈ es, e.proc = i → e.after = e.before
  stored (i : ι) (hi : i ∈ returnedCalls calls id P) :
    (P.store.val (.job id)).status = some .queued ∧
      (P.store.val (.job id)).startedAt = some none ∧ (P.store.val (.job id)).endedAt = some none

/-- What holds after the steps `es`; `w` is the call that has taken the job. -/
structure RequeueCourse (es : List (System.Event ι Store)) (P : System ι Store PyError) (w : Option ι) :
    Prop where
  elsewhere (i : ι) (hi : ¬(calls i).Requeues id) : Elsewhere name id (calls i) (P.procs i)
  idle (i : ι) (hi : (calls i).Requeues id) (hw : w ≠ some i) (e : System.Event ι Store)
    (he : e ∈ es) (hproc : e.proc = i) : e.after = e.before
  fate : Fate calls name id s₀ P w (evictions calls name id es)

end Course

section Steps
variable {name origin : QueueName} {id : JobId} {h : JobHash} {c : RegistryCall}
  {p p' : Redis Unit} {s s' s₀ : Store}

/-- Removing what is not there changes nothing. -/
lemma zrem_absent (habsent : (s.val (.registry .failed name)).score id = none) :
    (zrem .failed name id).run s = s := by
  have hmem : id ∉ s.val (.registry .failed name) := ZSet.score_eq_none.mp habsent
  unfold zrem Command.alter
  dsimp only
  rw [if_pos (ZSet.remove_eq_self_iff.mpr hmem)]

lemma Spares.pushes (hs : Spares name id s s') : pushesOf id s' = pushesOf id s := by
  obtain ⟨new, hnew, hne⟩ := hs.log
  have hnil : new.filter (fun push => push.id = id) = [] :=
    List.filter_eq_nil_iff.mpr fun push hpush => by simpa using hne push hpush
  rw [pushesOf, pushesOf, hnew, List.filter_append, hnil, List.append_nil]

lemma Removed.pushes (hs : Removed name id c s s') : pushesOf id s' = pushesOf id s := by
  rw [pushesOf, pushesOf, hs.log]

lemma Losing.advance (hl : Losing name id h p) (hdata : (s.val (.job id)).data.isSome)
    (habsent : (s.val (.registry .failed name)).score id = none)
    (hadv : p.advance s = some (p', s')) : s' = s ∧ Losing name id h p' := by
  rcases hl with ht | rfl
  · rcases ht.advance hdata (.inr fun _ => trivial) hadv with ⟨hs, ht'⟩ | ⟨job, atFront, now, -, -,
      hs, hp⟩
    · exact ⟨hs, .inl ht'⟩
    · -- the registry does not have the job any more
      rw [if_pos (ZSet.score_eq_none.mp habsent)] at hp
      exact ⟨hs.trans (zrem_absent habsent), .inr hp⟩
  · cases hadv

lemma Trying.losing {C : Job → Prop} (ht : Trying name id h C p) : Losing name id h p := by
  cases ht with
  | fetching atFront now hC => exact .inl (.fetching atFront now fun _ _ => trivial)
  | taking job atFront now hid hC => exact .inl (.taking job atFront now hid trivial)

/-- The others do not take back what the call has done. -/
lemma Winning.congr (hw : Winning origin id s₀ s p) (hpushes : pushesOf id s' = pushesOf id s)
    (hhash : s'.val (.job id) = s.val (.job id)) : Winning origin id s₀ s' p := by
  cases hw with
  | saving job atFront now hid horigin hp =>
    exact .saving job atFront now hid horigin (hpushes.trans hp)
  | pushing job atFront now hid horigin hp =>
    exact .pushing job atFront now hid horigin (hpushes.trans hp)
  | returned hp hstatus hstarted hended =>
    exact .returned (hpushes.trans hp) (by rw [hhash, hstatus]) (by rw [hhash, hstarted])
      (by rw [hhash, hended])

lemma hash_enqueueCommands (queue : Queue) (job : Job) (atFront : Bool) (now : Time) (s : Store) :
    ((Command.seq (enqueueCommands queue job atFront now)).run s).val (.job job.id) =
      (s.val (.job job.id)).requeued queue job now := by
  simp [val_enqueueCommands]

/-- A call that has taken the job saves it, pushes it and returns. -/
lemma Winning.advance (hw : Winning origin id s₀ s p) (hdata : (s.val (.job id)).data.isSome)
    (hadv : p.advance s = some (p', s')) :
    Winning origin id s₀ s' p' ∧ (s'.val (.job id)).data.isSome ∧
      (s'.val (.registry .failed name)).score id = (s.val (.registry .failed name)).score id := by
  cases hw with
  | saving job atFront now hid horigin hp =>
    subst hid
    cases hadv
    exact ⟨.pushing job atFront now rfl horigin (by simpa [pushesOf] using hp),
      by simp [JobHash.update, Job.toDict], by simp⟩
  | pushing job atFront now hid horigin hp =>
    subst hid
    cases hadv
    have hhash : ((Command.seq (enqueueCommands { name := job.origin } job.cleared atFront now)).run
        s).val (.job job.id) =
          (s.val (.job job.id)).requeued { name := job.origin } job.cleared now :=
      hash_enqueueCommands _ job.cleared atFront now s
    refine ⟨.returned ?_ ?_ ?_ ?_, ?_, ?_⟩
    · -- the push is the last entry of the log
      have hpush : (⟨({ name := job.origin } : Queue).key, job.cleared.id⟩ : Push) =
          ⟨queueKey origin, job.id⟩ := by
        rw [← horigin]
        rfl
      simpa [pushesOf, val_enqueueCommands, hpush] using hp
    · simp [hhash, JobHash.requeued, JobHash.update, Job.toDict]
    · rw [hhash]
      rfl
    · rw [hhash]
      rfl
    · simp [hhash, JobHash.requeued, JobHash.update, Job.toDict]
    · simp [val_enqueueCommands]
  | returned => cases hadv

/-- What a step of a call that does not requeue the job does to it. -/
lemma Elsewhere.advance (he : Elsewhere name id c p) (hadv : p.advance s = some (p', s')) :
    Elsewhere name id c p' ∧
      ((c.removes = false ∧ Spares name id s s') ∨ (c.removes = true ∧ Removed name id c s s')) := by
  cases he with
  | start hc =>
    obtain ⟨rfl, hremoved⟩ := @advance_removes name id _ _ _ _ hc hadv
    exact ⟨.done hc, .inr ⟨hc, hremoved⟩⟩
  | done hc => cases hadv
  | spares hc hp =>
    have hrefl : ∀ s, Spares name id s s := fun s => ⟨rfl, rfl, [], by simp, by simp⟩
    obtain ⟨-, hspares, hp'⟩ := hp.advance hrefl trivial hadv
    exact ⟨.spares hc hp', .inl ⟨hc, hspares⟩⟩

end Steps

section Runs
variable {ι : Type} [DecidableEq ι] {calls : ι → RegistryCall} {name : QueueName} {id : JobId}
  {s₀ : Store} {P P' : System ι Store PyError} {i : ι} {w : Option ι} {n : ℕ} {score : Score}
  {es : List (System.Event ι Store)}

/-- A step of a call that requeues the job. -/
lemma Fate.requeue (hf : Fate calls name id s₀ P w n) (hdata : (s₀.val (.job id)).data.isSome)
    (hscore : (s₀.val (.registry .failed name)).score id = some score)
    (hi : (calls i).Requeues id) (hs : System.Step i P P') :
    ∃ w', Fate calls name id s₀ P' w' n ∧ (∀ j, w = some j → w' = some j) ∧
      (w' ≠ some i → P'.store = P.store) := by
  have hadv := hs.advance_eq
  have hother := fun j hj => hs.procs_of_ne (j := j) hj
  cases hf with
  | present hsc hhash hpushes htrying hstart =>
    have hdata' : (P.store.val (.job id)).data.isSome := by rw [hhash, hdata]
    rcases (htrying i hi).advance hdata' (.inl hhash) hadv with
      ⟨hstore, ht⟩ | ⟨job, atFront, now, hid, horigin, hstore, hp⟩
    · refine ⟨none, ?_, by simp, fun _ => hstore⟩
      refine .present (by rw [hstore, hsc]) (by rw [hstore, hhash]) (by rw [hstore, hpushes]) ?_ ?_
      · intro j hj
        by_cases hji : j = i
        · exact hji ▸ ht
        · exact hother j hji ▸ htrying j hj
      · intro j sc hj hsc htarget
        have hji : j ≠ i := fun h => by
          rw [h, RegistryCall.removes_of_requeues hi] at hj
          cases hj
        exact (hother j hji).trans (hstart j sc hj hsc htarget)
    · -- the call takes the job
      have hmem : id ∈ P.store.val (.registry .failed name) := by
        by_contra hmem
        rw [ZSet.score_eq_none.mpr hmem, hscore] at hsc
        cases hsc
      rw [if_neg (not_not_intro hmem)] at hp
      refine ⟨some i, ?_, by simp, fun h => absurd rfl h⟩
      refine .requeued i ?_ ?_ hi ?_ ?_
      · simp [hstore, ZSet.score_remove]
      · simpa [hstore] using hdata'
      · rw [hp]
        exact .saving job atFront now hid horigin (by simpa [hstore, pushesOf] using hpushes)
      · intro j hji hj
        exact hother j hji ▸ (htrying j hj).losing
  | requeued v habsent hdata' hv hwinning hlosing =>
    by_cases hiv : i = v
    · subst hiv
      obtain ⟨hw, hd, hsc⟩ := @Winning.advance name _ _ _ _ _ _ _ hwinning hdata' hadv
      refine ⟨some i, .requeued i (hsc.trans habsent) hd hi hw ?_, by simp, fun h => absurd rfl h⟩
      intro j hji hj
      exact hother j hji ▸ hlosing j hji hj
    · obtain ⟨hstore, hl⟩ := (hlosing i hiv hi).advance hdata' habsent hadv
      refine ⟨some v, ?_, by simp, fun _ => hstore⟩
      refine .requeued v (by rw [hstore, habsent]) (by rw [hstore, hdata']) hv ?_ ?_
      · rw [hother v (Ne.symm hiv), hstore]
        exact hwinning
      · intro j hjv hj
        by_cases hji : j = i
        · exact hji ▸ hl
        · exact hother j hji ▸ hlosing j hjv hj
  | evicted habsent hdata' hpushes hlosing =>
    obtain ⟨hstore, hl⟩ := (hlosing i hi).advance hdata' habsent hadv
    refine ⟨none, ?_, by simp, fun _ => hstore⟩
    refine .evicted (by rw [hstore, habsent]) (by rw [hstore, hdata']) (by rw [hstore, hpushes]) ?_
    intro j hj
    by_cases hji : j = i
    · exact hji ▸ hl
    · exact hother j hji ▸ hlosing j hj

/-- A step of a call that does not. -/
lemma Fate.elsewhere (hf : Fate calls name id s₀ P w n) (hdata : (s₀.val (.job id)).data.isSome)
    (hscore : (s₀.val (.registry .failed name)).score id = some score)
    (hi : ¬(calls i).Requeues id) (hs : System.Step i P P')
    (heffect : ((calls i).removes = false ∧ Spares name id P.store P'.store) ∨
      ((calls i).removes = true ∧ Removed name id (calls i) P.store P'.store)) :
    Fate calls name id s₀ P' w
      (n + if evicts calls name id ⟨i, P.store, P'.store⟩ then 1 else 0) := by
  have hother := fun j hj => hs.procs_of_ne (j := j) hj
  have hne : ∀ j, (calls j).Requeues id → j ≠ i := fun j hj h => hi (h ▸ hj)
  -- a step that spares the job does not take it
  have hspares : ∀ (hc : (calls i).removes = false),
      evicts calls name id ⟨i, P.store, P'.store⟩ = false := fun hc => by simp [evicts, hc]
  -- nor does one that finds it taken
  have habsents : ∀ (h : (P.store.val (.registry .failed name)).score id = none),
      evicts calls name id ⟨i, P.store, P'.store⟩ = false := fun h => by
    have hmem := ZSet.score_eq_none.mp h
    simp [evicts, hmem]
  -- what both kinds of steps do not change
  have hhash' : P'.store.val (.job id) = P.store.val (.job id) := by
    rcases heffect with ⟨-, h⟩ | ⟨-, h⟩ <;> exact h.hash
  have hpushes' : pushesOf id P'.store = pushesOf id P.store := by
    rcases heffect with ⟨-, h⟩ | ⟨-, h⟩ <;> exact h.pushes
  have hstays (h : (P.store.val (.registry .failed name)).score id = none) :
      (P'.store.val (.registry .failed name)).score id = none := by
    rcases heffect with ⟨-, hs⟩ | ⟨-, hr⟩
    · rw [hs.score, h]
    · rw [hr.kept (by simp [h]), h]
  cases hf with
  | present hsc hhash hpushes htrying hstart =>
    have htrying' : ∀ j, (calls j).Requeues id → Trying name id (s₀.val (.job id))
        (fun job => job.origin = (calls j).queue s₀) (P'.procs j) :=
      fun j hj => hother j (hne j hj) ▸ htrying j hj
    rcases heffect with ⟨hc, hs⟩ | ⟨hc, hr⟩
    · rw [hspares hc]
      refine .present (hs.score.trans hsc) (hhash'.trans hhash) (hpushes'.trans hpushes) htrying' ?_
      intro j sc hj hsc htarget
      have hji : j ≠ i := fun h => by
        rw [h, hc] at hj
        cases hj
      exact (hother j hji).trans (hstart j sc hj hsc htarget)
    · by_cases htarget : (calls i).Targets id score
      · -- the job is evicted
        have hgone := hr.gone score (hsc.trans hscore) htarget
        have hmem : id ∈ P.store.val (.registry .failed name) := by
          by_contra hmem
          rw [ZSet.score_eq_none.mpr hmem, hscore] at hsc
          cases hsc
        have hevicts : evicts calls name id ⟨i, P.store, P'.store⟩ = true := by
          simp [evicts, hc, hmem, ZSet.score_eq_none.mp hgone]
        rw [hevicts]
        refine .evicted hgone (by rw [hhash', hhash, hdata]) (hpushes'.trans hpushes) ?_
        exact fun j hj => (htrying' j hj).losing
      · have hkept := hr.kept fun sc hsc' => by
          rw [hsc, hscore] at hsc'
          cases hsc'
          exact htarget
        have hevicts : evicts calls name id ⟨i, P.store, P'.store⟩ = false := by
          have hmem : id ∈ P'.store.val (.registry .failed name) := by
            by_contra hmem
            rw [ZSet.score_eq_none.mpr hmem, hsc, hscore] at hkept
            cases hkept
          simp [evicts, hmem]
        rw [hevicts]
        refine .present (hkept.trans hsc) (hhash'.trans hhash) (hpushes'.trans hpushes) htrying' ?_
        intro j sc hj hsc htarget'
        have hji : j ≠ i := fun h => by
          rw [hscore] at hsc
          cases hsc
          exact htarget (h ▸ htarget')
        exact (hother j hji).trans (hstart j sc hj hsc htarget')
  | requeued v habsent hdata' hv hwinning hlosing =>
    rw [habsents habsent]
    refine .requeued v (hstays habsent) (by rw [hhash', hdata']) hv ?_ ?_
    · rw [hother v (hne v hv)]
      exact hwinning.congr hpushes' hhash'
    · exact fun j hjv hj => hother j (hne j hj) ▸ hlosing j hjv hj
  | evicted habsent hdata' hpushes hlosing =>
    rw [habsents habsent]
    refine .evicted (hstays habsent) (by rw [hhash', hdata']) (hpushes'.trans hpushes) ?_
    exact fun j hj => hother j (hne j hj) ▸ hlosing j hj

omit [DecidableEq ι] in
lemma evictions_append (e : System.Event ι Store) :
    evictions calls name id (es ++ [e]) =
      evictions calls name id es + if evicts calls name id e then 1 else 0 := by
  simp [evictions, List.countP_append, List.countP_cons]

/-- **One step.** -/
lemma RequeueCourse.step (hc : RequeueCourse calls name id s₀ es P w)
    (hdata : (s₀.val (.job id)).data.isSome)
    (hscore : (s₀.val (.registry .failed name)).score id = some score)
    (hs : System.Step i P P') :
    ∃ w', RequeueCourse calls name id s₀ (es ++ [⟨i, P.store, P'.store⟩]) P' w' := by
  have hother := fun j hj => hs.procs_of_ne (j := j) hj
  by_cases hi : (calls i).Requeues id
  · obtain ⟨w', hfate, hkeep, hidle⟩ := hc.fate.requeue hdata hscore hi hs
    refine ⟨w', ?_, ?_, ?_⟩
    · intro j hj
      have hji : j ≠ i := fun h => hj (h ▸ hi)
      exact hother j hji ▸ hc.elsewhere j hj
    · intro j hj hw' e he hproc
      rcases List.mem_append.mp he with he | he
      · exact hc.idle j hj (fun hw => hw' (hkeep j hw)) e he hproc
      · obtain rfl := List.mem_singleton.mp he
        obtain rfl : i = j := hproc
        exact hidle hw'
    · have hevicts : evicts calls name id ⟨i, P.store, P'.store⟩ = false := by
        simp [evicts, RegistryCall.removes_of_requeues hi]
      rw [evictions_append, hevicts]
      exact hfate
  · obtain ⟨helsewhere, heffect⟩ := (hc.elsewhere i hi).advance hs.advance_eq
    refine ⟨w, ?_, ?_, ?_⟩
    · intro j hj
      by_cases hji : j = i
      · exact hji ▸ helsewhere
      · exact hother j hji ▸ hc.elsewhere j hj
    · intro j hj hw e he hproc
      rcases List.mem_append.mp he with he | he
      · exact hc.idle j hj hw e he hproc
      · obtain rfl := List.mem_singleton.mp he
        obtain rfl : i = j := hproc
        exact absurd hj hi
    · rw [evictions_append]
      exact hc.fate.elsewhere hdata hscore hi hs heffect

/-! ## Every interleaving -/

lemma Trying.not_returned {h : JobHash} {C : Job → Prop} {p : Redis Unit}
    (ht : Trying name id h C p) : ¬p.Returned := by
  rintro (⟨a, hp⟩ | ⟨e, hp⟩) <;> cases ht <;> cases hp

lemma Losing.eq_throw {h : JobHash} {p : Redis Unit} (hl : Losing name id h p)
    (hp : p.Returned) : p = .throw (.invalidJobOperation "") :=
  hl.resolve_left fun ht => ht.not_returned hp

lemma Losing.ne_ret {h : JobHash} {p : Redis Unit} (hl : Losing name id h p) : p ≠ .ret () :=
  fun hp => by
    have hthrow := hl.eq_throw (.inl ⟨(), hp⟩)
    rw [hp] at hthrow
    cases hthrow

/-- Until the call returns it has not pushed the job. -/
lemma Winning.not_returned {origin : QueueName} {s : Store} {p : Redis Unit}
    (hw : Winning origin id s₀ s p) (hp : p ≠ .ret ()) :
    ¬p.Returned ∧ pushesOf id s = pushesOf id s₀ := by
  cases hw with
  | saving job atFront now hid horigin hpushes =>
    refine ⟨?_, hpushes⟩
    rintro (⟨a, h⟩ | ⟨e, h⟩) <;> cases h
  | pushing job atFront now hid horigin hpushes =>
    refine ⟨?_, hpushes⟩
    rintro (⟨a, h⟩ | ⟨e, h⟩) <;> cases h
  | returned => exact absurd rfl hp

lemma not_returned_of_removes {c : RegistryCall} (hc : c.removes = true) :
    ¬(c.prog name).Returned := by
  cases c with
  | requeue => cases hc
  | requeueId => cases hc
  | jobRequeue => cases hc
  | cleanup => rintro (⟨a, h⟩ | ⟨e, h⟩) <;> cases h
  | remove => rintro (⟨a, h⟩ | ⟨e, h⟩) <;> cases h

lemma requeues_or_removes {c : RegistryCall} (h : c.Targets id score) :
    c.Requeues id ∨ c.removes = true := by
  cases c with
  | requeue => exact .inl h
  | requeueId => exact .inl h
  | jobRequeue => exact .inl h
  | cleanup => exact .inr rfl
  | remove => exact .inr rfl

lemma RequeueCourse.conserved (hc : RequeueCourse calls name id s₀ es P w)
    (hscore : (s₀.val (.registry .failed name)).score id = some score) :
    Conserved calls name id s₀ score es P := by
  obtain ⟨helsewhere, hidle, hfate⟩ := hc
  generalize hn : evictions calls name id es = n at hfate
  cases hfate with
  | present hsc hhash hpushes htrying hstart =>
    have hnone : returnedCalls calls id P = ∅ := by
      rw [Set.eq_empty_iff_forall_notMem]
      exact fun i hi => (htrying i hi.1).not_returned (.inl ⟨(), hi.2⟩)
    refine ⟨by simp [hnone, hn], ⟨[], by simp [hpushes], by simp [hnone], by simp⟩, ?_, ?_, ?_⟩
    · intro hreturned htarget
      -- a call that is about the job has not returned
      obtain ⟨i, hi⟩ := htarget
      rcases requeues_or_removes hi with hr | hr
      · exact absurd (hreturned i) (htrying i hr).not_returned
      · have hprog := hstart i score hr hscore hi
        exact absurd (hprog ▸ hreturned i) (not_returned_of_removes hr)
    · exact fun i hi _ hreturned => absurd hreturned (htrying i hi).not_returned
    · exact fun i hi => absurd (hnone ▸ hi) (Set.notMem_empty i)
  | requeued v habsent hdata hv hwinning hlosing =>
    have hothers : ∀ i, i ∈ returnedCalls calls id P → i = v := by
      intro i hi
      by_contra hne
      exact (hlosing i hne hi.1).ne_ret hi.2
    have hloses : ∀ i, (calls i).Requeues id → i ∉ returnedCalls calls id P →
        (P.procs i).Returned → P.procs i = .throw (.invalidJobOperation "") ∧
          ∀ e ∈ es, e.proc = i → e.after = e.before := by
      intro i hi hnot hreturned
      have hne : i ≠ v := fun h => by
        subst h
        exact (hwinning.not_returned fun hret => hnot ⟨hi, hret⟩).1 hreturned
      exact ⟨(hlosing i hne hi).eq_throw hreturned,
        hidle i hi fun hw => hne (Option.some.inj hw).symm⟩
    by_cases hret : P.procs v = .ret ()
    · have hone : returnedCalls calls id P = {v} :=
        Set.eq_singleton_iff_unique_mem.mpr ⟨⟨hv, hret⟩, hothers⟩
      rw [hret] at hwinning
      cases hwinning with
      | returned hpushes hstatus hstarted hended =>
        refine ⟨by simp [hone, hn], ⟨_, hpushes, by simp [hone], ?_⟩, ?_, hloses, ?_⟩
        · intro push hpush
          exact ⟨v, ⟨hv, hret⟩, List.mem_singleton.mp hpush⟩
        · exact fun _ _ => by simp [hone, hn]
        · exact fun _ _ => ⟨hstatus, hstarted, hended⟩
    · have hnone : returnedCalls calls id P = ∅ := by
        rw [Set.eq_empty_iff_forall_notMem]
        exact fun i hi => hret (hothers i hi ▸ hi.2)
      obtain ⟨hrunning, hpushes⟩ := hwinning.not_returned hret
      refine ⟨by simp [hnone, hn], ⟨[], by simp [hpushes], by simp [hnone], by simp⟩, ?_, hloses, ?_⟩
      · exact fun hreturned _ => absurd (hreturned v) hrunning
      · exact fun i hi => absurd (hnone ▸ hi) (Set.notMem_empty i)
  | evicted habsent hdata hpushes hlosing =>
    have hnone : returnedCalls calls id P = ∅ := by
      rw [Set.eq_empty_iff_forall_notMem]
      exact fun i hi => (hlosing i hi.1).ne_ret hi.2
    refine ⟨by simp [hnone, hn], ⟨[], by simp [hpushes], by simp [hnone], by simp⟩, ?_, ?_, ?_⟩
    · exact fun _ _ => by simp [hnone, hn]
    · exact fun i hi _ hreturned => ⟨(hlosing i hi).eq_throw hreturned, hidle i hi (by simp)⟩
    · exact fun i hi => absurd (hnone ▸ hi) (Set.notMem_empty i)

end Runs

section Conservation
variable {ι : Type} [DecidableEq ι] {calls : ι → RegistryCall} {name : QueueName} {id : JobId}
  {s₀ : Store} {score : Score}

/-- **Of the requeues, the evictions and the removals of a job of the registry exactly one happens,**
in every interleaving. -/
theorem requeues_conserve (hon : ∀ i, (calls i).On name) (hdata : (s₀.val (.job id)).data.isSome)
    (hscore : (s₀.val (.registry .failed name)).score id = some score)
    {es : List (System.Event ι Store)} {P : System ι Store PyError}
    (hpath : System.Path ⟨fun i => (calls i).prog name, s₀⟩ es P) :
    Conserved calls name id s₀ score es P := by
  have hcourse : ∃ w, RequeueCourse calls name id s₀ es P w := by
    refine System.Path.invariant
      (I := fun es P => ∃ w, RequeueCourse calls name id s₀ es P w) ?_ ?_ hpath
    · refine ⟨none, fun i hi => elsewhere_prog (hon i) hi, by simp, ?_⟩
      exact .present rfl rfl rfl (fun i hi => trying_prog (hon i) hi) fun _ _ _ _ _ => rfl
    · rintro es P P' i ⟨w, hc⟩ hs
      exact hc.step hdata hscore hs
  obtain ⟨w, hc⟩ := hcourse
  exact hc.conserved hscore

/-- A failed job. -/
def failedStore : Store :=
  (Command.seq [zadd .failed "q" "job" (5 : ℤ),
    hset "job" { data := some "f", status := some .failed }]).run Store.empty

/-- A client requeues it while another cleans the registry up. -/
def requeueAndCleanup (i : Bool) : RegistryCall :=
  if i then .requeueId "job" false 7 else .cleanup (9 : ℤ)

/-- The job is requeued, and the cleanup comes too late. -/
theorem requeues_conserve_once : ∃ es P,
    System.Path ⟨fun i => (requeueAndCleanup i).prog "q", failedStore⟩ es P ∧
      (returnedCalls requeueAndCleanup "job" P).encard +
        evictions requeueAndCleanup "q" "job" es = 1 := by
  have hon : ∀ i, (requeueAndCleanup i).On "q" := fun i => by
    cases i <;> trivial
  have hreaches := System.reaches_of_after
    (P := ⟨fun i => (requeueAndCleanup i).prog "q", failedStore⟩) [true, true, true, true, false] rfl
  obtain ⟨es, hpath⟩ := System.exists_path_of_reaches hreaches
  refine ⟨es, _, hpath, ?_⟩
  have hdata : (failedStore.val (.job "job")).data.isSome := by decide
  have hscore : (failedStore.val (.registry .failed "q")).score "job" = some (5 : ℤ) := by decide
  have hconserved := requeues_conserve hon hdata hscore hpath
  refine hconserved.exactlyOne (fun i => ?_) ⟨true, rfl⟩
  cases i
  · exact .inl ⟨(), rfl⟩
  · exact .inl ⟨(), rfl⟩

end Conservation

end RedisQueue
