import RedisQueue.WorkerFootprints

/-!
# Jobs that wait for a worker

A job without a time to live should not expire while it is in a queue or scheduled. Its hash gets
an expiry when it succeeds or fails, and only the beginning of the next execution clears it.

* `Event`: what clients, schedulers and workers do, each of which may stop half-way;
* `Event.requeues`, `Event.expires`: the events that make a job wait and that let it expire;
* `pending_persists`: the hash of a waiting job has no expiry, in every run in which no event does
  either at the wrong time;
* `requeued_expires`: a failed job that is requeued still expires.
-/

namespace RedisQueue

open Prog

/-! ## Runs -/

/-- The methods that move jobs, with their arguments. The objects are those of the callers, however
old. `start` is the beginning of `perform_job`, `succeed` one iteration of `handle_job_success`. -/
inductive Event where
  | enqueue (queue : Queue) (job : Job) (atFront unique : Bool) (now : Time) (fuel : ℕ)
  | schedule (queue : Queue) (job : Job) (datetime : Time) (unique : Bool) (now : Time)
  | requeue (kind : RegistryKind) (name : QueueName) (job : Job) (atFront : Bool) (now : Time)
  | tick (queue : Queue) (now : Time)
  | dequeue (version : ℕ × ℕ × ℕ) (queueKeys : List String) (timeout : Option ℕ) (fuel : ℕ)
  | prepare (worker : Worker) (job : Job) (id : ExecutionId) (now : Time)
  | start (worker : Worker) (job : Job) (now : Time)
  | ended (job : Job) (now : Time)
  | succeed (worker : Worker) (job : Job) (queue : Queue) (now : Time)
  | retried (worker : Worker) (job : Job) (queue : Queue) (retry : Retry) (execution : Execution)
      (now : Time) (fuel : ℕ)
  | fail (worker : Worker) (job : Job) (queue : Queue) (excString : String) (now : Time) (fuel : ℕ)
  | monitor (worker : Worker) (job : Job) (queue : Queue) (retVal : ℤ)
      (stoppedCallback killedHandler : Option String) (startedAt now : Time) (fuel : ℕ)

namespace Event

def program : Event → Redis Unit
  | enqueue queue job atFront unique now fuel => do
    let _ ← queue.enqueueJob job none atFront unique now fuel
  | schedule queue job datetime unique now => do
    let _ ← queue.scheduleJob job datetime none unique now
  | requeue kind name job atFront now => do
    let _ ← Job.requeue kind name job atFront now
  | tick queue now => enqueueDueJobs queue now
  | dequeue version queueKeys timeout fuel => do
    let _ ← Queue.dequeueAny version queueKeys timeout fuel
  | prepare worker job id now => do
    let _ ← worker.prepareExecution job id now
  | start worker job now => do
    let (_, job) ← worker.prepareJobExecution job (worker.queues.length = 1) now
    Prog.perform (Command.persist (.job job.id)).run
  | ended job now => do
    let _ ← Worker.handleExecutionEnded job now
  | succeed worker job queue now => do
    let (_, _, pipeline) ← worker.handleJobSuccessAttempt job queue now
    let _ ← (pipeline.getD {}).execute
  | retried worker job queue retry execution now fuel => do
    let _ ← worker.handleJobRetry job queue retry execution now fuel
  | fail worker job queue excString now fuel => do
    let _ ← worker.handleJobFailure job queue excString now fuel
  | monitor worker job queue retVal stoppedCallback killedHandler startedAt now fuel => do
    let _ ← worker.monitorWorkHorse job queue retVal stoppedCallback killedHandler startedAt now fuel

/-- The job that the event is about, if it is about one. -/
def subject : Event → Option Job
  | enqueue _ job .. | schedule _ job .. | requeue _ _ job .. | prepare _ job .. | start _ job _
  | ended job _ | succeed _ job .. | retried _ job .. | fail _ job .. | monitor _ job .. => some job
  | tick .. | dequeue .. => none

/-- The event changes nothing in this state. -/
def inert (s : Store) : Event → Prop
  | enqueue _ job _ unique _ _ | schedule _ job _ unique _ =>
    unique = true ∧ s.val (.job job.id) ≠ default
  | requeue kind name job .. => job.id ∉ s.val (.registry kind name)
  | monitor worker job _ retVal stoppedCallback killedHandler .. =>
    ¬worker.handlesDeath job retVal stoppedCallback killedHandler s
  | _ => False

/-- The effects of the event. -/
def effects (I : Store → Prop) : Event → Effect → Prop
  | enqueue queue job .., e =>
    DeferEffect { job with origin := queue.name } e ∨ EnqueueEffect queue.name job e
  | schedule queue job .., e => ScheduleEffect queue.name job e
  | requeue _ _ job .., e => EnqueueEffect job.origin job e
  | tick queue now, e => TickEffect I queue.name now e
  | dequeue _ queueKeys .., e => ∃ key ∈ queueKeys, ∃ id, e = .hold key id
  | prepare .., _ => False
  | start _ job _, e => RunEffect job e
  | ended job _, e => RunEffect job e
  | succeed worker job queue _, e => SuccessEffect I worker queue.name job e
  | retried _ job queue retry .., e => JobRetryEffect I queue.name job retry e
  | fail worker job queue .., e => FailureEffect I worker queue.name job e
  | monitor worker job queue .., e => FailureEffect I worker queue.name job e

/-- An event that is not inert has only its effects. -/
theorem within {I : Store → Prop} {P : Effect → Prop} (hI : Stable I P) {s₀ : Store} (hs₀ : I s₀)
    {event : Event} (hP : ∀ s, I s → ¬event.inert s → ∀ e, event.effects I e → P e) :
    event.program.Within I (Via P) fun _ => True := by
  have hP₀ : (∀ s, ¬event.inert s) → ∀ e, event.effects I e → P e := fun h => hP s₀ hs₀ (h s₀)
  cases event with
  | enqueue queue job atFront unique now fuel =>
    rw [program, within_bind]
    cases unique with
    | true =>
      apply Queue.within_enqueueJobUnique hI
      · exact fun s hs hnew e he => hP s hs (fun h => h.2 hnew) e (.inr he)
      · exact fun _ _ _ _ => trivial
    | false =>
      have hP₀ := hP₀ fun s h => Bool.false_ne_true h.1
      apply Queue.within_enqueueJob hI Client.emits_none
      · exact fun e he => hP₀ e (.inl he)
      · exact fun e he => hP₀ e (.inr he)
      · exact fun _ _ _ _ => trivial
  | schedule queue job datetime unique now =>
    rw [program, within_bind]
    cases unique with
    | true =>
      apply Queue.within_scheduleUnique hI Client.emits_none
      · exact fun s hs hnew e he => hP s hs (fun h => h.2 hnew) e he
      · exact fun _ _ _ _ => trivial
    | false =>
      exact Queue.within_scheduleJob hI Client.emits_none
        (hP₀ fun s h => Bool.false_ne_true h.1) fun _ _ _ _ => trivial
  | requeue kind name job atFront now =>
    rw [program, within_bind]
    exact within_requeue hI (fun s hs hmem e he => hP s hs (not_not.mpr hmem) e he)
      fun _ _ => trivial
  | tick queue now => exact within_enqueueDueJobs hI (hP₀ fun _ => id) trivial
  | dequeue version queueKeys timeout fuel =>
    rw [program, within_bind]
    exact Queue.within_dequeueAny hI (fun key hkey id => hP₀ (fun _ h => h) _ ⟨key, hkey, id, rfl⟩)
      fun _ => trivial
  | prepare worker job id now =>
    rw [program, within_bind]
    exact Worker.within_prepareExecution hI fun _ => trivial
  | start worker job now =>
    simp only [program, within_bind]
    refine Worker.within_prepareJobExecution hI (hP₀ fun _ => id) fun _ job' _ => ?_
    exact within_emit hI (.benign (benign_persist _)) trivial
  | ended job now =>
    rw [program, within_bind]
    exact Worker.within_handleExecutionEnded hI (hP₀ fun _ => id) trivial
  | succeed worker job queue now =>
    simp only [program, within_bind]
    refine Worker.within_handleJobSuccessAttempt hI (hP₀ fun _ => id) fun _ _ client _ hclient => ?_
    exact within_execute hI hclient.getD fun _ => trivial
  | retried worker job queue retry execution now fuel =>
    rw [program, within_bind]
    exact Worker.within_handleJobRetry hI (hP₀ fun _ => id) fun _ _ _ => trivial
  | fail worker job queue excString now fuel =>
    rw [program, within_bind]
    exact Worker.within_handleJobFailure hI (hP₀ fun _ => id) fun _ _ _ => trivial
  | monitor worker job queue retVal stoppedCallback killedHandler startedAt now fuel =>
    rw [program, within_bind]
    exact Worker.within_monitorWorkHorse hI (fun s hs h e he => hP s hs (not_not.mpr h) e he)
      fun _ _ _ => trivial

end Event

/-! ## Jobs that wait -/

/-- The key is not that of an intermediate queue. -/
def IsQueueKey (key : String) : Prop := ∀ key', key ≠ intermediateQueueKey key'

/-- The job is in a queue or scheduled. -/
def Pending (id : JobId) (s : Store) : Prop :=
  (∃ key, IsQueueKey key ∧ id ∈ s.val (.list key)) ∨ ∃ name, id ∈ s.val (.registry .scheduled name)

/-- A waiting job does not expire, and has no time to live. -/
structure Persists (id : JobId) (s : Store) : Prop where
  clear : Pending id s → s.exp (.job id) = none
  ttl : (s.val (.job id)).ttl = none

lemma pending_of_benign {id : JobId} {c : Command Key Value} (h : Benign c) {s : Store}
    (hp : Pending id (c.run s)) : Pending id s := by
  obtain ⟨key, hkey, hid⟩ | ⟨name, hid⟩ := hp
  · exact .inl ⟨key, hkey, h.list s key id hid⟩
  · obtain ⟨score, he⟩ := ZSet.mem_iff_exists.mp hid
    exact .inr ⟨name, ZSet.mem_iff_exists.mpr ⟨score, h.registry s .scheduled name _ he⟩⟩

/-! ### Effects that do not make a job wait -/

/-- The job is not put in a queue or scheduled, and gets no dependency. -/
def Effect.LeavesIdle (id : JobId) : Effect → Prop
  | .push _ _ id' => id' ≠ id
  | .zadd kind _ id' _ => kind = .scheduled → id' ≠ id
  | .hset id' mapping => id' = id → mapping.ttl = none
  | .depend _ child => child ≠ id
  | _ => True

/-- The job does not wait, and will not be released by `parent`. -/
structure Idle (id : JobId) (parent : Option JobId) (s : Store) : Prop where
  idle : ¬Pending id s
  ttl : (s.val (.job id)).ttl = none
  dependents : ∀ p ∈ parent, id ∉ s.val (.dependents p)

lemma ttl_hset {id id' : JobId} {mapping : JobHash} {s : Store} (hm : id' = id → mapping.ttl = none)
    (hs : (s.val (.job id)).ttl = none) : (((hset id' mapping).run s).val (.job id)).ttl = none := by
  rw [val_hset]
  by_cases hid : id' = id
  · subst hid
    rw [Function.update_self]
    simp [JobHash.update, hm rfl, hs]
  · rwa [Function.update_of_ne fun h => hid (by simpa using h.symm)]

lemma Idle.of_val {id : JobId} {parent : Option JobId} {s s' : Store} (hs : Idle id parent s)
    (hlist : ∀ key, IsQueueKey key → id ∈ s'.val (.list key) → id ∈ s.val (.list key))
    (hscheduled : ∀ name, id ∈ s'.val (.registry .scheduled name) →
      id ∈ s.val (.registry .scheduled name))
    (hdependents : ∀ p, id ∈ s'.val (.dependents p) → id ∈ s.val (.dependents p))
    (httl : (s'.val (.job id)).ttl = none) : Idle id parent s' where
  idle hp := hs.idle <| by
    obtain ⟨key, hkey, hid⟩ | ⟨name, hid⟩ := hp
    · exact .inl ⟨key, hkey, hlist key hkey hid⟩
    · exact .inr ⟨name, hscheduled name hid⟩
  ttl := httl
  dependents p hp hid := hs.dependents p hp (hdependents p hid)

lemma stable_idle (id : JobId) (parent : Option JobId) :
    Stable (Idle id parent) (Effect.LeavesIdle id) := by
  intro c hc s hs
  refine hc.preserves (fun c h s hs => ?_) (fun e he s hs => ?_) hs
  · refine ⟨fun hp => hs.idle (pending_of_benign h hp), by rw [h.hash, hs.ttl], fun p hp hid => ?_⟩
    exact hs.dependents p hp (h.dependents s p id hid)
  · cases e with
    | hset id' mapping =>
      refine hs.of_val ?_ ?_ ?_ (ttl_hset he hs.ttl) <;>
      · intro _
        simp [Effect.command]
    | zadd kind name id' score =>
      refine hs.of_val (by simp [Effect.command]) (fun name' hid => ?_) (by simp [Effect.command])
        (by simpa [Effect.command] using hs.ttl)
      simp only [Effect.command, val_zadd] at hid
      by_cases hk : Key.registry .scheduled name' = .registry kind name
      · obtain ⟨rfl, rfl⟩ : .scheduled = kind ∧ name' = name := by simpa using hk
        rw [Function.update_self, ZSet.mem_add] at hid
        exact hid.resolve_right fun heq => he rfl heq.symm
      · rwa [Function.update_of_ne hk] at hid
    | push key atFront id' =>
      refine hs.of_val (fun key' _ hid => ?_) (by simp [Effect.command]) (by simp [Effect.command])
        (by simpa [Effect.command] using hs.ttl)
      simp only [Effect.command, val_push, ne_eq, reduceCtorEq, not_false_eq_true,
        Function.update_of_ne] at hid
      by_cases hk : Key.list key' = .list key
      · obtain rfl : key' = key := by simpa using hk
        rw [Function.update_self, mem_pushed] at hid
        exact hid.resolve_left fun heq => he heq.symm
      · rwa [Function.update_of_ne hk] at hid
    | hold key id' =>
      refine hs.of_val (fun key' hkey' hid => ?_) (by simp [Effect.command])
        (by simp [Effect.command]) (by simpa [Effect.command] using hs.ttl)
      have hk : Key.list key' ≠ .list (intermediateQueueKey key) := by simpa using hkey' key
      simpa [Effect.command, hk] using hid
    | expire id' t =>
      exact hs.of_val (by simp [Effect.command]) (by simp [Effect.command])
        (by simp [Effect.command]) (by simpa [Effect.command] using hs.ttl)
    | delete id' =>
      refine hs.of_val (by simp [Effect.command]) (by simp [Effect.command])
        (by simp [Effect.command]) ?_
      rw [Effect.command, Command.val_del]
      by_cases hk : Key.job id = .job id'
      · obtain rfl : id = id' := by simpa using hk
        rw [Function.update_self]
        rfl
      · rw [Function.update_of_ne hk, hs.ttl]
    | depend parent' child =>
      refine hs.of_val (by simp [Effect.command]) (by simp [Effect.command]) (fun p hid => ?_)
        (by simpa [Effect.command] using hs.ttl)
      simp only [Effect.command, Command.val_alter] at hid
      by_cases hk : Key.dependents p = .dependents parent'
      · obtain rfl : p = parent' := by simpa using hk
        rw [Function.update_self, RSet.mem_insert] at hid
        exact hid.resolve_right fun heq => he heq.symm
      · rwa [Function.update_of_ne hk] at hid

/-! ### Effects that do not let a job expire -/

def Effect.LeavesClear (id : JobId) : Effect → Prop
  | .expire id' _ => id' ≠ id
  | .hset id' mapping => id' = id → mapping.ttl = none
  | _ => True

/-- The hash of the job has no expiry. -/
structure Clear (id : JobId) (s : Store) : Prop where
  clear : s.exp (.job id) = none
  ttl : (s.val (.job id)).ttl = none

lemma stable_clear (id : JobId) : Stable (Clear id) (Effect.LeavesClear id) := by
  intro c hc s hs
  refine hc.preserves (fun c h s hs => ?_) (fun e he s hs => ?_) hs
  · refine ⟨?_, by rw [h.hash, hs.ttl]⟩
    obtain hexp | hexp := h.expiry s id
    · rw [hexp, hs.clear]
    · exact hexp
  · cases e with
    | hset id' mapping => exact ⟨Command.exp_put_of_none _ hs.clear, ttl_hset he hs.ttl⟩
    | zadd kind name id' score =>
      refine ⟨?_, by simpa [Effect.command] using hs.ttl⟩
      rw [Effect.command, zadd]
      exact Command.exp_alter_of_none _ hs.clear
    | push key atFront id' =>
      exact ⟨Command.exp_put_of_none _ (Command.exp_put_of_none _ hs.clear),
        by simpa [Effect.command] using hs.ttl⟩
    | hold key id' =>
      exact ⟨Command.exp_put_of_none _ hs.clear, by simpa [Effect.command] using hs.ttl⟩
    | expire id' t =>
      refine ⟨?_, by simpa [Effect.command] using hs.ttl⟩
      have hk : Key.job id ≠ .job id' := by simpa using he.symm
      rw [Effect.command, Command.keepsExp_expire hk, hs.clear]
    | delete id' =>
      refine ⟨?_, ?_⟩ <;> rw [Effect.command]
      · rw [Command.del]
        exact Command.exp_alter_of_none _ hs.clear
      rw [Command.val_del]
      by_cases hk : Key.job id = .job id'
      · obtain rfl : id = id' := by simpa using hk
        rw [Function.update_self]
        rfl
      · rw [Function.update_of_ne hk, hs.ttl]
    | depend parent child =>
      refine ⟨?_, by simpa [Effect.command] using hs.ttl⟩
      rw [Effect.command]
      exact Command.exp_alter_of_none _ hs.clear

/-! ## Which events make a job wait, and which let it expire -/

namespace Event

/-- The job whose dependents the event releases. -/
def releasing : Event → Option JobId
  | succeed _ job .. => some job.id
  | retried _ job _ retry .. => if job.retriesExceeded retry then some job.id else none
  | fail worker job .. | monitor worker job .. => if worker.retries job then none else some job.id
  | _ => none

/-- The event puts the job that it is about in a queue or schedules it. -/
def again (id : JobId) : Event → Prop
  | enqueue _ job .. | schedule _ job .. | requeue _ _ job .. => job.id = id
  | succeed _ job .. => job.id = id ∧ 0 < job.repeatsLeft.getD 0
  | retried _ job _ retry .. => job.id = id ∧ ¬job.retriesExceeded retry
  | fail worker job .. | monitor worker job .. => job.id = id ∧ worker.retries job = true
  | _ => False

/-- The event can make the job wait, itself or as a dependent. -/
def requeues (id : JobId) (s : Store) (event : Event) : Prop :=
  event.again id ∨ ∃ p ∈ event.releasing, id ∈ s.val (.dependents p)

/-- A failure that is not retried is kept for some time. -/
def expiresFailed (worker : Worker) (job : Job) : Prop :=
  worker.retries job = false ∧ worker.disableDefaultExceptionHandler = false ∧
    0 < job.failureTtl.getD Job.defaultFailureTtl

/-- The event sets the expiry of the job. -/
def expires (id : JobId) : Event → Prop
  | succeed worker job .. => job.id = id ∧ ¬0 < job.repeatsLeft.getD 0 ∧
      0 < job.getResultTtl worker.defaultResultTtl
  | retried _ job _ retry .. => job.id = id ∧ job.retriesExceeded retry ∧
      0 < job.failureTtl.getD Job.defaultFailureTtl
  | fail worker job .. | monitor worker job .. => job.id = id ∧ expiresFailed worker job
  | _ => False

/-- The objects that the event has of the job have no time to live. -/
def Untimed (id : JobId) (event : Event) : Prop := ∀ job ∈ event.subject, job.id = id → job.ttl = none

/-- What makes the job wait finds no expiry on its hash, and what sets one finds the job neither
waiting nor about to. -/
def Timely (id : JobId) (s : Store) (event : Event) : Prop :=
  (event.requeues id s → s.exp (.job id) = none) ∧
    (event.expires id → ¬Pending id s ∧ ¬event.requeues id s)

end Event

section
variable {id : JobId} {job : Job} {e : Effect} {parent : Option JobId}

lemma Job.restore_ttl {s : Store} (h : Job.restore job.id (s.val (.job job.id)) = .ok job)
    (hs : (s.val (.job id)).ttl = none) (hid : job.id = id) : job.ttl = none := by
  subst hid
  unfold Job.restore at h
  split at h
  · cases h
  · obtain heq := Except.ok.inj h
    rw [← heq]
    simp [hs]

lemma leavesIdle_cleanup {ttl : Option ℤ} {id' : JobId} (he : CleanupEffect id' ttl e) :
    e.LeavesIdle id := by
  cases he <;> trivial

lemma leavesIdle_persist (httl : job.id = id → job.ttl = none) (he : PersistEffect job e) :
    e.LeavesIdle id := by
  cases he with
  | write hm => exact fun hid => hm.ttl (httl hid)
  | cleanup hc => exact leavesIdle_cleanup hc

lemma leavesIdle_enqueue {name : QueueName} (hne : job.id ≠ id) (he : EnqueueEffect name job e) :
    e.LeavesIdle id := by
  cases he with
  | persist hp => exact leavesIdle_persist (fun hid => absurd hid hne) hp
  | push atFront => exact hne

lemma leavesIdle_schedule {name : QueueName} (hne : job.id ≠ id) (he : ScheduleEffect name job e) :
    e.LeavesIdle id := by
  cases he with
  | persist hp => exact leavesIdle_persist (fun hid => absurd hid hne) hp
  | zadd t => exact fun _ => hne

lemma leavesIdle_again {name : QueueName} {interval : ℕ} (hne : job.id ≠ id)
    (he : AgainEffect name job interval e) : e.LeavesIdle id := by
  unfold AgainEffect at he
  split at he
  · exact leavesIdle_enqueue hne he
  · exact leavesIdle_schedule hne he

lemma leavesIdle_fail (httl : job.id = id → job.ttl = none) (he : FailEffect job e) :
    e.LeavesIdle id := by
  cases he with
  | write hm => exact fun hid => hm.ttl (httl hid)
  | cleanup hc => exact leavesIdle_cleanup hc
  | zadd name score => exact fun h => nomatch h

lemma leavesIdle_release {p : JobId} (hp : p ∈ parent) (he : ReleaseEffect (Idle id parent) p e) :
    e.LeavesIdle id := by
  obtain ⟨hs, -, hmem, -, h⟩ := he
  refine leavesIdle_enqueue (fun hid => ?_) h
  exact hs.dependents p hp (hid ▸ hmem)

lemma leavesIdle_failure {worker : Worker} {name : QueueName} (httl : job.id = id → job.ttl = none)
    (hagain : ¬(job.id = id ∧ worker.retries job = true))
    (hparent : worker.retries job = false → job.id ∈ parent)
    (he : FailureEffect (Idle id parent) worker name job e) : e.LeavesIdle id := by
  cases he with
  | status status hretries => exact fun _ => rfl
  | fail hretries hhandler h => exact leavesIdle_fail httl h
  | retry hretries h =>
    obtain ⟨-, h⟩ := h
    exact leavesIdle_again (fun hid => hagain ⟨hid, hretries⟩) h
  | release hretries h => exact leavesIdle_release (hparent hretries) h

/-- Of the job that it does not put back, an event has no effect that makes it wait. -/
lemma Event.leavesIdle {event : Event} (httl : event.Untimed id) (hagain : ¬event.again id)
    (he : event.effects (Idle id event.releasing) e) : e.LeavesIdle id := by
  cases event with
  | enqueue queue job atFront unique now fuel =>
    have halike : job.Alike { job with origin := queue.name } := ⟨rfl, rfl, rfl, rfl⟩
    obtain h | h := he
    · cases h with
      | persist hp =>
        exact leavesIdle_persist (fun hid => absurd hid hagain) (hp.of_alike halike)
      | zadd score => exact fun h => nomatch h
      | depend hmem => exact hagain
    · exact leavesIdle_enqueue hagain h
  | schedule queue job datetime unique now => exact leavesIdle_schedule hagain he
  | requeue kind name job atFront now => exact leavesIdle_enqueue hagain he
  | tick queue now =>
    obtain ⟨hs, -, hdue, -, h⟩ := he
    -- what is due is scheduled
    obtain ⟨score, hmem, -⟩ := ZSet.mem_range.mp (List.mem_of_mem_take hdue)
    refine leavesIdle_enqueue (fun hid => hs.idle (.inr ⟨queue.name, ?_⟩)) h
    exact hid ▸ ZSet.mem_iff_exists.mpr ⟨score, hmem⟩
  | dequeue version queueKeys timeout fuel =>
    obtain ⟨key, -, id, rfl⟩ := he
    trivial
  | prepare worker job id now => exact he.elim
  | start worker job now =>
    obtain ⟨hm⟩ := he
    exact fun hid => hm.ttl (httl job rfl hid)
  | ended job now =>
    obtain ⟨hm⟩ := he
    exact fun hid => hm.ttl (httl job rfl hid)
  | succeed worker job queue now =>
    cases he with
    | release h => exact leavesIdle_release rfl h
    | finish hne h =>
      cases h with
      | write hm => exact fun hid => hm.ttl (httl job rfl hid)
      | zadd name score => exact fun h => nomatch h
    | repeats hleft h =>
      obtain ⟨-, -, h⟩ := h
      exact leavesIdle_again (fun hid => hagain ⟨hid, hleft⟩) h
    | cleanup hleft h => exact leavesIdle_cleanup h
  | retried worker job queue retry execution now fuel =>
    cases he with
    | fail hexceeded h => exact leavesIdle_fail (httl job rfl) h
    | release hexceeded h => exact leavesIdle_release (by simp [releasing, hexceeded]) h
    | again hexceeded h => exact leavesIdle_again (fun hid => hagain ⟨hid, hexceeded⟩) h
  | fail worker job queue excString now fuel =>
    exact leavesIdle_failure (httl job rfl) hagain (fun h => by simp [releasing, h]) he
  | monitor worker job queue retVal stoppedCallback killedHandler startedAt now fuel =>
    exact leavesIdle_failure (httl job rfl) hagain (fun h => by simp [releasing, h]) he

lemma leavesClear_cleanup {ttl : Option ℤ} {id' : JobId}
    (h : ∀ ttl' ∈ ttl, 0 < ttl' → id' ≠ id) (he : CleanupEffect id' ttl e) : e.LeavesClear id := by
  cases he with
  | expire hpos t => exact h _ rfl hpos
  | delete => trivial

lemma leavesClear_persist (httl : job.id = id → job.ttl = none) (he : PersistEffect job e) :
    e.LeavesClear id := by
  cases he with
  | write hm => exact fun hid => hm.ttl (httl hid)
  | cleanup hc =>
    refine leavesClear_cleanup (fun ttl httl' _ hid => ?_) hc
    rw [httl hid] at httl'
    cases httl'

lemma leavesClear_enqueue {name : QueueName} (httl : job.id = id → job.ttl = none)
    (he : EnqueueEffect name job e) : e.LeavesClear id := by
  cases he with
  | persist hp => exact leavesClear_persist httl hp
  | push atFront => trivial

lemma leavesClear_schedule {name : QueueName} (httl : job.id = id → job.ttl = none)
    (he : ScheduleEffect name job e) : e.LeavesClear id := by
  cases he with
  | persist hp => exact leavesClear_persist httl hp
  | zadd t => trivial

lemma leavesClear_again {name : QueueName} {interval : ℕ} (httl : job.id = id → job.ttl = none)
    (he : AgainEffect name job interval e) : e.LeavesClear id := by
  unfold AgainEffect at he
  split at he
  · exact leavesClear_enqueue httl he
  · exact leavesClear_schedule httl he

lemma leavesClear_fail (httl : job.id = id → job.ttl = none)
    (h : 0 < job.failureTtl.getD Job.defaultFailureTtl → job.id ≠ id) (he : FailEffect job e) :
    e.LeavesClear id := by
  cases he with
  | write hm => exact fun hid => hm.ttl (httl hid)
  | cleanup hc => exact leavesClear_cleanup (fun ttl httl hpos => h (by simp_all)) hc
  | zadd name score => trivial

lemma leavesClear_release {p : JobId} (he : ReleaseEffect (Clear id) p e) : e.LeavesClear id := by
  obtain ⟨-, hs', -, hstored, h⟩ := he
  exact leavesClear_enqueue (Job.restore_ttl hstored hs'.ttl) h

lemma leavesClear_failure {worker : Worker} {name : QueueName} (httl : job.id = id → job.ttl = none)
    (h : ¬(job.id = id ∧ Event.expiresFailed worker job))
    (he : FailureEffect (Clear id) worker name job e) : e.LeavesClear id := by
  cases he with
  | status status hretries => exact fun _ => rfl
  | fail hretries hhandler he =>
    exact leavesClear_fail httl (fun hpos hid => h ⟨hid, hretries, hhandler, hpos⟩) he
  | retry hretries h =>
    obtain ⟨-, h⟩ := h
    exact leavesClear_again httl h
  | release hretries h => exact leavesClear_release h

/-- An event that does not let the job expire does not set an expiry. -/
lemma Event.leavesClear {event : Event} (httl : event.Untimed id) (hexpires : ¬event.expires id)
    (he : event.effects (Clear id) e) : e.LeavesClear id := by
  cases event with
  | enqueue queue job atFront unique now fuel =>
    have halike : job.Alike { job with origin := queue.name } := ⟨rfl, rfl, rfl, rfl⟩
    obtain h | h := he
    · cases h with
      | persist hp => exact leavesClear_persist (httl job rfl) (hp.of_alike halike)
      | zadd score => trivial
      | depend hmem => trivial
    · exact leavesClear_enqueue (httl job rfl) h
  | schedule queue job datetime unique now => exact leavesClear_schedule (httl job rfl) he
  | requeue kind name job atFront now => exact leavesClear_enqueue (httl job rfl) he
  | tick queue now =>
    obtain ⟨-, hs', -, hstored, h⟩ := he
    exact leavesClear_enqueue (Job.restore_ttl hstored hs'.ttl) h
  | dequeue version queueKeys timeout fuel =>
    obtain ⟨key, -, id, rfl⟩ := he
    trivial
  | prepare worker job id now => exact he.elim
  | start worker job now =>
    obtain ⟨hm⟩ := he
    exact fun hid => hm.ttl (httl job rfl hid)
  | ended job now =>
    obtain ⟨hm⟩ := he
    exact fun hid => hm.ttl (httl job rfl hid)
  | succeed worker job queue now =>
    cases he with
    | release h => exact leavesClear_release h
    | finish hne h =>
      cases h with
      | write hm => exact fun hid => hm.ttl (httl job rfl hid)
      | zadd name score => trivial
    | repeats hleft h =>
      obtain ⟨-, -, h⟩ := h
      exact leavesClear_again (httl job rfl) h
    | cleanup hleft h =>
      refine leavesClear_cleanup (fun ttl httl hpos hid => ?_) h
      cases httl
      exact hexpires ⟨hid, hleft, hpos⟩
  | retried worker job queue retry execution now fuel =>
    cases he with
    | fail hexceeded h =>
      exact leavesClear_fail (httl job rfl) (fun hpos hid => hexpires ⟨hid, hexceeded, hpos⟩) h
    | release hexceeded h => exact leavesClear_release h
    | again hexceeded h => exact leavesClear_again (httl job rfl) h
  | fail worker job queue excString now fuel => exact leavesClear_failure (httl job rfl) hexpires he
  | monitor worker job queue retVal stoppedCallback killedHandler startedAt now fuel =>
    exact leavesClear_failure (httl job rfl) hexpires he

end

/-! ## Runs -/

/-- An event of which the first `steps` atomic steps are made, or a new reading of the clock. -/
inductive Turn where
  | act (event : Event) (steps : ℕ)
  | wait (t : Time)

namespace Turn

def after (s : Store) : Turn → Store
  | act event steps => event.program.crash steps s
  | wait t => s.expireAt t

def Untimed (id : JobId) : Turn → Prop
  | act event _ => event.Untimed id
  | wait _ => True

def Timely (id : JobId) (s : Store) : Turn → Prop
  | act event _ => event.inert s ∨ event.Timely id s
  | wait _ => True

/-- The run of turns about a job without a time to live. -/
def Reaches (id : JobId) : Store → Store → Prop :=
  Relation.ReflTransGen fun s s' => ∃ turn : Turn, turn.Untimed id ∧ s' = turn.after s

/-- The run of turns that come at the right time. -/
def TimelyReaches (id : JobId) : Store → Store → Prop :=
  Relation.ReflTransGen fun s s' =>
    ∃ turn : Turn, turn.Untimed id ∧ turn.Timely id s ∧ s' = turn.after s

end Turn

section
variable {id : JobId} {s : Store}

lemma persists_of_idle {parent : Option JobId} (h : Idle id parent s) : Persists id s :=
  ⟨fun hp => absurd hp h.idle, h.ttl⟩

lemma persists_of_clear (h : Clear id s) : Persists id s := ⟨fun _ => h.clear, h.ttl⟩

/-- Commands that are benign to the store keep a waiting job from expiring. -/
lemma persists_of_via {s' : Store} (hs : Persists id s) (h : Via (fun _ => False) s s') :
    Persists id s' := by
  obtain ⟨c, hc, rfl⟩ := h
  refine hc.preserves (fun c h s hs => ⟨fun hp => ?_, ?_⟩) (fun e he => he.elim) hs
  · obtain hexp | hexp := h.expiry s id
    · rw [hexp, hs.clear (pending_of_benign h hp)]
    · exact hexp
  · rw [h.hash, hs.ttl]

/-- An event that is inert stays inert, since it does nothing. -/
lemma Event.stable_inert (event : Event) : Stable event.inert fun _ => False := by
  intro c hc s hs
  refine hc.preserves (I := fun s => event.inert s) (fun c h s hs => ?_) (fun e he => he.elim) hs
  cases event with
  | enqueue queue job atFront unique now fuel => exact ⟨hs.1, by rw [h.hash]; exact hs.2⟩
  | schedule queue job datetime unique now => exact ⟨hs.1, by rw [h.hash]; exact hs.2⟩
  | requeue kind name job atFront now =>
    intro hmem
    obtain ⟨score, he⟩ := ZSet.mem_iff_exists.mp hmem
    exact hs (ZSet.mem_iff_exists.mpr ⟨score, h.registry s kind name _ he⟩)
  | monitor worker job queue retVal stoppedCallback killedHandler startedAt now fuel =>
    intro hhandles
    unfold Worker.handlesDeath at hhandles
    rw [h.hash] at hhandles
    exact hs hhandles
  | _ => exact hs

lemma Event.persists_of_inert {event : Event} (hs : Persists id s) (hinert : event.inert s)
    (steps : ℕ) : Persists id (event.program.crash steps s) := by
  have hwithin := event.within event.stable_inert hinert
    (fun s hs hnot _ _ => hnot hs)
  exact persists_of_via hs (hwithin.crash Via.refl (fun _ _ _ => Via.trans) steps hinert).2

/-- One event keeps a waiting job from expiring, if it comes at the right time. -/
theorem Event.persists {event : Event} (hs : Persists id s) (httl : event.Untimed id)
    (htimely : event.Timely id s) (steps : ℕ) : Persists id (event.program.crash steps s) := by
  have hclear : s.exp (.job id) = none → ¬event.expires id →
      Persists id (event.program.crash steps s) := fun hexp hexpires => by
    have hs₀ : Clear id s := ⟨hexp, hs.ttl⟩
    have hwithin := Event.within (stable_clear id) hs₀
      (fun _ _ _ e he => Event.leavesClear httl hexpires he)
    exact persists_of_clear (hwithin.crash Via.refl (fun _ _ _ => Via.trans) steps hs₀).1
  have hidle : ¬Pending id s → ¬event.requeues id s →
      Persists id (event.program.crash steps s) := fun hpending hrequeues => by
    rw [Event.requeues, not_or] at hrequeues
    have hs₀ : Idle id event.releasing s :=
      ⟨hpending, hs.ttl, fun p hp hmem => hrequeues.2 ⟨p, hp, hmem⟩⟩
    have hwithin := Event.within (stable_idle id event.releasing) hs₀
      (fun _ _ _ e he => Event.leavesIdle httl hrequeues.1 he)
    exact persists_of_idle (hwithin.crash Via.refl (fun _ _ _ => Via.trans) steps hs₀).1
  by_cases hexpires : event.expires id
  · exact hidle (htimely.2 hexpires).1 (htimely.2 hexpires).2
  · by_cases hexp : s.exp (.job id) = none
    · exact hclear hexp hexpires
    · exact hidle (fun hp => hexp (hs.clear hp)) fun hr => hexp (htimely.1 hr)

lemma persists_expireAt (hs : Persists id s) (t : Time) : Persists id (s.expireAt t) where
  clear hp := by
    have hp : Pending id s := by
      obtain ⟨key, hkey, hid⟩ | ⟨name, hid⟩ := hp
      · refine .inl ⟨key, hkey, ?_⟩
        simp only [KeyStore.expireAt] at hid
        split at hid
        · exact absurd hid List.not_mem_nil
        · exact hid
      · refine .inr ⟨name, ?_⟩
        simp only [KeyStore.expireAt] at hid
        split at hid
        · exact absurd hid List.not_mem_nil
        · exact hid
    simp [KeyStore.expireAt, hs.clear hp]
  ttl := by
    simp only [KeyStore.expireAt]
    split
    · rfl
    · exact hs.ttl

end

/-- **A waiting job does not expire.** -/
theorem pending_persists {id : JobId} {s s' : Store} (hs : Persists id s)
    (hrun : Turn.TimelyReaches id s s') (hpending : Pending id s') : s'.exp (.job id) = none := by
  have hpersists : Persists id s' := by
    clear hpending
    induction hrun with
    | refl => exact hs
    | tail _ hturn ih =>
      obtain ⟨turn, httl, htimely, rfl⟩ := hturn
      cases turn with
      | act event steps =>
        obtain hinert | htimely := htimely
        · exact Event.persists_of_inert ih hinert steps
        · exact Event.persists ih httl htimely steps
      | wait t => exact persists_expireAt ih t
  exact hpersists.clear hpending

/-! ### Examples -/

/-- A job without a time to live. -/
def waitingJob : Job := { id := "job", data := "call", origin := "default" }

def waitingQueue : Queue := { name := "default" }

lemma persists_empty (id : JobId) : Persists id Store.empty := by
  refine ⟨fun hp => ?_, rfl⟩
  rfl

lemma isQueueKey_of_suffix {key : String} (h : ¬":intermediate".toList <:+ key.toList) :
    IsQueueKey key := by
  intro key' heq
  refine h ⟨key'.toList, ?_⟩
  rw [heq, intermediateQueueKey, String.toList_append]

lemma isQueueKey_default : IsQueueKey "rq:queue:default" := isQueueKey_of_suffix (by decide)

/-- The database while a job is executed that is in no queue. -/
def executingStore : Store :=
  (hset "job" { data := some "call", origin := some "default", status := some .started }).run
    Store.empty

lemma not_pending_executingStore : ¬Pending "job" executingStore := by
  rintro (⟨key, -, hid⟩ | ⟨name, hid⟩)
  · exact List.not_mem_nil hid
  · exact ZSet.notMem_default _ hid

/-- A failure that is kept for ten seconds, a new enqueueing of the job after they have passed, an
execution that fails and is retried, and one that succeeds and is repeated. -/
def returningTurns : List Turn :=
  let worker : Worker := { name := "worker", queues := ["default"] }
  let ended : Job := { waitingJob with status := .failed, startedAt := some 0, endedAt := some 1 }
  let dequeue : Turn := .act (.dequeue (7, 0, 0) ["rq:queue:default"] none 1) 9
  [.act (.fail worker { ended with failureTtl := some 10 } waitingQueue "error" 1 1) 30,
    .wait 20,
    .act (.enqueue waitingQueue { waitingJob with retriesLeft := some 1 } false false 20 1) 30,
    dequeue,
    .act (.start worker { waitingJob with retriesLeft := some 1 } 21) 30,
    .act (.fail worker { ended with retriesLeft := some 1 } waitingQueue "error" 22 1) 30,
    dequeue,
    .act (.start worker waitingJob 23) 30,
    .act (.succeed worker { ended with repeatsLeft := some 1 } waitingQueue 24) 30]

lemma untimed_returningTurns : ∀ turn ∈ returningTurns, turn.Untimed "job" := by
  intro turn hturn
  simp only [returningTurns, List.mem_cons, List.not_mem_nil, or_false] at hturn
  rcases hturn with rfl | rfl | rfl | rfl | rfl | rfl | rfl | rfl | rfl
  case inr.inl => trivial
  all_goals
    intro job hjob _
    cases hjob <;> rfl

/-- Every turn comes at the right time in the state that those before it leave. -/
def Turn.AllTimely (id : JobId) : List Turn → Store → Prop
  | [], _ => True
  | turn :: turns, s => turn.Timely id s ∧ AllTimely id turns (turn.after s)

lemma Turn.timelyReaches_foldl {id : JobId} {turns : List Turn}
    (hturns : ∀ turn ∈ turns, turn.Untimed id) {s : Store} (h : Turn.AllTimely id turns s) :
    Turn.TimelyReaches id s (turns.foldl Turn.after s) := by
  induction turns generalizing s with
  | nil => exact .refl
  | cons turn turns ih =>
    exact .head ⟨turn, hturns turn List.mem_cons_self, h.1, rfl⟩
      (ih (fun turn hturn => hturns turn (List.mem_cons_of_mem _ hturn)) h.2)

lemma timely_returningTurns : Turn.AllTimely "job" returningTurns executingStore := by
  refine ⟨.inr ⟨fun _ => rfl, fun _ => ⟨not_pending_executingStore, ?_⟩⟩, trivial,
    .inr ⟨fun _ => by decide +kernel, fun h => h.elim⟩,
    .inr ⟨fun _ => by decide +kernel, fun h => h.elim⟩,
    .inr ⟨fun _ => by decide +kernel, fun h => h.elim⟩,
    .inr ⟨fun _ => by decide +kernel, fun h => ?_⟩,
    .inr ⟨fun _ => by decide +kernel, fun h => h.elim⟩,
    .inr ⟨fun _ => by decide +kernel, fun h => h.elim⟩,
    .inr ⟨fun _ => by decide +kernel, fun h => ?_⟩, trivial⟩
  · -- the first failure is not retried, and no parent is released
    rintro (⟨-, hretries⟩ | ⟨p, hp, hmem⟩)
    · cases hretries
    · cases hp
      exact RSet.notMem_empty _ hmem
  · cases h.2.1
  · exact absurd (by decide) h.2.1

/-- An expiry lapses before the job is enqueued again, and an execution that is retried and one that
is repeated leave it in its queue without one. -/
theorem pending_persists_returned :
    ((returningTurns.take 1).foldl Turn.after executingStore).exp (.job "job") = some 11 ∧
    "job" ∈ (returningTurns.foldl Turn.after executingStore).val (.list "rq:queue:default") ∧
    (returningTurns.foldl Turn.after executingStore).exp (.job "job") = none := by
  have hqueued : "job" ∈ (returningTurns.foldl Turn.after executingStore).val
      (.list "rq:queue:default") := by decide +kernel
  have hpersists : Persists "job" executingStore :=
    ⟨fun hp => absurd hp not_pending_executingStore, rfl⟩
  refine ⟨by decide +kernel, hqueued, ?_⟩
  exact pending_persists hpersists
    (Turn.timelyReaches_foldl untimed_returningTurns timely_returningTurns)
    (.inl ⟨_, isQueueKey_default, hqueued⟩)

/-- The turns of a job that is executed, fails and is requeued. -/
def failedTurns : List Turn :=
  let worker : Worker := { name := "worker", queues := ["default"] }
  let ended : Job := { waitingJob with status := .failed, startedAt := some 0, endedAt := some 1 }
  [.act (.enqueue waitingQueue waitingJob false false 0 1) 9,
    .act (.dequeue (7, 0, 0) ["rq:queue:default"] none 1) 9,
    .act (.start worker waitingJob 0) 9,
    .act (.fail worker ended waitingQueue "error" 1 1) 20,
    .act (.requeue .failed "default" ended false 2) 9]

lemma untimed_failedTurns : ∀ turn ∈ failedTurns, turn.Untimed "job" := by
  intro turn hturn
  simp only [failedTurns, List.mem_cons, List.not_mem_nil, or_false] at hturn
  rcases hturn with rfl | rfl | rfl | rfl | rfl <;> intro job hjob _ <;> cases hjob <;> rfl

lemma Turn.reaches_foldl {id : JobId} {turns : List Turn} (h : ∀ turn ∈ turns, turn.Untimed id)
    (s : Store) : Turn.Reaches id s (turns.foldl Turn.after s) := by
  induction turns generalizing s with
  | nil => exact .refl
  | cons turn turns ih =>
    exact .head ⟨turn, h turn List.mem_cons_self, rfl⟩
      (ih (fun turn hturn => h turn (List.mem_cons_of_mem _ hturn)) _)

/-- The expiry that the failure has set is still there when the job is back in its queue. -/
theorem requeued_expires : ¬∀ s s', Persists "job" s → Turn.Reaches "job" s s' →
    Pending "job" s' → s'.exp (.job "job") = none := by
  intro h
  have hpending : Pending "job" (failedTurns.foldl Turn.after Store.empty) :=
    .inl ⟨"rq:queue:default", isQueueKey_default, by decide +kernel⟩
  have hexp : (failedTurns.foldl Turn.after Store.empty).exp (.job "job") = some 31536001 := by
    decide +kernel
  have hnone := h _ _ (persists_empty "job") (Turn.reaches_foldl untimed_failedTurns _) hpending
  rw [hexp] at hnone
  cases hnone

end RedisQueue
