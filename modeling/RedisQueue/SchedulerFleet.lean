import RedisQueue.SchedulerLocks

/-!
# Schedulers in their loops

Workers with an `RQScheduler` (`rq/scheduler.py`, `BaseWorker._start_scheduler` and
`run_maintenance_tasks` in `rq/worker/base.py`): the object in the worker acquires locks and starts
a process, which turns in `RQScheduler.work`; when the process is dead, the worker acquires locks
again and starts another one. All of them go by one clock. The burst mode, in which a worker does
the work of the process itself, is left out.

* `SchedulerFleet.keeps_locks`: as long as the statements of a turn take at most `δ`, a sleep is at
  most `ε` too long, `2 * δ + ε` is a minute at most, and a process is only restarted when the locks
  that the object counts as acquired are still its own, no two processes have one lock;
* `SchedulerFleet.restart_shares`: a worker that restarts its scheduler later starts one with the
  locks that another scheduler has acquired meanwhile.
-/

namespace RedisQueue

/-! ## Locks that are held -/

/-- The lock of the queue is the scheduler object's, and does not expire before a time. -/
def HeldUntil (s : Store) (i : ℕ) (name : QueueName) (t : Time) : Prop :=
  ∃ pid expiry, s.val (.schedulerLock name) = some ⟨pid, i⟩ ∧
    s.exp (.schedulerLock name) = some expiry ∧ t ≤ expiry

/-- Nothing about locks changes. -/
def FramesLocks (s s' : Store) : Prop := ∀ name, KeyStore.AgreeAt (.schedulerLock name) s' s

lemma FramesLocks.refl (s : Store) : FramesLocks s s := fun _ => ⟨rfl, rfl⟩

section Held
variable {s s' : Store} {i j : ℕ} {name : QueueName} {t t' : Time}

lemma HeldUntil.mono (h : HeldUntil s i name t) (hle : t' ≤ t) : HeldUntil s i name t' := by
  obtain ⟨pid, expiry, hval, hexp, hexpiry⟩ := h
  exact ⟨pid, expiry, hval, hexp, hle.trans hexpiry⟩

lemma HeldUntil.of_agree (h : HeldUntil s i name t)
    (hagree : KeyStore.AgreeAt (.schedulerLock name) s' s) : HeldUntil s' i name t := by
  obtain ⟨pid, expiry, hval, hexp, hexpiry⟩ := h
  exact ⟨pid, expiry, hagree.1.trans hval, hagree.2.trans hexp, hexpiry⟩

/-- A lock is one scheduler object's only. -/
lemma HeldUntil.unique (h : HeldUntil s i name t) (h' : HeldUntil s j name t') : i = j := by
  obtain ⟨pid, -, hval, -⟩ := h
  obtain ⟨pid', -, hval', -⟩ := h'
  rw [hval] at hval'
  cases hval'
  rfl

lemma HeldUntil.expireAt (h : HeldUntil s i name t) {now : Time} (hnow : now ≤ t) :
    HeldUntil (s.expireAt now) i name t := by
  obtain ⟨pid, expiry, hval, hexp, hexpiry⟩ := h
  have hkept : ¬s.Expired now (.schedulerLock name) := by
    rintro ⟨t', ht', hlt⟩
    rw [hexp] at ht'
    obtain rfl := Option.some.inj ht'
    exact absurd (hnow.trans hexpiry) (not_le.mpr hlt)
  refine ⟨pid, expiry, ?_, ?_, hexpiry⟩
  · exact (if_neg hkept).trans hval
  · exact (if_neg hkept).trans hexp

end Held

/-! ### What the operations do to them -/

lemma frames_tickCommand {queue : Queue} {ids : List JobId} {jobs : List (Option Job)} {now : Time}
    {c : Command Key Value} (hc : c ∈ tickCommands queue ids jobs now) (name : QueueName) :
    c.Frames (.schedulerLock name) := by
  rcases List.mem_append.mp hc with hc | hc
  · obtain ⟨job, -, hc⟩ := List.mem_flatMap.mp hc
    simp only [enqueueCommands, persistCommands, cleanupCommands, List.mem_append, List.mem_cons,
      List.not_mem_nil, or_false] at hc
    rcases hc with (hc | (rfl | rfl) | hc) | rfl
    · split at hc
      · obtain rfl := List.mem_singleton.mp hc
        exact Command.frames_alter (by simp)
      · simp at hc
    · exact Command.frames_write (by simp)
    · exact Command.frames_write (by simp)
    · split at hc
      · simp only [List.mem_cons, List.not_mem_nil, or_false] at hc
        rcases hc with rfl | rfl | rfl <;> exact Command.frames_expire (by simp)
      · simp at hc
    · refine Command.frames_seq fun c hc => ?_
      simp only [List.mem_cons, List.not_mem_nil, or_false] at hc
      rcases hc with rfl | rfl <;> exact Command.frames_write (by simp)
  · obtain ⟨id, -, rfl⟩ := List.mem_map.mp hc
    exact Command.frames_alter (by simp)

lemma framesLocks_enqueueDueJobs (queue : Queue) (now : Time) :
    (enqueueDueJobs queue now).Within (fun _ => True) FramesLocks fun _ => True := by
  have hnothing : ∀ s : Store, True ∧ FramesLocks s s := fun s => ⟨trivial, .refl s⟩
  rw [enqueueDueJobs_eq]
  intro s _
  refine ⟨hnothing s, ?_⟩
  dsimp only
  split
  · trivial
  · intro s' _
    refine ⟨hnothing s', ?_⟩
    dsimp only
    split
    · trivial
    · refine ⟨fun t _ _ => ⟨trivial, fun name => ?_⟩, fun _ => trivial⟩
      exact Command.frames_seq (fun c hc => frames_tickCommand hc name) t

namespace RQScheduler

variable {self : RQScheduler} {s : Store} {i j : ℕ} {name : QueueName} {now t : Time}

/-- A lock that is held stays as it is. -/
lemma heldUntil_setLock (h : HeldUntil s j name t) (name' : QueueName) :
    HeldUntil (self.setLock i name' now s) j name t := by
  obtain ⟨pid, expiry, hval, hexp, hexpiry⟩ := h
  unfold setLock
  split
  · next hfree =>
    have hne : Key.schedulerLock name ≠ .schedulerLock name' := by
      intro heq
      obtain rfl := Key.schedulerLock.inj heq
      rw [hval] at hfree
      cases hfree
    refine HeldUntil.of_agree ⟨pid, expiry, hval, hexp, hexpiry⟩ ?_
    refine Command.frames_seq (fun c hc => ?_) s
    simp only [List.mem_cons, List.not_mem_nil, or_false] at hc
    rcases hc with rfl | rfl
    · exact Command.frames_write hne
    · exact Command.frames_expire hne
  · exact ⟨pid, expiry, hval, hexp, hexpiry⟩

/-- A free lock is set for a minute and the interval. -/
lemma heldUntil_setLock_of_free (hfree : s.val (.schedulerLock name) = none) :
    HeldUntil (self.setLock i name now s) i name (now + self.lockTtl) := by
  refine ⟨self.pid, now + self.lockTtl, setLock_of_free hfree, ?_, le_refl _⟩
  simp [setLock, hfree, Command.expire, Command.write, KeyStore.put]

lemma heldUntil_successfulLocks {successful : RSet QueueName}
    (hsuccessful : ∀ name ∈ successful, HeldUntil s i name t) (hle : t ≤ now + self.lockTtl)
    {name' : QueueName} (hmem : name ∈ successfulLocks name' successful s) :
    HeldUntil (self.setLock i name' now s) i name t := by
  unfold successfulLocks at hmem
  split at hmem
  · next hfree =>
    rcases RSet.mem_insert.mp hmem with hmem | rfl
    · exact heldUntil_setLock (hsuccessful name hmem) name'
    · exact (heldUntil_setLock_of_free hfree).mono hle
  · exact heldUntil_setLock (hsuccessful name hmem) name'

/-- A heartbeat renews the acquired locks. -/
lemma heldUntil_heartbeat (hmem : name ∈ self.acquiredLocks) (h : HeldUntil s i name t) :
    HeldUntil ((self.heartbeat now).run s) i name (now + self.lockTtl) := by
  obtain ⟨pid, -, hval, -, -⟩ := h
  have hpositive : ¬self.lockTtl ≤ 0 := by
    unfold lockTtl
    omega
  have hrenew : ∀ s : Store, ((RedisQueue.expire (.schedulerLock name) self.lockTtl now).run s).val
      (.schedulerLock name) = some ⟨pid, i⟩ →
      ((RedisQueue.expire (.schedulerLock name) self.lockTtl now).run s).exp (.schedulerLock name) =
        some (now + self.lockTtl) := by
    intro s hlock
    rw [RedisQueue.expire, if_neg hpositive] at hlock ⊢
    rw [Command.val_expire] at hlock
    have hne : s.val (.schedulerLock name) ≠ default := by
      rw [hlock]
      exact Option.some_ne_none _
    simp [Command.expire, hne]
  refine ⟨pid, now + self.lockTtl, (keepsLocks_heartbeat self now s name).trans hval, ?_, le_refl _⟩
  -- each `EXPIRE` of the lock renews it, and the others leave it as it is
  refine Command.seq_establishes (P := fun s => s.val (.schedulerLock name) = some ⟨pid, i⟩ →
    s.exp (.schedulerLock name) = some (now + self.lockTtl)) ?_ (List.mem_map.mpr ⟨name, hmem, rfl⟩)
    hrenew s ((keepsLocks_heartbeat self now s name).trans hval)
  intro c hc s hs hlock
  obtain ⟨name', -, rfl⟩ := List.mem_map.mp hc
  by_cases heq : name' = name
  · subst heq
    exact hrenew s hlock
  · have hframe : (RedisQueue.expire (.schedulerLock name') self.lockTtl now).Frames
        (.schedulerLock name) := by
      rw [RedisQueue.expire, if_neg hpositive]
      exact Command.frames_expire (by simpa using Ne.symm heq)
    rw [(hframe s).2]
    exact hs ((hframe s).1.symm.trans hlock)

end RQScheduler

/-! ## Workers and their schedulers -/

/-- Where in `work` the process of a scheduler is. A turn of its loop begins at a time. -/
inductive SchedulerPhase where
  | awake (since : Time)
  /-- In `acquire_locks`: the names it has not tried yet, and `successful_locks`. -/
  | acquiring (since : Time) (names : List QueueName) (successful : RSet QueueName)
  /-- In `enqueue_scheduled_jobs`: the registries it has not begun with, and the rest of what it
  does for the current one. The heartbeat comes after it. -/
  | enqueueing (since : Time) (names : List QueueName) (program : Redis Unit)
  | beaten (since : Time)
  | asleep (wake : Time)

/-- The process of a scheduler, with its copy of the object. -/
structure SchedulerChild where
  self : RQScheduler
  lockAcquisitionTime : Time
  phase : SchedulerPhase

/-- The `scheduler` of a worker: its object, the call of `acquire_locks` that it is in, and the
process that it has started. -/
structure WorkerScheduler where
  self : RQScheduler
  acquiring : Option (Time × List QueueName × RSet QueueName) := none
  child : Option SchedulerChild := none

/-- What a worker does about its scheduler. -/
inductive WorkerScheduler.Event where
  /-- The call of `acquire_locks`, when there is no process that is alive. -/
  | acquire
  | setLock
  /-- The end of the call: if the object has acquired a lock at any time, a process is started. -/
  | start (pid : ℕ)
  /-- The call ends with an exception. -/
  | fail

/-- What a scheduler's process does. -/
inductive SchedulerChild.Event where
  /-- A turn of the loop begins, and no stop has been requested. -/
  | turn
  | setLock
  | acquired
  | enqueue
  | heartbeat
  | sleep
  | wake
  /-- A turn begins, and a stop has been requested. -/
  | stop
  | crash

/-- `acquire_locks(auto_start=True)` in the worker of the scheduler object `i`. -/
def WorkerScheduler.step (i : ℕ) (now : Time) (worker : WorkerScheduler) (s : Store) :
    WorkerScheduler.Event → WorkerScheduler × Store
  | .acquire =>
    match worker.acquiring, worker.child with
    | none, none => ({ worker with acquiring := some (now, worker.self.queueNames, ∅) }, s)
    | _, _ => (worker, s)
  | .setLock =>
    match worker.acquiring with
    | some (since, name :: names, successful) =>
      ({ worker with
          acquiring := some (since, names, RQScheduler.successfulLocks name successful s) },
        worker.self.setLock i name now s)
    | _ => (worker, s)
  | .start pid =>
    match worker.acquiring with
    | some (_, [], successful) =>
      let scheduler := worker.self.addLocks successful
      ({ self := scheduler
         child := if scheduler.acquiredLocks = ∅ then none
           else some ⟨{ scheduler with pid := pid }, now, .awake now⟩ }, s)
    | _ => (worker, s)
  | .fail => ({ worker with acquiring := none }, s)

namespace SchedulerChild

/-- `DEFAULT_SCHEDULER_FALLBACK_PERIOD` -/
def fallbackPeriod : ℤ := 120

/-- `RQScheduler.should_reacquire_locks`, in a process: it has a `lock_acquisition_time`. -/
def shouldReacquireLocks (child : SchedulerChild) (now : Time) : Bool :=
  if (∀ name ∈ child.self.queueNames, name ∈ child.self.acquiredLocks) ∧
      ∀ name ∈ child.self.acquiredLocks.elems, name ∈ child.self.queueNames then false
  else fallbackPeriod < now - child.lockAcquisitionTime

/-- The beginning of `enqueue_scheduled_jobs`. -/
def enqueue (child : SchedulerChild) (since : Time) : SchedulerChild :=
  let self := child.self.prepareRegistries
  { child with self, phase := .enqueueing since self.scheduledJobRegistries (.ret ()) }

/-- The locks that the process counts as its own. -/
def Claims (child : SchedulerChild) (name : QueueName) : Prop :=
  name ∈ child.self.acquiredLocks ∨
    ∃ since names successful, child.phase = .acquiring since names successful ∧ name ∈ successful

/-- `RQScheduler.work` in the process of the scheduler object `i`. It does only what comes next. -/
def step (i : ℕ) (now : Time) (child : SchedulerChild) (s : Store) :
    SchedulerChild.Event → Option SchedulerChild × Store
  | .turn =>
    match child.phase with
    | .awake since =>
      if child.shouldReacquireLocks now then
        (some { child with phase := .acquiring since child.self.queueNames ∅ }, s)
      else (some (child.enqueue since), s)
    | _ => (some child, s)
  | .setLock =>
    match child.phase with
    | .acquiring since (name :: names) successful =>
      (some { child with
          phase := .acquiring since names (RQScheduler.successfulLocks name successful s) },
        child.self.setLock i name now s)
    | _ => (some child, s)
  | .acquired =>
    match child.phase with
    | .acquiring since [] successful =>
      (some (enqueue { child with
        self := child.self.addLocks successful, lockAcquisitionTime := now } since), s)
    | _ => (some child, s)
  | .enqueue =>
    match child.phase with
    | .enqueueing since names program =>
      match program.advance s, program, names with
      | some (program', s'), _, _ =>
        (some { child with phase := .enqueueing since names program' }, s')
      -- an exception ends the process, and its locks stay
      | none, .throw _, _ => (none, s)
      | none, _, name :: names =>
        (some { child with
          phase := .enqueueing since names (enqueueDueJobs { name := name } now) }, s)
      | none, _, [] => (some child, s)
    | _ => (some child, s)
  | .heartbeat =>
    match child.phase with
    | .enqueueing since [] (.ret _) =>
      (some { child with phase := .beaten since }, (child.self.heartbeat now).run s)
    | _ => (some child, s)
  | .sleep =>
    match child.phase with
    | .beaten _ => (some { child with phase := .asleep (now + child.self.interval) }, s)
    | _ => (some child, s)
  | .wake =>
    match child.phase with
    | .asleep _ => (some { child with phase := .awake now }, s)
    | _ => (some child, s)
  | .stop =>
    match child.phase with
    -- without locks `release_locks` raises, which ends the process as well
    | .awake _ => (none, (child.self.releaseLocks.run s).2)
    | _ => (some child, s)
  | .crash => (none, s)

end SchedulerChild

/-- Workers, the store, and the time of what has happened last. -/
structure SchedulerFleet where
  workers : ℕ → WorkerScheduler
  store : Store
  clock : Time

namespace SchedulerFleet

inductive Event where
  | worker (i : ℕ) (event : WorkerScheduler.Event)
  | child (i : ℕ) (event : SchedulerChild.Event)
  /-- Keys expire. -/
  | expire

def set (self : SchedulerFleet) (i : ℕ) (worker : WorkerScheduler) (s : Store) : SchedulerFleet :=
  { self with workers := Function.update self.workers i worker, store := s }

def handle (self : SchedulerFleet) (now : Time) (event : Event) : SchedulerFleet :=
  let fleet := match event with
    | .worker i event =>
      let stepped := (self.workers i).step i now self.store event
      self.set i stepped.1 stepped.2
    | .child i event =>
      match (self.workers i).child with
      | some child =>
        let stepped := child.step i now self.store event
        self.set i { self.workers i with child := stepped.1 } stepped.2
      | none => self
    | .expire => { self with store := self.store.expireAt now }
  { fleet with clock := now }

def run (self : SchedulerFleet) : List (Time × Event) → SchedulerFleet
  | [] => self
  | (now, event) :: events => (self.handle now event).run events

/-! ### Which runs keep the pace -/

/-- The time until which the process of a scheduler stays in a phase at most. -/
def InPace (δ ε : ℕ) (now : Time) : SchedulerPhase → Prop
  | .awake since | .acquiring since _ _ | .enqueueing since _ _ | .beaten since =>
    now ≤ since + (δ : ℤ)
  | .asleep wake => now ≤ wake + (ε : ℤ)

instance (δ ε : ℕ) (now : Time) : (phase : SchedulerPhase) → Decidable (InPace δ ε now phase)
  | .awake since => inferInstanceAs (Decidable (now ≤ since + (δ : ℤ)))
  | .acquiring since _ _ => inferInstanceAs (Decidable (now ≤ since + (δ : ℤ)))
  | .enqueueing since _ _ => inferInstanceAs (Decidable (now ≤ since + (δ : ℤ)))
  | .beaten since => inferInstanceAs (Decidable (now ≤ since + (δ : ℤ)))
  | .asleep wake => inferInstanceAs (Decidable (now ≤ wake + (ε : ℤ)))

/-- A worker takes as long for `acquire_locks` at most as a turn takes. -/
structure WorkerInPace (δ ε : ℕ) (now : Time) (worker : WorkerScheduler) : Prop where
  child : ∀ child ∈ worker.child, InPace δ ε now child.phase
  acquiring : ∀ call ∈ worker.acquiring, now ≤ call.1 + (δ : ℤ)

instance (δ ε : ℕ) (now : Time) (worker : WorkerScheduler) :
    Decidable (WorkerInPace δ ε now worker) :=
  decidable_of_iff ((∀ child ∈ worker.child, InPace δ ε now child.phase) ∧
    ∀ call ∈ worker.acquiring, now ≤ call.1 + (δ : ℤ)) ⟨fun h => ⟨h.1, h.2⟩, fun h => ⟨h.1, h.2⟩⟩

def sleepsUntil : SchedulerPhase → Option Time
  | .asleep wake => some wake
  | _ => none

/-- A process is only started when the locks that the object has acquired before are still its own,
and no sleep ends early. -/
def Permits (δ : ℕ) (fleet : SchedulerFleet) (now : Time) : Event → Prop
  | .worker i (.start _) => ∀ name ∈ (fleet.workers i).self.acquiredLocks,
    HeldUntil fleet.store i name (now + (δ : ℤ))
  | .child i .wake => ∀ wake ∈ (fleet.workers i).child.bind fun child => sleepsUntil child.phase,
    wake ≤ now
  | _ => True

/-- Moreover time does not go back, and nobody is late. -/
structure Allows (δ ε : ℕ) (fleet : SchedulerFleet) (now : Time) (event : Event) : Prop where
  clock : fleet.clock ≤ now
  pace : ∀ i, WorkerInPace δ ε now (fleet.workers i)
  permits : fleet.Permits δ now event

def AllowsAll (δ ε : ℕ) (self : SchedulerFleet) : List (Time × Event) → Prop
  | [] => True
  | (now, event) :: events =>
    self.Allows δ ε now event ∧ (self.handle now event).AllowsAll δ ε events

/-! ### What holds throughout such runs -/

/-- How long the locks of a process must last in a phase. -/
def lasting (δ interval : ℕ) : SchedulerPhase → Time
  | .awake since | .acquiring since _ _ | .enqueueing since _ _ => since + (δ : ℤ)
  | .beaten since => since + (interval + 60 : ℤ)
  | .asleep wake => wake + (60 - δ : ℤ)

/-- A turn has not begun later than the clock shows. -/
def Begun (clock : Time) : SchedulerPhase → Prop
  | .awake since | .acquiring since _ _ | .enqueueing since _ _ | .beaten since => since ≤ clock
  | .asleep _ => True

structure ChildInv (δ i : ℕ) (s : Store) (clock : Time) (child : SchedulerChild) : Prop where
  held : ∀ name, child.Claims name → HeldUntil s i name (lasting δ child.self.interval child.phase)
  begun : Begun clock child.phase
  harmless : ∀ since names program, child.phase = .enqueueing since names program →
    program.Within (fun _ => True) FramesLocks fun _ => True

structure WorkerInv (δ i : ℕ) (s : Store) (clock : Time) (worker : WorkerScheduler) : Prop where
  child : ∀ child ∈ worker.child, ChildInv δ i s clock child
  held : ∀ since names successful, worker.acquiring = some (since, names, successful) →
    since ≤ clock ∧ ∀ name ∈ successful, HeldUntil s i name (since + worker.self.lockTtl)
  alone : worker.acquiring ≠ none → worker.child = none

def Inv (δ : ℕ) (fleet : SchedulerFleet) : Prop :=
  ∀ i, WorkerInv δ i fleet.store fleet.clock (fleet.workers i)

section Invariant
variable {δ ε i : ℕ} {s s' : Store} {clock now : Time} {child : SchedulerChild}
  {worker : WorkerScheduler}

lemma Begun.mono (h : clock ≤ now) {phase : SchedulerPhase} (hbegun : Begun clock phase) :
    Begun now phase := by
  cases phase with
  | awake since => exact hbegun.trans h
  | acquiring since => exact hbegun.trans h
  | enqueueing since => exact hbegun.trans h
  | beaten since => exact hbegun.trans h
  | asleep => trivial

/-- The locks of a process in pace last. -/
lemma le_lasting (hδ : 2 * δ + ε ≤ 60) (interval : ℕ) {phase : SchedulerPhase}
    (hnow : InPace δ ε now phase) : now ≤ lasting δ interval phase := by
  cases phase with
  | awake since => exact hnow
  | acquiring since => exact hnow
  | enqueueing since => exact hnow
  | beaten since => simp only [InPace, lasting] at hnow ⊢; lia
  | asleep wake => simp only [InPace, lasting] at hnow ⊢; lia

/-- What keeps the locks of a worker as long as it is in pace keeps its invariant. -/
lemma WorkerInv.of_held (h : WorkerInv δ i s clock worker) (hδ : 2 * δ + ε ≤ 60)
    (hclock : clock ≤ now) (hpace : WorkerInPace δ ε now worker)
    (hheld : ∀ name t, now ≤ t → HeldUntil s i name t → HeldUntil s' i name t) :
    WorkerInv δ i s' now worker where
  child child hchild := by
    have hinv := h.child child hchild
    have hle := le_lasting hδ child.self.interval (hpace.child child hchild)
    exact ⟨fun name hname => hheld name _ hle (hinv.held name hname), hinv.begun.mono hclock,
      hinv.harmless⟩
  held since names successful hacquiring := by
    obtain ⟨hbegun, hsuccessful⟩ := h.held since names successful hacquiring
    have hle : now ≤ since + worker.self.lockTtl := by
      have hnow : now ≤ since + (δ : ℤ) := hpace.acquiring _ hacquiring
      unfold RQScheduler.lockTtl
      lia
    exact ⟨hbegun.trans hclock, fun name hname => hheld name _ hle (hsuccessful name hname)⟩
  alone := h.alone

/-- Locks of other scheduler objects are left alone. -/
def Spares (i : ℕ) (s s' : Store) : Prop :=
  ∀ j name t, j ≠ i → HeldUntil s j name t → HeldUntil s' j name t

lemma spares_refl : Spares i s s := fun _ _ _ _ h => h

lemma spares_setLock (scheduler : RQScheduler) (name : QueueName) :
    Spares i s (scheduler.setLock i name now s) :=
  fun _ _ _ _ h => RQScheduler.heldUntil_setLock h name

/-- What leaves a lock alone unless its owner is `i`. -/
lemma spares_of_agree {t : QueueName → Time}
    (h : ∀ name, ¬HeldUntil s i name (t name) → KeyStore.AgreeAt (.schedulerLock name) s' s) :
    Spares i s s' := by
  intro j name t' hji hheld
  by_cases howned : HeldUntil s i name (t name)
  · exact absurd (hheld.unique howned) hji
  · exact hheld.of_agree (h name howned)

/-! ### One step of a process -/

/-- A process whose claims are among those of the process before. -/
lemma ChildInv.of_claims (h : ChildInv δ i s clock child)
    {child' : SchedulerChild} (hself : child'.self.interval = child.self.interval)
    (hclaims : ∀ name, child'.Claims name → child.Claims name)
    (hlasting : lasting δ child.self.interval child'.phase ≤
      lasting δ child.self.interval child.phase)
    (hbegun : Begun now child'.phase)
    (hharmless : ∀ since names program, child'.phase = .enqueueing since names program →
      program.Within (fun _ => True) FramesLocks fun _ => True) :
    ChildInv δ i s now child' where
  held name hname := by
    rw [hself]
    exact (h.held name (hclaims name hname)).mono hlasting
  begun := hbegun
  harmless := hharmless

/-- Nothing happens but that time passes. -/
lemma ChildInv.later (h : ChildInv δ i s clock child) (hclock : clock ≤ now) :
    ChildInv δ i s now child :=
  h.of_claims rfl (fun _ hname => hname) (le_refl _) (h.begun.mono hclock) h.harmless

/-- A process that goes on to `enqueue_scheduled_jobs`. -/
lemma ChildInv.enqueue (h : ChildInv δ i s clock child) (self : RQScheduler) (time : Time)
    (hclock : clock ≤ now) {since : Time} (hbegun : since ≤ clock)
    (hself : self.interval = child.self.interval)
    (hacquired : ∀ name ∈ self.acquiredLocks, child.Claims name)
    (hlasting : since + (δ : ℤ) ≤ lasting δ child.self.interval child.phase) :
    ChildInv δ i s now (SchedulerChild.enqueue ⟨self, time, .awake since⟩ since) := by
  have hprepared : self.prepareRegistries.acquiredLocks = self.acquiredLocks ∧
      self.prepareRegistries.interval = self.interval := by
    unfold RQScheduler.prepareRegistries
    split <;> exact ⟨rfl, rfl⟩
  refine h.of_claims (hprepared.2.trans hself) ?_ hlasting (hbegun.trans hclock) ?_
  · rintro name (hname | ⟨_, _, _, hphase, -⟩)
    · exact hacquired name (hprepared.1 ▸ hname)
    · cases hphase
  · intro _ _ _ hphase
    cases hphase
    trivial

/-- What a step of a process leaves: the locks of other objects, and its own as long as needed. -/
structure ChildStepped (δ i : ℕ) (now : Time) (s : Store)
    (stepped : Option SchedulerChild × Store) : Prop where
  spares : Spares i s stepped.2
  inv : ∀ child ∈ stepped.1, ChildInv δ i stepped.2 now child

lemma stepped_of_inv (h : ChildInv δ i s now child) : ChildStepped δ i now s (some child, s) := by
  refine ⟨spares_refl, fun child' hchild => ?_⟩
  obtain rfl := Option.some.inj hchild
  exact h

lemma stepped_turn (h : ChildInv δ i s clock child) (hclock : clock ≤ now) :
    ChildStepped δ i now s (child.step i now s .turn) := by
  obtain ⟨self, time, phase⟩ := child
  cases phase with
  | awake since =>
    simp only [SchedulerChild.step]
    split
    · refine stepped_of_inv (h.of_claims rfl ?_ (le_refl _) (h.begun.trans hclock) (by simp))
      rintro name (hname | ⟨_, _, _, hphase, hname⟩)
      · exact .inl hname
      · cases hphase
        simp at hname
    · exact stepped_of_inv
        (h.enqueue self time hclock h.begun rfl (fun _ hname => .inl hname) (le_refl _))
  | acquiring | enqueueing | beaten | asleep => exact stepped_of_inv (h.later hclock)

lemma stepped_setLock (hδ : 2 * δ + ε ≤ 60) (h : ChildInv δ i s clock child)
    (hclock : clock ≤ now) : ChildStepped δ i now s (child.step i now s .setLock) := by
  obtain ⟨self, time, phase⟩ := child
  cases phase with
  | acquiring since names successful =>
    cases names with
    | nil => exact stepped_of_inv (h.later hclock)
    | cons name names =>
      refine ⟨spares_setLock self name, fun child' hchild => ?_⟩
      obtain rfl := Option.some.inj hchild
      refine ⟨?_, h.begun.trans hclock, by simp⟩
      have hle : since + (δ : ℤ) ≤ now + self.lockTtl := by
        have hbegun : since ≤ clock := h.begun
        unfold RQScheduler.lockTtl
        lia
      rintro name' (hname | ⟨_, _, _, hphase, hname⟩)
      · exact RQScheduler.heldUntil_setLock (h.held name' (.inl hname)) name
      · cases hphase
        refine RQScheduler.heldUntil_successfulLocks (fun name'' hname'' => ?_) hle hname
        exact h.held name'' (.inr ⟨_, _, _, rfl, hname''⟩)
  | awake | enqueueing | beaten | asleep => exact stepped_of_inv (h.later hclock)

lemma stepped_acquired (h : ChildInv δ i s clock child) (hclock : clock ≤ now) :
    ChildStepped δ i now s (child.step i now s .acquired) := by
  obtain ⟨self, time, phase⟩ := child
  cases phase with
  | acquiring since names successful =>
    cases names with
    | nil =>
      have hnext : ChildInv δ i s now
          (SchedulerChild.enqueue ⟨self.addLocks successful, now, .awake since⟩ since) := by
        refine h.enqueue _ now hclock h.begun rfl (fun name hname => ?_) (le_refl _)
        rcases RQScheduler.mem_foldl_insert.mp hname with hname | hname
        · exact .inl hname
        · exact .inr ⟨_, _, _, rfl, hname⟩
      exact stepped_of_inv hnext
    | cons name names => exact stepped_of_inv (h.later hclock)
  | awake | enqueueing | beaten | asleep => exact stepped_of_inv (h.later hclock)

lemma stepped_enqueue (h : ChildInv δ i s clock child) (hclock : clock ≤ now) :
    ChildStepped δ i now s (child.step i now s .enqueue) := by
  obtain ⟨self, time, phase⟩ := child
  cases phase with
  | enqueueing since names program =>
    have hclaims : ∀ names' program' name,
        SchedulerChild.Claims ⟨self, time, .enqueueing since names' program'⟩ name →
          SchedulerChild.Claims ⟨self, time, .enqueueing since names program⟩ name := by
      rintro names' program' name (hname | ⟨_, _, _, hphase, -⟩)
      · exact .inl hname
      · cases hphase
    simp only [SchedulerChild.step]
    cases hadv : program.advance s with
    | some next =>
      obtain ⟨program', s'⟩ := next
      have hstep := (h.harmless since names program rfl).advance FramesLocks.refl trivial hadv
      dsimp only
      refine ⟨fun j name t _ hheld => hheld.of_agree (hstep.2.1 name), fun child' hchild => ?_⟩
      obtain rfl := Option.some.inj hchild
      refine ⟨fun name hname => ?_, h.begun.trans hclock, ?_⟩
      · exact (h.held name (hclaims names program' name hname)).of_agree (hstep.2.1 name)
      · intro _ _ _ hphase
        cases hphase
        exact hstep.2.2
    | none =>
      have hnext : ∀ name names', ChildStepped δ i now s (some ⟨self, time,
          .enqueueing since names' (enqueueDueJobs { name := name } now)⟩, s) := by
        intro name names'
        refine stepped_of_inv (h.of_claims rfl (hclaims names' _) (le_refl _)
          (h.begun.trans hclock) ?_)
        intro _ _ _ hphase
        cases hphase
        exact framesLocks_enqueueDueJobs { name := name } now
      cases program with
      | throw e =>
        refine ⟨spares_refl, ?_⟩
        simp
      | ret =>
        cases names with
        | nil => exact stepped_of_inv (h.later hclock)
        | cons name names => exact hnext name names
      | step => cases hadv
      | exec w g act next =>
        simp only [Prog.advance] at hadv
        split at hadv <;> cases hadv
  | awake | acquiring | beaten | asleep => exact stepped_of_inv (h.later hclock)

lemma stepped_heartbeat (h : ChildInv δ i s clock child) (hclock : clock ≤ now) :
    ChildStepped δ i now s (child.step i now s .heartbeat) := by
  obtain ⟨self, time, phase⟩ := child
  cases phase with
  | enqueueing since names program =>
    cases names with
    | cons => exact stepped_of_inv (h.later hclock)
    | nil =>
      cases program with
      | ret =>
        have hheld : ∀ name ∈ self.acquiredLocks, HeldUntil s i name (since + (δ : ℤ)) :=
          fun name hname => h.held name (.inl hname)
        constructor
        · refine spares_of_agree (t := fun _ => since + (δ : ℤ)) fun name hnot => ?_
          exact RQScheduler.frames_heartbeat (fun hname => hnot (hheld name hname)) s
        · intro child' hchild
          obtain rfl := Option.some.inj hchild
          refine ⟨fun name hname => ?_, h.begun.trans hclock, by simp⟩
          have hbegun : since ≤ clock := h.begun
          rcases hname with hname | ⟨_, _, _, hphase, -⟩
          · refine (RQScheduler.heldUntil_heartbeat hname (hheld name hname)).mono ?_
            simp only [lasting, RQScheduler.lockTtl]
            lia
          · cases hphase
      | throw | step | exec => exact stepped_of_inv (h.later hclock)
  | awake | acquiring | beaten | asleep => exact stepped_of_inv (h.later hclock)

lemma stepped_sleep (h : ChildInv δ i s clock child) (hclock : clock ≤ now)
    (hpace : InPace δ ε now child.phase) : ChildStepped δ i now s (child.step i now s .sleep) := by
  obtain ⟨self, time, phase⟩ := child
  cases phase with
  | beaten since =>
    refine stepped_of_inv (h.of_claims rfl ?_ ?_ trivial (by simp))
    · rintro name (hname | ⟨_, _, _, hphase, -⟩)
      · exact .inl hname
      · cases hphase
    · -- the heartbeat came in this turn, which has lasted for `δ` at most
      simp only [lasting, InPace] at hpace ⊢
      lia
  | awake | acquiring | enqueueing | asleep => exact stepped_of_inv (h.later hclock)

lemma stepped_wake (hδ : 2 * δ + ε ≤ 60) (h : ChildInv δ i s clock child) (hclock : clock ≤ now)
    (hpace : InPace δ ε now child.phase) : ChildStepped δ i now s (child.step i now s .wake) := by
  obtain ⟨self, time, phase⟩ := child
  cases phase with
  | asleep wake =>
    refine stepped_of_inv (h.of_claims rfl ?_ ?_ (le_refl now) (by simp))
    · rintro name (hname | ⟨_, _, _, hphase, -⟩)
      · exact .inl hname
      · cases hphase
    · -- the next heartbeat comes within `δ` again
      simp only [lasting, InPace] at hpace ⊢
      lia
  | awake | acquiring | enqueueing | beaten => exact stepped_of_inv (h.later hclock)

lemma stepped_stop (h : ChildInv δ i s clock child) (hclock : clock ≤ now) :
    ChildStepped δ i now s (child.step i now s .stop) := by
  obtain ⟨self, time, phase⟩ := child
  cases phase with
  | awake since =>
    constructor
    · refine spares_of_agree (t := fun _ => since + (δ : ℤ)) fun name hnot => ?_
      exact RQScheduler.agreeAt_releaseLocks fun hname => hnot (h.held name (.inl hname))
    · simp [SchedulerChild.step]
  | acquiring | enqueueing | beaten | asleep => exact stepped_of_inv (h.later hclock)

/-- **One step of a process.** -/
lemma stepped_child (hδ : 2 * δ + ε ≤ 60) (h : ChildInv δ i s clock child) (hclock : clock ≤ now)
    (hpace : InPace δ ε now child.phase) (event : SchedulerChild.Event) :
    ChildStepped δ i now s (child.step i now s event) := by
  cases event with
  | turn => exact stepped_turn h hclock
  | setLock => exact stepped_setLock hδ h hclock
  | acquired => exact stepped_acquired h hclock
  | enqueue => exact stepped_enqueue h hclock
  | heartbeat => exact stepped_heartbeat h hclock
  | sleep => exact stepped_sleep h hclock hpace
  | wake => exact stepped_wake hδ h hclock hpace
  | stop => exact stepped_stop h hclock
  | crash => exact ⟨spares_refl, by simp [SchedulerChild.step]⟩

/-! ### One step of a worker -/

lemma WorkerInv.later (h : WorkerInv δ i s clock worker) (hclock : clock ≤ now) :
    WorkerInv δ i s now worker where
  child child hchild := (h.child child hchild).later hclock
  held since names successful hacquiring :=
    ⟨(h.held since names successful hacquiring).1.trans hclock,
      (h.held since names successful hacquiring).2⟩
  alone := h.alone

/-- **One step of a worker.** -/
lemma stepped_worker (hδ : 2 * δ + ε ≤ 60) (h : WorkerInv δ i s clock worker) (hclock : clock ≤ now)
    (hpace : WorkerInPace δ ε now worker) (event : WorkerScheduler.Event)
    (hstart : ∀ pid, event = .start pid → ∀ name ∈ worker.self.acquiredLocks,
      HeldUntil s i name (now + (δ : ℤ))) :
    Spares i s (worker.step i now s event).2 ∧
      WorkerInv δ i (worker.step i now s event).2 now (worker.step i now s event).1 := by
  obtain ⟨self, acquiring, child⟩ := worker
  cases event with
  | acquire =>
    cases acquiring with
    | some => exact ⟨spares_refl, h.later hclock⟩
    | none =>
      cases child with
      | some => exact ⟨spares_refl, h.later hclock⟩
      | none =>
        refine ⟨spares_refl, by simp [WorkerScheduler.step], fun _ _ _ hacquiring => ?_, by
          simp [WorkerScheduler.step]⟩
        cases hacquiring
        exact ⟨le_refl now, by simp⟩
  | setLock =>
    cases acquiring with
    | none => exact ⟨spares_refl, h.later hclock⟩
    | some call =>
      obtain ⟨since, names, successful⟩ := call
      obtain ⟨hbegun, hsuccessful⟩ := h.held since names successful rfl
      cases names with
      | nil => exact ⟨spares_refl, h.later hclock⟩
      | cons name names =>
        refine ⟨spares_setLock self name, ?_, ?_, fun _ => h.alone (by simp)⟩
        · intro child' hchild
          have hnone : child = none := h.alone (by simp)
          rw [show child = some child' from hchild] at hnone
          cases hnone
        · intro _ _ _ hacquiring
          cases hacquiring
          refine ⟨hbegun.trans hclock, fun name' hname' => ?_⟩
          have hle : since + self.lockTtl ≤ now + self.lockTtl := by lia
          exact RQScheduler.heldUntil_successfulLocks hsuccessful hle hname'
  | start pid =>
    cases acquiring with
    | none => exact ⟨spares_refl, h.later hclock⟩
    | some call =>
      obtain ⟨since, names, successful⟩ := call
      obtain ⟨hbegun, hsuccessful⟩ := h.held since names successful rfl
      cases names with
      | cons => exact ⟨spares_refl, h.later hclock⟩
      | nil =>
        refine ⟨spares_refl, ?_, by simp [WorkerScheduler.step], by simp [WorkerScheduler.step]⟩
        intro child' hchild
        simp only [WorkerScheduler.step] at hchild
        split at hchild
        · cases hchild
        · obtain rfl := Option.some.inj hchild
          refine ⟨fun name hname => ?_, le_refl now, by simp⟩
          -- what the object has acquired before is its own still, and the rest it has just set
          rcases hname with hname | ⟨_, _, _, hphase, -⟩
          · rcases RQScheduler.mem_foldl_insert.mp hname with hname | hname
            · exact hstart pid rfl name hname
            · have hnow : now ≤ since + (δ : ℤ) := hpace.acquiring _ rfl
              refine (hsuccessful name hname).mono ?_
              simp only [lasting, RQScheduler.lockTtl]
              lia
          · cases hphase
  | fail =>
    exact ⟨spares_refl, (h.later hclock).child, by simp [WorkerScheduler.step],
      by simp [WorkerScheduler.step]⟩

end Invariant

/-! ### Whole runs -/

section Runs
variable {δ ε : ℕ} {self : SchedulerFleet}

/-- What one worker does: the locks of the others are left alone. -/
lemma Inv.set (h : self.Inv δ) (hδ : 2 * δ + ε ≤ 60) {now : Time} (hclock : self.clock ≤ now)
    (hpace : ∀ i, WorkerInPace δ ε now (self.workers i)) {i : ℕ} {worker : WorkerScheduler}
    {s : Store} (hspares : Spares i self.store s) (hworker : WorkerInv δ i s now worker) :
    Inv δ { self.set i worker s with clock := now } := by
  intro j
  by_cases hji : j = i
  · subst hji
    simpa [SchedulerFleet.set] using hworker
  · have hkept := (h j).of_held hδ hclock (hpace j) fun name t _ hheld => hspares j name t hji hheld
    simpa [SchedulerFleet.set, hji] using hkept

lemma Inv.handle (h : self.Inv δ) (hδ : 2 * δ + ε ≤ 60) {now : Time} {event : Event}
    (hallows : self.Allows δ ε now event) : (self.handle now event).Inv δ := by
  have hclock := hallows.clock
  cases event with
  | worker i event =>
    obtain ⟨hspares, hworker⟩ := stepped_worker hδ (h i) hclock (hallows.pace i) event
      fun pid hstart => by
        subst hstart
        exact hallows.permits
    exact h.set hδ hclock hallows.pace hspares hworker
  | child i event =>
    simp only [SchedulerFleet.handle]
    split
    · next child hchild =>
      have hstepped := stepped_child hδ ((h i).child child hchild) hclock
        ((hallows.pace i).child child hchild) event
      -- a worker with a process is not in `acquire_locks`
      have hidle : (self.workers i).acquiring = none := by
        by_contra hne
        rw [(h i).alone hne] at hchild
        cases hchild
      exact h.set hδ hclock hallows.pace hstepped.spares
        ⟨hstepped.inv, by simp [hidle], by simp [hidle]⟩
    · exact fun i => (h i).later hclock
  | expire =>
    exact fun i => (h i).of_held hδ hclock (hallows.pace i) fun name t hnow hheld =>
      hheld.expireAt hnow

lemma Inv.run (h : self.Inv δ) (hδ : 2 * δ + ε ≤ 60) {events : List (Time × Event)}
    (hallows : self.AllowsAll δ ε events) : (self.run events).Inv δ := by
  induction events generalizing self with
  | nil => exact h
  | cons event events ih => exact ih (h.handle hδ hallows.1) hallows.2

/-- No process has been started, and no lock acquired. The store may hold locks. -/
def Fresh (fleet : SchedulerFleet) : Prop :=
  ∀ i, (fleet.workers i).acquiring = none ∧ (fleet.workers i).child = none ∧
    (fleet.workers i).self.acquiredLocks = ∅

/-- No two processes have acquired the lock of one queue. -/
def Exclusive (fleet : SchedulerFleet) : Prop :=
  ∀ i j child child' name, (fleet.workers i).child = some child →
    (fleet.workers j).child = some child' → name ∈ child.self.acquiredLocks →
    name ∈ child'.self.acquiredLocks → i = j

/-- Every lock that a process counts as acquired is in the store, and set by its object. -/
def Holding (fleet : SchedulerFleet) : Prop :=
  ∀ i child name, (fleet.workers i).child = some child → name ∈ child.self.acquiredLocks →
    ∃ pid, fleet.store.val (.schedulerLock name) = some ⟨pid, i⟩

/-- **Schedulers in pace keep their locks.** -/
theorem keeps_locks (hδ : 2 * δ + ε ≤ 60) (h : self.Fresh) {events : List (Time × Event)}
    (hallows : self.AllowsAll δ ε events) :
    (self.run events).Exclusive ∧ (self.run events).Holding := by
  have hfresh : self.Inv δ := by
    intro i
    obtain ⟨hacquiring, hchild, -⟩ := h i
    exact ⟨by simp [hchild], by simp [hacquiring], by simp [hacquiring]⟩
  have hinv := hfresh.run hδ hallows
  constructor
  · intro i j child child' name hi hj hname hname'
    exact (((hinv i).child child hi).held name (.inl hname)).unique
      (((hinv j).child child' hj).held name (.inl hname'))
  · intro i child name hi hname
    obtain ⟨pid, -, hval, -⟩ := ((hinv i).child child hi).held name (.inl hname)
    exact ⟨pid, hval⟩

end Runs

/-! ### Two workers -/

/-- The worker that an event belongs to. -/
def Event.Of (i : ℕ) : Event → Prop
  | .worker j _ | .child j _ => j = i
  | .expire => True

lemma workers_handle {self : SchedulerFleet} {now : Time} {event : Event} {i j : ℕ}
    (h : event.Of j) (hne : i ≠ j) : (self.handle now event).workers i = self.workers i := by
  cases event with
  | worker k event =>
    obtain rfl : k = j := h
    simp [SchedulerFleet.handle, SchedulerFleet.set, hne]
  | child k event =>
    obtain rfl : k = j := h
    simp only [SchedulerFleet.handle]
    split
    · simp [SchedulerFleet.set, hne]
    · rfl
  | expire => rfl

/-- Workers for one queue. -/
def twoWorkers : SchedulerFleet where
  workers i := { self := { queueNames := ["default"], pid := i } }
  store := Store.empty
  clock := 0

lemma twoWorkers_fresh : twoWorkers.Fresh := fun _ => ⟨rfl, rfl, rfl⟩

/-- One event, of one of the first two workers, while the others are idle. -/
lemma twoWorkers_step {fleet : SchedulerFleet} {now : Time} {event : Event}
    {events : List (Time × Event)}
    (hothers : ∀ i, i ≠ 0 → i ≠ 1 → fleet.workers i = twoWorkers.workers i)
    (hevent : event.Of 0 ∨ event.Of 1) (hclock : fleet.clock ≤ now)
    (hfirst : WorkerInPace 1 1 now (fleet.workers 0))
    (hsecond : WorkerInPace 1 1 now (fleet.workers 1)) (hpermits : fleet.Permits 1 now event)
    (hrest : (∀ i, i ≠ 0 → i ≠ 1 → (fleet.handle now event).workers i = twoWorkers.workers i) →
      (fleet.handle now event).AllowsAll 1 1 events) :
    fleet.AllowsAll 1 1 ((now, event) :: events) := by
  refine ⟨⟨hclock, fun i => ?_, hpermits⟩, hrest fun i hi hi' => ?_⟩
  · by_cases hi : i = 0
    · rwa [hi]
    · by_cases hi' : i = 1
      · rwa [hi']
      · rw [hothers i hi hi']
        exact ⟨by simp [twoWorkers], by simp [twoWorkers]⟩
  · rcases hevent with hevent | hevent
    · rw [workers_handle hevent hi, hothers i hi hi']
    · rw [workers_handle hevent hi', hothers i hi hi']

/-- The first worker starts a process, and a turn of its loop. -/
def firstTurn : List (Time × Event) :=
  [(0, .worker 0 .acquire), (0, .worker 0 .setLock), (0, .worker 0 (.start 100)),
    (1, .child 0 .turn), (1, .child 0 .enqueue), (1, .child 0 .enqueue), (1, .child 0 .heartbeat),
    (1, .child 0 .sleep), (2, .child 0 .wake)]

lemma firstTurn_allows : twoWorkers.AllowsAll 1 1 firstTurn := by
  refine twoWorkers_step (fun _ _ _ => rfl) (.inl rfl) (by decide) (by decide) (by decide)
    trivial fun h => ?_
  refine twoWorkers_step h (.inl rfl) (by decide) (by decide) (by decide) trivial fun h => ?_
  refine twoWorkers_step h (.inl rfl) (by decide) (by decide) (by decide)
    (fun _ hname => absurd hname List.not_mem_nil) fun h => ?_
  refine twoWorkers_step h (.inl rfl) (by decide) (by decide) (by decide) trivial fun h => ?_
  refine twoWorkers_step h (.inl rfl) (by decide) (by decide) (by decide) trivial fun h => ?_
  refine twoWorkers_step h (.inl rfl) (by decide) (by decide) (by decide) trivial fun h => ?_
  refine twoWorkers_step h (.inl rfl) (by decide) (by decide) (by decide) trivial fun h => ?_
  refine twoWorkers_step h (.inl rfl) (by decide) (by decide) (by decide) trivial fun h => ?_
  have hwake : ∀ wake ∈ ((twoWorkers.run firstTurn.dropLast).workers 0).child.bind
      fun child => sleepsUntil child.phase, wake ≤ 2 := by decide
  exact twoWorkers_step h (.inl rfl) (by decide) (by decide) (by decide) hwake fun _ => trivial

theorem keeps_locks_firstTurn :
    (twoWorkers.run firstTurn).Exclusive ∧ (twoWorkers.run firstTurn).Holding :=
  keeps_locks (by decide : 2 * 1 + 1 ≤ 60) twoWorkers_fresh firstTurn_allows

/-- The process of the first worker dies, its lock expires, and the second worker acquires it; then
the first worker looks after its scheduler. -/
def takeover : List (Time × Event) :=
  [(0, .worker 0 .acquire), (0, .worker 0 .setLock), (0, .worker 0 (.start 100)),
    (1, .child 0 .crash), (62, .expire), (62, .worker 1 .acquire), (62, .worker 1 .setLock),
    (62, .worker 1 (.start 101)), (63, .worker 0 .acquire), (63, .worker 0 .setLock)]

lemma takeover_allows : twoWorkers.AllowsAll 1 1 takeover := by
  refine twoWorkers_step (fun _ _ _ => rfl) (.inl rfl) (by decide) (by decide) (by decide)
    trivial fun h => ?_
  refine twoWorkers_step h (.inl rfl) (by decide) (by decide) (by decide) trivial fun h => ?_
  refine twoWorkers_step h (.inl rfl) (by decide) (by decide) (by decide)
    (fun _ hname => absurd hname List.not_mem_nil) fun h => ?_
  refine twoWorkers_step h (.inl rfl) (by decide) (by decide) (by decide) trivial fun h => ?_
  refine twoWorkers_step h (.inl trivial) (by decide) (by decide) (by decide) trivial fun h => ?_
  refine twoWorkers_step h (.inr rfl) (by decide) (by decide) (by decide) trivial fun h => ?_
  refine twoWorkers_step h (.inr rfl) (by decide) (by decide) (by decide) trivial fun h => ?_
  refine twoWorkers_step h (.inr rfl) (by decide) (by decide) (by decide)
    (fun _ hname => absurd hname List.not_mem_nil) fun h => ?_
  refine twoWorkers_step h (.inl rfl) (by decide) (by decide) (by decide) trivial fun h => ?_
  exact twoWorkers_step h (.inl rfl) (by decide) (by decide) (by decide) trivial fun _ => trivial

/-- **A restarted scheduler shares the lock of another one.** The `SET` of the first worker fails,
but its object has acquired the lock before. -/
theorem restart_shares : twoWorkers.AllowsAll 1 1 takeover ∧
    ¬((twoWorkers.run takeover).handle 63 (.worker 0 (.start 102))).Exclusive := by
  refine ⟨takeover_allows, fun h => ?_⟩
  have hsame := h 0 1 _ _ "default" rfl rfl (by decide) (by decide)
  cases hsame

end SchedulerFleet

end RedisQueue
