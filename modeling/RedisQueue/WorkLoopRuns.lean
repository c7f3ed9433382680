import RedisQueue.WorkLoop

/-!
# Runs of the work loop

* `forked_of_signal`: which job is still executed after the first signal;
* `forked_of_suspended`: how many jobs are still executed after `rq suspend`;
* `executes_in_order`: one horse at a time, the order of the jobs, `max_jobs`.
-/

namespace RedisQueue

namespace WorkLoop

/-- A horse can be alive at these statements only. -/
def Statement.mounted : Statement → Bool
  | .setHorsePid _ | .waitForHorse | .teardown | .exited => true
  | _ => false

/-- The job that has been popped and that no horse has been forked for. -/
def Statement.inHand : Statement → Option JobId
  | .fetch id | .reorderQueues id | .createExecution id | .setBusy id | .executePipeline id
  | .fork id => some id
  | .lastHeartbeat result | .resultTest result => result
  | _ => none

variable {self : Loop} {events : List Event}

/-! ## One horse at a time -/

namespace Loop

def Ended (self : Loop) : Prop := self.next = .teardown ∨ self.next = .exited

/-- There is one horse at most, and the worker knows which one. -/
structure HorseInv (loop : Loop) : Prop where
  one : loop.horses.length ≤ 1
  mounted : loop.next.mounted = false → loop.horses = []
  child : ∀ childPid, loop.next = .setHorsePid childPid → ∀ horse ∈ loop.horses, horse = childPid
  known : loop.next = .waitForHorse → ∀ horse ∈ loop.horses, horse = loop.horsePid

/-- No horse is forked or waited for. -/
lemma HorseInv.of_same {loop : Loop} (h : self.HorseInv) (hhorses : loop.horses = self.horses)
    (hnext : loop.Ended ∨ self.next.mounted = false ∧ loop.next.mounted = false) :
    loop.HorseInv := by
  rcases hnext with hended | ⟨hself, hloop⟩
  · rcases hended with hnext | hnext <;> constructor <;>
      simp [hnext, hhorses, h.one, Statement.mounted]
  · have hnone := hhorses.trans (h.mounted hself)
    constructor <;> simp [hnone]

lemma ended_or_unmounted (self : Loop) (e : Raised) : (self.raise e).Ended ∨
    self.next.mounted = false ∧ (self.raise e).next.mounted = false := by
  rcases self.next.handler_cases e with he | he | ⟨caller, hnext, he⟩ | ⟨hdequeueing, he⟩
  · exact .inl (.inr he)
  · exact .inl (.inl he)
  · right
    rw [show (self.raise e).next = _ from he, hnext]
    exact ⟨rfl, rfl⟩
  · right
    rw [show (self.raise e).next = _ from he]
    cases hnext : self.next <;> simp_all [Statement.mounted, Statement.dequeueing]

lemma HorseInv.raise (h : self.HorseInv) (e : Raised) : (self.raise e).HorseInv :=
  h.of_same rfl (self.ended_or_unmounted e)

/-- Fewer horses. -/
lemma HorseInv.filter (h : self.HorseInv) (p : ℕ → Bool) :
    ({ self with horses := self.horses.filter p } : Loop).HorseInv where
  one := le_trans (List.length_filter_le p _) h.one
  mounted hmounted := by rw [h.mounted hmounted]; rfl
  child childPid hnext horse hmem := h.child childPid hnext horse (List.mem_of_mem_filter hmem)
  known hnext horse hmem := h.known hnext horse (List.mem_of_mem_filter hmem)

/-- `monitor_work_horse` goes on when the horse has ended. -/
lemma HorseInv.waitForHorse (h : self.HorseInv) (hnext : self.next = .waitForHorse)
    (finding : Finding) : (self.statement finding).HorseInv := by
  have hknown := h.known hnext
  have hfinished : ∀ loop : Loop, loop.next = .horseFinished → loop.horses = [] →
      loop.HorseInv := by
    intro loop hfinished hnone
    constructor <;> simp [hfinished, hnone]
  unfold Loop.statement
  rw [hnext]
  dsimp only
  split
  · exact hfinished _ rfl (by simpa [killHorse] using hknown)
  · split
    · exact h
    · next hdead =>
      refine hfinished _ rfl (List.eq_nil_iff_forall_not_mem.mpr fun horse hmem => hdead ?_)
      rwa [← hknown horse hmem]

lemma HorseInv.fork (h : self.HorseInv) {id : JobId} (hnext : self.next = .fork id)
    (finding : Finding) : (self.statement finding).HorseInv := by
  have hnone : self.horses = [] := h.mounted (by rw [hnext]; rfl)
  simp only [Loop.statement, hnext, hnone]
  constructor <;> simp [Statement.mounted]

lemma HorseInv.setHorsePid (h : self.HorseInv) {childPid : ℕ}
    (hnext : self.next = .setHorsePid childPid) (finding : Finding) :
    (self.statement finding).HorseInv := by
  simp only [Loop.statement, hnext]
  exact ⟨h.one, fun hmounted => (by cases hmounted), fun _ hset => (by cases hset),
    fun _ => h.child childPid hnext⟩

/-- The other statements. -/
lemma horses_statement (finding : Finding) (hwait : self.next ≠ .waitForHorse)
    (hfork : ∀ id, self.next ≠ .fork id) (hset : ∀ childPid, self.next ≠ .setHorsePid childPid) :
    (self.statement finding).horses = self.horses ∧ ((self.statement finding).Ended ∨
      self.next.mounted = false ∧ (self.statement finding).next.mounted = false) := by
  have hraise := fun e => self.ended_or_unmounted e
  unfold Loop.statement
  repeat' split
  all_goals
    first
    | exact ⟨rfl, hraise _⟩
    | exact ⟨rfl, .inl (.inl rfl)⟩
    | exact ⟨rfl, .inl (.inr rfl)⟩
    | clear hraise
      simp_all [Statement.mounted, Ended]

lemma HorseInv.statement (h : self.HorseInv) (finding : Finding) :
    (self.statement finding).HorseInv := by
  by_cases hwait : self.next = .waitForHorse
  · exact h.waitForHorse hwait finding
  · by_cases hfork : ∃ id, self.next = .fork id
    · obtain ⟨id, hnext⟩ := hfork
      exact h.fork hnext finding
    · by_cases hset : ∃ childPid, self.next = .setHorsePid childPid
      · obtain ⟨childPid, hnext⟩ := hset
        exact h.setHorsePid hnext finding
      · obtain ⟨hhorses, hnext⟩ :=
          horses_statement finding hwait (not_exists.mp hfork) (not_exists.mp hset)
        exact h.of_same hhorses hnext

lemma HorseInv.signal (h : self.HorseInv) (caught : Bool) : (self.signal caught).HorseInv := by
  unfold Loop.signal requestStop requestForceStop
  repeat' split
  · exact ⟨h.one, h.mounted, h.child, h.known⟩
  · exact ⟨h.one, h.mounted, h.child, h.known⟩
  · exact (show HorseInv { self with shutdownRequestedDate := some self.clock } from
      ⟨h.one, h.mounted, h.child, h.known⟩).raise _
  · exact h
  · exact (h.filter _).raise _
  · exact h.raise _

lemma HorseInv.handle (h : self.HorseInv) (event : Event) : (self.handle event).HorseInv := by
  cases event with
  | statement finding => exact h.statement finding
  | raises e => exact h.raise e
  | signal caught =>
    unfold Loop.handle
    dsimp only
    split
    · exact h
    · exact h.signal caught
  | horseEnds pid => exact h.filter _
  | suspend | resume | elapse microseconds => exact ⟨h.one, h.mounted, h.child, h.known⟩

lemma horseInv_run (options : Options) (workersSuspended : Bool) (events : List Event) :
    ((start options workersSuspended).run events).HorseInv :=
  run_induction (P := HorseInv) (fun _ event h => h.handle event)
    (by constructor <;> simp [start]) events

/-! ### The job in hand -/

/-- The loop comes to its end with these jobs executed. -/
structure Finishing (jobs : List JobId) (loop : Loop) : Prop where
  horseInv : loop.HorseInv
  stopping : loop.Stopping
  forked : loop.forked ++ loop.next.inHand.toList = jobs
  ended : loop.next = .teardown ∨ loop.next = .exited → loop.horses = []

lemma Stopping.forked (h : self.Stopping) (finding : Finding) :
    (self.statement finding).forked ++ (self.statement finding).next.inHand.toList =
      self.forked ++ self.next.inHand.toList := by
  obtain ⟨hleaving, hrequested⟩ := h
  unfold Loop.statement
  repeat' split
  all_goals simp_all [Statement.leaving, Statement.inHand, killHorse]

/-- The loop ends by itself where no horse is alive. -/
lemma Finishing.ended_statement {jobs : List JobId} (h : self.Finishing jobs) (finding : Finding)
    (hnext : (self.statement finding).next = .teardown ∨ (self.statement finding).next = .exited) :
    (self.statement finding).horses = [] := by
  obtain ⟨hhorse, ⟨hleaving, hrequested⟩, -, hended⟩ := h
  have hmounted := hhorse.mounted
  revert hnext
  unfold Loop.statement
  repeat' split
  all_goals simp_all [Statement.leaving, Statement.mounted]

lemma Finishing.statement {jobs : List JobId} (h : self.Finishing jobs) (finding : Finding) :
    (self.statement finding).Finishing jobs where
  horseInv := h.horseInv.statement finding
  stopping := h.stopping.statement finding
  forked := (h.stopping.forked finding).trans h.forked
  ended := h.ended_statement finding

lemma Finishing.run {jobs : List JobId} (h : self.Finishing jobs)
    (hraises : ∀ e, .raises e ∉ events) (hsignal : ∀ caught, .signal caught ∉ events) :
    (self.run events).Finishing jobs := by
  induction events generalizing self with
  | nil => exact h
  | cons event events ih =>
    simp only [List.mem_cons, not_or] at hraises hsignal
    refine ih ?_ (fun e => (hraises e).2) fun caught => (hsignal caught).2
    cases event with
    | statement finding => exact h.statement finding
    | raises e => exact absurd rfl (hraises e).1
    | signal caught => exact absurd rfl (hsignal caught).1
    | horseEnds pid =>
      refine ⟨h.horseInv.handle _, h.stopping.handle _, h.forked, fun hnext => ?_⟩
      show self.horses.filter _ = []
      rw [h.ended hnext]
      rfl
    | suspend | resume | elapse microseconds =>
      exact ⟨h.horseInv.handle _, h.stopping.handle _, h.forked, h.ended⟩

/-- The job that a signal leaves to be executed. -/
def jobLeft (self : Loop) : List JobId :=
  if self.state = .busy then self.next.inHand.toList else []

lemma handler_stopRequested (hstuck : ¬self.HandlesStuckJob)
    (hrunning : self.next ≠ .teardown ∧ self.next ≠ .exited) :
    self.next.handler .stopRequested = .teardown := by
  cases hnext : self.next <;> simp_all [Statement.handler, HandlesStuckJob]

/-- A horse is alive under a busy worker only. -/
lemma horses_eq_nil (hstate : self.StateInv) (hhorse : self.HorseInv) (hidle : self.state ≠ .busy)
    (hrunning : self.next ≠ .teardown ∧ self.next ≠ .exited) : self.horses = [] := by
  apply hhorse.mounted
  by_contra hmounted
  have hexecuting := hstate.executing
  cases hnext : self.next <;> simp_all [Statement.mounted, Statement.executing]

lemma Unsignalled.finishing (h : self.Unsignalled) (hstate : self.StateInv)
    (hhorse : self.HorseInv) {caught : Bool} (hheeds : ¬self.Swallows caught)
    (hrunning : self.next ≠ .teardown ∧ self.next ≠ .exited) :
    (self.handle (.signal caught)).Finishing (self.forked ++ self.jobLeft) := by
  have hstopping := h.stopping hstate hheeds
  have hhorse' := hhorse.handle (.signal caught)
  rw [h.handle_signal hrunning.2] at hstopping hhorse' ⊢
  by_cases hbusy : self.state = .busy
  · rw [requestStop, if_pos hbusy] at hhorse' hstopping ⊢
    exact ⟨hhorse', hstopping, by rw [jobLeft, if_pos hbusy],
      fun hended => absurd hended (not_or.mpr hrunning)⟩
  · have hnone := horses_eq_nil hstate hhorse hbusy hrunning
    obtain ⟨hcaught, hstuck⟩ : ¬caught = true ∧ ¬self.HandlesStuckJob :=
      not_or.mp fun hswallows => hheeds ⟨hbusy, hrunning.2, hswallows⟩
    rw [requestStop, if_neg hbusy, if_neg hcaught] at hhorse' hstopping ⊢
    refine ⟨hhorse', hstopping, ?_, fun _ => hnone⟩
    simp [jobLeft, hbusy, Loop.raise, handler_stopRequested hstuck hrunning, Statement.inHand]

end Loop

/-- What the first signal leaves to be done, if it is not swallowed: the loop ends when the job
under which the worker is busy has been executed. A job that has been popped before the worker is
busy is not executed. -/
theorem forked_of_signal (options : Options) (workersSuspended : Bool) (earlier later : List Event)
    (caught : Bool) (hfirst : ∀ caught, .signal caught ∉ earlier)
    (hheeds : ¬((Loop.start options workersSuspended).run earlier).Swallows caught)
    (hrunning : ((Loop.start options workersSuspended).run earlier).next ≠ .teardown ∧
      ((Loop.start options workersSuspended).run earlier).next ≠ .exited)
    (hraises : ∀ e, .raises e ∉ later) (hsecond : ∀ caught, .signal caught ∉ later)
    (hexited : ((Loop.start options workersSuspended).run
      (earlier ++ .signal caught :: later)).next = .exited) :
    ((Loop.start options workersSuspended).run (earlier ++ .signal caught :: later)).forked =
        ((Loop.start options workersSuspended).run earlier).forked ++
          ((Loop.start options workersSuspended).run earlier).jobLeft ∧
      ((Loop.start options workersSuspended).run
        (earlier ++ .signal caught :: later)).horses = [] := by
  have hunsignalled : ((Loop.start options workersSuspended).run earlier).Unsignalled :=
    Loop.Unsignalled.run ⟨rfl, rfl⟩ hfirst
  have hfinishing := (hunsignalled.finishing (Loop.stateInv_run options workersSuspended earlier)
    (Loop.horseInv_run options workersSuspended earlier) hheeds hrunning).run hraises hsecond
  have hrun : (Loop.start options workersSuspended).run (earlier ++ .signal caught :: later) =
      (((Loop.start options workersSuspended).run earlier).handle (.signal caught)).run later :=
    Loop.run_append _ _ _
  rw [hrun] at hexited ⊢
  refine ⟨?_, hfinishing.ended (.inr hexited)⟩
  simpa [hexited, Statement.inHand] using hfinishing.forked

/-- A worker takes the job `"a"` and gets busy. -/
def busyWorker : List Event :=
  List.replicate 8 (.statement .nothing) ++ [.statement (.job "a"), .statement .hash] ++
    List.replicate 5 (.statement .nothing)

/-- The signal comes right after that. The horse of the job ends, then the worker. -/
def afterSignal : List Event :=
  List.replicate 3 (.statement .nothing) ++ .horseEnds 1 :: List.replicate 12 (.statement .nothing)

theorem forked_of_signal_busyWorker :
    ((Loop.start {} false).run (busyWorker ++ .signal true :: afterSignal)).forked = ["a"] ∧
      ((Loop.start {} false).run (busyWorker ++ .signal true :: afterSignal)).horses = [] := by
  have hnext : ((Loop.start {} false).run busyWorker).next = .executePipeline "a" := by
    decide +kernel
  have hbusy : ((Loop.start {} false).run busyWorker).state = .busy := by decide +kernel
  have hleft : ((Loop.start {} false).run busyWorker).forked ++
      ((Loop.start {} false).run busyWorker).jobLeft = ["a"] := by decide +kernel
  have hforked := forked_of_signal {} false busyWorker afterSignal true (by decide)
    (fun hswallows => hswallows.1 hbusy) (by rw [hnext]; simp) (by simp [afterSignal]) (by decide)
    (by decide +kernel)
  rwa [hleft] at hforked

/-! ## Suspension -/

/-- Between the fork of a horse and the next test of `rq:suspended`. -/
def Statement.beforeTest : Statement → Bool
  | .setHorsePid _ | .waitForHorse | .horseFinished | .handleExit | .setIdleAgain | .heartbeat
  | .count | .suspensionTest _ | .suspensionBody _ | .suspensionSleep _ | .teardown
  | .exited => true
  | _ => false

/-- Between that test and the test of `_stop_requested`. -/
def Statement.beforeStopTest : Statement → Bool
  | .maintenance caller | .handleStuckJob caller => caller = .work
  | .restoreState _ | .stopTest => true
  | _ => false

namespace Loop

/-- While the workers are suspended, no job is executed before the next test. -/
def Held (self : Loop) : Prop :=
  self.next.beforeTest = true ∨ (self.next.beforeStopTest = true ∧ self.stopRequested = true)

instance : Decidable self.Held := inferInstanceAs (Decidable (_ ∨ _))

/-- How many jobs have been executed or may be executed before the next test. -/
def admitted (self : Loop) : ℕ := self.forked.length + if self.Held then 0 else 1

lemma Held.raise (h : self.Held) (e : Raised) : (self.raise e).Held := by
  unfold Held at *
  rcases self.next.handler_cases e with he | he | ⟨caller, hnext, he⟩ | ⟨hdequeueing, -⟩
  · simp [Loop.raise, he, Statement.beforeTest]
  · simp [Loop.raise, he, Statement.beforeTest]
  · simp_all [Loop.raise, Statement.beforeTest, Statement.beforeStopTest]
  · cases hnext : self.next <;>
      simp_all [Statement.beforeTest, Statement.beforeStopTest, Statement.dequeueing]

lemma Held.statement (h : self.Held) (hsuspended : self.workersSuspended = true)
    (finding : Finding) :
    (self.statement finding).Held ∧ (self.statement finding).forked = self.forked := by
  have hraise := h.raise
  unfold Held at *
  unfold Loop.statement
  repeat' split
  all_goals
    first
    | exact ⟨hraise _, rfl⟩
    | clear hraise
      simp_all [Statement.beforeTest, Statement.beforeStopTest, killHorse]

lemma Held.signal (h : self.Held) (caught : Bool) : (self.signal caught).Held := by
  unfold Loop.signal requestStop requestForceStop
  repeat' split
  · exact h.imp_right fun hstop => ⟨hstop.1, rfl⟩
  · exact h
  · exact (show Held { self with shutdownRequestedDate := some self.clock } from h).raise _
  · exact h
  · exact (show self.killHorse.Held from h).raise _
  · exact h.raise _

lemma forked_signal (caught : Bool) : (self.signal caught).forked = self.forked ∧
    (self.signal caught).workersSuspended = self.workersSuspended := by
  unfold Loop.signal requestStop requestForceStop
  repeat' split
  all_goals exact ⟨rfl, rfl⟩

lemma workersSuspended_statement (finding : Finding) :
    (self.statement finding).workersSuspended = self.workersSuspended := by
  unfold Loop.statement
  repeat' split
  all_goals rfl

/-- A horse is forked where the next test is still to come. -/
lemma forked_statement (self : Loop) (finding : Finding) :
    (self.statement finding).forked = self.forked ∨
      (self.statement finding).forked.length = self.forked.length + 1 ∧
        (self.statement finding).Held := by
  unfold Loop.statement
  repeat' split
  all_goals
    first
    | exact .inl rfl
    | exact .inr ⟨List.length_append, .inl rfl⟩

lemma admitted_le {loop : Loop} (hforked : loop.forked = self.forked)
    (hheld : self.Held → loop.Held) : loop.admitted ≤ self.admitted := by
  unfold admitted
  rw [hforked]
  split <;> split <;> simp_all

lemma admitted_handle (hsuspended : self.workersSuspended = true) {event : Event}
    (hresume : event ≠ .resume) :
    (self.handle event).workersSuspended = true ∧
      (self.handle event).admitted ≤ self.admitted := by
  cases event with
  | statement finding =>
    refine ⟨(workersSuspended_statement finding).trans hsuspended, ?_⟩
    rcases self.forked_statement finding with hforked | ⟨hforked, hheld⟩
    · exact admitted_le hforked fun h => (h.statement hsuspended finding).1
    · have hself : ¬self.Held := by
        intro h
        have hsame := congrArg List.length (h.statement hsuspended finding).2
        omega
      show (self.statement finding).admitted ≤ self.admitted
      rw [admitted, admitted, if_pos hheld, if_neg hself, hforked]
  | raises e => exact ⟨hsuspended, admitted_le rfl fun h => h.raise e⟩
  | signal caught =>
    unfold Loop.handle
    dsimp only
    split
    · exact ⟨hsuspended, le_rfl⟩
    · exact ⟨(forked_signal caught).2.trans hsuspended,
        admitted_le (forked_signal caught).1 fun h => h.signal caught⟩
  | resume => exact absurd rfl hresume
  | suspend => exact ⟨rfl, admitted_le rfl id⟩
  | horseEnds pid | elapse microseconds => exact ⟨hsuspended, admitted_le rfl id⟩

end Loop

/-- While the workers are suspended, a worker executes one job more at most, and none if it has not
passed the test of `rq:suspended`. -/
theorem forked_of_suspended (hsuspended : self.workersSuspended = true)
    (hresume : .resume ∉ events) : (self.run events).forked.length ≤ self.admitted := by
  induction events generalizing self with
  | nil => exact Nat.le_add_right _ _
  | cons event events ih =>
    simp only [List.mem_cons, not_or] at hresume
    obtain ⟨hstill, hle⟩ := Loop.admitted_handle hsuspended (Ne.symm hresume.1)
    exact (ih hstill hresume.2).trans hle

/-- The workers are suspended when the worker has taken the job `"a"`. It executes that job only,
although there is a second one. -/
theorem forked_of_suspended_busyWorker :
    (((Loop.start {} false).run (busyWorker ++ [.suspend])).run
      (List.replicate 3 (.statement .nothing) ++ .horseEnds 1 ::
        List.replicate 20 (.statement (.job "b")))).forked.length ≤ 1 := by
  have hadmitted : ((Loop.start {} false).run (busyWorker ++ [.suspend])).admitted = 1 := by
    decide +kernel
  rw [← hadmitted]
  exact forked_of_suspended (by decide +kernel) (by decide)

/-! ## What is executed -/

/-- A horse has been forked and its job is not counted yet. -/
def Statement.riding : Statement → Bool
  | .setHorsePid _ | .waitForHorse | .horseFinished | .handleExit | .setIdleAgain | .heartbeat
  | .count => true
  | _ => false

namespace Loop

/-- The jobs that are executed are among those that have been popped, in this order. -/
def InOrder (self : Loop) : Prop := (self.forked ++ self.next.inHand.toList).Sublist self.popped

lemma InOrder.dropped (h : self.InOrder) : self.forked.Sublist self.popped :=
  (List.sublist_append_left _ _).trans h

lemma InOrder.raise (h : self.InOrder) (e : Raised) : (self.raise e).InOrder := by
  unfold InOrder
  rcases self.next.handler_cases e with he | he | ⟨caller, -, he⟩ | ⟨-, he⟩ <;>
    simpa [Loop.raise, he, Statement.inHand] using h.dropped

lemma InOrder.statement (h : self.InOrder) (finding : Finding) :
    (self.statement finding).InOrder := by
  have hraise := h.raise
  have hdropped := h.dropped
  unfold InOrder at *
  unfold Loop.statement
  repeat' split
  all_goals
    first
    | exact hraise _
    | clear hraise
      simp_all [Statement.inHand, killHorse]

/-- The jobs that have been counted, and `max_jobs`. -/
structure CountInv (loop : Loop) : Prop where
  least : loop.completedJobs ≤ loop.forked.length
  most : loop.forked.length ≤ loop.completedJobs + 1
  riding : ¬loop.Ended → loop.forked.length = loop.completedJobs + loop.next.riding.toNat
  below : ¬loop.Ended → ∀ maxJobs ∈ loop.options.maxJobs,
    loop.completedJobs = 0 ∨ (loop.completedJobs : ℤ) < maxJobs
  maxJobs : ∀ maxJobs ∈ loop.options.maxJobs, (loop.forked.length : ℤ) ≤ max 1 maxJobs

lemma CountInv.of_same {loop : Loop} (h : self.CountInv) (hforked : loop.forked = self.forked)
    (hcompleted : loop.completedJobs = self.completedJobs) (hoptions : loop.options = self.options)
    (hnext : loop.Ended ∨ ¬self.Ended ∧ loop.next.riding = self.next.riding) : loop.CountInv := by
  constructor
  · rw [hcompleted, hforked]
    exact h.least
  · rw [hcompleted, hforked]
    exact h.most
  · intro hrunning
    obtain ⟨hself, hriding⟩ := hnext.resolve_left hrunning
    rw [hcompleted, hforked, hriding]
    exact h.riding hself
  · intro hrunning
    rw [hcompleted, hoptions]
    exact h.below (hnext.resolve_left hrunning).1
  · rw [hoptions, hforked]
    exact h.maxJobs

lemma ended_or_riding (self : Loop) (e : Raised) : (self.raise e).Ended ∨
    ¬self.Ended ∧ (self.raise e).next.riding = self.next.riding := by
  unfold Ended
  rcases self.next.handler_cases e with he | he | ⟨caller, hnext, he⟩ | ⟨hdequeueing, he⟩
  · exact .inl (.inr he)
  · exact .inl (.inl he)
  · right
    rw [show (self.raise e).next = _ from he, hnext]
    exact ⟨by simp, rfl⟩
  · cases hnext : self.next <;>
      simp_all [Loop.raise, Statement.riding, Statement.dequeueing]

/-- Only `fork` and `count` count. -/
lemma counted_statement (finding : Finding) (hfork : ∀ id, self.next ≠ .fork id)
    (hcount : self.next ≠ .count) :
    (self.statement finding).forked = self.forked ∧
      (self.statement finding).completedJobs = self.completedJobs ∧
      (self.statement finding).options = self.options ∧
      ((self.statement finding).Ended ∨
        ¬self.Ended ∧ (self.statement finding).next.riding = self.next.riding) := by
  have hraise := fun e => self.ended_or_riding e
  unfold Loop.statement
  repeat' split
  all_goals
    first
    | exact ⟨rfl, rfl, rfl, hraise _⟩
    | clear hraise
      simp_all [Ended, Statement.riding, killHorse]

lemma CountInv.fork (h : self.CountInv) {id : JobId} (hnext : self.next = .fork id)
    (finding : Finding) : (self.statement finding).CountInv := by
  have hrunning : ¬self.Ended := by simp [Ended, hnext]
  have hlength : self.forked.length = self.completedJobs := by
    simpa [hnext, Statement.riding] using h.riding hrunning
  have hbelow := h.below hrunning
  simp only [Loop.statement, hnext]
  constructor
  · simp [hlength]
  · simp [hlength]
  · simp [hlength, Statement.riding]
  · exact fun _ => hbelow
  · intro maxJobs hmax
    simp only [List.length_append, List.length_singleton, hlength]
    rcases hbelow maxJobs hmax with hzero | hlt
    · simp [hzero]
    · push_cast
      omega

lemma CountInv.count (h : self.CountInv) (hnext : self.next = .count) (finding : Finding) :
    (self.statement finding).CountInv := by
  have hrunning : ¬self.Ended := by simp [Ended, hnext]
  have hlength : self.forked.length = self.completedJobs + 1 := by
    simpa [hnext, Statement.riding] using h.riding hrunning
  simp only [Loop.statement, hnext]
  split
  · exact ⟨hlength.ge, by simp [hlength], fun hended => absurd (.inl rfl) hended,
      fun hended => absurd (.inl rfl) hended, h.maxJobs⟩
  · next hmore =>
    refine ⟨hlength.ge, by simp [hlength], by simp [hlength, Statement.riding], ?_, h.maxJobs⟩
    intro _ maxJobs hmax
    right
    have hlt : ¬maxJobs ≤ (self.completedJobs : ℤ) + 1 := by
      rw [show self.options.maxJobs = some maxJobs from hmax] at hmore
      simpa using hmore
    push_cast
    omega

lemma CountInv.statement (h : self.CountInv) (finding : Finding) :
    (self.statement finding).CountInv := by
  by_cases hfork : ∃ id, self.next = .fork id
  · obtain ⟨id, hnext⟩ := hfork
    exact h.fork hnext finding
  · by_cases hcount : self.next = .count
    · exact h.count hcount finding
    · obtain ⟨hforked, hcompleted, hoptions, hnext⟩ :=
        counted_statement finding (not_exists.mp hfork) hcount
      exact h.of_same hforked hcompleted hoptions hnext

/-- What `work` guarantees for the jobs it executes. -/
structure WorkInv (loop : Loop) : Prop where
  inOrder : loop.InOrder
  count : loop.CountInv

lemma WorkInv.raise (h : self.WorkInv) (e : Raised) : (self.raise e).WorkInv :=
  ⟨h.inOrder.raise e, h.count.of_same rfl rfl rfl (self.ended_or_riding e)⟩

lemma WorkInv.signal (h : self.WorkInv) (caught : Bool) : (self.signal caught).WorkInv := by
  have hsame : ∀ loop : Loop, loop.forked = self.forked → loop.popped = self.popped →
      loop.completedJobs = self.completedJobs → loop.options = self.options →
      loop.next = self.next → loop.WorkInv := by
    intro loop hforked hpopped hcompleted hoptions hnext
    have hended : loop.Ended ↔ self.Ended := by rw [Ended, Ended, hnext]
    refine ⟨?_, h.count.of_same hforked hcompleted hoptions ?_⟩
    · rw [InOrder, hforked, hnext, hpopped]
      exact h.inOrder
    · rw [hended, hnext]
      exact (em self.Ended).imp_right fun hrunning => ⟨hrunning, rfl⟩
  unfold Loop.signal requestStop requestForceStop
  repeat' split
  · exact hsame _ rfl rfl rfl rfl rfl
  · exact hsame _ rfl rfl rfl rfl rfl
  · exact (hsame { self with shutdownRequestedDate := some self.clock } rfl rfl rfl rfl rfl).raise _
  · exact h
  · exact (hsame self.killHorse rfl rfl rfl rfl rfl).raise _
  · exact h.raise _

lemma WorkInv.handle (h : self.WorkInv) (event : Event) : (self.handle event).WorkInv := by
  cases event with
  | statement finding => exact ⟨h.inOrder.statement finding, h.count.statement finding⟩
  | raises e => exact h.raise e
  | signal caught =>
    unfold Loop.handle
    dsimp only
    split
    · exact h
    · exact h.signal caught
  | horseEnds pid | suspend | resume | elapse microseconds =>
    exact ⟨h.inOrder, h.count.least, h.count.most, h.count.riding, h.count.below, h.count.maxJobs⟩

lemma options_handle (event : Event) : (self.handle event).options = self.options := by
  cases event with
  | statement finding =>
    simp only [Loop.handle, Loop.statement]
    repeat' split
    all_goals rfl
  | signal caught =>
    simp only [Loop.handle, Loop.signal, requestStop, requestForceStop]
    repeat' split
    all_goals rfl
  | raises e | horseEnds pid | suspend | resume | elapse microseconds => rfl

end Loop

/-- In every run there is one horse at most, the jobs are executed in the order of the pops, and
their number is that of the completed jobs, or one more, and within `max_jobs`. -/
theorem executes_in_order (options : Options) (workersSuspended : Bool) (events : List Event) :
    ((Loop.start options workersSuspended).run events).horses.length ≤ 1 ∧
      ((Loop.start options workersSuspended).run events).forked.Sublist
        ((Loop.start options workersSuspended).run events).popped ∧
      ((Loop.start options workersSuspended).run events).completedJobs ≤
        ((Loop.start options workersSuspended).run events).forked.length ∧
      ((Loop.start options workersSuspended).run events).forked.length ≤
        ((Loop.start options workersSuspended).run events).completedJobs + 1 ∧
      ∀ maxJobs ∈ options.maxJobs,
        (((Loop.start options workersSuspended).run events).forked.length : ℤ) ≤ max 1 maxJobs := by
  have hwork : ((Loop.start options workersSuspended).run events).WorkInv := by
    apply Loop.run_induction (P := Loop.WorkInv) fun _ event h => h.handle event
    constructor
    · exact List.Sublist.refl []
    · constructor <;> simp [Loop.start, Statement.riding]
  have hoptions : ((Loop.start options workersSuspended).run events).options = options :=
    Loop.run_induction (P := fun loop => loop.options = options)
      (fun _ event h => (Loop.options_handle event).trans h) rfl events
  have hmax := hwork.count.maxJobs
  rw [hoptions] at hmax
  exact ⟨(Loop.horseInv_run options workersSuspended events).one, hwork.inOrder.dropped,
    hwork.count.least, hwork.count.most, hmax⟩

end WorkLoop
end RedisQueue
