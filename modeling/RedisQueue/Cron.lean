import Mathlib.Data.List.Chain
import Mathlib.Order.Bounds.Defs
import RedisQueue.Basic

/-!
# Cron jobs

`CronJob` and `CronScheduler.enqueue_jobs` (`rq/cron.py`). A pass of `enqueue_jobs` reads the clock
once at its beginning and once more for each job, in `should_run`.

* `CronScheduler.firesOnce_iff`: a job is enqueued at most once for each slot of its expression
  just if the clock that a pass reads first has reached the slot it enqueues the job for.

The function of a job with its arguments and options is left out, and so is the enqueueing itself,
except that it may raise.
-/

namespace RedisQueue

/-- A `CronJob`. -/
structure CronJob where
  queueName : QueueName
  interval : Option ℤ := none
  cron : Option String := none
  nextEnqueueTime : Option Time := none
  latestEnqueueTime : Option Time := none
deriving DecidableEq, Repr

/-- `croniter(cron, start_time).get_next(datetime)` -/
abbrev GetNext := String → Time → Time

/-- What `croniter` promises: the least slot of the expression that comes after the start. -/
def GetNext.Correct (getNext : GetNext) (slots : String → Set Time) : Prop :=
  ∀ expr t, IsLeast {s ∈ slots expr | t < s} (getNext expr t)

namespace CronJob

variable (getNext : GetNext)

/-- The expression of a job with one that is not empty. -/
def expression (self : CronJob) : Option String := self.cron.filter (· ≠ "")

/-- `bool(interval)` -/
def hasInterval (interval : Option ℤ) : Bool := interval.any (· ≠ 0)

/-- `CronJob.__init__` with a function -/
def create (queueName : QueueName) (interval : Option ℤ) (cron : Option String) (now : Time) :
    Except PyError CronJob :=
  let job : CronJob := { queueName := queueName, interval := interval, cron := cron }
  if hasInterval interval && job.expression.isSome then
    .error (.valueError "Cannot specify both interval and cron parameters")
  else if !hasInterval interval && job.expression.isNone then
    .error (.valueError "Must specify either interval or cron parameter")
  else .ok { job with nextEnqueueTime := job.expression.map fun expr => getNext expr now }

/-- `datetime.max` -/
def datetimeMax : Time := 253402300799

/-- `CronJob.get_next_enqueue_time` -/
def getNextEnqueueTime (self : CronJob) (now : Time) : Time :=
  match self.expression with
  | some expr => getNext expr (self.latestEnqueueTime.getD now)
  | none =>
    match self.interval.filter (· ≠ 0), self.latestEnqueueTime with
    | some interval, some latest => latest + interval
    | _, _ => datetimeMax

/-- `CronJob.should_run` -/
def shouldRun (self : CronJob) (now : Time) : Bool :=
  if self.latestEnqueueTime.isNone && self.expression.isNone then true
  else self.nextEnqueueTime.any (· ≤ now)

/-- `CronJob.set_enqueue_time` -/
def setEnqueueTime (self : CronJob) (time now : Time) : CronJob :=
  let job := { self with latestEnqueueTime := some time }
  if job.interval.isSome || job.cron.isSome then
    { job with nextEnqueueTime := some (job.getNextEnqueueTime getNext now) }
  else job

@[simp] lemma expression_setEnqueueTime (job : CronJob) (time now : Time) :
    (job.setEnqueueTime getNext time now).expression = job.expression := by
  simp only [setEnqueueTime]
  split <;> rfl

variable {getNext}

/-- The next slot is computed from the time that is set, whatever the clock shows by then. -/
lemma nextEnqueueTime_setEnqueueTime {job : CronJob} {expr : String}
    (h : job.expression = some expr) (time now : Time) :
    (job.setEnqueueTime getNext time now).nextEnqueueTime = some (getNext expr time) := by
  have hcron : job.cron.isSome := by
    unfold expression at h
    cases hc : job.cron with
    | none => simp [hc] at h
    | some _ => rfl
  have hexpr : ({ job with latestEnqueueTime := some time } : CronJob).expression = some expr := h
  simp [setEnqueueTime, hcron, getNextEnqueueTime, hexpr]

lemma nextEnqueueTime_create {queueName : QueueName} {interval : Option ℤ} {cron : Option String}
    {now : Time} {job : CronJob} {expr : String}
    (h : create getNext queueName interval cron now = .ok job) (hexpr : job.expression = some expr) :
    job.nextEnqueueTime = some (getNext expr now) := by
  unfold create at h
  dsimp only at h
  split at h
  · cases h
  · split at h
    · cases h
    · cases h
      have hcron : ({ queueName := queueName, interval := interval, cron := cron } :
          CronJob).expression = some expr := hexpr
      simp [hcron]

end CronJob

namespace CronScheduler

/-! ## Passes -/

/-- What a pass of `enqueue_jobs` meets: the clock at its beginning, the clock when the job at an
index is asked whether it should run and when its next slot is computed, and whether the
enqueueing of the job raises. -/
structure Pass where
  enqueueTime : Time
  clock : ℕ → Time
  later : ℕ → Time
  raises : ℕ → Bool := fun _ => false

/-- A job has been enqueued for the slot that was its next one. -/
structure Firing where
  index : ℕ
  slot : Option Time
  enqueueTime : Time
deriving DecidableEq, Repr

variable (getNext : GetNext)

/-- The loop of `CronScheduler.enqueue_jobs` from the job at index `i`: the jobs as the loop leaves
them, and the enqueued ones. An exception ends it. -/
def enqueueFrom (pass : Pass) : ℕ → List CronJob → List CronJob × List Firing
  | _, [] => ([], [])
  | i, job :: jobs =>
    if job.shouldRun (pass.clock i) then
      if pass.raises i then (job :: jobs, [])
      else
        let rest := enqueueFrom pass (i + 1) jobs
        (job.setEnqueueTime getNext pass.enqueueTime (pass.later i) :: rest.1,
          ⟨i, job.nextEnqueueTime, pass.enqueueTime⟩ :: rest.2)
    else
      let rest := enqueueFrom pass (i + 1) jobs
      (job :: rest.1, rest.2)

/-- `CronScheduler.enqueue_jobs` -/
def enqueueJobs (pass : Pass) (jobs : List CronJob) : List CronJob × List Firing :=
  enqueueFrom getNext pass 0 jobs

/-- What happens to a scheduler. -/
inductive Event where
  | register (queueName : QueueName) (interval : Option ℤ) (cron : Option String) (now : Time)
  | pass (pass : Pass)

/-- The jobs after an event, and those it has enqueued. -/
def step (jobs : List CronJob) : Event → List CronJob × List Firing
  | .register queueName interval cron now =>
    match CronJob.create getNext queueName interval cron now with
    | .ok job => (jobs ++ [job], [])
    | .error _ => (jobs, [])
  | .pass pass => enqueueJobs getNext pass jobs

/-- The jobs at the end of a run. -/
def jobsAfter (jobs : List CronJob) : List Event → List CronJob
  | [] => jobs
  | event :: events => jobsAfter (step getNext jobs event).1 events

/-- The enqueueings of a run, in order. -/
def firings (jobs : List CronJob) : List Event → List Firing
  | [] => []
  | event :: events => (step getNext jobs event).2 ++ firings (step getNext jobs event).1 events

/-- The enqueueings of one job. -/
def firingsOf (i : ℕ) (jobs : List CronJob) (events : List Event) : List Firing :=
  (firings getNext jobs events).filter (·.index = i)

/-- The second slot comes after the first. -/
def Firing.Before (a b : Firing) : Prop := ∃ s t, a.slot = some s ∧ b.slot = some t ∧ s < t

/-- The first clock of the pass has reached the slot. -/
def Firing.Reached (a : Firing) : Prop := ∃ s, a.slot = some s ∧ s ≤ a.enqueueTime

variable {getNext}

/-! ## One job in one pass -/

lemma index_ge_of_mem {pass : Pass} {i : ℕ} {jobs : List CronJob} {a : Firing}
    (h : a ∈ (enqueueFrom getNext pass i jobs).2) : i ≤ a.index := by
  induction jobs generalizing i with
  | nil => simp [enqueueFrom] at h
  | cons job jobs ih =>
    unfold enqueueFrom at h
    split at h
    · split at h
      · simp at h
      · rcases List.mem_cons.mp h with rfl | h
        · exact le_refl i
        · exact Nat.le_of_succ_le (ih h)
    · exact Nat.le_of_succ_le (ih h)

/-- In a pass a job is left alone, because an exception has ended the pass or because it is not yet
due, or it is enqueued. -/
inductive Asked (getNext : GetNext) (pass : Pass) (job : CronJob) (i : ℕ) :
    CronJob → List Firing → Prop where
  | missed (hraised : ∃ k, pass.raises k = true) : Asked getNext pass job i job []
  | early (hrun : job.shouldRun (pass.clock i) = false) : Asked getNext pass job i job []
  | due (hrun : job.shouldRun (pass.clock i) = true) :
      Asked getNext pass job i (job.setEnqueueTime getNext pass.enqueueTime (pass.later i))
        [⟨i, job.nextEnqueueTime, pass.enqueueTime⟩]

lemma asked_enqueueFrom {pass : Pass} {k : ℕ} {jobs : List CronJob} {j : ℕ} {job : CronJob}
    (hjob : jobs[j]? = some job) : ∃ job', (enqueueFrom getNext pass k jobs).1[j]? = some job' ∧
      Asked getNext pass job (k + j) job'
        ((enqueueFrom getNext pass k jobs).2.filter (·.index = k + j)) := by
  induction jobs generalizing k j with
  | nil => simp at hjob
  | cons first jobs ih =>
    have hlater : (enqueueFrom getNext pass (k + 1) jobs).2.filter (·.index = k) = [] := by
      apply List.filter_eq_nil_iff.mpr
      intro a ha
      have hle := index_ge_of_mem ha
      simp
      omega
    rw [enqueueFrom]
    cases j with
    | zero =>
      obtain rfl : first = job := by simpa using hjob
      split
      · next hrun =>
        split
        · next hraised => exact ⟨first, by simp, by simpa using .missed ⟨k, hraised⟩⟩
        · refine ⟨first.setEnqueueTime getNext pass.enqueueTime (pass.later k), by simp, ?_⟩
          simp only [Nat.add_zero, decide_true, List.filter_cons_of_pos, hlater]
          exact .due hrun
      · next hrun => exact ⟨first, by simp, by simpa [hlater] using .early (by simpa using hrun)⟩
    | succ j =>
      have hrest : jobs[j]? = some job := by simpa using hjob
      obtain ⟨job', hjob', hasked⟩ := @ih (k + 1) j hrest
      have hindex : k + 1 + j = k + (j + 1) := by omega
      rw [hindex] at hasked
      have hne : k ≠ k + (j + 1) := by omega
      split
      · split
        · next hraised => exact ⟨job, by simpa using hrest, by simpa using .missed ⟨k, hraised⟩⟩
        · exact ⟨job', by simpa using hjob', by simpa [hne] using hasked⟩
      · exact ⟨job', by simpa using hjob', by simpa using hasked⟩

/-- In a pass a job is left alone, or it is enqueued once and gets its next slot. -/
inductive Passed (pass : Pass) (job : CronJob) (i : ℕ) : CronJob → List Firing → Prop where
  | skipped : Passed pass job i job []
  | enqueued : Passed pass job i (job.setEnqueueTime getNext pass.enqueueTime (pass.later i))
      [⟨i, job.nextEnqueueTime, pass.enqueueTime⟩]

lemma passed_enqueueFrom {pass : Pass} {i : ℕ} {jobs : List CronJob} {j : ℕ} {job : CronJob}
    (h : jobs[j]? = some job) : ∃ job', (enqueueFrom getNext pass i jobs).1[j]? = some job' ∧
      @Passed getNext pass job (i + j) job'
        ((enqueueFrom getNext pass i jobs).2.filter (·.index = i + j)) := by
  obtain ⟨job', hjob', hasked⟩ := @asked_enqueueFrom getNext pass i jobs j job h
  refine ⟨job', hjob', ?_⟩
  generalize (enqueueFrom getNext pass i jobs).2.filter (·.index = i + j) = fired at hasked ⊢
  cases hasked with
  | missed => exact .skipped
  | early => exact .skipped
  | due => exact .enqueued

/-! ## One job in a run -/

section Run
variable {slots : String → Set Time} {expr : String} {i : ℕ}

/-- From a state in which the job at `i` has the next slot `n`, its first enqueueing is for `n`, and
each of the following ones for the slot after the clock that the pass before it read first. -/
inductive Follows (getNext : GetNext) (expr : String) : Time → List Firing → Prop where
  | nil {n : Time} : Follows getNext expr n []
  | cons {n : Time} {i : ℕ} {time : Time} {rest : List Firing}
      (h : Follows getNext expr (getNext expr time) rest) :
      Follows getNext expr n (⟨i, some n, time⟩ :: rest)

lemma follows_firingsOf {jobs : List CronJob} {job : CronJob} {n : Time}
    (hjob : jobs[i]? = some job) (hexpr : job.expression = some expr)
    (hnext : job.nextEnqueueTime = some n) (events : List Event) :
    Follows getNext expr n (firingsOf getNext i jobs events) := by
  induction events generalizing jobs job n with
  | nil => exact .nil
  | cons event events ih =>
    have hsplit : firingsOf getNext i jobs (event :: events) =
        (step getNext jobs event).2.filter (·.index = i) ++
          firingsOf getNext i (step getNext jobs event).1 events := by
      simp [firingsOf, firings]
    rw [hsplit]
    cases event with
    | register queueName interval cron now =>
      have hi : i < jobs.length := (List.getElem?_eq_some_iff.mp hjob).1
      have hkept : (step getNext jobs (.register queueName interval cron now)).1[i]? = some job := by
        simp only [step]
        split
        · rw [List.getElem?_append_left hi, hjob]
        · exact hjob
      have hfired : (step getNext jobs (.register queueName interval cron now)).2 = [] := by
        simp only [step]
        split <;> rfl
      rw [hfired]
      exact ih hkept hexpr hnext
    | pass pass =>
      obtain ⟨job', hjob', hpassed⟩ := @passed_enqueueFrom getNext pass 0 jobs i job hjob
      rw [Nat.zero_add] at hpassed
      change Follows getNext expr n ((enqueueFrom getNext pass 0 jobs).2.filter (·.index = i) ++
        firingsOf getNext i (enqueueFrom getNext pass 0 jobs).1 events)
      generalize (enqueueFrom getNext pass 0 jobs).2.filter (·.index = i) = fired at hpassed ⊢
      cases hpassed with
      | skipped => exact ih hjob' hexpr hnext
      | enqueued =>
        rw [hnext]
        refine .cons (ih hjob' (by simpa using hexpr) ?_)
        exact CronJob.nextEnqueueTime_setEnqueueTime hexpr _ _

/-- The slot after `time` comes after the slot `n` just if `time` has reached `n`. -/
lemma lt_getNext_iff (hnext : getNext.Correct slots) {n : Time} (hn : n ∈ slots expr)
    (time : Time) : n < getNext expr time ↔ n ≤ time := by
  obtain ⟨⟨-, hlt⟩, hleast⟩ := hnext expr time
  constructor
  · intro h
    by_contra hle
    -- otherwise `n` itself is a slot after `time`, and no slot after `time` comes before the next
    exact absurd (hleast ⟨hn, not_le.mp hle⟩) (not_le.mpr h)
  · exact fun h => lt_of_le_of_lt h hlt

lemma pairwise_before_iff (hnext : getNext.Correct slots) {n : Time} (hn : n ∈ slots expr)
    {l : List Firing} (h : Follows getNext expr n l) :
    l.Pairwise Firing.Before ↔ ∀ a ∈ l.dropLast, a.Reached := by
  have htrans : ∀ a b c : Firing, a.Before b → b.Before c → a.Before c := by
    rintro a b c ⟨s, t, hs, ht, hst⟩ ⟨t', u, ht', hu, htu⟩
    obtain rfl : t = t' := Option.some.inj (ht.symm.trans ht')
    exact ⟨s, u, hs, hu, hst.trans htu⟩
  have : Trans Firing.Before Firing.Before Firing.Before := ⟨fun {a b c} => htrans a b c⟩
  rw [← List.isChain_iff_pairwise]
  -- induction on how the enqueueings follow each other; only neighbours have to be compared
  induction h with
  | nil => simp
  | @cons n i time rest hrest ih =>
    have hslot : getNext expr time ∈ slots expr := (hnext expr time).1.1
    cases hrest with
    | nil => simp
    | @cons _ j time' rest hrest =>
      have hhead : Firing.Before ⟨i, some n, time⟩ ⟨j, some (getNext expr time), time'⟩ ↔
          Firing.Reached ⟨i, some n, time⟩ := by
        rw [Firing.Reached, Firing.Before]
        simpa using lt_getNext_iff hnext hn time
      have htail := ih hslot
      refine (List.isChain_cons_cons.trans (and_congr hhead htail)).trans ?_
      simp

lemma index_lt_of_mem {pass : Pass} {jobs : List CronJob} {a : Firing} {j : ℕ}
    (h : a ∈ (enqueueFrom getNext pass j jobs).2) : a.index < j + jobs.length := by
  induction jobs generalizing j with
  | nil => simp [enqueueFrom] at h
  | cons job jobs ih =>
    unfold enqueueFrom at h
    rw [List.length_cons]
    split at h
    · split at h
      · simp at h
      · rcases List.mem_cons.mp h with rfl | h
        · simp
        · have := ih h
          omega
    · have := ih h
      omega

lemma length_enqueueFrom (pass : Pass) (j : ℕ) (jobs : List CronJob) :
    (enqueueFrom getNext pass j jobs).1.length = jobs.length := by
  induction jobs generalizing j with
  | nil => rfl
  | cons job jobs ih =>
    unfold enqueueFrom
    split
    · split
      · rfl
      · simp [ih]
    · simp [ih]

/-- A job keeps its place and its expression. -/
lemma expression_step {jobs : List CronJob} {job : CronJob} (hjob : jobs[i]? = some job)
    (event : Event) :
    ∃ job', (step getNext jobs event).1[i]? = some job' ∧ job'.expression = job.expression := by
  cases event with
  | register queueName interval cron now =>
    have hi : i < jobs.length := (List.getElem?_eq_some_iff.mp hjob).1
    refine ⟨job, ?_, rfl⟩
    simp only [step]
    split
    · rw [List.getElem?_append_left hi, hjob]
    · exact hjob
  | pass pass =>
    obtain ⟨job', hjob', hpassed⟩ := @passed_enqueueFrom getNext pass 0 jobs i job hjob
    refine ⟨job', hjob', ?_⟩
    generalize (enqueueFrom getNext pass 0 jobs).2.filter (·.index = 0 + i) = fired at hpassed
    cases hpassed with
    | skipped => rfl
    | enqueued => simp

lemma expression_jobsAfter {jobs : List CronJob} {job : CronJob} (hjob : jobs[i]? = some job)
    (events : List Event) : ∃ job', (jobsAfter getNext jobs events)[i]? = some job' ∧
      job'.expression = job.expression := by
  induction events generalizing jobs job with
  | nil => exact ⟨job, hjob, rfl⟩
  | cons event events ih =>
    obtain ⟨job₁, hjob₁, hexpr₁⟩ := expression_step hjob event
    obtain ⟨job', hjob', hexpr'⟩ := ih hjob₁
    exact ⟨job', hjob', hexpr'.trans hexpr₁⟩

/-- The enqueueings of a job follow each other from the slot it was registered with. -/
lemma exists_follows (hnext : getNext.Correct slots) {jobs : List CronJob} {events : List Event}
    {job : CronJob} (hi : jobs.length ≤ i) (hjob : (jobsAfter getNext jobs events)[i]? = some job)
    (hexpr : job.expression = some expr) :
    ∃ n ∈ slots expr, Follows getNext expr n (firingsOf getNext i jobs events) := by
  induction events generalizing jobs with
  | nil =>
    have hlt : i < jobs.length := (List.getElem?_eq_some_iff.mp hjob).1
    omega
  | cons event events ih =>
    -- before its registration the job is not there to be enqueued
    have hnone : (step getNext jobs event).2.filter (·.index = i) = [] := by
      refine List.filter_eq_nil_iff.mpr fun a ha => ?_
      cases event with
      | register queueName interval cron now =>
        simp only [step] at ha
        split at ha <;> simp at ha
      | pass pass =>
        have hlt : a.index < 0 + jobs.length := index_lt_of_mem ha
        simp
        omega
    have hsplit : firingsOf getNext i jobs (event :: events) =
        firingsOf getNext i (step getNext jobs event).1 events := by
      have happend : firingsOf getNext i jobs (event :: events) =
          (step getNext jobs event).2.filter (·.index = i) ++
            firingsOf getNext i (step getNext jobs event).1 events := by
        simp [firingsOf, firings]
      rw [happend, hnone, List.nil_append]
    rw [hsplit]
    by_cases hlater : (step getNext jobs event).1.length ≤ i
    · exact ih hlater hjob
    · cases event with
      | pass pass =>
        have hlength : (step getNext jobs (.pass pass)).1.length = jobs.length :=
          length_enqueueFrom pass 0 jobs
        omega
      | register queueName interval cron now =>
        cases hcreate : CronJob.create getNext queueName interval cron now with
        | error e =>
          simp only [step, hcreate] at hlater
          exact absurd hi hlater
        | ok new =>
          have hjobs : (step getNext jobs (.register queueName interval cron now)).1 =
              jobs ++ [new] := by simp only [step, hcreate]
          rw [hjobs, List.length_append, List.length_singleton] at hlater
          obtain rfl : i = jobs.length := by omega
          have hnew : (step getNext jobs (.register queueName interval cron now)).1[jobs.length]? =
              some new := by rw [hjobs, List.getElem?_concat_length]
          obtain ⟨job', hjob', hexpr'⟩ := expression_jobsAfter hnew events
          obtain rfl : job' = job := Option.some.inj (hjob'.symm.trans hjob)
          have hnewExpr : new.expression = some expr := hexpr'.symm.trans hexpr
          have hslot := CronJob.nextEnqueueTime_create hcreate hnewExpr
          exact ⟨_, (hnext expr now).1.1, follows_firingsOf hnew hnewExpr hslot events⟩

/-- **When a slot fires at most once.** The condition is about every enqueueing of the job that is
followed by another one. -/
theorem firesOnce_iff (hnext : getNext.Correct slots) (events : List Event) {job : CronJob}
    (hjob : (jobsAfter getNext [] events)[i]? = some job) (hexpr : job.expression = some expr) :
    (firingsOf getNext i [] events).Pairwise Firing.Before ↔
      ∀ a ∈ (firingsOf getNext i [] events).dropLast, a.Reached := by
  obtain ⟨n, hn, hfollows⟩ := exists_follows hnext (Nat.zero_le i) hjob hexpr
  exact pairwise_before_iff hnext hn hfollows

end Run

/-! ### A slot between two readings of the clock -/

/-- Every minute. -/
def everyMinute : GetNext := fun _ t => (t / 60 + 1) * 60

lemma everyMinute_correct : everyMinute.Correct fun _ => {s | 60 ∣ s} := by
  have hlater : ∀ t : ℤ, t < (t / 60 + 1) * 60 := fun t => by omega
  have hleast : ∀ t k : ℤ, t < 60 * k → (t / 60 + 1) * 60 ≤ 60 * k := fun t k h => by omega
  intro expr t
  refine ⟨⟨⟨t / 60 + 1, Int.mul_comm _ _⟩, hlater t⟩, ?_⟩
  rintro s ⟨⟨k, rfl⟩, hlt⟩
  exact hleast t k hlt

/-- Two passes, the first of which reads the clock shortly before a slot and, in `should_run`,
shortly after it. -/
def slowPasses : List Event :=
  [.register "default" none (some "* * * * *") 0,
    .pass ⟨59, fun _ => 61, fun _ => 61, fun _ => false⟩,
    .pass ⟨62, fun _ => 62, fun _ => 62, fun _ => false⟩]

/-- Two passes in two minutes. -/
def timelyPasses : List Event :=
  [.register "default" none (some "* * * * *") 0,
    .pass ⟨60, fun _ => 61, fun _ => 61, fun _ => false⟩,
    .pass ⟨120, fun _ => 120, fun _ => 121, fun _ => false⟩]

theorem firesOnce_iff_timely :
    (firingsOf everyMinute 0 [] timelyPasses).Pairwise Firing.Before ↔
      ∀ a ∈ (firingsOf everyMinute 0 [] timelyPasses).dropLast, a.Reached :=
  firesOnce_iff everyMinute_correct timelyPasses rfl rfl

/-- The slot at 60 fires twice. -/
theorem slot_fires_twice : everyMinute.Correct (fun _ => {s | 60 ∣ s}) ∧
    firingsOf everyMinute 0 [] slowPasses = [⟨0, some 60, 59⟩, ⟨0, some 60, 62⟩] ∧
    ¬(firingsOf everyMinute 0 [] slowPasses).Pairwise Firing.Before := by
  have hfirings : firingsOf everyMinute 0 [] slowPasses =
      [⟨0, some 60, 59⟩, ⟨0, some 60, 62⟩] := by decide
  refine ⟨everyMinute_correct, hfirings, ?_⟩
  rw [hfirings]
  simp [Firing.Before]

end CronScheduler
end RedisQueue
