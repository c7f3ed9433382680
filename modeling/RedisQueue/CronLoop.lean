import RedisQueue.Cron

/-!
# The loop of a cron scheduler

`CronScheduler.start` (`rq/cron.py`) turns in a loop: a pass of `enqueue_jobs`, a heartbeat, and a
sleep until the next job is due, of a minute at most.

* `CronScheduler.slots_met`: which slots of an expression a loop enqueues its job for, and how late,
  when the statements of a turn take at most `δ` and a sleep is at most `ε` too long;
* `CronScheduler.intervals_met`: how far the enqueueings of a job with an interval are apart.

The store is not part of this; for what the heartbeats do to it see `RedisQueue.CronFleet`.
-/

namespace RedisQueue

namespace CronScheduler

/-- `CronScheduler.calculate_sleep_interval` -/
def calculateSleepInterval (jobs : List CronJob) (now : Time) : ℤ :=
  match (jobs.filterMap (·.nextEnqueueTime)).min? with
  | none => 60
  | some closest =>
    let untilNext : ℤ := closest - now
    if untilNext ≤ 0 then 0 else min untilNext 60

lemma calculateSleepInterval_le (jobs : List CronJob) (now : Time) :
    calculateSleepInterval jobs now ≤ 60 := by
  unfold calculateSleepInterval
  split
  · omega
  · dsimp only
    split
    · omega
    · exact min_le_right _ _

/-- No job is slept over. -/
lemma calculateSleepInterval_le_of_mem {jobs : List CronJob} {job : CronJob} {n : ℤ}
    (hjob : job ∈ jobs) (hnext : job.nextEnqueueTime = some n) (now : ℤ) :
    now + calculateSleepInterval jobs now ≤ max n now := by
  have hmem : n ∈ jobs.filterMap (·.nextEnqueueTime) := List.mem_filterMap.mpr ⟨job, hjob, hnext⟩
  unfold calculateSleepInterval
  split
  · next hnone =>
    rw [List.min?_eq_none_iff.mp hnone] at hmem
    exact absurd hmem List.not_mem_nil
  · next closest hclosest =>
    have hle : (closest : ℤ) ≤ n := (List.min?_eq_some_iff.mp hclosest).2 n hmem
    dsimp only
    split
    · omega
    · calc now + min (closest - now) 60
        _ ≤ now + (closest - now) := Int.add_le_add_left (min_le_left _ _) now
        _ = closest := by omega
        _ ≤ n := hle
        _ ≤ max n now := le_max_left _ _

/-! ## Turns -/

/-- A turn of the loop: its pass, and the clocks of its heartbeat and of its
`calculate_sleep_interval`. -/
structure Turn where
  pass : Pass
  beat : Time
  dozes : Time

/-- The turn reads the clock first in its pass. -/
def Turn.start (turn : Turn) : Time := turn.pass.enqueueTime

/-- All the clocks of a turn are read within `δ`. -/
structure Turn.Prompt (δ : ℕ) (turn : Turn) : Prop where
  clock : ∀ i, turn.start ≤ turn.pass.clock i ∧ turn.pass.clock i ≤ turn.start + δ
  beat : turn.start ≤ turn.beat ∧ turn.beat ≤ turn.dozes
  dozes : turn.dozes ≤ turn.start + δ

section Loop

variable (getNext : GetNext)

/-- The turns of a loop from the given jobs on: after each but the last one it sleeps, and at most
`ε` longer than it wants to. The last turn may raise. -/
inductive Paced (δ ε : ℕ) : List CronJob → List Turn → Prop where
  | last {jobs : List CronJob} {turn : Turn} (hturn : turn.Prompt δ) : Paced δ ε jobs [turn]
  | sleeps {jobs jobs' : List CronJob} {turn next : Turn} {turns : List Turn}
      (hturn : turn.Prompt δ) (hquiet : ∀ i, turn.pass.raises i = false)
      (hjobs : (enqueueJobs getNext turn.pass jobs).1 = jobs')
      (hslept : turn.dozes + calculateSleepInterval jobs' turn.dozes ≤ next.start)
      (hwoke : next.start ≤ turn.dozes + calculateSleepInterval jobs' turn.dozes + ε)
      (hrest : Paced δ ε jobs' (next :: turns)) : Paced δ ε jobs (turn :: next :: turns)

/-- The enqueueings of the job at `i` in a loop. -/
def loopFirings (i : ℕ) (jobs : List CronJob) (turns : List Turn) : List Firing :=
  firingsOf getNext i jobs (turns.map fun turn => .pass turn.pass)

variable {getNext}

lemma loopFirings_cons (i : ℕ) (jobs : List CronJob) (turn : Turn) (turns : List Turn) :
    loopFirings getNext i jobs (turn :: turns) =
      (enqueueJobs getNext turn.pass jobs).2.filter (·.index = i) ++
        loopFirings getNext i (enqueueJobs getNext turn.pass jobs).1 turns := by
  simp [loopFirings, firingsOf, firings, step]

lemma Paced.prompt {δ ε : ℕ} {jobs : List CronJob} {turn : Turn} {turns : List Turn}
    (h : Paced getNext δ ε jobs (turn :: turns)) : turn.Prompt δ := by
  cases h with
  | last hturn => exact hturn
  | sleeps hturn => exact hturn

/-! ## One job in a turn -/

/-- The job has been enqueued at some time: when it is due again. -/
inductive Schedule (getNext : GetNext) (job : CronJob) : (Time → Time) → Prop where
  | cron {expr : String} (hexpr : job.expression = some expr) :
      Schedule getNext job (getNext expr)
  | interval {interval : ℤ} (hexpr : job.expression = none)
      (hinterval : job.interval = some interval) (hne : interval ≠ 0) :
      Schedule getNext job fun time => time + interval

/-- The job is due at `n`, and `should_run` goes by that. -/
structure Due (getNext : GetNext) (again : Time → Time) (n : Time) (job : CronJob) : Prop where
  schedule : Schedule getNext job again
  next : job.nextEnqueueTime = some n
  run : ∀ clock, job.shouldRun clock = decide (n ≤ clock)

lemma nextEnqueueTime_of_schedule {job : CronJob} {again : Time → Time}
    (h : Schedule getNext job again) (time now : Time) :
    (job.setEnqueueTime getNext time now).nextEnqueueTime = some (again time) := by
  cases h with
  | cron hexpr => exact CronJob.nextEnqueueTime_setEnqueueTime hexpr time now
  | @interval interval hexpr hinterval hne =>
    have hexpr' : ({ job with interval := some interval, latestEnqueueTime := some time } :
      CronJob).expression = none := hexpr
    have hkept : (some interval).filter (· ≠ 0) = some interval := by simp [Option.filter, hne]
    simp only [CronJob.setEnqueueTime, CronJob.getNextEnqueueTime, hinterval, hexpr', hkept]
    rfl

/-- A job that has been enqueued is due when its schedule says so. -/
lemma Schedule.due {job : CronJob} {again : Time → Time} (h : Schedule getNext job again)
    (time now : Time) : Due getNext again (again time) (job.setEnqueueTime getNext time now) := by
  have hnext := nextEnqueueTime_of_schedule h time now
  have hlatest : (job.setEnqueueTime getNext time now).latestEnqueueTime = some time := by
    simp only [CronJob.setEnqueueTime]
    split <;> rfl
  have hinterval : (job.setEnqueueTime getNext time now).interval = job.interval := by
    simp only [CronJob.setEnqueueTime]
    split <;> rfl
  constructor
  · cases h with
    | cron hexpr => exact .cron (by simpa using hexpr)
    | interval hexpr hk hne => exact .interval (by simpa using hexpr) (hinterval.trans hk) hne
  · exact hnext
  · intro clock
    simp [CronJob.shouldRun, hlatest, hnext]

/-! ## One job in a loop -/

/-- A job that is due at `n` is enqueued at most `early` before and at most `late` after that, and is
then due again; what it is due for last is not more than `late` before the loop stops. -/
inductive Punctual (again : Time → Time) (early late : ℤ) (stop : Time) :
    Time → List Firing → Prop where
  | nil {n : Time} (hstop : stop ≤ n + late) : Punctual again early late stop n []
  | cons {n : Time} {i : ℕ} {time : Time} {rest : List Firing} (hearly : n ≤ time + early)
      (hlate : time ≤ n + late) (hrest : Punctual again early late stop (again time) rest) :
      Punctual again early late stop n (⟨i, some n, time⟩ :: rest)

lemma Due.early_le {again : Time → Time} {n : Time} {job : CronJob} (h : Due getNext again n job)
    {δ i : ℕ} {turn : Turn} (hturn : turn.Prompt δ)
    (hrun : job.shouldRun (turn.pass.clock i) = true) : n ≤ turn.start + (δ : ℤ) := by
  have hreached : n ≤ turn.pass.clock i := by simpa [h.run] using hrun
  exact hreached.trans (hturn.clock i).2

lemma Due.lt_of_early {again : Time → Time} {n : Time} {job : CronJob} (h : Due getNext again n job)
    {δ i : ℕ} {turn : Turn} (hturn : turn.Prompt δ)
    (hrun : job.shouldRun (turn.pass.clock i) = false) : turn.start < n := by
  have hahead : turn.pass.clock i < n := by simpa [h.run] using hrun
  exact (hturn.clock i).1.trans_lt hahead

/-- A sleep ends in time for a job that comes later than the turn. -/
lemma start_le_of_slept {δ ε : ℕ} {jobs : List CronJob} {job : CronJob} {turn next : Turn}
    {n : Time} (hturn : turn.Prompt δ) (hjob : job ∈ jobs) (hnext : job.nextEnqueueTime = some n)
    (hlt : turn.start < n)
    (hwoke : next.start ≤ turn.dozes + calculateSleepInterval jobs turn.dozes + ε) :
    next.start ≤ n + (δ + ε : ℤ) := by
  have hslept := calculateSleepInterval_le_of_mem hjob hnext turn.dozes
  have hdozes : max n turn.dozes ≤ n + (δ : ℤ) := by
    have hprompt := hturn.dozes
    apply max_le
    · lia
    · lia
  lia

lemma punctual_loopFirings {again : Time → Time} (hagain : ∀ time, time < again time)
    {δ ε i : ℕ} {jobs : List CronJob} {turns : List Turn} (h : Paced getNext δ ε jobs turns)
    {job : CronJob} {n : Time} (hjob : jobs[i]? = some job) (hdue : Due getNext again n job)
    {first last : Turn} (hfirst : turns.head? = some first) (hlast : turns.getLast? = some last)
    (hstart : first.start ≤ n + (δ + ε : ℤ)) :
    Punctual again δ (δ + ε) last.start n (loopFirings getNext i jobs turns) := by
  induction h generalizing job n first with
  | @last jobs turn hturn =>
    obtain rfl : turn = first := by simpa using hfirst
    obtain rfl : turn = last := by simpa using hlast
    obtain ⟨job', -, hasked⟩ := @asked_enqueueFrom getNext turn.pass 0 jobs i job hjob
    rw [Nat.zero_add] at hasked
    rw [loopFirings_cons, show loopFirings getNext i (enqueueJobs getNext turn.pass jobs).1 [] = []
      from rfl, List.append_nil, enqueueJobs]
    generalize (enqueueFrom getNext turn.pass 0 jobs).2.filter (·.index = i) = fired at hasked ⊢
    cases hasked with
    | missed => exact .nil hstart
    | early => exact .nil hstart
    | due hrun =>
      have hlt : turn.start < again turn.pass.enqueueTime := hagain turn.start
      rw [hdue.next]
      exact .cons (hdue.early_le hturn hrun) hstart (.nil (by lia))
  | @sleeps jobs jobs' turn next turns hturn hquiet hjobs hslept hwoke hrest ih =>
    obtain rfl : turn = first := by simpa using hfirst
    obtain ⟨job', hjob', hasked⟩ := @asked_enqueueFrom getNext turn.pass 0 jobs i job hjob
    rw [Nat.zero_add] at hasked
    rw [loopFirings_cons, hjobs, enqueueJobs]
    rw [show (enqueueFrom getNext turn.pass 0 jobs).1 = jobs' from hjobs] at hjob'
    have hmem : job' ∈ jobs' := List.mem_of_getElem? hjob'
    generalize (enqueueFrom getNext turn.pass 0 jobs).2.filter (·.index = i) = fired at hasked ⊢
    cases hasked with
    | missed hraised =>
      obtain ⟨k, hk⟩ := hraised
      simp [hquiet] at hk
    | early hrun =>
      -- the job has not been due during the pass, so the loop wakes in time for it
      have hlt : turn.start < n := hdue.lt_of_early hturn hrun
      exact ih hjob' hdue rfl (by simpa using hlast)
        (start_le_of_slept hturn hmem hdue.next hlt hwoke)
    | due hrun =>
      have hdue' := hdue.schedule.due turn.pass.enqueueTime (turn.pass.later i)
      rw [hdue.next]
      refine .cons (hdue.early_le hturn hrun) hstart (ih hjob' hdue' rfl (by simpa using hlast) ?_)
      exact start_le_of_slept hturn hmem hdue'.next (hagain turn.start) hwoke

/-- A job that is due in the first turn, which is not the last one, is enqueued there and is punctual
from then on. -/
lemma loopFirings_of_due {again : Time → Time} (hagain : ∀ time, time < again time) {δ ε i : ℕ}
    {jobs : List CronJob} {turn next : Turn} {turns : List Turn}
    (h : Paced getNext δ ε jobs (turn :: next :: turns)) {job : CronJob}
    (hjob : jobs[i]? = some job) (hschedule : Schedule getNext job again)
    (hrun : job.shouldRun (turn.pass.clock i) = true) {last : Turn}
    (hlast : (next :: turns).getLast? = some last) :
    ∃ rest, loopFirings getNext i jobs (turn :: next :: turns) =
        ⟨i, job.nextEnqueueTime, turn.start⟩ :: rest ∧
      Punctual again δ (δ + ε) last.start (again turn.start) rest := by
  cases h with
  | @sleeps _ jobs' _ _ _ hturn hquiet hjobs hslept hwoke hrest =>
    obtain ⟨job', hjob', hasked⟩ := @asked_enqueueFrom getNext turn.pass 0 jobs i job hjob
    rw [Nat.zero_add] at hasked
    rw [loopFirings_cons, hjobs, enqueueJobs]
    rw [show (enqueueFrom getNext turn.pass 0 jobs).1 = jobs' from hjobs] at hjob'
    have hmem : job' ∈ jobs' := List.mem_of_getElem? hjob'
    generalize (enqueueFrom getNext turn.pass 0 jobs).2.filter (·.index = i) = fired at hasked ⊢
    cases hasked with
    | missed hraised =>
      obtain ⟨k, hk⟩ := hraised
      simp [hquiet] at hk
    | early hearly =>
      rw [hrun] at hearly
      cases hearly
    | due =>
      have hdue' := hschedule.due turn.pass.enqueueTime (turn.pass.later i)
      refine ⟨_, rfl, punctual_loopFirings hagain hrest hjob' hdue' rfl hlast ?_⟩
      exact start_le_of_slept hturn hmem hdue'.next (hagain turn.start) hwoke

/-! ## Slots -/

/-- The firing is for the slot, and neither more than `early` before nor more than `late` after
it. -/
structure Firing.InTime (early late : ℤ) (slot : Time) (a : Firing) : Prop where
  slot_eq : a.slot = some slot
  notEarly : slot ≤ a.enqueueTime + early
  notLate : a.enqueueTime ≤ slot + late

section Slots
variable {slots : String → Set Time} {expr : String} {early late : ℤ} {stop n : Time}
  {l : List Firing}

lemma Punctual.inTime (hnext : getNext.Correct slots) (hn : n ∈ slots expr)
    (h : Punctual (getNext expr) early late stop n l) {a : Firing} (ha : a ∈ l) :
    ∃ slot ∈ slots expr, a.InTime early late slot := by
  induction h with
  | nil => simp at ha
  | @cons n i time rest hearly hlate hrest ih =>
    rcases List.mem_cons.mp ha with rfl | ha
    · exact ⟨n, hn, rfl, hearly, hlate⟩
    · exact ih (hnext expr time).1.1 ha

/-- No slot is passed over but those that have come before the job was enqueued for an earlier
one. -/
lemma Punctual.exists_inTime (hnext : getNext.Correct slots) (hn : n ∈ slots expr)
    (h : Punctual (getNext expr) early late stop n l) {slot : Time} (hslot : slot ∈ slots expr)
    (hle : n ≤ slot) (hstop : slot + late < stop) :
    ∃ a ∈ l, ∃ n ∈ slots expr, a.InTime early late n ∧
      (n = slot ∨ n < slot ∧ slot ≤ a.enqueueTime) := by
  induction h with
  | nil hpending => lia
  | @cons n i time rest hearly hlate hrest ih =>
    by_cases hmet : n = slot ∨ n < slot ∧ slot ≤ time
    · exact ⟨⟨i, some n, time⟩, by simp, n, hn, ⟨rfl, hearly, hlate⟩, hmet⟩
    · -- the slot is still ahead when the job is enqueued, and then the next one is no later
      have hahead : time < slot := by lia
      obtain ⟨⟨hnext', -⟩, hleast⟩ := hnext expr time
      obtain ⟨a, ha, hinTime⟩ := ih hnext' (hleast ⟨hslot, hahead⟩)
      exact ⟨a, List.mem_cons_of_mem _ ha, hinTime⟩

end Slots

/-- A job that has been registered is due at the next slot. -/
lemma due_create {queueName : QueueName} {interval : Option ℤ} {cron : Option String}
    {registered : Time} {job : CronJob} {expr : String}
    (hcreate : CronJob.create getNext queueName interval cron registered = .ok job)
    (hexpr : job.expression = some expr) :
    Due getNext (getNext expr) (getNext expr registered) job where
  schedule := .cron hexpr
  next := CronJob.nextEnqueueTime_create hcreate hexpr
  run clock := by
    simp [CronJob.shouldRun, hexpr, CronJob.nextEnqueueTime_create hcreate hexpr]

/-- What a single turn enqueues is due. -/
lemma mem_loopFirings_singleton {again : Time → Time} {n : Time} {job : CronJob}
    (hdue : Due getNext again n job) {δ i : ℕ} {turn : Turn} (hturn : turn.Prompt δ)
    {jobs : List CronJob} (hjob : jobs[i]? = some job) {a : Firing}
    (ha : a ∈ loopFirings getNext i jobs [turn]) :
    a = ⟨i, some n, turn.start⟩ ∧ n ≤ turn.start + (δ : ℤ) := by
  obtain ⟨job', -, hasked⟩ := @asked_enqueueFrom getNext turn.pass 0 jobs i job hjob
  rw [Nat.zero_add] at hasked
  rw [loopFirings_cons, show loopFirings getNext i (enqueueJobs getNext turn.pass jobs).1 [] = []
    from rfl, List.append_nil, enqueueJobs] at ha
  generalize (enqueueFrom getNext turn.pass 0 jobs).2.filter (·.index = i) = fired at hasked ha
  cases hasked with
  | missed => simp at ha
  | early => simp at ha
  | due hrun =>
    rw [List.mem_singleton, hdue.next] at ha
    exact ⟨ha, hdue.early_le hturn hrun⟩

/-- **What a loop does about the slots of an expression.** It enqueues the job for slots only, at
most `δ` too early (see `slot_fires_twice`) and, save for a slot from before the loop, at most
`δ + ε` too late. Each slot of its time is met so, unless the job has been enqueued after it for a
slot that came less than `δ + ε` before it. -/
theorem slots_met {slots : String → Set Time} (hnext : getNext.Correct slots) {expr : String}
    {δ ε i : ℕ} {jobs : List CronJob} {turns : List Turn} (h : Paced getNext δ ε jobs turns)
    {job : CronJob} (hjob : jobs[i]? = some job) {queueName : QueueName} {interval : Option ℤ}
    {cron : Option String} {registered : Time}
    (hcreate : CronJob.create getNext queueName interval cron registered = .ok job)
    (hexpr : job.expression = some expr) {first last : Turn} (hfirst : turns.head? = some first)
    (hlast : turns.getLast? = some last) (hregistered : registered ≤ first.start) :
    (∀ a ∈ loopFirings getNext i jobs turns, ∃ slot ∈ slots expr, a.InTime δ (δ + ε) slot ∨
      a.slot = some slot ∧ slot ≤ first.start ∧ a.enqueueTime = first.start) ∧
    ∀ slot ∈ slots expr, first.start < slot → slot + (δ + ε : ℤ) < last.start →
      ∃ a ∈ loopFirings getNext i jobs turns, ∃ n ∈ slots expr, a.InTime δ (δ + ε) n ∧
        (n = slot ∨ n < slot ∧ slot ≤ a.enqueueTime) := by
  have hagain : ∀ time, time < getNext expr time := fun time => (hnext expr time).1.2
  have hdue := due_create hcreate hexpr
  obtain ⟨⟨hn, -⟩, hleast⟩ := hnext expr registered
  generalize getNext expr registered = n at hdue hn hleast
  by_cases hoverdue : n ≤ first.start
  · match turns, hfirst with
    | [turn], hfirst =>
      obtain rfl : turn = first := by simpa using hfirst
      obtain rfl : turn = last := by simpa using hlast
      constructor
      · intro a ha
        obtain ⟨rfl, -⟩ := mem_loopFirings_singleton hdue h.prompt hjob ha
        exact ⟨n, hn, .inr ⟨rfl, hoverdue, rfl⟩⟩
      · intro slot hslot hahead hstop
        lia
    | turn :: next :: turns, hfirst =>
      -- the loop begins with a slot from before it, and the next one is the first of its own
      obtain rfl : turn = first := by simpa using hfirst
      have hlast' : (next :: turns).getLast? = some last := by simpa using hlast
      have hrun : job.shouldRun (turn.pass.clock i) = true := by
        simpa [hdue.run] using hoverdue.trans (h.prompt.clock i).1
      obtain ⟨rest, hrest, hpunctual⟩ :=
        loopFirings_of_due hagain h hjob hdue.schedule hrun hlast'
      obtain ⟨⟨hfollowing, -⟩, hleast'⟩ := hnext expr turn.start
      rw [hrest]
      constructor
      · intro a ha
        rcases List.mem_cons.mp ha with rfl | ha
        · exact ⟨n, hn, .inr ⟨hdue.next, hoverdue, rfl⟩⟩
        · obtain ⟨slot, hslot, hinTime⟩ := hpunctual.inTime hnext hfollowing ha
          exact ⟨slot, hslot, .inl hinTime⟩
      · intro slot hslot hahead hstop
        obtain ⟨a, ha, hinTime⟩ :=
          hpunctual.exists_inTime hnext hfollowing hslot (hleast' ⟨hslot, hahead⟩) hstop
        exact ⟨a, List.mem_cons_of_mem _ ha, hinTime⟩
  · have hstart : first.start ≤ n + (δ + ε : ℤ) := by lia
    have hpunctual := punctual_loopFirings hagain h hjob hdue hfirst hlast hstart
    constructor
    · intro a ha
      obtain ⟨slot, hslot, hinTime⟩ := hpunctual.inTime hnext hn ha
      exact ⟨slot, hslot, .inl hinTime⟩
    · intro slot hslot hahead hstop
      have hle : n ≤ slot := hleast ⟨hslot, hregistered.trans_lt hahead⟩
      exact hpunctual.exists_inTime hnext hn hslot hle hstop

/-! ## Intervals -/

/-- The second enqueueing comes an interval after the first, but for `early` and `late`. -/
structure Firing.Spaced (interval early late : ℤ) (a b : Firing) : Prop where
  notEarly : a.enqueueTime + interval ≤ b.enqueueTime + early
  notLate : b.enqueueTime ≤ a.enqueueTime + interval + late

lemma Punctual.spaced {interval early late : ℤ} {stop : Time} {a : Firing} {rest : List Firing}
    (h : Punctual (fun time => time + interval) early late stop (a.enqueueTime + interval) rest) :
    (a :: rest).IsChain (Firing.Spaced interval early late) ∧
      ∀ z ∈ (a :: rest).getLast?, stop ≤ z.enqueueTime + interval + late := by
  induction rest generalizing a with
  | nil =>
    cases h with
    | nil hstop =>
      refine ⟨.singleton a, fun z hz => ?_⟩
      obtain rfl : a = z := by simpa using hz
      exact hstop
  | cons b rest ih =>
    cases h with
    | @cons _ i time _ hearly hlate hrest =>
      obtain ⟨hchain, hstop⟩ := @ih ⟨i, some _, time⟩ hrest
      refine ⟨.cons_cons ⟨hearly, hlate⟩ hchain, fun z hz => hstop z ?_⟩
      simpa using hz

lemma create_interval {queueName : QueueName} {interval : ℤ} {cron : Option String}
    {registered : Time} {job : CronJob} (hne : interval ≠ 0)
    (hcreate : CronJob.create getNext queueName (some interval) cron registered = .ok job) :
    job.expression = none ∧ job.latestEnqueueTime = none ∧ job.interval = some interval := by
  have hhas : CronJob.hasInterval (some interval) = true := by simp [CronJob.hasInterval, hne]
  simp only [CronJob.create, hhas, Bool.true_and, Bool.not_true, Bool.false_and] at hcreate
  split at hcreate
  · cases hcreate
  · next hnone =>
    cases hcreate
    exact ⟨Option.not_isSome_iff_eq_none.mp hnone, rfl, rfl⟩

/-- **How far the enqueueings of a job with an interval are apart.** The first one is in the first
turn, each is followed by another one after the interval, at most `δ` too early and at most `δ + ε`
too late, and so on until the loop ends. -/
theorem intervals_met {interval : ℤ} (hinterval : 0 < interval) {δ ε i : ℕ} {jobs : List CronJob}
    {turns : List Turn} (h : Paced getNext δ ε jobs turns) {job : CronJob}
    (hjob : jobs[i]? = some job) {queueName : QueueName} {cron : Option String} {registered : Time}
    (hcreate : CronJob.create getNext queueName (some interval) cron registered = .ok job)
    {first last : Turn} (hfirst : turns.head? = some first) (hlast : turns.getLast? = some last)
    (hlater : first.start < last.start) :
    ∃ a rest, loopFirings getNext i jobs turns = a :: rest ∧ a.enqueueTime = first.start ∧
      (a :: rest).IsChain (Firing.Spaced interval δ (δ + ε)) ∧
      ∀ z ∈ (a :: rest).getLast?, last.start ≤ z.enqueueTime + interval + (δ + ε : ℤ) := by
  obtain ⟨hexpr, hlatest, hkept⟩ := create_interval hinterval.ne' hcreate
  match turns, hfirst with
  | [turn], hfirst =>
    obtain rfl : turn = first := by simpa using hfirst
    obtain rfl : turn = last := by simpa using hlast
    exact absurd hlater (lt_irrefl _)
  | turn :: next :: turns, hfirst =>
    obtain rfl : turn = first := by simpa using hfirst
    have hschedule : Schedule getNext job fun time => time + interval :=
      .interval hexpr hkept hinterval.ne'
    have hagain : ∀ time : Time, time < time + interval := fun time => by lia
    have hrun : job.shouldRun (turn.pass.clock i) = true := by
      simp [CronJob.shouldRun, hexpr, hlatest]
    obtain ⟨rest, hrest, hpunctual⟩ :=
      loopFirings_of_due hagain h hjob hschedule hrun (by simpa using hlast)
    refine ⟨_, rest, hrest, rfl, ?_⟩
    exact Punctual.spaced hpunctual

end Loop

/-! ### Every minute and every ten seconds -/

/-- Registered at 0, and in a loop from 5 on. -/
def minutely : CronJob :=
  { queueName := "default", cron := some "* * * * *", nextEnqueueTime := some 60 }

def tenSecondly : CronJob := { queueName := "default", interval := some 10 }

/-- A turn that takes no time. -/
def Turn.instant (start : Time) : Turn :=
  ⟨⟨start, fun _ => start, fun _ => start, fun _ => false⟩, start, start⟩

lemma Turn.prompt_instant (δ : ℕ) (start : Time) : (Turn.instant start).Prompt δ := by
  have hle : start ≤ start + (δ : ℤ) := by lia
  exact ⟨fun _ => ⟨le_refl _, hle⟩, ⟨le_refl _, le_refl _⟩, hle⟩

def minutelyTurns : List Turn := [.instant 5, .instant 60, .instant 121]

def tenSecondlyTurns : List Turn := [.instant 5, .instant 16, .instant 26]

lemma minutely_paced : Paced everyMinute 1 1 [minutely] minutelyTurns := by
  refine .sleeps (Turn.prompt_instant 1 5) (fun _ => rfl) rfl (by decide) (by decide) ?_
  refine .sleeps (Turn.prompt_instant 1 60) (fun _ => rfl) rfl (by decide) (by decide) ?_
  exact .last (Turn.prompt_instant 1 121)

lemma tenSecondly_paced : Paced everyMinute 1 1 [tenSecondly] tenSecondlyTurns := by
  refine .sleeps (Turn.prompt_instant 1 5) (fun _ => rfl) rfl (by decide) (by decide) ?_
  refine .sleeps (Turn.prompt_instant 1 16) (fun _ => rfl) rfl (by decide) (by decide) ?_
  exact .last (Turn.prompt_instant 1 26)

theorem slots_met_minutely :
    let slots : String → Set Time := fun _ => {s | 60 ∣ s}
    let firings := loopFirings everyMinute 0 [minutely] minutelyTurns
    (∀ a ∈ firings, ∃ slot ∈ slots "* * * * *", a.InTime (1 : ℕ) ((1 : ℕ) + (1 : ℕ)) slot ∨
      a.slot = some slot ∧ slot ≤ 5 ∧ a.enqueueTime = 5) ∧
    ∀ slot ∈ slots "* * * * *", 5 < slot → slot + ((1 : ℕ) + (1 : ℕ) : ℤ) < (121 : Time) →
      ∃ a ∈ firings, ∃ n ∈ slots "* * * * *", a.InTime (1 : ℕ) ((1 : ℕ) + (1 : ℕ)) n ∧
        (n = slot ∨ n < slot ∧ slot ≤ a.enqueueTime) :=
  slots_met everyMinute_correct minutely_paced rfl
    (show CronJob.create everyMinute "default" none (some "* * * * *") 0 = .ok minutely from rfl)
    rfl (show _ = some (Turn.instant 5) from rfl) (show _ = some (Turn.instant 121) from rfl)
    (by decide)

theorem intervals_met_tenSecondly :
    ∃ a rest, loopFirings everyMinute 0 [tenSecondly] tenSecondlyTurns = a :: rest ∧
      a.enqueueTime = 5 ∧ (a :: rest).IsChain (Firing.Spaced 10 (1 : ℕ) ((1 : ℕ) + (1 : ℕ))) ∧
      ∀ z ∈ (a :: rest).getLast?, 26 ≤ z.enqueueTime + 10 + ((1 : ℕ) + (1 : ℕ) : ℤ) :=
  intervals_met (by decide) tenSecondly_paced rfl
    (show CronJob.create everyMinute "default" (some 10) none 0 = .ok tenSecondly from rfl)
    (show _ = some (Turn.instant 5) from rfl) (show _ = some (Turn.instant 26) from rfl) (by decide)

end CronScheduler
end RedisQueue
