import RedisQueue.CronLoop
import RedisQueue.CronSchedulers

/-!
# Cron schedulers in their loops

Any number of processes in `CronScheduler.start` (`rq/cron.py`), with clean-ups of their registry
and with keys that expire. All of them go by one clock.

* `CronFleet.stays_listed`: as long as the statements of a turn take at most `δ`, a sleep is at most
  `ε` too long, and `2 * δ + ε` is less than a minute, no clean-up with a threshold of two minutes
  or more takes a scheduler at work for a stale one, and its hash does not expire.
-/

namespace RedisQueue

/-! ## What the store has of a scheduler -/

/-- The score of a name in the registry, the hash of that name and when it expires. -/
@[ext] structure CronEntry where
  score : Option Score
  hash : CronSchedulerHash
  expiry : Option Time
deriving DecidableEq

namespace CronScheduler

def entryOf (name : String) (s : CronStore) : CronEntry where
  score := (s.val .registry).score name
  hash := s.val (.scheduler name)
  expiry := s.exp (.scheduler name)

/-! ### What the operations do to it -/

lemma mem_registry_iff {s : CronStore} {name : String} :
    name ∈ s.val .registry ↔ (entryOf name s).score.isSome := by
  rw [Option.isSome_iff_ne_none, Ne, entryOf, ZSet.score_eq_none, not_not]

lemma toDict_ne_default (self : CronScheduler) (jobs : List CronJob) :
    { self.toDict with cronJobs := some jobs } ≠ (default : CronSchedulerHash) := by
  intro h
  have hname := congrArg CronSchedulerHash.name h
  cases hname

variable {s : CronStore} {name : String}

/-- What a command on the registry does to a score, and nothing else. -/
lemma entry_alter (f : ZSet String → ZSet String) :
    entryOf name ((Command.alter .registry f : Command CronKey CronValue).run s) =
      { entryOf name s with score := (f (s.val .registry)).score name } := by
  ext1
  · simp [entryOf]
  · simp [entryOf]
  · exact Command.keepsExp_alter (by simp) s

lemma entry_write_of_ne {other : String} (hne : name ≠ other)
    (f : CronSchedulerHash → CronSchedulerHash) :
    entryOf name ((Command.write (.scheduler other) f : Command CronKey CronValue).run s) =
      entryOf name s := by
  have hkey : CronKey.scheduler name ≠ .scheduler other := by simpa using hne
  ext1
  · simp [entryOf]
  · simp [entryOf, hkey]
  · exact Command.keepsExp_write hkey s

lemma entry_write (f : CronSchedulerHash → CronSchedulerHash)
    (hf : f (s.val (.scheduler name)) ≠ default) :
    entryOf name ((Command.write (.scheduler name) f : Command CronKey CronValue).run s) =
      { entryOf name s with hash := f (entryOf name s).hash } := by
  ext1
  · simp [entryOf]
  · simp [entryOf]
  · show (if f (s.val (.scheduler name)) = default then _ else s.exp) (.scheduler name) = _
    rw [if_neg hf]
    rfl

lemma entry_expire_of_ne {other : String} (hne : name ≠ other) (t : Time) :
    entryOf name ((Command.expire (.scheduler other) t : Command CronKey CronValue).run s) =
      entryOf name s := by
  have hkey : CronKey.scheduler name ≠ .scheduler other := by simpa using hne
  ext1
  · simp [entryOf]
  · simp [entryOf]
  · exact Command.keepsExp_expire hkey s

lemma entry_expire (t : Time) (hhash : (entryOf name s).hash ≠ default) :
    entryOf name ((Command.expire (.scheduler name) t : Command CronKey CronValue).run s) =
      { entryOf name s with expiry := some t } := by
  have hval : s.val (.scheduler name) ≠ default := hhash
  ext1
  · simp [entryOf]
  · simp [entryOf]
  · simp [entryOf, Command.expire, hval]

lemma entry_birth (self : CronScheduler) (now : Time) (hfree : self.name ∉ s.val .registry) :
    entryOf self.name ((self.registerBirth now).run s).2 =
      ⟨some (now : ℤ), self.toDict, some (now + 60)⟩ := by
  have hdict : self.toDict ≠ default := self.toDict_ne_default self.cronJobs
  rw [run_registerBirth]
  simp only [birthCommands, zaddNx, Command.seq_cons_run, Command.seq_nil_run]
  rw [entry_expire, entry_write (fun _ => self.toDict) hdict, entry_alter, if_neg hfree]
  · simp [ZSet.score_add]
  · rw [entry_write (fun _ => self.toDict) hdict]
    exact hdict

lemma entry_birth_of_ne (self : CronScheduler) (now : Time) (hne : name ≠ self.name) :
    entryOf name ((self.registerBirth now).run s).2 = entryOf name s := by
  rw [run_registerBirth]
  simp only [birthCommands, zaddNx, Command.seq_cons_run, Command.seq_nil_run]
  rw [entry_expire_of_ne hne, entry_write_of_ne hne, entry_alter]
  split
  · rfl
  · simp [ZSet.score_add, hne, entryOf]

lemma entry_heartbeat (self : CronScheduler) (now : Time) (hmem : self.name ∈ s.val .registry)
    (hhash : (entryOf self.name s).hash ≠ default) :
    entryOf self.name ((self.heartbeat now).run s).2 =
      ⟨some (now : ℤ), (entryOf self.name s).hash, some (now + 120)⟩ := by
  rw [run_heartbeat]
  simp only [zaddXx, Command.seq_cons_run, Command.seq_nil_run]
  rw [entry_expire, entry_alter, if_pos hmem]
  · simp [ZSet.score_add]
  · rwa [entry_alter]

lemma entry_heartbeat_of_ne (self : CronScheduler) (now : Time) (hne : name ≠ self.name) :
    entryOf name ((self.heartbeat now).run s).2 = entryOf name s := by
  rw [run_heartbeat]
  simp only [zaddXx, Command.seq_cons_run, Command.seq_nil_run]
  rw [entry_expire_of_ne hne, entry_alter]
  split
  · simp [ZSet.score_add, hne, entryOf]
  · rfl

lemma entry_saveJobsData_of_ne (self : CronScheduler) (hne : name ≠ self.name) :
    entryOf name (self.saveJobsData.run s).2 = entryOf name s := by
  simp only [saveJobsData, Prog.run_perform]
  exact entry_write_of_ne hne _

lemma entry_saveJobsData (self : CronScheduler) {score : Option Score} {expiry : Option Time}
    {jobs : List CronJob} (hentry : entryOf self.name s =
      ⟨score, { self.toDict with cronJobs := some jobs }, expiry⟩) :
    entryOf self.name (self.saveJobsData.run s).2 = ⟨score, self.toDict, expiry⟩ := by
  have hhash : s.val (.scheduler self.name) = { self.toDict with cronJobs := some jobs } :=
    congrArg CronEntry.hash hentry
  simp only [saveJobsData, Prog.run_perform]
  rw [entry_write]
  · rw [hentry]
    rfl
  · rw [hhash]
    exact self.toDict_ne_default self.cronJobs

lemma run_registerDeath (self : CronScheduler) (s : CronStore) :
    (self.registerDeath.run s).2 =
      (Command.alter .registry fun z => z.remove self.name).run s := by
  simp only [registerDeath, unregister, Prog.run_step]
  split <;> rfl

lemma entry_registerDeath_of_ne (self : CronScheduler) (hne : name ≠ self.name) :
    entryOf name (self.registerDeath.run s).2 = entryOf name s := by
  rw [run_registerDeath, entry_alter, ZSet.score_remove, if_neg hne]
  rfl

/-- A clean-up spares a scheduler that has been heard of within the threshold. -/
lemma entry_cleanup {threshold score : ℤ} {now : Time}
    (hscore : (entryOf name s).score = some (score : Score)) (hfresh : now < score + threshold) :
    entryOf name ((cleanup threshold now).run s).2 = entryOf name s := by
  have hlt : (now - threshold : ℤ) < score := by lia
  have hout : (!ZSet.inRange (0 : ℤ) (now - threshold : ℤ) (name, (score : Score))) = true := by
    simp only [ZSet.inRange, Bool.not_eq_true', Bool.and_eq_false_iff, decide_eq_false_iff_not]
    exact .inr (not_le.mpr (WithTop.coe_lt_coe.mpr hlt))
  have hkept : (s.val .registry).score name = some (score : Score) := hscore
  rw [cleanup, Prog.run_perform]
  dsimp only
  rw [entry_alter, ZSet.score_removeRange, hkept, Option.filter_some, if_pos hout, ← hscore]

lemma entry_expireAt {now expiry : Time} (hregistry : s.exp .registry = none)
    (hexpiry : (entryOf name s).expiry = some expiry) (hle : now ≤ expiry) :
    entryOf name (s.expireAt now) = entryOf name s := by
  have hkept : ¬s.Expired now .registry := by
    rintro ⟨t, ht, -⟩
    rw [hregistry] at ht
    cases ht
  have hkept' : ¬s.Expired now (.scheduler name) := by
    rintro ⟨t, ht, hlt⟩
    have heq : some t = some expiry := ht.symm.trans hexpiry
    obtain rfl := Option.some.inj heq
    exact absurd hle (not_le.mpr hlt)
  simp [entryOf, KeyStore.expireAt, hkept, hkept']

/-! ### The registry itself does not expire -/

lemma persistent_birth (self : CronScheduler) (now : Time) (h : s.exp .registry = none) :
    ((self.registerBirth now).run s).2.exp .registry = none := by
  rw [run_registerBirth]
  exact CronCluster.persistent_expire
    (CronCluster.persistent_write (CronCluster.persistent_alter h _) _ _) _ _

lemma persistent_heartbeat (self : CronScheduler) (now : Time) (h : s.exp .registry = none) :
    ((self.heartbeat now).run s).2.exp .registry = none := by
  rw [run_heartbeat]
  exact CronCluster.persistent_expire (CronCluster.persistent_alter h _) _ _

lemma persistent_saveJobsData (self : CronScheduler) (h : s.exp .registry = none) :
    (self.saveJobsData.run s).2.exp .registry = none := by
  simp only [saveJobsData, Prog.run_perform]
  exact CronCluster.persistent_write h _ _

lemma persistent_registerDeath (self : CronScheduler) (h : s.exp .registry = none) :
    (self.registerDeath.run s).2.exp .registry = none := by
  rw [run_registerDeath]
  exact CronCluster.persistent_alter h _

lemma persistent_cleanup (threshold : ℤ) (now : Time) (h : s.exp .registry = none) :
    ((cleanup threshold now).run s).2.exp .registry = none := by
  simp only [cleanup, Prog.run_perform]
  exact CronCluster.persistent_alter h _

lemma persistent_expireAt (now : Time) (h : s.exp .registry = none) :
    (s.expireAt now).exp .registry = none := by
  simp [KeyStore.expireAt, h]

end CronScheduler

/-! ## Processes -/

/-- Where in `start` a process is. A turn begins when `register_birth` has been done or when the
sleep of the turn before it is over. -/
inductive CronPhase where
  | idle
  /-- Before the pass of a turn that has begun at a time. -/
  | awake (since : Time)
  /-- Before the heartbeat, and before that `save_jobs_data` if the pass has enqueued something. -/
  | passed (since : Time) (unsaved : Bool)
  /-- A pass has raised, and `register_death` is next. -/
  | ending (since : Time)
  /-- Before `calculate_sleep_interval`. -/
  | beaten (since : Time)
  /-- In `time.sleep` until a time. -/
  | asleep (wake : Time)
deriving DecidableEq, Repr

/-- The processes and the store, and the time of what has happened last. -/
structure CronFleet where
  schedulers : ℕ → CronScheduler
  phase : ℕ → CronPhase := fun _ => .idle
  store : CronStore
  clock : Time

namespace CronFleet

/-- What the processes do and what happens to them. -/
inductive Event where
  | birth (i : ℕ)
  | pass (i : ℕ) (pass : CronScheduler.Pass)
  | save (i : ℕ)
  | beat (i : ℕ)
  | doze (i : ℕ)
  | wake (i : ℕ)
  /-- `StopRequested` or an exception ends the loop, and `register_death` follows. -/
  | stop (i : ℕ)
  | crash (i : ℕ)
  /-- `cron_scheduler_registry.cleanup` by anybody. -/
  | cleanup (threshold : ℤ)
  /-- Keys expire. -/
  | expire

variable (getNext : GetNext)

/-- Whether the enqueueing of a job that is due raises. -/
def raised (pass : CronScheduler.Pass) (jobs : List CronJob) : Bool :=
  jobs.zipIdx.any fun (job, k) => job.shouldRun (pass.clock k) && pass.raises k

def enter (self : CronFleet) (i : ℕ) (phase : CronPhase) : CronFleet :=
  { self with phase := Function.update self.phase i phase }

/-- The store after a program has run. -/
def perform (self : CronFleet) (program : Prog CronStore CronError Unit) : CronFleet :=
  { self with store := (program.run self.store).2 }

def setJobs (self : CronFleet) (i : ℕ) (jobs : List CronJob) : CronFleet :=
  { self with
    schedulers := Function.update self.schedulers i { self.schedulers i with cronJobs := jobs } }

/-- A process does only what comes next in its phase. -/
def handleAt (self : CronFleet) (now : Time) : Event → CronFleet
  | .birth i =>
    match self.phase i with
    -- `register_birth` never raises
    | .idle => (self.perform ((self.schedulers i).registerBirth now)).enter i (.awake now)
    | _ => self
  | .pass i pass =>
    match self.phase i with
    | .awake since =>
      let jobs := (self.schedulers i).cronJobs
      let passed := CronScheduler.enqueueJobs getNext pass jobs
      (self.setJobs i passed.1).enter i
        (if raised pass jobs then .ending since else .passed since !passed.2.isEmpty)
    | _ => self
  | .save i =>
    match self.phase i with
    | .passed since true =>
      (self.perform (self.schedulers i).saveJobsData).enter i (.passed since false)
    | _ => self
  | .beat i =>
    match self.phase i with
    | .passed since false =>
      (self.perform ((self.schedulers i).heartbeat now)).enter i (.beaten since)
    | _ => self
  | .doze i =>
    match self.phase i with
    | .beaten _ =>
      let sleepTime := CronScheduler.calculateSleepInterval (self.schedulers i).cronJobs now
      self.enter i (.asleep (now + sleepTime))
    | _ => self
  | .wake i =>
    match self.phase i with
    | .asleep _ => self.enter i (.awake now)
    | _ => self
  | .stop i =>
    match self.phase i with
    | .idle => self
    | _ => (self.perform (self.schedulers i).registerDeath).enter i .idle
  | .crash i => self.enter i .idle
  | .cleanup threshold => self.perform (CronScheduler.cleanup threshold now)
  | .expire => { self with store := self.store.expireAt now }

def handle (self : CronFleet) (now : Time) (event : Event) : CronFleet :=
  { self.handleAt getNext now event with clock := now }

def run (self : CronFleet) : List (Time × Event) → CronFleet
  | [] => self
  | (now, event) :: events => (self.handle getNext now event).run events

/-! ### Which runs keep the pace -/

/-- The time until which a process stays in a phase at most. -/
def InPace (δ ε : ℕ) (now : Time) : CronPhase → Prop
  | .idle => True
  | .awake since | .passed since _ | .ending since | .beaten since => now ≤ since + (δ : ℤ)
  | .asleep wake => now ≤ wake + (ε : ℤ)

instance (δ ε : ℕ) (now : Time) : (phase : CronPhase) → Decidable (InPace δ ε now phase)
  | .idle => inferInstanceAs (Decidable True)
  | .awake since => inferInstanceAs (Decidable (now ≤ since + (δ : ℤ)))
  | .passed since _ => inferInstanceAs (Decidable (now ≤ since + (δ : ℤ)))
  | .ending since => inferInstanceAs (Decidable (now ≤ since + (δ : ℤ)))
  | .beaten since => inferInstanceAs (Decidable (now ≤ since + (δ : ℤ)))
  | .asleep wake => inferInstanceAs (Decidable (now ≤ wake + (ε : ℤ)))

def sleepsUntil : CronPhase → Option Time
  | .asleep wake => some wake
  | _ => none

/-- A name is only taken when it is free, no sleep ends early, and a clean-up leaves two minutes. -/
def Permits (fleet : CronFleet) (now : Time) : Event → Prop
  | .birth i => fleet.phase i = .idle → (fleet.schedulers i).name ∉ fleet.store.val .registry
  | .wake i => ∀ wake ∈ sleepsUntil (fleet.phase i), wake ≤ now
  | .cleanup threshold => 120 ≤ threshold
  | _ => True

instance (fleet : CronFleet) (now : Time) : (event : Event) → Decidable (fleet.Permits now event)
  | .birth i => inferInstanceAs (Decidable (fleet.phase i = .idle →
      (fleet.schedulers i).name ∉ fleet.store.val .registry))
  | .wake i => inferInstanceAs (Decidable (∀ wake ∈ sleepsUntil (fleet.phase i), wake ≤ now))
  | .cleanup threshold => inferInstanceAs (Decidable (120 ≤ threshold))
  | .pass _ _ | .save _ | .beat _ | .doze _ | .stop _ | .crash _ | .expire =>
    inferInstanceAs (Decidable True)

/-- Moreover time does not go back, and no process is late. -/
structure Allows (δ ε : ℕ) (fleet : CronFleet) (now : Time) (event : Event) : Prop where
  clock : fleet.clock ≤ now
  pace : ∀ i, InPace δ ε now (fleet.phase i)
  permits : fleet.Permits now event

def AllowsAll (δ ε : ℕ) (self : CronFleet) : List (Time × Event) → Prop
  | [] => True
  | (now, event) :: events =>
    self.Allows δ ε now event ∧ (self.handle getNext now event).AllowsAll δ ε events

/-! ### What every process at work has in the store -/

/-- The phases in which the jobs may differ from the saved ones. -/
def unsaved : CronPhase → Bool
  | .passed _ unsaved => unsaved
  | .ending _ => true
  | _ => false

/-- A turn has not begun later than the clock shows. -/
def Begun (clock : Time) : CronPhase → Prop
  | .awake since | .passed since _ | .ending since | .beaten since => since ≤ clock
  | _ => True

/-- How old a score may be in a phase, and when the hash may expire. -/
def Fresh (δ ε : ℕ) (score expiry : Time) : CronPhase → Prop
  | .idle => True
  | .awake since | .passed since _ | .ending since =>
    since ≤ score + (60 + δ + ε : ℤ) ∧ since + (δ : ℤ) ≤ expiry
  | .beaten since => since ≤ score ∧ score + 120 ≤ expiry
  | .asleep wake => wake ≤ score + (60 + δ : ℤ) ∧ score + 120 ≤ expiry

/-- A process has a score and a hash with its data, and the jobs of the hash are those that it has
saved last. -/
structure Listed (δ ε : ℕ) (fleet : CronFleet) (i : ℕ) (score expiry : Time)
    (jobs : List CronJob) : Prop where
  entry : CronScheduler.entryOf (fleet.schedulers i).name fleet.store =
    ⟨some (score : ℤ), { (fleet.schedulers i).toDict with cronJobs := some jobs }, some expiry⟩
  saved : unsaved (fleet.phase i) = false → jobs = (fleet.schedulers i).cronJobs
  begun : Begun fleet.clock (fleet.phase i)
  fresh : Fresh δ ε score expiry (fleet.phase i)

/-- No two processes at work have one name. -/
def Exclusive (fleet : CronFleet) : Prop :=
  ∀ i j, fleet.phase i ≠ .idle → fleet.phase j ≠ .idle →
    (fleet.schedulers i).name = (fleet.schedulers j).name → i = j

structure Inv (δ ε : ℕ) (fleet : CronFleet) : Prop where
  exclusive : fleet.Exclusive
  listed : ∀ i, fleet.phase i ≠ .idle →
    ∃ score expiry jobs, Listed δ ε fleet i score expiry jobs
  persistent : fleet.store.exp .registry = none

lemma Begun.mono {clock clock' : Time} (h : clock ≤ clock') {phase : CronPhase}
    (hbegun : Begun clock phase) : Begun clock' phase := by
  cases phase with
  | idle => trivial
  | asleep => trivial
  | awake since => exact hbegun.trans h
  | passed since => exact hbegun.trans h
  | ending since => exact hbegun.trans h
  | beaten since => exact hbegun.trans h

/-- A process in pace has been heard of in the last two minutes, and its hash is there. -/
lemma Fresh.of_inPace {δ ε : ℕ} (hpace : 2 * δ + ε < 60) {score expiry now : Time}
    {phase : CronPhase} (hne : phase ≠ .idle) (hfresh : Fresh δ ε score expiry phase)
    (hnow : InPace δ ε now phase) : now < score + 120 ∧ now ≤ expiry := by
  cases phase with
  | idle => exact absurd rfl hne
  | awake since => simp only [Fresh, InPace] at hfresh hnow; lia
  | passed since => simp only [Fresh, InPace] at hfresh hnow; lia
  | ending since => simp only [Fresh, InPace] at hfresh hnow; lia
  | beaten since => simp only [Fresh, InPace] at hfresh hnow; lia
  | asleep wake => simp only [Fresh, InPace] at hfresh hnow; lia

/-- What leaves a process alone leaves it listed. -/
lemma Listed.of_eq {δ ε : ℕ} {self fleet : CronFleet} {i : ℕ} {score expiry : Time}
    {jobs : List CronJob} (h : Listed δ ε self i score expiry jobs)
    (hphase : fleet.phase i = self.phase i) (hscheduler : fleet.schedulers i = self.schedulers i)
    (hentry : CronScheduler.entryOf (self.schedulers i).name fleet.store =
      CronScheduler.entryOf (self.schedulers i).name self.store)
    (hclock : self.clock ≤ fleet.clock) : Listed δ ε fleet i score expiry jobs where
  entry := by rw [hscheduler, hentry, h.entry]
  saved hsaved := by
    rw [hscheduler]
    exact h.saved (hphase ▸ hsaved)
  begun := by
    rw [hphase]
    exact h.begun.mono hclock
  fresh := by
    rw [hphase]
    exact h.fresh

/-- What one process does: the others keep what they have, and it is at work with a name of its own
only if it is listed. -/
lemma Inv.of_own {δ ε : ℕ} {self fleet : CronFleet} (h : self.Inv δ ε) (i : ℕ)
    (hclock : self.clock ≤ fleet.clock)
    (hphase : ∀ j, j ≠ i → fleet.phase j = self.phase j)
    (hschedulers : ∀ j, j ≠ i → fleet.schedulers j = self.schedulers j)
    (hentry : ∀ j, j ≠ i → self.phase j ≠ .idle →
      CronScheduler.entryOf (self.schedulers j).name fleet.store =
        CronScheduler.entryOf (self.schedulers j).name self.store)
    (hpersistent : fleet.store.exp .registry = none)
    (hown : fleet.phase i ≠ .idle →
      (∀ j, j ≠ i → self.phase j ≠ .idle →
        (self.schedulers j).name ≠ (fleet.schedulers i).name) ∧
      ∃ score expiry jobs, Listed δ ε fleet i score expiry jobs) : fleet.Inv δ ε where
  exclusive a b ha hb hname := by
    by_cases hai : a = i
    · by_cases hbi : b = i
      · rw [hai, hbi]
      · subst hai
        rw [hschedulers b hbi] at hname
        exact absurd hname.symm ((hown ha).1 b hbi (hphase b hbi ▸ hb))
    · by_cases hbi : b = i
      · subst hbi
        rw [hschedulers a hai] at hname
        exact absurd hname ((hown hb).1 a hai (hphase a hai ▸ ha))
      · rw [hschedulers a hai, hschedulers b hbi] at hname
        exact h.exclusive a b (hphase a hai ▸ ha) (hphase b hbi ▸ hb) hname
  listed a ha := by
    by_cases hai : a = i
    · subst hai
      exact (hown ha).2
    · have ha' : self.phase a ≠ .idle := hphase a hai ▸ ha
      obtain ⟨score, expiry, jobs, hlisted⟩ := h.listed a ha'
      exact ⟨score, expiry, jobs,
        hlisted.of_eq (hphase a hai) (hschedulers a hai) (hentry a hai ha') hclock⟩
  persistent := hpersistent

/-- What does not come from a process: each of them keeps what it has. -/
lemma Inv.of_all {δ ε : ℕ} {self fleet : CronFleet} (h : self.Inv δ ε)
    (hclock : self.clock ≤ fleet.clock) (hphase : fleet.phase = self.phase)
    (hschedulers : fleet.schedulers = self.schedulers)
    (hentry : ∀ i, self.phase i ≠ .idle →
      CronScheduler.entryOf (self.schedulers i).name fleet.store =
        CronScheduler.entryOf (self.schedulers i).name self.store)
    (hpersistent : fleet.store.exp .registry = none) : fleet.Inv δ ε where
  exclusive := by
    intro i j
    rw [hphase, hschedulers]
    exact h.exclusive i j
  listed i hi := by
    rw [hphase] at hi
    obtain ⟨score, expiry, jobs, hlisted⟩ := h.listed i hi
    exact ⟨score, expiry, jobs,
      hlisted.of_eq (by rw [hphase]) (by rw [hschedulers]) (hentry i hi) hclock⟩
  persistent := hpersistent

/-! ### One event -/

section Step
variable {δ ε : ℕ} {self : CronFleet} {now : Time}

/-- The names of the other processes at work. -/
lemma Inv.name_ne (h : self.Inv δ ε) {i : ℕ} (hi : self.phase i ≠ .idle) {j : ℕ} (hji : j ≠ i)
    (hj : self.phase j ≠ .idle) : (self.schedulers j).name ≠ (self.schedulers i).name :=
  fun hname => hji (h.exclusive j i hj hi hname)

lemma Inv.mem_registry (h : self.Inv δ ε) {i : ℕ} (hi : self.phase i ≠ .idle) :
    (self.schedulers i).name ∈ self.store.val .registry := by
  obtain ⟨score, expiry, jobs, hlisted⟩ := h.listed i hi
  rw [CronScheduler.mem_registry_iff, hlisted.entry]
  rfl

/-- A process that changes nothing but its phase. -/
lemma Inv.enter (h : self.Inv δ ε) (hclock : self.clock ≤ now) {i : ℕ} {phase : CronPhase}
    (hi : self.phase i ≠ .idle) (hsaved : unsaved (self.phase i) = false)
    (hbegun : Begun now phase)
    (hfresh : ∀ score expiry, Fresh δ ε score expiry (self.phase i) →
      Fresh δ ε score expiry phase) :
    Inv δ ε { self.enter i phase with clock := now } := by
  obtain ⟨score, expiry, jobs, hlisted⟩ := h.listed i hi
  apply h.of_own i hclock
  · intro j hji
    simp [CronFleet.enter, hji]
  · intro j _
    rfl
  · intro j _ _
    rfl
  · exact h.persistent
  · intro _
    refine ⟨fun j hji hj => h.name_ne hi hji hj, score, expiry, jobs, hlisted.entry,
      fun _ => hlisted.saved hsaved, ?_, ?_⟩
    · simpa [CronFleet.enter] using hbegun
    · simpa [CronFleet.enter] using hfresh score expiry hlisted.fresh

lemma Inv.birth (h : self.Inv δ ε) (hclock : self.clock ≤ now) {i : ℕ}
    (hfree : (self.schedulers i).name ∉ self.store.val .registry) (hpace : 2 * δ + ε < 60) :
    Inv δ ε { (self.perform ((self.schedulers i).registerBirth now)).enter i (.awake now) with
      clock := now } := by
  have hnames : ∀ j, j ≠ i → self.phase j ≠ .idle →
      (self.schedulers j).name ≠ (self.schedulers i).name :=
    fun j _ hj hname => hfree (hname ▸ h.mem_registry hj)
  apply h.of_own i hclock
  · intro j hji
    simp [CronFleet.enter, perform, hji]
  · intro j _
    rfl
  · intro j hji hj
    exact CronScheduler.entry_birth_of_ne _ now (hnames j hji hj)
  · exact CronScheduler.persistent_birth _ now h.persistent
  · intro _
    refine ⟨hnames, now, now + 60, (self.schedulers i).cronJobs, ?_, fun _ => rfl, ?_, ?_⟩
    · exact CronScheduler.entry_birth _ now hfree
    · simp [CronFleet.enter, Begun]
    · simp only [CronFleet.enter, Function.update_self, Fresh]
      lia

/-- A pass that enqueues nothing leaves the jobs as they are. -/
lemma enqueueFrom_of_isEmpty {getNext : GetNext} {pass : CronScheduler.Pass} {k : ℕ}
    {jobs : List CronJob} (h : (CronScheduler.enqueueFrom getNext pass k jobs).2 = []) :
    (CronScheduler.enqueueFrom getNext pass k jobs).1 = jobs := by
  induction jobs generalizing k with
  | nil => rfl
  | cons job jobs ih =>
    unfold CronScheduler.enqueueFrom at h ⊢
    split at h
    · next hrun =>
      split at h
      · next hraised => simp [hrun, hraised]
      · simp at h
    · next hrun => simpa [hrun] using ih h

lemma Inv.pass {getNext : GetNext} (h : self.Inv δ ε) (hclock : self.clock ≤ now) {i : ℕ}
    {since : Time} (hi : self.phase i = .awake since) (pass : CronScheduler.Pass) :
    Inv δ ε (self.handle getNext now (.pass i pass)) := by
  have hwork : self.phase i ≠ .idle := by simp [hi]
  obtain ⟨score, expiry, jobs, hlisted⟩ := h.listed i hwork
  have hbegun := hlisted.begun.mono hclock
  have hfresh := hlisted.fresh
  have hsaved := hlisted.saved (by rw [hi]; rfl)
  have hentry := hlisted.entry
  simp only [hi] at hbegun hfresh
  simp only [handle, handleAt, hi]
  apply h.of_own i hclock
  · intro j hji
    simp [CronFleet.enter, setJobs, hji]
  · intro j hji
    simp [CronFleet.enter, setJobs, hji]
  · intro j _ _
    rfl
  · exact h.persistent
  · intro _
    constructor
    · intro j hji hj
      simpa [CronFleet.enter, setJobs] using h.name_ne hwork hji hj
    · refine ⟨score, expiry, jobs, ?_, ?_, ?_, ?_⟩
      · simp only [CronFleet.enter, setJobs, Function.update_self]
        exact hentry
      · simp only [CronFleet.enter, setJobs, Function.update_self]
        split
        · simp [unsaved]
        · intro hempty
          rw [hsaved]
          refine (enqueueFrom_of_isEmpty ?_).symm
          simpa [unsaved, CronScheduler.enqueueJobs] using hempty
      · simp only [CronFleet.enter, Function.update_self]
        split
        · exact hbegun
        · exact hbegun
      · simp only [CronFleet.enter, Function.update_self]
        split
        · exact hfresh
        · exact hfresh

lemma Inv.save {getNext : GetNext} (h : self.Inv δ ε) (hclock : self.clock ≤ now) {i : ℕ}
    {since : Time} (hi : self.phase i = .passed since true) :
    Inv δ ε (self.handle getNext now (.save i)) := by
  have hwork : self.phase i ≠ .idle := by simp [hi]
  obtain ⟨score, expiry, jobs, hlisted⟩ := h.listed i hwork
  have hbegun := hlisted.begun.mono hclock
  have hfresh := hlisted.fresh
  have hentry := hlisted.entry
  simp only [hi] at hbegun hfresh
  simp only [handle, handleAt, hi]
  apply h.of_own i hclock
  · intro j hji
    simp [CronFleet.enter, perform, hji]
  · intro j _
    rfl
  · intro j hji hj
    exact CronScheduler.entry_saveJobsData_of_ne _ (h.name_ne hwork hji hj)
  · exact CronScheduler.persistent_saveJobsData _ h.persistent
  · intro _
    refine ⟨fun j hji hj => h.name_ne hwork hji hj, score, expiry,
      (self.schedulers i).cronJobs, ?_, fun _ => rfl, ?_, ?_⟩
    · exact CronScheduler.entry_saveJobsData _ hentry
    · simp only [CronFleet.enter, Function.update_self]
      exact hbegun
    · simp only [CronFleet.enter, Function.update_self]
      exact hfresh

lemma Inv.beat {getNext : GetNext} (h : self.Inv δ ε) (hclock : self.clock ≤ now) {i : ℕ}
    {since : Time} (hi : self.phase i = .passed since false) :
    Inv δ ε (self.handle getNext now (.beat i)) := by
  have hwork : self.phase i ≠ .idle := by simp [hi]
  obtain ⟨score, expiry, jobs, hlisted⟩ := h.listed i hwork
  have hbegun := hlisted.begun.mono hclock
  have hsaved := hlisted.saved (by rw [hi]; rfl)
  simp only [hi] at hbegun
  simp only [handle, handleAt, hi]
  apply h.of_own i hclock
  · intro j hji
    simp [CronFleet.enter, perform, hji]
  · intro j _
    rfl
  · intro j hji hj
    exact CronScheduler.entry_heartbeat_of_ne _ now (h.name_ne hwork hji hj)
  · exact CronScheduler.persistent_heartbeat _ now h.persistent
  · intro _
    have hhash : (CronScheduler.entryOf (self.schedulers i).name self.store).hash =
        { (self.schedulers i).toDict with cronJobs := some jobs } := by rw [hlisted.entry]
    have hne : (CronScheduler.entryOf (self.schedulers i).name self.store).hash ≠ default := by
      rw [hhash]
      exact CronScheduler.toDict_ne_default _ jobs
    refine ⟨fun j hji hj => h.name_ne hwork hji hj, now, now + 120, jobs, ?_, fun _ => hsaved,
      ?_, ?_⟩
    · refine (CronScheduler.entry_heartbeat _ now (h.mem_registry hwork) hne).trans ?_
      rw [hhash]
      rfl
    · simp only [CronFleet.enter, Function.update_self]
      exact hbegun
    · simp only [CronFleet.enter, Function.update_self, Fresh]
      exact ⟨hbegun, le_refl _⟩

/-- A sleep of a minute at most, begun within `δ` of the turn, whose heartbeat came in the turn. -/
lemma Inv.doze {getNext : GetNext} (h : self.Inv δ ε) (hclock : self.clock ≤ now) {i : ℕ}
    {since : Time} (hi : self.phase i = .beaten since) (hnow : InPace δ ε now (self.phase i)) :
    Inv δ ε (self.handle getNext now (.doze i)) := by
  simp only [handle, handleAt, hi]
  have hsleep := CronScheduler.calculateSleepInterval_le (self.schedulers i).cronJobs now
  rw [hi] at hnow
  refine h.enter hclock (by simp [hi]) (by rw [hi]; rfl) trivial fun score expiry hfresh => ?_
  rw [hi] at hfresh
  simp only [Fresh, InPace] at hfresh hnow ⊢
  lia

/-- The next turn has another `δ` before its own heartbeat: `60 + 2 * δ + ε` in all. -/
lemma Inv.wake {getNext : GetNext} (h : self.Inv δ ε) (hpace : 2 * δ + ε < 60)
    (hclock : self.clock ≤ now) {i : ℕ} {wake : Time} (hi : self.phase i = .asleep wake)
    (hnow : InPace δ ε now (self.phase i)) :
    Inv δ ε (self.handle getNext now (.wake i)) := by
  simp only [handle, handleAt, hi]
  rw [hi] at hnow
  refine h.enter hclock (by simp [hi]) (by rw [hi]; rfl) (le_refl now)
    fun score expiry hfresh => ?_
  rw [hi] at hfresh
  simp only [Fresh, InPace] at hfresh hnow ⊢
  lia

lemma Inv.stop (h : self.Inv δ ε) (hclock : self.clock ≤ now) {i : ℕ}
    (hi : self.phase i ≠ .idle) :
    Inv δ ε { (self.perform (self.schedulers i).registerDeath).enter i .idle with
      clock := now } := by
  apply h.of_own i hclock
  · intro j hji
    simp [CronFleet.enter, perform, hji]
  · intro j _
    rfl
  · intro j hji hj
    exact CronScheduler.entry_registerDeath_of_ne _ (h.name_ne hi hji hj)
  · exact CronScheduler.persistent_registerDeath _ h.persistent
  · intro hwork
    simp [CronFleet.enter] at hwork

lemma Inv.crash (h : self.Inv δ ε) (hclock : self.clock ≤ now) (i : ℕ) :
    Inv δ ε { self.enter i .idle with clock := now } := by
  apply h.of_own i hclock
  · intro j hji
    simp [CronFleet.enter, hji]
  · intro j _
    rfl
  · intro j _ _
    rfl
  · exact h.persistent
  · intro hwork
    simp [CronFleet.enter] at hwork

/-- Time passes. -/
lemma Inv.tick (h : self.Inv δ ε) (hclock : self.clock ≤ now) :
    Inv δ ε { self with clock := now } :=
  h.of_all hclock rfl rfl (fun _ _ => rfl) h.persistent

lemma Inv.cleanup (h : self.Inv δ ε) (hpace : 2 * δ + ε < 60) (hclock : self.clock ≤ now)
    (hinPace : ∀ i, InPace δ ε now (self.phase i)) {threshold : ℤ} (hthreshold : 120 ≤ threshold) :
    Inv δ ε { self.perform (CronScheduler.cleanup threshold now) with clock := now } := by
  refine h.of_all hclock rfl rfl ?_ ?_
  · intro i hi
    obtain ⟨score, expiry, jobs, hlisted⟩ := h.listed i hi
    obtain ⟨hscore, -⟩ := hlisted.fresh.of_inPace hpace hi (hinPace i)
    exact CronScheduler.entry_cleanup (congrArg CronEntry.score hlisted.entry) (by lia)
  · exact CronScheduler.persistent_cleanup threshold now h.persistent

lemma Inv.expire (h : self.Inv δ ε) (hpace : 2 * δ + ε < 60) (hclock : self.clock ≤ now)
    (hinPace : ∀ i, InPace δ ε now (self.phase i)) :
    Inv δ ε { self with store := self.store.expireAt now, clock := now } := by
  refine h.of_all hclock rfl rfl ?_ ?_
  · intro i hi
    obtain ⟨score, expiry, jobs, hlisted⟩ := h.listed i hi
    obtain ⟨-, hexpiry⟩ := hlisted.fresh.of_inPace hpace hi (hinPace i)
    have hentry := congrArg CronEntry.expiry hlisted.entry
    exact CronScheduler.entry_expireAt h.persistent hentry hexpiry
  · exact CronScheduler.persistent_expireAt now h.persistent

lemma Inv.handle {getNext : GetNext} (h : self.Inv δ ε) (hpace : 2 * δ + ε < 60) {event : Event}
    (hallows : self.Allows δ ε now event) : Inv δ ε (self.handle getNext now event) := by
  have hclock := hallows.clock
  cases event with
  | birth i =>
    cases hi : self.phase i with
    | idle =>
      simp only [CronFleet.handle, handleAt, hi]
      exact h.birth hclock (hallows.permits hi) hpace
    | _ =>
      simp only [CronFleet.handle, handleAt, hi]
      exact h.tick hclock
  | pass i pass =>
    cases hi : self.phase i with
    | awake since => exact h.pass hclock hi pass
    | _ =>
      simp only [CronFleet.handle, handleAt, hi]
      exact h.tick hclock
  | save i =>
    cases hi : self.phase i with
    | passed since unsaved =>
      cases unsaved with
      | true => exact h.save hclock hi
      | false =>
        simp only [CronFleet.handle, handleAt, hi]
        exact h.tick hclock
    | _ =>
      simp only [CronFleet.handle, handleAt, hi]
      exact h.tick hclock
  | beat i =>
    cases hi : self.phase i with
    | passed since unsaved =>
      cases unsaved with
      | true =>
        simp only [CronFleet.handle, handleAt, hi]
        exact h.tick hclock
      | false => exact h.beat hclock hi
    | _ =>
      simp only [CronFleet.handle, handleAt, hi]
      exact h.tick hclock
  | doze i =>
    cases hi : self.phase i with
    | beaten since => exact h.doze hclock hi (hallows.pace i)
    | _ =>
      simp only [CronFleet.handle, handleAt, hi]
      exact h.tick hclock
  | wake i =>
    cases hi : self.phase i with
    | asleep wake => exact h.wake hpace hclock hi (hallows.pace i)
    | _ =>
      simp only [CronFleet.handle, handleAt, hi]
      exact h.tick hclock
  | stop i =>
    cases hi : self.phase i with
    | idle =>
      simp only [CronFleet.handle, handleAt, hi]
      exact h.tick hclock
    | _ =>
      simp only [CronFleet.handle, handleAt, hi]
      exact h.stop hclock (by simp [hi])
  | crash i => exact h.crash hclock i
  | cleanup threshold => exact h.cleanup hpace hclock hallows.pace hallows.permits
  | expire => exact h.expire hpace hclock hallows.pace

end Step

/-! ### Whole runs -/

lemma Inv.run {getNext : GetNext} {δ ε : ℕ} (hpace : 2 * δ + ε < 60) {self : CronFleet}
    (h : self.Inv δ ε) {events : List (Time × Event)}
    (hallows : self.AllowsAll getNext δ ε events) : (self.run getNext events).Inv δ ε := by
  induction events generalizing self with
  | nil => exact h
  | cons event events ih => exact ih (h.handle hpace hallows.1) hallows.2

/-- Nobody is at work, and the registry does not expire. -/
structure Initial (fleet : CronFleet) : Prop where
  idle : ∀ i, fleet.phase i = .idle
  persistent : fleet.store.exp .registry = none

lemma Initial.inv {δ ε : ℕ} {self : CronFleet} (h : self.Initial) : self.Inv δ ε where
  exclusive i _ hi := absurd (h.idle i) hi
  listed i hi := absurd (h.idle i) hi
  persistent := h.persistent

/-- **Schedulers in pace stay listed.** However the steps of the processes, the clean-ups and the
expiry of keys follow each other, each process at work has a name that no other process at work has,
the name is registered, and its hash holds its data, with the jobs as they are but for a pass that
has not yet been saved. -/
theorem stays_listed {getNext : GetNext} {δ ε : ℕ} (hpace : 2 * δ + ε < 60) {self : CronFleet}
    (h : self.Initial) {events : List (Time × Event)}
    (hallows : self.AllowsAll getNext δ ε events) :
    (self.run getNext events).Exclusive ∧
    ∀ i, (self.run getNext events).phase i ≠ .idle →
      let scheduler := (self.run getNext events).schedulers i
      let store := (self.run getNext events).store
      scheduler.name ∈ store.val .registry ∧
      ∃ jobs, store.val (.scheduler scheduler.name) =
          { scheduler.toDict with cronJobs := some jobs } ∧
        (unsaved ((self.run getNext events).phase i) = false → jobs = scheduler.cronJobs) := by
  have hinv := h.inv.run hpace hallows
  refine ⟨hinv.exclusive, fun i hi => ?_⟩
  obtain ⟨score, expiry, jobs, hlisted⟩ := hinv.listed i hi
  exact ⟨hinv.mem_registry hi, jobs, congrArg CronEntry.hash hlisted.entry, hlisted.saved⟩

/-! ### Two schedulers -/

/-- The process that an event is a step of. -/
def Event.actor : Event → Option ℕ
  | .birth i | .pass i _ | .save i | .beat i | .doze i | .wake i | .stop i | .crash i => some i
  | .cleanup _ | .expire => none

lemma phase_handle {getNext : GetNext} (self : CronFleet) (now : Time) {event : Event} {i : ℕ}
    (h : event.actor ≠ some i) : (self.handle getNext now event).phase i = self.phase i := by
  cases event with
  | cleanup => rfl
  | expire => rfl
  | crash j =>
    have hne : i ≠ j := by simpa [Event.actor, eq_comm] using h
    simp [CronFleet.handle, handleAt, CronFleet.enter, hne]
  | stop j =>
    have hne : i ≠ j := by simpa [Event.actor, eq_comm] using h
    simp only [CronFleet.handle, handleAt]
    split
    · rfl
    · simp [CronFleet.enter, perform, hne]
  | _ j =>
    have hne : i ≠ j := by simpa [Event.actor, eq_comm] using h
    simp only [CronFleet.handle, handleAt]
    split
    · simp [CronFleet.enter, perform, setJobs, hne]
    · rfl

/-- Two processes, one of them with a job for every minute. -/
def pair : CronFleet where
  schedulers i := if i = 1 then { name := "minutely", cronJobs := [CronScheduler.minutely] }
    else { name := "cron" }
  store := CronStore.empty
  clock := 0

/-- Both are born, the second one enqueues its job, and after their sleeps once more. -/
def pairEvents : List (Time × Event) :=
  [(60, .birth 0), (60, .birth 1), (60, .cleanup 120),
    (60, .pass 0 (CronScheduler.Turn.instant 60).pass),
    (60, .pass 1 (CronScheduler.Turn.instant 60).pass), (60, .beat 0), (61, .save 1),
    (61, .beat 1), (61, .doze 0), (61, .doze 1), (120, .wake 1),
    (120, .pass 1 (CronScheduler.Turn.instant 120).pass), (121, .wake 0), (121, .expire),
    (121, .cleanup 120)]

/-- One event, of one of the two processes or of none, while there are no others. -/
lemma pair_step {fleet : CronFleet} {now : Time} {event : Event} {events : List (Time × Event)}
    (hothers : ∀ i, 2 ≤ i → fleet.phase i = .idle) (hactor : ∀ i ∈ event.actor, i < 2)
    (hclock : fleet.clock ≤ now) (hfirst : InPace 1 1 now (fleet.phase 0))
    (hsecond : InPace 1 1 now (fleet.phase 1)) (hpermits : fleet.Permits now event)
    (hrest : (∀ i, 2 ≤ i → (fleet.handle CronScheduler.everyMinute now event).phase i = .idle) →
      (fleet.handle CronScheduler.everyMinute now event).AllowsAll CronScheduler.everyMinute 1 1
        events) :
    fleet.AllowsAll CronScheduler.everyMinute 1 1 ((now, event) :: events) := by
  refine ⟨⟨hclock, fun i => ?_, hpermits⟩, hrest fun i hi => ?_⟩
  · match i with
    | 0 => exact hfirst
    | 1 => exact hsecond
    | i + 2 =>
      rw [hothers (i + 2) (by omega)]
      trivial
  · rw [phase_handle, hothers i hi]
    intro hactor'
    exact absurd (hactor i hactor') (by omega)

lemma pair_allowsAll : pair.AllowsAll CronScheduler.everyMinute 1 1 pairEvents := by
  refine pair_step (fun _ _ => rfl) (by decide) (by decide) (by decide) (by decide) (by decide)
    fun h => ?_
  refine pair_step h (by decide) (by decide) (by decide) (by decide) (by decide) fun h => ?_
  refine pair_step h (by decide) (by decide) (by decide) (by decide) (by decide) fun h => ?_
  refine pair_step h (by decide) (by decide) (by decide) (by decide) trivial fun h => ?_
  refine pair_step h (by decide) (by decide) (by decide) (by decide) trivial fun h => ?_
  refine pair_step h (by decide) (by decide) (by decide) (by decide) trivial fun h => ?_
  refine pair_step h (by decide) (by decide) (by decide) (by decide) trivial fun h => ?_
  refine pair_step h (by decide) (by decide) (by decide) (by decide) trivial fun h => ?_
  refine pair_step h (by decide) (by decide) (by decide) (by decide) trivial fun h => ?_
  refine pair_step h (by decide) (by decide) (by decide) (by decide) trivial fun h => ?_
  refine pair_step h (by decide) (by decide) (by decide) (by decide) (by decide) fun h => ?_
  refine pair_step h (by decide) (by decide) (by decide) (by decide) trivial fun h => ?_
  refine pair_step h (by decide) (by decide) (by decide) (by decide) (by decide) fun h => ?_
  refine pair_step h (by decide) (by decide) (by decide) (by decide) trivial fun h => ?_
  exact pair_step h (by decide) (by decide) (by decide) (by decide) (by decide) fun _ => trivial

theorem stays_listed_pair :
    let fleet := pair.run CronScheduler.everyMinute pairEvents
    (fleet.phase 0 = .awake 121 ∧ fleet.phase 1 = .passed 120 true) ∧
    fleet.Exclusive ∧ ∀ i, fleet.phase i ≠ .idle →
      (fleet.schedulers i).name ∈ fleet.store.val .registry ∧
      ∃ jobs, fleet.store.val (.scheduler (fleet.schedulers i).name) =
          { (fleet.schedulers i).toDict with cronJobs := some jobs } ∧
        (unsaved (fleet.phase i) = false → jobs = (fleet.schedulers i).cronJobs) := by
  have hinitial : pair.Initial := ⟨fun _ => rfl, rfl⟩
  exact ⟨by decide, stays_listed (by decide : 2 * 1 + 1 < 60) hinitial pair_allowsAll⟩

end CronFleet
end RedisQueue
