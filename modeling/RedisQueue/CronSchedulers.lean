import RedisQueue.Cron

/-!
# The registry of the cron schedulers

`CronScheduler` objects register under a name (`rq/cron.py`, `rq/cron_scheduler_registry.py`). Each
operation is a single command or a single transaction.

* `CronScheduler.register`: over a connection a name that is taken is refused, in a pipeline it is
  not;
* `CronScheduler.birthRefused_iff`: when `register_birth` keeps the promise of `register`;
* `SchedulerCluster.exclusive`: the runs in which no two schedulers of one name are at work.
-/

namespace RedisQueue

/-! ## The keys -/

inductive CronKey where
  /-- `rq:cron_schedulers` -/
  | registry
  /-- `rq:cron_scheduler:<name>` -/
  | scheduler (name : String)
deriving DecidableEq, Repr

/-- The hash `rq:cron_scheduler:<name>`. -/
structure CronSchedulerHash where
  hostname : Option String := none
  pid : Option ℕ := none
  name : Option String := none
  createdAt : Option Time := none
  configFile : Option String := none
  cronJobs : Option (List CronJob) := none
deriving DecidableEq, Inhabited, Repr

abbrev CronValue : CronKey → Type
  | .registry => ZSet String
  | .scheduler _ => CronSchedulerHash

instance CronValue.decidableEq : (k : CronKey) → DecidableEq (CronValue k)
  | .registry => inferInstanceAs (DecidableEq (ZSet String))
  | .scheduler _ => inferInstanceAs (DecidableEq CronSchedulerHash)

instance CronValue.inhabited : (k : CronKey) → Inhabited (CronValue k)
  | .registry => inferInstanceAs (Inhabited (ZSet String))
  | .scheduler _ => inferInstanceAs (Inhabited CronSchedulerHash)

abbrev CronStore := KeyStore CronKey CronValue

def CronStore.empty : CronStore where
  val _ := default
  ver _ := 0
  exp _ := none

inductive CronError where
  | duplicateSchedulerError (msg : String)
  | schedulerNotFound (msg : String)
  | redisError (msg : String)
  | responseError (msg : String)
deriving DecidableEq, Repr

instance : StoreErrors CronError := ⟨.redisError, .responseError⟩

/-- A `CronScheduler` object. -/
structure CronScheduler where
  name : String
  hostname : String := ""
  pid : ℕ := 0
  createdAt : Time := 0
  configFile : String := ""
  cronJobs : List CronJob := []
deriving DecidableEq, Repr

/-! ## The operations -/

namespace CronScheduler

/-- `CronScheduler.to_dict` -/
def toDict (self : CronScheduler) : CronSchedulerHash where
  hostname := some self.hostname
  pid := some self.pid
  name := some self.name
  createdAt := some self.createdAt
  configFile := some self.configFile
  cronJobs := some self.cronJobs

/-- `ZADD NX`: a member keeps the score it has. -/
def zaddNx (name : String) (score : Time) : Command CronKey CronValue :=
  .alter .registry fun z => if name ∈ z then z else z.add name (score : ℤ)

/-- `ZADD XX CH`: only a member gets the score. -/
def zaddXx (name : String) (score : Time) : Command CronKey CronValue :=
  .alter .registry fun z => if name ∈ z then z.add name (score : ℤ) else z

/-- `cron_scheduler_registry.register`. What a pipeline returns for a command is itself, which is not
the number zero. -/
def register (self : CronScheduler) (pipeline : Option (Pipeline CronKey CronValue)) (now : Time) :
    Prog CronStore CronError (Option (Pipeline CronKey CronValue)) :=
  match pipeline with
  | none => .step (zaddNx self.name now).run fun s =>
    let addedCount := if self.name ∈ s.val .registry then 0 else 1
    if addedCount = 0 then
      .throw (.duplicateSchedulerError s!"CronScheduler '{self.name}' is already registered")
    else .ret none
  | some pipe => do
    let pipe ← pipe.command (zaddNx self.name now)
    return some pipe

/-- `cron_scheduler_registry.unregister` without a pipeline -/
def unregister (self : CronScheduler) : Prog CronStore CronError Unit :=
  .step (Command.alter .registry fun z => z.remove self.name).run fun s =>
    if self.name ∈ s.val .registry then .ret ()
    else .throw (.schedulerNotFound s!"CronScheduler '{self.name}' not found in registry")

/-- `cron_scheduler_registry.cleanup` -/
def cleanup (threshold : ℤ) (now : Time) : Prog CronStore CronError Unit :=
  Prog.perform (Command.alter .registry fun z => z.removeRange (0 : ℤ) (now - threshold : ℤ)).run

/-- `CronScheduler.save` on a pipeline -/
def save (self : CronScheduler) (pipe : Pipeline CronKey CronValue) (now : Time) :
    Prog CronStore CronError (Pipeline CronKey CronValue) := do
  let pipe ← pipe.command (.write (.scheduler self.name) fun _ => self.toDict)
  pipe.command (.expire (.scheduler self.name) (now + 60))

/-- `CronScheduler.save_jobs_data` -/
def saveJobsData (self : CronScheduler) : Prog CronStore CronError Unit :=
  Prog.perform (Command.write (.scheduler self.name) fun h =>
    { h with cronJobs := some self.cronJobs }).run

/-- `CronScheduler.register_birth` -/
def registerBirth (self : CronScheduler) (now : Time) : Prog CronStore CronError Unit := do
  let pipeline ← self.register (some {}) now
  let pipe ← self.save (pipeline.getD {}) now
  let _ ← pipe.execute
  return ()

/-- `CronScheduler.register_death` -/
def registerDeath (self : CronScheduler) : Prog CronStore CronError Unit :=
  self.unregister

/-- `CronScheduler.heartbeat` -/
def heartbeat (self : CronScheduler) (now : Time) : Prog CronStore CronError Unit := do
  let pipe : Pipeline CronKey CronValue := {}
  let pipe ← pipe.command (zaddXx self.name now)
  let pipe ← pipe.command (.expire (.scheduler self.name) (now + 120))
  let _ ← pipe.execute
  return ()

/-! ### What they come to -/

def birthCommands (self : CronScheduler) (now : Time) : List (Command CronKey CronValue) :=
  [zaddNx self.name now, .write (.scheduler self.name) fun _ => self.toDict,
    .expire (.scheduler self.name) (now + 60)]

/-- `register_birth` never raises. -/
lemma run_registerBirth (self : CronScheduler) (now : Time) (s : CronStore) :
    (self.registerBirth now).run s = (.ok (), (Command.seq (self.birthCommands now)).run s) := by
  have hpipe := Pipeline.run_execute_of_unwatched (ε := CronError)
    (p := (({} : Pipeline CronKey CronValue).buffer (self.birthCommands now))) rfl s
  simp only [registerBirth, register, save, Pipeline.command_eq_buffer, Pipeline.immediate_empty,
    Pipeline.immediate_buffer, Pipeline.buffer_buffer, Prog.pure_eq, Prog.ret_bind,
    Option.getD_some]
  exact Prog.run_bind_ok hpipe

lemma run_heartbeat (self : CronScheduler) (now : Time) (s : CronStore) :
    (self.heartbeat now).run s = (.ok (), (Command.seq [zaddXx self.name now,
      .expire (.scheduler self.name) (now + 120)]).run s) := by
  have hpipe := Pipeline.run_execute_of_unwatched (ε := CronError)
    (p := (({} : Pipeline CronKey CronValue).buffer [zaddXx self.name now,
      .expire (.scheduler self.name) (now + 120)])) rfl s
  simp only [heartbeat, Pipeline.command_eq_buffer, Pipeline.immediate_empty,
    Pipeline.immediate_buffer, Pipeline.buffer_buffer, Prog.pure_eq, Prog.ret_bind]
  exact Prog.run_bind_ok hpipe

/-- A birth under a name that is registered is refused and changes neither the registry nor the hash
of that name. -/
def BirthRefused (self : CronScheduler) (now : Time) (s : CronStore) : Prop :=
  self.name ∈ s.val .registry →
    (∃ msg, ((self.registerBirth now).run s).1 = .error (.duplicateSchedulerError msg)) ∧
    KeyStore.AgreeAt .registry ((self.registerBirth now).run s).2 s ∧
    KeyStore.AgreeAt (.scheduler self.name) ((self.registerBirth now).run s).2 s

lemma birthRefused_iff (self : CronScheduler) (now : Time) (s : CronStore) :
    self.BirthRefused now s ↔ self.name ∉ s.val .registry := by
  constructor
  · intro hrefused hmem
    obtain ⟨⟨msg, herror⟩, -⟩ := hrefused hmem
    rw [run_registerBirth] at herror
    cases herror
  · intro hnotMem hmem
    exact absurd hmem hnotMem

end CronScheduler

/-! ## Schedulers at work -/

/-- `CronScheduler` objects, and those of them that are in the main loop of `start`. -/
structure CronCluster where
  schedulers : ℕ → CronScheduler
  started : ℕ → Bool := fun _ => false
  store : CronStore

/-- What the objects do and what happens to them. A scheduler that is not at work only starts. -/
inductive CronEvent where
  | birth (i : ℕ)
  | heartbeat (i : ℕ)
  /-- A pass of `enqueue_jobs` that has enqueued something, and `save_jobs_data`. -/
  | enqueue (i : ℕ) (cronJobs : List CronJob)
  | death (i : ℕ)
  /-- The process ends without `register_death`. -/
  | crash (i : ℕ)
  | cleanup (threshold : ℤ)
  /-- Keys expire. -/
  | wait

namespace CronCluster

def start (self : CronCluster) (i : ℕ) (started : Bool) : CronCluster :=
  { self with started := Function.update self.started i started }

/-- The store after a program has run. -/
def perform (self : CronCluster) (program : Prog CronStore CronError Unit) : CronCluster :=
  { self with store := (program.run self.store).2 }

def handle (self : CronCluster) (now : Time) : CronEvent → CronCluster
  | .birth i =>
    if self.started i then self
    else
      -- an exception of `register_birth` ends `start`
      let program := (self.schedulers i).registerBirth now
      (self.perform program).start i (program.run self.store).1.isOk
  | .heartbeat i =>
    if self.started i then self.perform ((self.schedulers i).heartbeat now) else self
  | .enqueue i cronJobs =>
    if self.started i then
      let scheduler := { self.schedulers i with cronJobs := cronJobs }
      ({ self with schedulers := Function.update self.schedulers i scheduler } : CronCluster).perform
        scheduler.saveJobsData
    else self
  | .death i =>
    if self.started i then (self.perform (self.schedulers i).registerDeath).start i false else self
  | .crash i => self.start i false
  | .cleanup threshold => self.perform (CronScheduler.cleanup threshold now)
  | .wait => { self with store := self.store.expireAt now }

def run (self : CronCluster) : List (Time × CronEvent) → CronCluster
  | [] => self
  | (now, event) :: events => (self.handle now event).run events

/-- No two schedulers of one name are at work. -/
def Exclusive (self : CronCluster) : Prop :=
  ∀ i j, self.started i = true → self.started j = true →
    (self.schedulers i).name = (self.schedulers j).name → i = j

/-- A scheduler is only born under a name that is free, and a clean-up takes away no entry of a
scheduler that is at work. -/
def Allows (self : CronCluster) (now : Time) : CronEvent → Prop
  | .birth i => self.started i = false → (self.schedulers i).name ∉ self.store.val .registry
  | .cleanup threshold => ∀ i, self.started i = true →
    (self.schedulers i).name ∈ (self.store.val .registry).removeRange (0 : ℤ) (now - threshold : ℤ)
  | _ => True

def AllowsAll (self : CronCluster) : List (Time × CronEvent) → Prop
  | [] => True
  | (now, event) :: events => self.Allows now event ∧ (self.handle now event).AllowsAll events

/-- Every scheduler at work is registered, under a name of its own. -/
structure Inv (cluster : CronCluster) : Prop where
  exclusive : cluster.Exclusive
  registered : ∀ i, cluster.started i = true →
    (cluster.schedulers i).name ∈ cluster.store.val .registry
  persistent : cluster.store.exp .registry = none

/-- What leaves the registry, the names and the schedulers at work alone. -/
lemma Inv.of_eq {self cluster : CronCluster} (h : self.Inv)
    (hstarted : ∀ i, cluster.started i = true → self.started i = true)
    (hnames : ∀ i, (cluster.schedulers i).name = (self.schedulers i).name)
    (hregistry : ∀ name ∈ self.store.val .registry, name ∈ cluster.store.val .registry)
    (hexp : cluster.store.exp .registry = none) : cluster.Inv where
  exclusive i j hi hj hname := by
    rw [hnames, hnames] at hname
    exact h.exclusive i j (hstarted i hi) (hstarted j hj) hname
  registered i hi := by
    rw [hnames]
    exact hregistry _ (h.registered i (hstarted i hi))
  persistent := hexp

/-! ### One event -/

/-- A birth adds a name to the registry. -/
lemma registry_birth (scheduler : CronScheduler) (now : Time) (s : CronStore) (name : String) :
    name ∈ ((Command.seq (scheduler.birthCommands now)).run s).val .registry ↔
      name ∈ s.val .registry ∨ name = scheduler.name := by
  simp only [CronScheduler.birthCommands, CronScheduler.zaddNx, Command.seq_cons_run,
    Command.seq_nil_run, Command.val_expire, Command.val_write, Command.val_alter]
  rw [Function.update_of_ne (by simp), Function.update_self]
  split
  · next hmem => exact ⟨.inl, fun h => h.elim id fun heq => heq ▸ hmem⟩
  · exact ZSet.mem_add

lemma persistent_alter {s : CronStore} (h : s.exp .registry = none) (f : ZSet String → ZSet String) :
    ((Command.alter .registry f : Command CronKey CronValue).run s).exp .registry = none :=
  Command.exp_alter_of_none _ h

lemma persistent_write {s : CronStore} (h : s.exp .registry = none) (name : String)
    (f : CronSchedulerHash → CronSchedulerHash) :
    ((Command.write (.scheduler name) f : Command CronKey CronValue).run s).exp .registry = none :=
  (Command.keepsExp_write (by simp) s).trans h

lemma persistent_expire {s : CronStore} (h : s.exp .registry = none) (name : String) (t : Time) :
    ((Command.expire (.scheduler name) t : Command CronKey CronValue).run s).exp .registry = none :=
  (Command.keepsExp_expire (by simp) s).trans h

lemma Inv.birth {self : CronCluster} (h : self.Inv) (now : Time) (i : ℕ)
    (hallows : self.Allows now (.birth i)) : (self.handle now (.birth i)).Inv := by
  simp only [CronCluster.handle]
  split
  · exact h
  · next hidle =>
    have hfree := hallows (by simpa using hidle)
    simp only [perform, CronCluster.start, CronScheduler.run_registerBirth]
    -- the name of the newcomer is none of those at work
    have hnew : ∀ j, self.started j = true → (self.schedulers j).name ≠ (self.schedulers i).name :=
      fun j hj heq => hfree (heq ▸ h.registered j hj)
    have hold : ∀ j, j ≠ i → Function.update self.started i true j = true → self.started j = true :=
      fun j hne hj => by rwa [Function.update_of_ne hne] at hj
    constructor
    · intro a b ha hb hname
      by_cases hai : a = i
      · by_cases hbi : b = i
        · rw [hai, hbi]
        · subst hai
          exact absurd hname.symm (hnew b (hold b hbi hb))
      · by_cases hbi : b = i
        · subst hbi
          exact absurd hname (hnew a (hold a hai ha))
        · exact h.exclusive a b (hold a hai ha) (hold b hbi hb) hname
    · intro a ha
      rw [registry_birth]
      by_cases hai : a = i
      · rw [hai]
        exact .inr rfl
      · exact .inl (h.registered a (hold a hai ha))
    · exact persistent_expire (persistent_write (persistent_alter h.persistent _) _ _) _ _

lemma Inv.death {self : CronCluster} (h : self.Inv) (now : Time) (i : ℕ) :
    (self.handle now (.death i)).Inv := by
  simp only [CronCluster.handle]
  split
  · next hstarted =>
    have hstore : ((self.schedulers i).registerDeath.run self.store).2 =
        (Command.alter .registry fun z => z.remove (self.schedulers i).name).run self.store := by
      simp only [CronScheduler.registerDeath, CronScheduler.unregister, Prog.run_step]
      split <;> rfl
    simp only [perform, CronCluster.start, hstore]
    have hold : ∀ j, Function.update self.started i false j = true →
        j ≠ i ∧ self.started j = true := by
      intro j hj
      by_cases hji : j = i
      · simp [hji] at hj
      · exact ⟨hji, by rwa [Function.update_of_ne hji] at hj⟩
    constructor
    · exact fun a b ha hb hname => h.exclusive a b (hold a ha).2 (hold b hb).2 hname
    · intro a ha
      obtain ⟨hne, ha⟩ := hold a ha
      -- who is still at work has another name
      have hname : (self.schedulers a).name ≠ (self.schedulers i).name :=
        fun heq => hne (h.exclusive a i ha hstarted heq)
      rw [Command.val_alter, Function.update_self]
      exact ZSet.mem_remove.mpr ⟨h.registered a ha, hname⟩
    · dsimp only
      exact persistent_alter h.persistent _
  · exact h

lemma Inv.handle {self : CronCluster} (h : self.Inv) {now : Time} {event : CronEvent}
    (hallows : self.Allows now event) : (self.handle now event).Inv := by
  cases event with
  | birth i => exact h.birth now i hallows
  | death i => exact h.death now i
  | heartbeat i =>
    simp only [CronCluster.handle]
    split
    · simp only [perform, CronScheduler.run_heartbeat]
      apply h.of_eq
      · exact fun _ hj => hj
      · exact fun _ => rfl
      · intro name hname
        simp only [CronScheduler.zaddXx, Command.seq_cons_run, Command.seq_nil_run,
          Command.val_expire, Command.val_alter, Function.update_self]
        split
        · exact ZSet.mem_add.mpr (.inl hname)
        · exact hname
      · exact persistent_expire (persistent_alter h.persistent _) _ _
    · exact h
  | enqueue i cronJobs =>
    simp only [CronCluster.handle]
    split
    · simp only [perform, CronScheduler.saveJobsData, Prog.run_perform]
      apply h.of_eq
      · exact fun _ hj => hj
      · intro j
        by_cases hji : j = i
        · subst hji
          simp
        · simp [hji]
      · intro name hname
        rwa [Command.val_write, Function.update_of_ne (by simp)]
      · dsimp only
        exact persistent_write h.persistent _ _
    · exact h
  | crash i =>
    apply h.of_eq
    · intro j hj
      by_cases hji : j = i
      · simp [CronCluster.handle, CronCluster.start, hji] at hj
      · simpa [CronCluster.handle, CronCluster.start, hji] using hj
    · exact fun _ => rfl
    · exact fun _ hname => hname
    · exact h.persistent
  | cleanup threshold =>
    simp only [CronCluster.handle, perform, CronScheduler.cleanup, Prog.run_perform]
    refine ⟨h.exclusive, fun i hi => ?_, ?_⟩
    · dsimp only
      rw [Command.val_alter, Function.update_self]
      exact hallows i hi
    · dsimp only
      exact persistent_alter h.persistent _
  | wait =>
    have hkept : ¬self.store.Expired now .registry := by
      rintro ⟨t, ht, -⟩
      rw [h.persistent] at ht
      cases ht
    apply h.of_eq
    · exact fun _ hj => hj
    · exact fun _ => rfl
    · intro name hname
      show name ∈ (if self.store.Expired now .registry then default else self.store.val .registry)
      rwa [if_neg hkept]
    · exact (if_neg hkept).trans h.persistent

lemma Inv.run {self : CronCluster} (h : self.Inv) {events : List (Time × CronEvent)}
    (hallows : self.AllowsAll events) : (self.run events).Inv := by
  induction events generalizing self with
  | nil => exact h
  | cons event events ih => exact ih (h.handle hallows.1) hallows.2

/-- Nobody is at work, and the registry does not expire. -/
structure Initial (cluster : CronCluster) : Prop where
  idle : ∀ i, cluster.started i = false
  persistent : cluster.store.exp .registry = none

/-- `register_birth` refuses a name that is registered just if there is none to refuse; and in the
runs in which a scheduler is only born under a free name, and no entry of a scheduler at work is
cleaned up, no two schedulers of one name are at work. -/
theorem exclusive_births {self : CronCluster} (h : self.Initial) :
    (∀ scheduler now s, CronScheduler.BirthRefused scheduler now s ↔
      scheduler.name ∉ s.val .registry) ∧
    ∀ events, self.AllowsAll events → (self.run events).Exclusive := by
  refine ⟨CronScheduler.birthRefused_iff, fun events hallows => ?_⟩
  have hinv : self.Inv := by
    refine ⟨fun i j hi => ?_, fun i hi => ?_, h.persistent⟩
    · simp [h.idle] at hi
    · simp [h.idle] at hi
  exact (hinv.run hallows).exclusive

/-! ### Two schedulers of one name -/

def namesakes : CronCluster where
  schedulers i := { name := "cron", pid := i }
  store := CronStore.empty

/-- One scheduler dies, and its namesake is born under the name that is free again. -/
def succession : List (Time × CronEvent) :=
  [(0, .birth 1), (30, .heartbeat 1), (60, .death 1), (70, .birth 2), (100, .heartbeat 2),
    (110, .cleanup 60), (130, .enqueue 2 []), (140, .heartbeat 2)]

theorem exclusive_births_succession :
    (namesakes.run succession).Exclusive ∧ (namesakes.run succession).started 2 = true ∧
      (namesakes.run succession).started 1 = false := by
  have hinitial : namesakes.Initial := ⟨fun _ => rfl, rfl⟩
  refine ⟨(exclusive_births hinitial).2 succession ?_, by decide, by decide⟩
  refine ⟨fun _ => by decide, trivial, trivial, fun _ => by decide, trivial, ?_, trivial, trivial,
    trivial⟩
  intro i _
  -- every scheduler has this name, and the heartbeat of the second has renewed it
  have hname : "cron" ∈ ((namesakes.run (succession.take 5)).store.val .registry).removeRange
      (0 : ℤ) (110 - 60 : ℤ) := by decide
  exact hname

/-- The second birth succeeds while the first scheduler is at work, and overwrites its hash. -/
theorem namesakes_both_born :
    let first := namesakes.run [(0, .birth 1)]
    let second := first.run [(10, .birth 2)]
    "cron" ∈ first.store.val .registry ∧
    ((first.schedulers 2).registerBirth 10).run first.store = (.ok (), second.store) ∧
    (first.store.val (.scheduler "cron")).pid = some 1 ∧
    (second.store.val (.scheduler "cron")).pid = some 2 ∧
    second.started 1 = true ∧ second.started 2 = true := by
  refine ⟨by decide, ?_, by decide, by decide, by decide, by decide⟩
  exact CronScheduler.run_registerBirth _ _ _

end CronCluster

end RedisQueue
