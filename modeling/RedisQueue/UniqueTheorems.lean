import RedisQueue.Commands
import RedisQueue.Enqueueing

/-!
# Unique jobs

What the calls with `unique=True` do for one job id.

* `pending_program`: every entry point comes down to attempts of a guarded script;
* `unique_winner`: of any number of concurrent calls for an id without a hash one wins.
-/

namespace RedisQueue

open Prog

/-! ## Attempts -/

/-- Where a call with `unique=True` puts the id. -/
inductive Place where
  | queue (key : String) (atFront : Bool)
  | scheduled (name : QueueName) (datetime : Time)

namespace Place

def commands (id : JobId) : Place → List (Command Key Value)
  | .queue key atFront => [push key atFront id]
  | .scheduled name datetime => [zadd .scheduled name id (datetime : ℤ),
      .alter .queues fun q => q.insert (queueKey name)]

/-- The list `key` once the id has been put in its place. -/
def list (id : JobId) (key : String) (l : List JobId) : Place → List JobId
  | .queue key' atFront => if key = key' then pushed atFront id l else l
  | .scheduled _ _ => l

/-- The `ScheduledJobRegistry` of `name` once the id has been put in its place. -/
def registry (id : JobId) (name : QueueName) (z : ZSet JobId) : Place → ZSet JobId
  | .queue _ _ => z
  | .scheduled name' datetime => if name = name' then z.add id (datetime : ℤ) else z

end Place

/-- A job that is to be saved unless its hash exists, and its place. -/
structure Attempt where
  job : Job
  place : Place

def Attempt.commands (a : Attempt) (now : Time) : List (Command Key Value) :=
  saveCommands a.job now ++ a.place.commands a.job.id

def attemptAll (now : Time) : List Attempt → Redis Unit
  | [] => return ()
  | a :: as => do
    runUnique a.job (a.commands now)
    attemptAll now as

/-- The attempt that a call with `unique=True` makes for an entry. -/
def Queue.attemptOf (self : Queue) (groupId : Option String) (now : Time) (jd : EnqueueData) :
    Attempt :=
  ⟨self._prepareForQueue (self.newJob jd .queued groupId) now, .queue self.key jd.atFront⟩

/-- `create_job` accepts the arguments. -/
structure EnqueueData.Accepted (jd : EnqueueData) : Prop where
  timeout : jd.timeout ≠ some 0
  ttl : ∀ ttl, jd.ttl = some ttl → 0 < ttl
  jobId : ∀ id, jd.jobId = some id → jobIdPattern id = true

namespace Queue
variable {self : Queue} {jd : EnqueueData} {status : JobStatus} {groupId : Option String}
  {now : Time}

lemma createJob_ok (h : jd.Accepted) :
    self.createJob jd status groupId = .ok (self.newJob jd status groupId) := by
  have httl : ¬jd.ttl.any (· ≤ 0) = true := by
    rw [Option.any_eq_true]
    intro ⟨ttl, hsome, hle⟩
    have hpos := h.ttl ttl hsome
    simp only [decide_eq_true_eq] at hle
    omega
  have hid : ¬(jd.jobId.any fun id => !jobIdPattern id) = true := by
    rw [Option.any_eq_true]
    intro ⟨id, hsome, hnot⟩
    simp [h.jobId id hsome] at hnot
  unfold createJob
  rw [if_neg h.timeout, if_neg httl, if_neg hid]

lemma createJob_error (h : ¬jd.Accepted) :
    ∃ msg, self.createJob jd status groupId = .error (.valueError msg) := by
  unfold createJob
  split
  · exact ⟨_, rfl⟩
  split
  · exact ⟨_, rfl⟩
  split
  · exact ⟨_, rfl⟩
  next htimeout httl hid =>
    refine absurd ⟨htimeout, fun ttl hsome => ?_, fun id hsome => ?_⟩ h
    · simp only [hsome, Option.any_some, decide_eq_true_eq] at httl
      omega
    · simpa [hsome] using hid

/-- The loop over unique entries is a sequence of attempts. -/
lemma enqueueUniques_eq (jds : List (ℕ × EnqueueData)) (h : ∀ jd ∈ jds, jd.2.Accepted) :
    self.enqueueUniques groupId now jds = (do
      attemptAll now (jds.map fun jd => self.attemptOf groupId now jd.2)
      return jds.map fun jd => (jd.1, (self.attemptOf groupId now jd.2).job)) := by
  induction jds with
  | nil => rfl
  | cons jd jds ih =>
    obtain ⟨i, jd⟩ := jd
    have hjd : jd.Accepted := h (i, jd) List.mem_cons_self
    have hrest := ih fun jd hmem => h jd (List.mem_cons_of_mem _ hmem)
    rw [enqueueUniques, createJob_ok hjd, hrest]
    simp [attemptAll, attemptOf, saveUniqueJob, Attempt.commands, Place.commands, bind_assoc]

lemma mem_of_indexed {jds : List EnqueueData} {jd : ℕ × EnqueueData} (h : jd ∈ indexed jds) :
    jd.2 ∈ jds := by
  obtain ⟨x, hx, rfl⟩ := List.mem_map.mp h
  exact List.fst_mem_of_mem_zipIdx hx

lemma map_indexed {β : Type} (jds : List EnqueueData) (f : EnqueueData → β) :
    (indexed jds).map (fun jd => f jd.2) = jds.map f := by
  rw [indexed, List.map_map]
  conv_rhs => rw [← List.zipIdx_map_fst 0 jds, List.map_map]
  rfl

lemma mem_keys_indexed (jds : List EnqueueData) :
    ∀ i < jds.length, i ∈ (indexed jds).map Prod.fst := by
  intro i hi
  have hkeys : (indexed jds).map Prod.fst = List.range jds.length := by
    rw [indexed, List.map_map, List.range_eq_range', ← List.zipIdx_map_snd 0 jds]
    rfl
  rw [hkeys]
  exact List.mem_range.mpr hi

lemma resultAt_ok {resultMap : List (ℕ × Job)} {i : ℕ} (h : i ∈ resultMap.map Prod.fst) :
    ∃ job, resultAt resultMap i = .ok job := by
  unfold resultAt
  cases hlookup : resultMap.lookup i with
  | some job => exact ⟨job, rfl⟩
  | none =>
    rw [List.lookup_eq_none_iff] at hlookup
    obtain ⟨⟨i', job⟩, hmem, rfl⟩ := List.mem_map.mp h
    simpa using hlookup (i', job) hmem

/-- Every index has a job. -/
lemma rebuild_ok {resultMap : List (ℕ × Job)} {n : ℕ} (h : ∀ i < n, i ∈ resultMap.map Prod.fst) :
    ∃ jobs, rebuild resultMap n = .ok jobs := by
  have hlist : ∀ is : List ℕ, (∀ i ∈ is, i ∈ resultMap.map Prod.fst) →
      ∃ jobs, is.mapM (resultAt resultMap) = .ok jobs := fun is his => by
    induction is with
    | nil => exact ⟨[], rfl⟩
    | cons i is ih =>
      obtain ⟨jobs, hjobs⟩ := ih fun i hi => his i (List.mem_cons_of_mem _ hi)
      obtain ⟨job, hjob⟩ := resultAt_ok (his i List.mem_cons_self)
      rw [List.mapM_cons, hjob, hjobs]
      exact ⟨job :: jobs, rfl⟩
  exact hlist _ fun i hi => h i (List.mem_range.mp hi)

end Queue

/-- A call with `unique=True`. -/
inductive UniqueCall where
  | enqueueCall (queue : Queue) (jd : EnqueueData)
  | enqueueJob (queue : Queue) (job : Job) (atFront : Bool)
  | scheduleJob (queue : Queue) (job : Job) (datetime : Time)
  | enqueueMany (queue : Queue) (jobDatas : List EnqueueData)

namespace UniqueCall

def program (now : Time) (fuel : ℕ) : UniqueCall → Redis Unit
  | .enqueueCall queue jd => do
    let _ ← queue.enqueueCall none jd none now fuel
    return ()
  | .enqueueJob queue job atFront => do
    let _ ← queue.enqueueJobOn none job none atFront true now fuel
    return ()
  | .scheduleJob queue job datetime => do
    let _ ← queue.scheduleJob job datetime none true now
    return ()
  | .enqueueMany queue jobDatas => do
    let _ ← queue.enqueueMany none jobDatas none none now fuel
    return ()

/-- A unique entry for the id, with arguments that are accepted and without dependencies. -/
structure UniqueFor (id : JobId) (jd : EnqueueData) : Prop where
  unique : jd.unique = true
  jobId : jd.jobId = some id
  noDeps : jd.dependsOn = none
  accepted : jd.Accepted

/-- The call is for the id: with accepted arguments, with a fresh job object, without
dependencies. -/
def For (id : JobId) : UniqueCall → Prop
  | .enqueueCall _ jd => UniqueFor id jd
  | .enqueueJob _ job _ => job.id = id ∧ job.dependencyIds = [] ∧ job.status ≠ .deferred
  | .scheduleJob _ job _ => job.id = id
  | .enqueueMany _ jobDatas => jobDatas ≠ [] ∧ ∀ jd ∈ jobDatas, UniqueFor id jd

/-- The attempts of a call, in their order. -/
def attempts (now : Time) : UniqueCall → List Attempt
  | .enqueueCall queue jd => [queue.attemptOf none now jd]
  | .enqueueJob queue job atFront =>
    [⟨queue._prepareForQueue job now, .queue queue.key atFront⟩]
  | .scheduleJob queue job datetime =>
    [⟨{ job with status := .scheduled }, .scheduled queue.name datetime⟩]
  | .enqueueMany queue jobDatas => jobDatas.map (queue.attemptOf none now)

/-- What `enqueue_job` does before its attempt. -/
def register (queue : Queue) (p : Redis Unit) : Redis Unit :=
  .exec false (fun _ => true)
    (Command.seq [.alter .queues fun q => q.insert queue.key]).run fun _ => p

/-- What a call is about to do. -/
inductive Pending (now : Time) (as : List Attempt) : Redis Unit → Prop where
  | attempt : Pending now as (attemptAll now as)
  | register (queue : Queue) : Pending now as (register queue (attemptAll now as))

section Programs
variable {id : JobId} {now : Time} {fuel : ℕ}

lemma hasJobId_of_pattern {jd : EnqueueData} (h : UniqueFor id jd) : Queue.hasJobId jd = true := by
  have hpattern := h.accepted.jobId id h.jobId
  simp only [jobIdPattern, Bool.and_eq_true] at hpattern
  simp only [Queue.hasJobId, h.jobId, Option.any_some]
  exact hpattern.1

lemma enqueueJobOn_eq (queue : Queue) {job : Job} (hdeps : job.dependencyIds = [])
    (hstatus : job.status ≠ .deferred) (atFront : Bool) :
    (do let _ ← queue.enqueueJobOn none job none atFront true now fuel
        return () : Redis Unit) =
      register queue
        (attemptAll now [⟨queue._prepareForQueue job now, .queue queue.key atFront⟩]) := by
  simp [Queue.enqueueJobOn, Queue.setupDependencies, hdeps, hstatus, Pipeline.command_eq_buffer,
    Pipeline.execute_of_unwatched, Queue._enqueueJobOn, Queue._enqueueJob, attemptAll, register,
    saveUniqueJob, Attempt.commands, Place.commands, bind_assoc, Queue._prepareForQueue]

lemma validate_ok {jds : List EnqueueData} (h : ∀ jd ∈ jds, UniqueFor id jd) :
    Queue.validate jds = .ok () := by
  induction jds with
  | nil => rfl
  | cons jd jds ih =>
    have hjd := h jd List.mem_cons_self
    have hid := hasJobId_of_pattern hjd
    rw [Queue.validate]
    simp [hjd.noDeps, hid, ih fun jd hmem => h jd (List.mem_cons_of_mem _ hmem)]

lemma enqueueMany_eq (queue : Queue) {jds : List EnqueueData} (h : ∀ jd ∈ jds, UniqueFor id jd) :
    (do let _ ← queue.enqueueMany none jds none none now fuel
        return () : Redis Unit) = attemptAll now (jds.map (queue.attemptOf none now)) := by
  have hindexed : ∀ jd ∈ Queue.indexed jds, UniqueFor id jd.2 := fun jd hjd =>
    h jd.2 (Queue.mem_of_indexed hjd)
  have huniques : Queue.uniqueNoDeps jds = Queue.indexed jds :=
    List.filter_eq_self.mpr fun jd hjd => by
      simp [(hindexed jd hjd).unique, (hindexed jd hjd).noDeps]
  have hnormals : Queue.normalNoDeps jds = [] :=
    List.filter_eq_nil_iff.mpr fun jd hjd => by simp [(hindexed jd hjd).unique]
  have hdeps : Queue.withDeps jds = [] :=
    List.filter_eq_nil_iff.mpr fun jd hjd => by simp [(hindexed jd hjd).noDeps]
  have hattempts : (Queue.indexed jds).map (fun jd => queue.attemptOf none now jd.2) =
      jds.map (queue.attemptOf none now) := by
    rw [← Queue.map_indexed jds (queue.attemptOf none now)]
  obtain ⟨jobs, hjobs⟩ := @Queue.rebuild_ok
    ((Queue.indexed jds).map fun jd => (jd.1, (queue.attemptOf none now jd.2).job)) jds.length
    (by rw [List.map_map]; exact Queue.mem_keys_indexed jds)
  unfold Queue.enqueueMany
  rw [validate_ok h, huniques, hnormals, hdeps,
    Queue.enqueueUniques_eq _ fun jd hjd => (hindexed jd hjd).accepted, hattempts]
  simp only [Client.command_buffer, Queue.enqueueNormalNoDeps, Queue.enqueueWithDeps, hjobs,
    bind_assoc, Option.getD_none, Pipeline.immediate_empty, if_true, Prog.pure_eq, Prog.ret_bind,
    Prog.ofExcept_ok, List.append_nil]
  exact Prog.bind_ret _

lemma pending_program {call : UniqueCall} (h : call.For id) :
    Pending now (call.attempts now) (call.program now fuel) := by
  cases call with
  | enqueueCall queue jd =>
    have hid := hasJobId_of_pattern h
    have hdeps : (queue.newJob jd .queued none).dependencyIds = [] := by
      simp [Queue.newJob, h.noDeps]
    have heq := @enqueueJobOn_eq now fuel queue _ hdeps (by simp [Queue.newJob]) jd.atFront
    simp only [program, Queue.enqueueCall, hid, Queue.createJob_ok h.accepted, h.unique,
      Bool.not_true, Bool.and_false, Bool.false_eq_true, if_false, Prog.ofExcept_ok,
      Prog.ret_bind, heq]
    exact .register queue
  | enqueueJob queue job atFront =>
    obtain ⟨-, hdeps, hstatus⟩ := h
    rw [program, enqueueJobOn_eq queue hdeps hstatus]
    exact .register queue
  | scheduleJob queue job datetime =>
    have heq : (UniqueCall.scheduleJob queue job datetime).program now fuel =
        attemptAll now ((UniqueCall.scheduleJob queue job datetime).attempts now) := by
      simp [program, Queue.scheduleJob, scheduleUniqueJob, attempts, attemptAll, Attempt.commands,
        Place.commands, bind_assoc]
    rw [heq]
    exact .attempt
  | enqueueMany queue jds =>
    rw [program, enqueueMany_eq queue h.2]
    exact .attempt

end Programs

/-! ## One step of a race -/

/-- Nobody has put the id anywhere. -/
structure Untouched (id : JobId) (s₀ s : Store) : Prop where
  hash : s.val (.job id) = default
  lists : ∀ key, s.val (.list key) = s₀.val (.list key)
  scheduled : ∀ name, s.val (.registry .scheduled name) = s₀.val (.registry .scheduled name)

/-- The job of the attempt has been saved and put in its place, and no other. -/
structure Admitted (id : JobId) (s₀ : Store) (a : Attempt) (s : Store) : Prop where
  hash : s.val (.job id) = a.job.toDict true
  lists : ∀ key, s.val (.list key) = a.place.list id key (s₀.val (.list key))
  scheduled : ∀ name, s.val (.registry .scheduled name) =
    a.place.registry id name (s₀.val (.registry .scheduled name))

def duplicate (id : JobId) : PyError :=
  .duplicateJobError s!"Job with ID '{id}' already exists"

section Step
variable {id : JobId} {now : Time} {s₀ s : Store} {a : Attempt} {as : List Attempt}

lemma update_default (m : JobHash) : (default : JobHash).update m = m := by
  simp [JobHash.update, default, instInhabitedJobHash.default]

lemma admitted_ne_default (h : Admitted id s₀ a s) : s.val (.job id) ≠ default := by
  rw [h.hash]
  exact ne_default_of_data rfl

lemma admitted_of_untouched (h : Untouched id s₀ s) (hid : a.job.id = id) :
    Admitted id s₀ a ((Command.seq (a.commands now)).run s) := by
  obtain ⟨job, place⟩ := a
  subst hid
  have hsaved := val_saveCommands job now s
  simp only [h.hash, update_default] at hsaved
  unfold Attempt.commands
  rw [Command.seq_append_run]
  cases place with
  | queue key' atFront =>
    refine ⟨?_, fun key => ?_, fun name => ?_⟩
    · simp [Place.commands, hsaved]
    · rcases eq_or_ne key key' with rfl | hkey
      · simp [Place.commands, Place.list, hsaved, h.lists]
      · simp [Place.commands, Place.list, hsaved, h.lists, hkey]
    · simp [Place.commands, Place.registry, hsaved, h.scheduled]
  | scheduled name' datetime =>
    refine ⟨?_, fun key => ?_, fun name => ?_⟩
    · simp [Place.commands, hsaved]
    · simp [Place.commands, Place.list, hsaved, h.lists]
    · rcases eq_or_ne name name' with rfl | hname
      · simp [Place.commands, Place.registry, hsaved, h.scheduled]
      · simp [Place.commands, Place.registry, hsaved, h.scheduled, hname]

lemma advance_attempt (h : s.val (.job a.job.id) = default) :
    (attemptAll now (a :: as)).advance s =
      some (attemptAll now as, (Command.seq (a.commands now)).run s) := by
  simp [attemptAll, runUnique, Prog.advance, h]

lemma advance_duplicate (h : s.val (.job a.job.id) ≠ default) :
    (attemptAll now (a :: as)).advance s = some (.throw (duplicate a.job.id), s) := by
  simp [attemptAll, runUnique, Prog.advance, h, duplicate]

lemma advance_register (queue : Queue) (p : Redis Unit) (s : Store) :
    (register queue p).advance s =
      some (p, (Command.alter .queues fun q => q.insert queue.key).run s) := rfl

lemma untouched_register (h : Untouched id s₀ s) (queue : Queue) :
    Untouched id s₀ ((Command.alter .queues fun q => q.insert queue.key).run s) :=
  ⟨by simp [h.hash], by simp [h.lists], by simp [h.scheduled]⟩

lemma admitted_register (h : Admitted id s₀ a s) (queue : Queue) :
    Admitted id s₀ a ((Command.alter .queues fun q => q.insert queue.key).run s) :=
  ⟨by simp [h.hash], by simp [h.lists], by simp [h.scheduled]⟩

/-- Every call has an attempt, and all its attempts are for the id. -/
lemma attempts_eq_cons {call : UniqueCall} (h : call.For id) (now : Time) :
    ∃ a as, call.attempts now = a :: as ∧ ∀ b ∈ a :: as, b.job.id = id := by
  have hentry : ∀ (queue : Queue) (jd : EnqueueData), UniqueFor id jd →
      (queue.attemptOf none now jd).job.id = id := fun queue jd hjd => by
    simp [Queue.attemptOf, Queue.newJob, Queue._prepareForQueue, hjd.jobId]
  cases call with
  | enqueueCall queue jd => exact ⟨_, [], rfl, by simpa using hentry queue jd h⟩
  | enqueueJob queue job atFront =>
    exact ⟨_, [], rfl, by simpa [Queue._prepareForQueue] using h.1⟩
  | scheduleJob queue job datetime => exact ⟨_, [], rfl, by simpa [For] using h⟩
  | enqueueMany queue jds =>
    obtain ⟨hne, hall⟩ := h
    obtain ⟨jd, jds, rfl⟩ := List.exists_cons_of_ne_nil hne
    refine ⟨_, _, rfl, fun b hb => ?_⟩
    rw [← List.map_cons (f := queue.attemptOf none now)] at hb
    obtain ⟨jd', hjd', rfl⟩ := List.mem_map.mp hb
    exact hentry queue jd' (hall jd' hjd')

end Step

/-! ## A race -/

section Race
variable {ι : Type} [DecidableEq ι] {id : JobId} {calls : ι → UniqueCall} {now : ι → Time}
  {fuel : ℕ} {s₀ : Store} {P P' : System ι Store PyError}

/-- No attempt has been made. -/
structure Undecided (id : JobId) (calls : ι → UniqueCall) (now : ι → Time) (s₀ : Store)
    (P : System ι Store PyError) : Prop where
  store : Untouched id s₀ P.store
  pending : ∀ i, Pending (now i) ((calls i).attempts (now i)) (P.procs i)

/-- The call `w` has won with its first attempt `a`, the attempts `as` are left to it. -/
structure Won (id : JobId) (calls : ι → UniqueCall) (now : ι → Time) (s₀ : Store)
    (P : System ι Store PyError) (w : ι) (a : Attempt) (as : List Attempt) : Prop where
  attempts : (calls w).attempts (now w) = a :: as
  store : Admitted id s₀ a P.store
  winner : P.procs w = attemptAll (now w) as ∨ as ≠ [] ∧ P.procs w = .throw (duplicate id)
  others : ∀ i, i ≠ w → Pending (now i) ((calls i).attempts (now i)) (P.procs i) ∨
    P.procs i = .throw (duplicate id)

/-- The first attempt of all wins. -/
lemma Undecided.step {i : ι} (hcalls : ∀ i, (calls i).For id)
    (h : Undecided id calls now s₀ P) (hs : System.Step i P P') :
    Undecided id calls now s₀ P' ∨ ∃ w a as, Won id calls now s₀ P' w a as := by
  have hadvance := hs.advance_eq
  obtain ⟨a, as, has, hids⟩ := attempts_eq_cons (hcalls i) (now i)
  have hid : a.job.id = id := hids a List.mem_cons_self
  have hothers : ∀ j, j ≠ i → Pending (now j) ((calls j).attempts (now j)) (P'.procs j) :=
    fun j hj => by
      rw [hs.procs_of_ne hj]
      exact h.pending j
  have hpending := h.pending i
  rw [has] at hpending
  generalize P.procs i = q at hpending hadvance
  cases hpending with
  | attempt =>
    rw [advance_attempt (by rw [hid]; exact h.store.hash)] at hadvance
    obtain ⟨hproc, hstore⟩ := Prod.mk.inj (Option.some.inj hadvance)
    refine .inr ⟨i, a, as, has, ?_, .inl hproc.symm, fun j hj => .inl (hothers j hj)⟩
    rw [← hstore]
    exact admitted_of_untouched h.store hid
  | register queue =>
    rw [advance_register] at hadvance
    obtain ⟨hproc, hstore⟩ := Prod.mk.inj (Option.some.inj hadvance)
    refine .inl ⟨?_, fun j => ?_⟩
    · rw [← hstore]
      exact untouched_register h.store queue
    · rcases eq_or_ne j i with rfl | hj
      · rw [has, ← hproc]
        exact .attempt
      · exact hothers j hj

/-- Every later attempt fails. -/
lemma Won.step {i w : ι} {a : Attempt} {as : List Attempt} (hcalls : ∀ i, (calls i).For id)
    (h : Won id calls now s₀ P w a as) (hs : System.Step i P P') :
    Won id calls now s₀ P' w a as := by
  have hadvance := hs.advance_eq
  have hexists := admitted_ne_default h.store
  obtain ⟨b, bs, hbs, hids⟩ := attempts_eq_cons (hcalls i) (now i)
  have hother : ∀ j, j ≠ w → j ≠ i → Pending (now j) ((calls j).attempts (now j)) (P'.procs j) ∨
      P'.procs j = .throw (duplicate id) := fun j hj hji => by
    rw [hs.procs_of_ne hji]
    exact h.others j hj
  rcases eq_or_ne i w with rfl | hi
  · -- the winner has another entry for the id
    have hloses : as ≠ [] ∧ P'.procs i = .throw (duplicate id) ∧ P'.store = P.store := by
      rcases h.winner with hwinner | ⟨-, hwinner⟩
      · rw [hwinner] at hadvance
        cases as with
        | nil => cases hadvance
        | cons c cs =>
          have hid : c.job.id = id := hids c (by
            have hcons := hbs.symm.trans h.attempts
            simp [hcons])
          rw [advance_duplicate (by rw [hid]; exact hexists), hid] at hadvance
          obtain ⟨hproc, hstore⟩ := Prod.mk.inj (Option.some.inj hadvance)
          exact ⟨by simp, hproc.symm, hstore.symm⟩
      · rw [hwinner] at hadvance
        cases hadvance
    obtain ⟨hne, hproc, hstore⟩ := hloses
    exact ⟨h.attempts, by rw [hstore]; exact h.store, .inr ⟨hne, hproc⟩,
      fun j hj => hother j hj hj⟩
  · have hmoves : (Pending (now i) ((calls i).attempts (now i)) (P'.procs i) ∨
        P'.procs i = .throw (duplicate id)) ∧ Admitted id s₀ a P'.store := by
      rcases h.others i hi with hpending | hlost
      · have hid : b.job.id = id := hids b List.mem_cons_self
        rw [hbs] at hpending
        generalize P.procs i = q at hpending hadvance
        cases hpending with
        | attempt =>
          rw [advance_duplicate (by rw [hid]; exact hexists), hid] at hadvance
          obtain ⟨hproc, hstore⟩ := Prod.mk.inj (Option.some.inj hadvance)
          exact ⟨.inr hproc.symm, by rw [← hstore]; exact h.store⟩
        | register queue =>
          rw [advance_register] at hadvance
          obtain ⟨hproc, hstore⟩ := Prod.mk.inj (Option.some.inj hadvance)
          refine ⟨.inl ?_, by rw [← hstore]; exact admitted_register h.store queue⟩
          rw [hbs, ← hproc]
          exact .attempt
      · rw [hlost] at hadvance
        cases hadvance
    refine ⟨h.attempts, hmoves.2, ?_, fun j hj => ?_⟩
    · rw [hs.procs_of_ne (Ne.symm hi)]
      exact h.winner
    · rcases eq_or_ne j i with rfl | hji
      · exact hmoves.1
      · exact hother j hj hji

/-- **Of any number of concurrent calls for an id exactly one wins.** -/
theorem unique_winner [Nonempty ι] (id : JobId) (calls : ι → UniqueCall)
    (hcalls : ∀ i, (calls i).For id) (now : ι → Time) (fuel : ℕ) (s₀ : Store)
    (h₀ : s₀.val (.job id) = default)
    (hP : System.Reaches ⟨fun i => (calls i).program (now i) fuel, s₀⟩ P)
    (hreturned : ∀ i, (P.procs i).Returned) :
    ∃ w a as, (calls w).attempts (now w) = a :: as ∧
      P.procs w = (if as = [] then .ret () else .throw (duplicate id)) ∧
      (∀ i, i ≠ w → P.procs i = .throw (duplicate id)) ∧
      P.store.val (.job id) = a.job.toDict true ∧
      (∀ key, P.store.val (.list key) = a.place.list id key (s₀.val (.list key))) ∧
      ∀ name, P.store.val (.registry .scheduled name) =
        a.place.registry id name (s₀.val (.registry .scheduled name)) := by
  have hinvariant := System.invariant
    (I := fun P => Undecided id calls now s₀ P ∨ ∃ w a as, Won id calls now s₀ P w a as)
    (fun i P P' hs h => h.elim (fun h => h.step hcalls hs)
      fun ⟨w, a, as, h⟩ => .inr ⟨w, a, as, h.step hcalls hs⟩)
    (.inl ⟨⟨h₀, fun _ => rfl, fun _ => rfl⟩, fun i => pending_program (hcalls i)⟩) hP
  have hnot : ∀ i, ¬Pending (now i) ((calls i).attempts (now i)) (P.procs i) := fun i hpending => by
    obtain ⟨a, as, has, -⟩ := attempts_eq_cons (hcalls i) (now i)
    have hi := hreturned i
    rw [has] at hpending
    generalize P.procs i = q at hpending hi
    cases hpending <;> rcases hi with ⟨_, hi⟩ | ⟨_, hi⟩ <;> cases hi
  rcases hinvariant with h | ⟨w, a, as, h⟩
  · obtain ⟨i⟩ := ‹Nonempty ι›
    exact absurd (h.pending i) (hnot i)
  · refine ⟨w, a, as, h.attempts, ?_, fun i hi => (h.others i hi).resolve_left (hnot i),
      h.store.hash, h.store.lists, h.store.scheduled⟩
    cases as with
    | nil =>
      rcases h.winner with hwinner | ⟨hne, -⟩
      · exact hwinner
      · exact absurd rfl hne
    | cons b bs =>
      rcases h.winner with hwinner | ⟨-, hwinner⟩
      · rcases hreturned w with ⟨_, hw⟩ | ⟨_, hw⟩ <;> rw [hwinner] at hw <;> cases hw
      · exact hwinner

end Race

/-! ### Two calls and a stale id -/

/-- One client enqueues the job, the other schedules it. -/
def twoCalls : Bool → UniqueCall
  | true => .enqueueJob { name := "default" } { id := "job" } false
  | false => .scheduleJob { name := "default" } { id := "job" } 60

theorem unique_winner_two : ∃ P : System Bool Store PyError,
    System.Reaches ⟨fun i => (twoCalls i).program 0 0, Store.empty⟩ P ∧
    ∃ w a as, (twoCalls w).attempts 0 = a :: as ∧
      P.procs w = (if as = [] then .ret () else .throw (duplicate "job")) ∧
      (∀ i, i ≠ w → P.procs i = .throw (duplicate "job")) ∧
      P.store.val (.job "job") = a.job.toDict true ∧
      (∀ key, P.store.val (.list key) = a.place.list "job" key (Store.empty.val (.list key))) ∧
      ∀ name, P.store.val (.registry .scheduled name) =
        a.place.registry "job" name (Store.empty.val (.registry .scheduled name)) := by
  have hreaches := System.reaches_of_after
    (P := ⟨fun i => (twoCalls i).program 0 0, Store.empty⟩) [true, false, true] rfl
  refine ⟨_, hreaches, unique_winner "job" twoCalls ?_ (fun _ => 0) 0 Store.empty rfl hreaches ?_⟩
  · intro i
    cases i
    · rfl
    · exact ⟨rfl, rfl, nofun⟩
  · intro i
    cases i
    · exact .inl ⟨(), rfl⟩
    · exact .inr ⟨_, rfl⟩

/-- The hash of a queued job has expired, its id is still in the queue. -/
def staleStore : Store :=
  (Queue.enqueueJob { name := "default" } { id := "job", ttl := some 1 } none false false 0 1 |>.run
    Store.empty).2.expireAt 5

theorem stale_id_occurs_twice : staleStore.val (.job "job") = default ∧
    ∃ P : System Unit Store PyError,
      System.Reaches ⟨fun _ => (UniqueCall.enqueueJob { name := "default" } { id := "job" }
        false).program 5 0, staleStore⟩ P ∧
      P.procs () = .ret () ∧ (P.store.val (.list (queueKey "default"))).count "job" = 2 :=
  ⟨by decide, _, System.reaches_of_after [(), ()] rfl, rfl, by decide⟩

end UniqueCall

end RedisQueue
