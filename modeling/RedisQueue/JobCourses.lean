import RedisQueue.Dequeueing
import RedisQueue.JobRuns
import RedisQueue.SchedulerTicks

/-!
# The course of one job

A job that is executed again and again, by workers that take it from its queue and with schedulers
that move it there.

* `Trace.Queued`, `Trace.Waiting`, `Trace.Running`, `Trace.Failed`: where a job can be;
* `Queue.trace_dequeueAny`: a worker takes the job from its queue;
* `trace_ticked`: a scheduler moves the job when it is due;
* `Run`: what happens to the job, with the times of its executions;
* `Run.stage`: a course that each execution follows is followed by every run.
-/

namespace RedisQueue

/-! ## Places -/

/-- The job exists and belongs to the queue. -/
structure Trace.Owned (name : QueueName) (t : Trace) : Prop where
  restorable : t.restorable = true
  origin : t.origin = name
  notOwn : ¬t.ownDependent

/-- The job is in its queue, and nowhere else. -/
structure Trace.Queued (name : QueueName) (t : Trace) : Prop extends Owned name t where
  status : t.status = some .queued
  lists : ∀ key, t.lists key = if key = queueKey name then 1 else 0
  scheduled : ∀ name', t.registries .scheduled name' = none
  wip : t.wip = ∅

/-- The job is scheduled, and nowhere else. -/
structure Trace.Waiting (name : QueueName) (score : Time) (t : Trace) : Prop
    extends Owned name t where
  status : t.status = some .scheduled
  lists : ∀ key, t.lists key = 0
  scheduled : ∀ name', t.registries .scheduled name' =
    if name' = name then some ((score : ℤ) : Score) else none
  wip : t.wip = ∅

/-- The job is queued or scheduled. -/
def Trace.Pending (name : QueueName) (t : Trace) : Prop :=
  t.Queued name ∨ ∃ score, t.Waiting name score

/-- The job is to be executed after the delay: at once, or when it is due. -/
def Trace.Delayed (name : QueueName) (now : Time) (delay : ℕ) (t : Trace) : Prop :=
  if delay = 0 then t.Queued name else t.Waiting name (now + delay)

/-- The job has one execution, and is neither queued nor scheduled. -/
structure Trace.Running (name : QueueName) (eid : ExecutionId) (t : Trace) : Prop
    extends Owned name t where
  lists : ∀ key, t.lists key = 0
  scheduled : ∀ name', t.registries .scheduled name' = none
  wip : t.wip = {(name, eid)}

/-- The job is in the registry of failed jobs, and will not be executed again. -/
structure Trace.Failed (name : QueueName) (t : Trace) : Prop extends Owned name t where
  status : t.status = some .failed
  lists : ∀ key, t.lists key = 0
  scheduled : ∀ name', t.registries .scheduled name' = none
  failed : (t.registries .failed name).isSome
  wip : t.wip = ∅

section Places
variable {name : QueueName} {eid : ExecutionId} {t : Trace}

lemma Trace.Running.recorded (h : t.Running name eid) (ttl : Option ℤ) (result : Result) :
    (t.recorded ttl result).Running name eid :=
  ⟨⟨h.restorable, h.origin, h.notOwn⟩, h.lists, h.scheduled, h.wip⟩

/-- The origin of a job of the queue. -/
lemma origin_saved (name : QueueName) : (if name = "" then name else name) = name := by
  split <;> rfl

/-- An execution that is followed by another one. -/
lemma Trace.Running.again (h : t.Running name eid) (queue : Queue) (hq : queue.name = name)
    (job : Job) (hjob : job.origin = name) (interval : ℕ) (now : Time) :
    ((t.ended (name, eid)).again queue job interval now).Delayed name now interval := by
  have hwip : t.wip \ {(name, eid)} = ∅ := by rw [h.wip, Set.sdiff_self]
  have horigin : (if name = "" then t.origin else name) = name := by rw [h.origin, origin_saved]
  unfold Trace.again Trace.Delayed
  by_cases h0 : interval = 0
  · rw [if_pos h0, if_pos h0]
    refine ⟨⟨rfl, by rw [← hq] at horigin ⊢; exact horigin, h.notOwn⟩, rfl, fun key => ?_,
      h.scheduled, hwip⟩
    by_cases hkey : key = queueKey name
    · simp [Trace.listed, Trace.saved, Trace.ended, Queue.key, hq, hkey, h.lists]
    · simp [Trace.listed, Trace.saved, Trace.ended, Queue.key, hq, hkey, h.lists]
  · rw [if_neg h0, if_neg h0]
    refine ⟨⟨rfl, by rw [← hjob] at horigin ⊢; exact horigin, h.notOwn⟩, rfl, h.lists,
      fun name' => ?_, hwip⟩
    by_cases hname : name' = name
    · simp [Trace.scheduled, hq, hname]
    · simp [Trace.scheduled, hq, hname, Trace.saved, Trace.ended, h.scheduled]

/-- The last execution. -/
lemma Trace.Running.failure (h : t.Running name eid) (job : Job) (hjob : job.origin = name)
    (hstatus : job.status = .failed) (result : Result) (now : Time) :
    (t.failure job eid result now).Failed name := by
  have hwip : t.wip \ {(name, eid)} = ∅ := by rw [h.wip, Set.sdiff_self]
  have horigin : (if name = "" then t.origin else name) = name := by rw [h.origin, origin_saved]
  subst hjob
  exact ⟨⟨rfl, horigin, h.notOwn⟩, congrArg some hstatus, h.lists,
    fun name' => by simp [Trace.failure, Trace.recorded, Trace.failed, Trace.saved, Trace.ended,
      h.scheduled],
    by simp [Trace.failure, Trace.recorded, Trace.failed], hwip⟩

end Places

/-! ## A job is enqueued -/

/-- Nothing is known about the job. -/
def Trace.absent : Trace where
  restorable := false
  origin := ""
  plan := .nothing
  status := none
  results := []
  lists _ := 0
  registries _ _ := none
  wip := ∅
  ownDependent := False

namespace Queue

section Dequeue
variable {version : ℕ × ℕ × ℕ} {keys : List String} {s s' : Store} {key key' : String}
  {id : JobId}

/-- The popped ids are kept in `key'`. -/
def HeldIn (version : ℕ × ℕ × ℕ) (keys : List String) (key key' : String) : Prop :=
  Holds version keys key ∧ key' = intermediateQueueKey key

instance : Decidable (HeldIn version keys key key') :=
  inferInstanceAs (Decidable ((_ ∧ _) ∧ _))

lemma Popped.list_other (h : Popped version keys s s' key id) {k : String} (hk : k ≠ key)
    (hheld : ¬HeldIn version keys key k) : s'.val (.list k) = s.val (.list k) := by
  apply (h.frame (.list k) (by simpa using hk) fun q hq heq => ?_).1
  -- a queue that holds what is popped is the only one
  obtain rfl : key = q := by
    have hmem := h.mem
    rw [hq.1] at hmem
    exact List.mem_singleton.mp hmem
  exact hheld ⟨hq, by simpa using heq⟩

/-- Lists apart, a pop leaves everything as it is. -/
lemma Popped.val (h : Popped version keys s s' key id) {k : Key} (hk : ∀ key, k ≠ .list key) :
    s'.val k = s.val k := (h.frame k (hk _) fun _ _ => hk _).1

/-- The pop of another id. -/
lemma Popped.trace_other {id' : JobId} (h : Popped version keys s s' key id') (hid : id' ≠ id) :
    trace id s' = trace id s := by
  ext1
  case lists =>
    funext k
    by_cases hk : k = key
    · subst hk
      simp [trace, h.taken, hid]
    · by_cases hheld : HeldIn version keys key k
      · obtain ⟨hholds, rfl⟩ := hheld
        simp [trace, h.held key hholds, hid]
      · simp [trace, h.list_other hk hheld]
  all_goals simp [trace, h.val]

/-- The pop of the id of a job that is queued. -/
lemma Popped.trace_queued {name : QueueName} (h : Popped version keys s s' key id)
    (hqueued : (trace id s).Queued name) : key = queueKey name ∧
      trace id s' = { trace id s with
        lists := fun k => if HeldIn version keys key k then 1 else 0 } := by
  have hcount := hqueued.lists
  have hkey : key = queueKey name := by
    have htaken := hcount key
    by_contra hne
    simp [trace, h.taken, hne] at htaken
  subst hkey
  have hlists : ∀ k, (trace id s').lists k =
      if HeldIn version keys (queueKey name) k then 1 else 0 := by
    intro k
    have hbefore := hcount k
    by_cases hk : k = queueKey name
    · subst hk
      have hnot : ¬HeldIn version keys (queueKey name) (queueKey name) :=
        fun heq => intermediateQueueKey_ne (queueKey name) heq.2.symm
      rw [if_neg hnot]
      simpa [trace, h.taken] using hbefore
    · rw [if_neg hk] at hbefore
      by_cases hheld : HeldIn version keys (queueKey name) k
      · rw [if_pos hheld]
        obtain ⟨hholds, rfl⟩ := hheld
        simpa [trace, h.held _ hholds] using hbefore
      · rw [if_neg hheld, ← hbefore]
        simp [trace, h.list_other hk hheld]
  refine ⟨rfl, ?_⟩
  ext1
  case lists =>
    funext k
    exact hlists k
  all_goals simp [trace, h.val]

/-- A job that is returned has been looked for after the pop of an id. -/
lemma exists_popped {timeout : Option ℕ} {fuel : ℕ} {job : Job}
    (h : (dequeueAny version keys timeout (fuel + 1)).run s = (.ok (some (job, key)), s')) :
    ∃ key' id' s₁, Popped version keys s s₁ key' id' ∧
      (popAny version keys timeout).run s = (.ok (some (key', id')), s₁) := by
  have houtcome := popOutcome_popAny version keys timeout s
  generalize ho : (popAny version keys timeout).run s = o at houtcome
  unfold dequeueAny at h
  cases houtcome with
  | empty =>
    rw [Prog.run_bind_ok ho] at h
    cases h
  | raised _ e s₁ =>
    rw [Prog.run_bind_error ho] at h
    cases h
  | popped hpop => exact ⟨_, _, _, hpop, rfl⟩

/-- What follows the pop of an id: the loop goes on, or its job is returned. -/
lemma run_dequeueAny_popped {timeout : Option ℕ} {fuel : ℕ} {s₁ : Store} {id' : JobId} {job : Job}
    {key' : String} (hpop : (popAny version keys timeout).run s = (.ok (some (key', id')), s₁))
    (h : (dequeueAny version keys timeout (fuel + 1)).run s = (.ok (some (job, key)), s')) :
    (dequeueAny version keys timeout fuel).run s₁ = (.ok (some (job, key)), s') ∨ job.id = id' := by
  unfold dequeueAny at h
  rw [Prog.run_bind_ok hpop] at h
  dsimp only at h
  rw [Prog.run_bind_ok (Prog.run_read _ _)] at h
  split at h
  · exact .inl h
  · split at h
    · next found hfound =>
      cases h
      exact .inr (Job.restore_ok hfound).1
    · exact .inl h
    · cases h

/-- **A worker takes a queued job.** -/
theorem trace_dequeueAny {name : QueueName} (timeout : Option ℕ) (fuel : ℕ) {job : Job}
    (hqueued : (trace id s).Queued name) (hid : job.id = id)
    (h : (dequeueAny version keys timeout fuel).run s = (.ok (some (job, key)), s')) :
    key = queueKey name ∧ Job.restore id (s.val (.job id)) = .ok job ∧
      trace id s' = { trace id s with
        lists := fun k => if HeldIn version keys key k then 1 else 0 } := by
  induction fuel generalizing s with
  | zero => cases h
  | succ fuel ih =>
    obtain ⟨key', id', s₁, hpop, ho⟩ := exists_popped h
    by_cases hid' : id' = id
    · -- the job itself: it can be restored
      subst hid'
      obtain ⟨rfl, htrace⟩ := hpop.trace_queued hqueued
      have hdata : (s.val (.job id')).data.isSome := hqueued.restorable
      obtain ⟨found, hfound⟩ := Job.exists_restore id' hdata
      have hhash : s₁.val (.job id') = s.val (.job id') := hpop.val (by simp)
      unfold dequeueAny at h
      rw [Prog.run_bind_ok ho] at h
      dsimp only at h
      rw [Prog.run_bind_ok (Prog.run_read _ _), hhash, if_neg (ne_default_of_data hdata),
        hfound] at h
      cases h
      exact ⟨rfl, hfound, htrace⟩
    · -- another id, which turns out to have no job
      have htrace := hpop.trace_other hid'
      have hhash : s₁.val (.job id) = s.val (.job id) := hpop.val (by simp)
      rcases run_dequeueAny_popped ho h with hnext | hfound
      · rw [← htrace] at hqueued ⊢
        rw [← hhash]
        exact ih hqueued hnext
      · exact absurd (hfound.symm.trans hid) hid'

/-- A job that is in no list is not taken. -/
lemma ne_of_dequeueAny {timeout : Option ℕ} {fuel : ℕ} {job : Job}
    (hlists : ∀ key, (trace id s).lists key = 0)
    (h : (dequeueAny version keys timeout fuel).run s = (.ok (some (job, key)), s')) :
    job.id ≠ id := by
  induction fuel generalizing s with
  | zero => cases h
  | succ fuel ih =>
    obtain ⟨key', id', s₁, hpop, ho⟩ := exists_popped h
    have hne : id' ≠ id := by
      rintro rfl
      have hcount := hlists key'
      simp [trace, hpop.taken] at hcount
    rcases run_dequeueAny_popped ho h with hnext | hid
    · rw [← hpop.trace_other hne] at hlists
      exact ih hlists hnext
    · rw [hid]
      exact hne

end Dequeue

end Queue

/-! ## The work horse starts the job -/

namespace Worker

section Execution
variable {version : ℕ × ℕ × ℕ} {names : List QueueName} {name : QueueName} {self : Worker}
  {job : Job} {eid : ExecutionId} {now : Time} {s s₁ : Store}

/-- The worker once it has prepared an execution of the job. -/
def prepared (self : Worker) (job : Job) (eid : ExecutionId) (now : Time) : Worker :=
  { self with execution := some ⟨eid, job.id, now, now⟩ }

/-- The store when the function of the job has ended. -/
def performedStore (self : Worker) (job : Job) (eid : ExecutionId) (now : Time) (s : Store) :
    Store :=
  (Command.seq ((self.prepared job eid now).performCommands job now)).run
    ((Command.seq (self.prepareCommands job eid now)).run s)

/-- **The work horse removes the job from the intermediate queue.** -/
lemma running_performedStore (hnames : names.Perm self.queues) (hjob : job.origin = name)
    (hqueued : (trace job.id s).Queued name)
    (htaken : trace job.id s₁ = { trace job.id s with
      lists := fun k =>
        if Queue.HeldIn version (names.map queueKey) (queueKey name) k then 1 else 0 }) :
    (trace job.id (self.performedStore job eid now s₁)).Running name eid ∧
      (trace job.id (self.performedStore job eid now s₁)).plan = (trace job.id s).plan ∧
      (trace job.id (self.performedStore job eid now s₁)).results = (trace job.id s).results ∧
      (trace job.id (self.performedStore job eid now s₁)).status = some .started := by
  subst hjob
  unfold performedStore
  rw [trace_performCommands, trace_prepareCommands, htaken]
  refine ⟨⟨⟨hqueued.restorable, hqueued.origin, hqueued.notOwn⟩, fun key => ?_,
    hqueued.scheduled, ?_⟩, rfl, rfl, rfl⟩
  · dsimp only
    by_cases hsingle : (self.prepared job eid now).queues.length = 1
    · rw [if_pos hsingle]
      by_cases hkey : key = intermediateQueueKey (queueKey job.origin)
      · subst hkey
        rw [Function.update_self]
        split <;> rfl
      · rw [Function.update_of_ne hkey, if_neg fun hheld => hkey hheld.2]
    · -- with several queues nothing is held
      rw [if_neg hsingle, if_neg]
      rintro ⟨⟨hkeys, -⟩, -⟩
      have hlength := congrArg List.length hkeys
      rw [List.length_map, hnames.length_eq] at hlength
      exact hsingle hlength
  · simp [hqueued.wip]

end Execution

end Worker

/-! ## A scheduler moves the job -/

section Tick
variable {id : JobId} {queue : Queue} {now : Time} {s s' : Store}

/-- The job has been pushed to the queue. -/
def Trace.moved (t : Trace) (queue : Queue) : Trace :=
  Trace.listed { t with
    restorable := true
    origin := if queue.name = "" then t.origin else queue.name
    status := some .queued } queue.key

/-- Moving the job. -/
lemma trace_move {job : Job} (hr : Job.restore job.id (s.val (.job job.id)) = .ok job)
    (hdeferred : (trace job.id s).status ≠ some .deferred) (atFront : Bool) :
    trace job.id ((Command.seq (enqueueCommands queue job atFront now)).run s) =
      (trace job.id s).moved queue := by
  have hstatus : job.status ≠ .deferred := by
    intro heq
    rw [Job.restore_status hr] at heq
    cases hhash : (s.val (.job job.id)).status with
    | none =>
      rw [hhash] at heq
      cases heq
    | some status =>
      rw [hhash] at heq
      exact hdeferred (hhash.trans (congrArg some heq))
  have hplan : job.plan.over (trace job.id s).plan = (trace job.id s).plan := by
    rw [plan_of_restore hr]
    exact Plan.over_self _
  rw [trace_enqueueCommands queue hstatus, hplan]
  rfl

/-- Moving the jobs of a tick. -/
lemma trace_moveAll {ids : List JobId} {jobs : List Job} (hids : ids.Nodup)
    (h : List.Forall₂ (fun id job => Job.restore id (s.val (.job id)) = .ok job) ids jobs)
    (hdeferred : id ∈ ids → (trace id s).status ≠ some .deferred) :
    trace id ((Command.seq (jobs.flatMap fun job =>
      enqueueCommands queue job job.shouldEnqueueAtFront now)).run s) =
      if id ∈ ids then (trace id s).moved queue else trace id s := by
  induction ids generalizing jobs s with
  | nil =>
    cases h
    rfl
  | cons id' ids ih =>
    obtain ⟨hnotMem, hnodup⟩ := List.nodup_cons.mp hids
    obtain ⟨job, jobs, hr, hrest, rfl⟩ := List.forall₂_cons_left_iff.mp h
    obtain ⟨rfl, -⟩ := Job.restore_ok hr
    have hother : ∀ id'' ∈ ids, ((Command.seq (enqueueCommands queue job job.shouldEnqueueAtFront
        now)).run s).val (.job id'') = s.val (.job id'') := by
      intro id'' hmem
      have hne : id'' ≠ job.id := fun heq => hnotMem (heq ▸ hmem)
      simp [val_enqueueCommands, hne]
    rw [List.flatMap_cons, Command.seq_append_run]
    by_cases hid : job.id = id
    · subst hid
      have hfirst := @trace_move queue now s job hr (hdeferred List.mem_cons_self)
        job.shouldEnqueueAtFront
      rw [ih hnodup (restored_congr hother hrest) fun hmem => absurd hmem hnotMem,
        if_neg hnotMem, if_pos List.mem_cons_self, hfirst]
    · have hfirst : trace id ((Command.seq (enqueueCommands queue job job.shouldEnqueueAtFront
          now)).run s) = trace id s :=
        trace_seq (fun c hc s => trace_enqueueCommand_other hid (enqueueCommand_of_mem hc) s) s
      rw [ih hnodup (restored_congr hother hrest) fun hmem => by
        rw [hfirst]
        exact hdeferred (List.mem_cons_of_mem _ hmem), hfirst]
      simp [Ne.symm hid]

/-- The job has left the registry of scheduled jobs. -/
def Trace.unscheduled (t : Trace) (name : QueueName) : Trace :=
  { t with
    registries := fun kind' name' =>
      if kind' = .scheduled ∧ name' = name then none else t.registries kind' name' }

lemma trace_unschedule (name : QueueName) (ids : List JobId) :
    trace id ((Command.seq (ids.map fun id => zrem .scheduled name id)).run s) =
      if id ∈ ids then (trace id s).unscheduled name else trace id s := by
  have hval := val_flatMap_zrem name ids s
  have hkeep : ∀ k, (∀ kind name, k ≠ .registry kind name) →
      ((Command.seq (ids.map fun id => zrem .scheduled name id)).run s).val k = s.val k :=
    fun k hk => by rw [hval, Function.update_of_ne (hk _ _)]
  have hregistries : (trace id ((Command.seq (ids.map fun id =>
      zrem .scheduled name id)).run s)).registries = if id ∈ ids
        then ((trace id s).unscheduled name).registries else (trace id s).registries := by
    funext kind' name'
    by_cases hkey : kind' = .scheduled ∧ name' = name
    · obtain ⟨rfl, rfl⟩ := hkey
      by_cases hid : id ∈ ids <;>
        simp [trace, hval, ZSet.score_removeAll, hid, Trace.unscheduled]
    · have hne : Key.registry kind' name' ≠ .registry .scheduled name := by simpa using hkey
      by_cases hid : id ∈ ids <;> simp [trace, hval, hne, hid, Trace.unscheduled, hkey]
  by_cases hid : id ∈ ids
  · rw [if_pos hid] at hregistries ⊢
    ext1
    case registries => exact hregistries
    all_goals simp [trace, hkeep, Trace.unscheduled]
  · rw [if_neg hid] at hregistries ⊢
    ext1
    case registries => exact hregistries
    all_goals simp [trace, hkeep]

/-- A job that is due has a score in the registry of scheduled jobs. -/
lemma score_of_mem_dueIds {name : QueueName} (h : id ∈ dueIds name now s) :
    ∃ score : Score, (trace id s).registries .scheduled name = some score ∧ score ≤ (now : ℤ) := by
  obtain ⟨score, hmem, hrange⟩ := ZSet.mem_range.mp (List.mem_of_mem_take h)
  have hle : score ≤ ((now : ℤ) : Score) := by simpa using (Bool.and_eq_true_iff.mp hrange).2
  exact ⟨score, ZSet.score_eq_some.mpr hmem, hle⟩

/-- **A tick of one queue.** -/
lemma trace_enqueueDueJobs (queue : Queue) (now : Time)
    (h : id ∈ dueIds queue.name now s →
      (trace id s).restorable = true ∧ (trace id s).status ≠ some .deferred) :
    trace id ((enqueueDueJobs queue now).run s).2 = trace id s ∨
      id ∈ dueIds queue.name now s ∧ trace id ((enqueueDueJobs queue now).run s).2 =
        ((trace id s).moved queue).unscheduled queue.name := by
  have hexisting : id ∈ dueIds queue.name now s →
      id ∈ existing s (dueIds queue.name now s) := by
    intro hmem
    exact List.mem_filter.mpr ⟨hmem, by simpa using ne_default_of_data (h hmem).1⟩
  rw [enqueueDueJobs_eq, Prog.run_step, id_eq]
  by_cases hids : dueIds queue.name now s = []
  · exact .inl (by rw [if_pos hids]; rfl)
  · rw [if_neg hids, Prog.run_step, id_eq]
    cases hjobs : Job.restoreMany ((dueIds queue.name now s).map fun id =>
        (id, s.val (.job id))) with
    | error e => exact .inl rfl
    | ok jobs =>
      have hnodup : (existing s (dueIds queue.name now s)).Nodup :=
        ((ZSet.nodup_range _ _ _).sublist (List.take_sublist _ _)).filter _
      have hmove := @trace_moveAll id queue now s _ _ hnodup
        (restored_of_fetched (Job.restoreMany_ok hjobs)) fun hmem =>
          (h (List.mem_of_mem_filter hmem)).2
      dsimp only
      rw [Prog.run_exec, if_pos rfl, Prog.run_ret, tickCommands, Command.seq_append_run]
      by_cases hdue : id ∈ dueIds queue.name now s
      · right
        rw [trace_unschedule, if_pos hdue, hmove, if_pos (hexisting hdue)]
        exact ⟨hdue, rfl⟩
      · left
        have hnot : id ∉ existing s (dueIds queue.name now s) :=
          fun hmem => hdue (List.mem_of_mem_filter hmem)
        rw [trace_unschedule, if_neg hdue, hmove, if_neg hnot]

/-- A job that is scheduled stays where it is or, when it is due, is queued. -/
def Ticked (name : QueueName) (score now : Time) (t t' : Trace) : Prop :=
  t' = t ∨ score ≤ now ∧ t'.Queued name ∧ t'.plan = t.plan ∧ t'.results = t.results

/-- A job that is not due stays where it is. -/
lemma trace_enqueueDueJobs_of_none
    (hnone : ∀ name, (trace id s).registries .scheduled name = none) (queue : Queue) (now : Time) :
    trace id ((enqueueDueJobs queue now).run s).2 = trace id s := by
  have hnot : id ∉ dueIds queue.name now s := by
    intro hdue
    obtain ⟨score, hscore, -⟩ := score_of_mem_dueIds hdue
    rw [hnone] at hscore
    cases hscore
  rcases trace_enqueueDueJobs queue now (fun hdue => absurd hdue hnot) with heq | ⟨hdue, -⟩
  · exact heq
  · exact absurd hdue hnot

lemma Trace.Waiting.moved {name : QueueName} {score : Time} {t : Trace}
    (h : t.Waiting name score) (hq : queue.name = name) :
    ((t.moved queue).unscheduled queue.name).Queued name := by
  have horigin : (if name = "" then t.origin else name) = name := by rw [h.origin, origin_saved]
  subst hq
  refine ⟨⟨rfl, horigin, h.notOwn⟩, rfl, fun key => ?_, fun name' => ?_, h.wip⟩
  · by_cases hkey : key = queueKey queue.name
    · simp [Trace.unscheduled, Trace.moved, Trace.listed, Queue.key, hkey, h.lists]
    · simp [Trace.unscheduled, Trace.moved, Trace.listed, Queue.key, hkey, h.lists]
  · by_cases hname : name' = queue.name
    · simp [Trace.unscheduled, hname]
    · simp [Trace.unscheduled, Trace.moved, Trace.listed, hname, h.scheduled]

/-- **A tick of one queue and a job that is scheduled.** -/
lemma ticked_enqueueDueJobs {name : QueueName} {score : Time}
    (h : (trace id s).Waiting name score) (queue : Queue) (now : Time) :
    Ticked name score now (trace id s) (trace id ((enqueueDueJobs queue now).run s).2) := by
  have hdeferred : (trace id s).status ≠ some .deferred := by
    rw [h.status]
    exact fun heq => by cases heq
  rcases trace_enqueueDueJobs queue now (fun _ => ⟨h.restorable, hdeferred⟩) with heq | ⟨hdue, heq⟩
  · exact .inl heq
  · obtain ⟨score', hscore, hle⟩ := score_of_mem_dueIds hdue
    rw [h.scheduled] at hscore
    by_cases hq : queue.name = name
    · rw [if_pos hq] at hscore
      cases hscore
      refine .inr ⟨by exact_mod_cast hle, heq ▸ h.moved hq, ?_, ?_⟩
      · rw [heq]
        rfl
      · rw [heq]
        rfl
    · rw [if_neg hq] at hscore
      cases hscore

/-- Neither does a whole tick move it. -/
lemma trace_enqueueScheduledJobs_of_none
    (hnone : ∀ name, (trace id s).registries .scheduled name = none) (now : Time)
    (queues : List Queue) :
    trace id ((enqueueScheduledJobs now queues).run s).2 = trace id s := by
  induction queues generalizing s with
  | nil => rfl
  | cons queue queues ih =>
    have hfirst := trace_enqueueDueJobs_of_none hnone queue now
    rw [enqueueScheduledJobs, Prog.run_bind]
    generalize (enqueueDueJobs queue now).run s = o at hfirst
    obtain ⟨r, s₁⟩ := o
    cases r with
    | error e => exact hfirst
    | ok _ =>
      rw [← hfirst] at hnone ⊢
      exact ih hnone

/-- **A tick and a job that is scheduled.** -/
lemma ticked_enqueueScheduledJobs {name : QueueName} {score : Time}
    (h : (trace id s).Waiting name score) (now : Time) (queues : List Queue) :
    Ticked name score now (trace id s) (trace id ((enqueueScheduledJobs now queues).run s).2) := by
  induction queues generalizing s with
  | nil => exact .inl rfl
  | cons queue queues ih =>
    have hfirst := ticked_enqueueDueJobs h queue now
    rw [enqueueScheduledJobs, Prog.run_bind]
    generalize (enqueueDueJobs queue now).run s = o at hfirst
    obtain ⟨r, s₁⟩ := o
    cases r with
    | error e => exact hfirst
    | ok _ =>
      rcases hfirst with hsame | ⟨hle, hqueued, hplan, hresults⟩
      · dsimp only at hsame ⊢
        rw [← hsame] at h ⊢
        exact ih h
      · -- the job has been queued, and the other queues leave it there
        have hrest := trace_enqueueScheduledJobs_of_none hqueued.scheduled now queues
        exact .inr ⟨hle, hrest ▸ hqueued, by rw [hrest, hplan], by rw [hrest, hresults]⟩

end Tick

/-! ## Runs -/

/-- How a worker executes a job: the worker with the order of its queues, the Redis server, what user
code does, and the time. -/
structure JobAttempt where
  worker : Worker
  names : List QueueName
  version : ℕ × ℕ × ℕ
  timeout : Option ℕ
  dequeueFuel : ℕ
  outcome : Worker.Outcome
  userCode : Worker.UserCode
  eid : ExecutionId
  now : Time
  fuel : ℕ

/-- How an execution ends for the worker and, if the worker goes on, for the work horse. -/
abbrev Ending := Except PyError (Except PyError Bool × Worker)

/-- From `s` to `s'` a worker takes the job `id` from one of its queues and executes it. -/
inductive JobAttempt.Executes (self : JobAttempt) (id : JobId) (s : Store) : Ending → Store → Prop
  | intro {job : Job} {name : QueueName} {s₁ s' : Store} {r : Ending}
      (hnames : self.names.Perm self.worker.queues)
      (hdequeue : (Queue.dequeueAny self.version (self.names.map queueKey) self.timeout
        self.dequeueFuel).run s = (.ok (some (job, queueKey name)), s₁))
      (hid : job.id = id)
      (hexecute : (self.worker.executeJob job { name := name } self.outcome self.userCode self.eid
        self.now self.fuel).run s₁ = (r, s')) : Executes self id s r s'

/-- What the attempt comes to, if it takes the job from the store `s`. -/
def JobAttempt.ending (self : JobAttempt) (job : Job) (name : QueueName) (s : Store) :
    Ending × Store :=
  (self.worker.executeJob job { name := name } self.outcome self.userCode self.eid self.now
    self.fuel).run ((Queue.dequeueAny self.version (self.names.map queueKey) self.timeout
      self.dequeueFuel).run s).2

/-- What happens to the job `id` from the store `start` on: its executions, which are as `P` says,
the ticks of schedulers, and what is not about the job. The time is the last index but one. -/
inductive Run (id : JobId) (P : JobAttempt → Ending → Prop) (start : Store) :
    List JobAttempt → Time → Store → Prop
  | start (clock : Time) : Run id P start [] clock start
  | other {attempts : List JobAttempt} {clock clock' : Time} {s s' : Store}
      (h : Run id P start attempts clock s) (hclock : clock ≤ clock')
      (htrace : trace id s' = trace id s) : Run id P start attempts clock' s'
  | tick {attempts : List JobAttempt} {clock now : Time} {s : Store}
      (h : Run id P start attempts clock s) (hclock : clock ≤ now) (scheduler : RQScheduler) :
      Run id P start attempts now ((scheduler.enqueueScheduledJobs now).run s).2
  | execute {attempts : List JobAttempt} {clock : Time} {s s' : Store} {r : Ending}
      (h : Run id P start attempts clock s) (attempt : JobAttempt) (hP : P attempt r)
      (hclock : clock ≤ attempt.now) (hexecutes : attempt.Executes id s r s') :
      Run id P start (attempts ++ [attempt]) attempt.now s'

/-- What the handler of an outcome is given: the worker with its execution, and the job. -/
structure JobAttempt.Hands (attempt : JobAttempt) (name : QueueName) (t : Trace) (horse : Worker)
    (job : Job) : Prop where
  execution : horse.execution = some ⟨attempt.eid, job.id, attempt.now, attempt.now⟩
  stoppedJobId : horse.stoppedJobId = attempt.worker.stoppedJobId
  defaultHandler :
    horse.disableDefaultExceptionHandler = attempt.worker.disableDefaultExceptionHandler
  zone : horse.zone = attempt.worker.zone
  startedAt : job.startedAt = some attempt.now
  endedAt : job.endedAt = some attempt.now
  ttl : job.ttl ≠ some 0
  status : job.status ≠ .deferred
  origin : job.origin = name
  plan : job.plan = t.plan

/-- The handler of an outcome is called with the job `id`, which the trace `t` is about. -/
structure JobAttempt.Handling (attempt : JobAttempt) (id : JobId) (name : QueueName) (t : Trace)
    (horse : Worker) (job : Job) (s : Store) : Prop extends Hands attempt name t horse job where
  id_eq : job.id = id
  running : (trace job.id s).Running name attempt.eid
  plan_eq : (trace job.id s).plan = t.plan
  results_eq : (trace job.id s).results = t.results
  stored : (trace job.id s).status = some .started

section JobAttempt
variable {attempt : JobAttempt} {id : JobId} {name : QueueName} {s s' : Store} {r : Ending}

/-- **What an execution of a queued job comes to.** -/
lemma JobAttempt.Executes.queued (h : attempt.Executes id s r s')
    (hqueued : (trace id s).Queued name) :
    ∃ job s₁, job.id = id ∧ job.ttl ≠ some 0 ∧ job.origin = name ∧
      job.plan = (trace id s).plan ∧
      (attempt.worker.executeJob job { name := name } attempt.outcome attempt.userCode attempt.eid
        attempt.now attempt.fuel).run s₁ = (r, s') ∧
      (trace id (attempt.worker.performedStore job attempt.eid attempt.now s₁)).Running name
        attempt.eid ∧
      (trace id (attempt.worker.performedStore job attempt.eid attempt.now s₁)).plan =
        (trace id s).plan ∧
      (trace id (attempt.worker.performedStore job attempt.eid attempt.now s₁)).results =
        (trace id s).results ∧
      (trace id (attempt.worker.performedStore job attempt.eid attempt.now s₁)).status =
        some .started := by
  obtain ⟨hnames, hdequeue, hid, hexecute⟩ := h
  next job name' s₁ =>
  obtain ⟨hkey, hrestore, htaken⟩ := Queue.trace_dequeueAny attempt.timeout attempt.dequeueFuel
    hqueued hid hdequeue
  obtain rfl : name' = name := queueKey_inj.mp hkey
  subst hid
  have hjob : job.origin = name' := (origin_of_restore hrestore).trans hqueued.origin
  exact ⟨job, s₁, rfl, (Job.restore_ok hrestore).2, hjob, plan_of_restore hrestore, hexecute,
    Worker.running_performedStore hnames hjob hqueued htaken⟩

/-- The worker that the work horse hands over. -/
def JobAttempt.horse (attempt : JobAttempt) (job : Job) : Worker :=
  { attempt.worker.prepared job attempt.eid attempt.now with currentJobWorkingTime := 0 }

/-- The job that the work horse hands over. -/
def JobAttempt.horseJob (attempt : JobAttempt) (job : Job) (status : JobStatus)
    (result : Option String) : Job :=
  { (attempt.worker.prepared job attempt.eid attempt.now).performed job status attempt.now with
    result := result }

lemma JobAttempt.hands {job : Job} {t : Trace} (ht : job.ttl ≠ some 0) (hjob : job.origin = name)
    (hplan : job.plan = t.plan) {status : JobStatus} (hstatus : status ≠ .deferred)
    (result : Option String) :
    attempt.Hands name t (attempt.horse job) (attempt.horseJob job status result) :=
  ⟨rfl, rfl, rfl, rfl, rfl, rfl, ht, hstatus, hjob, hplan⟩

/-- **An execution whose function returns a `Retry`.** -/
lemma JobAttempt.Executes.retry {retry : Retry} (h : attempt.Executes id s r s')
    (houtcome : attempt.outcome = .retry retry) (hqueued : (trace id s).Queued name) :
    ∃ self job s₁, attempt.Handling id name (trace id s) self job s₁ ∧
      ∀ ended s₂, (self.handleJobRetry job { name := name } retry
        ⟨attempt.eid, id, attempt.now, attempt.now⟩ attempt.now attempt.fuel).run s₁ =
          (.ok ended, s₂) →
        (∃ self', r = .ok (.ok true, self')) ∧ trace id s' = trace id s₂ := by
  obtain ⟨job, s₁, rfl, ht, hjob, hplan, hexecute, hrunning, hplan', hresults, hstored⟩ :=
    h.queued hqueued
  refine ⟨attempt.horse job, attempt.horseJob job .started (some "Retry"), _,
    ⟨JobAttempt.hands ht hjob hplan (by simp) _, rfl, hrunning, hplan', hresults,
      hstored⟩,
    fun ended s₂ hhandle => ?_⟩
  obtain ⟨self', s₃, hexecuted, hend⟩ := Worker.run_executeJob
    (Worker.run_performJob_retry rfl attempt.userCode hhandle)
  rw [houtcome, hexecuted] at hexecute
  cases hexecute
  exact ⟨⟨self', rfl⟩, hend⟩

/-- **An execution whose function raises an exception.** -/
lemma JobAttempt.Executes.raise {excString : String} (h : attempt.Executes id s r s')
    (houtcome : attempt.outcome = .raised excString)
    (hhandler : attempt.userCode.exceptionHandler = none) (hqueued : (trace id s).Queued name) :
    ∃ self job s₁, attempt.Handling id name (trace id s) self job s₁ ∧
      ∀ ended s₂, (self.handleJobFailure job { name := name }
        (attempt.userCode.failureCallback.getD excString) attempt.now attempt.fuel).run s₁ =
          (.ok ended, s₂) →
        (∃ self', r = .ok (.ok false, self')) ∧ trace id s' = trace id s₂ := by
  obtain ⟨job, s₁, rfl, ht, hjob, hplan, hexecute, hrunning, hplan', hresults, hstored⟩ :=
    h.queued hqueued
  refine ⟨attempt.horse job, attempt.horseJob job .failed job.result, _,
    ⟨JobAttempt.hands ht hjob hplan (by simp) _, rfl, hrunning, hplan', hresults,
      hstored⟩,
    fun ended s₂ hhandle => ?_⟩
  obtain ⟨self', s₃, hexecuted, hend⟩ := Worker.run_executeJob
    (Worker.run_performJob_raised hhandler hhandle)
  rw [houtcome, hexecuted] at hexecute
  cases hexecute
  exact ⟨⟨self', rfl⟩, hend⟩

/-- A job that is in no list is not executed. -/
lemma JobAttempt.Executes.absurd_of_lists (h : attempt.Executes id s r s')
    (hlists : ∀ key, (trace id s).lists key = 0) : False := by
  obtain ⟨-, hdequeue, hid, -⟩ := h
  exact Queue.ne_of_dequeueAny hlists hdequeue hid

end JobAttempt

/-! ## Courses -/

/-- How the executions of a job follow each other: how many there are, what the job is told to do
after `k` executions, the delay between the `k`-th execution and the next, and where it ends. -/
structure Course where
  name : QueueName
  total : ℕ
  plan : ℕ → Plan
  delay : ℕ → ℕ
  Done : Trace → Prop

/-- The delays between executions are at least those of the course. -/
def Course.Spaced (self : Course) (attempts : List JobAttempt) : Prop :=
  ∀ (k : ℕ) (a b : JobAttempt), attempts[k]? = some a → attempts[k + 1]? = some b →
    a.now + self.delay (k + 1) ≤ b.now

/-- Where the job is after the given executions, at the given time. -/
inductive Course.Stage (self : Course) (attempts : List JobAttempt) (clock : Time) (t : Trace) : Prop
  | queued (hlt : attempts.length < self.total) (hplan : t.plan = self.plan attempts.length)
      (hqueued : t.Queued self.name)
      (hdue : ∀ last ∈ attempts.getLast?, last.now + self.delay attempts.length ≤ clock)
  | waiting (score : Time) (hlt : attempts.length < self.total)
      (hplan : t.plan = self.plan attempts.length) (hwaiting : t.Waiting self.name score)
      (hscore : ∀ last ∈ attempts.getLast?, score = last.now + self.delay attempts.length)
  | done (hlength : attempts.length = self.total) (hdone : self.Done t)

/-- The job `id` takes the course if its executions are as `P` says. -/
structure Course.Follows (course : Course) (id : JobId) (P : JobAttempt → Ending → Prop) : Prop where
  again {k : ℕ} (hk : k + 1 < course.total) {attempt : JobAttempt} {s s' : Store} {r : Ending}
    (hqueued : (trace id s).Queued course.name) (hplan : (trace id s).plan = course.plan k)
    (hP : P attempt r) (h : attempt.Executes id s r s') :
    (trace id s').Delayed course.name attempt.now (course.delay (k + 1)) ∧
      (trace id s').plan = course.plan (k + 1)
  last {k : ℕ} (hk : k + 1 = course.total) {attempt : JobAttempt} {s s' : Store} {r : Ending}
    (hqueued : (trace id s).Queued course.name) (hplan : (trace id s).plan = course.plan k)
    (hP : P attempt r) (h : attempt.Executes id s r s') : course.Done (trace id s')
  done {t : Trace} (h : course.Done t) :
    (∀ key, t.lists key = 0) ∧ ∀ name, t.registries .scheduled name = none

section Course
variable {course : Course} {id : JobId} {P : JobAttempt → Ending → Prop} {start s : Store}
  {attempts : List JobAttempt} {clock : Time}

lemma Course.Stage.length_le {t : Trace} (h : course.Stage attempts clock t) :
    attempts.length ≤ course.total := by
  cases h with
  | queued hlt => exact hlt.le
  | waiting score hlt => exact hlt.le
  | done hlength => exact hlength.le

/-- Time passes. -/
lemma Course.Stage.later {t : Trace} (h : course.Stage attempts clock t) {clock' : Time}
    (hclock : clock ≤ clock') : course.Stage attempts clock' t := by
  cases h with
  | queued hlt hplan hqueued hdue =>
    exact .queued hlt hplan hqueued fun last hlast => (hdue last hlast).trans hclock
  | waiting score hlt hplan hwaiting hscore => exact .waiting score hlt hplan hwaiting hscore
  | done hlength hdone => exact .done hlength hdone

/-- A tick of a scheduler. -/
lemma Course.Stage.tick (hfollows : course.Follows id P)
    (h : course.Stage attempts clock (trace id s)) {now : Time} (hclock : clock ≤ now)
    (scheduler : RQScheduler) :
    course.Stage attempts now (trace id ((scheduler.enqueueScheduledJobs now).run s).2) := by
  have hrun : ((scheduler.enqueueScheduledJobs now).run s).2 = ((enqueueScheduledJobs now
      (scheduler.prepareRegistries.scheduledJobRegistries.map fun name => { name := name })).run
      s).2 := by
    unfold RQScheduler.enqueueScheduledJobs
    dsimp only
    rw [Prog.run_bind]
    split
    · next heq =>
      rw [heq]
      rfl
    · next heq => rw [heq]
  rw [hrun]
  generalize scheduler.prepareRegistries.scheduledJobRegistries.map _ = queues
  cases h with
  | queued hlt hplan hqueued hdue =>
    rw [trace_enqueueScheduledJobs_of_none hqueued.scheduled]
    exact .queued hlt hplan hqueued fun last hlast => (hdue last hlast).trans hclock
  | done hlength hdone =>
    rw [trace_enqueueScheduledJobs_of_none (hfollows.done hdone).2]
    exact .done hlength hdone
  | waiting score hlt hplan hwaiting hscore =>
    rcases ticked_enqueueScheduledJobs hwaiting now queues with hsame | ⟨hle, hqueued, hplan', -⟩
    · rw [hsame]
      exact .waiting score hlt hplan hwaiting hscore
    · -- the job was due
      exact .queued hlt (hplan'.trans hplan) hqueued fun last hlast => by
        rw [← hscore last hlast]
        exact hle

/-- Only a job that is queued is executed. -/
lemma Course.Stage.queued_of_executes (hfollows : course.Follows id P)
    (h : course.Stage attempts clock (trace id s)) {attempt : JobAttempt} {r : Ending} {s' : Store}
    (hexecutes : attempt.Executes id s r s') : attempts.length < course.total ∧
      (trace id s).plan = course.plan attempts.length ∧ (trace id s).Queued course.name ∧
      ∀ last ∈ attempts.getLast?, last.now + course.delay attempts.length ≤ clock := by
  cases h with
  | queued hlt hplan hqueued hdue => exact ⟨hlt, hplan, hqueued, hdue⟩
  | waiting score hlt hplan hwaiting hscore =>
    exact (hexecutes.absurd_of_lists hwaiting.lists).elim
  | done hlength hdone => exact (hexecutes.absurd_of_lists (hfollows.done hdone).1).elim

/-- An execution. -/
lemma Course.Stage.execute (hfollows : course.Follows id P)
    (h : course.Stage attempts clock (trace id s)) {attempt : JobAttempt} {r : Ending} {s' : Store}
    (hP : P attempt r) (hexecutes : attempt.Executes id s r s') :
    course.Stage (attempts ++ [attempt]) attempt.now (trace id s') := by
  obtain ⟨hlt, hplan, hqueued, -⟩ := h.queued_of_executes hfollows hexecutes
  have hlength : (attempts ++ [attempt]).length = attempts.length + 1 := by simp
  have hlast : ∀ last ∈ (attempts ++ [attempt]).getLast?, last = attempt := by simp
  by_cases hk : attempts.length + 1 < course.total
  · obtain ⟨hdelayed, hplan'⟩ := hfollows.again hk hqueued hplan hP hexecutes
    unfold Trace.Delayed at hdelayed
    split at hdelayed
    · next h0 =>
      refine .queued (by rwa [hlength]) (by rwa [hlength]) hdelayed fun last hmem => ?_
      rw [hlast last hmem, hlength, h0]
      simp
    · refine .waiting _ (by rwa [hlength]) (by rwa [hlength]) hdelayed fun last hmem => ?_
      rw [hlast last hmem, hlength]
  · have hend : attempts.length + 1 = course.total := by omega
    exact .done (hlength.trans hend) (hfollows.last hend hqueued hplan hP hexecutes)

/-- The time of the next execution. -/
lemma Course.Spaced.append (h : course.Spaced attempts) {attempt : JobAttempt}
    (hdue : ∀ last ∈ attempts.getLast?, last.now + course.delay attempts.length ≤ attempt.now) :
    course.Spaced (attempts ++ [attempt]) := by
  intro k a b ha hb
  have hk : k + 1 < (attempts ++ [attempt]).length := (List.getElem?_eq_some_iff.mp hb).1
  rw [List.length_append, List.length_singleton] at hk
  rw [List.getElem?_append_left (by omega)] at ha
  by_cases hend : k + 1 = attempts.length
  · -- the last two executions
    rw [hend, List.getElem?_concat_length] at hb
    obtain rfl : attempt = b := by simpa using hb
    have hlast : a ∈ attempts.getLast? := by
      rw [List.getLast?_eq_getElem?, ← hend]
      exact ha
    rw [hend]
    exact hdue a hlast
  · rw [List.getElem?_append_left (by omega)] at hb
    exact h k a b ha hb

end Course

end RedisQueue
