import Mathlib.Data.List.ReduceOption
import RedisQueue.Maintenance

/-!
# What the methods put into a pipeline

A pipeline that is not in immediate mode buffers every command it is given. The lemmas here say
which commands each method buffers, so that a transaction can be reasoned about as one list.

* `enqueueCommands`: moving a job to its queue;
* `persistCommands`, `cleanupCommands`: saving a job with its time to live;
* `tickCommands`: what a tick of the scheduler executes.
-/

namespace RedisQueue

variable {pipe : Pipeline Key Value}

lemma Client.command_buffer (h : pipe.immediate = false) (c : Command Key Value) :
    Client.command (some pipe) c = .ret (some (pipe.buffer [c])) := by
  simp [Client.command, Pipeline.command_eq_buffer h]

/-! ## Fetching -/

lemma Job.restore_ok {id : JobId} {h : JobHash} {job : Job} (hr : Job.restore id h = .ok job) :
    job.id = id ∧ job.ttl ≠ some 0 := by
  unfold Job.restore at hr
  split at hr
  · cases hr
  · cases hr
    refine ⟨rfl, fun ht => ?_⟩
    simp only [Option.map_eq_some_iff] at ht
    obtain ⟨ttl, -, h0⟩ := ht
    exact ttl.property h0

lemma Job.restore_isSome {id : JobId} {h : JobHash} {job : Job} (hr : Job.restore id h = .ok job) :
    h.data.isSome := by
  unfold Job.restore at hr
  split at hr
  · cases hr
  · next hdata => simp [hdata]

lemma Job.restore_dependencyIds {id : JobId} {h : JobHash} {job : Job}
    (hr : Job.restore id h = .ok job) : job.dependencyIds = h.dependencyIds.getD [] := by
  unfold Job.restore at hr
  split at hr
  · cases hr
  · cases hr
    rfl

lemma Job.restore_allows {id : JobId} {h : JobHash} {job : Job} (hr : Job.restore id h = .ok job) :
    job.allowDependencyFailures = h.allowDependencyFailures := by
  unfold Job.restore at hr
  split at hr
  · cases hr
  · cases hr
    rfl

lemma Job.restore_status {id : JobId} {h : JobHash} {job : Job} (hr : Job.restore id h = .ok job) :
    job.status = h.status.getD .created := by
  unfold Job.restore at hr
  split at hr
  · cases hr
  · cases hr
    rfl

lemma Job.restore_failureTtl {id : JobId} {h : JobHash} {job : Job}
    (hr : Job.restore id h = .ok job) : job.failureTtl = h.failureTtl := by
  unfold Job.restore at hr
  split at hr
  · cases hr
  · cases hr
    rfl

lemma Job.restore_retriesLeft {id : JobId} {h : JobHash} {job : Job}
    (hr : Job.restore id h = .ok job) : job.retriesLeft = h.retriesLeft := by
  unfold Job.restore at hr
  split at hr
  · cases hr
  · cases hr
    rfl

lemma Job.restore_metadata {id : JobId} {h : JobHash} {job : Job}
    (hr : Job.restore id h = .ok job) : job.metadata = h.metadata := by
  unfold Job.restore at hr
  split at hr
  · cases hr
  · cases hr
    rfl

lemma Job.exists_restore (id : JobId) {h : JobHash} (hd : h.data.isSome) :
    ∃ job, Job.restore id h = .ok job := by
  obtain ⟨data, hdata⟩ := Option.isSome_iff_exists.mp hd
  unfold Job.restore
  rw [hdata]
  exact ⟨_, rfl⟩

lemma ne_default_of_data {h : JobHash} (hd : h.data.isSome) : h ≠ default := by
  rintro rfl
  cases hd

lemma orElse_of_eq {α : Type} {a b c : Option α} (hc : c = b) (ha : a = b) : (a <|> c) = c := by
  subst hc ha
  cases a <;> rfl

/-- The outcome of `Job.get_status` in the store `s`. -/
def Job.statusIn (self : Job) (s : Store) (refresh : Bool) : Except PyError (JobStatus × Job) :=
  if refresh then
    match (s.val (.job self.id)).status with
    | none => .error (.invalidJobOperation s!"Failed to retrieve status for job: {self.id}")
    | some status => .ok (status, { self with status := status })
  else .ok (self.status, self)

@[simp] lemma Job.run_getStatus (self : Job) (refresh : Bool) (s : Store) :
    (self.getStatus refresh).run s = (self.statusIn s refresh, s) := by
  unfold Job.getStatus Job.statusIn
  cases refresh with
  | false => rfl
  | true =>
    rw [if_pos rfl, if_pos rfl, Prog.run_bind_ok (Prog.run_read _ _)]
    cases (s.val (.job self.id)).status with
    | none => rfl
    | some status => rfl

/-- What `Job.fetch_many` makes of one hash. -/
inductive Fetched : JobId × JobHash → Option Job → Prop where
  | missing {id : JobId} : Fetched (id, default) none
  | found {id : JobId} {data : JobHash} {job : Job} (hne : data ≠ default)
      (hjob : Job.restore id data = .ok job) : Fetched (id, data) (some job)

lemma Job.restoreMany_ok {l : List (JobId × JobHash)} {jobs : List (Option Job)}
    (h : Job.restoreMany l = .ok jobs) : List.Forall₂ Fetched l jobs := by
  induction l generalizing jobs with
  | nil =>
    cases h
    exact .nil
  | cons x rest ih =>
    obtain ⟨id, data⟩ := x
    unfold Job.restoreMany at h
    split at h
    · next hdata =>
      cases hrest : Job.restoreMany rest with
      | error e => rw [hrest] at h; cases h
      | ok jobs' =>
        rw [hrest] at h
        cases h
        exact .cons (hdata ▸ .missing) (ih hrest)
    · next hdata =>
      cases hjob : Job.restore id data with
      | error e => rw [hjob] at h; cases h
      | ok job =>
        cases hrest : Job.restoreMany rest with
        | error e => rw [hjob, hrest] at h; cases h
        | ok jobs' =>
          rw [hjob, hrest] at h
          cases h
          exact .cons (.found hdata hjob) (ih hrest)

/-- A job that is fetched comes from one of the hashes. -/
lemma mem_of_fetched {l : List (JobId × JobHash)} {jobs : List (Option Job)}
    (h : List.Forall₂ Fetched l jobs) {job : Job} (hj : some job ∈ jobs) :
    ∃ id data, (id, data) ∈ l ∧ data ≠ default ∧ Job.restore id data = .ok job := by
  induction h with
  | nil => simp at hj
  | cons hx _ ih =>
    rcases List.mem_cons.mp hj with heq | hj
    · cases hx with
      | missing => cases heq
      | found hne hjob =>
        cases heq
        exact ⟨_, _, List.mem_cons_self, hne, hjob⟩
    · obtain ⟨id, data, hmem, hok⟩ := ih hj
      exact ⟨id, data, List.mem_cons_of_mem _ hmem, hok⟩

/-- A hash that exists is fetched. -/
lemma fetched_of_mem {l : List (JobId × JobHash)} {jobs : List (Option Job)}
    (h : List.Forall₂ Fetched l jobs) {id : JobId} {data : JobHash} (hx : (id, data) ∈ l)
    (hne : data ≠ default) : ∃ job, some job ∈ jobs ∧ Job.restore id data = .ok job := by
  induction h with
  | nil => simp at hx
  | cons hf _ ih =>
    rcases List.mem_cons.mp hx with heq | hx
    · subst heq
      cases hf with
      | missing => exact absurd rfl hne
      | found _ hjob => exact ⟨_, List.mem_cons_self, hjob⟩
    · obtain ⟨job, hj, hok⟩ := ih hx
      exact ⟨job, List.mem_cons_of_mem _ hj, hok⟩

/-! ## Saving -/

lemma Job.setStatus_buffer (h : pipe.immediate = false) (job : Job) (status : JobStatus) :
    job.setStatus status (some pipe) =
      .ret ({ job with status := status },
        some (pipe.buffer [hset job.id { status := some status }])) := by
  simp [Job.setStatus, Client.command_buffer h]

lemma Job.save_buffer (h : pipe.immediate = false) (job : Job) (includeMeta : Bool) :
    job.save (some pipe) includeMeta =
      .ret (some (pipe.buffer [hset job.id (job.toDict includeMeta)])) := by
  simp [Job.save, Client.command_buffer h]

/-- The `EXPIRE`s of `Job.cleanup`. -/
def cleanupCommands (id : JobId) (ttl : Option ℤ) (now : Time) : List (Command Key Value) :=
  if 0 < ttl.getD 0 then
    [.expire (.job id) (now + ttl.getD 0), .expire (.dependents id) (now + ttl.getD 0),
      .expire (.dependencies id) (now + ttl.getD 0)]
  else []

lemma Job.cleanup_buffer (h : pipe.immediate = false) (job : Job) {ttl : Option ℤ}
    (ht : ttl ≠ some 0) (removeFromQueue : Bool) (now : Time) :
    job.cleanup ttl (some pipe) removeFromQueue now =
      .ret (job, some (pipe.buffer (cleanupCommands job.id ttl now))) := by
  cases ttl with
  | none => simp [Job.cleanup, cleanupCommands]
  | some ttl =>
    have h0 : ttl ≠ 0 := fun h0 => ht (by rw [h0])
    by_cases hpos : 0 < ttl
    · simp [Job.cleanup, cleanupCommands, h0, hpos, Client.command_buffer, h]
    · simp [Job.cleanup, cleanupCommands, h0, hpos]

/-- The commands of `Queue._persist_job`. -/
def persistCommands (job : Job) (status : JobStatus) (now : Time) : List (Command Key Value) :=
  [hset job.id { status := some status }, hset job.id ({ job with status := status }.toDict true)] ++
    cleanupCommands job.id job.ttl now

lemma Queue.persistJob_buffer (h : pipe.immediate = false) {job : Job} (ht : job.ttl ≠ some 0)
    (status : JobStatus) (now : Time) :
    Queue._persistJob job (some pipe) status now =
      .ret ({ job with status := status }, some (pipe.buffer (persistCommands job status now))) := by
  simp [Queue._persistJob, Job.setStatus_buffer, Job.save_buffer, Job.cleanup_buffer, h, ht,
    persistCommands]

lemma saved_update_toDict (job : Job) (includeMeta : Bool) (h : JobHash) :
    (h.update (job.toDict includeMeta)).data = some job.data := rfl

@[simp] lemma val_saveCommands (job : Job) (now : Time) (s : Store) :
    ((Command.seq (saveCommands job now)).run s).val =
      Function.update s.val (.job job.id) ((s.val (.job job.id)).update (job.toDict true)) := by
  unfold saveCommands
  split <;> simp

/-! ## Enqueueing -/

/-- The commands of `Queue._enqueue_job` on a pipeline. -/
def enqueueCommands (queue : Queue) (job : Job) (atFront : Bool) (now : Time) :
    List (Command Key Value) :=
  (if job.status = .deferred then [zrem .deferred queue.name job.id] else []) ++
    persistCommands (queue._prepareForQueue job now) .queued now ++
    [push queue.key atFront job.id]

lemma Queue.enqueueOnPipeline_buffer (h : pipe.immediate = false) (queue : Queue) {job : Job}
    (ht : job.ttl ≠ some 0) (isDeferred atFront : Bool) (now : Time) :
    queue.enqueueOnPipeline job isDeferred (some pipe) atFront now =
      .ret ({ job with status := .queued }, some (pipe.buffer
        ((if isDeferred then [zrem .deferred queue.name job.id] else []) ++
          persistCommands job .queued now ++ [push queue.key atFront job.id]))) := by
  cases isDeferred <;>
    simp [Queue.enqueueOnPipeline, Queue.persistJob_buffer, Queue.pushJobId, Client.command_buffer,
      h, ht]

lemma Queue.enqueueJob_buffer (h : pipe.immediate = false) (queue : Queue) {job : Job}
    (ht : job.ttl ≠ some 0) (atFront : Bool) (now : Time) :
    queue._enqueueJob job (some pipe) atFront false now =
      .ret (queue._prepareForQueue job now,
        some (pipe.buffer (enqueueCommands queue job atFront now))) := by
  have ht' : (queue._prepareForQueue job now).ttl ≠ some 0 := ht
  simp only [Queue._enqueueJob, Bool.false_eq_true, if_false,
    Queue.enqueueOnPipeline_buffer h queue ht', enqueueCommands, beq_iff_eq]
  rfl

/-- The `ZADD` of a call that uses a pipeline comes before its `EXEC`. -/
lemma Queue.scheduleOnPipeline_eq (h : pipe.immediate = false) (queue : Queue) {job : Job}
    (ht : job.ttl ≠ some 0) (datetime now : Time) :
    queue.scheduleOnPipeline job datetime (some pipe) now =
      .step (zadd .scheduled queue.name job.id (datetime : ℤ)).run fun _ =>
        .ret ({ job with status := .scheduled }, some (pipe.buffer
          ((.alter .queues fun q => q.insert queue.key) :: persistCommands job .scheduled now))) := by
  simp [Queue.scheduleOnPipeline, Client.command_buffer, h, Queue.persistJob_buffer, ht,
    Queue.scheduledRegistrySchedule, Prog.perform]

/-- The commands that move `job` to `queue`, one by one. -/
inductive EnqueueCommand (queue : Queue) (job : Job) (now : Time) : Command Key Value → Prop where
  | undefer : EnqueueCommand queue job now (zrem .deferred queue.name job.id)
  | status : EnqueueCommand queue job now (hset job.id { status := some .queued })
  | save : EnqueueCommand queue job now
      (hset job.id ((queue._prepareForQueue job now).toDict true))
  | expire (k : Key) (t : Time) : EnqueueCommand queue job now (.expire k t)
  | push (atFront : Bool) : EnqueueCommand queue job now (push queue.key atFront job.id)

lemma enqueueCommand_of_mem {queue : Queue} {job : Job} {atFront : Bool} {now : Time}
    {c : Command Key Value} (hc : c ∈ enqueueCommands queue job atFront now) :
    EnqueueCommand queue job now c := by
  simp only [enqueueCommands, persistCommands, cleanupCommands, List.mem_append, List.mem_cons,
    List.not_mem_nil, or_false] at hc
  rcases hc with (hc | (rfl | rfl) | hc) | rfl
  · split at hc
    · obtain rfl := List.mem_singleton.mp hc
      exact .undefer
    · simp at hc
  · exact .status
  · exact .save
  · split at hc
    · simp only [List.mem_cons, List.not_mem_nil, or_false] at hc
      rcases hc with rfl | rfl | rfl <;> exact .expire _ _
    · simp at hc
  · exact .push _

/-! ## Scheduler ticks -/

/-- The commands of a tick that has read `ids` and fetched `jobs`. -/
def tickCommands (queue : Queue) (ids : List JobId) (jobs : List (Option Job)) (now : Time) :
    List (Command Key Value) :=
  (jobs.reduceOption.flatMap fun job => enqueueCommands queue job job.shouldEnqueueAtFront now) ++
    ids.map fun id => zrem .scheduled queue.name id

lemma mem_tickCommands {queue : Queue} {ids : List JobId} {jobs : List (Option Job)} {now : Time}
    {c : Command Key Value} (hc : c ∈ tickCommands queue ids jobs now) :
    (∃ job, some job ∈ jobs ∧ EnqueueCommand queue job now c) ∨
      ∃ id ∈ ids, c = zrem .scheduled queue.name id := by
  rcases List.mem_append.mp hc with hc | hc
  · obtain ⟨job, hjob, hc⟩ := List.mem_flatMap.mp hc
    exact .inl ⟨job, List.reduceOption_mem_iff.mp hjob, enqueueCommand_of_mem hc⟩
  · obtain ⟨id, hid, rfl⟩ := List.mem_map.mp hc
    exact .inr ⟨id, hid, rfl⟩

lemma push_mem_tickCommands {queue : Queue} {jobs : List (Option Job)} {job : Job}
    (hjob : some job ∈ jobs) (ids : List JobId) (now : Time) :
    push queue.key job.shouldEnqueueAtFront job.id ∈ tickCommands queue ids jobs now := by
  refine List.mem_append_left _ (List.mem_flatMap.mpr ⟨job, ?_, ?_⟩)
  · exact List.reduceOption_mem_iff.mpr hjob
  · simp [enqueueCommands]

lemma enqueueFetched_buffer (h : pipe.immediate = false) (queue : Queue) (now : Time)
    {jobs : List (Option Job)} (ht : ∀ job, some job ∈ jobs → job.ttl ≠ some 0) :
    enqueueFetched queue now jobs (some pipe) = .ret (some (pipe.buffer
      (jobs.reduceOption.flatMap fun job =>
        enqueueCommands queue job job.shouldEnqueueAtFront now))) := by
  induction jobs generalizing pipe with
  | nil => simp [enqueueFetched]
  | cons job jobs ih =>
    have htail : ∀ job, some job ∈ jobs → job.ttl ≠ some 0 := fun j hj =>
      ht j (List.mem_cons_of_mem _ hj)
    cases job with
    | none => simpa [enqueueFetched] using ih h htail
    | some job =>
      have hjob : job.ttl ≠ some 0 := ht job List.mem_cons_self
      have hrest := @ih (pipe.buffer (enqueueCommands queue job job.shouldEnqueueAtFront now)) h htail
      simp [enqueueFetched, Queue.enqueueJob_buffer h queue hjob, hrest]

lemma removeFetched_buffer (h : pipe.immediate = false) (name : QueueName) (ids : List JobId) :
    removeFetched name ids (some pipe) =
      .ret (some (pipe.buffer (ids.map fun id => zrem .scheduled name id))) := by
  induction ids generalizing pipe with
  | nil => simp [removeFetched]
  | cons id ids ih => simp [removeFetched, Client.command_buffer h, ih, h]

/-- A tick reads the due ids, fetches their jobs and executes one transaction. -/
lemma enqueueDueJobs_eq (queue : Queue) (now : Time) :
    enqueueDueJobs queue now = .step id fun s =>
      if dueIds queue.name now s = [] then .ret () else .step id fun s' =>
        match Job.restoreMany ((dueIds queue.name now s).map fun id => (id, s'.val (.job id))) with
        | .error e => .throw e
        | .ok jobs => .exec false (fun _ => true)
            (Command.seq (tickCommands queue (dueIds queue.name now s) jobs now)).run
            fun _ => .ret () := by
  simp only [enqueueDueJobs, getJobsToSchedule, Job.fetchMany, Prog.read, Prog.step_bind,
    Prog.ret_bind]
  congr 1
  funext s
  by_cases hids : dueIds queue.name now s = []
  · simp [hids]
  · simp only [if_neg hids]
    congr 1
    funext s'
    cases hjobs : Job.restoreMany ((dueIds queue.name now s).map fun id =>
        (id, s'.val (.job id))) with
    | error e => rfl
    | ok jobs =>
      have ht : ∀ job, some job ∈ jobs → job.ttl ≠ some 0 := fun job hj => by
        obtain ⟨id, data, -, -, hok⟩ := mem_of_fetched (Job.restoreMany_ok hjobs) hj
        exact (Job.restore_ok hok).2
      simp [enqueueFetched_buffer Pipeline.immediate_empty queue now ht, removeFetched_buffer,
        Pipeline.execute_of_unwatched, tickCommands, hids]

end RedisQueue
