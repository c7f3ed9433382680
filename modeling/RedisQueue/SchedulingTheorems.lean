import RedisQueue.Commands

/-!
# Scheduling against a running scheduler

`Queue.schedule_job` and any number of scheduler ticks on the same queue, interleaved step by step.

* `Kept`: the hash is saved, and the id is scheduled or in the queue;
* `tick_safe`: whatever happens between its steps, a tick loses no job that is kept;
* `neverLoses_iff`: the calls of `schedule_job` that no tick can come between.
-/

namespace RedisQueue

open Prog

section Scheduling
variable {queue : Queue} {jobId : JobId}

/-- The hash of the job is saved. -/
def Saved (jobId : JobId) (s : Store) : Prop := (s.val (.job jobId)).data.isSome

/-- The job exists, and its id is scheduled or has been pushed to the queue. -/
def Kept (queue : Queue) (jobId : JobId) (s : Store) : Prop :=
  Saved jobId s ∧
    (jobId ∈ s.val (.registry .scheduled queue.name) ∨ jobId ∈ s.val (.list queue.key))

/-- Something of the job is in the store. -/
def Visible (queue : Queue) (jobId : JobId) (s : Store) : Prop :=
  s.val (.job jobId) ≠ default ∨ jobId ∈ s.val (.registry .scheduled queue.name) ∨
    jobId ∈ s.val (.list queue.key)

instance (s : Store) : Decidable (Kept queue jobId s) :=
  inferInstanceAs (Decidable ((s.val (.job jobId)).data.isSome = true ∧
    (jobId ∈ s.val (.registry .scheduled queue.name) ∨ jobId ∈ s.val (.list queue.key))))

instance (s : Store) : Decidable (Visible queue jobId s) :=
  inferInstanceAs (Decidable (s.val (.job jobId) ≠ default ∨
    jobId ∈ s.val (.registry .scheduled queue.name) ∨ jobId ∈ s.val (.list queue.key)))

/-- What the processes do to the job: it is not lost, and if it appears it appears as a whole. -/
def NotLosing (queue : Queue) (jobId : JobId) (s s' : Store) : Prop :=
  (Kept queue jobId s → Kept queue jobId s') ∧
    (¬Visible queue jobId s → ¬Visible queue jobId s' ∨ Kept queue jobId s')

/-- What a tick does to the job: it is not lost, and it does not appear. -/
def Undisturbed (queue : Queue) (jobId : JobId) (s s' : Store) : Prop :=
  (Kept queue jobId s → Kept queue jobId s') ∧ (¬Visible queue jobId s → ¬Visible queue jobId s')

lemma Undisturbed.refl (s : Store) : Undisturbed queue jobId s s := ⟨fun h => h, fun h => h⟩

lemma Undisturbed.notLosing {s s' : Store} (h : Undisturbed queue jobId s s') :
    NotLosing queue jobId s s' := ⟨h.1, fun hs => .inl (h.2 hs)⟩

lemma NotLosing.refl (s : Store) : NotLosing queue jobId s s := ⟨fun h => h, fun h => .inl h⟩

lemma NotLosing.trans {s t u : Store} (h : NotLosing queue jobId s t)
    (h' : NotLosing queue jobId t u) : NotLosing queue jobId s u := by
  refine ⟨fun hs => h'.1 (h.1 hs), fun hs => ?_⟩
  rcases h.2 hs with ht | ht
  · exact h'.2 ht
  · exact .inr (h'.1 ht)

/-- A state in which the job is either absent or kept. -/
def Whole (queue : Queue) (jobId : JobId) (s : Store) : Prop :=
  ¬Visible queue jobId s ∨ Kept queue jobId s

lemma Saved.ne_default {s : Store} (h : Saved jobId s) : s.val (.job jobId) ≠ default := by
  intro h0
  rw [Saved, h0] at h
  cases h

lemma Kept.visible {s : Store} (h : Kept queue jobId s) : Visible queue jobId s :=
  .inl h.1.ne_default

lemma Whole.next {s s' : Store} (h : Whole queue jobId s) (hs : NotLosing queue jobId s s') :
    Whole queue jobId s' := by
  rcases h with h | h
  · exact hs.2 h
  · exact .inr (hs.1 h)

/-! ## What the commands of a tick do to the job -/

lemma update_data_isSome {h m : JobHash} (hd : h.data.isSome) : (h.update m).data.isSome := by
  cases hm : m.data with
  | none => simpa [JobHash.update, hm] using hd
  | some data => simp [JobHash.update, hm]

variable {job : Job} {now : Time} {c : Command Key Value} {s : Store}

lemma EnqueueCommand.saved (hc : EnqueueCommand queue job now c) (hs : Saved jobId s) :
    Saved jobId (c.run s) := by
  have hset : ∀ mapping, Saved jobId ((hset job.id mapping).run s) := fun mapping => by
    by_cases h : jobId = job.id
    · subst h
      simpa [Saved] using update_data_isSome hs
    · simpa [Saved, h] using hs
  cases hc with
  | undefer => simpa [Saved] using hs
  | status => exact hset _
  | save => exact hset _
  | expire k t => simpa [Saved] using hs
  | push atFront => simpa [Saved] using hs

lemma EnqueueCommand.inQueue (hc : EnqueueCommand queue job now c)
    (hs : jobId ∈ s.val (.list queue.key)) : jobId ∈ (c.run s).val (.list queue.key) := by
  cases hc with
  | undefer => simpa using hs
  | status => simpa using hs
  | save => simpa using hs
  | expire k t => simpa using hs
  | push atFront => simp [hs]

lemma EnqueueCommand.scheduled (hc : EnqueueCommand queue job now c) (s : Store) :
    (c.run s).val (.registry .scheduled queue.name) = s.val (.registry .scheduled queue.name) := by
  cases hc <;> simp

lemma EnqueueCommand.notVisible (hne : job.id ≠ jobId) (hc : EnqueueCommand queue job now c)
    (hs : ¬Visible queue jobId s) : ¬Visible queue jobId (c.run s) := by
  cases hc <;> simpa [Visible, hne.symm] using hs

section Tick
variable {ids : List JobId} {jobs : List (Option Job)}

lemma saved_tick (hs : Saved jobId s) :
    Saved jobId ((Command.seq (tickCommands queue ids jobs now)).run s) := by
  refine Command.seq_preserves (fun c hc s hs => ?_) hs
  rcases mem_tickCommands hc with ⟨job, -, hc⟩ | ⟨id, -, rfl⟩
  · exact hc.saved hs
  · simpa [Saved] using hs

lemma inQueue_tickCommand {c : Command Key Value} (hc : c ∈ tickCommands queue ids jobs now)
    {s : Store} (hs : jobId ∈ s.val (.list queue.key)) :
    jobId ∈ (c.run s).val (.list queue.key) := by
  rcases mem_tickCommands hc with ⟨job, -, hc⟩ | ⟨id, -, rfl⟩
  · exact hc.inQueue hs
  · simpa using hs

/-- A tick that has not read the id leaves it in the registry. -/
lemma scheduled_tick (hids : jobId ∉ ids)
    (hs : jobId ∈ s.val (.registry .scheduled queue.name)) :
    jobId ∈ ((Command.seq (tickCommands queue ids jobs now)).run s).val
      (.registry .scheduled queue.name) := by
  refine Command.seq_preserves
    (P := fun s : Store => jobId ∈ s.val (.registry .scheduled queue.name)) (fun c hc s hs => ?_) hs
  rcases mem_tickCommands hc with ⟨job, -, hc⟩ | ⟨id, hid, rfl⟩
  · rwa [hc.scheduled s]
  · have hne : jobId ≠ id := fun h => hids (h ▸ hid)
    simpa [hne] using hs

/-- The transaction of a tick that has fetched the job whenever it has read its id. -/
lemma undisturbed_tick (hjobs : ∀ job, some job ∈ jobs → job.id ∈ ids)
    (hkept : jobId ∈ ids → Kept queue jobId s ∧ ∃ job, some job ∈ jobs ∧ job.id = jobId) :
    Undisturbed queue jobId s ((Command.seq (tickCommands queue ids jobs now)).run s) := by
  by_cases hid : jobId ∈ ids
  · obtain ⟨hs, job, hjob, rfl⟩ := hkept hid
    have hpush := Command.seq_establishes (P := fun s : Store => job.id ∈ s.val (.list queue.key))
      (fun c hc s hs => inQueue_tickCommand hc hs) (push_mem_tickCommands hjob ids now)
      (fun s => by simp) s
    have hkept : Kept queue job.id ((Command.seq (tickCommands queue ids jobs now)).run s) :=
      ⟨saved_tick hs.1, .inr hpush⟩
    exact ⟨fun _ => hkept, fun h => absurd hs.visible h⟩
  · refine ⟨fun hs => ⟨saved_tick hs.1, ?_⟩, fun hs => ?_⟩
    · rcases hs.2 with h | h
      · exact .inl (scheduled_tick hid h)
      · exact .inr (Command.seq_preserves (P := fun s : Store => jobId ∈ s.val (.list queue.key))
          (fun c hc s hs => inQueue_tickCommand hc hs) h)
    · refine Command.seq_preserves (P := fun s => ¬Visible queue jobId s) (fun c hc s hs => ?_) hs
      rcases mem_tickCommands hc with ⟨job, hjob, hc⟩ | ⟨id, -, rfl⟩
      · exact hc.notVisible (fun h : job.id = jobId => hid (h ▸ hjobs job hjob)) hs
      · simp only [Visible, not_or, val_zrem] at hs ⊢
        simp [hs]

end Tick

/-! ## The steps of a tick -/

lemma scheduled_of_mem_dueIds {s : Store} {now : Time} (h : jobId ∈ dueIds queue.name now s) :
    jobId ∈ s.val (.registry .scheduled queue.name) := by
  obtain ⟨sc, hsc, -⟩ := ZSet.mem_range.mp (List.mem_of_mem_take h)
  exact ZSet.mem_iff_exists.mpr ⟨sc, hsc⟩

/-- Whatever happens between its steps, a tick loses no job. -/
theorem tick_safe (now : Time) {s : Store} (hs : Whole queue jobId s) :
    (enqueueDueJobs queue now).Safe (NotLosing queue jobId) (Undisturbed queue jobId)
      (fun _ _ => True) s := by
  rw [enqueueDueJobs_eq]
  intro s₁ h₁
  refine ⟨.refl _, ?_⟩
  dsimp only
  by_cases hids : dueIds queue.name now s₁ = []
  · rw [if_pos hids]
    trivial
  rw [if_neg hids]
  have hkept : jobId ∈ dueIds queue.name now s₁ → Kept queue jobId s₁ := fun hid =>
    (hs.next h₁).resolve_left fun h => h (.inr (.inl (scheduled_of_mem_dueIds hid)))
  generalize dueIds queue.name now s₁ = ids at hkept
  intro s₂ h₂
  refine ⟨.refl _, ?_⟩
  dsimp only
  cases hjobs : Job.restoreMany (ids.map fun id => (id, s₂.val (.job id))) with
  | error e => trivial
  | ok jobs =>
    have hfetched := Job.restoreMany_ok hjobs
    refine fun s₃ h₃ => ⟨fun _ => ⟨undisturbed_tick (fun job hjob => ?_) fun hid => ⟨?_, ?_⟩, trivial⟩,
      fun _ => trivial⟩
    · obtain ⟨id, data, hmem, -, hok⟩ := mem_of_fetched hfetched hjob
      obtain ⟨id', hid', heq⟩ := List.mem_map.mp hmem
      cases heq
      exact (Job.restore_ok hok).1 ▸ hid'
    · exact h₃.1 (h₂.1 (hkept hid))
    · have hsaved := (h₂.1 (hkept hid)).1
      obtain ⟨job, hjob, hok⟩ := fetched_of_mem hfetched (List.mem_map.mpr ⟨jobId, hid, rfl⟩)
        hsaved.ne_default
      exact ⟨job, hjob, (Job.restore_ok hok).1⟩

/-! ## The calls of `schedule_job` -/

/-- How `Queue.schedule_job` is called: with a pipeline of its own, with a pipeline of the caller
that buffers its commands until the caller executes it, or with `unique=True`. -/
inductive ScheduleCall where
  | own
  | caller (pipe : Pipeline Key Value) (buffering : pipe.immediate = false)
  | unique

/-- The call, up to and including the `EXEC`. -/
def ScheduleCall.prog (queue : Queue) (job : Job) (datetime now : Time) :
    ScheduleCall → Redis Unit
  | own => do
    let _ ← queue.scheduleJob job datetime none false now
    return ()
  | caller pipe _ => do
    let (_, pipeline) ← queue.scheduleJob job datetime (some pipe) false now
    let _ ← (pipeline.getD {}).execute
    return ()
  | unique => do
    let _ ← queue.scheduleJob job datetime none true now
    return ()

/-- One call of `schedule_job` and any number of ticks. -/
def scheduleSystem {ι : Type} (call : ScheduleCall) (queue : Queue) (job : Job)
    (datetime now : Time) (ticks : ι → Time) (s : Store) : System (Option ι) Store PyError where
  procs
    | none => call.prog queue job datetime now
    | some i => enqueueDueJobs queue (ticks i)
  store := s

/-- In every interleaving nothing of the job is visible before the call has committed, and
afterwards the job is kept. -/
def NeverLoses {ι : Type} [DecidableEq ι] (call : ScheduleCall) (queue : Queue) (job : Job)
    (datetime now : Time) (ticks : ι → Time) (s : Store) : Prop :=
  ∀ P, System.Reaches (scheduleSystem call queue job datetime now ticks s) P →
    (P.procs none ≠ .ret () → ¬Visible queue job.id P.store) ∧
    (P.procs none = .ret () → Kept queue job.id P.store)

/-! ## A call of one step -/

/-- A call that makes a single step on the store, after which it has ended. -/
structure OneStep (queue : Queue) (jobId : JobId) (p : Redis Unit) (act : Store → Store)
    (next : Store → Redis Unit) : Prop where
  eq : p = .step act next
  ends : ∀ s, ¬Visible queue jobId s → next s = .ret () ∧ Kept queue jobId (act s) ∨
    (∃ e, next s = .throw e) ∧ ¬Visible queue jobId (act s)

/-- The state in which a call ends. -/
def CallOutcome (queue : Queue) (jobId : JobId) : Except PyError Unit → Store → Prop
  | .ok _ => Kept queue jobId
  | .error _ => fun s => ¬Visible queue jobId s

/-- What the processes rely on: the call on the ticks, a tick on the call and the other ticks. -/
def rely {ι : Type} (queue : Queue) (jobId : JobId) : Option ι → Store → Store → Prop
  | none => Undisturbed queue jobId
  | some _ => NotLosing queue jobId

def guarantee {ι : Type} (queue : Queue) (jobId : JobId) : Option ι → Store → Store → Prop
  | none => NotLosing queue jobId
  | some _ => Undisturbed queue jobId

def outcome {ι : Type} (queue : Queue) (jobId : JobId) :
    Option ι → Except PyError Unit → Store → Prop
  | none => CallOutcome queue jobId
  | some _ => fun _ _ => True

lemma Undisturbed.trans {s t u : Store} (h : Undisturbed queue jobId s t)
    (h' : Undisturbed queue jobId t u) : Undisturbed queue jobId s u :=
  ⟨fun hs => h'.1 (h.1 hs), fun hs => h'.2 (h.2 hs)⟩

lemma OneStep.safe {p : Redis Unit} {act : Store → Store} {next : Store → Redis Unit}
    (hp : OneStep queue jobId p act next) {s : Store} (hs : ¬Visible queue jobId s) :
    p.Safe (Undisturbed queue jobId) (NotLosing queue jobId) (CallOutcome queue jobId) s := by
  rw [hp.eq]
  intro s' h'
  have hs' := h'.2 hs
  have hkept : ¬Kept queue jobId s' := fun h => hs' h.visible
  rcases hp.ends s' hs' with ⟨hret, h⟩ | ⟨⟨e, he⟩, h⟩
  · rw [hret]
    exact ⟨⟨fun hk => absurd hk hkept, fun _ => .inr h⟩, h⟩
  · rw [he]
    exact ⟨⟨fun hk => absurd hk hkept, fun _ => .inl h⟩, h⟩

section Run
variable {ι : Type} [DecidableEq ι] {P P' : System (Option ι) Store PyError}

/-- A step of a tick does not disturb the job, and every process keeps its triple. -/
lemma allSafe_step {i : Option ι}
    (h : System.AllSafe (rely queue jobId) (guarantee queue jobId) (outcome queue jobId) P)
    (hstep : System.Step i P P') :
    System.AllSafe (rely queue jobId) (guarantee queue jobId) (outcome queue jobId) P' ∧
      (guarantee queue jobId i P.store P'.store ∨ P'.store = P.store) := by
  refine h.step (fun i s => ?_) (fun i a b c => ?_) (fun i r s s' => ?_) (fun i j hij s s' => ?_)
    hstep
  · cases i with
    | none => exact .refl s
    | some _ => exact .refl s
  · cases i with
    | none => exact .trans
    | some _ => exact .trans
  · cases i with
    | none =>
      intro hr hq
      cases r with
      | ok _ => exact hr.1 hq
      | error _ => exact hr.2 hq
    | some _ => exact fun _ _ => trivial
  · cases i with
    | none =>
      cases j with
      | none => exact absurd rfl hij
      | some _ => exact fun h => h
    | some _ =>
      cases j with
      | none => exact fun h => h
      | some _ => exact fun h => h.notLosing

/-- A call of one step has not been made, or has ended. -/
def MadeOrEnded (queue : Queue) (jobId : JobId) (p : Redis Unit)
    (P : System (Option ι) Store PyError) : Prop :=
  (P.procs none = p ∧ ¬Visible queue jobId P.store) ∨
    P.procs none = .ret () ∨ ∃ e, P.procs none = .throw e

theorem OneStep.madeOrEnded {p : Redis Unit} {act : Store → Store} {next : Store → Redis Unit}
    (hp : OneStep queue jobId p act next) (hP : P.procs none = p)
    (hs : ¬Visible queue jobId P.store)
    (hticks : ∀ i, ∃ now, P.procs (some i) = enqueueDueJobs queue now)
    (hr : System.Reaches P P') :
    System.AllSafe (rely queue jobId) (guarantee queue jobId) (outcome queue jobId) P' ∧
      MadeOrEnded queue jobId p P' := by
  induction hr with
  | refl =>
    refine ⟨fun i => ?_, .inl ⟨hP, hs⟩⟩
    cases i with
    | none => exact hP ▸ hp.safe hs
    | some i =>
      obtain ⟨now, hnow⟩ := hticks i
      exact hnow ▸ tick_safe now (.inl hs)
  | @tail P₁ P₂ _ hstep ih =>
    obtain ⟨i, hstep⟩ := hstep
    obtain ⟨hsafe, hstore⟩ := allSafe_step ih.1 hstep
    refine ⟨hsafe, ?_⟩
    cases i with
    | some j =>
      have hnone : P₂.procs none = P₁.procs none := hstep.procs_of_ne (by simp)
      unfold MadeOrEnded
      rw [hnone]
      refine ih.2.imp_left fun h => ⟨h.1, ?_⟩
      rcases hstore with hG | heq
      · exact hG.2 h.2
      · exact heq ▸ h.2
    | none =>
      obtain @⟨p', s', hadv⟩ := hstep
      rcases ih.2 with ⟨hpend, hvis⟩ | hret | ⟨e, he⟩
      · rw [hpend, hp.eq] at hadv
        obtain ⟨rfl, rfl⟩ : next P₁.store = p' ∧ act P₁.store = s' := by
          simpa [Prog.advance] using hadv
        refine .inr ?_
        rcases hp.ends _ hvis with ⟨hret, -⟩ | ⟨⟨e, he⟩, -⟩
        · exact .inl (by simpa using hret)
        · exact .inr ⟨e, by simpa using he⟩
      · simp [hret, Prog.advance] at hadv
      · simp [he, Prog.advance] at hadv

end Run
/-! ## The calls that are of one step -/

/-- A program that begins with a read and raises if what it reads satisfies `C`. -/
def RaisesOnRead {α : Type} (C : Store → Prop) (p : Redis α) : Prop :=
  ∃ next, p = .step id next ∧ ∀ s, C s → ∃ e, next s = .throw e

lemma RaisesOnRead.bind {α β : Type} {C : Store → Prop} {p : Redis α}
    (h : RaisesOnRead C p) (k : α → Redis β) : RaisesOnRead C (p >>= k) := by
  obtain ⟨next, rfl, hnext⟩ := h
  refine ⟨fun s => next s >>= k, rfl, fun s hs => ?_⟩
  obtain ⟨e, he⟩ := hnext s hs
  exact ⟨e, congrArg (· >>= k) he⟩

lemma isStatus_raises (job : Job) (status : JobStatus) :
    RaisesOnRead (fun s => (s.val (.job job.id)).status = none) (job.isStatus status) := by
  refine RaisesOnRead.bind ⟨_, rfl, fun s hs => ?_⟩ _
  simp only [hs]
  exact ⟨_, rfl⟩

/-- A job with a time to live of zero is deleted while it is being saved, which needs a hash. -/
lemma scheduleOnPipeline_raises {pipe : Pipeline Key Value} (h : pipe.immediate = false)
    {job : Job} (ht : job.ttl = some 0) (datetime now : Time) :
    RaisesOnRead (fun s => (s.val (.job job.id)).status = none)
      (queue.scheduleOnPipeline job datetime (some pipe) now) := by
  simp only [Queue.scheduleOnPipeline, Queue._persistJob, Client.command_buffer, h,
    Job.setStatus_buffer, Job.save_buffer, Pipeline.immediate_buffer, Prog.ret_bind, ht, Job.cleanup,
    Job.delete, Job._removeFromRegistries, if_true, bind_assoc]
  exact ((isStatus_raises _ _).bind _).bind _

lemma hash_eq_default {s : Store} (hs : ¬Visible queue jobId s) :
    s.val (.job jobId) = default := by
  by_contra hne
  exact hs (.inl hne)

lemma OneStep.of_raises (queue : Queue) {p : Redis Unit}
    (h : RaisesOnRead (fun s => (s.val (.job jobId)).status = none) p) :
    ∃ next, OneStep queue jobId p id next := by
  obtain ⟨next, rfl, hnext⟩ := h
  refine ⟨next, rfl, fun s hs => .inr ⟨hnext s ?_, hs⟩⟩
  have h0 := hash_eq_default hs
  simp only [h0]
  rfl

lemma oneStep_unique (queue : Queue) (job : Job) (datetime now : Time) :
    ∃ act next, OneStep queue job.id (ScheduleCall.unique.prog queue job datetime now) act next := by
  refine ⟨_, _, rfl, fun s hs => .inl ?_⟩
  have h0 := hash_eq_default hs
  simp only [h0, if_true]
  refine ⟨rfl, ?_, .inl ?_⟩
  · simp [Saved, saved_update_toDict]
  · simp

/-! ## The calls that are not -/

variable {ι : Type} [DecidableEq ι]

lemma execute_ne_ret {pipe : Pipeline Key Value} (h : pipe.commandStack ≠ []) (k : Bool → Redis Unit) :
    (pipe.execute >>= k) ≠ .ret () := by
  have hlen : pipe.commandStack.length ≠ 0 := by simpa using h
  simp [Pipeline.execute, hlen]

/-- With a pipeline the call begins with the `ZADD`, and goes on. -/
lemma prog_eq_of_ne_unique (queue : Queue) {call : ScheduleCall} (hcall : call ≠ .unique) {job : Job}
    (ht : job.ttl ≠ some 0) (datetime now : Time) :
    ∃ next, call.prog queue job datetime now =
      .step (zadd .scheduled queue.name job.id (datetime : ℤ)).run next ∧
      ∀ s, next s ≠ .ret () := by
  cases call with
  | unique => exact absurd rfl hcall
  | own =>
    simp only [ScheduleCall.prog, Queue.scheduleJob, Bool.false_eq_true, if_false,
      Queue.scheduleOnPipeline_eq Pipeline.immediate_empty queue ht, Prog.step_bind]
    refine ⟨_, rfl, fun s => ?_⟩
    simp only [Prog.ret_bind, bind_assoc, Option.getD_some]
    exact execute_ne_ret (by simp) _
  | caller pipe buffering =>
    simp only [ScheduleCall.prog, Queue.scheduleJob, Bool.false_eq_true, if_false,
      Queue.scheduleOnPipeline_eq buffering queue ht, Prog.step_bind]
    refine ⟨_, rfl, fun s => ?_⟩
    simp only [Prog.ret_bind, Option.getD_some]
    exact execute_ne_ret (by simp) _

/-- With a pipeline, the id is in the registry while the call has yet to commit. -/
lemma not_neverLoses {call : ScheduleCall} (hcall : call ≠ .unique) {job : Job}
    (ht : job.ttl ≠ some 0) (datetime now : Time) (ticks : ι → Time) (s : Store) :
    ¬NeverLoses call queue job datetime now ticks s := by
  intro h
  obtain ⟨next, hprog, hnext⟩ := prog_eq_of_ne_unique queue hcall ht datetime now
  have hstep := System.Step.mk (P := scheduleSystem call queue job datetime now ticks s) (i := none)
    (congrArg (fun p : Redis Unit => p.advance s) hprog)
  have hnone := (h _ (.single ⟨none, hstep⟩)).1 (by simpa using hnext s)
  exact hnone (.inr (.inl (by simp)))

/-- A call of one step loses nothing. -/
lemma OneStep.neverLoses {call : ScheduleCall} {job : Job} {datetime now : Time}
    {act : Store → Store} {next : Store → Redis Unit}
    (hp : OneStep queue job.id (call.prog queue job datetime now) act next) (ticks : ι → Time)
    {s : Store} (hs : ¬Visible queue job.id s) :
    NeverLoses call queue job datetime now ticks s := by
  intro P hP
  obtain ⟨hsafe, hpend⟩ := hp.madeOrEnded rfl hs (fun i => ⟨ticks i, rfl⟩) hP
  have hnone := hsafe none
  refine ⟨fun hne => ?_, fun hret => ?_⟩
  · rcases hpend with ⟨-, hvis⟩ | hret | ⟨e, he⟩
    · exact hvis
    · exact absurd hret hne
    · rw [he] at hnone
      exact hnone
  · rw [hret] at hnone
    exact hnone

/-- **Which calls of `schedule_job` never lose the job to a tick.** The `ZADD` of
`ScheduledJobRegistry.schedule` does not go through the pipeline, so that only the script of
`unique=True` is atomic for the ticks; a time to live of zero raises before anything is written. -/
theorem neverLoses_iff (call : ScheduleCall) (queue : Queue) (job : Job) (datetime now : Time)
    (ticks : ι → Time) (s : Store) (hs : ¬Visible queue job.id s) :
    NeverLoses call queue job datetime now ticks s ↔ call = .unique ∨ job.ttl = some 0 := by
  constructor
  · intro h
    by_contra hcond
    rw [not_or] at hcond
    exact not_neverLoses hcond.1 hcond.2 datetime now ticks s h
  · intro hcond
    by_cases hcall : call = .unique
    · subst hcall
      obtain ⟨act, next, hp⟩ := oneStep_unique queue job datetime now
      exact hp.neverLoses ticks hs
    have ht := hcond.resolve_left hcall
    have hraises : RaisesOnRead (fun s => (s.val (.job job.id)).status = none)
        (call.prog queue job datetime now) := by
      cases call with
      | unique => exact absurd rfl hcall
      | own =>
        simp only [ScheduleCall.prog, Queue.scheduleJob, Bool.false_eq_true, if_false]
        exact ((scheduleOnPipeline_raises Pipeline.immediate_empty ht _ _).bind _).bind _
      | caller pipe buffering =>
        simp only [ScheduleCall.prog, Queue.scheduleJob, Bool.false_eq_true, if_false]
        exact (scheduleOnPipeline_raises buffering ht _ _).bind _
    obtain ⟨next, hp⟩ := OneStep.of_raises queue hraises
    exact hp.neverLoses ticks hs

/-- The script of `unique=True` against a tick. -/
theorem neverLoses_iff_unique :
    NeverLoses .unique { name := "default" } { id := "job" } 10 20 (fun _ : Unit => 20)
      Store.empty ↔ ScheduleCall.unique = .unique ∨ (none : Option ℤ) = some 0 :=
  neverLoses_iff .unique { name := "default" } { id := "job" } 10 20 _ _
    (by decide)

/-- A tick between the `ZADD` and the `EXEC` of an overdue job removes the entry and finds no job;
the hash that the `EXEC` then saves is neither scheduled nor in the queue. -/
theorem overdue_job_lost : ∃ P,
    System.Reaches (scheduleSystem .own { name := "default" } { id := "job" } 10 20
      (fun _ : Unit => 20) Store.empty) P ∧
    P.procs none = .ret () ∧ P.procs (some ()) = .ret () ∧
    ¬Kept { name := "default" } "job" P.store := by
  refine ⟨_, System.reaches_of_after [none, some (), some (), some (), none] rfl, rfl, rfl, ?_⟩
  decide

end Scheduling
end RedisQueue
