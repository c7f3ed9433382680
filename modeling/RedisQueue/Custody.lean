import RedisQueue.JobCourses

/-!
# Workers that stop anywhere

Any number of workers that take ids from their queues, record an execution and start the job in a
work horse, beside any processes that leave the job alone. Each of them may stop for ever after any
of its steps.

* `WorkerTurn`: `dequeue_any`, `prepare_execution` and `prepare_job_execution`, one after the other;
* `Placed`: where the id of a job is, and how often;
* `custody_of_path`: until the job is started its id is in the queue or in the intermediate queue,
  once, and no two workers get it.
-/

namespace RedisQueue

open Queue (Popped)

/-! ## Processes -/

/-- What a worker does from the moment when it looks for a job to the one when a work horse has
started it. `fuel` bounds the number of ids that it passes over. -/
structure WorkerTurn where
  worker : Worker
  version : ℕ × ℕ × ℕ
  timeout : Option ℕ
  eid : ExecutionId
  preparedAt : Time
  startedAt : Time
  fuel : ℕ

namespace WorkerTurn

/-- `execute_job` of what `dequeue_any` has returned: `prepare_execution` in the worker and
`prepare_job_execution` in the work horse. -/
def start (self : WorkerTurn) : Option (Job × String) → Redis Unit
  | none => return ()
  | some (job, _) => do
    let worker ← self.worker.prepareExecution job self.eid self.preparedAt
    let _ ← worker.prepareJobExecution job (worker.queues.length = 1) self.startedAt

/-- The turn once `fuel` is the bound. -/
def look (self : WorkerTurn) (fuel : ℕ) : Redis Unit := do
  let result ← Queue.dequeueAny self.version (self.worker.queues.map queueKey) self.timeout fuel
  self.start result

def prog (self : WorkerTurn) : Redis Unit := self.look self.fuel

/-! ### What is left of a turn -/

/-- The start of the job is left. -/
def starting (self : WorkerTurn) (job : Job) : Redis Unit :=
  .exec false (fun _ => true)
    (Command.seq ((self.worker.prepared job self.eid self.preparedAt).startCommands job
      (self.worker.queues.length = 1) self.startedAt)).run
    fun _ => .ret ()

/-- The record of the execution and the start are left. -/
def preparing (self : WorkerTurn) (job : Job) : Redis Unit :=
  .exec false (fun _ => true)
    (Command.seq (self.worker.prepareCommands job self.eid self.preparedAt)).run
    fun _ => self.starting job

/-- An id has been popped. -/
def examining (self : WorkerTurn) (id : JobId) (fuel : ℕ) : Redis Unit :=
  .step (fun s => s) fun s =>
    if s.val (.job id) = default then self.look fuel
    else match Job.restore id (s.val (.job id)) with
      | .ok job => self.preparing job
      | .error (.noSuchJobError _) => self.look fuel
      | .error e => .throw e

lemma start_some (self : WorkerTurn) (job : Job) (key : String) :
    self.start (some (job, key)) = self.preparing job := by
  by_cases hsingle : self.worker.queues.length = 1
  all_goals
    simp [start, preparing, starting, Worker.prepareExecution, Execution.create,
      ExecutionRegistry.add, Client.command_buffer, Pipeline.execute_of_unwatched,
      Worker.prepareCommands, Worker.prepareJobExecution, Worker.setCurrentJobWorkingTime,
      Worker.heartbeat, Job.heartbeat, Job.prepareForExecution, Worker.startCommands,
      Worker.prepared, hsingle]

lemma look_succ {self : WorkerTurn} {key : String} {fuel : ℕ}
    (hkeys : self.worker.queues.map queueKey = [key])
    (hversion : Queue.supportsLmove self.version = true) :
    self.look (fuel + 1) = (do
      let result ← Queue.lmove key self.timeout
      match result with
      | none => return ()
      | some (_, id) => self.examining id fuel) := by
  unfold look
  rw [hkeys, Queue.dequeueAny, Queue.popAny, if_pos hversion, bind_assoc]
  congr 1
  funext result
  cases result with
  | none => rfl
  | some found =>
    obtain ⟨key', id⟩ := found
    dsimp only [examining, Prog.read, Prog.step_bind, Prog.ret_bind]
    congr 1
    funext s
    split
    · unfold look
      rw [hkeys]
    · cases Job.restore id (s.val (.job id)) with
      | ok job => exact self.start_some job key'
      | error e =>
        cases e
        case noSuchJobError =>
          unfold look
          rw [hkeys]
        all_goals rfl

end WorkerTurn


/-! ## Places -/

/-- How often the job is in the queue `name` and in its intermediate queue; it is in no other
list, and it can be fetched and belongs to the queue. -/
structure Placed (name : QueueName) (id : JobId) (queued held : ℕ) (s : Store) : Prop where
  queued : (trace id s).lists (queueKey name) = queued
  held : (trace id s).lists (intermediateQueueKey (queueKey name)) = held
  elsewhere : ∀ key, key ≠ queueKey name → key ≠ intermediateQueueKey (queueKey name) →
    (trace id s).lists key = 0
  restorable : (trace id s).restorable = true
  origin : (trace id s).origin = name

/-- The job stays in the same places. -/
structure Ignores (id : JobId) (s s' : Store) : Prop where
  lists : (trace id s').lists = (trace id s).lists
  restorable : (trace id s').restorable = (trace id s).restorable
  origin : (trace id s').origin = (trace id s).origin

lemma trace_lrem_other {id id' : JobId} {s : Store} (h : id' ≠ id) (key : String) :
    trace id ((lrem key id').run s) = trace id s := by
  ext1
  case lists =>
    funext key'
    by_cases hkey : key' = key
    · subst hkey
      simp [trace, List.count_erase_of_ne h.symm]
    · simp [trace, hkey]
  all_goals simp [trace]

section Places
variable {name : QueueName} {id : JobId} {queued held : ℕ} {s s' : Store}

lemma ignores_of_trace (h : trace id s' = trace id s) : Ignores id s s' := by
  constructor <;> rw [h]

lemma Placed.ignores (h : Placed name id queued held s) (hs : Ignores id s s') :
    Placed name id queued held s' := by
  obtain ⟨hlists, hrestorable, horigin⟩ := hs
  constructor
  · rw [hlists, h.queued]
  · rw [hlists, h.held]
  · intro key hname hheld
    rw [hlists, h.elsewhere key hname hheld]
  · rw [hrestorable, h.restorable]
  · rw [horigin, h.origin]

/-- The pop of the id from one of the queues. -/
lemma Placed.popped (h : Placed name id queued held s) {queue : QueueName}
    {version : ℕ × ℕ × ℕ} (hversion : Queue.supportsLmove version = true)
    (hqueue : queue ≠ name ++ ":intermediate")
    (hpop : Popped version [queueKey queue] s s' (queueKey queue) id) :
    queued ≠ 0 ∧ Placed name id (queued - 1) (held + 1) s' := by
  have htaken : (trace id s).lists (queueKey queue) = (trace id s').lists (queueKey queue) + 1 := by
    simp [trace, hpop.taken]
  have hintermediate : intermediateQueueKey (queueKey name) = queueKey (name ++ ":intermediate") := by
    simp [intermediateQueueKey, queueKey, String.append_assoc]
  obtain rfl : queue = name := by
    by_contra hne
    have hzero := h.elsewhere (queueKey queue) (fun heq => hne (queueKey_inj.mp heq)) fun heq => by
      rw [hintermediate, queueKey_inj] at heq
      exact hqueue heq
    omega
  have hholds : Queue.Holds version [queueKey queue] (queueKey queue) := ⟨rfl, hversion⟩
  have hlists := fun key (hkey : key ≠ queueKey queue)
      (hne : key ≠ intermediateQueueKey (queueKey queue)) =>
    hpop.list_other hkey fun hheld => hne hheld.2
  rw [h.queued] at htaken
  refine ⟨by omega, by omega, ?_, ?_, ?_, ?_⟩
  · rw [← h.held]
    simp [trace, hpop.held _ hholds]
  · intro key hname hne
    rw [← h.elsewhere key hname hne]
    simp [trace, hlists key hname hne]
  · rw [← h.restorable]
    simp [trace, hpop.val]
  · rw [← h.origin]
    simp [trace, hpop.val]

end Places

/-! ## One turn -/

namespace WorkerTurn

/-- What is left of a turn that has not got the job. -/
inductive Seeking (id : JobId) (self : WorkerTurn) : Redis Unit → Prop
  | looking (fuel : ℕ) : Seeking id self (self.look fuel)
  | examining {id' : JobId} (h : id' ≠ id) (fuel : ℕ) : Seeking id self (self.examining id' fuel)
  | preparing {job : Job} (h : job.id ≠ id) : Seeking id self (self.preparing job)
  | starting {job : Job} (h : job.id ≠ id) : Seeking id self (self.starting job)
  | done : Seeking id self (.ret ())
  | failed (e : PyError) : Seeking id self (.throw e)

/-- What is left of a turn that has got the job. -/
inductive Holding (name : QueueName) (id : JobId) (self : WorkerTurn) : Redis Unit → Prop
  | examining (fuel : ℕ) : Holding name id self (self.examining id fuel)
  | preparing {job : Job} (hid : job.id = id) (horigin : job.origin = name) :
      Holding name id self (self.preparing job)
  | starting {job : Job} (hid : job.id = id) (horigin : job.origin = name) :
      Holding name id self (self.starting job)

/-- The worker serves one queue, which is not the intermediate queue of `name`, and its server has
`LMOVE`. -/
def ServesOne (name : QueueName) (self : WorkerTurn) : Prop :=
  Queue.supportsLmove self.version = true ∧
    ∃ queue, self.worker.queues = [queue] ∧ queue ≠ name ++ ":intermediate"

section Steps
variable {name : QueueName} {id : JobId} {queued held : ℕ} {self : WorkerTurn} {s s' : Store}
  {p p' : Redis Unit}

lemma keeps_expireIn {k k' : Key} (h : k ≠ k') (ttl : ℤ) (now : Time) :
    (expire k' ttl now).Keeps k := by
  unfold expire
  split
  · exact Command.keeps_del h
  · exact Command.keeps_expire

lemma keeps_hsetWorker {k : Key} {name : WorkerName} (h : k ≠ .worker name)
    (f : WorkerHash → WorkerHash) : (hsetWorker name f).Keeps k :=
  Command.keeps_write h

/-- The record of an execution. -/
lemma ignores_prepareCommands (worker : Worker) (job : Job) (eid : ExecutionId) (now : Time)
    (s : Store) : Ignores id s ((Command.seq (worker.prepareCommands job eid now)).run s) := by
  have hkeeps : ∀ k, (∃ key, k = .list key) ∨ k = .job id →
      (Command.seq (worker.prepareCommands job eid now)).Keeps k := by
    intro k hk
    apply Command.keeps_seq
    simp only [Worker.prepareCommands, List.mem_cons, List.not_mem_nil, or_false]
    obtain ⟨key, rfl⟩ | rfl := hk
    all_goals
      rintro c (rfl | rfl | rfl | rfl | rfl | rfl)
      · exact Command.keeps_write (by simp)
      · exact keeps_expireIn (by simp) _ _
      · exact Command.keeps_alter (by simp)
      · exact keeps_expireIn (by simp) _ _
      · exact Command.keeps_alter (by simp)
      · exact keeps_hsetWorker (by simp) _
  have hlist := fun key => hkeeps (.list key) (.inl ⟨key, rfl⟩) s
  have hhash := hkeeps (.job id) (.inr rfl) s
  constructor <;> simp [trace, hlist, hhash]

lemma ignores_startCommands {worker : Worker} {job : Job} (h : job.id ≠ id) (remove : Bool)
    (now : Time) (s : Store) :
    Ignores id s ((Command.seq (worker.startCommands job remove now)).run s) := by
  apply ignores_of_trace
  apply trace_seq
  intro c hc s
  simp only [Worker.startCommands, List.mem_append, List.mem_cons, List.not_mem_nil, or_false] at hc
  obtain (rfl | rfl | rfl | rfl | rfl | rfl) | hc := hc
  · exact trace_hsetWorker _ _
  · exact trace_hsetWorker _ _
  · exact trace_hsetWorker _ _
  · exact trace_expireIn (by simp [Traced]) _ _
  · exact trace_hset_other h _
  · exact trace_hset_other h _
  · cases remove with
    | false => simp at hc
    | true =>
      obtain rfl : c = lrem (intermediateQueueKey (queueKey job.origin)) job.id := by simpa using hc
      exact trace_lrem_other h _

/-- The start of the job. -/
lemma Placed.started (h : Placed name id queued held s) {worker : Worker} {job : Job}
    (hid : job.id = id) (horigin : job.origin = name) (now : Time) :
    Placed name id queued (held - 1) ((Command.seq (worker.startCommands job true now)).run s) ∧
      (trace id ((Command.seq (worker.startCommands job true now)).run s)).status =
        some .started := by
  subst hid horigin
  have hne : queueKey job.origin ≠ intermediateQueueKey (queueKey job.origin) :=
    (Queue.intermediateQueueKey_ne _).symm
  rw [Worker.trace_startCommands]
  refine ⟨⟨?_, ?_, ?_, ?_, ?_⟩, rfl⟩
  all_goals rw [Worker.trace_startCommands]
  · simpa [hne] using h.queued
  · simp [h.held]
  · intro key hname hheld
    simpa [hheld] using h.elsewhere key hname hheld
  · exact h.restorable
  · exact h.origin

/-- What the pop of an id leaves. -/
lemma seeking_look (hserves : self.ServesOne name) {fuel : ℕ}
    (h : Placed name id queued held s) (hadv : (self.look fuel).advance s = some (p', s')) :
    Ignores id s s' ∧ Seeking id self p' ∨
      queued ≠ 0 ∧ Placed name id (queued - 1) (held + 1) s' ∧ Holding name id self p' := by
  obtain ⟨hversion, queue, hqueues, hne⟩ := hserves
  have hkeys : self.worker.queues.map queueKey = [queueKey queue] := by rw [hqueues]; rfl
  cases fuel with
  | zero => cases hadv
  | succ fuel =>
    rw [look_succ hkeys hversion, Queue.lmove] at hadv
    split at hadv
    · cases hadv
    · cases hlist : s.val (.list (queueKey queue)) with
      | nil =>
        left
        simp only [Prog.step_bind, Prog.advance, hlist, Option.some.injEq, Prod.mk.injEq] at hadv
        obtain ⟨rfl, rfl⟩ := hadv
        refine ⟨⟨rfl, rfl, rfl⟩, ?_⟩
        cases self.timeout with
        | none => exact .done
        | some timeout => exact .failed _
      | cons id' rest =>
        have hpop := Queue.popped_lmove hlist hversion
        simp only [Prog.step_bind, Prog.advance, hlist, Option.some.injEq, Prod.mk.injEq] at hadv
        obtain ⟨rfl, rfl⟩ := hadv
        by_cases hid : id' = id
        · subst hid
          obtain ⟨hqueued, hplaced⟩ := h.popped hversion hne hpop
          exact .inr ⟨hqueued, hplaced, .examining fuel⟩
        · exact .inl ⟨ignores_of_trace (hpop.trace_other hid), .examining hid fuel⟩

/-- A step of a turn that has not got the job. -/
lemma Seeking.advance (hp : Seeking id self p) (hserves : self.ServesOne name)
    (h : Placed name id queued held s) (hadv : p.advance s = some (p', s')) :
    Ignores id s s' ∧ Seeking id self p' ∨
      queued ≠ 0 ∧ Placed name id (queued - 1) (held + 1) s' ∧ Holding name id self p' := by
  cases hp with
  | looking fuel => exact seeking_look hserves h hadv
  | @examining id' hid fuel =>
    left
    simp only [WorkerTurn.examining, Prog.advance, Option.some.injEq, Prod.mk.injEq] at hadv
    obtain ⟨rfl, rfl⟩ := hadv
    refine ⟨⟨rfl, rfl, rfl⟩, ?_⟩
    split
    · exact .looking fuel
    · split
      · next job hjob => exact .preparing ((Job.restore_ok hjob).1.trans_ne hid)
      · exact .looking fuel
      · exact .failed _
  | preparing hid =>
    cases hadv
    exact .inl ⟨ignores_prepareCommands _ _ _ _ _, .starting hid⟩
  | starting hid =>
    cases hadv
    exact .inl ⟨ignores_startCommands hid _ _ _, .done⟩
  | done => cases hadv
  | failed e => cases hadv

/-- A step of a turn that has got the job. -/
lemma Holding.advance (hp : Holding name id self p) (hserves : self.ServesOne name)
    (h : Placed name id queued held s) (hadv : p.advance s = some (p', s')) :
    Ignores id s s' ∧ Holding name id self p' ∨
      Placed name id queued (held - 1) s' ∧ (trace id s').status = some .started ∧
        Seeking id self p' := by
  cases hp with
  | examining fuel =>
    left
    simp only [WorkerTurn.examining, Prog.advance, Option.some.injEq, Prod.mk.injEq] at hadv
    obtain ⟨rfl, rfl⟩ := hadv
    have hdata : (s.val (.job id)).data.isSome := h.restorable
    obtain ⟨job, hjob⟩ := Job.exists_restore id hdata
    rw [if_neg (ne_default_of_data hdata), hjob]
    exact ⟨⟨rfl, rfl, rfl⟩, .preparing (Job.restore_ok hjob).1
      ((origin_of_restore hjob).trans h.origin)⟩
  | preparing hid horigin =>
    cases hadv
    exact .inl ⟨ignores_prepareCommands _ _ _ _ _, .starting hid horigin⟩
  | starting hid horigin =>
    obtain ⟨-, queue, hqueues, -⟩ := hserves
    have hsingle : decide (self.worker.queues.length = 1) = true := by simp [hqueues]
    rw [WorkerTurn.starting, hsingle] at hadv
    cases hadv
    obtain ⟨hplaced, hstatus⟩ := Placed.started h hid horigin self.startedAt
    exact .inr ⟨hplaced, hstatus, .done⟩

end Steps
end WorkerTurn

/-! ## Interleavings -/

/-- A worker's turn, or any process that leaves the job alone. -/
inductive QueueProcess where
  | worker (turn : WorkerTurn)
  | other (p : Redis Unit)

namespace QueueProcess

def prog : QueueProcess → Redis Unit
  | worker turn => turn.prog
  | other p => p

/-- A worker serves one queue. The other processes are about other jobs. -/
def Fits (name : QueueName) (id : JobId) : QueueProcess → Prop
  | worker turn => turn.ServesOne name
  | other p => p.Within (fun _ => True) (Ignores id) fun _ => True

/-- What is left of a process. `holds` tells whether it has got the job. -/
inductive Doing (name : QueueName) (id : JobId) : QueueProcess → Bool → Redis Unit → Prop
  | seeking {turn : WorkerTurn} {p : Redis Unit} (h : turn.Seeking id p) :
      Doing name id (.worker turn) false p
  | holding {turn : WorkerTurn} {p : Redis Unit} (h : turn.Holding name id p) :
      Doing name id (.worker turn) true p
  | other {p₀ p : Redis Unit} (h : p.Within (fun _ => True) (Ignores id) fun _ => True) :
      Doing name id (.other p₀) false p

lemma doing_prog {name : QueueName} {id : JobId} {process : QueueProcess}
    (hfits : process.Fits name id) : process.Doing name id false process.prog := by
  cases process with
  | worker turn => exact .seeking (.looking turn.fuel)
  | other p => exact .other hfits

/-- A step of a process leaves the job alone, takes its id out of the queue, or starts it. -/
lemma Doing.advance {name : QueueName} {id : JobId} {queued held : ℕ} {process : QueueProcess}
    {holds : Bool} {p p' : Redis Unit} {s s' : Store} (hp : process.Doing name id holds p)
    (hfits : process.Fits name id) (h : Placed name id queued held s)
    (hadv : p.advance s = some (p', s')) :
    Ignores id s s' ∧ process.Doing name id holds p' ∨
      (holds = false ∧ queued ≠ 0 ∧ Placed name id (queued - 1) (held + 1) s' ∧
        process.Doing name id true p') ∨
      holds = true ∧ Placed name id queued (held - 1) s' ∧
        (trace id s').status = some .started ∧ process.Doing name id false p' := by
  cases hp with
  | seeking hp =>
    rcases hp.advance hfits h hadv with ⟨hs, hp'⟩ | ⟨hqueued, hs, hp'⟩
    · exact .inl ⟨hs, .seeking hp'⟩
    · exact .inr (.inl ⟨rfl, hqueued, hs, .holding hp'⟩)
  | holding hp =>
    rcases hp.advance hfits h hadv with ⟨hs, hp'⟩ | ⟨hs, hstatus, hp'⟩
    · exact .inl ⟨hs, .holding hp'⟩
    · exact .inr (.inr ⟨rfl, hs, hstatus, .seeking hp'⟩)
  | other hp =>
    have hrefl : ∀ s, Ignores id s s := fun _ => ⟨rfl, rfl, rfl⟩
    obtain ⟨-, hs, hp'⟩ := hp.advance hrefl trivial hadv
    exact .inl ⟨hs, .other hp'⟩

end QueueProcess

/-- The step changes how often the job is in the queue or in its intermediate queue. -/
def moves {ι : Type} (name : QueueName) (id : JobId) (e : System.Event ι Store) : Bool :=
  decide ((trace id e.after).lists (queueKey name) ≠ (trace id e.before).lists (queueKey name) ∨
    (trace id e.after).lists (intermediateQueueKey (queueKey name)) ≠
      (trace id e.before).lists (intermediateQueueKey (queueKey name)))

/-- The history of a job that has been pushed once, in terms of the steps that have moved it. -/
inductive Custody {ι : Type} (name : QueueName) (id : JobId) :
    List (System.Event ι Store) → Store → Prop
  /-- It is still in the queue. -/
  | queued {s : Store} (h : Placed name id 1 0 s) : Custody name id [] s
  /-- A worker has moved it to the intermediate queue. -/
  | taken {e : System.Event ι Store} {s : Store} (hbefore : Placed name id 1 0 e.before)
      (hafter : Placed name id 0 1 e.after) (h : Placed name id 0 1 s) : Custody name id [e] s
  /-- The same worker has started it, and in the same step removed it from there. -/
  | started {e e' : System.Event ι Store} {s : Store} (hbefore : Placed name id 1 0 e.before)
      (hafter : Placed name id 0 1 e.after) (hproc : e'.proc = e.proc)
      (hbefore' : Placed name id 0 1 e'.before) (hafter' : Placed name id 0 0 e'.after)
      (hstatus : (trace id e'.after).status = some .started) (h : Placed name id 0 0 s) :
      Custody name id [e, e'] s

section Interleavings
variable {ι : Type} [DecidableEq ι] {processes : ι → QueueProcess} {name : QueueName} {id : JobId}
  {ms : List (System.Event ι Store)} {P P' : System ι Store PyError} {i : ι}

/-- The process that has the job. -/
def holder : List (System.Event ι Store) → Option ι
  | [e] => some e.proc
  | _ => none

/-- The invariant: the moves so far, and what is left of the processes. -/
structure InCustody (processes : ι → QueueProcess) (name : QueueName) (id : JobId)
    (ms : List (System.Event ι Store)) (P : System ι Store PyError) : Prop where
  custody : Custody name id ms P.store
  doing : ∀ i, (processes i).Doing name id (holder ms = some i) (P.procs i)

omit [DecidableEq ι] in
lemma moves_of_ignores {s s' : Store} (h : Ignores id s s') :
    moves name id (⟨i, s, s'⟩ : System.Event ι Store) = false := by
  simp [moves, h.lists]

omit [DecidableEq ι] in
lemma Custody.ignores {s s' : Store} (h : Custody name id ms s) (hs : Ignores id s s') :
    Custody name id ms s' := by
  cases h with
  | queued h => exact .queued (h.ignores hs)
  | taken hbefore hafter h => exact .taken hbefore hafter (h.ignores hs)
  | started hbefore hafter hproc hbefore' hafter' hstatus h =>
    exact .started hbefore hafter hproc hbefore' hafter' hstatus (h.ignores hs)

omit [DecidableEq ι] in
lemma Custody.placed {s : Store} (h : Custody name id ms s) :
    ∃ queued held, Placed name id queued held s := by
  cases h with
  | queued h => exact ⟨1, 0, h⟩
  | taken hbefore hafter h => exact ⟨0, 1, h⟩
  | started hbefore hafter hproc hbefore' hafter' hstatus h => exact ⟨0, 0, h⟩

/-- **One step.** -/
lemma InCustody.step (hk : InCustody processes name id ms P) (hfits : ∀ i, (processes i).Fits name id)
    (hs : System.Step i P P') :
    InCustody processes name id (ms ++ [⟨i, P.store, P'.store⟩].filter (moves name id)) P' := by
  have hother := fun j hj => hs.procs_of_ne (j := j) hj
  obtain ⟨hcustody, hdoing⟩ := hk
  obtain ⟨queued, held, hplaced⟩ := hcustody.placed
  rcases (hdoing i).advance (hfits i) hplaced hs.advance_eq with
    ⟨hignores, hp⟩ | ⟨hholds, hqueued, hafter, hp⟩ | ⟨hholds, hafter, hstatus, hp⟩
  · -- the job stays where it is
    rw [List.filter_singleton, moves_of_ignores hignores]
    refine ⟨by simpa using hcustody.ignores hignores, fun j => ?_⟩
    by_cases hj : j = i
    · subst hj
      simpa using hp
    · rw [hother j hj]
      simpa using hdoing j
  · -- the process takes the id out of the queue
    cases hcustody with
    | taken _ _ h =>
      have hzero := hplaced.queued.symm.trans h.queued
      exact absurd hzero hqueued
    | started _ _ _ _ _ _ h =>
      have hzero := hplaced.queued.symm.trans h.queued
      exact absurd hzero hqueued
    | queued h =>
      obtain rfl : queued = 1 := hplaced.queued.symm.trans h.queued
      obtain rfl : held = 0 := hplaced.held.symm.trans h.held
      have hmoves : moves name id ⟨i, P.store, P'.store⟩ = true := by
        simp [moves, hafter.queued, h.queued]
      rw [List.filter_singleton, hmoves]
      refine ⟨.taken h hafter hafter, fun j => ?_⟩
      by_cases hj : j = i
      · subst hj
        simpa [holder] using hp
      · rw [hother j hj]
        have hdoing' := hdoing j
        have hne : i ≠ j := Ne.symm hj
        simpa [holder, hne] using hdoing'
  · -- the process starts the job
    have hholder : holder ms = some i := by simpa using hholds
    cases hcustody with
    | queued h => cases hholder
    | started => cases hholder
    | @taken e s hbefore hafter' h =>
      obtain rfl : e.proc = i := by simpa [holder] using hholder
      obtain rfl : queued = 0 := hplaced.queued.symm.trans h.queued
      obtain rfl : held = 1 := hplaced.held.symm.trans h.held
      have hmoves : moves name id ⟨e.proc, P.store, P'.store⟩ = true := by
        simp [moves, hafter.held, h.held]
      rw [List.filter_singleton, hmoves]
      refine ⟨.started hbefore hafter' rfl h hafter hstatus hafter, fun j => ?_⟩
      by_cases hj : j = e.proc
      · subst hj
        simpa [holder] using hp
      · rw [hother j hj]
        have hdoing' := hdoing j
        have hne : e.proc ≠ j := Ne.symm hj
        simpa [holder, hne] using hdoing'

/-- **No job is lost between the queue and its work horse**, in any interleaving of workers that may
stop for ever after any step: its id is in the queue, or in the intermediate queue once a worker has
taken it, until the step that starts the job; and the worker that starts it is the only one that has
taken it. -/
theorem custody_of_path (hfits : ∀ i, (processes i).Fits name id) {s₀ : Store}
    (hplaced : Placed name id 1 0 s₀) {es : List (System.Event ι Store)}
    (hpath : System.Path ⟨fun i => (processes i).prog, s₀⟩ es P) :
    Custody name id (es.filter (moves name id)) P.store := by
  have hkept : InCustody processes name id (es.filter (moves name id)) P := by
    refine System.Path.invariant
      (I := fun es P => InCustody processes name id (es.filter (moves name id)) P) ?_ ?_ hpath
    · exact ⟨.queued hplaced, fun i => by simpa [holder] using QueueProcess.doing_prog (hfits i)⟩
    · intro es P P' i hk hs
      rw [List.filter_append]
      exact hk.step hfits hs
  exact hkept.custody

end Interleavings

/-- Another job that is enqueued. -/
def enqueueAnother (queue : Queue) (job : Job) (atFront : Bool) (now : Time) : Redis Unit := do
  let (_, pipeline) ← queue._enqueueJob job (some {}) atFront false now
  let _ ← (pipeline.getD {}).execute

lemma within_enqueueAnother {id : JobId} {job : Job} (hid : job.id ≠ id) (ht : job.ttl ≠ some 0)
    (queue : Queue) (atFront : Bool) (now : Time) :
    (enqueueAnother queue job atFront now).Within (fun _ => True) (Ignores id) fun _ => True := by
  have hbuffer := @Queue.enqueueJob_buffer {} Pipeline.immediate_empty queue job ht atFront now
  have hne : (({} : Pipeline Key Value).buffer (enqueueCommands queue job atFront
      now)).commandStack ≠ [] := by
    simp [enqueueCommands, Pipeline.buffer]
  rw [enqueueAnother, hbuffer, Prog.ret_bind]
  dsimp only [Option.getD_some]
  rw [Pipeline.execute_of_unwatched rfl hne, Pipeline.buffer_commandStack]
  refine ⟨fun s _ _ => ⟨trivial, ignores_of_trace ?_⟩, fun _ => trivial⟩
  rw [List.nil_append]
  exact trace_seq (fun c hc => trace_enqueueCommand_other hid (enqueueCommand_of_mem hc)) s

/-- A job that waits in its queue. -/
def waitingStore : Store :=
  (Command.seq [push "rq:queue:q" false "x",
    hset "x" { data := some "f", origin := some "q", status := some .queued }]).run Store.empty

/-- A worker, and a client that enqueues another job. -/
def workerAndClient (i : Bool) : QueueProcess :=
  if i then .worker {
    worker := { name := "w", queues := ["q"] }
    version := (7, 0, 0), timeout := none, eid := "e", preparedAt := 1, startedAt := 2, fuel := 1 }
  else .other (enqueueAnother { name := "q" } { id := "y", origin := "q" } true 1)

/-- The worker takes the job, then the client enqueues, then the job is started. -/
theorem custody_of_path_started : ∃ es P,
    System.Path ⟨fun i => (workerAndClient i).prog, waitingStore⟩ es P ∧
      (trace "x" P.store).status = some .started ∧
      Custody "q" "x" (es.filter (moves "q" "x")) P.store := by
  have hfits : ∀ i, (workerAndClient i).Fits "q" "x" := fun i => by
    cases i
    · exact within_enqueueAnother (by decide) (by decide) _ _ _
    · exact ⟨by decide, "q", rfl, by decide⟩
  have hplaced : Placed "q" "x" 1 0 waitingStore := by
    refine ⟨by decide, by decide, fun key hname _ => ?_, by decide, by decide⟩
    have hname' : key ≠ "rq:queue:q" := hname
    have hempty : Store.empty.val (.list key) = [] := rfl
    simp [trace, waitingStore, hname', hempty]
  have hreaches := System.reaches_of_after
    (P := ⟨fun i => (workerAndClient i).prog, waitingStore⟩) [true, false, true, true, true] rfl
  obtain ⟨es, hpath⟩ := System.exists_path_of_reaches hreaches
  exact ⟨es, _, hpath, by decide, custody_of_path hfits hplaced hpath⟩

end RedisQueue
