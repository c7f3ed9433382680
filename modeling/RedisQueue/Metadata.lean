import RedisQueue.RepeatRuns
import RedisQueue.WorkerFootprints

/-!
# The metadata of a job that is executed

`Job.meta`, which the function of a job may change and save (`Job.save_meta`), and which the work
horse, the parent and the function each have a copy of.

* `MetaCall`: what the function does with the metadata, through any instance of the job;
* `Worker.beginFunction`, `Worker.handleOutcome`: the two halves of `BaseWorker.perform_job`;
* `KeepsMetadata`, `SavesMetadata`: what a command makes of the metadata.

No metadata (`none`) is the empty dictionary, whether the field is absent or holds it: `Job.restore`
reads the same, and `Job.to_dict` leaves it out.
-/

namespace RedisQueue

open Prog

/-! ## What the function does -/

namespace Job

/-- `Job.save_meta` -/
def saveMeta (self : Job) : Redis Unit :=
  Prog.perform
    (Command.write (.job self.id) fun h : JobHash => { h with metadata := self.metadata }).run

/-- `Job.get_meta` -/
def getMeta (self : Job) : Redis Job := do
  let metadata ← Prog.read fun s => (s.val (.job self.id)).metadata
  return { self with metadata := metadata }

end Job

/-- What the function of a job has: the current job, the instances that it has fetched, and the
metadata that it has saved last, if any. -/
structure Locals where
  current : Job
  fetched : List Job := []
  saved : Option (Option String) := none
deriving DecidableEq, Repr

/-- A statement of the function of a job about one of the instances: the current job has the number
zero. The dictionary of an instance may be changed in place. -/
inductive MetaCall where
  | fetch
  | assign (i : ℕ) (metadata : Option String)
  | getMeta (i : ℕ)
  | saveMeta (i : ℕ)
deriving DecidableEq, Repr

namespace Locals

def get? (self : Locals) : ℕ → Option Job
  | 0 => some self.current
  | i + 1 => self.fetched[i]?

def setMeta (self : Locals) (i : ℕ) (metadata : Option String) : Locals :=
  match i with
  | 0 => { self with current := { self.current with metadata := metadata } }
  | i + 1 =>
    { self with fetched := self.fetched.modify i fun job => { job with metadata := metadata } }

end Locals

/-- An instance that does not exist is not used. -/
def MetaCall.run (locals : Locals) : MetaCall → Redis Locals
  | .fetch => do
    let r ← attempting (Job.fetch locals.current.id)
    match r with
    | .ok job => return { locals with fetched := locals.fetched ++ [job] }
    | .error _ => return locals
  | .assign i metadata => return locals.setMeta i metadata
  | .getMeta i =>
    match locals.get? i with
    | some job => do
      let job ← job.getMeta
      return locals.setMeta i job.metadata
    | none => return locals
  | .saveMeta i =>
    match locals.get? i with
    | some job => do
      job.saveMeta
      return { locals with saved := some job.metadata }
    | none => return locals

def runCalls : List MetaCall → Locals → Redis Locals
  | [], locals => return locals
  | call :: calls, locals => do
    let locals ← call.run locals
    runCalls calls locals

namespace Worker

/-- `BaseWorker.perform_job` until the function has ended. -/
def beginFunction (self : Worker) (job : Job) (calls : List MetaCall) (now : Time) :
    Redis (Worker × Locals) := do
  let (self, job) ← self.prepareJobExecution job (self.queues.length = 1) now
  let job := { job with startedAt := some now }
  Prog.perform (Command.persist (.job job.id)).run
  let locals ← runCalls calls { current := job }
  return (self, locals)

/-- `BaseWorker.perform_job` after the function has ended. -/
def handleOutcome (self : Worker) (job : Job) (queue : Queue) (outcome : Outcome)
    (userCode : UserCode) (now : Time) (fuel : ℕ) : Redis (Bool × Worker × Job) :=
  match outcome with
  | .raised excString => self.performJobExcept job queue excString userCode now fuel
  | .retry retry => do
    let job ← handleExecutionEnded job now
    let job := { job with result := some "Retry" }
    match self.execution with
    | none => self.performJobExcept job queue (excText .assertionError) userCode now fuel
    | some execution => do
      let r ← attempting (self.handleJobRetry job queue retry execution now fuel)
      match r with
      | .ok (self, job) => return (true, self, job)
      | .error e => self.performJobExcept job queue (excText e) userCode now fuel
  | .returned value => do
    let job ← handleExecutionEnded job now
    let job := { job with result := value, status := .finished }
    match userCode.successCallback with
    | some excString => self.performJobExcept job queue excString userCode now fuel
    | none => do
      let (r, self, job) ← handleJobSuccessLoop queue now fuel self job
      match r with
      | .ok () => return (true, self, job)
      | .error e => self.performJobExcept job queue (excText e) userCode now fuel

/-- `BaseWorker.perform_job` of a function that does nothing with the metadata. -/
theorem performJob_eq (self : Worker) (job : Job) (queue : Queue) (outcome : Outcome)
    (userCode : UserCode) (now : Time) (fuel : ℕ) :
    self.performJob job queue outcome userCode now fuel =
      (self.beginFunction job [] now >>= fun r =>
        r.1.handleOutcome r.2.current queue outcome userCode now fuel) := by
  unfold performJob beginFunction
  simp only [bind_assoc, runCalls, Prog.pure_eq, Prog.ret_bind]
  cases outcome <;> rfl

end Worker

/-! ### What the calls leave -/

/-- The instances are those of `job`, and what was saved last is stored. -/
structure Locals.Valid (job : Job) (s : Store) (locals : Locals) : Prop where
  current : locals.current = { job with metadata := locals.current.metadata }
  fetched : ∀ instance' ∈ locals.fetched, instance'.id = job.id
  saved : ∀ metadata, locals.saved = some metadata → (s.val (.job job.id)).metadata = metadata

section Calls
variable {job : Job} {s s' : Store} {locals locals' : Locals}

lemma Locals.Valid.id_of_get? (h : locals.Valid job s) {i : ℕ} {instance' : Job}
    (hget : locals.get? i = some instance') : instance'.id = job.id := by
  cases i with
  | zero =>
    obtain rfl : locals.current = instance' := Option.some.inj hget
    rw [h.current]
  | succ i => exact h.fetched _ (List.mem_of_getElem? hget)

lemma Locals.Valid.setMeta (h : locals.Valid job s) (i : ℕ) (metadata : Option String) :
    (locals.setMeta i metadata).Valid job s := by
  cases i with
  | zero =>
    refine ⟨?_, h.fetched, h.saved⟩
    simp only [Locals.setMeta]
    rw [h.current]
  | succ i =>
    refine ⟨h.current, fun instance' hmem => ?_, h.saved⟩
    obtain ⟨j, hj⟩ := List.getElem?_of_mem hmem
    simp only [Locals.setMeta, List.getElem?_modify] at hj
    cases hget : locals.fetched[j]? with
    | none => simp [hget] at hj
    | some found =>
      have hid := h.fetched found (List.mem_of_getElem? hget)
      rw [hget] at hj
      rw [← Option.some.inj hj]
      dsimp only
      split <;> exact hid

/-- **A statement of the function.** The status stays. -/
lemma MetaCall.valid_run (call : MetaCall) (h : locals.Valid job s)
    (hrun : (call.run locals).run s = (.ok locals', s')) :
    locals'.Valid job s' ∧ (s'.val (.job job.id)).status = (s.val (.job job.id)).status := by
  cases call with
  | fetch =>
    have hid : locals.current.id = job.id := by rw [h.current]
    simp only [MetaCall.run, hid] at hrun
    cases hfetch : (Job.fetch job.id).run s with
    | mk r s₁ =>
    obtain rfl : s₁ = s := by
      have hread := congrArg Prod.snd hfetch
      unfold Job.fetch at hread
      rw [Prog.run_bind_ok (Prog.run_read _ s)] at hread
      split at hread
      · exact hread.symm
      · cases hrestore : Job.restore job.id (s.val (.job job.id)) <;>
          rw [hrestore] at hread <;> exact hread.symm
    cases r with
    | error e =>
      have hattempt := Worker.run_attempting_error hfetch
      split at hattempt
      · rw [Prog.run_bind_error hattempt] at hrun
        cases hrun
      · rw [Prog.run_bind_ok hattempt] at hrun
        cases hrun
        exact ⟨h, rfl⟩
    | ok found =>
      rw [Prog.run_bind_ok (Worker.run_attempting_ok hfetch)] at hrun
      cases hrun
      refine ⟨⟨h.current, fun instance' hmem => ?_, h.saved⟩, rfl⟩
      rcases List.mem_append.mp hmem with hmem | hmem
      · exact h.fetched _ hmem
      · obtain rfl := List.mem_singleton.mp hmem
        unfold Job.fetch at hfetch
        rw [Prog.run_bind_ok (Prog.run_read _ _)] at hfetch
        split at hfetch
        · cases hfetch
        · exact (Job.restore_ok (Prog.run_ofExcept_eq_ok hfetch).1).1
  | assign i metadata =>
    cases hrun
    exact ⟨h.setMeta i metadata, rfl⟩
  | getMeta i =>
    simp only [MetaCall.run] at hrun
    cases hget : locals.get? i with
    | none =>
      rw [hget] at hrun
      cases hrun
      exact ⟨h, rfl⟩
    | some found =>
      rw [hget] at hrun
      have hread : (.ok (locals.setMeta i (s.val (.job found.id)).metadata), s) =
          ((.ok locals', s') : Except PyError Locals × Store) := hrun
      cases hread
      exact ⟨h.setMeta i _, rfl⟩
  | saveMeta i =>
    simp only [MetaCall.run] at hrun
    cases hget : locals.get? i with
    | none =>
      rw [hget] at hrun
      cases hrun
      exact ⟨h, rfl⟩
    | some found =>
      have hid := h.id_of_get? hget
      rw [hget] at hrun
      cases hrun
      refine ⟨⟨h.current, h.fetched, fun metadata hsaved => ?_⟩, ?_⟩
      · cases hsaved
        rw [← hid]
        simp
      · rw [← hid]
        simp

lemma runCalls_valid {calls : List MetaCall} (h : locals.Valid job s)
    (hrun : (runCalls calls locals).run s = (.ok locals', s')) :
    locals'.Valid job s' ∧ (s'.val (.job job.id)).status = (s.val (.job job.id)).status := by
  induction calls generalizing locals s with
  | nil =>
    cases hrun
    exact ⟨h, rfl⟩
  | cons call calls ih =>
    obtain ⟨locals₁, s₁, hcall, hrun⟩ := Prog.run_bind_eq_ok hrun
    obtain ⟨hvalid, hstatus⟩ := call.valid_run h hcall
    obtain ⟨hvalid', hstatus'⟩ := ih hvalid hrun
    exact ⟨hvalid', hstatus'.trans hstatus⟩

end Calls

/-- The current job when the function begins. -/
def Worker.started (self : Worker) (job : Job) (now : Time) : Job :=
  { job with
    workerName := some self.name, lastHeartbeat := some now, startedAt := some now,
    status := .started }

/-- **The first half of `perform_job`.** The job is started, and what the function has saved last is
stored. -/
lemma Worker.beginFunction_ok {self self' : Worker} {job : Job} {calls : List MetaCall}
    {now : Time} {s s' : Store} {locals : Locals}
    (h : (self.beginFunction job calls now).run s = (.ok (self', locals), s')) :
    self' = { self with currentJobWorkingTime := 0 } ∧
      locals.Valid (self.started job now) s' ∧
      (s'.val (.job job.id)).status = some .started := by
  unfold beginFunction at h
  rw [Prog.run_bind_ok (self.run_prepareJobExecution job _ now s)] at h
  dsimp only at h
  rw [Prog.run_bind_ok (Prog.run_perform _ _)] at h
  obtain ⟨locals', s₁, hcalls, h⟩ := Prog.run_bind_eq_ok h
  cases h
  have hstart := congrArg Trace.status (self.trace_startCommands job (self.queues.length = 1) now s)
  obtain ⟨hvalid, hstatus⟩ := @runCalls_valid (self.started job now) _ _ _ _ _
    ⟨rfl, by simp, fun _ hnone => by cases hnone⟩ hcalls
  refine ⟨rfl, hvalid, hstatus.trans ?_⟩
  rw [Command.val_persist]
  exact hstart

/-! ## What the commands make of the metadata -/

/-- The metadata that is stored. -/
def metadataOf (id : JobId) (s : Store) : Option String := (s.val (.job id)).metadata

/-- The command leaves the metadata `m` of the job as it is. -/
def KeepsMetadata (id : JobId) (m : Option String) (c : Command Key Value) : Prop :=
  ∀ s, metadataOf id s = m → metadataOf id (c.run s) = m

/-- The command saves the metadata `p`, which are left out if there are none. -/
def SavesMetadata (id : JobId) (p : Option String) (c : Command Key Value) : Prop :=
  ∀ s, metadataOf id (c.run s) = (p <|> metadataOf id s)

/-- The command saves the metadata `p` or none. -/
def WritesMetadata (id : JobId) (p : Option String) (c : Command Key Value) : Prop :=
  ∀ s, metadataOf id (c.run s) = metadataOf id s ∨ metadataOf id (c.run s) = (p <|> metadataOf id s)

lemma orElse_orElse_self {α : Type} (p m : Option α) : (p <|> p <|> m) = (p <|> m) := by
  cases p <;> rfl

/-- Nothing is lost by a copy that is empty or the same. -/
lemma orElse_eq_right_iff {α : Type} {p m : Option α} : (p <|> m) = m ↔ p = none ∨ p = m := by
  cases p <;> simp

section Commands
variable {id : JobId} {p m : Option String} {c : Command Key Value} {cs : List (Command Key Value)}

lemma writes_of_keeps (h : c.Keeps (.job id)) : WritesMetadata id p c :=
  fun s => .inl (congrArg JobHash.metadata (h s))

lemma SavesMetadata.writes (h : SavesMetadata id p c) : WritesMetadata id p c := fun s => .inr (h s)

lemma WritesMetadata.keeps (h : WritesMetadata id p c) (hp : p = none ∨ p = m) :
    KeepsMetadata id m c := by
  intro s hs
  rcases h s with hc | hc
  · rw [hc, hs]
  · rw [hc, hs, orElse_eq_right_iff.mpr hp]

lemma keepsMetadata_of_keeps (h : c.Keeps (.job id)) : KeepsMetadata id m c :=
  (writes_of_keeps (p := none) h).keeps (.inl rfl)

lemma keepsMetadata_seq (h : ∀ c ∈ cs, KeepsMetadata id m c) : KeepsMetadata id m (.seq cs) :=
  fun _ hs => Command.seq_preserves h hs

/-- Once the metadata have been saved they stay. -/
lemma WritesMetadata.keepsSaved (h : WritesMetadata id p c) : KeepsMetadata id (p <|> m) c := by
  intro s hs
  rcases h s with hc | hc
  · rw [hc, hs]
  · rw [hc, hs, orElse_orElse_self]

/-- **A transaction that saves the metadata once or more often.** -/
lemma savesMetadata_seq (h : ∀ c ∈ cs, WritesMetadata id p c)
    (hsave : ∃ c ∈ cs, SavesMetadata id p c) : SavesMetadata id p (.seq cs) := by
  intro s
  induction cs generalizing s with
  | nil =>
    obtain ⟨c, hc, -⟩ := hsave
    simp at hc
  | cons c cs ih =>
    have hrest : ∀ c ∈ cs, WritesMetadata id p c := fun c hc => h c (List.mem_cons_of_mem _ hc)
    have hkeep : KeepsMetadata id (p <|> metadataOf id s) (.seq cs) :=
      keepsMetadata_seq fun c hc => (hrest c hc).keepsSaved
    rw [Command.seq_cons_run]
    obtain ⟨d, hd, hsave⟩ := hsave
    rcases List.mem_cons.mp hd with rfl | hd
    · exact hkeep _ (hsave s)
    · rcases h c List.mem_cons_self s with hc | hc
      · rw [ih hrest ⟨d, hd, hsave⟩, hc]
      · exact hkeep _ hc

lemma metadataOf_hset (mapping : JobHash) (s : Store) :
    metadataOf id ((hset id mapping).run s) = (mapping.metadata <|> metadataOf id s) := by
  simp [metadataOf, JobHash.update]

lemma keeps_hset_ne {id' : JobId} (h : id' ≠ id) (mapping : JobHash) :
    (hset id' mapping).Keeps (.job id) :=
  Command.keeps_write (by simpa using h.symm)

/-- A mapping without metadata. -/
lemma writes_hset {mapping : JobHash} (h : mapping.metadata = none) :
    WritesMetadata id p (hset id mapping) :=
  fun s => .inl (by rw [metadataOf_hset, h]; rfl)

lemma saves_toDict (job : Job) :
    SavesMetadata job.id job.metadata (hset job.id (job.toDict true)) :=
  fun s => metadataOf_hset _ s

lemma keeps_push (key : String) (atFront : Bool) (id' : JobId) :
    (push key atFront id').Keeps (.job id) := by
  refine Command.keeps_seq fun c hc => ?_
  simp only [List.mem_cons, List.not_mem_nil, or_false] at hc
  rcases hc with rfl | rfl <;> exact Command.keeps_write (by simp)

lemma keeps_zrem (kind : RegistryKind) (name : QueueName) (id' : JobId) :
    (zrem kind name id').Keeps (.job id) := Command.keeps_alter (by simp)

lemma keeps_zadd (kind : RegistryKind) (name : QueueName) (id' : JobId) (score : Score) :
    (zadd kind name id' score).Keeps (.job id) := Command.keeps_alter (by simp)

lemma writes_of_enqueueCommand {queue : Queue} {job : Job} {now : Time}
    (hc : EnqueueCommand queue job now c) : WritesMetadata job.id job.metadata c := by
  cases hc with
  | undefer => exact writes_of_keeps (keeps_zrem _ _ _)
  | status => exact writes_hset rfl
  | save => exact (saves_toDict (queue._prepareForQueue job now)).writes
  | expire k t => exact writes_of_keeps Command.keeps_expire
  | push atFront => exact writes_of_keeps (keeps_push _ _ _)

/-- Another job is enqueued, or one whose metadata are those that are stored. -/
lemma keepsMetadata_of_enqueueCommand {queue : Queue} {job : Job} {now : Time}
    (hjob : job.id = id → job.metadata = m) (hc : EnqueueCommand queue job now c) :
    KeepsMetadata id m c := by
  by_cases hid : job.id = id
  · subst hid
    exact (writes_of_enqueueCommand hc).keeps (.inr (hjob rfl))
  · apply keepsMetadata_of_keeps
    cases hc with
    | undefer => exact keeps_zrem _ _ _
    | status => exact keeps_hset_ne hid _
    | save => exact keeps_hset_ne hid _
    | expire k t => exact Command.keeps_expire
    | push atFront => exact keeps_push _ _ _

/-- The release of dependents that have been fetched from the store. -/
lemma keepsMetadata_releaseAll {queue : Queue} {jobs : List Job} (s : Store) (id' : JobId)
    (hjobs : ∀ job ∈ jobs, job.id = id → job.metadata = m) (now : Time) :
    KeepsMetadata id m (.seq (queue.releaseAll s id' jobs now)) := by
  refine keepsMetadata_seq fun c hc => ?_
  unfold Queue.releaseAll at hc
  split at hc
  · simp at hc
  · rcases List.mem_append.mp hc with hc | hc
    · obtain ⟨job, hjob, hc⟩ := Queue.mem_releaseCommands hc
      rcases hc with rfl | hc
      · exact keepsMetadata_of_keeps (keeps_zrem _ _ _)
      · exact keepsMetadata_of_enqueueCommand (hjobs job hjob) hc
    · obtain rfl := List.mem_singleton.mp hc
      apply keepsMetadata_of_keeps
      unfold Queue.forgetCommand
      split
      · exact Command.keeps_del (by simp)
      · exact Command.keeps_alter (by simp)

/-! ### A job that is to run again -/

lemma writes_of_mem_cleanupCommands {ttl : Option ℤ} {now : Time}
    (hc : c ∈ cleanupCommands id ttl now) : WritesMetadata id p c := by
  unfold cleanupCommands at hc
  split at hc
  · simp only [List.mem_cons, List.not_mem_nil, or_false] at hc
    rcases hc with rfl | rfl | rfl <;> exact writes_of_keeps Command.keeps_expire
  · simp at hc

lemma writes_of_mem_persistCommands {job : Job} {status : JobStatus} {now : Time}
    (hc : c ∈ persistCommands job status now) : WritesMetadata job.id job.metadata c := by
  simp only [persistCommands, List.mem_append, List.mem_cons, List.not_mem_nil, or_false] at hc
  rcases hc with (rfl | rfl) | hc
  · exact writes_hset rfl
  · exact (saves_toDict { job with status := status }).writes
  · exact writes_of_mem_cleanupCommands hc

lemma exists_saves_persistCommands (job : Job) (status : JobStatus) (now : Time) :
    ∃ c ∈ persistCommands job status now, SavesMetadata job.id job.metadata c :=
  ⟨_, by simp [persistCommands], saves_toDict { job with status := status }⟩

lemma savesMetadata_enqueueCommands (queue : Queue) (job : Job) (atFront : Bool) (now : Time) :
    SavesMetadata job.id job.metadata (.seq (enqueueCommands queue job atFront now)) := by
  obtain ⟨c, hc, hsave⟩ := exists_saves_persistCommands (queue._prepareForQueue job now) .queued now
  refine savesMetadata_seq (fun _ hc => writes_of_enqueueCommand (enqueueCommand_of_mem hc))
    ⟨c, ?_, hsave⟩
  exact List.mem_append_left _ (List.mem_append_right _ hc)

lemma savesMetadata_scheduleCommands (queue : Queue) (job : Job) (now : Time) :
    SavesMetadata job.id job.metadata (.seq ((.alter .queues fun q => q.insert queue.key) ::
      persistCommands job .scheduled now)) := by
  obtain ⟨c, hc, hsave⟩ := exists_saves_persistCommands job .scheduled now
  refine savesMetadata_seq (fun c hc => ?_) ⟨c, List.mem_cons_of_mem _ hc, hsave⟩
  rcases List.mem_cons.mp hc with rfl | hc
  · exact writes_of_keeps (Command.keeps_alter (by simp))
  · exact writes_of_mem_persistCommands hc

lemma savesMetadata_againLater (queue : Queue) (job : Job) (interval : ℕ) (atFront : Bool)
    (now : Time) :
    SavesMetadata job.id job.metadata (.seq (againLater queue job interval atFront now)) := by
  unfold againLater
  split
  · exact savesMetadata_enqueueCommands queue job atFront now
  · exact savesMetadata_scheduleCommands queue { job with status := .scheduled } now

lemma keepsMetadata_againNow (queue : Queue) (job : Job) (interval : ℕ) (now : Time) :
    KeepsMetadata id m (.seq (againNow queue job interval now)) := by
  refine keepsMetadata_seq fun c hc => ?_
  unfold againNow at hc
  split at hc
  · simp at hc
  · simp only [List.mem_cons, List.not_mem_nil, or_false] at hc
    rcases hc with rfl | rfl
    · by_cases hid : job.id = id
      · exact hid ▸ (writes_hset (p := none) rfl).keeps (.inl rfl)
      · exact keepsMetadata_of_keeps (keeps_hset_ne hid _)
    · exact keepsMetadata_of_keeps (keeps_zadd _ _ _ _)

/-! ### The other commands -/

lemma keeps_resultCommands (id' : JobId) (result : Result) (ttl : Option ℤ) (now : Time) :
    (Command.seq (Job.resultCommands id' result ttl now)).Keeps (.job id) := by
  refine Command.keeps_seq fun c hc => ?_
  rcases List.mem_cons.mp hc with rfl | hc
  · exact Command.keeps_write (by simp)
  · split at hc
    · simp at hc
    · split at hc <;> obtain rfl := List.mem_singleton.mp hc
      · exact Command.keeps_persist
      · unfold expire
        split
        · exact Command.keeps_del (by simp)
        · exact Command.keeps_expire

lemma keeps_hsetWorker (name : WorkerName) (f : WorkerHash → WorkerHash) :
    (hsetWorker name f).Keeps (.job id) := by
  unfold hsetWorker
  exact Command.keeps_write (by simp)

end Commands

end RedisQueue
