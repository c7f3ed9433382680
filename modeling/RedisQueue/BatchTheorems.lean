import RedisQueue.Rejections
import RedisQueue.UniqueEntries

/-!
# Batches

What `Queue.enqueue_many` without a pipeline leaves in the store.

* `enqueueNormals_ok`: the pass over the plain entries of an async queue only buffers commands;
* `enqueueMany_aborted`: what is left of a batch that is refused.
-/

namespace RedisQueue

open Prog

namespace Queue
variable {self : Queue} {sync : Option SyncCode} {groupId : Option String} {now : Time} {s s' : Store}
  {pipe : Pipeline Key Value} {client : Client} {e : PyError}

/-! ## The passes -/

/-- The pipeline of a batch after `SADD rq:queues`. -/
def registering (self : Queue) : Pipeline Key Value :=
  Pipeline.buffer {} [.alter .queues fun q => q.insert self.key]

/-- The commands by which an async queue enqueues entries without dependencies. -/
def normalCommands (self : Queue) (groupId : Option String) (now : Time)
    (jds : List (ℕ × EnqueueData)) : List (Command Key Value) :=
  jds.flatMap fun jd => enqueueCommands self (self.newJob jd.2 .queued groupId) jd.2.atFront now

lemma newJob_ttl {jd : EnqueueData} (h : jd.Accepted) {status : JobStatus} :
    (self.newJob jd status groupId).ttl ≠ some 0 := by
  intro hzero
  have hpos := h.ttl 0 hzero
  omega

lemma enqueueNormals_ok {jds : List (ℕ × EnqueueData)} (h : ∀ jd ∈ jds, jd.2.Accepted)
    (hpipe : pipe.immediate = false) :
    self.enqueueNormals none groupId now jds (some pipe) =
      .ret (jds.map fun jd => (jd.1, self._prepareForQueue (self.newJob jd.2 .queued groupId) now),
        some (pipe.buffer (self.normalCommands groupId now jds))) := by
  induction jds generalizing pipe with
  | nil => simp [enqueueNormals, normalCommands]
  | cons jd jds ih =>
    obtain ⟨i, jd⟩ := jd
    have hjd : jd.Accepted := h (i, jd) List.mem_cons_self
    have hbuffer := @Queue.enqueueJob_buffer pipe hpipe self (self.newJob jd .queued groupId)
      (newJob_ttl hjd) jd.atFront now
    have hrest := @ih (pipe.buffer
      (enqueueCommands self (self.newJob jd .queued groupId) jd.atFront now))
      (fun jd hmem => h jd (List.mem_cons_of_mem _ hmem)) hpipe
    simp only [enqueueNormals, createJob_ok hjd, _enqueueJobOn, Prog.ofExcept_ok, Prog.ret_bind,
      hbuffer, hrest, Prog.pure_eq, Pipeline.buffer_buffer]
    rfl

/-- A pass over plain entries is refused by `create_job`, and only after the entries before. -/
lemma run_enqueueNormals_error {jds : List (ℕ × EnqueueData)} (he : e.Rejects)
    (h : (self.enqueueNormals sync groupId now jds client).run s = (.error e, s')) :
    ∃ before jd after r, jds = before ++ jd :: after ∧ (∀ jd ∈ before, jd.2.Accepted) ∧
      ¬jd.2.Accepted ∧
      (self.enqueueNormals sync groupId now before client).run s = (.ok r, s') := by
  induction jds generalizing s client with
  | nil => cases h
  | cons jd jds ih =>
    obtain ⟨i, jd⟩ := jd
    by_cases hjd : jd.Accepted
    · rw [enqueueNormals, createJob_ok hjd, Prog.ofExcept_ok, Prog.ret_bind] at h
      rcases Prog.run_bind_eq_error h with hrun | ⟨⟨job, client'⟩, s₁, hrun, h⟩
      · exact absurd he (unrejected_enqueueJobOn.run hrun)
      · rcases Prog.run_bind_eq_error h with hrest | ⟨_, _, _, h⟩
        · obtain ⟨before, jd', after, r, rfl, hbefore, hjd', hrun'⟩ := ih hrest
          refine ⟨(i, jd) :: before, jd', after, ((i, job) :: r.1, r.2), rfl, ?_, hjd', ?_⟩
          · intro x hx
            rcases List.mem_cons.mp hx with rfl | hx
            · exact hjd
            · exact hbefore x hx
          · rw [enqueueNormals, createJob_ok hjd, Prog.ofExcept_ok, Prog.ret_bind,
              Prog.run_bind_ok hrun, Prog.run_bind_ok hrun']
            rfl
        · cases h
    · obtain ⟨msg, hmsg⟩ := @createJob_error self jd .queued groupId hjd
      rw [enqueueNormals, hmsg, Prog.ofExcept_error, Prog.throw_bind, Prog.run_throw] at h
      obtain ⟨-, rfl⟩ := Prod.mk.inj h
      exact ⟨[], (i, jd), jds, ([], client), rfl, by simp, hjd, rfl⟩

lemma run_saveDeferred_error {jds : List (ℕ × EnqueueData)} (hpipe : pipe.immediate = false)
    (h : (self.saveDeferred groupId jds (some pipe)).run s = (.error e, s')) :
    s' = s ∧ ∃ before jd after, jds = before ++ jd :: after ∧ ¬jd.2.Accepted := by
  induction jds generalizing pipe with
  | nil => cases h
  | cons jd jds ih =>
    obtain ⟨i, jd⟩ := jd
    by_cases hjd : jd.Accepted
    · rw [saveDeferred, createJob_ok hjd, Prog.ofExcept_ok, Prog.ret_bind, Job.save_buffer hpipe,
        Prog.ret_bind] at h
      rcases Prog.run_bind_eq_error h with hrest | ⟨_, _, _, h⟩
      · obtain ⟨hs, before, jd', after, rfl, hjd'⟩ := ih (by exact hpipe) hrest
        exact ⟨hs, (i, jd) :: before, jd', after, rfl, hjd'⟩
      · cases h
    · obtain ⟨msg, hmsg⟩ := @createJob_error self jd .deferred groupId hjd
      rw [saveDeferred, hmsg, Prog.ofExcept_error, Prog.throw_bind, Prog.run_throw] at h
      obtain ⟨-, rfl⟩ := Prod.mk.inj h
      exact ⟨rfl, [], (i, jd), jds, rfl, hjd⟩

/-- The pass over the plain entries of an async queue is one transaction. -/
lemma run_enqueueNormalNoDeps {jds : List (ℕ × EnqueueData)} (hne : jds ≠ [])
    (h : ∀ jd ∈ jds, jd.2.Accepted) (s : Store) :
    (self.enqueueNormalNoDeps none jds none (some self.registering) groupId now).run s =
      (.ok (jds.map fun jd => (jd.1, self._prepareForQueue (self.newJob jd.2 .queued groupId) now),
          some {}),
        (Command.seq ((.alter .queues fun q => q.insert self.key) ::
          self.normalCommands groupId now jds)).run s) := by
  unfold enqueueNormalNoDeps
  rw [if_neg hne, enqueueNormals_ok h (by simp [registering]), Prog.ret_bind]
  dsimp only [executeOwn]
  rw [Option.getD_some, Pipeline.execute_of_unwatched rfl (by simp [registering]), Prog.exec_bind,
    Prog.exec_bind, Prog.run_exec, if_pos rfl]
  rfl

/-- Whatever the entries, the pipeline is then still the one it was, or a fresh one. -/
lemma run_enqueueNormalNoDeps_ok {jds : List (ℕ × EnqueueData)} {jobs : List (ℕ × Job)}
    {client' : Client}
    (h : (self.enqueueNormalNoDeps sync jds none client groupId now).run s =
      (.ok (jobs, client'), s')) : client' = client ∨ client' = some {} := by
  unfold enqueueNormalNoDeps at h
  split at h
  · cases h
    exact .inl rfl
  · obtain ⟨_, _, -, h⟩ := Prog.run_bind_eq_ok h
    obtain ⟨_, _, hexecute, h⟩ := Prog.run_bind_eq_ok h
    obtain ⟨_, _, -, hexecute⟩ := Prog.run_bind_eq_ok hexecute
    cases hexecute
    cases h
    exact .inr rfl

lemma accepted_of_run_enqueueNormals {jds : List (ℕ × EnqueueData)} {r : List (ℕ × Job) × Client}
    (h : (self.enqueueNormals sync groupId now jds client).run s = (.ok r, s')) :
    ∀ jd ∈ jds, jd.2.Accepted := by
  induction jds generalizing s s' client r with
  | nil => simp
  | cons jd jds ih =>
    obtain ⟨i, jd⟩ := jd
    by_cases hjd : jd.Accepted
    · obtain ⟨job, _, hjob, h⟩ := Prog.run_bind_eq_ok h
      obtain ⟨_, _, -, h⟩ := Prog.run_bind_eq_ok h
      obtain ⟨_, _, hrest, -⟩ := Prog.run_bind_eq_ok h
      intro x hx
      rcases List.mem_cons.mp hx with rfl | hx
      · exact hjd
      · exact ih hrest x hx
    · obtain ⟨msg, hmsg⟩ := @createJob_error self jd .queued groupId hjd
      rw [enqueueNormals, hmsg, Prog.ofExcept_error, Prog.throw_bind, Prog.run_throw] at h
      cases h

/-- The store after the pass over the plain entries of an async queue. -/
lemma store_enqueueNormalNoDeps {jds : List (ℕ × EnqueueData)} {r : List (ℕ × Job) × Client}
    (h : (self.enqueueNormalNoDeps none jds none (some self.registering) groupId now).run s =
      (.ok r, s')) :
    s' = if jds = [] then s else (Command.seq ((.alter .queues fun q => q.insert self.key) ::
      self.normalCommands groupId now jds)).run s := by
  split
  · next hnil =>
    rw [enqueueNormalNoDeps, if_pos hnil] at h
    cases h
    rfl
  · next hne =>
    have hrun := h
    rw [enqueueNormalNoDeps, if_neg hne] at hrun
    obtain ⟨_, _, hnormals, -⟩ := Prog.run_bind_eq_ok hrun
    rw [run_enqueueNormalNoDeps hne (accepted_of_run_enqueueNormals hnormals)] at h
    exact (Prod.mk.inj h).2.symm

/-! ## A batch that is refused -/

/-- What is left of a batch that is refused: nothing of the entry at fault, of those behind it in
its pass, and of the later passes. -/
inductive Aborted (self : Queue) (sync : Option SyncCode) (groupId : Option String) (now : Time)
    (jds : List EnqueueData) (s : Store) : Store → Prop where
  /-- By the validation. -/
  | invalid (h : validate jds ≠ .ok ()) : Aborted self sync groupId now jds s s
  /-- At a unique entry. Those before it have been saved and pushed. -/
  | unique (before after : List (ℕ × EnqueueData)) (jd : ℕ × EnqueueData)
      (hjds : uniqueNoDeps jds = before ++ jd :: after)
      (hjd : ¬jd.2.Accepted ∨ s.val (.job jd.2.id) ≠ default ∨
        jd.2.id ∈ before.map fun jd => jd.2.id) :
    Aborted self sync groupId now jds s
      ((Command.seq (self.uniqueCommands groupId now before)).run s)
  /-- At a plain entry. The unique ones have been saved and pushed; the jobs of the plain ones
  before it have run if the queue is synchronous. -/
  | plain (before after : List (ℕ × EnqueueData)) (jd : ℕ × EnqueueData) (s₁ s' : Store)
      (hjds : normalNoDeps jds = before ++ jd :: after) (hjd : ¬jd.2.Accepted)
      (hs₁ : s₁ = (Command.seq (self.uniqueCommands groupId now (uniqueNoDeps jds))).run s)
      (hasync : sync = none → s' = s₁)
      (hsync : ∃ r, (self.enqueueNormals sync groupId now before (some self.registering)).run s₁ =
        (.ok r, s')) :
    Aborted self sync groupId now jds s s'
  /-- At an entry with dependencies. The unique ones have been saved and pushed, and then the plain
  ones enqueued, or run if the queue is synchronous. -/
  | dependent (before after : List (ℕ × EnqueueData)) (jd : ℕ × EnqueueData) (s₁ s' : Store)
      (hjds : withDeps jds = before ++ jd :: after) (hjd : ¬jd.2.Accepted)
      (hs₁ : s₁ = (Command.seq (self.uniqueCommands groupId now (uniqueNoDeps jds))).run s)
      (hasync : sync = none → s' = if normalNoDeps jds = [] then s₁ else
        (Command.seq ((.alter .queues fun q => q.insert self.key) ::
          self.normalCommands groupId now (normalNoDeps jds))).run s₁)
      (hsync : ∃ r, (self.enqueueNormalNoDeps sync (normalNoDeps jds) none (some self.registering)
        groupId now).run s₁ = (.ok r, s')) :
    Aborted self sync groupId now jds s s'

/-- The first passes up to their end, or the refusal. -/
lemma run_enqueueNormalNoDeps_error {jds : List (ℕ × EnqueueData)} (he : e.Rejects)
    (h : (self.enqueueNormalNoDeps sync jds none client groupId now).run s = (.error e, s')) :
    ∃ before jd after r, jds = before ++ jd :: after ∧ (∀ jd ∈ before, jd.2.Accepted) ∧
      ¬jd.2.Accepted ∧
      (self.enqueueNormals sync groupId now before client).run s = (.ok r, s') := by
  unfold enqueueNormalNoDeps at h
  split at h
  · cases h
  · rcases Prog.run_bind_eq_error h with hrun | ⟨⟨jobs, client'⟩, s₁, -, h⟩
    · exact run_enqueueNormals_error he hrun
    · refine absurd he (Unrejected.not_rejects ?_ h)
      exact unrejected_executeOwn.bind fun _ => trivial

lemma run_enqueueWithDeps_error {jds : List (ℕ × EnqueueData)} {fuel : ℕ} (he : e.Rejects)
    (hpipe : pipe.immediate = false)
    (h : (self.enqueueWithDeps sync jds none (some pipe) groupId now fuel).run s =
      (.error e, s')) :
    s' = s ∧ ∃ before jd after, jds = before ++ jd :: after ∧ ¬jd.2.Accepted := by
  unfold enqueueWithDeps at h
  split at h
  · cases h
  · rcases Prog.run_bind_eq_error h with hrun | ⟨⟨deferred, client⟩, s₁, -, h⟩
    · exact run_saveDeferred_error hpipe hrun
    · -- what follows once all entries are saved refuses nothing
      refine absurd he (Unrejected.not_rejects ?_ h)
      exact unrejected_executeOwn.bind fun _ => unrejected_getJobsWithMetDependencies.bind fun _ =>
        unrejected_enqueueMet.bind fun _ => unrejected_executeOwn.bind fun _ => trivial

/-- **A batch that is refused leaves the passes before the refusal.** -/
theorem enqueueMany_aborted (self : Queue) (sync : Option SyncCode) (jds : List EnqueueData)
    (groupId : Option String) (now : Time) (fuel : ℕ) (s s' : Store) (e : PyError)
    (h : (self.enqueueMany sync jds none groupId now fuel).run s = (.error e, s'))
    (he : e.Rejects) : Aborted self sync groupId now jds s s' := by
  unfold enqueueMany at h
  by_cases hvalid : validate jds = .ok ()
  · rw [hvalid, Prog.ofExcept_ok, Prog.ret_bind, Option.getD_none,
      Client.command_buffer Pipeline.immediate_empty, Prog.ret_bind] at h
    generalize huniques : (self.enqueueUniques groupId now (uniqueNoDeps jds)).run s = r at h
    have hend := @run_enqueueUniques self groupId now (uniqueNoDeps jds) s
    rw [huniques] at hend
    generalize hjds : uniqueNoDeps jds = uniques at huniques hend
    cases hend with
    | rejected before after jd msg hfresh hjd =>
      rw [hjds, Prog.run_bind_error huniques] at h
      obtain ⟨-, rfl⟩ := Prod.mk.inj h
      exact .unique before after jd hjds (.inl hjd)
    | duplicate before after jd hfresh haccepted hexists =>
      rw [hjds, Prog.run_bind_error huniques] at h
      obtain ⟨-, rfl⟩ := Prod.mk.inj h
      exact .unique before after jd hjds (.inr hexists)
    | all _ haccepted hfresh hdistinct =>
      rw [hjds, Prog.run_bind_ok huniques] at h
      generalize hs₁ : (Command.seq (self.uniqueCommands groupId now uniques)).run s = s₁ at h
      have hs₁' : s₁ = (Command.seq (self.uniqueCommands groupId now (uniqueNoDeps jds))).run s := by
        rw [← hs₁, hjds]
      rcases Prog.run_bind_eq_error h with hnormals | ⟨⟨jobs, client⟩, s₂, hnormals, h⟩
      · obtain ⟨before, jd, after, r, hsplit, hbefore, hjd, hrun⟩ :=
          run_enqueueNormalNoDeps_error he hnormals
        refine .plain before after jd s₁ s' hsplit hjd hs₁' (fun hasync => ?_) ⟨r, hrun⟩
        subst hasync
        rw [enqueueNormals_ok hbefore (by simp), Prog.run_ret] at hrun
        exact (Prod.mk.inj hrun).2.symm
      · obtain ⟨pipe, rfl, hpipe⟩ : ∃ pipe, client = some pipe ∧ pipe.immediate = false := by
          rcases run_enqueueNormalNoDeps_ok hnormals with rfl | rfl
          · exact ⟨_, rfl, by simp⟩
          · exact ⟨_, rfl, Pipeline.immediate_empty⟩
        rcases Prog.run_bind_eq_error h with hdeps | ⟨⟨deferred, client'⟩, s₃, hdeps, h⟩
        · obtain ⟨rfl, before, jd, after, hsplit, hjd⟩ := run_enqueueWithDeps_error he hpipe hdeps
          refine .dependent before after jd s₁ s' hsplit hjd hs₁' (fun hasync => ?_) ⟨_, hnormals⟩
          subst hasync
          exact store_enqueueNormalNoDeps hnormals
        · refine absurd he (Unrejected.not_rejects ?_ h)
          exact (raises_ofExcept fun e he => unrejected_rebuild he).bind fun _ => trivial
  · obtain ⟨msg, hmsg⟩ := validate_error hvalid
    rw [hmsg, Prog.ofExcept_error, Prog.throw_bind, Prog.run_throw] at h
    obtain ⟨-, rfl⟩ := Prod.mk.inj h
    exact .invalid hvalid

/-! ### A unique entry before one that is refused -/

/-- A unique entry, and one with a time to live that `create_job` does not accept. -/
def refusedBatch : List EnqueueData := [{ jobId := some "a", unique := true }, { ttl := some 0 }]

theorem enqueueMany_aborted_unique : ∃ s',
    ((Queue.enqueueMany { name := "default" } none refusedBatch none none 0 0).run Store.empty =
      (.error (.valueError "Job ttl must be greater than 0"), s')) ∧
    Aborted { name := "default" } none none 0 refusedBatch Store.empty s' :=
  ⟨_, rfl, enqueueMany_aborted { name := "default" } none refusedBatch none 0 0 Store.empty _ _ rfl
    (by simp [PyError.Rejects, rejections])⟩

/-- The unique entry is there although the call raises. -/
theorem refusedBatch_not_atomic :
    ((Queue.enqueueMany { name := "default" } none refusedBatch none none 0 0).run
      Store.empty).1 = .error (.valueError "Job ttl must be greater than 0") ∧
    ((Queue.enqueueMany { name := "default" } none refusedBatch none none 0 0).run
      Store.empty).2.val (.job "a") ≠ Store.empty.val (.job "a") ∧
    ((Queue.enqueueMany { name := "default" } none refusedBatch none none 0 0).run
      Store.empty).2.val (.list (queueKey "default")) = ["a"] :=
  ⟨rfl, by decide, by decide⟩

end Queue

end RedisQueue
