import RedisQueue.AbandonedTheorems

/-!
# The dependents of abandoned jobs

Which deferred jobs a clean-up of abandoned jobs releases. Every job of the batch is looked at in
turn: the failures of the batch wait in one pipeline, the releases do not.

* `Requeued`: the jobs that the first turns of a batch have put back into a queue;
* `run_cleanup_advanced`: the clean-up puts exactly these into their queues;
* `releasesDependents_iff`: when the clean-up releases every dependent that it should.
-/

namespace RedisQueue

open Prog

variable {s s₁ s₂ s' : Store} {now : Time} {pipe : Pipeline Key Value}

lemma Job.Trimmed.advanced {id : JobId} (h : Job.Trimmed id now s s') :
    Advanced s (fun _ => False) s' :=
  .of_val (fun _ => h.val (by simp)) (fun _ => h.val (by simp)) (fun _ => h.val (by simp))
    (h.val (by simp))

namespace StartedJobRegistry

/-! ## The turns of a batch -/

/-- The job is stored as `FINISHED` or `FAILED`. -/
def Settled (s : Store) (id : JobId) : Prop :=
  (s.val (.job id)).status = some .finished ∨ (s.val (.job id)).status = some .failed

/-- The job is saved with `allow_dependency_failures`. -/
def Allows (s : Store) (id : JobId) : Prop :=
  (s.val (.job id)).allowDependencyFailures = some true

/-- The stored status of the dependency `d` does not hold back the job. -/
def Harmless (s : Store) (id d : JobId) : Prop :=
  ∀ status ∈ (s.val (.job d)).status, status = .finished ∨ status = .failed ∧ Allows s id

/-- The failure of `parent` looks at the job. -/
structure Listed (s : Store) (parent id : JobId) : Prop where
  dependent : id ∈ s.val (.dependents parent)
  saved : (s.val (.job id)).data.isSome
  notCanceled : (s.val (.job id)).status ≠ some .canceled

/-- A parent whose object has this status does not hold back the job. -/
def Passes (s : Store) (status : JobStatus) (id : JobId) : Prop :=
  status ≠ .canceled ∧ status ≠ .stopped ∧ (status = .failed → Allows s id)

/-- The object of `parent` does not hold back the job. It is `FAILED`, but with a failure TTL of zero
it has been deleted and has its stored status again: the one in `s`, or `QUEUED` once the parent was
put back into a queue. -/
def Lets (s : Store) (requeued : Prop) (parent id : JobId) : Prop :=
  if (s.val (.job parent)).failureTtl = some 0 then
    requeued ∨ ∀ status ∈ (s.val (.job parent)).status, Passes s status id
  else
    Allows s id

/-- A turn of one of the given jobs, the last one first, has put the job back into its queue: at
that turn neither the parent nor another dependency held it back. -/
def Requeued (s : Store) : List JobId → JobId → Prop
  | [], _ => False
  | parent :: earlier, id => Requeued s earlier id ∨
      Listed s parent id ∧ Lets s (Requeued s earlier parent) parent id ∧
        ∀ d ∈ s.val (.dependencies id), d ≠ parent → Harmless s id d ∧ ¬Requeued s earlier d

lemma statusAllowed_iff {d : Job} (hd : Job.restore d.id (s.val (.job d.id)) = .ok d) (id : JobId) :
    d.statusAllowed (s.val (.job id)).status = true ↔ Harmless s d.id id := by
  have hallows := Job.restore_allows hd
  unfold Job.statusAllowed Harmless Allows
  cases (s.val (.job id)).status with
  | none => simp
  | some status =>
    by_cases ha : d.allowDependencyFailures = some true <;>
      simp [Job.allowedStatuses, ← hallows, ha]

lemma readyIn_iff {parent d : Job} (hd : Job.restore d.id (s.val (.job d.id)) = .ok d) :
    d.readyIn s parent = true ↔ Passes s parent.status d.id ∧
      (s.val (.job d.id)).status ≠ some .canceled ∧
      ∀ d' ∈ s.val (.dependencies d.id), d' ≠ parent.id → Harmless s d.id d' := by
  have hallows := Job.restore_allows hd
  have hstatus : d.status ≠ .canceled ↔ (s.val (.job d.id)).status ≠ some .canceled := by
    rw [Job.restore_status hd]
    cases (s.val (.job d.id)).status <;> simp
  simp only [Job.readyIn, Job.statusesAllowedIn, Bool.and_eq_true, List.all_eq_true,
    List.mem_filter, statusAllowed_iff hd, bne_iff_ne, hstatus, Passes, Allows, ← hallows]
  simp [RSet.mem_def]
  tauto

/-- The object that a turn gives to `enqueue_dependents`. -/
lemma passes_failedJob {requeued : JobId → Prop} (h : Advanced s requeued s₁) {job : Job}
    (hfetch : Job.restore job.id (s₁.val (.job job.id)) = .ok job)
    (httl : (s₁.val (.job job.id)).failureTtl = (s.val (.job job.id)).failureTtl)
    (hstatus : job.failureTtl = some 0 → (s₁.val (.job job.id)).status.isSome) (id : JobId) :
    Passes s (failedJob s₁ job).status id ↔ Lets s (requeued job.id) job.id id := by
  rw [← Job.restore_failureTtl hfetch] at httl
  unfold Lets failedJob
  by_cases h0 : job.failureTtl = some 0
  · obtain ⟨status, hs⟩ := Option.isSome_iff_exists.mp (hstatus h0)
    rw [← httl, if_pos h0, h0, Job.cleaned_zero]
    simp only [Job.refreshed, hs, Option.getD_some]
    by_cases hq : requeued job.id
    · obtain rfl : status = .queued := by simpa [hs] using h.status job.id hq
      simp [hq, Passes]
    · rw [← h.kept job.id hq, hs]
      simp [hq]
  · rw [← httl, if_neg h0, Job.cleaned_of_ne _ _ h0]
    simp [Passes]

/-- One turn: the failure of a job with the object `parent` releases the dependents it lists. -/
lemma requeued_step {earlier : List JobId} {parent : Job} {r : List Job × Job}
    (h : Advanced s (Requeued s earlier) s₁)
    (hlets : ∀ id, Passes s parent.status id ↔
      Lets s (Requeued s earlier parent.id) parent.id id)
    (hr : Queue.releaseIn s₁ parent none false = .ok r) (id : JobId) :
    Requeued s earlier id ∨ id ∈ r.1.map Job.id ↔ Requeued s (parent.id :: earlier) id := by
  have hallows : ∀ id, Allows s₁ id ↔ Allows s id := fun id => by rw [Allows, h.allows, Allows]
  have hpasses : ∀ status id, Passes s₁ status id ↔ Passes s status id := fun status id => by
    simp only [Passes, hallows]
  have hharmless : ∀ id d, Harmless s₁ id d ↔ Harmless s id d ∧ ¬Requeued s earlier d :=
    fun id d => by
      by_cases hq : Requeued s earlier d
      · simp [Harmless, h.status d hq, hq]
      · simp [Harmless, h.kept d hq, hq, hallows]
  simp only [Requeued]
  by_cases hq : Requeued s earlier id
  · simp [hq]
  refine or_congr_right ?_
  rw [← h.dependencies]
  simp only [← hharmless, ← hlets]
  constructor
  · intro hid
    obtain ⟨d, hd, rfl⟩ := List.mem_map.mp hid
    obtain ⟨hmem, hok, hready⟩ := (Queue.mem_releaseIn hr).mp hd
    obtain ⟨hpass, hcanceled, hdependencies⟩ := (readyIn_iff hok).mp hready
    refine ⟨⟨h.fewer _ _ hmem, ?_, ?_⟩, (hpasses _ _).mp hpass, hdependencies⟩
    · rw [← h.data]
      exact Job.restore_isSome hok
    · rwa [← h.kept _ hq]
  · rintro ⟨⟨hmem, hsaved, hcanceled⟩, hpass, hdependencies⟩
    rw [← h.data] at hsaved
    obtain ⟨d, hok⟩ := Job.exists_restore id hsaved
    obtain rfl := (Job.restore_ok hok).1
    refine List.mem_map_of_mem ((Queue.mem_releaseIn hr).mpr
      ⟨h.dependents _ _ hmem hq, hok, (readyIn_iff hok).mpr
        ⟨(hpasses _ _).mpr hpass, ?_, hdependencies⟩⟩)
    rwa [h.kept _ hq]

/-! ## The end of a batch -/

/-- The status of an abandoned job after the clean-up; with a failure TTL of zero it is deleted. -/
def endStatus (s : Store) (id : JobId) : Option JobStatus :=
  if (s.val (.job id)).failureTtl = some 0 then none else some .failed

/-- The buffered commands give the jobs `ids` these statuses and change no other job. -/
structure Ends (status : JobId → Option JobStatus) (ids : List JobId)
    (cs : List (Command Key Value)) : Prop where
  status : ∀ t : Store, ∀ id ∈ ids, (((Command.seq cs).run t).val (.job id)).status = status id
  others : ∀ t : Store, ∀ id ∉ ids, ((Command.seq cs).run t).val (.job id) = t.val (.job id)
  log : ∀ t : Store, ((Command.seq cs).run t).val .log = t.val .log

lemma Ends.append {status : JobId → Option JobStatus} {ids ids' : List JobId}
    {cs cs' : List (Command Key Value)} (h : Ends status ids cs) (h' : Ends status ids' cs') :
    Ends status (ids ++ ids') (cs ++ cs') where
  status t id hid := by
    rw [Command.seq_append_run]
    by_cases hmem : id ∈ ids'
    · exact h'.status _ id hmem
    · rw [h'.others _ id hmem]
      exact h.status t id ((List.mem_append.mp hid).resolve_right hmem)
  others t id hid := by
    rw [List.mem_append, not_or] at hid
    rw [Command.seq_append_run, h'.others _ id hid.2, h.others t id hid.1]
  log t := by rw [Command.seq_append_run, h'.log, h.log]

lemma keeps_deletionCommand {job : Job} {c : Command Key Value} (hc : job.DeletionCommand c) :
    c.Keeps .log ∧ (∀ id ≠ job.id, c.Keeps (.job id)) ∧
      ∀ t, t.val (.job job.id) = default → (c.run t).val (.job job.id) = default := by
  cases hc with
  | side k hk f =>
    have hjob : ∀ id, Key.job id ≠ k := by
      rintro id rfl
      exact hk
    have hlog : Key.log ≠ k := by
      rintro rfl
      exact hk
    exact ⟨Command.keeps_alter hlog, fun id _ => Command.keeps_alter (hjob id), fun t ht =>
      (Command.keeps_alter (hjob _) t).trans ht⟩
  | leave name p hp => exact ⟨fun t => by simp, fun id _ t => by simp, fun t ht => by simpa using ht⟩
  | hash => exact ⟨fun t => by simp, fun id hid t => by simp [hid], fun t _ => by simp⟩

lemma keeps_failureCommand {job : Job} {c : Command Key Value} (hc : job.FailureCommand c) :
    c.Keeps .log ∧ (∀ id ≠ job.id, c.Keeps (.job id)) ∧
      (job.failureTtl ≠ some 0 → c.Keeps (.job job.id)) ∧
      ∀ t, t.val (.job job.id) = default → (c.run t).val (.job job.id) = default := by
  cases hc with
  | delete h0 hc =>
    obtain ⟨hlog, hothers, hgone⟩ := keeps_deletionCommand hc
    exact ⟨hlog, hothers, fun hne => absurd h0 hne, hgone⟩
  | discard ttl now =>
    unfold RedisQueue.expire
    split <;> exact ⟨fun t => by simp, fun id _ t => by simp, fun _ t => by simp,
      fun t ht => by simpa using ht⟩
  | _ => exact ⟨fun t => by simp, fun id _ t => by simp, fun _ t => by simp,
      fun t ht => by simpa using ht⟩

lemma ends_failureIn {job : Job} (hfetch : Job.restore job.id (s.val (.job job.id)) = .ok job)
    {excString : String} {info : Job.ExecutionInfo} {cs : List (Command Key Value)}
    (h : ({ job with status := .failed } : Job).failureIn s₁ excString info now = .ok cs) :
    Ends (endStatus s) [job.id] ([hset job.id { status := some .failed }] ++ cs) := by
  obtain ⟨rest, rfl, hrest, hdelete⟩ := Job.failureIn_ok h
  have httl : job.failureTtl = (s.val (.job job.id)).failureTtl := Job.restore_failureTtl hfetch
  refine ⟨fun t id hid => ?_, fun t id hid => ?_, fun t => ?_⟩
  · obtain rfl := List.mem_singleton.mp hid
    rw [endStatus, ← httl, List.singleton_append, Command.seq_cons_run, Command.seq_cons_run]
    by_cases h0 : job.failureTtl = some 0
    · have hgone : ∀ t : Store, ((Command.seq rest).run t).val (.job job.id) = default :=
        Command.seq_establishes (P := fun t => t.val (.job job.id) = default)
          (fun c hc t ht => (keeps_failureCommand (hrest c hc)).2.2.2 t ht) (hdelete h0)
          fun t => by simp
      rw [hgone, if_pos h0]
      rfl
    · have hkeep : (Command.seq rest).Keeps (.job job.id) := Command.keeps_seq fun c hc =>
        (keeps_failureCommand (hrest c hc)).2.2.1 h0
      rw [hkeep, if_neg h0]
      simp [JobHash.update, Job.toDict]
  · rw [List.mem_singleton] at hid
    rw [List.singleton_append, Command.seq_cons_run, Command.seq_cons_run,
      Command.keeps_seq fun c hc => (keeps_failureCommand (hrest c hc)).2.1 id hid]
    simp [hid]
  · rw [List.singleton_append, Command.seq_cons_run, Command.seq_cons_run,
      Command.keeps_seq fun c hc => (keeps_failureCommand (hrest c hc)).1]
    simp

/-! ## The run -/

/-- None of the jobs has retries left. -/
def NoRetries (s : Store) (ids : List JobId) : Prop :=
  ∀ id ∈ saved s ids, (s.val (.job id)).retriesLeft.getD 0 = 0

lemma NoRetries.calm {ids ids' : List JobId} (h : Calm ids' now s s₁) (hn : NoRetries s ids) :
    NoRetries s₁ ids := by
  intro id hid
  rw [saved_calm h] at hid
  rw [(h.view id).retriesLeft]
  exact hn id hid

lemma shouldRetry_eq_false {job : Job} {rest : List JobId} (hn : NoRetries s (job.id :: rest))
    (hfetch : Job.restore job.id (s.val (.job job.id)) = .ok job) : job.shouldRetry = false := by
  have hzero := hn job.id (by rw [saved_cons_some (Job.restore_isSome hfetch)]; simp)
  rw [← Job.restore_retriesLeft hfetch] at hzero
  simp [Job.shouldRetry, hzero]

variable {queue : Queue} {userCode : UserCode}

/-- One turn of the loop. -/
lemma run_turn (h : pipe.immediate = false) {job : Job}
    (hfetch : Job.restore job.id (s₁.val (.job job.id)) = .ok job) (hretry : job.shouldRetry = false)
    (hq : Quiet userCode now s₁ job) (fuel : ℕ) :
    ∃ s₂ cs, (handleAbandoned queue userCode job (some pipe) now (fuel + 1)).run s₁ =
        (.ok (some (pipe.buffer cs)), s₂) ∧ Calm [job.id] now s₁ s₂ ∧
      Ends (endStatus s₁) [job.id] cs ∧
      ∀ s earlier, Advanced s (Requeued s earlier) s₁ →
        (s₁.val (.job job.id)).failureTtl = (s.val (.job job.id)).failureTtl →
        Advanced s (Requeued s (job.id :: earlier)) s₂ := by
  obtain ⟨t, htrim, hrun⟩ := @run_handleAbandoned_failing _ _ queue _ h hretry hq.callback
    hq.handlers s₁ now fuel
  obtain ⟨s₂, hcalm, ⟨-, hloud⟩ | ⟨cs, hok, -, -⟩⟩ :=
    @run_handleAbandoned _ _ userCode queue _ h hfetch now fuel
  · exact absurd hq hloud
  rw [hrun] at hok
  cases hin : ({ job with status := .failed } : Job).failureIn s₁ excString {} now with
  | error e =>
    rw [hin] at hok
    cases hok
  | ok cs' =>
    cases hr : Queue.releaseIn t (failedJob s₁ job) none false with
    | error e =>
      rw [hin, hr] at hok
      cases hok
    | ok r =>
      rw [hin, hr] at hok hrun
      obtain ⟨-, rfl⟩ := Prod.mk.injEq .. ▸ hok
      refine ⟨_, _, hrun, hcalm, ends_failureIn hfetch hin, fun s earlier hadv httl => ?_⟩
      have hadv' : Advanced s (Requeued s earlier) t :=
        (hadv.trans htrim.advanced).congr fun id => by simp
      have hlets := passes_failedJob hadv hfetch httl fun h0 => (hq.deletable hretry h0).status
      exact (hadv'.trans (Queue.advanced_releaseAll hr now)).congr
        (@requeued_step s t earlier (failedJob s₁ job) r hadv' hlets hr)

lemma endStatus_of_ttl
    (httl : ∀ id, (s₁.val (.job id)).failureTtl = (s.val (.job id)).failureTtl) :
    endStatus s₁ = endStatus s := by
  funext id
  rw [endStatus, httl, endStatus]

/-- The whole loop. -/
lemma run_turns (h : pipe.immediate = false) (ids : List JobId) {earlier : List JobId}
    (hadv : Advanced s (Requeued s earlier) s₁) (hn : NoRetries s₁ ids)
    (hq : AllQuiet userCode now s₁ ids)
    (httl : ∀ id, (s₁.val (.job id)).failureTtl = (s.val (.job id)).failureTtl) (fuel : ℕ) :
    ∃ s₂ cs, (cleanupEach queue userCode now (fuel + 1) ids (some pipe)).run s₁ =
        (.ok (some (pipe.buffer cs)), s₂) ∧ Ends (endStatus s) (saved s ids) cs ∧
      Advanced s (Requeued s ((saved s ids).reverse ++ earlier)) s₂ := by
  induction ids generalizing s₁ pipe earlier with
  | nil =>
    exact ⟨s₁, [], by simp [cleanupEach], ⟨by simp [saved], by simp, by simp⟩,
      by simpa [saved] using hadv⟩
  | cons jobId rest ih =>
    by_cases hd : (s₁.val (.job jobId)).data.isSome
    · obtain ⟨job, hfetch⟩ := Job.exists_restore jobId hd
      obtain rfl := (Job.restore_ok hfetch).1
      obtain ⟨hquiet, hquiets⟩ := (allQuiet_cons hfetch rest).mp hq
      obtain ⟨s₂, cs, hrun, hcalm, hends, hturn⟩ :=
        @run_turn _ _ _ queue _ h _ hfetch (shouldRetry_eq_false hn hfetch) hquiet fuel
      have hrest : NoRetries s₁ rest := fun id hid =>
        hn id (by rw [saved_cons_some hd]; exact List.mem_cons_of_mem _ hid)
      obtain ⟨s₃, cs', hrun', hends', hadv'⟩ := @ih _ (pipe.buffer cs) (by simpa using h) _
        (hturn s earlier hadv (httl _)) (hrest.calm hcalm) (hquiets.calm hcalm)
        fun id => (hcalm.view id).failureTtl.trans (httl id)
      rw [hadv.data] at hd
      rw [endStatus_of_ttl httl] at hends
      refine ⟨s₃, cs ++ cs', ?_, ?_, ?_⟩
      · unfold cleanupEach
        rw [Prog.run_bind_ok (run_fetch_saved hfetch)]
        refine (Prog.run_bind_ok hrun).trans ?_
        rw [hrun', Pipeline.buffer_buffer]
      · rw [saved_cons_some hd]
        exact hends.append hends'
      · rw [saved_cons_some hd, List.reverse_cons, List.append_assoc]
        exact hadv'
    · obtain ⟨msg, hrun⟩ := run_fetch_unsaved hd
      have hsaved : saved s₁ (jobId :: rest) = saved s₁ rest := saved_cons_none hd rest
      obtain ⟨s₂, cs, hrun', hends, hadv'⟩ := ih h hadv (fun id hid => hn id (by rwa [hsaved]))
        (fun id hid => hq id (by rwa [hsaved])) httl
      rw [hadv.data] at hd
      refine ⟨s₂, cs, ?_, ?_, ?_⟩
      · unfold cleanupEach
        rw [Prog.run_bind_ok hrun]
        exact hrun'
      · rwa [saved_cons_none hd]
      · rwa [saved_cons_none hd]

/-- What the whole clean-up does: it puts jobs back into their queues, and then the jobs of the
batch get their last status. -/
theorem run_cleanup_advanced (name : QueueName) (score : Time)
    (hn : NoRetries s (expiredIds name score s))
    (hq : AllQuiet userCode now s (expiredIds name score s)) (fuel : ℕ) :
    ∃ s₁ s', ((cleanup name score userCode now (fuel + 1)).run s) = (.ok (), s') ∧
      Advanced s (Requeued s (saved s (expiredIds name score s)).reverse) s₁ ∧
      (∀ id ∈ saved s (expiredIds name score s), (s'.val (.job id)).status = endStatus s id) ∧
      (∀ id ∉ saved s (expiredIds name score s), s'.val (.job id) = s₁.val (.job id)) ∧
      s'.val .log = s₁.val .log := by
  have hadv : Advanced s (Requeued s []) s :=
    (Advanced.of_val (fun _ => rfl) (fun _ => rfl) (fun _ => rfl) rfl).congr fun _ => Iff.rfl
  have hfetch : (getExpiredJobIds name score).run s = (.ok (expiredIds name score s), s) := rfl
  by_cases hnil : expiredIds name score s = []
  · refine ⟨s, s, ?_, ?_, ?_, fun _ _ => rfl, rfl⟩
    · unfold cleanup
      rw [Prog.run_bind_ok hfetch, if_pos hnil]
      rfl
    · simpa [hnil, saved] using hadv
    · simp [hnil, saved]
  · obtain ⟨s₁, cs, hrun, hends, hadv'⟩ := @run_turns _ _ _ _ { name := name } _
      Pipeline.immediate_empty _ _ hadv hn hq (fun _ => rfl) fuel
    let trim : Command Key Value := .alter (.wip name) fun z => z.removeRange (0 : ℤ) score
    refine ⟨s₁, (Command.seq (cs ++ [trim])).run s₁, ?_, by simpa using hadv', fun id hid => ?_,
      fun id hid => ?_, ?_⟩
    · unfold cleanup
      rw [Prog.run_bind_ok hfetch, if_neg hnil, Prog.run_bind_ok hrun]
      simp [Client.command_buffer, Pipeline.execute_of_unwatched, Prog.run_exec, trim]
    · rw [← hends.status s₁ id hid]
      simp [trim]
    · rw [← hends.others s₁ id hid]
      simp [trim]
    · rw [← hends.log s₁]
      simp [trim]

/-! ## When every dependent is released -/

/-- A deferred job that allows its dependencies to fail. -/
structure Waiting (s : Store) (job : Job) : Prop where
  saved : Job.restore job.id (s.val (.job job.id)) = .ok job
  deferred : (s.val (.job job.id)).status = some .deferred
  allows : job.allowDependencyFailures = some true

/-- The job has been pushed to its queue. -/
def PushedSince (s s' : Store) (job : Job) : Prop :=
  ∃ new, s'.val .log = s.val .log ++ new ∧ ⟨queueKey job.origin, job.id⟩ ∈ new

/-- Every waiting job whose dependencies are `FINISHED` or `FAILED` in `s'` has been pushed. -/
def ReleasesDependents (s s' : Store) : Prop :=
  ∀ job, Waiting s job → (∀ d ∈ s.val (.dependencies job.id), Settled s' d) → PushedSince s s' job

/-- The jobs that will be `FINISHED` or `FAILED`: those of the batch, unless they are deleted, and
the others that are so already, unless they are put back into a queue. -/
def SettledAfter (s : Store) (batch : List JobId) (id : JobId) : Prop :=
  if id ∈ batch then (s.val (.job id)).failureTtl ≠ some 0
  else Settled s id ∧ ¬Requeued s batch.reverse id

lemma requeued_iff {turns : List JobId} {id : JobId} :
    Requeued s turns id ↔ ∃ later parent earlier, turns = later ++ parent :: earlier ∧
      Listed s parent id ∧ Lets s (Requeued s earlier parent) parent id ∧
        ∀ d ∈ s.val (.dependencies id), d ≠ parent → Harmless s id d ∧ ¬Requeued s earlier d := by
  induction turns with
  | nil => simp [Requeued]
  | cons first rest ih =>
    simp only [Requeued, ih]
    constructor
    · rintro (⟨later, parent, earlier, rfl, hparent⟩ | hfirst)
      · exact ⟨first :: later, parent, earlier, rfl, hparent⟩
      · exact ⟨[], first, rest, rfl, hfirst⟩
    · rintro ⟨later, parent, earlier, heq, hparent⟩
      cases later with
      | nil =>
        cases heq
        exact .inr hparent
      | cons last later =>
        cases heq
        exact .inl ⟨later, parent, earlier, rfl, hparent⟩

/-- The turn at which a job is put back into its queue. -/
lemma requeued_reverse_iff {batch : List JobId} {id : JobId} :
    Requeued s batch.reverse id ↔ ∃ earlier parent later, batch = earlier ++ parent :: later ∧
      Listed s parent id ∧ Lets s (Requeued s earlier.reverse parent) parent id ∧
        ∀ d ∈ s.val (.dependencies id), d ≠ parent →
          Harmless s id d ∧ ¬Requeued s earlier.reverse d := by
  rw [requeued_iff]
  constructor
  · rintro ⟨later, parent, earlier, heq, hparent⟩
    refine ⟨earlier.reverse, parent, later.reverse, ?_, by simpa using hparent⟩
    rw [← List.reverse_reverse batch, heq]
    simp
  · rintro ⟨earlier, parent, later, rfl, hparent⟩
    exact ⟨later.reverse, parent, earlier.reverse, by simp, hparent⟩

/-- **Which batches release their dependents.** A clean-up whose jobs have no retries left and raise
nothing releases every dependent that it should exactly when each of them is listed by a job of the
batch whose object lets it through and at whose turn all its other dependencies are stored as
`FINISHED` or `FAILED`. -/
theorem releasesDependents_iff (name : QueueName) (score : Time)
    (hn : NoRetries s (expiredIds name score s))
    (hq : AllQuiet userCode now s (expiredIds name score s)) (fuel : ℕ) :
    ReleasesDependents s ((cleanup name score userCode now (fuel + 1)).run s).2 ↔
      ∀ job, Waiting s job →
        (∀ d ∈ s.val (.dependencies job.id),
          SettledAfter s (saved s (expiredIds name score s)) d) →
        ∃ earlier parent later,
          saved s (expiredIds name score s) = earlier ++ parent :: later ∧
          Listed s parent job.id ∧
          Lets s (Requeued s earlier.reverse parent) parent job.id ∧
          ∀ d ∈ s.val (.dependencies job.id), d ≠ parent →
            Harmless s job.id d ∧ ¬Requeued s earlier.reverse d := by
  obtain ⟨s₁, s', hrun, hadv, hbatch, hothers, hlog⟩ := run_cleanup_advanced name score hn hq fuel
  rw [hrun]
  generalize saved s (expiredIds name score s) = batch at hadv hbatch hothers
  have hsettled : ∀ d, Settled s' d ↔ SettledAfter s batch d := fun d => by
    unfold SettledAfter
    by_cases hd : d ∈ batch
    · rw [if_pos hd, Settled, hbatch d hd, endStatus]
      by_cases h0 : (s.val (.job d)).failureTtl = some 0 <;> simp [h0]
    · rw [if_neg hd, Settled, hothers d hd]
      by_cases hre : Requeued s batch.reverse d
      · simp [hadv.status d hre, hre]
      · rw [hadv.kept d hre, Settled]
        simp [hre]
  have hpushed : ∀ job, Waiting s job →
      (PushedSince s s' job ↔ Requeued s batch.reverse job.id) := fun job hjob => by
    obtain ⟨new, hnew, hmem⟩ := hadv.log
    unfold PushedSince
    rw [hlog, hnew]
    simp only [List.append_cancel_left_eq, exists_eq_left', hmem,
      Queue.origin_of_restore hjob.saved, and_true]
  unfold ReleasesDependents
  simp only [hsettled, ← requeued_reverse_iff]
  exact forall_congr' fun job => forall_congr' fun hjob => imp_congr_right fun _ => hpushed job hjob

/-- A deferred job that waits for two started jobs, both abandoned by `7`. -/
def twoParents : Store :=
  (Command.seq [hset "first" { data := some "", status := some .started },
    hset "second" { data := some "", status := some .started },
    hset "child" { data := some "", origin := some "default", status := some .deferred,
                   dependencyIds := some ["first", "second"], allowDependencyFailures := some true },
    .write (.dependencies "child") fun d => (d.insert "first").insert "second",
    .write (.dependents "first") fun d => d.insert "child",
    .write (.dependents "second") fun d => d.insert "child",
    zadd .deferred "default" "child" (0 : ℤ),
    .write (.wip "default") fun z => (z.add ("first", "1") (5 : ℤ)).add ("second", "2") (6 : ℤ)]).run
    Store.empty

lemma allQuiet_twoParents : AllQuiet {} 10 twoParents (expiredIds "default" 7 twoParents) := by
  have hdependents : ∀ id, id = "first" ∨ id = "second" → DependentsReadable twoParents id := by
    rintro id (rfl | rfl) <;> unfold DependentsReadable <;> simp only [RSet.mem_def] <;> decide
  intro id hid job hjob
  have hids : id = "first" ∨ id = "second" := by
    have hsaved : saved twoParents (expiredIds "default" 7 twoParents) = ["first", "second"] := by
      decide
    simpa [hsaved] using hid
  have hdefault : job = { id := id, status := .started } := by
    rcases hids with rfl | rfl <;> exact (Except.ok.inj hjob).symm
  subst hdefault
  exact {
    callback := rfl
    handlers := rfl
    retry := by simp [Job.shouldRetry]
    deletable := by simp
    dependents := fun _ => hdependents id hids }

/-- The clean-up of both parents. -/
theorem releasesDependents_iff_twoParents :
    ReleasesDependents twoParents ((cleanup "default" 7 {} 10 1).run twoParents).2 ↔
      ∀ job, Waiting twoParents job →
        (∀ d ∈ twoParents.val (.dependencies job.id),
          SettledAfter twoParents (saved twoParents (expiredIds "default" 7 twoParents)) d) →
        ∃ earlier parent later,
          saved twoParents (expiredIds "default" 7 twoParents) = earlier ++ parent :: later ∧
          Listed twoParents parent job.id ∧
          Lets twoParents (Requeued twoParents earlier.reverse parent) parent job.id ∧
          ∀ d ∈ twoParents.val (.dependencies job.id), d ≠ parent →
            Harmless twoParents job.id d ∧ ¬Requeued twoParents earlier.reverse d :=
  releasesDependents_iff "default" 7 (by unfold NoRetries; decide) allQuiet_twoParents 0

/-- A job that waits for two jobs of one batch is not released: at the turn of each, the other one
is still stored as `STARTED`. -/
theorem child_not_released :
    ¬ReleasesDependents twoParents ((cleanup "default" 7 {} 10 1).run twoParents).2 := by
  intro h
  obtain ⟨new, hnew, hmem⟩ := h
    { id := "child", origin := "default", status := .deferred,
      dependencyIds := ["first", "second"], allowDependencyFailures := some true }
    ⟨rfl, rfl, rfl⟩ (by simp only [RSet.mem_def, Settled]; decide)
  have hlog : ((cleanup "default" 7 {} 10 1).run twoParents).2.val .log = [] := by decide
  rw [hlog] at hnew
  obtain ⟨-, rfl⟩ := List.append_eq_nil_iff.mp hnew.symm
  cases hmem

end StartedJobRegistry

end RedisQueue
