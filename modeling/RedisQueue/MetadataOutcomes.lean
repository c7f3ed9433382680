import RedisQueue.Metadata

/-!
# The metadata after an outcome

* `metadataOf_retried`, `metadataOf_handleJobRetry`, `metadataOf_repeated`: a job that is to run
  again is saved with its metadata;
* `kept_of_failed`, `kept_of_exceeded`, `kept_of_succeeded`: any other outcome keeps the metadata
  that are stored, or deletes the job;
* `Worker.savedBy_handleOutcome`: the second half of `BaseWorker.perform_job`.
-/

namespace RedisQueue

open Prog

/-! ## Outcomes that save no metadata -/

/-- The effects that leave the metadata `m` of the job as they are. -/
def LeavesMetadata (id : JobId) (m : Option String) : Effect → Prop
  | .hset id' mapping => id' = id → mapping.metadata = none ∨ mapping.metadata = m
  | .delete id' => id' ≠ id
  | _ => True

section Leaves
variable {id : JobId} {m : Option String}

lemma stable_leavesMetadata : Stable (fun s => metadataOf id s = m) (LeavesMetadata id m) := by
  intro c hc s hs
  refine Emits.preserves (I := fun s => metadataOf id s = m) (fun c hc s hs => ?_)
    (fun e he s hs => ?_) hc hs
  · exact (congrArg JobHash.metadata (hc.hash s id)).trans hs
  · have hkeep : ∀ {c : Command Key Value}, c.Keeps (.job id) → metadataOf id (c.run s) = m :=
      fun h => keepsMetadata_of_keeps h s hs
    cases e with
    | hset id' mapping =>
      by_cases hid : id' = id
      · subst hid
        show metadataOf id' ((hset id' mapping).run s) = m
        rw [metadataOf_hset, hs]
        exact orElse_eq_right_iff.mpr (he rfl)
      · exact hkeep (keeps_hset_ne hid mapping)
    | zadd kind name id' score => exact hkeep (keeps_zadd _ _ _ _)
    | push key atFront id' => exact hkeep (keeps_push _ _ _)
    | hold key id' =>
      have h : (Effect.hold key id').command.Keeps (.job id) := by
        unfold Effect.command
        exact Command.keeps_write (by simp)
      exact hkeep h
    | expire id' t => exact hkeep Command.keeps_expire
    | delete id' => exact hkeep (Command.keeps_del (by simpa using Ne.symm he))
    | depend parent child =>
      have h : (Effect.depend parent child).command.Keeps (.job id) := by
        unfold Effect.command
        exact Command.keeps_alter (by simp)
      exact hkeep h

/-- A dependent is saved with the metadata that have been fetched. -/
lemma leavesMetadata_of_release {parent : JobId} {e : Effect}
    (he : ReleaseEffect (fun s => metadataOf id s = m) parent e) : LeavesMetadata id m e := by
  obtain @⟨s, s', dependent, e, -, hs', -, hstored, he⟩ := he
  cases he with
  | push atFront => trivial
  | persist he =>
    cases he with
    | write hm =>
      intro hid
      rcases hm.metadata with hnone | ⟨-, heq⟩
      · exact .inl hnone
      · right
        rw [heq, Job.restore_metadata hstored, hid]
        exact hs'
    | cleanup hc =>
      have httl := (Job.restore_ok hstored).2
      revert hc
      generalize dependent.ttl = ttl at httl
      intro hc
      cases hc with
      | expire hpos t => trivial
      | delete => exact absurd rfl httl

lemma leavesMetadata_of_fail {job : Job} (ht : job.failureTtl ≠ some 0) {e : Effect}
    (he : FailEffect job e) : LeavesMetadata id m e := by
  cases he with
  | zadd name score => trivial
  | write hm =>
    intro _
    rcases hm.metadata with hnone | ⟨hfalse, -⟩
    · exact .inl hnone
    · cases hfalse
  | cleanup hc =>
    have httl : some (job.failureTtl.getD Job.defaultFailureTtl) ≠ some 0 :=
      fun h0 => ht (Job.getD_defaultFailureTtl.mp h0)
    revert hc
    generalize some (job.failureTtl.getD Job.defaultFailureTtl) = ttl at httl
    intro hc
    cases hc with
    | expire hpos t => trivial
    | delete => exact absurd rfl httl

end Leaves

/-- The job has been deleted, and its dependents have been forgotten. -/
structure Deleted (id : JobId) (s : Store) : Prop where
  hash : s.val (.job id) = default
  dependents : ∀ child, child ∉ s.val (.dependents id)

section Deleted
variable {id : JobId} {s : Store}

/-- What has no effects leaves a job deleted. -/
lemma stable_deleted : Stable (Deleted id) fun _ => False := by
  intro c hc s hs
  refine Emits.preserves (I := Deleted id) (fun c hc s hs => ?_) (fun e he => he.elim) hc hs
  exact ⟨(hc.hash s id).trans hs.hash, fun child hchild =>
    hs.dependents child (hc.dependents s id child hchild)⟩

/-- Nothing is left to release. -/
lemma not_release_deleted {e : Effect} : ¬ReleaseEffect (Deleted id) id e := by
  rintro ⟨hs, -, hmem, -, -⟩
  exact hs.dependents _ hmem

lemma deleted_del (id : JobId) (s : Store) : Deleted id
    ((Command.seq [.del (.job id), .del (.dependents id), .del (.dependencies id)]).run s) := by
  refine ⟨by simp, fun child => ?_⟩
  simp only [Command.seq_cons_run, Command.seq_nil_run]
  rw [Command.keeps_del (by simp) _]
  simp only [Command.val_del, Function.update_self]
  exact List.not_mem_nil

lemma val_failureCommand {job : Job} {c : Command Key Value} (h : Job.FailureCommand job c)
    (s : Store) : (c.run s).val (.job job.id) = s.val (.job job.id) ∧
        (c.run s).val (.dependents job.id) = s.val (.dependents job.id) ∨
      Deleted job.id (c.run s) := by
  have hkeep : ∀ {c : Command Key Value}, c.Keeps (.job job.id) → c.Keeps (.dependents job.id) →
      (c.run s).val (.job job.id) = s.val (.job job.id) ∧
          (c.run s).val (.dependents job.id) = s.val (.dependents job.id) ∨
        Deleted job.id (c.run s) := fun h h' => .inl ⟨h s, h' s⟩
  cases h with
  | delete h0 hc =>
    cases hc with
    | side k hk f =>
      have hne : ∀ k', ¬Job.Side k' → k' ≠ k := fun k' hk' heq => hk' (heq ▸ hk)
      exact hkeep (Command.keeps_alter (hne _ (by simp [Job.Side])))
        (Command.keeps_alter (hne _ (by simp [Job.Side])))
    | leave name p hp =>
      exact hkeep (Command.keeps_alter (by simp)) (Command.keeps_alter (by simp))
    | hash => exact .inr (deleted_del job.id s)
  | expire k t => exact hkeep Command.keeps_expire Command.keeps_expire
  | register score => exact hkeep (Command.keeps_alter (by simp)) (Command.keeps_alter (by simp))
  | record f => exact hkeep (Command.keeps_write (by simp)) (Command.keeps_write (by simp))
  | keep => exact hkeep Command.keeps_persist Command.keeps_persist
  | discard ttl now =>
    unfold expire
    split
    · exact hkeep (Command.keeps_del (by simp)) (Command.keeps_del (by simp))
    · exact hkeep Command.keeps_expire Command.keeps_expire

/-- **The failure of a job whose failure TTL is zero.** -/
lemma deleted_failureCommands {job : Job} {cs : List (Command Key Value)}
    (h : ∀ c ∈ cs, Job.FailureCommand job c)
    (hdelete : .seq [.del (.job job.id), .del (.dependents job.id), .del (.dependencies job.id)] ∈
      cs) (s : Store) : Deleted job.id ((Command.seq cs).run s) := by
  induction cs generalizing s with
  | nil => simp at hdelete
  | cons c cs ih =>
    have hrest : ∀ c ∈ cs, Job.FailureCommand job c := fun c hc => h c (List.mem_cons_of_mem _ hc)
    have hstays : Deleted job.id (c.run s) → Deleted job.id ((Command.seq cs).run (c.run s)) :=
      fun hgone => Command.seq_preserves (P := Deleted job.id) (fun d hd s hs => by
        rcases val_failureCommand (hrest d hd) s with ⟨hhash, hdependents⟩ | hgone
        · exact ⟨hhash.trans hs.hash, fun child => by rw [hdependents]; exact hs.dependents child⟩
        · exact hgone) hgone
    rw [Command.seq_cons_run]
    rcases List.mem_cons.mp hdelete with rfl | hdelete
    · exact hstays (deleted_del job.id s)
    · exact ih hrest hdelete (c.run s)

end Deleted

namespace Worker
section Failure
variable {self : Worker} {job : Job} {queue : Queue} {excString : String} {now : Time} {fuel : ℕ}
  {s s' : Store} {r : Worker × Job}

/-- A job that is retried has an interval for it. -/
lemma exists_interval_of_handleJobFailure (hretries : self.retries job = true)
    (h : (self.handleJobFailure job queue excString now fuel).run s = (.ok r, s')) :
    ∃ interval, job.getRetryInterval = .ok interval := by
  obtain ⟨hshould, hstopped⟩ := (Bool.and_eq_true _ _).mp hretries
  have hnot : (self.stoppedJobId == some job.id) = false := by
    rw [Bool.not_eq_true'] at hstopped
    exact hstopped
  unfold handleJobFailure at h
  simp only [hshould, hnot, Bool.not_false, Bool.and_true, Bool.false_eq_true, if_false,
    Bool.not_true, Bool.and_false, Prog.ret_bind, Prog.pure_eq, if_true] at h
  rw [cleanupExecution_buffer Pipeline.immediate_empty, Prog.ret_bind] at h
  dsimp only at h
  rw [Client.command_buffer (by simp), Prog.ret_bind] at h
  have hretry : ∀ {client : Client} {t t' : Store} {a : Job × Client},
      (job.retry queue client now).run t = (.ok a, t') →
        ∃ interval, job.getRetryInterval = .ok interval := by
    intro client t t' a hrun
    unfold Job.retry at hrun
    obtain ⟨interval, t₁, hinterval, -⟩ := Prog.run_bind_eq_ok hrun
    exact ⟨interval, (Prog.run_ofExcept_eq_ok hinterval).1⟩
  split at h
  · obtain ⟨client, t, -, h⟩ := Prog.run_bind_eq_ok h
    obtain ⟨a, t', hrun, -⟩ := Prog.run_bind_eq_ok h
    exact hretry hrun
  · obtain ⟨a, t, hrun, -⟩ := Prog.run_bind_eq_ok h
    exact hretry hrun

lemma keeps_countCommands (id : JobId) (time : ℤ) :
    (Command.seq (self.countCommands time)).Keeps (.job id) := by
  refine Command.keeps_seq fun c hc => ?_
  simp only [countCommands, List.mem_cons, List.not_mem_nil, or_false] at hc
  rcases hc with rfl | rfl <;> exact keeps_hsetWorker _ _

/-- **A job that is retried is saved with its metadata.** -/
lemma metadataOf_retried (hretries : self.retries job = true) (ht : job.ttl ≠ some 0)
    {startedAt endedAt : Time} (hstarted : job.startedAt = some startedAt)
    (hended : job.endedAt = some endedAt)
    (h : (self.handleJobFailure job queue excString now fuel).run s = (.ok r, s')) :
    metadataOf job.id s' = (job.metadata <|> metadataOf job.id s) := by
  obtain ⟨interval, hinterval⟩ := exists_interval_of_handleJobFailure hretries h
  obtain ⟨hshould, hstopped⟩ := (Bool.and_eq_true _ _).mp hretries
  have hnot : self.stoppedJobId ≠ some job.id := by simpa using hstopped
  obtain ⟨n, hleft⟩ : ∃ n, job.retriesLeft = some (n + 1) := by
    cases hleft : job.retriesLeft with
    | none => simp [Job.shouldRetry, hleft] at hshould
    | some n =>
      cases n with
      | zero => simp [Job.shouldRetry, hleft] at hshould
      | succ n => exact ⟨n, rfl⟩
  rw [self.run_handleJobFailure_again hstarted hended ht hnot hleft hinterval] at h
  cases h
  have hnow := @keepsMetadata_againNow job.id (metadataOf job.id s) queue
    { job with retriesLeft := some n } interval now s rfl
  have hlater := savesMetadata_againLater queue { job with retriesLeft := some n } interval
    job.enqueueAtFrontOnRetry now
  rw [Command.seq_append_run, Command.seq_append_run]
  refine (hlater _).trans ?_
  have hcount := keepsMetadata_of_keeps (m := metadataOf job.id s)
    (self.keeps_countCommands job.id (endedAt - startedAt))
  have hend := keepsMetadata_of_keeps (m := metadataOf job.id s) (self.keeps_endCommands job job.id)
  rw [hcount _ (hend _ hnow)]

/-- A transaction that deletes the job is followed by the release of no dependents. -/
lemma deleted_of_release {pipe : Pipeline Key Value} {job' job'' : Job}
    (h : (catching (do
        let _ ← pipe.execute
        let r ← queue.enqueueDependents job' none none true now fuel
        ret r.1) fun _ => ret job' : Redis Job).run s = (.ok job'', s'))
    (hdeleted : Deleted job.id ((Command.seq pipe.commandStack).run s))
    (hwatched : pipe.watched = []) (hjob : job'.id = job.id) : Deleted job.id s' := by
  have hwithin : (do
      let r ← queue.enqueueDependents job' none none true now fuel
      ret r.1 : Redis Job).Within (Deleted job.id) (Via fun _ => False) fun _ => True := by
    simp only [within_bind]
    apply Queue.within_enqueueDependents stable_deleted Client.emits_none
    · exact fun e he => not_release_deleted (hjob ▸ he)
    · exact fun _ _ _ _ => trivial
  have hend := (hwithin.run Via.refl (fun _ _ _ => Via.trans) hdeleted).1
  unfold catching at h
  rw [Prog.run_tryCatch, Prog.run_bind_ok (Pipeline.run_execute_of_unwatched hwatched s)] at h
  split at h
  · next a t hrun =>
    cases h
    rwa [hrun] at hend
  · next e t hrun =>
    rw [hrun] at hend
    split at h <;> cases h
    exact hend

/-- What is not about the job leaves it deleted. -/
lemma deleted_seq {id : JobId} {cs : List (Command Key Value)} (h : ∀ c ∈ cs, Benign c)
    (hs : Deleted id s) : Deleted id ((Command.seq cs).run s) :=
  stable_deleted _ (.seq fun c hc => .benign (h c hc)) s hs

/-- The transaction of a failure with a failure TTL of zero. -/
lemma deleted_of_handleFailure {pipe : Pipeline Key Value} {job' job'' : Job}
    {info : Job.ExecutionInfo} {client : Client} {b : Bool} {s₁ s₂ : Store}
    (hfailure : (job'._handleFailure excString (some pipe) info now).run s =
      (.ok (job'', client), s₁))
    (hexecute : ((client.getD {}).execute : Redis Bool).run s₁ = (.ok b, s₂))
    (himmediate : pipe.immediate = false) (hwatched : pipe.watched = []) (hjob : job'.id = job.id)
    (ht : job'.failureTtl = some 0) : job''.id = job.id ∧ Deleted job.id s₂ := by
  obtain ⟨s₁', -, hrun⟩ := Job.run_handleFailure himmediate job' s excString info now
  rw [hrun] at hfailure
  cases hin : job'.failureIn s excString info now with
  | error e =>
    rw [hin] at hfailure
    cases hfailure
  | ok cs =>
    rw [hin] at hfailure
    cases hfailure
    obtain ⟨rest, rfl, hrest, hdelete⟩ := Job.failureIn_ok hin
    have hcommit := Pipeline.run_execute_of_unwatched (ε := PyError)
      (p := pipe.buffer (hset job'.id (job'.toDict false) :: rest)) hwatched s₁
    cases hcommit.symm.trans hexecute
    rw [Pipeline.buffer_commandStack, Command.seq_append_run, Command.seq_cons_run, ← hjob]
    exact ⟨rfl, deleted_failureCommands hrest (hdelete ht) _⟩

/-- A job that fails with a failure TTL of zero is deleted. -/
lemma deleted_of_failed (hretries : self.retries job = false)
    (hhandler : self.disableDefaultExceptionHandler = false) (ht : job.failureTtl = some 0)
    (h : (self.handleJobFailure job queue excString now fuel).run s = (.ok r, s')) :
    Deleted job.id s' := by
  rw [retries] at hretries
  unfold handleJobFailure at h
  cases hstopped : (self.stoppedJobId == some job.id)
  on_goal 1 =>
    have hshould : job.shouldRetry = false := by simpa [hstopped] using hretries
    simp only [hstopped, hshould, Bool.not_false, Bool.and_true, Bool.false_eq_true, if_true,
      if_false, Prog.pure_eq, Prog.ret_bind] at h
  on_goal 2 =>
    simp only [hstopped, Bool.not_true, Bool.not_false, Bool.and_true, Bool.and_false,
      Bool.false_eq_true, if_true, if_false, Prog.pure_eq, Prog.ret_bind] at h
  all_goals
    rw [Job.setStatus_buffer Pipeline.immediate_empty, Prog.ret_bind] at h
    dsimp only at h
    rw [cleanupExecution_buffer (by simp), Prog.ret_bind] at h
    dsimp only at h
    rw [if_pos (by simp [hhandler])] at h
    obtain ⟨⟨job', client⟩, s₁, hfailure, h⟩ := Prog.run_bind_eq_ok h
    obtain ⟨b, s₂, hexecute, h⟩ := Prog.run_bind_eq_ok h
    have hdeleted : job'.id = job.id ∧ Deleted job.id s₂ :=
      deleted_of_handleFailure hfailure hexecute (by simp) rfl rfl ht
    rw [Client.command_buffer Pipeline.immediate_empty, Prog.ret_bind] at h
    split at h
    on_goal 1 => rw [Client.command_buffer (by simp), Prog.ret_bind] at h
    all_goals
      obtain ⟨job'', t, hrelease, h⟩ := Prog.run_bind_eq_ok h
      cases h
      refine deleted_of_release hrelease (deleted_seq (fun c hc => ?_) hdeleted.2) rfl hdeleted.1
      simp only [Option.getD_some, Pipeline.buffer, List.nil_append, List.mem_append,
        List.mem_singleton] at hc
    · rcases hc with rfl | rfl <;> exact benign_hsetWorker _ _
    · exact hc ▸ benign_hsetWorker _ _

lemma kept_of_deleted {id : JobId} {m : Option String} (h : Deleted id s) :
    s.val (.job id) ≠ default → metadataOf id s = m := fun hne => absurd h.hash hne

/-- **A job that fails keeps its metadata.** -/
lemma kept_of_failed (hretries : self.retries job = false)
    (h : (self.handleJobFailure job queue excString now fuel).run s = (.ok r, s')) :
    s'.val (.job job.id) ≠ default → metadataOf job.id s' = metadataOf job.id s := by
  by_cases hdelete : self.disableDefaultExceptionHandler = false ∧ job.failureTtl = some 0
  · exact kept_of_deleted (deleted_of_failed hretries hdelete.1 hdelete.2 h)
  · intro _
    have hwithin : (self.handleJobFailure job queue excString now fuel).Within
        (fun t => metadataOf job.id t = metadataOf job.id s)
        (Via (LeavesMetadata job.id (metadataOf job.id s))) fun _ => True := by
      apply within_handleJobFailure_fail stable_leavesMetadata hretries
      · exact fun _ _ => .inl rfl
      · exact fun hhandler e he => leavesMetadata_of_fail (fun h0 => hdelete ⟨hhandler, h0⟩) he
      · exact fun e he => leavesMetadata_of_release he
      · exact fun _ _ _ => trivial
    have hend := (hwithin.run Via.refl (fun _ _ _ => Via.trans) rfl).1
    rwa [h] at hend

end Failure

/-! ## Returned `Retry`s -/

section Retry
variable {self : Worker} {job : Job} {queue : Queue} {retry : Retry} {execution : Execution}
  {now : Time} {fuel : ℕ} {s s' : Store} {r : Worker × Job}

/-- A job that has been retried too often is deleted if its failure TTL is zero. -/
lemma deleted_of_exceeded (hexceeded : job.retriesExceeded retry) (ht : job.failureTtl = some 0)
    (h : (self.handleJobRetry job queue retry execution now fuel).run s = (.ok r, s')) :
    Deleted job.id s' := by
  unfold handleJobRetry at h
  split at h
  · cases h
  have hexceeded' : job.numberOfRetries.getD 0 ≠ 0 ∧ retry.max ≤ job.numberOfRetries.getD 0 :=
    hexceeded
  dsimp only at h
  rw [if_pos hexceeded', Job.setStatus_buffer Pipeline.immediate_empty, Prog.ret_bind] at h
  dsimp only at h
  rw [cleanupExecution_buffer (by simp), Prog.ret_bind] at h
  dsimp only at h
  generalize hpipe : Pipeline.buffer _ _ = pipe at h
  have himmediate : pipe.immediate = false := by rw [← hpipe]; simp
  have hwatched : pipe.watched = [] := by rw [← hpipe]; rfl
  generalize hjob : ({ job with status := .failed } : Job) = job' at h
  have hid : job'.id = job.id := by rw [← hjob]
  have httl : job.failureTtl = job'.failureTtl := by rw [← hjob]
  rw [httl] at h ht
  obtain ⟨s₁', -, hrun⟩ := Job.run_addToFailed himmediate job' s job'.failureTtl now
  obtain ⟨client, s₁, hfailed, h⟩ := Prog.run_bind_eq_ok h
  rw [hrun] at hfailed
  cases hin : job'.addToFailedIn s job'.failureTtl now with
  | error e =>
    rw [hin] at hfailed
    cases hfailed
  | ok cs =>
    rw [hin] at hfailed
    cases hfailed
    obtain ⟨rest, rfl, hrest, hdelete⟩ := Job.addToFailedIn_ok hin
    dsimp only at h
    rw [Job.createResult_buffer (by simpa using himmediate), Prog.ret_bind,
      Client.command_buffer (by simpa using himmediate), Prog.ret_bind] at h
    obtain ⟨time, s₂, htime, hcounted⟩ := Prog.run_bind_eq_ok h
    obtain ⟨-, rfl⟩ := Prog.run_ofExcept_eq_ok htime
    rw [Client.command_buffer (by simpa using himmediate), Prog.ret_bind] at hcounted
    obtain ⟨job'', t, hrelease, hend⟩ := Prog.run_bind_eq_ok hcounted
    cases hend
    refine deleted_of_release hrelease ?_ hwatched hid
    -- the result and the counters come after the deletion
    have hresult : ∀ c ∈ Job.resultCommands job'.id (Job.makeResult .maxRetriesExceeded
        (some "Retry") none ⟨self.name, some execution.id, some execution.createdAt, job.endedAt⟩)
        job'.failureTtl now, Job.FailureCommand job' c :=
      fun c hc => Job.failureCommand_of_mem_resultCommands hc
    have hdeleted := @deleted_failureCommands job' (rest ++ _) (fun c hc => by
      rcases List.mem_append.mp hc with hc | hc
      · exact hrest c hc
      · exact hresult c hc) (List.mem_append_left _ (hdelete ht))
    simp only [Option.getD_some, Pipeline.buffer_commandStack, Command.seq_append_run,
      Command.seq_cons_run, Command.seq_nil_run] at hdeleted ⊢
    rw [← hid]
    refine stable_deleted _ (.benign (benign_hsetWorker _ _)) _ ?_
    exact stable_deleted _ (.benign (benign_hsetWorker _ _)) _ (hdeleted _)

/-- A job that has been retried too often keeps its metadata. -/
lemma kept_of_exceeded (hexceeded : job.retriesExceeded retry)
    (h : (self.handleJobRetry job queue retry execution now fuel).run s = (.ok r, s')) :
    s'.val (.job job.id) ≠ default → metadataOf job.id s' = metadataOf job.id s := by
  by_cases ht : job.failureTtl = some 0
  · exact kept_of_deleted (deleted_of_exceeded hexceeded ht h)
  · intro _
    have hwithin : (self.handleJobRetry job queue retry execution now fuel).Within
        (fun t => metadataOf job.id t = metadataOf job.id s)
        (Via (LeavesMetadata job.id (metadataOf job.id s))) fun _ => True := by
      apply within_handleJobRetry stable_leavesMetadata
      · intro e he
        cases he with
        | fail _ he => exact leavesMetadata_of_fail ht he
        | release _ he => exact leavesMetadata_of_release he
        | again hnot _ => exact absurd hexceeded hnot
      · exact fun _ _ _ => trivial
    have hend := (hwithin.run Via.refl (fun _ _ _ => Via.trans) rfl).1
    rwa [h] at hend

/-- **A job whose function has returned a `Retry` is saved with its metadata.** -/
lemma metadataOf_handleJobRetry (hexceeded : ¬job.retriesExceeded retry) (ht : job.ttl ≠ some 0)
    {startedAt endedAt : Time} (hstarted : job.startedAt = some startedAt)
    (hended : job.endedAt = some endedAt)
    (h : (self.handleJobRetry job queue retry execution now fuel).run s = (.ok r, s')) :
    metadataOf job.id s' = (job.metadata <|> metadataOf job.id s) := by
  rw [self.run_handleJobRetry hstarted hended ht queue hexceeded] at h
  cases h
  have hnow := @keepsMetadata_againNow job.id (metadataOf job.id s) queue job.retried
    (job.retryDelay retry) now s rfl
  have hlater := savesMetadata_againLater queue job.retried (job.retryDelay retry) false now
  have hcount := keepsMetadata_of_keeps (m := metadataOf job.id s)
    (self.keeps_countCommands job.id (endedAt - startedAt))
  have hresult := @keepsMetadata_of_keeps job.id (metadataOf job.id s) _
    (keeps_resultCommands job.id (Job.makeResult .retried (some "Retry") none
      (self.retryInfo execution job)) job.failureTtl now)
  have hend := keepsMetadata_of_keeps (m := (job.metadata <|> metadataOf job.id s))
    (self.keeps_endCommands (againJob queue job.retried (job.retryDelay retry) now) job.id)
  rw [Command.seq_append_run, Command.seq_append_run, Command.seq_append_run]
  apply hend
  refine (hlater _).trans ?_
  show (job.metadata <|> metadataOf job.id _) = _
  rw [hresult _ (hcount _ hnow)]

end Retry

/-! ## Success -/

section Success
variable {self : Worker} {job : Job} {queue : Queue} {now : Time} {fuel : ℕ} {s s' : Store}
  {f : Except PyError Unit × Worker × Job → Redis (Bool × Worker × Job)} {r : Worker × Job}
  {m : Option String}

lemma keepsMetadata_resultCommandsOf (resultTtl : ℤ) :
    KeepsMetadata job.id m (.seq (self.resultCommandsOf job resultTtl now)) := by
  unfold resultCommandsOf
  split
  · exact keepsMetadata_seq (by simp)
  · intro t ht
    have hset : ∀ {mapping : JobHash}, mapping.metadata = none →
        KeepsMetadata job.id m (hset job.id mapping) := fun h => (writes_hset (p := none) h).keeps
      (.inl rfl)
    have hresult := @keeps_resultCommands job.id job.id
      (Job.makeResult .successful job.result none (self.executionInfo job)) (some resultTtl) now
    simp only [Command.seq_append_run, Command.seq_cons_run, Command.seq_nil_run]
    apply keepsMetadata_of_keeps (keeps_zadd _ _ _ _)
    apply keepsMetadata_of_keeps hresult
    exact hset rfl _ (hset rfl _ ht)

lemma keepsMetadata_successCounters (id : JobId) (time : ℤ) : KeepsMetadata id m
    (.seq [self.incrementSuccessfulJobCount, self.incrementTotalWorkingTime time]) := by
  refine keepsMetadata_seq fun c hc => ?_
  simp only [List.mem_cons, List.not_mem_nil, or_false] at hc
  rcases hc with rfl | rfl <;> exact keepsMetadata_of_keeps (keeps_hsetWorker _ _)

/-- The dependents that are released have been fetched from the store. -/
lemma keepsMetadata_released {jobs : List Job} {job' : Job}
    (hrelease : Queue.releaseIn s job none true = .ok (jobs, job')) (id : JobId) :
    KeepsMetadata id (metadataOf id s) (.seq (queue.releaseAll s job.id jobs now)) := by
  refine keepsMetadata_releaseAll s job.id (fun dependent hmem hid => ?_) now
  rw [Job.restore_metadata (Queue.mem_of_releaseIn hrelease hmem).2.2, hid]
  rfl

lemma savesMetadata_repeatLater (job : Job) (queue : Queue) (interval : ℕ) (now : Time) :
    SavesMetadata job.id job.metadata (.seq (repeatLater job queue interval now)) := by
  intro t
  have hagain : SavesMetadata job.id job.metadata (.seq (if interval = 0
      then enqueueCommands queue job false now
      else
        (.alter .queues fun q => q.insert queue.key) :: persistCommands job .scheduled now)) := by
    split
    · exact savesMetadata_enqueueCommands queue job false now
    · exact savesMetadata_scheduleCommands queue job now
  rw [repeatLater, Command.seq_append_run, Command.seq_cons_run, Command.seq_nil_run, hagain,
    saves_toDict job]
  exact orElse_orElse_self _ _

lemma keepsMetadata_repeatNow (id : JobId) (job : Job) (queue : Queue) (interval : ℕ) (now : Time) :
    KeepsMetadata id m (.seq (self.repeatNow job queue interval now)) := by
  refine keepsMetadata_seq fun c hc => ?_
  unfold repeatNow at hc
  split at hc
  · simp at hc
  · obtain rfl := List.mem_singleton.mp hc
    exact keepsMetadata_of_keeps (keeps_zadd _ _ _ _)

/-- **A job that is repeated is saved with its metadata.** -/
lemma metadataOf_repeated (hf : AfterSuccess f) (ht : job.ttl ≠ some 0)
    (hleft : 0 < job.repeatsLeft.getD 0)
    (h : (handleJobSuccessLoop queue now fuel self job >>= f).run s = (.ok (true, r), s')) :
    metadataOf job.id s' = (job.metadata <|> metadataOf job.id s) := by
  obtain ⟨n, hn⟩ := exists_repeatsLeft (Nat.pos_iff_ne_zero.mp hleft)
  obtain ⟨interval, hinterval⟩ := exists_intervalFor job n
  obtain ⟨a, s₁, hattempt, hcommit⟩ := attempt_of_loop hf h
  rcases self.run_attempt_repeating hn ht hinterval queue s now with ⟨e, hraised⟩ |
    ⟨pipe, jobs, time, status, status', job', hstarted, hstack, hrelease, -, -, hrun⟩
  · cases hraised.symm.trans hattempt
  rw [hrun] at hattempt
  cases hattempt
  have hunchanged :=
    (hstarted.congr fun k hk => self.ver_repeatNow job queue interval now s hk).unchanged
  rw [hcommit _ rfl (by simpa using hstarted.watched) hunchanged, Pipeline.buffer_commandStack,
    hstack, List.nil_append]
  generalize hjob₁ : ({ job with status := status } : Job) = job₁
  generalize hjob₂ : ({ job with status := status', repeatsLeft := some n } : Job) = job₂
  have hid₁ : job₁.id = job.id := by rw [← hjob₁]
  have hid₂ : job₂.id = job.id := by rw [← hjob₂]
  have hmetadata₂ : job₂.metadata = job.metadata := by rw [← hjob₂]
  have hnow := @keepsMetadata_repeatNow self (metadataOf job.id s) job.id job queue interval now s rfl
  have hreleased := @keepsMetadata_released job queue now s jobs job' hrelease job.id _ hnow
  have hcounted := self.keepsMetadata_successCounters job.id time _ hreleased
  have hresult := @keepsMetadata_resultCommandsOf self job₁ now (metadataOf job.id s)
    (job.getResultTtl self.defaultResultTtl)
  have hlater := savesMetadata_repeatLater job₂ queue interval now
  rw [hid₁] at hresult
  rw [hid₂, hmetadata₂] at hlater
  unfold repeatCommands
  rw [hjob₁, hjob₂, Command.seq_append_run, Command.seq_append_run, Command.seq_append_run,
    Command.seq_append_run]
  apply keepsMetadata_of_keeps (self.keeps_endCommands _ job.id)
  rw [hlater, hresult _ hcounted]

/-- **A job that succeeds and is not repeated keeps its metadata.** -/
lemma kept_of_succeeded (hf : AfterSuccess f) (hleft : ¬0 < job.repeatsLeft.getD 0)
    (h : (handleJobSuccessLoop queue now fuel self job >>= f).run s = (.ok (true, r), s')) :
    s'.val (.job job.id) ≠ default → metadataOf job.id s' = metadataOf job.id s := by
  obtain ⟨a, s₁, hattempt, hcommit⟩ := attempt_of_loop hf h
  have hzero : job.repeatsLeft.getD 0 = 0 := by omega
  obtain ⟨s₂, pipe, status, -, hread, hstarted, hstack, hrun⟩ :=
    self.run_attempt hzero queue s now
  cases hin : self.successIn job queue s now with
  | error e =>
    rw [hrun, hin] at hattempt
    cases hattempt
  | ok cs =>
    rw [hrun, hin] at hattempt
    cases hattempt
    obtain rfl := hread cs hin
    obtain ⟨⟨jobs, job'⟩, time, cleaning, hrelease, -, hcleaning, rfl⟩ := successIn_parts hin
    rw [hcommit _ rfl (by simpa using hstarted.watched) hstarted.unchanged,
      Pipeline.buffer_commandStack, hstack, List.nil_append]
    have htrim : metadataOf job.id (Job.readStore s job.id
        (some (job.getResultTtl self.defaultResultTtl)) now) = metadataOf job.id s := by
      have hval := (Job.trimmed_readStore s job.id
        (some (job.getResultTtl self.defaultResultTtl)) now).val (k := .job job.id) (by simp)
      exact congrArg JobHash.metadata hval
    have hreleased := @keepsMetadata_released job queue now s jobs job' hrelease job.id _ htrim
    have hcounted := self.keepsMetadata_successCounters job.id time _ hreleased
    have hresult := @keepsMetadata_resultCommandsOf self job now (metadataOf job.id s)
      (job.getResultTtl self.defaultResultTtl) _ hcounted
    simp only [Command.seq_append_run] at hresult ⊢
    have hend := self.keeps_endCommands job job.id
    rw [metadataOf, hend]
    unfold Job.cleanupIn at hcleaning
    split at hcleaning
    · -- the hash is deleted
      obtain ⟨leaving, executions, group, -, -, -, rfl⟩ := Job.deletionIn_ok hcleaning
      rw [Command.seq_append_run, Command.seq_cons_run, Command.seq_nil_run]
      exact kept_of_deleted (deleted_del job.id _)
    · cases hcleaning
      intro _
      exact keepsMetadata_seq (fun c hc => (writes_of_mem_cleanupCommands (p := none) hc).keeps
        (.inl rfl)) _ hresult

/-- An exception in the first iteration leaves the objects and the job as they were. Otherwise the
transaction is executed, since nobody else writes. -/
lemma loop_cases {x : Except PyError Unit} {self' : Worker} {job' : Job} (ht : job.ttl ≠ some 0)
    (h : (handleJobSuccessLoop queue now fuel self job).run s = (.ok (x, self', job'), s')) :
    x = .ok () ∨ ∃ e, x = .error e ∧ self' = self ∧ job' = job ∧
      s'.val (.job job.id) = s.val (.job job.id) := by
  cases fuel with
  | zero => cases h
  | succ fuel =>
    rw [loop_eq] at h
    have hraised : ∀ {e : PyError} {s₁ : Store}, s₁.val (.job job.id) = s.val (.job job.id) →
        (self.handleJobSuccessAttempt job queue now).run s = (.error e, s₁) →
        x = .ok () ∨ ∃ e, x = .error e ∧ self' = self ∧ job' = job ∧
          s'.val (.job job.id) = s.val (.job job.id) := by
      intro e s₁ hval hattempt
      have hattempting := run_attempting_error hattempt
      split at hattempting
      · rw [Prog.run_bind_error hattempting] at h
        cases h
      · rw [Prog.run_bind_ok hattempting] at h
        cases h
        exact .inr ⟨e, rfl, rfl, rfl, hval⟩
    have hcommitted : ∀ {self₁ : Worker} {job₁ : Job} {pipe : Pipeline Key Value} {s₁ : Store},
        Queue.Started s₁ pipe →
        (self.handleJobSuccessAttempt job queue now).run s = (.ok (self₁, job₁, some pipe), s₁) →
        x = .ok () := by
      intro self₁ job₁ pipe s₁ hstarted hattempt
      rw [Prog.run_bind_ok (run_attempting_ok hattempt)] at h
      dsimp only [Option.getD_some] at h
      rw [Prog.run_bind_ok (run_execute hstarted.watched hstarted.unchanged), if_pos rfl] at h
      cases h
      rfl
    by_cases hleft : job.repeatsLeft.getD 0 = 0
    · obtain ⟨s₁, pipe, status, htrim, -, hstarted, -, hrun⟩ := self.run_attempt hleft queue s now
      cases hin : self.successIn job queue s now with
      | error e =>
        rw [hin] at hrun
        exact hraised (htrim.val (by simp)) hrun
      | ok cs =>
        rw [hin] at hrun
        exact .inl (hcommitted (hstarted.buffer _) hrun)
    · obtain ⟨n, hn⟩ := exists_repeatsLeft hleft
      rcases self.run_attempt_repeated hn ht queue s now with ⟨e, hrun⟩ |
        ⟨s₁, pipe, job₁, cs, hstarted, -, hrun, -⟩
      · exact hraised rfl hrun
      · exact .inl (hcommitted (hstarted.buffer _) hrun)

end Success

/-! ## The work horse -/

/-- Whether `BaseWorker.perform_job` saves the job with its metadata. It returns `False` after its
`except` block. -/
def savesOutcome (self : Worker) (job : Job) (outcome : Outcome) : Bool → Bool
  | true =>
    match outcome with
    | .returned _ => decide (0 < job.repeatsLeft.getD 0)
    | .retry retry => !decide (job.retriesExceeded retry)
    | .raised _ => false
  | false => self.retries job

/-- The copy `p` of the metadata is saved if `saves` says so. Otherwise the job keeps what is stored
or is deleted. -/
def SavedBy (id : JobId) (saves : Bool) (p : Option String) (s s' : Store) : Prop :=
  if saves then metadataOf id s' = (p <|> metadataOf id s)
  else s'.val (.job id) ≠ default → metadataOf id s' = metadataOf id s

lemma SavedBy.of_eq {id : JobId} {saves : Bool} {p : Option String} {s s₁ s' : Store}
    (h : SavedBy id saves p s₁ s') (heq : metadataOf id s₁ = metadataOf id s) :
    SavedBy id saves p s s' := by
  unfold SavedBy at h ⊢
  rwa [heq] at h

/-- Nothing is lost if and only if the copy that is saved, if any, is empty or up to date. -/
lemma SavedBy.keeps_iff {id : JobId} {saves : Bool} {p m : Option String} {s s' : Store}
    (h : SavedBy id saves p s s') (hm : metadataOf id s = m) :
    (s'.val (.job id) ≠ default → metadataOf id s' = m) ↔ (saves = true → p = none ∨ p = m) := by
  unfold SavedBy at h
  split at h
  · next hsaves =>
    rw [hm] at h
    simp only [hsaves, true_imp_iff, ← orElse_eq_right_iff, h]
    constructor
    · intro hkeeps
      cases p with
      | none => rfl
      | some metadata =>
        -- the job exists, for its metadata are stored
        refine hkeeps fun hdefault => ?_
        rw [metadataOf, hdefault] at h
        cases h
    · exact fun heq _ => heq
  · next hsaves =>
    exact iff_of_true (fun hne => (h hne).trans hm) fun htrue => absurd htrue hsaves

section Horse
variable {self : Worker} {job : Job} {queue : Queue} {userCode : UserCode} {now : Time}
  {fuel : ℕ} {s s' : Store} {r : Worker × Job} {result : Bool}

/-- **A failure.** -/
lemma savedBy_handleJobFailure {excString : String} (ht : job.ttl ≠ some 0)
    {startedAt endedAt : Time} (hstarted : job.startedAt = some startedAt)
    (hended : job.endedAt = some endedAt)
    (h : (self.handleJobFailure job queue excString now fuel).run s = (.ok r, s')) :
    SavedBy job.id (self.retries job) job.metadata s s' := by
  unfold SavedBy
  split
  · next hretries => exact metadataOf_retried hretries ht hstarted hended h
  · next hretries => exact kept_of_failed (Bool.eq_false_iff.mpr hretries) h

lemma metadataOf_heartbeat (id : JobId) (now : Time) (s : Store) :
    metadataOf id ((hset id { lastHeartbeat := some (some now) }).run s) = metadataOf id s :=
  metadataOf_hset _ s

/-- The `except` block. -/
lemma savedBy_performJobExcept {excString : String} (ht : job.ttl ≠ some 0) {startedAt : Time}
    (hstarted : job.startedAt = some startedAt)
    (h : (self.performJobExcept job queue excString userCode now fuel).run s =
      (.ok (result, r), s')) :
    result = false ∧ SavedBy job.id (self.retries job) job.metadata s s' := by
  unfold performJobExcept at h
  rw [Prog.run_bind_ok (run_handleExecutionEnded _ now s)] at h
  split at h
  · cases h
  · obtain ⟨a, s₁, hfailure, h⟩ := Prog.run_bind_eq_ok h
    cases h
    have hsaved := @savedBy_handleJobFailure self { job with
      status := .failed, endedAt := some now, lastHeartbeat := some now } queue now fuel _ _ _ _
      ht _ _ hstarted rfl hfailure
    exact ⟨rfl, hsaved.of_eq (metadataOf_heartbeat job.id now s)⟩

/-- Only a program that is still running gets past a handler that returns. -/
lemma eq_stillRunning_of_catching {α : Type} {p : Redis α} {a : α} {e : PyError}
    (h : (catching p fun _ => ret a).run s = (.error e, s')) : e = .stillRunning := by
  unfold catching at h
  rw [Prog.run_tryCatch] at h
  split at h
  · cases h
  · split at h
    · next he =>
      cases h
      exact he
    · cases h

/-- An exception that comes out of `BaseWorker.handle_job_retry` leaves the job as it was. -/
lemma val_of_handleJobRetry_error {retry : Retry} {execution : Execution} {e : PyError}
    (ht : job.ttl ≠ some 0) {startedAt endedAt : Time} (hstarted : job.startedAt = some startedAt)
    (hended : job.endedAt = some endedAt) (hne : e ≠ .stillRunning)
    (h : (self.handleJobRetry job queue retry execution now fuel).run s = (.error e, s')) :
    s'.val (.job job.id) = s.val (.job job.id) := by
  by_cases hexceeded : job.retriesExceeded retry
  · unfold handleJobRetry at h
    rw [if_neg (by simp [hended])] at h
    have hexceeded' : job.numberOfRetries.getD 0 ≠ 0 ∧ retry.max ≤ job.numberOfRetries.getD 0 :=
      hexceeded
    dsimp only at h
    rw [if_pos hexceeded', Job.setStatus_buffer Pipeline.immediate_empty, Prog.ret_bind] at h
    dsimp only at h
    rw [cleanupExecution_buffer (by simp), Prog.ret_bind] at h
    dsimp only at h
    generalize hpipe : Pipeline.buffer _ _ = pipe at h
    have himmediate : pipe.immediate = false := by rw [← hpipe]; simp
    generalize hjob : ({ job with status := .failed } : Job) = job' at h
    have hid : job'.id = job.id := by rw [← hjob]
    obtain ⟨s₁, htrim, hrun⟩ := Job.run_addToFailed himmediate job' s job.failureTtl now
    cases hin : job'.addToFailedIn s job.failureTtl now with
    | error e =>
      rw [Prog.run_bind_error (by rw [hrun, hin]; rfl)] at h
      cases h
      rw [← hid]
      exact htrim.val (by simp)
    | ok cs =>
      -- the transaction is executed, and what comes out of the release is caught
      rw [Prog.run_bind_ok (by rw [hrun, hin]; rfl)] at h
      have htime : workingTime (job'.cleaned s job.failureTtl) = .ok (endedAt - startedAt) := by
        simp [workingTime, Job.cleaned, ← hjob, hstarted, hended]
      dsimp only at h
      rw [Job.createResult_buffer (by simpa using himmediate), Prog.ret_bind,
        Client.command_buffer (by simpa using himmediate), Prog.ret_bind, htime,
        Prog.ofExcept_ok, Prog.ret_bind, Client.command_buffer (by simpa using himmediate),
        Prog.ret_bind] at h
      rcases Prog.run_bind_eq_error h with hcatch | ⟨a, s₂, -, h⟩
      · exact absurd (eq_stillRunning_of_catching hcatch) hne
      · cases h
  · rw [self.run_handleJobRetry hstarted hended ht queue hexceeded] at h
    cases h

/-- A returned `Retry`. -/
lemma savedBy_handleJobRetry {retry : Retry} {execution : Execution} (ht : job.ttl ≠ some 0)
    {startedAt endedAt : Time} (hstarted : job.startedAt = some startedAt)
    (hended : job.endedAt = some endedAt)
    (h : (self.handleJobRetry job queue retry execution now fuel).run s = (.ok r, s')) :
    SavedBy job.id (!decide (job.retriesExceeded retry)) job.metadata s s' := by
  by_cases hexceeded : job.retriesExceeded retry
  · rw [decide_eq_true hexceeded]
    exact kept_of_exceeded hexceeded h
  · rw [decide_eq_false hexceeded]
    exact metadataOf_handleJobRetry hexceeded ht hstarted hended h

/-- **The second half of `perform_job`.** -/
theorem savedBy_handleOutcome {outcome : Outcome} (ht : job.ttl ≠ some 0) {startedAt : Time}
    (hstarted : job.startedAt = some startedAt)
    (h : (self.handleOutcome job queue outcome userCode now fuel).run s = (.ok (result, r), s')) :
    SavedBy job.id (self.savesOutcome job outcome result) job.metadata s s' := by
  cases outcome with
  | raised excString =>
    obtain ⟨rfl, hsaved⟩ := savedBy_performJobExcept ht hstarted h
    exact hsaved
  | retry retry =>
    simp only [handleOutcome] at h
    rw [Prog.run_bind_ok (run_handleExecutionEnded job now s)] at h
    have hbeat := metadataOf_heartbeat job.id now s
    generalize (hset job.id { lastHeartbeat := some (some now) }).run s = s₁ at h hbeat
    generalize hjob : ({ job with
      endedAt := some now, lastHeartbeat := some now, result := some "Retry" } : Job) = job₁ at h
    have ht₁ : job₁.ttl ≠ some 0 := by rw [← hjob]; exact ht
    have hstarted₁ : job₁.startedAt = some startedAt := by rw [← hjob]; exact hstarted
    have hended₁ : job₁.endedAt = some now := by rw [← hjob]
    -- what is saved is that of the object that the work horse has
    suffices h₁ : SavedBy job₁.id (self.savesOutcome job₁ (.retry retry) result) job₁.metadata s₁ s'
      by rw [← hjob] at h₁; exact h₁.of_eq hbeat
    split at h
    · obtain ⟨rfl, hsaved⟩ := savedBy_performJobExcept ht₁ hstarted₁ h
      exact hsaved
    · next execution hexecution =>
      obtain ⟨x, s₂, hattempt, h⟩ := Prog.run_bind_eq_ok h
      cases hrun : (self.handleJobRetry job₁ queue retry execution now fuel).run s₁ with
      | mk y s₃ =>
      cases y with
      | ok a =>
        cases (run_attempting_ok hrun).symm.trans hattempt
        cases h
        exact savedBy_handleJobRetry ht₁ hstarted₁ hended₁ hrun
      | error e =>
        have hattempting := run_attempting_error hrun
        split at hattempting
        · cases hattempting.symm.trans hattempt
        · next hne =>
          cases hattempting.symm.trans hattempt
          have hval := val_of_handleJobRetry_error ht₁ hstarted₁ hended₁ hne hrun
          obtain ⟨rfl, hsaved⟩ := savedBy_performJobExcept ht₁ hstarted₁ h
          exact hsaved.of_eq (congrArg JobHash.metadata hval)
  | returned value =>
    simp only [handleOutcome] at h
    rw [Prog.run_bind_ok (run_handleExecutionEnded job now s)] at h
    have hbeat := metadataOf_heartbeat job.id now s
    generalize (hset job.id { lastHeartbeat := some (some now) }).run s = s₁ at h hbeat
    generalize hjob : ({ job with
      endedAt := some now, lastHeartbeat := some now, result := value,
      status := .finished } : Job) = job₁ at h
    have ht₁ : job₁.ttl ≠ some 0 := by rw [← hjob]; exact ht
    have hstarted₁ : job₁.startedAt = some startedAt := by rw [← hjob]; exact hstarted
    suffices h₁ : SavedBy job₁.id (self.savesOutcome job₁ (.returned value) result) job₁.metadata
      s₁ s' by rw [← hjob] at h₁; exact h₁.of_eq hbeat
    split at h
    · obtain ⟨rfl, hsaved⟩ := savedBy_performJobExcept ht₁ hstarted₁ h
      exact hsaved
    · cases result with
      | true =>
        by_cases hleft : 0 < job₁.repeatsLeft.getD 0
        · simp only [SavedBy, savesOutcome, decide_eq_true hleft, if_true]
          refine metadataOf_repeated ?_ ht₁ hleft h
          exact ⟨fun _ _ => rfl, fun _ _ _ t r => run_performJobExcept_ne _ _ _ _ _ _ _ t r⟩
        · simp only [SavedBy, savesOutcome, decide_eq_false hleft]
          refine kept_of_succeeded ?_ hleft h
          exact ⟨fun _ _ => rfl, fun _ _ _ t r => run_performJobExcept_ne _ _ _ _ _ _ _ t r⟩
      | false =>
        obtain ⟨⟨x, self', job'⟩, s₂, hloop, hrest⟩ := Prog.run_bind_eq_ok h
        rcases loop_cases ht₁ hloop with rfl | ⟨e, rfl, rfl, rfl, hval⟩
        · cases hrest
        · obtain ⟨-, hsaved⟩ := savedBy_performJobExcept ht₁ hstarted₁ hrest
          exact hsaved.of_eq (congrArg JobHash.metadata hval)

end Horse

/-! ## The parent -/

section Parent
variable {self : Worker} {job : Job} {queue : Queue} {retVal : ℤ}
  {stoppedCallback killedHandler : Option String} {startedAt now : Time} {fuel : ℕ} {s s' : Store}
  {r : Worker × Job}

lemma run_resetWorkingTime (self : Worker) (s : Store) :
    (self.setCurrentJobWorkingTime 0 none).run s =
      (.ok ({ self with currentJobWorkingTime := 0 }, none),
        (hsetWorker self.name fun h => { h with currentJobWorkingTime := some 0 }).run s) := rfl

/-- The parent of a work horse that has returned leaves the job alone. -/
lemma val_of_monitorWorkHorse_zero
    (h : (self.monitorWorkHorse job queue 0 stoppedCallback killedHandler startedAt now
      fuel).run s = (.ok r, s')) : s'.val (.job job.id) = s.val (.job job.id) := by
  simp only [monitorWorkHorse] at h
  rw [Prog.run_bind_ok (run_resetWorkingTime self s), if_pos trivial] at h
  cases h
  exact keeps_hsetWorker self.name _ s

/-- **The death of a work horse while the function is running.** -/
theorem savedBy_monitorWorkHorse (ht : job.ttl ≠ some 0) (hretVal : retVal ≠ 0)
    (hstatus : (s.val (.job job.id)).status = some .started)
    (h : (self.monitorWorkHorse job queue retVal stoppedCallback killedHandler startedAt now
      fuel).run s = (.ok r, s')) : SavedBy job.id (self.retries job) job.metadata s s' := by
  simp only [monitorWorkHorse] at h
  rw [Prog.run_bind_ok (run_resetWorkingTime self s), if_neg hretVal] at h
  have hval : ((hsetWorker self.name fun h =>
      { h with currentJobWorkingTime := some 0 }).run s).val (.job job.id) =
      s.val (.job job.id) := keeps_hsetWorker _ _ s
  generalize (hsetWorker self.name fun h => { h with currentJobWorkingTime := some 0 }).run s = s₁
    at h hval
  have hread : (({ job with startedAt := some startedAt } : Job).getStatus true).run s₁ =
      (.ok (.started, { job with startedAt := some startedAt, status := .started }), s₁) := by
    rw [Job.run_getStatus]
    simp [Job.statusIn, hval, hstatus]
  rw [Prog.run_bind_ok (run_attempting_ok hread)] at h
  refine SavedBy.of_eq ?_ (congrArg JobHash.metadata hval)
  dsimp only at h
  split at h
  · next hstopped =>
    have hretries : self.retries job = false := by simp [retries, hstopped]
    unfold SavedBy
    rw [hretries]
    split at h
    · cases h
    · exact @kept_of_failed { self with currentJobWorkingTime := 0 } { job with
        startedAt := some startedAt, status := .started } _ _ _ _ _ _ _ hretries h
  · rw [if_pos (by decide)] at h
    split at h
    · cases h
    · exact @savedBy_handleJobFailure { self with currentJobWorkingTime := 0 } { job with
        startedAt := some startedAt, status := .started, endedAt := some now } _ _ _ _ _ _ _
        ht _ _ rfl rfl h

end Parent
end Worker

end RedisQueue
