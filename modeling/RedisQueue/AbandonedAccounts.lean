import RedisQueue.AbandonedDependents
import RedisQueue.JobRuns

/-!
# Exact clean-ups of abandoned jobs

When `StartedJobRegistry.cleanup` handles every abandoned job exactly once.

* `Account`: what the retries and failures of a job leave in the database;
* `HandledOnce`: what the handling of a job does to it;
* `run_turn_settles`, `run_turns_settles`: one turn of the loop, and the whole loop;
* `HandledEach`: every job of the batch has been handled once, and nothing has happened to others;
* `cleanupExact_iff`: when the clean-up is exact.
-/

namespace RedisQueue

open Prog

variable {s s' s₁ s₂ t : Store} {now : Time} {pipe : Pipeline Key Value} {id : JobId}

/-! ## Accounts -/

/-- What the retries and failures of a job leave in the database. -/
@[ext] structure Account where
  retriesLeft : Option ℕ
  results : List Result
  /-- The scores of the job in the `FailedJobRegistry` of every queue. -/
  failed : QueueName → Option Score
  /-- The scores of the job in the `ScheduledJobRegistry` of every queue. -/
  scheduled : QueueName → Option Score

def Trace.account (t : Trace) : Account :=
  ⟨t.plan.retriesLeft, t.results, t.registries .failed, t.registries .scheduled⟩

def account (id : JobId) (s : Store) : Account := (trace id s).account

/-- One retry has been taken, and after an interval the job is scheduled. -/
def Account.retried (a : Account) (name : QueueName) (interval : ℕ) (now : Time) : Account :=
  { a with
    retriesLeft := a.retriesLeft.map (· - 1)
    scheduled := if interval = 0 then a.scheduled
      else Function.update a.scheduled name (some ((now + interval : ℤ) : Score)) }

/-- One failure has been recorded: a result, and an entry of the failed jobs. With a failure TTL of
zero the hash of the job is deleted, and the results with it. -/
def Account.failure (a : Account) (job : Job) (now : Time) : Account :=
  { a with
    retriesLeft := if job.failureTtl = some 0 then none else a.retriesLeft
    results := keptResults job.failureTtl
      (a.results ++ [Job.makeResult .failed none (some StartedJobRegistry.excString) {}])
    failed := Function.update a.failed job.origin
      (some (Job.failedScore (job.failureTtl.getD Job.defaultFailureTtl) now)) }

/-! ### Retries -/

namespace StartedJobRegistry

/-! ## What the turns of the loop do -/

/-- The job has been handled once, by a retry or by a failure, and its account was `a` before. -/
inductive HandledOnce (name : QueueName) (now : Time) (a : Account) (job : Job) (s' : Store) :
    Prop where
  | retried (interval : ℕ) (hretry : job.shouldRetry = true)
      (hinterval : job.getRetryInterval = .ok interval)
      (haccount : account job.id s' = a.retried name interval now)
      (hstatus : (s'.val (.job job.id)).status =
        some (if interval = 0 then .queued else .scheduled)) : HandledOnce name now a job s'
  | failed (hretry : job.shouldRetry = false)
      (haccount : account job.id s' = a.failure job now)
      (hstatus : (s'.val (.job job.id)).status =
        if job.failureTtl = some 0 then none else some .failed) : HandledOnce name now a job s'

/-- The job can be retried, without an interval. -/
def retriesAtOnce (s : Store) (id : JobId) : Bool :=
  match Job.restore id (s.val (.job id)) with
  | .ok job => job.shouldRetry && job.getRetryInterval.toOption == some 0
  | .error _ => false

/-- The job cannot be retried. -/
def fails (s : Store) (id : JobId) : Bool :=
  match Job.restore id (s.val (.job id)) with
  | .ok job => !job.shouldRetry
  | .error _ => false

/-- The pushes of the retries. -/
def retryPushes (name : QueueName) (s : Store) (ids : List JobId) : List Push :=
  (ids.filter (retriesAtOnce s)).map fun id => ⟨queueKey name, id⟩

/-- The turns of the jobs `ids` take the store from `s` to `s₁` at once, and add the commands `cs`
to the pipeline. -/
structure Settles (name : QueueName) (now : Time) (s : Store) (ids : List JobId) (s₁ : Store)
    (cs : List (Command Key Value)) : Prop where
  others : ∀ id ∉ ids, account id s₁ = account id s
  statuses : ∀ id ∉ ids, (s₁.val (.job id)).status = (s.val (.job id)).status ∨
    (s₁.val (.job id)).status = some .queued
  later : ∀ id ∉ ids, ∀ t, account id ((Command.seq cs).run t) = account id t ∧
    (((Command.seq cs).run t).val (.job id)).status = (t.val (.job id)).status
  handled : ∀ job, Job.restore job.id (s.val (.job job.id)) = .ok job → job.id ∈ ids →
    ∀ t, account job.id t = account job.id s₁ →
      HandledOnce name now (account job.id s) job ((Command.seq cs).run t)
  released : ∃ released, s₁.val .log = s.val .log ++ released ∧
    ∀ push ∈ released, ∃ parent ∈ ids, fails s parent = true ∧ push.id ∈ s.val (.dependents parent)
  pushes : ∀ t, ((Command.seq cs).run t).val .log = t.val .log ++ retryPushes name s ids

variable {userCode : UserCode} {name : QueueName} {ids : List JobId}
  {cs cs' : List (Command Key Value)}

lemma SameView.restore {h h' : JobHash} (hv : SameView h h') (id : JobId) :
    (∃ job job', Job.restore id h = .ok job ∧ Job.restore id h' = .ok job' ∧ Agree job job') ∨
      ∃ e e', Job.restore id h = .error e ∧ Job.restore id h' = .error e' := by
  cases hr : Job.restore id h with
  | ok job =>
    obtain ⟨job', hr'⟩ := Job.exists_restore id (h := h')
      (by rw [hv.data]; exact Job.restore_isSome hr)
    exact .inl ⟨job, job', rfl, hr', hv.agree hr hr'⟩
  | error e =>
    cases hr' : Job.restore id h' with
    | error e' => exact .inr ⟨e, e', rfl, rfl⟩
    | ok job' =>
      obtain ⟨job, hok⟩ := Job.exists_restore id (h := h)
        (by rw [← hv.data]; exact Job.restore_isSome hr')
      rw [hr] at hok
      cases hok

lemma fails_calm (h : Calm ids now s s₁) (id : JobId) : fails s₁ id = fails s id := by
  unfold fails
  rcases SameView.restore (h.view id) id with ⟨job, job', hr, hr', ha⟩ | ⟨e, e', hr, hr'⟩
  · rw [hr, hr']
    exact congrArg not (shouldRetry_of_agree ha)
  · rw [hr, hr']

lemma retryPushes_calm {ids' : List JobId} (h : Calm ids' now s s₁) (ids : List JobId) :
    retryPushes name s₁ ids = retryPushes name s ids := by
  have hretries : retriesAtOnce s₁ = retriesAtOnce s := by
    funext id
    unfold retriesAtOnce
    rcases SameView.restore (h.view id) id with ⟨job, job', hr, hr', ha⟩ | ⟨e, e', hr, hr'⟩
    · rw [hr, hr']
      simp only [shouldRetry_of_agree ha, getRetryInterval_of_agree ha]
    · rw [hr, hr']
  rw [retryPushes, hretries, retryPushes]

lemma HandledOnce.agree {a : Account} {job job' : Job} (ha : Agree job job')
    (h : HandledOnce name now a job' t) : HandledOnce name now a job t := by
  cases h with
  | retried interval hretry hinterval haccount hstatus =>
    rw [ha.id] at haccount hstatus
    rw [shouldRetry_of_agree ha] at hretry
    rw [getRetryInterval_of_agree ha] at hinterval
    exact .retried interval hretry hinterval haccount hstatus
  | failed hretry haccount hstatus =>
    rw [ha.id, Account.failure, ha.origin, ha.failureTtl] at haccount
    rw [ha.id, ha.failureTtl] at hstatus
    rw [shouldRetry_of_agree ha] at hretry
    exact .failed hretry haccount hstatus

lemma HandledOnce.congr {a : Account} {job : Job} (h : HandledOnce name now a job s)
    (haccount : account job.id t = account job.id s)
    (hstatus : (t.val (.job job.id)).status = (s.val (.job job.id)).status) :
    HandledOnce name now a job t := by
  cases h with
  | retried interval hretry hinterval haccount' hstatus' =>
    exact .retried interval hretry hinterval (haccount.trans haccount') (hstatus.trans hstatus')
  | failed hretry haccount' hstatus' =>
    exact .failed hretry (haccount.trans haccount') (hstatus.trans hstatus')

lemma Settles.nil (s : Store) : Settles name now s [] s [] where
  others _ _ := rfl
  statuses _ _ := .inl rfl
  later _ _ _ := ⟨rfl, rfl⟩
  handled _ _ h := by simp at h
  released := ⟨[], by simp, by simp⟩
  pushes t := by simp [retryPushes]

/-- A turn before the others. Its job is not handled again, and the others are as they were. -/
lemma Settles.cons {id₀ : JobId} (h : Settles name now s [id₀] s₁ cs) (hcalm : Calm [id₀] now s s₁)
    (h' : Settles name now s₁ ids s₂ cs') (hnew : id₀ ∉ ids) :
    Settles name now s (id₀ :: ids) s₂ (cs ++ cs') where
  others id hid := by
    rw [List.mem_cons, not_or] at hid
    exact (h'.others id hid.2).trans (h.others id (by simpa using hid.1))
  statuses id hid := by
    rw [List.mem_cons, not_or] at hid
    rcases h'.statuses id hid.2 with hkept | hqueued
    · rw [hkept]
      exact h.statuses id (by simpa using hid.1)
    · exact .inr hqueued
  later id hid t := by
    rw [List.mem_cons, not_or] at hid
    have hfirst := h.later id (by simpa using hid.1) t
    have hrest := h'.later id hid.2 ((Command.seq cs).run t)
    rw [Command.seq_append_run]
    exact ⟨hrest.1.trans hfirst.1, hrest.2.trans hfirst.2⟩
  handled job hfetch hmem t ht := by
    rw [Command.seq_append_run]
    by_cases hid : job.id = id₀
    · have hout : job.id ∉ ids := hid ▸ hnew
      rw [h'.others _ hout] at ht
      have hrest := h'.later _ hout ((Command.seq cs).run t)
      exact (h.handled job hfetch (by simp [hid]) t ht).congr hrest.1 hrest.2
    · have hin : job.id ∈ ids := (List.mem_cons.mp hmem).resolve_left hid
      have hout : job.id ∉ [id₀] := by simpa using hid
      obtain ⟨job', hfetch'⟩ := Job.exists_restore job.id (h := s₁.val (.job job.id)) (by
        rw [(hcalm.view _).data]
        exact Job.restore_isSome hfetch)
      have ha := (hcalm.view _).agree hfetch hfetch'
      have hrest := h'.handled job' (by rwa [ha.id]) (by rwa [ha.id]) ((Command.seq cs).run t)
      rw [ha.id, (h.later _ hout t).1, h.others _ hout] at hrest
      exact (hrest ht).agree ha
  released := by
    obtain ⟨first, hfirst, hparents⟩ := h.released
    obtain ⟨rest, hrest, hparents'⟩ := h'.released
    refine ⟨first ++ rest, by rw [hrest, hfirst, List.append_assoc], fun push hpush => ?_⟩
    rcases List.mem_append.mp hpush with hpush | hpush
    · obtain ⟨parent, hmem, hparent⟩ := hparents push hpush
      exact ⟨parent, by simp [List.mem_singleton.mp hmem], hparent⟩
    · obtain ⟨parent, hmem, hfails, hdependent⟩ := hparents' push hpush
      rw [fails_calm hcalm] at hfails
      exact ⟨parent, List.mem_cons_of_mem _ hmem, hfails, hcalm.fewer _ _ hdependent⟩
  pushes t := by
    rw [Command.seq_append_run, h'.pushes, h.pushes, retryPushes_calm hcalm, List.append_assoc,
      retryPushes, retryPushes, retryPushes, ← List.map_append, ← List.filter_append]
    rfl

/-- Each of the jobs has been handled once, and no other job has been retried or recorded as failed:
what is pushed besides are dependents of the failed jobs. -/
structure HandledEach (name : QueueName) (now : Time) (s : Store) (ids : List JobId) (s' : Store) :
    Prop where
  handledOnce : ∀ job, Job.restore job.id (s.val (.job job.id)) = .ok job → job.id ∈ ids →
    HandledOnce name now (account job.id s) job s'
  others : ∀ id ∉ ids, account id s' = account id s
  pushes : ∃ released, s'.val .log = s.val .log ++ released ++ retryPushes name s ids ∧
    ∀ push ∈ released, ∃ parent ∈ ids, fails s parent = true ∧ push.id ∈ s.val (.dependents parent)

lemma HandledEach.nil (s : Store) : HandledEach name now s [] s :=
  ⟨fun _ _ h => by simp at h, fun _ _ => rfl, [], by simp [retryPushes], by simp⟩

variable {score : Time}

end StartedJobRegistry

end RedisQueue
