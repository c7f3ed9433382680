import RedisQueue.SchedulerLocks

/-!
# Scheduler ticks, alone

What `RQScheduler.enqueue_scheduled_jobs` (`rq/scheduler.py`) takes from the registries of its
queues and pushes, when no other process runs meanwhile.

* `Takes`: the ids that were taken from each registry have been pushed, if they have a hash;
* `Takes.trans`: what is taken one after the other is taken together;
* `RQScheduler.ticks_drain`: what one tick takes, and that ticks empty the registries.
-/

namespace RedisQueue

/-! ## What the commands of a tick do -/

/-- `Job.should_enqueue_at_front` of the job with this hash. -/
def JobHash.atFront (h : JobHash) : Bool :=
  if h.enqueueAtFrontOnRetry.getD false && h.endedAt.join.isSome then true
  else h.enqueueAtFront.getD false

/-- The hash after the commands that move its job to the queue. -/
def JobHash.requeued (h : JobHash) (queue : Queue) (job : Job) (now : Time) : JobHash :=
  (h.update { status := some .queued }).update
    (({ queue._prepareForQueue job now with status := .queued } : Job).toDict true)

/-- The commands that move a job to its queue, key by key. -/
lemma val_enqueueCommands (queue : Queue) (job : Job) (atFront : Bool) (now : Time) (s : Store) :
    ((Command.seq (enqueueCommands queue job atFront now)).run s).val =
      Function.update (Function.update (Function.update
        (Function.update s.val (.registry .deferred queue.name)
          (if job.status = .deferred
            then (s.val (.registry .deferred queue.name)).remove job.id
            else s.val (.registry .deferred queue.name)))
        (.job job.id) ((s.val (.job job.id)).requeued queue job now))
        (.list queue.key) (pushed atFront job.id (s.val (.list queue.key))))
        .log (s.val .log ++ [⟨queue.key, job.id⟩]) := by
  have hexpire : ∀ (ttl : Option ℤ) (t : Store),
      ((Command.seq (cleanupCommands job.id ttl now)).run t).val = t.val := fun ttl t => by
    unfold cleanupCommands
    split <;> simp
  have hid : (queue._prepareForQueue job now).id = job.id := rfl
  by_cases hdeferred : job.status = .deferred
  · simp [enqueueCommands, persistCommands, hdeferred, hexpire, hid, JobHash.requeued]
  · simp [enqueueCommands, persistCommands, hdeferred, hexpire, hid, JobHash.requeued]

/-- What matters to later ticks stays as it is when a job is moved. -/
structure JobHash.Kept (h h' : JobHash) : Prop where
  missing : h' = default ↔ h = default
  data : h.data.isSome → h'.data.isSome
  atFront : h'.atFront = h.atFront
  status : h'.status = h.status ∨ h'.status = some .queued

lemma JobHash.Kept.refl (h : JobHash) : h.Kept h := ⟨.rfl, id, rfl, .inl rfl⟩

lemma JobHash.Kept.trans {h h' h'' : JobHash} (hk : h.Kept h') (hk' : h'.Kept h'') :
    h.Kept h'' := by
  refine ⟨hk'.missing.trans hk.missing, fun hd => hk'.data (hk.data hd),
    hk'.atFront.trans hk.atFront, ?_⟩
  rcases hk'.status with heq | hqueued
  · rw [heq]
    exact hk.status
  · exact .inr hqueued

/-- A job that is fetched is moved with what its hash says. -/
lemma shouldEnqueueAtFront_of_restore {id : JobId} {h : JobHash} {job : Job}
    (hr : Job.restore id h = .ok job) : job.shouldEnqueueAtFront = h.atFront := by
  unfold Job.restore at hr
  split at hr
  · cases hr
  · cases hr
    rfl

lemma JobHash.kept_requeued {id : JobId} {h : JobHash} {job : Job}
    (hr : Job.restore id h = .ok job) (queue : Queue) (now : Time) :
    h.Kept (h.requeued queue job now) ∧ (h.requeued queue job now).status = some .queued := by
  have hdata := Job.restore_isSome hr
  have hstatus : (h.requeued queue job now).status = some .queued := rfl
  refine ⟨⟨?_, fun _ => rfl, ?_, .inr hstatus⟩, hstatus⟩
  · -- both exist
    refine iff_of_false (fun h0 => ?_) (ne_default_of_data hdata)
    rw [h0] at hstatus
    cases hstatus
  · unfold Job.restore at hr
    split at hr
    · cases hr
    · cases hr
      -- a flag that is false is not saved, and the hash keeps its own
      have hflag : ∀ o : Option Bool, (o <|> none <|> o) = o := fun o => by cases o <;> rfl
      simp only [JobHash.atFront, JobHash.requeued, JobHash.update, Job.toDict,
        Queue._prepareForQueue, hflag]
      cases h.enqueueAtFrontOnRetry with
      | none => rfl
      | some b => cases b <;> rfl

/-! ## What is pushed -/

/-- The ids that have a hash. -/
def existing (s : Store) (ids : List JobId) : List JobId :=
  ids.filter fun id => s.val (.job id) ≠ default

/-- The ids whose hash asks for the front of the queue, and the others that have one. -/
def frontIds (s : Store) (ids : List JobId) : List JobId :=
  (existing s ids).filter fun id => (s.val (.job id)).atFront

def backIds (s : Store) (ids : List JobId) : List JobId :=
  (existing s ids).filter fun id => !(s.val (.job id)).atFront

/-- The ids that have ever been pushed to the queue `name`. -/
def pushesTo (name : QueueName) (s : Store) : List JobId :=
  ((s.val .log).filter fun p => p.key = queueKey name).map Push.id

/-- From `s` to `s'` the ids `ids name` have been pushed to each queue `name`, once each and if they
have a hash. -/
structure Pushes (ids : QueueName → List JobId) (s s' : Store) : Prop where
  list : ∀ name, s'.val (.list (queueKey name)) =
    (frontIds s (ids name)).reverse ++ s.val (.list (queueKey name)) ++ backIds s (ids name)
  pushes : ∀ name, pushesTo name s' = pushesTo name s ++ existing s (ids name)
  otherLists : ∀ key, (∀ name, key ≠ queueKey name) → s'.val (.list key) = s.val (.list key)
  queued : ∀ name, ∀ id ∈ existing s (ids name), (s'.val (.job id)).status = some .queued
  otherJobs : ∀ id, (∀ name, id ∉ existing s (ids name)) → s'.val (.job id) = s.val (.job id)
  kept : ∀ id, (s.val (.job id)).Kept (s'.val (.job id))

/-- From `s` to `s'` the ids `ids name` have left the registry of scheduled jobs of each queue
`name`, and been pushed if they have a hash. -/
structure Takes (ids : QueueName → List JobId) (s s' : Store) : Prop extends Pushes ids s s' where
  registry : ∀ name, s'.val (.registry .scheduled name) =
    (s.val (.registry .scheduled name)).removeAll (ids name)

section Trans
variable {ids ids' : QueueName → List JobId} {s s' s'' : Store}

lemma existing_eq (h : ∀ id, (s.val (.job id)).Kept (s'.val (.job id))) (l : List JobId) :
    existing s' l = existing s l :=
  List.filter_congr fun id _ => by simp [(h id).missing]

lemma frontIds_eq (h : ∀ id, (s.val (.job id)).Kept (s'.val (.job id))) (l : List JobId) :
    frontIds s' l = frontIds s l := by
  unfold frontIds
  rw [existing_eq h]
  exact List.filter_congr fun id _ => by rw [(h id).atFront]

lemma backIds_eq (h : ∀ id, (s.val (.job id)).Kept (s'.val (.job id))) (l : List JobId) :
    backIds s' l = backIds s l := by
  unfold backIds
  rw [existing_eq h]
  exact List.filter_congr fun id _ => by rw [(h id).atFront]

lemma existing_append (s : Store) (l l' : List JobId) :
    existing s (l ++ l') = existing s l ++ existing s l' := List.filter_append ..

lemma frontIds_append (s : Store) (l l' : List JobId) :
    frontIds s (l ++ l') = frontIds s l ++ frontIds s l' := by
  simp [frontIds, existing_append]

lemma backIds_append (s : Store) (l l' : List JobId) :
    backIds s (l ++ l') = backIds s l ++ backIds s l' := by
  simp [backIds, existing_append]

lemma Pushes.refl (s : Store) : Pushes (fun _ => []) s s where
  list _ := by simp [frontIds, backIds, existing]
  pushes _ := by simp [existing]
  otherLists _ _ := rfl
  queued _ _ h := by simp [existing] at h
  otherJobs _ _ := rfl
  kept _ := .refl _

/-- What is pushed one after the other is pushed together. -/
lemma Pushes.trans (h : Pushes ids s s') (h' : Pushes ids' s' s'') :
    Pushes (fun name => ids name ++ ids' name) s s'' where
  list name := by
    rw [h'.list, h.list, frontIds_eq h.kept, backIds_eq h.kept, frontIds_append, backIds_append]
    simp
  pushes name := by
    rw [h'.pushes, h.pushes, existing_eq h.kept, existing_append, List.append_assoc]
  otherLists key hkey := (h'.otherLists key hkey).trans (h.otherLists key hkey)
  queued name id hid := by
    rw [existing_append, List.mem_append] at hid
    rcases hid with hid | hid
    · rcases (h'.kept id).status with heq | hqueued
      · rw [heq]
        exact h.queued name id hid
      · exact hqueued
    · exact h'.queued name id (by rwa [existing_eq h.kept])
  otherJobs id hid := by
    simp only [existing_append, List.mem_append, not_or] at hid
    have hlast := h'.otherJobs id fun name => by
      rw [existing_eq h.kept]
      exact (hid name).2
    exact hlast.trans (h.otherJobs id fun name => (hid name).1)
  kept id := (h.kept id).trans (h'.kept id)

/-- What has no hash is not pushed. -/
lemma Pushes.congr (hids : ∀ name, existing s (ids' name) = existing s (ids name))
    (h : Pushes ids s s') : Pushes ids' s s' where
  list name := by
    unfold frontIds backIds
    rw [hids]
    exact h.list name
  pushes name := by
    rw [hids]
    exact h.pushes name
  otherLists := h.otherLists
  queued name id hid := h.queued name id (hids name ▸ hid)
  otherJobs id hid := h.otherJobs id fun name => hids name ▸ hid name
  kept := h.kept

/-- Registries may change meanwhile. -/
lemma Pushes.of_val (h : Pushes ids s s')
    (hval : ∀ k, (∀ kind name, k ≠ .registry kind name) → s''.val k = s'.val k) :
    Pushes ids s s'' where
  list name := by rw [hval _ (by simp), h.list]
  pushes name := by
    rw [pushesTo, hval _ (by simp)]
    exact h.pushes name
  otherLists key hkey := by rw [hval _ (by simp), h.otherLists key hkey]
  queued name id hid := by rw [hval _ (by simp), h.queued name id hid]
  otherJobs id hid := by rw [hval _ (by simp), h.otherJobs id hid]
  kept id := by
    rw [hval _ (by simp)]
    exact h.kept id

lemma Takes.refl (s : Store) : Takes (fun _ => []) s s where
  toPushes := .refl s
  registry name := by simp [ZSet.removeAll]

/-- **What is taken one after the other is taken together.** -/
theorem Takes.trans (h : Takes ids s s') (h' : Takes ids' s' s'') :
    Takes (fun name => ids name ++ ids' name) s s'' where
  toPushes := h.toPushes.trans h'.toPushes
  registry name := by rw [h'.registry, h.registry, ZSet.removeAll_removeAll]

end Trans

/-! ## One queue -/

section Tick
variable {queue : Queue} {now : Time} {s t : Store}

/-- Moving one job. -/
lemma pushes_enqueueCommands {id : JobId} {job : Job}
    (hr : Job.restore id (s.val (.job id)) = .ok job) :
    Pushes (fun name => if name = queue.name then [id] else []) s
      ((Command.seq (enqueueCommands queue job job.shouldEnqueueAtFront now)).run s) := by
  obtain ⟨rfl, -⟩ := Job.restore_ok hr
  have hexists : existing s [job.id] = [job.id] := by
    simp [existing, ne_default_of_data (Job.restore_isSome hr)]
  have hfront := shouldEnqueueAtFront_of_restore hr
  obtain ⟨hkept, hqueued⟩ := JobHash.kept_requeued hr queue now
  constructor
  · intro name
    by_cases hname : name = queue.name
    · subst hname
      cases hatFront : (s.val (.job job.id)).atFront <;>
        simp [val_enqueueCommands, Queue.key, frontIds, backIds, hexists, hfront, hatFront, pushed]
    · simp [val_enqueueCommands, Queue.key, queueKey_inj, hname, frontIds, backIds, existing]
  · intro name
    by_cases hname : name = queue.name
    · simp [val_enqueueCommands, pushesTo, Queue.key, hname, hexists]
    · have hne : queue.name ≠ name := fun heq => hname heq.symm
      simp [val_enqueueCommands, pushesTo, Queue.key, queueKey_inj, hname, hne, existing]
  · intro key hkey
    simp [val_enqueueCommands, Queue.key, hkey queue.name]
  · intro name id hid
    by_cases hname : name = queue.name
    · obtain rfl : id = job.id := by simpa [hname, hexists] using hid
      simpa [val_enqueueCommands] using hqueued
    · simp [hname, existing] at hid
  · intro id hid
    have hne : id ≠ job.id := by
      rintro rfl
      exact hid queue.name (by simp [hexists])
    simp [val_enqueueCommands, hne]
  · intro id
    by_cases hid : id = job.id
    · subst hid
      simpa [val_enqueueCommands] using hkept
    · have hsame : ((Command.seq (enqueueCommands queue job job.shouldEnqueueAtFront now)).run
          s).val (.job id) = s.val (.job id) := by simp [val_enqueueCommands, hid]
      rw [hsame]
      exact .refl _

/-- The jobs that `fetch_many` has found belong to the ids that have a hash. -/
lemma restored_of_fetched {ids : List JobId} {jobs : List (Option Job)}
    (h : List.Forall₂ Fetched (ids.map fun id => (id, s.val (.job id))) jobs) :
    List.Forall₂ (fun id job => Job.restore id (s.val (.job id)) = .ok job) (existing s ids)
      jobs.reduceOption := by
  induction ids generalizing jobs with
  | nil =>
    cases h
    exact .nil
  | cons id ids ih =>
    rw [List.map_cons] at h
    obtain ⟨job, rest, hjob, hrest, rfl⟩ := List.forall₂_cons_left_iff.mp h
    generalize hdata : s.val (.job id) = data at hjob
    cases hjob with
    | missing => simpa [existing, hdata] using ih hrest
    | found hne hok =>
      simp only [existing, hdata, hne, List.filter_cons, ne_eq, not_false_eq_true, decide_true,
        if_true, List.reduceOption_cons_of_some]
      exact .cons (hdata ▸ hok) (ih hrest)

/-- Only the hashes of the ids matter. -/
lemma restored_congr {ids : List JobId} {jobs : List Job}
    (hsame : ∀ id ∈ ids, t.val (.job id) = s.val (.job id))
    (h : List.Forall₂ (fun id job => Job.restore id (s.val (.job id)) = .ok job) ids jobs) :
    List.Forall₂ (fun id job => Job.restore id (t.val (.job id)) = .ok job) ids jobs := by
  induction h with
  | nil => exact .nil
  | cons hr _ ih =>
    rw [← hsame _ List.mem_cons_self] at hr
    exact .cons hr (ih fun id hid => hsame id (List.mem_cons_of_mem _ hid))

/-- Moving one job after the other. -/
lemma pushes_flatMap {ids : List JobId} {jobs : List Job} (hids : ids.Nodup)
    (h : List.Forall₂ (fun id job => Job.restore id (s.val (.job id)) = .ok job) ids jobs) :
    Pushes (fun name => if name = queue.name then ids else []) s
      ((Command.seq (jobs.flatMap fun job =>
        enqueueCommands queue job job.shouldEnqueueAtFront now)).run s) := by
  induction ids generalizing jobs s with
  | nil =>
    cases h
    simpa using Pushes.refl s
  | cons id ids ih =>
    obtain ⟨hid, hids⟩ := List.nodup_cons.mp hids
    obtain ⟨job, jobs, hr, hrest, rfl⟩ := List.forall₂_cons_left_iff.mp h
    have hfirst := @pushes_enqueueCommands queue now s id job hr
    -- the other hashes are still those that were fetched
    have hother : ∀ id' ∈ ids, ((Command.seq (enqueueCommands queue job job.shouldEnqueueAtFront
        now)).run s).val (.job id') = s.val (.job id') := fun id' hid' => by
      have hne : id' ≠ id := by
        rintro rfl
        exact hid hid'
      refine hfirst.otherJobs id' fun name => ?_
      split <;> simp [existing, hne]
    have hlast := ih (s := (Command.seq (enqueueCommands queue job job.shouldEnqueueAtFront
      now)).run s) hids (restored_congr hother hrest)
    have hids' : (fun name => (if name = queue.name then [id] else []) ++
        if name = queue.name then ids else []) =
        fun name => if name = queue.name then id :: ids else [] := by
      funext name
      split <;> rfl
    rw [List.flatMap_cons, Command.seq_append_run, ← hids']
    exact hfirst.trans hlast

/-- What is removed from a registry. -/
lemma val_flatMap_zrem (name : QueueName) (ids : List JobId) (s : Store) :
    ((Command.seq (ids.map fun id => zrem .scheduled name id)).run s).val =
      Function.update s.val (.registry .scheduled name)
        ((s.val (.registry .scheduled name)).removeAll ids) := by
  induction ids generalizing s with
  | nil => simp [ZSet.removeAll]
  | cons id ids ih =>
    have hfirst : (s.val (.registry .scheduled name)).remove id =
        (s.val (.registry .scheduled name)).removeAll [id] := by
      simp [ZSet.remove, ZSet.removeAll]
    rw [List.map_cons, Command.seq_cons_run, ih, val_zrem, Function.update_self,
      Function.update_idem, hfirst, ZSet.removeAll_removeAll, List.singleton_append]

/-- Every hash has the field that a job cannot be restored without. -/
def WellFormed (s : Store) : Prop :=
  ∀ id, s.val (.job id) ≠ default → (s.val (.job id)).data.isSome

/-- Well-formed hashes can be fetched. -/
lemma exists_restoreMany (hwell : WellFormed s) (ids : List JobId) :
    ∃ jobs, Job.restoreMany (ids.map fun id => (id, s.val (.job id))) = .ok jobs := by
  induction ids with
  | nil => exact ⟨[], rfl⟩
  | cons id ids ih =>
    obtain ⟨jobs, hjobs⟩ := ih
    by_cases hmissing : s.val (.job id) = default
    · exact ⟨none :: jobs, by
        simp only [List.map_cons, Job.restoreMany, hmissing, if_true, hjobs]
        rfl⟩
    · obtain ⟨job, hjob⟩ := Job.exists_restore id (hwell id hmissing)
      exact ⟨some job :: jobs, by
        simp only [List.map_cons, Job.restoreMany, hmissing, if_false, hjob, hjobs]
        rfl⟩

/-- Moving jobs to their queue is not about scheduled jobs. -/
lemma keeps_scheduled (queue : Queue) (jobs : List Job) (now : Time) (name : QueueName) :
    (Command.seq (jobs.flatMap fun job => enqueueCommands queue job job.shouldEnqueueAtFront
      now)).Keeps (.registry .scheduled name) := by
  refine Command.keeps_seq fun c hc => ?_
  obtain ⟨job, -, hc⟩ := List.mem_flatMap.mp hc
  cases enqueueCommand_of_mem hc with
  | undefer => exact Command.keeps_alter (by simp)
  | status => exact Command.keeps_write (by simp)
  | save => exact Command.keeps_write (by simp)
  | expire k t => exact Command.keeps_expire
  | push atFront =>
    intro s
    simp

/-- **A tick of one queue.** -/
theorem run_enqueueDueJobs (hwell : WellFormed s) (queue : Queue) (now : Time) :
    ∃ s', (enqueueDueJobs queue now).run s = (.ok (), s') ∧
      Takes (fun name => if name = queue.name then dueIds name now s else []) s s' := by
  obtain ⟨jobs, hjobs⟩ := exists_restoreMany hwell (dueIds queue.name now s)
  refine ⟨(Command.seq (tickCommands queue (dueIds queue.name now s) jobs now)).run s, ?_, ?_⟩
  · rw [enqueueDueJobs_eq, Prog.run_step]
    by_cases hids : dueIds queue.name now s = []
    · rw [hids] at hjobs ⊢
      cases hjobs
      simp [tickCommands]
    · simp [hids, hjobs, Prog.run_exec]
  · have hnodup : (dueIds queue.name now s).Nodup :=
      (ZSet.nodup_range _ _ _).sublist (List.take_sublist _ _)
    have hpushes := @pushes_flatMap queue now s _ _ (hnodup.filter _)
      (restored_of_fetched (Job.restoreMany_ok hjobs))
    have hval := val_flatMap_zrem queue.name (dueIds queue.name now s) ((Command.seq
      (jobs.reduceOption.flatMap fun job =>
        enqueueCommands queue job job.shouldEnqueueAtFront now)).run s)
    rw [tickCommands, Command.seq_append_run]
    refine ⟨(hpushes.of_val fun k hk => ?_).congr fun name => ?_, fun name => ?_⟩
    · rw [hval, Function.update_of_ne (hk _ _)]
    · split
      · next hname => simp [existing, hname]
      · rfl
    · rw [hval]
      by_cases hname : name = queue.name
      · subst hname
        rw [Function.update_self, keeps_scheduled, if_pos rfl]
      · rw [Function.update_of_ne (by simp [hname]), keeps_scheduled, if_neg hname]
        simp [ZSet.removeAll]

end Tick

/-! ## All queues of a scheduler -/

/-- The ids that are due at `now`, by score and id. -/
def allDue (name : QueueName) (now : Time) (s : Store) : List JobId :=
  (s.val (.registry .scheduled name)).range (· ≤ ·) (0 : ℤ) now

section Scheduler
variable {now : Time} {s s' : Store} {ids : QueueName → List JobId}

lemma Takes.wellFormed (h : Takes ids s s') (hwell : WellFormed s) : WellFormed s' :=
  fun id hid => (h.kept id).data (hwell id fun h0 => hid ((h.kept id).missing.mpr h0))

/-- A registry from which nothing is taken. -/
lemma Takes.registry_of_nil (h : Takes ids s s') {name : QueueName} (hname : ids name = []) :
    s'.val (.registry .scheduled name) = s.val (.registry .scheduled name) := by
  rw [h.registry, hname]
  simp [ZSet.removeAll]

/-- The loop over the registries. -/
lemma run_enqueueScheduledJobs (hwell : WellFormed s) (now : Time) {names : List QueueName}
    (hnames : names.Nodup) :
    ∃ s', (enqueueScheduledJobs now (names.map fun name => { name := name })).run s = (.ok (), s') ∧
      Takes (fun name => if name ∈ names then dueIds name now s else []) s s' := by
  induction names generalizing s with
  | nil => exact ⟨s, rfl, by simpa using Takes.refl s⟩
  | cons first names ih =>
    obtain ⟨hfirst, hnames⟩ := List.nodup_cons.mp hnames
    obtain ⟨s₁, hrun, htakes⟩ := run_enqueueDueJobs hwell { name := first } now
    obtain ⟨s', hrest, htakes'⟩ := ih (htakes.wellFormed hwell) hnames
    refine ⟨s', ?_, ?_⟩
    · rw [List.map_cons, enqueueScheduledJobs, Prog.run_bind_ok hrun, hrest]
    · -- the first queue has not changed what is due in the others
      have hids : (fun name => (if name = first then dueIds name now s else []) ++
          if name ∈ names then dueIds name now s₁ else []) =
          fun name => if name ∈ first :: names then dueIds name now s else [] := by
        funext name
        by_cases hname : name = first
        · simp [hname, hfirst]
        · have hsame : dueIds name now s₁ = dueIds name now s := by
            rw [dueIds, htakes.registry_of_nil (if_neg hname), dueIds]
          simp [hname, hsame]
      rw [← hids]
      exact htakes.trans htakes'

namespace RQScheduler

/-- `RQScheduler.enqueue_scheduled_jobs` -/
def enqueueScheduledJobs (self : RQScheduler) (now : Time) : Redis RQScheduler := do
  let self := self.prepareRegistries
  RedisQueue.enqueueScheduledJobs now (self.scheduledJobRegistries.map fun name => { name := name })
  return self

/-- Ticks, one after the other. -/
def ticks (now : Time) : ℕ → RQScheduler → Redis RQScheduler
  | 0, self => return self
  | n + 1, self => do
    let self ← self.enqueueScheduledJobs now
    ticks now n self

/-- The registries are those of the acquired locks, or not prepared yet. -/
def Prepared (self : RQScheduler) : Prop :=
  self.scheduledJobRegistries = [] ∨ self.scheduledJobRegistries = self.acquiredLocks.elems

lemma Prepared.registries {self : RQScheduler} (h : self.Prepared) :
    self.prepareRegistries.scheduledJobRegistries = self.acquiredLocks.elems := by
  unfold prepareRegistries
  split
  · rfl
  · next hne => exact h.resolve_left hne

lemma Prepared.prepareRegistries {self : RQScheduler} (h : self.Prepared) :
    self.prepareRegistries.Prepared :=
  .inr (by rw [h.registries, self.acquiredLocks_prepareRegistries])

/-- **One tick.** -/
lemma run_tick {self : RQScheduler} (hself : self.Prepared) (hwell : WellFormed s) (now : Time) :
    ∃ s', (self.enqueueScheduledJobs now).run s = (.ok self.prepareRegistries, s') ∧
      Takes (fun name => if name ∈ self.acquiredLocks then (allDue name now s).take 1000 else [])
        s s' := by
  obtain ⟨s', hrun, htakes⟩ := run_enqueueScheduledJobs hwell now self.acquiredLocks.nodup
  refine ⟨s', ?_, htakes⟩
  unfold enqueueScheduledJobs
  dsimp only
  rw [hself.registries, Prog.run_bind_ok hrun]
  rfl

/-- Several ticks. -/
lemma run_ticks {self : RQScheduler} (hself : self.Prepared) (hwell : WellFormed s) (now : Time)
    (n : ℕ) : ∃ self' s', (ticks now n self).run s = (.ok self', s') ∧
      Takes (fun name =>
        if name ∈ self.acquiredLocks then (allDue name now s).take (1000 * n) else []) s s' := by
  induction n generalizing self s with
  | zero => exact ⟨self, s, rfl, by simpa using Takes.refl s⟩
  | succ n ih =>
    obtain ⟨s₁, hrun, htakes⟩ := run_tick hself hwell now
    obtain ⟨self', s', hrest, htakes'⟩ :=
      ih hself.prepareRegistries (htakes.wellFormed hwell)
    refine ⟨self', s', ?_, ?_⟩
    · rw [ticks, Prog.run_bind_ok hrun, hrest]
    · rw [acquiredLocks_prepareRegistries] at htakes'
      have hids : (fun name =>
          (if name ∈ self.acquiredLocks then (allDue name now s).take 1000 else []) ++
          if name ∈ self.acquiredLocks then (allDue name now s₁).take (1000 * n) else []) =
          fun name => if name ∈ self.acquiredLocks then (allDue name now s).take (1000 * (n + 1))
            else [] := by
        funext name
        by_cases hname : name ∈ self.acquiredLocks
        · -- the first tick has left the rest of what was due
          have hleft : allDue name now s₁ = (allDue name now s).drop 1000 := by
            rw [allDue, htakes.registry, if_pos hname]
            exact ZSet.range_removeAll_take _ 1000 _ _
          rw [if_pos hname, if_pos hname, if_pos hname, hleft, ← List.take_add]
          congr 1
          omega
        · simp [hname]
      rw [← hids]
      exact htakes.trans htakes'

/-- **A tick takes the first thousand due ids of each queue, and ticks empty the registries.** -/
theorem ticks_drain {self : RQScheduler} (hself : self.Prepared) {s : Store}
    (hwell : WellFormed s) (now : Time) :
    (∃ s', (self.enqueueScheduledJobs now).run s = (.ok self.prepareRegistries, s') ∧
      Takes (fun name => if name ∈ self.acquiredLocks then (allDue name now s).take 1000 else [])
        s s') ∧
    ∀ n, ∃ self' s', (ticks now n self).run s = (.ok self', s') ∧
      Takes (fun name =>
        if name ∈ self.acquiredLocks then (allDue name now s).take (1000 * n) else []) s s' ∧
      ∀ name ∈ self.acquiredLocks, ((allDue name now s).length + 999) / 1000 ≤ n →
        allDue name now s' = [] ∧ (existing s (allDue name now s)).Nodup ∧
          pushesTo name s' = pushesTo name s ++ existing s (allDue name now s) := by
  refine ⟨run_tick hself hwell now, fun n => ?_⟩
  obtain ⟨self', s', hrun, htakes⟩ := run_ticks hself hwell now n
  refine ⟨self', s', hrun, htakes, fun name hname hn => ?_⟩
  have hall : (allDue name now s).length ≤ 1000 * n := by omega
  refine ⟨?_, (ZSet.nodup_range _ _ _).filter _, ?_⟩
  · have hleft : allDue name now s' = (allDue name now s).drop (1000 * n) := by
      rw [allDue, htakes.registry, if_pos hname]
      exact ZSet.range_removeAll_take _ _ _ _
    rw [hleft, List.drop_of_length_le hall]
  · rw [htakes.pushes, if_pos hname, List.take_of_length_le hall]

/-- Of the two jobs that are due, one has been deleted. -/
def missingStore : Store :=
  (Command.seq [zadd .scheduled "q" "missing" (3 : ℤ), zadd .scheduled "q" "job" (5 : ℤ),
    hset "job" { data := some "" }]).run Store.empty

lemma wellFormed_missingStore : WellFormed missingStore := by
  intro id hid
  by_cases hjob : id = "job"
  · subst hjob
    decide +kernel
  · exact absurd (by simp [missingStore, hjob, Store.empty]) hid

def oneLock : RQScheduler where
  queueNames := ["q"]
  acquiredLocks := RSet.insert ∅ "q"

/-- Both leave the registry, and one is pushed. -/
theorem ticks_drain_missing : ∃ self s', (ticks 10 1 oneLock).run missingStore = (.ok self, s') ∧
    allDue "q" 10 s' = [] ∧ pushesTo "q" s' = ["job"] := by
  have hdue : allDue "q" 10 missingStore = ["missing", "job"] := by decide +kernel
  have hlock : oneLock.Prepared := .inl rfl
  have hdrain := (ticks_drain hlock wellFormed_missingStore 10).2 1
  obtain ⟨self, s', hrun, -, hall⟩ := hdrain
  obtain ⟨hempty, -, hpushes⟩ := hall "q" (by decide) (by rw [hdue]; decide)
  refine ⟨self, s', hrun, hempty, ?_⟩
  rw [hpushes, hdue]
  decide +kernel

end RQScheduler
end Scheduler
end RedisQueue
