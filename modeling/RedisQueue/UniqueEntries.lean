import RedisQueue.UniqueTheorems

/-!
# Unique entries and existing jobs

* `run_enqueueUniques`: how the loop of `Queue.enqueue_many` over the unique entries ends;
* `unique_protects`: a call with `unique=True` for an id with a hash changes nothing of the job.
-/

namespace RedisQueue

open Prog

/-! ## The unique entries of a batch -/

/-- The id of the job of an entry. -/
def EnqueueData.id (jd : EnqueueData) : JobId := jd.jobId.getD jd.uuid

namespace Queue
variable {self : Queue} {groupId : Option String} {now : Time} {s : Store} {k : Key}

/-- The commands by which unique entries are saved and pushed. -/
def uniqueCommands (self : Queue) (groupId : Option String) (now : Time)
    (jds : List (ℕ × EnqueueData)) : List (Command Key Value) :=
  jds.flatMap fun jd => (self.attemptOf groupId now jd.2).commands now

/-- An entry of a batch touches its hash, the list of the queue and the log only. -/
lemma keeps_attemptOf {jd : EnqueueData} (hjob : k ≠ .job jd.id) (hlist : k ≠ .list self.key)
    (hlog : k ≠ .log) : (Command.seq ((self.attemptOf groupId now jd).commands now)).Keeps k := by
  intro s
  have hjob' : k ≠ .job (self._prepareForQueue (self.newJob jd .queued groupId) now).id := hjob
  rw [Attempt.commands, Command.seq_append_run]
  simp [attemptOf, Place.commands, hlist, hlog, Function.update_of_ne hjob']

lemma keepsExp_saveCommands {job : Job} (hk : k ≠ .job job.id) :
    (Command.seq (saveCommands job now)).KeepsExp k := by
  refine Command.keepsExp_seq fun c hc => ?_
  simp only [saveCommands, List.mem_cons, List.not_mem_nil, or_false] at hc
  rcases hc with rfl | rfl
  · exact Command.keepsExp_write hk
  · split
    · exact Command.keepsExp_expire hk
    · exact fun _ => rfl

lemma keepsExp_push {key : String} {atFront : Bool} {id : JobId} (hlist : k ≠ .list key)
    (hlog : k ≠ .log) : (push key atFront id).KeepsExp k := by
  refine Command.keepsExp_seq fun c hc => ?_
  simp only [List.mem_cons, List.not_mem_nil, or_false] at hc
  rcases hc with rfl | rfl
  · exact Command.keepsExp_write hlist
  · exact Command.keepsExp_write hlog

lemma keepsExp_attemptOf {jd : EnqueueData} (hjob : k ≠ .job jd.id) (hlist : k ≠ .list self.key)
    (hlog : k ≠ .log) :
    (Command.seq ((self.attemptOf groupId now jd).commands now)).KeepsExp k := by
  intro s
  rw [Attempt.commands, Command.seq_append_run]
  have hpush : (push self.key jd.atFront jd.id).KeepsExp k := keepsExp_push hlist hlog
  have hsave := @keepsExp_saveCommands now k (self.attemptOf groupId now jd).job hjob
  exact (hpush _).trans (hsave s)

lemma hash_attemptOf {jd : EnqueueData} (s : Store) :
    ((Command.seq ((self.attemptOf groupId now jd).commands now)).run s).val (.job jd.id) ≠
      default := by
  refine ne_default_of_data ?_
  rw [Attempt.commands, Command.seq_append_run]
  simp [attemptOf, Place.commands, _prepareForQueue, newJob, EnqueueData.id, Job.toDict,
    JobHash.update]

lemma uniqueCommands_cons (jd : ℕ × EnqueueData) (jds : List (ℕ × EnqueueData)) :
    self.uniqueCommands groupId now (jd :: jds) =
      (self.attemptOf groupId now jd.2).commands now ++ self.uniqueCommands groupId now jds := rfl

lemma keeps_uniqueCommands {jds : List (ℕ × EnqueueData)} (hjob : ∀ jd ∈ jds, k ≠ .job jd.2.id)
    (hlist : k ≠ .list self.key) (hlog : k ≠ .log) :
    (Command.seq (self.uniqueCommands groupId now jds)).Keeps k := by
  induction jds with
  | nil => exact fun _ => rfl
  | cons jd jds ih =>
    intro s
    rw [uniqueCommands_cons, Command.seq_append_run,
      ih (fun jd hjd => hjob jd (List.mem_cons_of_mem _ hjd)),
      keeps_attemptOf (hjob jd List.mem_cons_self) hlist hlog]

lemma keepsExp_uniqueCommands {jds : List (ℕ × EnqueueData)}
    (hjob : ∀ jd ∈ jds, k ≠ .job jd.2.id) (hlist : k ≠ .list self.key) (hlog : k ≠ .log) :
    (Command.seq (self.uniqueCommands groupId now jds)).KeepsExp k := by
  induction jds with
  | nil => exact fun _ => rfl
  | cons jd jds ih =>
    intro s
    rw [uniqueCommands_cons, Command.seq_append_run,
      ih (fun jd hjd => hjob jd (List.mem_cons_of_mem _ hjd)),
      keepsExp_attemptOf (hjob jd List.mem_cons_self) hlist hlog]

/-- The list of the queue after entries have been pushed. -/
def pushedAll (jds : List (ℕ × EnqueueData)) (l : List JobId) : List JobId :=
  jds.foldl (fun l jd => pushed jd.2.atFront jd.2.id l) l

lemma list_uniqueCommands (jds : List (ℕ × EnqueueData)) (s : Store) :
    ((Command.seq (self.uniqueCommands groupId now jds)).run s).val (.list self.key) =
      pushedAll jds (s.val (.list self.key)) := by
  induction jds generalizing s with
  | nil => rfl
  | cons jd jds ih =>
    rw [uniqueCommands_cons, Command.seq_append_run, ih, Attempt.commands, Command.seq_append_run]
    simp [attemptOf, Place.commands, pushedAll, _prepareForQueue, newJob, EnqueueData.id]

/-- How the loop over the unique entries ends. -/
inductive UniquesEnd (self : Queue) (groupId : Option String) (now : Time) (s : Store) :
    List (ℕ × EnqueueData) → Except PyError (List (ℕ × Job)) × Store → Prop where
  /-- Every entry has been saved and pushed. -/
  | all (jds : List (ℕ × EnqueueData)) (haccepted : ∀ jd ∈ jds, jd.2.Accepted)
      (hfresh : ∀ jd ∈ jds, s.val (.job jd.2.id) = default)
      (hdistinct : (jds.map fun jd => jd.2.id).Nodup) :
    UniquesEnd self groupId now s jds
      (.ok (jds.map fun jd => (jd.1, (self.attemptOf groupId now jd.2).job)),
        (Command.seq (self.uniqueCommands groupId now jds)).run s)
  /-- `create_job` has raised. -/
  | rejected (before after : List (ℕ × EnqueueData)) (jd : ℕ × EnqueueData) (msg : String)
      (hfresh : ∀ jd ∈ before, s.val (.job jd.2.id) = default) (hjd : ¬jd.2.Accepted) :
    UniquesEnd self groupId now s (before ++ jd :: after)
      (.error (.valueError msg), (Command.seq (self.uniqueCommands groupId now before)).run s)
  /-- The hash of the job exists when its turn comes. -/
  | duplicate (before after : List (ℕ × EnqueueData)) (jd : ℕ × EnqueueData)
      (hfresh : ∀ jd ∈ before, s.val (.job jd.2.id) = default) (haccepted : jd.2.Accepted)
      (hexists : s.val (.job jd.2.id) ≠ default ∨ jd.2.id ∈ before.map fun jd => jd.2.id) :
    UniquesEnd self groupId now s (before ++ jd :: after)
      (.error (UniqueCall.duplicate jd.2.id),
        (Command.seq (self.uniqueCommands groupId now before)).run s)

lemma run_attemptOf (jd : EnqueueData) (s : Store) :
    (saveUniqueJob self.key (self._prepareForQueue (self.newJob jd .queued groupId) now) jd.atFront
        now).run s =
      if s.val (.job jd.id) = default then
        (.ok (), (Command.seq ((self.attemptOf groupId now jd).commands now)).run s)
      else (.error (UniqueCall.duplicate jd.id), s) := by
  have hid : (self._prepareForQueue (self.newJob jd .queued groupId) now).id = jd.id := rfl
  unfold saveUniqueJob runUnique
  rw [hid, Prog.run_step]
  by_cases hhash : s.val (.job jd.id) = default
  · rw [if_pos hhash, if_pos hhash, if_pos hhash]
    rfl
  · rw [if_neg hhash, if_neg hhash, if_neg hhash]
    rfl

lemma run_enqueueUniques (jds : List (ℕ × EnqueueData)) (s : Store) :
    UniquesEnd self groupId now s jds ((self.enqueueUniques groupId now jds).run s) := by
  induction jds generalizing s with
  | nil => exact .all [] (by simp) (by simp) (by simp)
  | cons jd jds ih =>
    obtain ⟨i, jd⟩ := jd
    unfold enqueueUniques
    by_cases haccepted : jd.Accepted
    · rw [createJob_ok haccepted, Prog.ofExcept_ok, Prog.ret_bind]
      by_cases hhash : s.val (.job jd.id) = default
      · have hsave := @run_attemptOf self groupId now jd s
        rw [if_pos hhash] at hsave
        rw [Prog.run_bind_ok hsave]
        generalize hs₁ : (Command.seq ((self.attemptOf groupId now jd).commands now)).run s = s₁
        -- a hash that does not exist now did not exist before, and is not that of this entry
        have hbefore : ∀ id, s₁.val (.job id) = default →
            s.val (.job id) = default ∧ id ≠ jd.id := fun id hid => by
          have hne : id ≠ jd.id := fun heq => by
            rw [heq, ← hs₁] at hid
            exact hash_attemptOf s hid
          refine ⟨?_, hne⟩
          rw [← hid, ← hs₁, keeps_attemptOf (by simpa using hne) (by simp) (by simp)]
        have hstate : ∀ before, (Command.seq (self.uniqueCommands groupId now before)).run s₁ =
            (Command.seq (self.uniqueCommands groupId now ((i, jd) :: before))).run s :=
          fun before => by
            rw [uniqueCommands_cons, Command.seq_append_run, hs₁]
        have hcons : ∀ before : List (ℕ × EnqueueData),
            (∀ jd ∈ before, s₁.val (.job jd.2.id) = default) →
            ∀ jd' ∈ (i, jd) :: before, s.val (.job jd'.2.id) = default := fun before hb jd' hjd' => by
          rcases List.mem_cons.mp hjd' with rfl | hjd'
          · exact hhash
          · exact (hbefore _ (hb jd' hjd')).1
        generalize hrun : (self.enqueueUniques groupId now jds).run s₁ = r
        have hend := ih s₁
        rw [hrun] at hend
        cases hend with
        | all _ hall hfresh hdistinct =>
          rw [Prog.run_bind_ok hrun, hstate]
          refine .all ((i, jd) :: jds) (fun jd' hjd' => ?_) (hcons jds hfresh) ?_
          · rcases List.mem_cons.mp hjd' with rfl | hjd'
            · exact haccepted
            · exact hall jd' hjd'
          · rw [List.map_cons, List.nodup_cons]
            refine ⟨fun hmem => ?_, hdistinct⟩
            obtain ⟨jd', hjd', heq⟩ := List.mem_map.mp hmem
            exact (hbefore _ (hfresh jd' hjd')).2 heq
        | rejected before after jd' msg hfresh hjd' =>
          rw [Prog.run_bind_error hrun, hstate]
          exact .rejected ((i, jd) :: before) after jd' msg (hcons before hfresh) hjd'
        | duplicate before after jd' hfresh hjd' hexists =>
          rw [Prog.run_bind_error hrun, hstate]
          refine .duplicate ((i, jd) :: before) after jd' (hcons before hfresh) hjd' ?_
          rcases hexists with hexists | hmem
          · by_cases heq : jd'.2.id = jd.id
            · exact .inr (by simp [heq])
            · refine .inl ?_
              rwa [← hs₁, keeps_attemptOf (by simpa using heq) (by simp) (by simp)] at hexists
          · exact .inr (List.mem_cons_of_mem _ hmem)
      · have hsave := @run_attemptOf self groupId now jd s
        rw [if_neg hhash] at hsave
        rw [Prog.run_bind_error hsave]
        exact .duplicate [] jds (i, jd) (by simp) haccepted (.inl hhash)
    · obtain ⟨msg, hmsg⟩ := @createJob_error self jd .queued groupId haccepted
      rw [hmsg, Prog.ofExcept_error, Prog.throw_bind, Prog.run_throw]
      exact .rejected [] jds (i, jd) msg (by simp) haccepted

lemma run_enqueueUniques_all {jds : List (ℕ × EnqueueData)} (hjds : ∀ jd ∈ jds, jd.2.Accepted)
    (hfresh : ∀ jd ∈ jds, s.val (.job jd.2.id) = default)
    (hdistinct : (jds.map fun jd => jd.2.id).Nodup) :
    (self.enqueueUniques groupId now jds).run s =
      (.ok (jds.map fun jd => (jd.1, (self.attemptOf groupId now jd.2).job)),
        (Command.seq (self.uniqueCommands groupId now jds)).run s) := by
  generalize hrun : (self.enqueueUniques groupId now jds).run s = r
  have hend := @run_enqueueUniques self groupId now jds s
  rw [hrun] at hend
  cases hend with
  | all _ _ _ _ => rfl
  | rejected before after jd msg _ hjd => exact absurd (hjds jd (by simp)) hjd
  | duplicate before after jd _ _ hexists =>
    rcases hexists with hexists | hmem
    · exact absurd (hfresh jd (by simp)) hexists
    · rw [List.map_append, List.map_cons, List.nodup_append] at hdistinct
      exact absurd rfl (hdistinct.2.2 _ hmem _ List.mem_cons_self)

end Queue

/-! ## The validation of a batch -/

/-- The arguments of the entry are accepted, by `enqueue_many` and by `create_job`. -/
structure EnqueueData.Valid (jd : EnqueueData) : Prop where
  accepted : jd.Accepted
  noDeps : jd.unique = true → jd.dependsOn = none
  hasJobId : jd.unique = true → Queue.hasJobId jd = true

namespace Queue

lemma validate_ok_iff {jds : List EnqueueData} : validate jds = .ok () ↔
    ∀ jd ∈ jds, jd.unique = true → jd.dependsOn = none ∧ hasJobId jd = true := by
  induction jds with
  | nil => simp [validate]
  | cons jd jds ih =>
    rw [validate, List.forall_mem_cons, ← ih]
    cases hunique : jd.unique with
    | false => simp
    | true =>
      cases hdeps : jd.dependsOn with
      | some d => simp
      | none => cases hid : hasJobId jd <;> simp

lemma validate_error {jds : List EnqueueData} (h : validate jds ≠ .ok ()) :
    ∃ msg, validate jds = .error (.valueError msg) := by
  induction jds with
  | nil => exact absurd rfl h
  | cons jd jds ih =>
    rw [validate] at h ⊢
    split
    · exact ⟨_, rfl⟩
    split
    · exact ⟨_, rfl⟩
    next hdeps hid =>
      rw [if_neg hdeps, if_neg hid] at h
      exact ih h

lemma exists_mem_indexed {jds : List EnqueueData} {jd : EnqueueData} (h : jd ∈ jds) :
    ∃ i, (i, jd) ∈ indexed jds := by
  rw [← List.zipIdx_map_fst 0 jds] at h
  obtain ⟨⟨jd', i⟩, hmem, rfl⟩ := List.mem_map.mp h
  exact ⟨i, List.mem_map.mpr ⟨_, hmem, rfl⟩⟩

lemma mem_uniqueNoDeps {jds : List EnqueueData} {jd : ℕ × EnqueueData}
    (h : jd ∈ uniqueNoDeps jds) : jd.2 ∈ jds ∧ jd.2.unique = true ∧ jd.2.dependsOn = none := by
  obtain ⟨hmem, hunique⟩ := List.mem_filter.mp h
  rw [Bool.and_eq_true, Option.isNone_iff_eq_none] at hunique
  exact ⟨mem_of_indexed hmem, hunique⟩

end Queue

/-! ## Jobs that exist -/

/-- A call with `unique=True` and any options. -/
inductive GuardedCall where
  | enqueueCall (queue : Queue) (sync : Option Queue.SyncCode) (jd : EnqueueData)
    (pipeline : Client)
  | enqueueJob (queue : Queue) (sync : Option Queue.SyncCode) (job : Job) (pipeline : Client)
    (atFront : Bool)
  | scheduleJob (queue : Queue) (job : Job) (datetime : Time) (pipeline : Client)
  | enqueueMany (queue : Queue) (sync : Option Queue.SyncCode) (jobDatas : List EnqueueData)
    (pipeline : Client) (groupId : Option String)

namespace GuardedCall

def program (now : Time) (fuel : ℕ) : GuardedCall → Redis Unit
  | .enqueueCall queue sync jd pipeline => do
    let _ ← queue.enqueueCall sync jd pipeline now fuel
    return ()
  | .enqueueJob queue sync job pipeline atFront => do
    let _ ← queue.enqueueJobOn sync job pipeline atFront true now fuel
    return ()
  | .scheduleJob queue job datetime pipeline => do
    let _ ← queue.scheduleJob job datetime pipeline true now
    return ()
  | .enqueueMany queue sync jobDatas pipeline groupId => do
    let _ ← queue.enqueueMany sync jobDatas pipeline groupId now fuel
    return ()

/-- The call is for the job `id`; a job object is not one that waits for dependencies. -/
def For (id : JobId) : GuardedCall → Prop
  | .enqueueCall _ _ jd _ => jd.unique = true ∧ jd.jobId = some id
  | .enqueueJob _ _ job _ _ => job.id = id ∧ job.status ≠ .deferred
  | .scheduleJob _ job _ _ => job.id = id
  | .enqueueMany _ _ jobDatas _ _ => ∃ jd ∈ jobDatas, jd.unique = true ∧ jd.jobId = some id

/-- `MULTI` can be called on the pipeline of the caller, or has been. -/
def Ready (pipeline : Client) : Prop :=
  ∀ pipe, pipeline = some pipe → pipe.explicitTransaction = true ∨ pipe.commandStack = []

/-- The options are accepted. -/
def Accepted : GuardedCall → Prop
  | .enqueueCall _ _ jd pipeline => jd.Valid ∧ Ready pipeline
  | .enqueueJob _ _ job pipeline _ => job.dependencyIds = [] ∧ Ready pipeline
  | .scheduleJob _ _ _ _ => True
  | .enqueueMany _ _ jobDatas _ _ => ∀ jd ∈ jobDatas, jd.Valid

/-- The `DuplicateJobError` of a call: in a batch, of one of its unique entries. -/
def Duplicate (id : JobId) : GuardedCall → PyError → Prop
  | .enqueueMany _ _ jobDatas _ _, e =>
    ∃ jd ∈ jobDatas, jd.unique = true ∧ e = UniqueCall.duplicate jd.id
  | _, e => e = UniqueCall.duplicate id

/-- The entries that a batch has pushed when it raises: unique ones of other ids, without a hash
before. -/
def Pushed (id : JobId) (s : Store) : GuardedCall → List (ℕ × EnqueueData) → Prop
  | .enqueueMany _ _ jobDatas _ _, before => before <+: Queue.uniqueNoDeps jobDatas ∧
      ∀ jd ∈ before, jd.2.id ≠ id ∧ s.val (.job jd.2.id) = default
  | _, before => before = []

/-- The key of the queue of a call. -/
def key : GuardedCall → String
  | .enqueueCall queue _ _ _ => queue.key
  | .enqueueJob queue _ _ _ _ => queue.key
  | .scheduleJob queue _ _ _ => queue.key
  | .enqueueMany queue _ _ _ _ => queue.key

/-- The store as a call leaves it that has pushed the entries `before`. -/
structure Protected (id : JobId) (key : String) (before : List (ℕ × EnqueueData)) (s s' : Store) :
    Prop where
  hash : s'.val (.job id) = s.val (.job id)
  expiry : s'.exp (.job id) = s.exp (.job id)
  lists : ∀ key', s'.val (.list key') =
    if key' = key then Queue.pushedAll before (s.val (.list key')) else s.val (.list key')
  registries : ∀ kind name, s'.val (.registry kind name) = s.val (.registry kind name)
  started : ∀ name, s'.val (.wip name) = s.val (.wip name)

section Protected
variable {id : JobId} {s s' : Store} {key : String} {now : Time} {fuel : ℕ}

lemma Protected.refl (id : JobId) (key : String) (s : Store) : Protected id key [] s s :=
  ⟨rfl, rfl, fun _ => by simp [Queue.pushedAll], fun _ _ => rfl, fun _ => rfl⟩

lemma protected_register (key' : String) :
    Protected id key [] s ((Command.alter .queues fun q => q.insert key').run s) :=
  ⟨by simp, Command.keepsExp_alter (by simp) s, fun _ => by simp [Queue.pushedAll],
    fun _ _ => by simp, fun _ => by simp⟩

lemma protected_uniqueCommands {queue : Queue} {groupId : Option String}
    {before : List (ℕ × EnqueueData)} (h : ∀ jd ∈ before, jd.2.id ≠ id) :
    Protected id queue.key before s
      ((Command.seq (queue.uniqueCommands groupId now before)).run s) := by
  have hjob : ∀ jd ∈ before, Key.job id ≠ .job jd.2.id := fun jd hjd => by
    simpa using (h jd hjd).symm
  refine ⟨Queue.keeps_uniqueCommands hjob (by simp) (by simp) s,
    Queue.keepsExp_uniqueCommands hjob (by simp) (by simp) s, fun key' => ?_,
    fun kind name => Queue.keeps_uniqueCommands (by simp) (by simp) (by simp) s,
    fun name => Queue.keeps_uniqueCommands (by simp) (by simp) (by simp) s⟩
  split
  · next heq => rw [heq, Queue.list_uniqueCommands]
  · next hne => exact Queue.keeps_uniqueCommands (by simp) (by simpa using hne) (by simp) s

/-- A pipeline of the caller does not matter. -/
lemma run_setupDependencies {job : Job} (hdeps : job.dependencyIds = []) (pipeline : Client) :
    (∃ e, (Queue.setupDependencies job pipeline now fuel).run s = (.error e, s) ∧
      ¬Ready pipeline) ∨
    ∃ pipeline', (Queue.setupDependencies job pipeline now fuel).run s =
        (.ok (job, pipeline'), s) ∧ ∀ pipe, pipeline' = some pipe → pipe.immediate = false := by
  cases pipeline with
  | none => exact .inr ⟨none, by simp [Queue.setupDependencies, hdeps], by simp⟩
  | some pipe =>
    by_cases hexplicit : pipe.explicitTransaction = true
    · refine .inr ⟨some pipe, by simp [Queue.setupDependencies, hdeps, hexplicit], ?_⟩
      intro pipe' heq
      cases heq
      simp [Pipeline.immediate, hexplicit]
    · by_cases hstack : pipe.commandStack = []
      · refine .inr ⟨some { pipe with explicitTransaction := true }, ?_, ?_⟩
        · simp [Queue.setupDependencies, hdeps, hexplicit, Pipeline.multi, hstack]
        · intro pipe' heq
          cases heq
          simp [Pipeline.immediate]
      · refine .inl ⟨.redisError "Commands without an initial WATCH have already been issued", ?_,
          fun hready => (hready pipe rfl).elim hexplicit hstack⟩
        simp [Queue.setupDependencies, hdeps, hexplicit, Pipeline.multi, hstack,
          StoreErrors.redisError]

/-- The guarded script leaves an existing job alone. -/
lemma run_runUnique {job : Job} (hs : s.val (.job job.id) ≠ default)
    (commands : List (Command Key Value)) :
    (runUnique job commands).run s = (.error (UniqueCall.duplicate job.id), s) := by
  unfold runUnique
  rw [Prog.run_step, if_neg hs, if_neg hs]
  rfl

lemma run_enqueueJobOn_duplicate (queue : Queue) (sync : Option Queue.SyncCode) {job : Job}
    (hs : s.val (.job job.id) ≠ default) (pipeline : Client) (atFront : Bool) :
    (queue._enqueueJobOn sync job pipeline atFront true now).run s =
      (.error (UniqueCall.duplicate job.id), s) := by
  have hprepared : s.val (.job (queue._prepareForQueue job now).id) ≠ default := hs
  cases sync with
  | none =>
    simp only [Queue._enqueueJobOn, Queue._enqueueJob, saveUniqueJob, if_true]
    exact Prog.run_bind_error (run_runUnique hprepared _)
  | some code =>
    simp only [Queue._enqueueJobOn, Queue._enqueueSyncJob, Queue.saveUniqueJobOnly, if_true]
    exact Prog.run_bind_error (run_runUnique hprepared _)

/-- `Queue.enqueue_job` with `unique=True`. -/
lemma run_enqueueJob_protects (queue : Queue) (sync : Option Queue.SyncCode) {job : Job}
    (hs : s.val (.job job.id) ≠ default) (hstatus : job.status ≠ .deferred) (pipeline : Client)
    (atFront : Bool) :
    ∃ e s', (queue.enqueueJobOn sync job pipeline atFront true now fuel).run s = (.error e, s') ∧
      (job.dependencyIds = [] ∧ Ready pipeline → e = UniqueCall.duplicate job.id) ∧
      Protected job.id queue.key [] s s' := by
  unfold Queue.enqueueJobOn
  by_cases hdeps : job.dependencyIds = []
  · rw [if_neg (by simp [hdeps])]
    have hdeps' : ({ job with origin := queue.name } : Job).dependencyIds = [] := hdeps
    rcases @run_setupDependencies s now fuel _ hdeps' pipeline with
      ⟨e, hsetup, hready⟩ | ⟨pipeline', hsetup, himmediate⟩
    · exact ⟨e, s, Prog.run_bind_error hsetup, fun h => absurd h.2 hready, .refl _ _ s⟩
    · rw [Prog.run_bind_ok hsetup]
      have hstatus' : ({ job with origin := queue.name } : Job).status ≠ .deferred := hstatus
      cases pipeline' with
      | some pipe =>
        refine ⟨_, s, ?_, fun _ => rfl, .refl _ _ s⟩
        simp only [Client.command_buffer (himmediate pipe rfl), Prog.ret_bind]
        rw [if_pos hstatus']
        exact run_enqueueJobOn_duplicate queue sync (by exact hs) _ atFront
      | none =>
        refine ⟨_, _, ?_, fun _ => rfl, protected_register queue.key⟩
        dsimp only
        rw [Pipeline.command_eq_buffer Pipeline.immediate_empty, Prog.ret_bind,
          Pipeline.execute_of_unwatched rfl (by simp), Prog.exec_bind, Prog.run_exec, if_pos rfl,
          Prog.ret_bind, Prog.pure_eq, Prog.ret_bind, if_pos hstatus']
        exact run_enqueueJobOn_duplicate queue sync (by simpa using hs) _ atFront
  · rw [if_pos (by simp [hdeps])]
    exact ⟨_, s, rfl, fun h => absurd h.1 hdeps, .refl _ _ s⟩

/-- `Queue.enqueue_many` with a unique entry. -/
lemma run_enqueueMany_protects (queue : Queue) (sync : Option Queue.SyncCode)
    {jobDatas : List EnqueueData} (hs : s.val (.job id) ≠ default) {jd : EnqueueData}
    (hjd : jd ∈ jobDatas) (hunique : jd.unique = true) (hid : jd.jobId = some id)
    (pipeline : Client) (groupId : Option String) :
    ∃ e s' before,
      (queue.enqueueMany sync jobDatas pipeline groupId now fuel).run s = (.error e, s') ∧
      ((∀ jd ∈ jobDatas, jd.Valid) →
        ∃ jd ∈ jobDatas, jd.unique = true ∧ e = UniqueCall.duplicate jd.id) ∧
      (before <+: Queue.uniqueNoDeps jobDatas ∧
        ∀ jd ∈ before, jd.2.id ≠ id ∧ s.val (.job jd.2.id) = default) ∧
      Protected id queue.key before s s' := by
  unfold Queue.enqueueMany
  by_cases hvalid : Queue.validate jobDatas = .ok ()
  · rw [hvalid, Prog.ofExcept_ok, Prog.ret_bind]
    obtain ⟨client, s₁, hcommand, hs₁⟩ : ∃ client s₁,
        (Client.command (some (pipeline.getD {}))
          (.alter .queues fun q => q.insert queue.key)).run s = (.ok client, s₁) ∧
        (s₁ = s ∨ s₁ = (Command.alter .queues fun q => q.insert queue.key).run s) := by
      cases himmediate : (pipeline.getD {}).immediate with
      | false => exact ⟨_, s, by rw [Client.command_buffer himmediate, Prog.run_ret], .inl rfl⟩
      | true =>
        refine ⟨some (pipeline.getD {}), _, ?_, .inr rfl⟩
        simp [Client.command, Pipeline.command, himmediate, Prog.run_bind]
    have hjobs : ∀ id, s₁.val (.job id) = s.val (.job id) := fun id => by
      rcases hs₁ with rfl | rfl <;> simp
    rw [Prog.run_bind_ok hcommand]
    have hentry : jd.dependsOn = none := (Queue.validate_ok_iff.mp hvalid jd hjd hunique).1
    obtain ⟨i, hi⟩ := Queue.exists_mem_indexed hjd
    have hmem : (i, jd) ∈ Queue.uniqueNoDeps jobDatas :=
      List.mem_filter.mpr ⟨hi, by simp [hunique, hentry]⟩
    have hjdid : jd.id = id := by simp [EnqueueData.id, hid]
    -- entries without a hash before them are not for this id
    have hother : ∀ before : List (ℕ × EnqueueData),
        (∀ jd ∈ before, s₁.val (.job jd.2.id) = default) →
        ∀ jd ∈ before, jd.2.id ≠ id ∧ s.val (.job jd.2.id) = default :=
      fun before hfresh jd hjd => by
        have hdefault := hjobs _ ▸ hfresh jd hjd
        exact ⟨fun heq => hs (heq ▸ hdefault), hdefault⟩
    have hprotected : ∀ before : List (ℕ × EnqueueData),
        (∀ jd ∈ before, jd.2.id ≠ id ∧ s.val (.job jd.2.id) = default) →
        Protected id queue.key before s
          ((Command.seq (queue.uniqueCommands groupId now before)).run s₁) :=
      fun before hbefore => by
        have hwritten := @protected_uniqueCommands id s₁ now queue groupId before
          fun jd hjd => (hbefore jd hjd).1
        rcases hs₁ with rfl | rfl
        · exact hwritten
        · have hregistered := @protected_register id s queue.key queue.key
          exact ⟨hwritten.hash.trans hregistered.hash, hwritten.expiry.trans hregistered.expiry,
            fun key' => by rw [hwritten.lists, Command.val_alter, Function.update_of_ne (by simp)],
            fun kind name => (hwritten.registries kind name).trans (hregistered.registries kind name),
            fun name => (hwritten.started name).trans (hregistered.started name)⟩
    generalize hjds : Queue.uniqueNoDeps jobDatas = jds at hmem ⊢
    generalize hrun : (queue.enqueueUniques groupId now jds).run s₁ = r
    have hend := @Queue.run_enqueueUniques queue groupId now jds s₁
    rw [hrun] at hend
    cases hend with
    | all _ _ hfresh _ => exact absurd (hother _ hfresh _ hmem).1 (fun h => h hjdid)
    | rejected before after jd' msg hfresh hjd' =>
      have hbefore := hother before hfresh
      refine ⟨_, _, before, Prog.run_bind_error hrun, fun hall => ?_,
        ⟨⟨jd' :: after, rfl⟩, hbefore⟩, hprotected before hbefore⟩
      have hmem' := @Queue.mem_uniqueNoDeps jobDatas jd' (by simp [hjds])
      exact absurd (hall jd'.2 hmem'.1).accepted hjd'
    | duplicate before after jd' hfresh _ _ =>
      have hbefore := hother before hfresh
      have hmem' := @Queue.mem_uniqueNoDeps jobDatas jd' (by simp [hjds])
      exact ⟨_, _, before, Prog.run_bind_error hrun, fun _ => ⟨jd'.2, hmem'.1, hmem'.2.1, rfl⟩,
        ⟨⟨jd' :: after, rfl⟩, hbefore⟩, hprotected before hbefore⟩
  · obtain ⟨msg, hmsg⟩ := Queue.validate_error hvalid
    rw [hmsg, Prog.ofExcept_error, Prog.throw_bind, Prog.run_throw]
    refine ⟨_, s, [], rfl, fun hall => ?_, ⟨List.nil_prefix, by simp⟩, .refl _ _ s⟩
    exact absurd (Queue.validate_ok_iff.mpr fun jd hjd hunique =>
      ⟨(hall jd hjd).noDeps hunique, (hall jd hjd).hasJobId hunique⟩) hvalid

/-- **A call with `unique=True` protects a job that exists.** -/
theorem unique_protects (id : JobId) (s : Store) (hs : s.val (.job id) ≠ default)
    (call : GuardedCall) (hcall : call.For id) (now : Time) (fuel : ℕ) :
    ∃ e s' before, (call.program now fuel).run s = (.error e, s') ∧
      (call.Accepted → call.Duplicate id e) ∧ call.Pushed id s before ∧
      Protected id call.key before s s' := by
  cases call with
  | enqueueCall queue sync jd pipeline =>
    obtain ⟨hunique, hid⟩ := hcall
    have hjdid : (queue.newJob jd .queued none).id = id := by simp [Queue.newJob, hid]
    simp only [program, Queue.enqueueCall]
    by_cases hexplicit : Queue.hasJobId jd = true
    · rw [if_neg (by simp [hexplicit])]
      by_cases haccepted : jd.Accepted
      · obtain ⟨e, s', hrun, hduplicate, hprotected⟩ := @run_enqueueJob_protects s now fuel queue sync
          (queue.newJob jd .queued none) (by rw [hjdid]; exact hs) (by simp [Queue.newJob]) pipeline
          jd.atFront
        rw [hjdid] at hduplicate hprotected
        refine ⟨e, s', [], ?_, fun h => hduplicate ⟨?_, h.2⟩, rfl, hprotected⟩
        · rw [Queue.createJob_ok haccepted, Prog.ofExcept_ok, Prog.ret_bind, hunique,
            Prog.run_bind_error hrun]
        · simp [Queue.newJob, h.1.noDeps hunique]
      · obtain ⟨msg, hmsg⟩ := @Queue.createJob_error queue jd .queued none haccepted
        rw [hmsg]
        exact ⟨_, s, [], rfl, fun h => absurd h.1.accepted haccepted, rfl, .refl _ _ s⟩
    · rw [if_pos (by simp [hunique, hexplicit])]
      exact ⟨_, s, [], rfl, fun h => absurd (h.1.hasJobId hunique) hexplicit, rfl, .refl _ _ s⟩
  | enqueueJob queue sync job pipeline atFront =>
    obtain ⟨rfl, hstatus⟩ := hcall
    obtain ⟨e, s', hrun, hduplicate, hprotected⟩ :=
      run_enqueueJob_protects queue sync hs hstatus pipeline atFront
    exact ⟨e, s', [], Prog.run_bind_error hrun, hduplicate, rfl, hprotected⟩
  | scheduleJob queue job datetime pipeline =>
    obtain rfl : job.id = id := hcall
    refine ⟨_, s, [], ?_, fun _ => rfl, rfl, .refl _ _ s⟩
    have hscheduled : s.val (.job ({ job with status := .scheduled } : Job).id) ≠ default := hs
    simp only [program, Queue.scheduleJob, if_true, scheduleUniqueJob]
    exact Prog.run_bind_error (Prog.run_bind_error (run_runUnique hscheduled _))
  | enqueueMany queue sync jobDatas pipeline groupId =>
    obtain ⟨jd, hjd, hunique, hid⟩ := hcall
    obtain ⟨e, s', before, hrun, hduplicate, hpushed, hprotected⟩ :=
      @run_enqueueMany_protects id s now fuel queue sync jobDatas hs jd hjd hunique hid pipeline
        groupId
    exact ⟨e, s', before, Prog.run_bind_error hrun, hduplicate, hpushed, hprotected⟩

end Protected

/-! ### A batch, an option and a schedule -/

/-- A job that waits in its queue. -/
def queuedStore : Store :=
  (Queue.enqueueJob { name := "default" } { id := "job" } none false false 0 1 |>.run Store.empty).2

/-- A second job with its id. -/
def secondCall : GuardedCall := .enqueueJob { name := "default" } none { id := "job" } none false

theorem unique_protects_queued : ∃ e s' before,
    (secondCall.program 5 0).run queuedStore = (.error e, s') ∧
      (secondCall.Accepted → secondCall.Duplicate "job" e) ∧
      secondCall.Pushed "job" queuedStore before ∧
      Protected "job" secondCall.key before queuedStore s' :=
  unique_protects "job" queuedStore (by decide) secondCall ⟨rfl, nofun⟩ 5 0

/-- A batch pushes the unique entries before the one that exists, an option that is not accepted
raises another exception, and `enqueue_at` overwrites the job. -/
theorem existing_job_unprotected :
    ((Queue.enqueueMany { name := "default" } none [{ jobId := some "other", unique := true },
      { jobId := some "job", unique := true }] none none 5 0).run queuedStore).2.val
        (.list (queueKey "default")) = ["job", "other"] ∧
    ((Queue.enqueueCall { name := "default" } none
      { jobId := some "job", unique := true, ttl := some 0 } none 5 0).run queuedStore).1 =
        .error (.valueError "Job ttl must be greater than 0") ∧
    (((Queue.enqueueAt { name := "default" } 60 { jobId := some "job", unique := true } none 5).run
      queuedStore).2.val (.job "job")).status = some .scheduled :=
  ⟨rfl, rfl, rfl⟩

end GuardedCall

end RedisQueue
