import RedisQueue.BatchResults
import RedisQueue.WorkerFootprints

/-!
# Which queues are registered

`Queue.all`, and the maintenance code that iterates over it, finds the queues whose keys are in
`rq:queues`. A dozen methods push ids, and only some of them register the queue.

* `QueueOperation`: the methods that push ids, or delete a queue;
* `Registered`: every queue whose list is not empty is registered;
* `registered_of_reaches`: the runs in which it stays so;
* `unique_batch_unregistered`: a batch of unique entries is pushed to a queue that is not registered.
-/

namespace RedisQueue

open Prog

/-- `Queue.delete` with `delete_jobs=False`. -/
def Queue.delete (self : Queue) : Redis Unit := do
  let pipeline ← Client.command (some {}) (.alter .queues fun q => q.erase self.key)
  let pipeline ← pipeline.command (.del (.list self.key))
  let _ ← (pipeline.getD {}).execute
  return ()

/-- Every queue whose list is not empty has its key in `rq:queues`. -/
def Registered (s : Store) : Prop :=
  ∀ name, s.val (.list (queueKey name)) ≠ [] → queueKey name ∈ s.val .queues

/-! ## Effects -/

/-- The queues of `late` may be pushed to before they are registered, those of `kept` are
registered. -/
structure RegisteredBut (late kept : Set String) (s : Store) : Prop where
  others : ∀ name, queueKey name ∉ late → s.val (.list (queueKey name)) ≠ [] →
    queueKey name ∈ s.val .queues
  kept : ∀ key ∈ kept, key ∈ s.val .queues

/-- What is pushed is pushed to one of the lists at `keys`. -/
def Effect.PushesTo (keys : Set String) : Effect → Prop
  | .push key _ _ => key ∈ keys
  | .hold _ _ => False
  | _ => True

lemma registeredBut_empty {s : Store} : RegisteredBut ∅ ∅ s ↔ Registered s :=
  ⟨fun h name => h.others name (Set.notMem_empty _), fun h =>
    ⟨fun name _ => h name, fun _ hkey => absurd hkey (Set.notMem_empty _)⟩⟩

lemma RegisteredBut.registered {kept : Set String} {s : Store} (h : RegisteredBut ∅ kept s) :
    Registered s :=
  fun name => h.others name (Set.notMem_empty _)

lemma RegisteredBut.of_val {late kept : Set String} {s s' : Store} (hs : RegisteredBut late kept s)
    (hlist : ∀ name, queueKey name ∉ late → queueKey name ∉ kept →
      s'.val (.list (queueKey name)) ≠ [] → s.val (.list (queueKey name)) ≠ [])
    (hqueues : ∀ key ∈ s.val .queues, key ∈ s'.val .queues) : RegisteredBut late kept s' where
  others name hname hne := by
    by_cases hkept : queueKey name ∈ kept
    · exact hqueues _ (hs.kept _ hkept)
    · exact hqueues _ (hs.others name hname (hlist name hname hkept hne))
  kept key hkey := hqueues key (hs.kept key hkey)

/-- What is pushed to these queues breaks nothing. -/
lemma stable_registeredBut (late kept : Set String) :
    Stable (RegisteredBut late kept) (Effect.PushesTo (late ∪ kept)) := by
  intro c hc s hs
  refine hc.preserves (fun c h s hs => ?_) (fun e he s hs => ?_) hs
  · refine hs.of_val (fun name _ _ hne => ?_) fun key hkey => h.queues s key hkey
    obtain ⟨id, hid⟩ := List.exists_mem_of_ne_nil _ hne
    exact List.ne_nil_of_mem (h.list s _ id hid)
  · cases e with
    | push key atFront id =>
      refine hs.of_val (fun name hlate hkept hne => ?_) (by simp [Effect.command])
      have hk : Key.list (queueKey name) ≠ .list key := by
        rintro heq
        obtain rfl : queueKey name = key := by simpa using heq
        exact he.elim hlate hkept
      simpa [Effect.command, hk] using hne
    | hold key id => exact he.elim
    | hset id mapping => exact hs.of_val (by simp [Effect.command]) (by simp [Effect.command])
    | zadd kind name id score =>
      exact hs.of_val (by simp [Effect.command]) (by simp [Effect.command])
    | expire id t => exact hs.of_val (by simp [Effect.command]) (by simp [Effect.command])
    | delete id => exact hs.of_val (by simp [Effect.command]) (by simp [Effect.command])
    | depend parent child =>
      exact hs.of_val (by simp [Effect.command]) (by simp [Effect.command])

section
variable {keys : Set String} {job : Job} {e : Effect}

lemma pushesTo_cleanup {id : JobId} {ttl : Option ℤ} (he : CleanupEffect id ttl e) :
    e.PushesTo keys := by
  cases he <;> trivial

lemma pushesTo_persist (he : PersistEffect job e) : e.PushesTo keys := by
  cases he with
  | write hm => trivial
  | cleanup hc => exact pushesTo_cleanup hc

lemma pushesTo_enqueue {name : QueueName} (hkey : queueKey name ∈ keys)
    (he : EnqueueEffect name job e) : e.PushesTo keys := by
  cases he with
  | persist hp => exact pushesTo_persist hp
  | push atFront => exact hkey

lemma pushesTo_schedule {name : QueueName} (he : ScheduleEffect name job e) :
    e.PushesTo keys := by
  cases he with
  | persist hp => exact pushesTo_persist hp
  | zadd t => trivial

lemma pushesTo_defer (he : DeferEffect job e) : e.PushesTo keys := by
  cases he with
  | persist hp => exact pushesTo_persist hp
  | zadd score => trivial
  | depend hmem => trivial

lemma pushesTo_again {name : QueueName} {interval : ℕ}
    (hkey : interval = 0 → queueKey name ∈ keys) (he : AgainEffect name job interval e) :
    e.PushesTo keys := by
  unfold AgainEffect at he
  split at he
  · next h0 => exact pushesTo_enqueue (hkey h0) he
  · exact pushesTo_schedule he

lemma pushesTo_fail (he : FailEffect job e) : e.PushesTo keys := by
  cases he with
  | write hm => trivial
  | cleanup hc => exact pushesTo_cleanup hc
  | zadd name score => trivial

lemma pushesTo_finish (he : FinishEffect job e) : e.PushesTo keys := by
  cases he <;> trivial

end

/-! ## Batches -/

namespace Queue
variable {I : Store → Prop} {keys : Set String} {now : Time} {self : Queue} {job : Job}
  (hI : Stable I (Effect.PushesTo keys))
include hI

lemma within_runSync {code : SyncCode} {Q : Job → Prop} (hQ : ∀ job, Q job) :
    (runSync code job now).Within I (Via (Effect.PushesTo keys)) Q := by
  have hraising : ∀ (e : Option String) (job : Job),
      (raising e job).Within I (Via (Effect.PushesTo keys)) Q := fun e job => by
    cases e with
    | none => exact hQ job
    | some e => trivial
  simp only [runSync, runJob, within_bind]
  refine Job.within_prepareForExecution hI Client.emits_empty (fun _ _ => trivial)
    fun job _ _ _ => ?_
  have hfail : ∀ (e : PyError) (job : Job), (do
      let failed ← job.setStatus .failed (some {})
      let handled ← failed.1._handleFailure (Worker.excText e) failed.2 {} now
      let _ ← (handled.2.getD {}).execute
      raising (code.failureCallback handled.1.id) handled.1 : Redis Job).Within I
        (Via (Effect.PushesTo keys)) Q := fun e job => by
    simp only [within_bind]
    refine Job.within_setStatus hI Client.emits_empty trivial fun client hclient => ?_
    refine Job.within_handleFailure hI hclient (fun _ => pushesTo_fail)
      fun _ client hclient => ?_
    exact within_execute hI hclient.getD fun _ => hraising _ _
  refine within_emit hI (.benign (benign_persist _)) ?_
  split
  · exact hfail _ _
  · simp only [within_bind]
    refine Worker.within_catching ?_ fun e => ?_
    · simp only [within_bind]
      refine Job.within_handleSuccess hI Client.emits_empty (fun _ => pushesTo_finish)
        fun client hclient => ?_
      refine Job.within_cleanup hI hclient (fun _ => pushesTo_cleanup) fun _ client hclient => ?_
      exact within_execute hI hclient.getD fun _ => hraising _ _
    · exact hfail _ _

lemma within_enqueueSyncJob {code : SyncCode} {client : Client}
    (hclient : client.Emits (Effect.PushesTo keys)) {unique : Bool} {Q : Job × Client → Prop}
    (hQ : ∀ job client, client.Emits (Effect.PushesTo keys) → Q (job, client)) :
    (self._enqueueSyncJob code job client unique now).Within I (Via (Effect.PushesTo keys)) Q := by
  have hpersist : ∀ (job : Job) (isDeferred : Bool) (client : Client),
      client.Emits (Effect.PushesTo keys) → ∀ {Q : Job × Client → Prop},
      (∀ job client, client.Emits (Effect.PushesTo keys) → Q (job, client)) →
      (self.persistOnPipeline job isDeferred client now).Within I (Via (Effect.PushesTo keys)) Q :=
    fun job isDeferred client hclient Q hQ => by
      cases isDeferred <;> simp only [persistOnPipeline, Bool.false_eq_true, if_false, if_true,
        Prog.pure_eq, Prog.ret_bind, within_bind]
      on_goal 2 =>
        refine within_command hI hclient (.benign (benign_zrem _ _ _)) fun client hclient => ?_
      all_goals
        exact within_persistJob hI hclient (fun _ => pushesTo_persist) fun _ _ => hQ _ _
  unfold _enqueueSyncJob
  cases unique with
  | true =>
    simp only [saveUniqueJobOnly, if_true, within_bind]
    refine within_runUnique hI (fun s hs hnew => ?_) ?_
    · exact emits_saveCommands fun _ => pushesTo_persist
    · exact within_runSync hI fun job => hQ job client hclient
  | false =>
    simp only [Bool.false_eq_true, if_false]
    cases client with
    | some pipe =>
      simp only [within_bind]
      refine hpersist _ _ _ hclient fun job client hclient => ?_
      exact within_runSync hI fun job => hQ job client hclient
    | none =>
      simp only [within_bind]
      refine hpersist _ _ _ Client.emits_empty fun job client hclient => ?_
      refine within_execute hI hclient.getD fun _ => ?_
      exact within_runSync hI fun job => hQ job none Client.emits_none

lemma within_enqueueJobOn' {sync : Option SyncCode} (hkey : sync = none → self.key ∈ keys)
    {client : Client} (hclient : client.Emits (Effect.PushesTo keys)) {atFront unique : Bool}
    {Q : Job × Client → Prop}
    (hQ : ∀ job client, client.Emits (Effect.PushesTo keys) → Q (job, client)) :
    (self._enqueueJobOn sync job client atFront unique now).Within I (Via (Effect.PushesTo keys))
      Q := by
  cases sync with
  | some code => exact within_enqueueSyncJob hI hclient hQ
  | none =>
    cases unique with
    | true =>
      exact within_enqueueUnique hI hclient (fun _ _ _ _ => pushesTo_enqueue (hkey rfl))
        fun job client _ => hQ job client
    | false =>
      exact within_enqueueJob' hI hclient (fun _ => pushesTo_enqueue (hkey rfl))
        fun job client _ => hQ job client

lemma within_enqueueUniques {groupId : Option String} (hkey : self.key ∈ keys)
    {jds : List (ℕ × EnqueueData)} {Q : List (ℕ × Job) → Prop} (hQ : ∀ jobs, Q jobs) :
    (self.enqueueUniques groupId now jds).Within I (Via (Effect.PushesTo keys)) Q := by
  induction jds generalizing Q with
  | nil => exact hQ []
  | cons jd jds ih =>
    obtain ⟨i, jd⟩ := jd
    simp only [enqueueUniques, saveUniqueJob, within_bind, within_ofExcept]
    intro job hjob
    refine within_runUnique hI (fun s hs hnew c hc => ?_) (ih fun jobs => hQ _)
    rcases List.mem_append.mp hc with hc | hc
    · exact emits_saveCommands (fun _ => pushesTo_persist) c hc
    · obtain rfl := List.mem_singleton.mp hc
      exact .effect (.push _ _ _) hkey

lemma within_enqueueNormals {sync : Option SyncCode} {groupId : Option String}
    (hkey : sync = none → self.key ∈ keys) {jds : List (ℕ × EnqueueData)} {client : Client}
    (hclient : client.Emits (Effect.PushesTo keys)) {Q : List (ℕ × Job) × Client → Prop}
    (hQ : ∀ jobs client, client.Emits (Effect.PushesTo keys) → Q (jobs, client)) :
    (self.enqueueNormals sync groupId now jds client).Within I (Via (Effect.PushesTo keys)) Q := by
  induction jds generalizing client Q with
  | nil => exact hQ [] client hclient
  | cons jd jds ih =>
    obtain ⟨i, jd⟩ := jd
    simp only [enqueueNormals, within_bind, within_ofExcept]
    intro job hjob
    refine within_enqueueJobOn' hI hkey hclient fun job client hclient => ?_
    exact ih hclient fun jobs client hclient => hQ _ client hclient

lemma within_saveDeferred {groupId : Option String} {jds : List (ℕ × EnqueueData)}
    {client : Client} (hclient : client.Emits (Effect.PushesTo keys))
    {Q : List (ℕ × Job) × Client → Prop}
    (hQ : ∀ jobs client, client.Emits (Effect.PushesTo keys) → Q (jobs, client)) :
    (self.saveDeferred groupId jds client).Within I (Via (Effect.PushesTo keys)) Q := by
  induction jds generalizing client Q with
  | nil => exact hQ [] client hclient
  | cons jd jds ih =>
    obtain ⟨i, jd⟩ := jd
    simp only [saveDeferred, within_bind, within_ofExcept]
    intro job hjob
    refine Job.within_save hI hclient trivial fun client hclient => ?_
    exact ih hclient fun jobs client hclient => hQ _ client hclient

lemma within_checkDependencies {fuel : ℕ} {pipe : Pipeline Key Value}
    (hpipe : Client.Emits (Effect.PushesTo keys) (some pipe)) {Q : List Bool → Prop}
    (hQ : ∀ verdicts, Q verdicts) :
    (checkDependencies job now fuel pipe).Within I (Via (Effect.PushesTo keys)) Q := by
  induction fuel generalizing pipe Q with
  | zero => trivial
  | succ fuel ih =>
    simp only [checkDependencies, within_bind]
    refine within_watch hpipe fun pipe hpipe => ?_
    refine Job.within_registerDependency hI hpipe (fun _ => trivial) (fun _ _ => trivial)
      fun client hclient => ?_
    refine Job.within_dependenciesAreMet hclient fun met _ client _ hclient => ?_
    refine within_execute hI hclient.getD fun committed => ?_
    split
    · exact hQ _
    · rw [within_bind]
      exact ih Client.emits_empty fun verdicts => hQ _

lemma within_getJobsWithMetDependencies {fuel : ℕ} {jobs : List (ℕ × Job)}
    {pipe : Pipeline Key Value} (hpipe : Client.Emits (Effect.PushesTo keys) (some pipe))
    {Q : List (ℕ × Job) × List (ℕ × Job) → Prop} (hQ : ∀ r, Q r) :
    (getJobsWithMetDependencies now fuel jobs pipe).Within I (Via (Effect.PushesTo keys)) Q := by
  induction jobs generalizing pipe Q with
  | nil => exact hQ _
  | cons job jobs ih =>
    obtain ⟨i, job⟩ := job
    simp only [getJobsWithMetDependencies, within_bind]
    exact within_checkDependencies hI hpipe fun verdicts => ih Client.emits_empty fun r => hQ _

lemma within_enqueueMet {sync : Option SyncCode} (hkey : sync = none → self.key ∈ keys)
    {jobs enqueued : List (ℕ × Job)} {client : Client}
    (hclient : client.Emits (Effect.PushesTo keys)) {Q : List (ℕ × Job) × Client → Prop}
    (hQ : ∀ jobs client, client.Emits (Effect.PushesTo keys) → Q (jobs, client)) :
    (self.enqueueMet sync now jobs enqueued client).Within I (Via (Effect.PushesTo keys)) Q := by
  induction jobs generalizing enqueued client with
  | nil => exact hQ enqueued client hclient
  | cons job jobs ih =>
    obtain ⟨i, job⟩ := job
    simp only [enqueueMet, within_bind]
    exact within_enqueueJobOn' hI hkey hclient fun job client hclient => ih hclient

lemma within_executeOwn {caller client : Client} (hclient : client.Emits (Effect.PushesTo keys))
    {Q : Client → Prop} (hQ : ∀ client, client.Emits (Effect.PushesTo keys) → Q client) :
    (executeOwn caller client).Within I (Via (Effect.PushesTo keys)) Q := by
  cases caller with
  | some pipe => exact hQ client hclient
  | none =>
    simp only [executeOwn, within_bind]
    exact within_execute hI hclient.getD fun _ => hQ _ Client.emits_empty

lemma within_enqueueNormalNoDeps {sync : Option SyncCode} {groupId : Option String}
    (hkey : sync = none → self.key ∈ keys) {jds : List (ℕ × EnqueueData)} {caller client : Client}
    (hclient : client.Emits (Effect.PushesTo keys)) {Q : List (ℕ × Job) × Client → Prop}
    (hQ : ∀ jobs client, client.Emits (Effect.PushesTo keys) → Q (jobs, client)) :
    (self.enqueueNormalNoDeps sync jds caller client groupId now).Within I
      (Via (Effect.PushesTo keys)) Q := by
  unfold enqueueNormalNoDeps
  split
  · exact hQ [] client hclient
  · simp only [within_bind]
    refine within_enqueueNormals hI hkey hclient fun normals client hclient => ?_
    exact within_executeOwn hI hclient fun client hclient => hQ _ client hclient

lemma within_enqueueWithDeps {sync : Option SyncCode} {groupId : Option String} {fuel : ℕ}
    (hkey : sync = none → self.key ∈ keys) {jds : List (ℕ × EnqueueData)} {caller client : Client}
    (hclient : client.Emits (Effect.PushesTo keys)) {Q : List (ℕ × Job) × Client → Prop}
    (hQ : ∀ jobs client, client.Emits (Effect.PushesTo keys) → Q (jobs, client)) :
    (self.enqueueWithDeps sync jds caller client groupId now fuel).Within I
      (Via (Effect.PushesTo keys)) Q := by
  unfold enqueueWithDeps
  split
  · exact hQ [] client hclient
  · simp only [within_bind]
    refine within_saveDeferred hI hclient fun deferred client hclient => ?_
    refine within_executeOwn hI hclient fun client hclient => ?_
    refine within_getJobsWithMetDependencies hI hclient.getD fun r => ?_
    refine within_enqueueMet hI hkey Client.emits_empty fun enqueued client hclient => ?_
    exact within_executeOwn hI hclient fun client hclient => hQ _ client hclient

lemma within_enqueueMany {sync : Option SyncCode} {jds : List EnqueueData}
    {groupId : Option String} {fuel : ℕ} (hkey : self.key ∈ keys) :
    (self.enqueueMany sync jds none groupId now fuel).Within I (Via (Effect.PushesTo keys))
      fun _ => True := by
  simp only [enqueueMany, within_bind, within_ofExcept]
  intro _ _
  refine within_command hI Client.emits_empty (emits_register _) fun client hclient => ?_
  refine within_enqueueUniques hI hkey fun uniques => ?_
  refine within_enqueueNormalNoDeps hI (fun _ => hkey) hclient fun normals client hclient => ?_
  exact within_enqueueWithDeps hI (fun _ => hkey) hclient fun deferred client _ _ _ => trivial

end Queue

/-! ### When a batch registers its queue -/

namespace Queue
variable {self : Queue} {sync : Option SyncCode} {groupId : Option String} {now : Time}
  {jds : List EnqueueData} {fuel : ℕ} {s s' : Store}

/-- The pass over the plain entries comes to its end. -/
def PlainPasses (self : Queue) (sync : Option SyncCode) (groupId : Option String) (now : Time)
    (jds : List (ℕ × EnqueueData)) (s : Store) : Prop :=
  (∀ jd ∈ jds, jd.2.Accepted) ∧ (sync ≠ none → ∃ r s',
    (self.enqueueNormals sync groupId now jds (some self.registering)).run s = (.ok r, s'))

/-- Behind its unique entries a batch comes to the first `execute` of its pipeline. -/
def Executes (self : Queue) (sync : Option SyncCode) (jds : List EnqueueData)
    (groupId : Option String) (now : Time) (s : Store) : Prop :=
  if normalNoDeps jds = [] then withDeps jds ≠ [] ∧ ∀ jd ∈ withDeps jds, jd.2.Accepted
  else self.PlainPasses sync groupId now (normalNoDeps jds) s

/-- What a batch does behind its plain entries. -/
def afterNormals (self : Queue) (sync : Option SyncCode) (jds : List EnqueueData)
    (groupId : Option String) (now : Time) (fuel : ℕ) (jobs : List (ℕ × Job)) (pipe : Client) :
    Redis (List Job × Client) := do
  let (deferred, _) ← self.enqueueWithDeps sync (withDeps jds) none pipe groupId now fuel
  let jobs ← Prog.ofExcept (rebuild (jobs ++ deferred) jds.length)
  return (jobs, none)

/-- What a batch does behind its unique entries. -/
def afterUniques (self : Queue) (sync : Option SyncCode) (jds : List EnqueueData)
    (groupId : Option String) (now : Time) (fuel : ℕ) (uniques : List (ℕ × Job)) :
    Redis (List Job × Client) := do
  let (normals, pipe) ←
    self.enqueueNormalNoDeps sync (normalNoDeps jds) none (some self.registering) groupId now
  self.afterNormals sync jds groupId now fuel (uniques ++ normals) pipe

lemma enqueueMany_eq (hvalid : validate jds = .ok ()) :
    self.enqueueMany sync jds none groupId now fuel = (do
      let uniques ← self.enqueueUniques groupId now (uniqueNoDeps jds)
      self.afterUniques sync jds groupId now fuel uniques) := by
  unfold enqueueMany
  rw [hvalid, Prog.ofExcept_ok, Prog.ret_bind, Option.getD_none,
    Client.command_buffer Pipeline.immediate_empty, Prog.ret_bind]
  rfl

/-- Once it is registered a queue stays so, whatever is pushed. -/
lemma within_kept {α : Type} {p : Redis α} (key : String)
    (h : ∀ {I : Store → Prop}, Stable I (Effect.PushesTo Set.univ) →
      p.Within I (Via (Effect.PushesTo Set.univ)) fun _ => True)
    (hs : key ∈ s.val .queues) : key ∈ (p.run s).2.val .queues := by
  have hstable : Stable (RegisteredBut Set.univ {key}) (Effect.PushesTo Set.univ) := by
    have hunion := stable_registeredBut Set.univ {key}
    rwa [Set.univ_union] at hunion
  have hstart : RegisteredBut Set.univ {key} s :=
    ⟨fun _ hname => absurd (Set.mem_univ _) hname, fun _ hkey => hkey ▸ hs⟩
  exact ((h hstable).run Via.refl (fun _ _ _ => Via.trans) hstart).1.kept key rfl

/-- The pipeline of a batch registers the queue when it is executed. -/
lemma run_executeOwn_registering {cs : List (Command Key Value)}
    (hcs : Client.Emits (Effect.PushesTo Set.univ) (some (self.registering.buffer cs)))
    (s : Store) : ∃ s', (executeOwn none (some (self.registering.buffer cs))).run s =
      (.ok (some {}), s') ∧ self.key ∈ s'.val .queues := by
  have hstable := stable_registeredBut Set.univ {self.key}
  rw [Set.univ_union] at hstable
  refine ⟨(Command.seq (self.registering.buffer cs).commandStack).run s, ?_, ?_⟩
  · simp only [executeOwn, Option.getD_some]
    rw [Prog.run_bind_ok (Pipeline.run_execute_of_unwatched rfl s)]
    rfl
  · have hrest : ∀ c ∈ cs, Emits (Effect.PushesTo Set.univ) c :=
      fun c hc => hcs c (List.mem_append_right _ hc)
    have hstart : RegisteredBut Set.univ {self.key}
        ((Command.alter .queues fun q => q.insert self.key).run s) := by
      refine ⟨fun _ hname => absurd (Set.mem_univ _) hname, fun key hkey => ?_⟩
      obtain rfl := hkey
      simp
    have hstack : (self.registering.buffer cs).commandStack =
        (Command.alter .queues fun q => q.insert self.key) :: cs := by
      simp [registering, Pipeline.buffer]
    rw [hstack, Command.seq_cons_run]
    exact (hstable _ (.seq hrest) _ hstart).kept _ rfl

/-- The pass over the plain entries leaves its commands in the pipeline. -/
lemma buffer_of_run_enqueueNormals {jds : List (ℕ × EnqueueData)} {pipe : Pipeline Key Value}
    {r : List (ℕ × Job) × Client} (hpipe : pipe.immediate = false)
    (h : (self.enqueueNormals sync groupId now jds (some pipe)).run s = (.ok r, s')) :
    ∃ cs, r.2 = some (pipe.buffer cs) := by
  have haccepted := accepted_of_run_enqueueNormals h
  cases sync with
  | none =>
    rw [enqueueNormals_ok haccepted hpipe] at h
    cases h
    exact ⟨_, rfl⟩
  | some code =>
    induction jds generalizing s pipe r with
    | nil =>
      cases h
      exact ⟨[], by simp⟩
    | cons jd jds ih =>
      obtain ⟨i, jd⟩ := jd
      have hjd : jd.Accepted := haccepted (i, jd) List.mem_cons_self
      have hpersist := @persistJob_buffer pipe hpipe
        (self._prepareForQueue (self.newJob jd .queued groupId) now)
        (@newJob_ttl self groupId jd hjd .queued) .queued now
      have hstatus : ((self.newJob jd .queued groupId).status == .deferred) = false := rfl
      simp only [enqueueNormals, createJob_ok hjd, _enqueueJobOn, _enqueueSyncJob, hstatus,
        persistOnPipeline, Bool.false_eq_true, if_false, Prog.ofExcept_ok, Prog.pure_eq,
        Prog.ret_bind, hpersist, bind_assoc] at h
      obtain ⟨_, s₁, hrun, h⟩ := Prog.run_bind_eq_ok h
      obtain ⟨rest, s₂, hrest, h⟩ := Prog.run_bind_eq_ok h
      cases h
      obtain ⟨cs, hcs⟩ := ih (by simpa using hpipe)
        (fun x hx => haccepted x (List.mem_cons_of_mem _ hx)) hrest
      exact ⟨_, by rw [hcs, Pipeline.buffer_buffer]⟩

/-- The pass that saves the entries with dependencies leaves its commands in the pipeline. -/
lemma buffer_of_run_saveDeferred {jds : List (ℕ × EnqueueData)} {pipe : Pipeline Key Value}
    {r : List (ℕ × Job) × Client} (hpipe : pipe.immediate = false)
    (h : (self.saveDeferred groupId jds (some pipe)).run s = (.ok r, s')) :
    ∃ cs, r.2 = some (pipe.buffer cs) := by
  induction jds generalizing s pipe r with
  | nil =>
    cases h
    exact ⟨[], by simp⟩
  | cons jd jds ih =>
    obtain ⟨i, jd⟩ := jd
    obtain ⟨job, s₁, -, hjob⟩ := Prog.run_bind_eq_ok h
    rw [Job.save_buffer hpipe, Prog.ret_bind] at hjob
    obtain ⟨rest, s₂, hrest, hret⟩ := Prog.run_bind_eq_ok hjob
    cases hret
    obtain ⟨cs, hcs⟩ := ih (by simpa using hpipe) hrest
    exact ⟨_, by rw [hcs, Pipeline.buffer_buffer]⟩

lemma emits_registering {P : Effect → Prop} : Client.Emits P (some self.registering) := by
  intro c hc
  obtain rfl : c = .alter .queues fun q => q.insert self.key := by
    simpa [registering, Pipeline.buffer] using hc
  exact emits_register _

lemma stable_univ : Stable (fun _ => True) (Effect.PushesTo Set.univ) := fun _ _ _ _ => trivial

lemma within_afterNormals {I : Store → Prop} (hI : Stable I (Effect.PushesTo Set.univ))
    {jobs : List (ℕ × Job)} {client : Client} (hclient : client.Emits (Effect.PushesTo Set.univ)) :
    (self.afterNormals sync jds groupId now fuel jobs client).Within I
      (Via (Effect.PushesTo Set.univ)) fun _ => True := by
  simp only [afterNormals, within_bind, within_ofExcept]
  exact within_enqueueWithDeps hI (fun _ => Set.mem_univ _) hclient fun _ _ _ _ _ => trivial

/-- A batch without plain entries executes its pipeline if it has entries with dependencies. -/
lemma afterNormals_ends (jobs : List (ℕ × Job)) (s : Store) :
    self.key ∈ ((self.afterNormals sync jds groupId now fuel jobs (some self.registering)).run
        s).2.val .queues ∨
      ((self.afterNormals sync jds groupId now fuel jobs (some self.registering)).run s).2 = s ∧
        ¬(withDeps jds ≠ [] ∧ ∀ jd ∈ withDeps jds, jd.2.Accepted) := by
  by_cases hdeps : withDeps jds = []
  · refine .inr ⟨?_, fun h => h.1 hdeps⟩
    rw [afterNormals, hdeps, enqueueWithDeps, if_pos rfl, Prog.pure_eq, Prog.ret_bind]
    dsimp only
    cases rebuild (jobs ++ []) jds.length <;> rfl
  · cases hsave : (self.saveDeferred groupId (withDeps jds) (some self.registering)).run s with
    | mk r s₁ =>
      cases r with
      | error e =>
        obtain ⟨rfl, before, jd, after, hsplit, hjd⟩ :=
          run_saveDeferred_error (by simp [registering]) hsave
        refine .inr ⟨?_, fun h => hjd (h.2 jd (by simp [hsplit]))⟩
        simp only [afterNormals, enqueueWithDeps, if_neg hdeps, bind_assoc]
        rw [Prog.run_bind_error hsave]
      | ok r =>
        refine .inl ?_
        obtain ⟨cs, hcs⟩ := buffer_of_run_saveDeferred (by simp [registering]) hsave
        have hemits : r.2.Emits (Effect.PushesTo Set.univ) :=
          (within_saveDeferred (Q := fun r => r.2.Emits (Effect.PushesTo Set.univ)) stable_univ
            emits_registering fun _ _ h => h).returns trivial hsave
        rw [hcs] at hemits
        obtain ⟨s₂, hexecute, hkey⟩ := run_executeOwn_registering hemits s₁
        simp only [afterNormals, enqueueWithDeps, if_neg hdeps, bind_assoc]
        rw [Prog.run_bind_ok hsave, hcs, Prog.run_bind_ok hexecute]
        refine within_kept self.key (fun hI => ?_) hkey
        simp only [within_bind, within_ofExcept]
        refine within_getJobsWithMetDependencies hI Client.emits_empty fun r => ?_
        refine within_enqueueMet hI (fun _ => Set.mem_univ _) Client.emits_empty fun _ client hclient => ?_
        exact within_executeOwn hI hclient fun _ _ _ _ => trivial

lemma store_enqueueNormals {jds : List (ℕ × EnqueueData)} {pipe : Pipeline Key Value}
    (hpipe : pipe.immediate = false) :
    ((self.enqueueNormals none groupId now jds (some pipe)).run s).2 = s := by
  induction jds generalizing pipe with
  | nil => rfl
  | cons jd jds ih =>
    obtain ⟨i, jd⟩ := jd
    by_cases hjd : jd.Accepted
    · have hbuffer := @Queue.enqueueJob_buffer pipe hpipe self (self.newJob jd .queued groupId)
        (newJob_ttl hjd) jd.atFront now
      have hrest := @ih (pipe.buffer
        (enqueueCommands self (self.newJob jd .queued groupId) jd.atFront now)) hpipe
      simp only [enqueueNormals, createJob_ok hjd, _enqueueJobOn, Prog.ofExcept_ok, Prog.ret_bind,
        hbuffer]
      rw [Prog.run_bind]
      split
      · next heq =>
        rw [heq] at hrest
        exact hrest
      · next heq =>
        rw [heq] at hrest
        exact hrest
    · obtain ⟨msg, hmsg⟩ := @createJob_error self jd .queued groupId hjd
      rw [enqueueNormals, hmsg, Prog.ofExcept_error, Prog.throw_bind, Prog.run_throw]

/-- The pass over the plain entries pushes nothing before the pipeline is executed. -/
lemma registered_of_run_enqueueNormals {jds : List (ℕ × EnqueueData)}
    {r : Except PyError (List (ℕ × Job) × Client)} (hs : Registered s)
    (h : (self.enqueueNormals sync groupId now jds (some self.registering)).run s = (r, s')) :
    Registered s' := by
  have hs' : s' = ((self.enqueueNormals sync groupId now jds (some self.registering)).run s).2 := by
    rw [h]
  rw [hs']
  cases sync with
  | none =>
    rw [store_enqueueNormals (by simp [registering])]
    exact hs
  | some code =>
    have hwithin : (self.enqueueNormals (some code) groupId now jds (some self.registering)).Within
        (RegisteredBut ∅ ∅) (Via (Effect.PushesTo (∅ ∪ ∅))) fun _ => True :=
      within_enqueueNormals (stable_registeredBut ∅ ∅) (by simp) emits_registering
        fun _ _ _ => trivial
    exact (hwithin.run Via.refl (fun _ _ _ => Via.trans) (registeredBut_empty.mpr hs)).1.registered

/-- Behind its unique entries a batch registers its queue, or it raises before that and has pushed
nothing. -/
lemma afterUniques_ends (uniques : List (ℕ × Job)) (s : Store) :
    self.key ∈ ((self.afterUniques sync jds groupId now fuel uniques).run s).2.val .queues ∨
      (Registered s → Registered ((self.afterUniques sync jds groupId now fuel uniques).run s).2) ∧
        ¬self.Executes sync jds groupId now s := by
  unfold afterUniques Executes
  by_cases hnormals : normalNoDeps jds = []
  · rw [if_pos hnormals, hnormals, enqueueNormalNoDeps, if_pos rfl, Prog.pure_eq, Prog.ret_bind]
    rcases @afterNormals_ends self sync groupId now jds fuel (uniques ++ []) s with hkey | ⟨hs, hnot⟩
    · exact .inl hkey
    · exact .inr ⟨fun h => hs.symm ▸ h, hnot⟩
  · rw [if_neg hnormals, enqueueNormalNoDeps, if_neg hnormals]
    cases hnormals : (self.enqueueNormals sync groupId now (normalNoDeps jds)
        (some self.registering)).run s with
    | mk r s₁ =>
      cases r with
      | error e =>
        simp only [bind_assoc]
        rw [Prog.run_bind_error hnormals]
        refine .inr ⟨fun hs => ?_, fun hpasses => ?_⟩
        · exact registered_of_run_enqueueNormals hs hnormals
        · cases hsync : sync with
          | none =>
            rw [hsync, enqueueNormals_ok hpasses.1 (by simp [registering])] at hnormals
            cases hnormals
          | some code =>
            obtain ⟨r, s', hok⟩ := hpasses.2 (by simp [hsync])
            rw [hok] at hnormals
            cases hnormals
      | ok r =>
        refine .inl ?_
        obtain ⟨cs, hcs⟩ := buffer_of_run_enqueueNormals (by simp [registering]) hnormals
        have hemits : r.2.Emits (Effect.PushesTo Set.univ) :=
          (within_enqueueNormals (Q := fun r => r.2.Emits (Effect.PushesTo Set.univ)) stable_univ
            (fun _ => Set.mem_univ _) emits_registering fun _ _ h => h).returns trivial hnormals
        rw [hcs] at hemits
        obtain ⟨s₂, hexecute, hkey⟩ := run_executeOwn_registering hemits s₁
        simp only [bind_assoc]
        rw [Prog.run_bind_ok hnormals, hcs, Prog.run_bind_ok hexecute]
        exact within_kept self.key (fun hI => within_afterNormals hI Client.emits_empty) hkey

/-- The loop over the unique entries that does not push the first of them. -/
lemma run_enqueueUniques_none {jds : List (ℕ × EnqueueData)}
    (h : ¬∃ jd ∈ jds.head?, jd.2.Accepted ∧ s.val (.job jd.2.id) = default) :
    jds = [] ∨ ∃ e, (self.enqueueUniques groupId now jds).run s = (.error e, s) := by
  cases jds with
  | nil => exact .inl rfl
  | cons jd jds =>
    obtain ⟨i, jd⟩ := jd
    refine .inr ?_
    unfold enqueueUniques
    by_cases haccepted : jd.Accepted
    · have hexists : s.val (.job jd.id) ≠ default := fun hfresh =>
        h ⟨(i, jd), rfl, haccepted, hfresh⟩
      have hsave := @run_attemptOf self groupId now jd s
      rw [if_neg hexists] at hsave
      rw [createJob_ok haccepted, Prog.ofExcept_ok, Prog.ret_bind, Prog.run_bind_error hsave]
      exact ⟨_, rfl⟩
    · obtain ⟨msg, hmsg⟩ := @createJob_error self jd .queued groupId haccepted
      rw [hmsg, Prog.ofExcept_error, Prog.throw_bind, Prog.run_throw]
      exact ⟨_, rfl⟩

/-- A batch pushes its first unique entry. -/
def PushesUnique (jds : List EnqueueData) (s : Store) : Prop :=
  validate jds = .ok () ∧
    ∃ jd ∈ (uniqueNoDeps jds).head?, jd.2.Accepted ∧ s.val (.job jd.2.id) = default

/-- A batch pushes all its unique entries. -/
structure PushesUniques (jds : List EnqueueData) (s : Store) : Prop where
  accepted : ∀ jd ∈ uniqueNoDeps jds, jd.2.Accepted
  fresh : ∀ jd ∈ uniqueNoDeps jds, s.val (.job jd.2.id) = default
  distinct : ((uniqueNoDeps jds).map fun jd => jd.2.id).Nodup

/-- `enqueue_many` finds its queue registered, pushes no unique entry, or comes to the first
`execute` of its pipeline. -/
def BatchRegisters (self : Queue) (sync : Option SyncCode) (jds : List EnqueueData)
    (groupId : Option String) (now : Time) (s : Store) : Prop :=
  self.key ∈ s.val .queues ∨ ¬PushesUnique jds s ∨ PushesUniques jds s ∧
    self.Executes sync jds groupId now
      ((Command.seq (self.uniqueCommands groupId now (uniqueNoDeps jds))).run s)

theorem registered_enqueueMany (hs : Registered s)
    (h : self.BatchRegisters sync jds groupId now s) :
    Registered ((self.enqueueMany sync jds none groupId now fuel).run s).2 := by
  have hwithin : ∀ late kept : Set String, self.key ∈ late ∪ kept →
      RegisteredBut late kept s →
      RegisteredBut late kept ((self.enqueueMany sync jds none groupId now fuel).run s).2 :=
    fun late kept hkey hstart =>
      ((within_enqueueMany (stable_registeredBut late kept) hkey).run Via.refl
        (fun _ _ _ => Via.trans) hstart).1
  by_cases hkey : self.key ∈ s.val .queues
  · refine (hwithin ∅ {self.key} (.inr rfl) ⟨fun name _ => hs name, ?_⟩).registered
    rintro key rfl
    exact hkey
  -- whatever the batch does, the other queues stay registered
  have hothers := hwithin {self.key} ∅ (.inl rfl)
    ⟨fun name _ => hs name, fun _ h => absurd h (Set.notMem_empty _)⟩
  have hlate : self.key ∈
        ((self.enqueueMany sync jds none groupId now fuel).run s).2.val .queues →
      Registered ((self.enqueueMany sync jds none groupId now fuel).run s).2 := fun hin name hne => by
    by_cases hname : queueKey name = self.key
    · rwa [hname]
    · exact hothers.others name hname hne
  have h := h.resolve_left hkey
  by_cases hvalid : validate jds = .ok ()
  · rw [enqueueMany_eq hvalid] at hlate ⊢
    rcases h with hnone | ⟨hall, hexecutes⟩
    · rcases run_enqueueUniques_none fun hfirst => hnone ⟨hvalid, hfirst⟩ with hnil | ⟨e, herror⟩
      · rw [hnil, enqueueUniques, Prog.pure_eq, Prog.ret_bind] at hlate ⊢
        exact (afterUniques_ends [] s).elim hlate fun hend => hend.1 hs
      · rw [Prog.run_bind_error herror]
        exact hs
    · have huniques :=
        @run_enqueueUniques_all self groupId now s _ hall.accepted hall.fresh hall.distinct
      rw [Prog.run_bind_ok huniques] at hlate ⊢
      exact (afterUniques_ends _ _).elim hlate fun hend => absurd hexecutes hend.2
  · obtain ⟨msg, hmsg⟩ := validate_error hvalid
    rw [enqueueMany, hmsg, Prog.ofExcept_error, Prog.throw_bind, Prog.run_throw]
    exact hs

end Queue
/-! ## Operations -/

/-- The methods that push ids, each with a pipeline of its own, and the deletion of a queue. -/
inductive QueueOperation where
  | enqueue (queue : Queue) (sync : Option Queue.SyncCode) (jd : EnqueueData) (now : Time) (fuel : ℕ)
  | enqueueMany (queue : Queue) (sync : Option Queue.SyncCode) (jds : List EnqueueData)
      (groupId : Option String) (now : Time) (fuel : ℕ)
  | schedule (queue : Queue) (job : Job) (datetime : Time) (unique : Bool) (now : Time)
  | tick (queue : Queue) (now : Time)
  | requeue (kind : RegistryKind) (name : QueueName) (job : Job) (atFront : Bool) (now : Time)
  | enqueueDependents (queue : Queue) (job : Job) (excludeJobId : Option JobId)
      (refreshJobStatus : Bool) (now : Time) (fuel : ℕ)
  | repeats (queue : Queue) (job : Job) (zone : LocalZone) (now : Time)
  | retry (queue : Queue) (job : Job) (now : Time)
  | retryResult (queue : Queue) (job : Job) (again : Retry) (info : Job.ExecutionInfo) (now : Time)
  | delete (queue : Queue)

namespace QueueOperation

def program : QueueOperation → Redis Unit
  | enqueue queue sync jd now fuel => do
    let _ ← queue.enqueueCall sync jd none now fuel
  | enqueueMany queue sync jds groupId now fuel => do
    let _ ← queue.enqueueMany sync jds none groupId now fuel
  | schedule queue job datetime unique now => do
    let _ ← queue.scheduleJob job datetime none unique now
  | tick queue now => enqueueDueJobs queue now
  | requeue kind name job atFront now => do
    let _ ← Job.requeue kind name job atFront now
  | enqueueDependents queue job excludeJobId refreshJobStatus now fuel => do
    let _ ← queue.enqueueDependents job none excludeJobId refreshJobStatus now fuel
  | repeats queue job zone now => do
    let (_, pipeline) ← Repeat.schedule job queue zone (some {}) now
    let _ ← (pipeline.getD {}).execute
  | retry queue job now => do
    let (_, pipeline) ← job.retry queue (some {}) now
    let _ ← (pipeline.getD {}).execute
  | retryResult queue job again info now => do
    let (_, pipeline) ← job._handleRetryResult queue (some {}) again info now
    let _ ← (pipeline.getD {}).execute
  | delete queue => queue.delete

/-- The store after the operation, whether it returns or raises. -/
def after (op : QueueOperation) (s : Store) : Store := (op.program.run s).2

/-- The jobs that a tick enqueues. -/
def dueJobs (name : QueueName) (now : Time) (s : Store) : List (Option Job) :=
  match Job.restoreMany ((dueIds name now s).map fun id => (id, s.val (.job id))) with
  | .error _ => []
  | .ok jobs => jobs

/-- What the operation pushes to without registering it is registered. -/
def FindsRegistered (s : Store) : QueueOperation → Prop
  | enqueue .. | schedule .. | delete .. => True
  | enqueueMany queue sync jds groupId now _ => queue.BatchRegisters sync jds groupId now s
  | tick queue now => (∃ job, some job ∈ dueJobs queue.name now s) → queue.key ∈ s.val .queues
  | requeue kind name job .. =>
    job.id ∈ s.val (.registry kind name) → queueKey job.origin ∈ s.val .queues
  | enqueueDependents _ job excludeJobId refreshJobStatus .. =>
    ∀ r, Queue.releaseIn s job excludeJobId refreshJobStatus = .ok r →
      ∀ d ∈ r.1, queueKey d.origin ∈ s.val .queues
  | repeats queue job .. => ∀ n, job.repeatsLeft = some (n + 1) → Repeat.intervalFor job n = .ok 0 →
      queue.key ∈ s.val .queues
  | retry queue job _ => job.retriesLeft.getD 0 ≠ 0 → job.getRetryInterval = .ok 0 →
      queue.key ∈ s.val .queues
  | retryResult queue job again .. =>
    Retry.getInterval (job.numberOfRetries.getD 0) again.intervals = 0 → queue.key ∈ s.val .queues

/-- A program that pushes only to queues that are registered. -/
lemma registered_of_within {α : Type} {p : Redis α} {s : Store} (kept : Set String)
    (hs : Registered s) (hkept : ∀ key ∈ kept, key ∈ s.val .queues)
    (h : ∀ {I : Store → Prop}, Stable I (Effect.PushesTo kept) →
      p.Within I (Via (Effect.PushesTo kept)) fun _ => True) : Registered (p.run s).2 := by
  have hstable := stable_registeredBut ∅ kept
  rw [Set.empty_union] at hstable
  have hstart : RegisteredBut ∅ kept s := ⟨fun name _ => hs name, hkept⟩
  exact ((h hstable).run Via.refl (fun _ _ _ => Via.trans) hstart).1.registered

/-- A program that pushes nothing. -/
lemma registered_of_within_empty {α : Type} {p : Redis α} {s : Store} (hs : Registered s)
    (h : ∀ {I : Store → Prop}, Stable I (Effect.PushesTo ∅) →
      p.Within I (Via (Effect.PushesTo ∅)) fun _ => True) : Registered (p.run s).2 :=
  registered_of_within ∅ hs (fun _ hkey => absurd hkey (Set.notMem_empty _)) h

/-- A program that pushes nothing, or only to the queue at `key`, which is registered. -/
lemma registered_of_within_key {α : Type} {p : Redis α} {s : Store} {key : String}
    {pushes : Prop} (hs : Registered s) (hkey : pushes → key ∈ s.val .queues)
    (h : ∀ {I : Store → Prop} {keys : Set String}, (pushes → key ∈ keys) →
      Stable I (Effect.PushesTo keys) → p.Within I (Via (Effect.PushesTo keys)) fun _ => True) :
    Registered (p.run s).2 := by
  by_cases hpushes : pushes
  · refine registered_of_within {key} hs ?_ fun hI => h (fun _ => rfl) hI
    rintro key rfl
    exact hkey hpushes
  · exact registered_of_within_empty hs fun hI => h (fun hp => absurd hp hpushes) hI

variable {queue : Queue} {sync : Option Queue.SyncCode} {job : Job} {now : Time} {fuel : ℕ}
  {s : Store}

/-- `enqueue_job` registers the queue before it pushes. -/
lemma registered_enqueueJobOn {atFront unique : Bool} (hs : Registered s) :
    Registered ((queue.enqueueJobOn sync job none atFront unique now fuel).run s).2 := by
  have hrest : ∀ (job : Job) (s : Store), Registered s → Registered ((do
      let pipe ← Pipeline.command {} (.alter .queues fun q => q.insert queue.key)
      let _ ← pipe.execute
      if job.status ≠ .deferred then queue._enqueueJobOn sync job none atFront unique now
      else return (job, none) : Redis (Job × Client)).run s).2 := fun job s hs => by
    have hregister : Registered ((Command.alter .queues fun q => q.insert queue.key).run s) :=
      (stable_registeredBut ∅ ∅ _ (Queue.emits_register _) s (registeredBut_empty.mpr hs)).registered
    rw [Pipeline.command_eq_buffer Pipeline.immediate_empty, Prog.ret_bind,
      Prog.run_bind_ok (Pipeline.run_execute_of_unwatched rfl s)]
    split
    · have hkey : True → queue.key ∈
          ((Command.alter .queues fun q => q.insert queue.key).run s).val .queues := by simp
      exact registered_of_within_key hregister hkey fun hkey hI =>
        Queue.within_enqueueJobOn' hI (fun _ => hkey trivial) Client.emits_none fun _ _ _ => trivial
    · exact hregister
  unfold Queue.enqueueJobOn
  split
  · exact hs
  · dsimp only
    generalize { job with origin := queue.name } = job
    unfold Queue.setupDependencies
    split
    · rw [bind_assoc]
      refine Prog.run_bind_preserves ?_ fun job s₁ _ hs₁ => hrest job s₁ hs₁
      exact registered_of_within_empty hs fun hI =>
        Queue.within_setupDependenciesLoop hI (fun _ => pushesTo_defer) fun _ _ => trivial
    · next heq => cases heq
    · next heq => cases heq
    · exact hrest job s hs

lemma emits_enqueueCommand {keys : Set String} {c : Command Key Value}
    (hkey : queue.key ∈ keys) (hc : EnqueueCommand queue job now c) :
    Emits (Effect.PushesTo keys) c := by
  cases hc with
  | undefer => exact .benign (benign_zrem _ _ _)
  | status => exact .effect (.hset _ _) trivial
  | save => exact .effect (.hset _ _) trivial
  | expire k t =>
    by_cases hk : ∃ id, k = .job id
    · obtain ⟨id, rfl⟩ := hk
      exact .effect (.expire id t) trivial
    · exact .benign (benign_expire (fun id heq => hk ⟨id, heq⟩) t)
  | push atFront => exact .effect (.push _ _ _) hkey

/-- Commands that push only to queues that are registered. -/
lemma registered_of_emits {cs : List (Command Key Value)} (kept : Set String) (hs : Registered s)
    (hkept : ∀ key ∈ kept, key ∈ s.val .queues) (h : ∀ c ∈ cs, Emits (Effect.PushesTo kept) c) :
    Registered ((Command.seq cs).run s) :=
  registered_of_within kept hs hkept (p := Prog.perform (Command.seq cs).run) fun hI =>
    within_emit hI (.seq h) trivial

lemma registered_tick (hs : Registered s)
    (h : (∃ job, some job ∈ dueJobs queue.name now s) → queue.key ∈ s.val .queues) :
    Registered ((enqueueDueJobs queue now).run s).2 := by
  rw [enqueueDueJobs_eq, Prog.run_step, id_eq]
  split
  · exact hs
  · rw [Prog.run_step, id_eq]
    split
    · exact hs
    · next jobs hjobs =>
      rw [dueJobs, hjobs] at h
      rw [Prog.run_exec, if_pos rfl, Prog.run_ret]
      refine registered_of_emits {key | key = queue.key ∧ ∃ job, some job ∈ jobs} hs ?_ ?_
      · rintro key ⟨rfl, hjob⟩
        exact h hjob
      · intro c hc
        obtain ⟨job, hjob, hc⟩ | ⟨id, -, rfl⟩ := mem_tickCommands hc
        · exact emits_enqueueCommand ⟨rfl, job, hjob⟩ hc
        · exact .benign (benign_zrem _ _ _)

lemma registered_requeue {kind : RegistryKind} {name : QueueName} {atFront : Bool}
    (hs : Registered s)
    (h : job.id ∈ s.val (.registry kind name) → queueKey job.origin ∈ s.val .queues) :
    Registered ((Job.requeue kind name job atFront now).run s).2 := by
  by_cases hmem : job.id ∈ s.val (.registry kind name)
  · have hkey : True → queueKey job.origin ∈ s.val .queues := fun _ => h hmem
    exact registered_of_within_key hs hkey fun hkey hI =>
      within_requeue hI (fun _ _ _ _ => pushesTo_enqueue (hkey trivial)) fun _ _ => trivial
  · rw [Job.requeue, Prog.run_step, if_pos hmem, Prog.run_throw]
    have hzrem : ∀ c ∈ [zrem kind name job.id], Emits (Effect.PushesTo ∅) c := by
      simpa using .benign (benign_zrem kind name job.id)
    refine registered_of_emits ∅ hs (fun _ hkey => ?_) hzrem
    exact absurd hkey (Set.notMem_empty _)

lemma registered_enqueueDependents {excludeJobId : Option JobId} {refreshJobStatus : Bool}
    (hs : Registered s)
    (h : ∀ r, Queue.releaseIn s job excludeJobId refreshJobStatus = .ok r →
      ∀ d ∈ r.1, queueKey d.origin ∈ s.val .queues) :
    Registered ((queue.enqueueDependents job none excludeJobId refreshJobStatus now fuel).run
      s).2 := by
  cases fuel with
  | zero => exact hs
  | succ fuel =>
    rw [Queue.run_enqueueDependents]
    split
    · exact hs
    · next r hr =>
      refine registered_of_emits {key | ∃ d ∈ r.1, key = queueKey d.origin} hs ?_ ?_
      · rintro key ⟨d, hd, rfl⟩
        exact h r hr d hd
      · intro c hc
        unfold Queue.releaseAll at hc
        split at hc
        · exact absurd hc List.not_mem_nil
        · rcases List.mem_append.mp hc with hc | hc
          · obtain ⟨d, hd, rfl | hc⟩ := Queue.mem_releaseCommands hc
            · exact .benign (benign_zrem _ _ _)
            · refine emits_enqueueCommand ⟨d, hd, ?_⟩ hc
              rw [Queue.key, Queue.queueFor_eq]
          · obtain rfl := List.mem_singleton.mp hc
            unfold Queue.forgetCommand
            split
            · exact .benign (benign_dependents _ fun _ _ hchild => absurd hchild List.not_mem_nil)
            · exact .benign (benign_dependents _ fun _ _ hchild => (RSet.mem_eraseAll.mp hchild).1)

/-- A job without retries is not retried. -/
lemma retry_none {client : Client} (hleft : job.retriesLeft.getD 0 = 0) :
    ∃ e, job.retry queue client now = .throw e := by
  unfold Job.retry
  cases job.getRetryInterval with
  | error e => exact ⟨e, rfl⟩
  | ok interval =>
    rw [Prog.ofExcept_ok, Prog.ret_bind]
    split
    · exact ⟨_, rfl⟩
    · exact ⟨_, rfl⟩
    · next n hn => simp [hn] at hleft

/-- The list of a deleted queue is empty. -/
lemma registered_delete (hs : Registered s) : Registered (queue.delete.run s).2 := by
  have hrun : (queue.delete.run s).2 = (Command.del (.list queue.key)).run
      ((Command.alter .queues fun q => q.erase queue.key).run s) := rfl
  rw [hrun]
  intro name hne
  by_cases hname : queueKey name = queue.key
  · rw [hname, Command.val_del, Function.update_self] at hne
    exact absurd rfl hne
  · have hk : Key.list (queueKey name) ≠ .list queue.key := by simpa using hname
    rw [Command.val_del, Function.update_of_ne hk, Command.val_alter,
      Function.update_of_ne (by simp)] at hne
    rw [Command.val_del, Function.update_of_ne (by simp), Command.val_alter, Function.update_self]
    exact RSet.mem_erase.mpr ⟨hs name hne, hname⟩

/-- The step lemma. -/
theorem registered_after {op : QueueOperation} (hs : Registered s) (h : op.FindsRegistered s) :
    Registered (op.after s) := by
  unfold after
  cases op with
  | enqueue queue sync jd now fuel =>
    simp only [program, Queue.enqueueCall]
    split
    · exact hs
    · rw [bind_assoc]
      cases queue.createJob jd .queued none with
      | error e => exact hs
      | ok job =>
        rw [Prog.ofExcept_ok, Prog.ret_bind]
        exact Prog.run_bind_preserves (registered_enqueueJobOn hs) fun _ _ _ hs' => hs'
  | enqueueMany queue sync jds groupId now fuel =>
    exact Prog.run_bind_preserves (Queue.registered_enqueueMany hs h) fun _ _ _ hs' => hs'
  | schedule queue job datetime unique now =>
    refine registered_of_within_empty hs fun hI => ?_
    rw [program, within_bind]
    cases unique with
    | true =>
      exact Queue.within_scheduleUnique hI Client.emits_none (fun _ _ _ _ => pushesTo_schedule)
        fun _ _ _ _ => trivial
    | false =>
      exact Queue.within_scheduleJob hI Client.emits_none (fun _ => pushesTo_schedule)
        fun _ _ _ _ => trivial
  | tick queue now => exact registered_tick hs h
  | requeue kind name job atFront now =>
    exact Prog.run_bind_preserves (registered_requeue hs h) fun _ _ _ hs' => hs'
  | enqueueDependents queue job excludeJobId refreshJobStatus now fuel =>
    exact Prog.run_bind_preserves (registered_enqueueDependents hs h) fun _ _ _ hs' => hs'
  | repeats queue job zone now =>
    have hkey : (∃ n, job.repeatsLeft = some (n + 1) ∧ Repeat.intervalFor job n = .ok 0) →
        queue.key ∈ s.val .queues := by
      rintro ⟨n, hleft, hinterval⟩
      exact h n hleft hinterval
    refine registered_of_within_key hs hkey fun hkey hI => ?_
    simp only [program, within_bind]
    refine within_repeat hI Client.emits_empty (fun e he => ?_) fun job' client _ hclient => ?_
    · obtain ⟨hleft, hinterval, he⟩ := he
      refine pushesTo_again (fun h0 => hkey ⟨_, hleft, ?_⟩) he
      rw [hinterval, h0]
    · exact within_execute hI hclient.getD fun _ => trivial
  | retry queue job now =>
    by_cases hleft : job.retriesLeft.getD 0 = 0
    · obtain ⟨e, he⟩ := @retry_none queue job now (some {}) hleft
      rw [program, he, Prog.throw_bind]
      exact hs
    · refine registered_of_within_key hs (h hleft) fun hkey hI => ?_
      simp only [program, within_bind]
      refine within_retry hI Client.emits_empty (fun e he => ?_) fun job' client _ hclient => ?_
      · obtain ⟨hinterval, he⟩ := he
        refine pushesTo_again (fun h0 => hkey ?_) he
        rw [hinterval, h0]
      · exact within_execute hI hclient.getD fun _ => trivial
  | retryResult queue job again info now =>
    refine registered_of_within_key hs h fun hkey hI => ?_
    simp only [program, within_bind]
    refine within_handleRetryResult hI Client.emits_empty (fun _ => pushesTo_again hkey)
      fun job' client _ hclient => ?_
    exact within_execute hI hclient.getD fun _ => trivial
  | delete queue => exact registered_delete hs

/-- A run whose operations find what they push to registered. -/
def Reaches : Store → Store → Prop :=
  Relation.ReflTransGen fun s s' => ∃ op : QueueOperation, op.FindsRegistered s ∧ s' = op.after s

end QueueOperation

/-- **Every queue that is not empty stays registered** while the operations that do not register
find it so. -/
theorem registered_of_reaches (s s' : Store) (hs : Registered s)
    (hrun : QueueOperation.Reaches s s') : Registered s' := by
  induction hrun with
  | refl => exact hs
  | tail _ hstep ih =>
    obtain ⟨op, hfinds, rfl⟩ := hstep
    exact QueueOperation.registered_after ih hfinds

/-! ### Examples -/

lemma registered_empty : Registered Store.empty := fun _ hne => absurd rfl hne

/-- An entry that is enqueued and then a batch of unique entries. -/
def registeredRun : List QueueOperation :=
  [.enqueue { name := "default" } none Queue.plainEntry 0 1,
    .enqueueMany { name := "default" } none [Queue.uniqueEntry] none 0 1]

theorem registered_of_reaches_two :
    Registered (registeredRun.foldl (fun s op => op.after s) Store.empty) := by
  refine registered_of_reaches _ _ registered_empty
    (.tail (.single ⟨registeredRun[0], trivial, rfl⟩) ⟨registeredRun[1], .inl ?_, rfl⟩)
  decide

/-- The first batch of a queue registers it only if it has an entry that is not unique. -/
theorem unique_batch_unregistered : ¬∀ s s', Registered s →
    Relation.ReflTransGen (fun s s' => ∃ op : QueueOperation, s' = op.after s) s s' →
    Registered s' := by
  intro h
  have hrun := h _ _ registered_empty
    (.single ⟨.enqueueMany { name := "default" } none [Queue.uniqueEntry] none 0 1, rfl⟩)
  have hin := hrun "default" (by decide)
  revert hin
  decide

end RedisQueue
