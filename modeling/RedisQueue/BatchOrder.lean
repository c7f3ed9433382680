import RedisQueue.BatchTheorems
import RedisQueue.SyncRuns

/-!
# A batch and a loop

`Queue.enqueue_many` for entries without dependencies, compared with a call of `enqueue_call` for
each of them.

* `agreeAt_batch`: on an async queue both leave the same in every key of a job;
* `equalsLoop_iff`: when they leave the same in every key.
-/

namespace RedisQueue

open Prog

namespace Queue
variable {self : Queue} {sync : Option SyncCode} {now : Time} {fuel : ℕ} {s s' : Store}
  {jd : EnqueueData} {k : Key}

/-- `enqueue_call` for one entry after the other. -/
def enqueueEachCall (self : Queue) (sync : Option SyncCode) (now : Time) (fuel : ℕ) :
    List EnqueueData → Redis Unit
  | [] => return ()
  | jd :: jds => do
    let _ ← self.enqueueCall sync jd none now fuel
    enqueueEachCall self sync now fuel jds

/-! ## One entry -/

/-- `SADD rq:queues` -/
def registerCommand (self : Queue) : Command Key Value := .alter .queues fun q => q.insert self.key

/-- The commands that save an entry and push it. -/
def entryCommands (self : Queue) (now : Time) (jd : EnqueueData) : List (Command Key Value) :=
  if jd.unique then (self.attemptOf none now jd).commands now
  else enqueueCommands self (self.newJob jd .queued none) jd.atFront now

@[simp] lemma prepareForQueue_id {status : JobStatus} {groupId : Option String} :
    (self._prepareForQueue (self.newJob jd status groupId) now).id = jd.id := rfl

/-- The keys of a job that enqueueing it touches. -/
def Owned (id : JobId) (k : Key) : Prop :=
  k = .job id ∨ k = .dependents id ∨ k = .dependencies id

lemma frames_push {key : String} {atFront : Bool} {id : JobId} (hlist : k ≠ .list key)
    (hlog : k ≠ .log) : (push key atFront id).Frames k := by
  refine Command.frames_seq fun c hc => ?_
  simp only [List.mem_cons, List.not_mem_nil, or_false] at hc
  rcases hc with rfl | rfl
  · exact Command.frames_write hlist
  · exact Command.frames_write hlog

lemma frames_saveCommands {job : Job} (hjob : k ≠ .job job.id) :
    ∀ c ∈ saveCommands job now, c.Frames k := fun c hc => by
  simp only [saveCommands, List.mem_cons, List.not_mem_nil, or_false] at hc
  rcases hc with rfl | rfl
  · exact Command.frames_write hjob
  · split
    · exact Command.frames_expire hjob
    · exact fun _ => ⟨rfl, rfl⟩

lemma frames_persistCommands {job : Job} {status : JobStatus} (hown : ¬Owned job.id k) :
    ∀ c ∈ persistCommands job status now, c.Frames k := fun c hc => by
  simp only [Owned, not_or] at hown
  simp only [persistCommands, cleanupCommands, List.mem_append, List.mem_cons, List.not_mem_nil,
    or_false] at hc
  rcases hc with (rfl | rfl) | hc
  · exact Command.frames_write hown.1
  · exact Command.frames_write hown.1
  · split at hc
    · simp only [List.mem_cons, List.not_mem_nil, or_false] at hc
      rcases hc with rfl | rfl | rfl
      · exact Command.frames_expire hown.1
      · exact Command.frames_expire hown.2.1
      · exact Command.frames_expire hown.2.2
    · simp at hc

/-- The commands of an entry in their parts. -/
lemma mem_entryCommands {c : Command Key Value} (hc : c ∈ self.entryCommands now jd) :
    c ∈ saveCommands (self._prepareForQueue (self.newJob jd .queued none) now) now ∨
      c ∈ persistCommands (self._prepareForQueue (self.newJob jd .queued none) now) .queued now ∨
      c = push self.key jd.atFront jd.id := by
  unfold entryCommands at hc
  split at hc
  · rcases List.mem_append.mp hc with hc | hc
    · exact .inl hc
    · exact .inr (.inr (List.mem_singleton.mp hc))
  · unfold enqueueCommands at hc
    rw [if_neg (by simp [newJob]), List.nil_append] at hc
    rcases List.mem_append.mp hc with hc | hc
    · exact .inr (.inl hc)
    · exact .inr (.inr (List.mem_singleton.mp hc))

lemma frames_entryCommands (hown : ¬Owned jd.id k) (hlist : k ≠ .list self.key)
    (hlog : k ≠ .log) : (Command.seq (self.entryCommands now jd)).Frames k := by
  refine Command.frames_seq fun c hc => ?_
  rcases mem_entryCommands hc with hc | hc | rfl
  · exact frames_saveCommands (fun heq => hown (.inl heq)) c hc
  · exact frames_persistCommands hown c hc
  · exact frames_push hlist hlog

lemma local_entryCommands {c : Command Key Value} (hc : c ∈ self.entryCommands now jd) :
    c.Local := by
  have hseq : ∀ cs : List (Command Key Value), (∀ c ∈ cs, c.Local) → (Command.seq cs).Local :=
    fun cs => Command.local_seq
  rcases mem_entryCommands hc with hc | hc | rfl
  · simp only [saveCommands, List.mem_cons, List.not_mem_nil, or_false] at hc
    rcases hc with rfl | rfl
    · exact Command.local_write _ _
    · split
      · exact Command.local_expire _ _
      · exact hseq [] (by simp)
  · simp only [persistCommands, cleanupCommands, List.mem_append, List.mem_cons, List.not_mem_nil,
      or_false] at hc
    rcases hc with (rfl | rfl) | hc
    · exact Command.local_write _ _
    · exact Command.local_write _ _
    · split at hc
      · simp only [List.mem_cons, List.not_mem_nil, or_false] at hc
        rcases hc with rfl | rfl | rfl <;> exact Command.local_expire _ _
      · simp at hc
  · refine hseq _ fun c hc => ?_
    simp only [List.mem_cons, List.not_mem_nil, or_false] at hc
    rcases hc with rfl | rfl <;> exact Command.local_write _ _

lemma list_entryCommands (s : Store) :
    ((Command.seq (self.entryCommands now jd)).run s).val (.list self.key) =
      pushed jd.atFront jd.id (s.val (.list self.key)) := by
  unfold entryCommands
  split
  · rw [Attempt.commands, Command.seq_append_run]
    simp [attemptOf, Place.commands, _prepareForQueue, newJob, EnqueueData.id]
  · have hkeeps : (Command.seq (persistCommands
        (self._prepareForQueue (self.newJob jd .queued none) now) .queued now)).Frames
        (.list self.key) :=
      Command.frames_seq (frames_persistCommands (by simp [Owned]))
    rw [enqueueCommands, if_neg (by simp [newJob]), List.nil_append, Command.seq_append_run]
    have hval := (hkeeps s).1
    simp only [Command.seq_cons_run, Command.seq_nil_run, val_push]
    rw [Function.update_of_ne (by simp), Function.update_self, hval]
    rfl

lemma keepsExp_entryCommands :
    (Command.seq (self.entryCommands now jd)).KeepsExp (.list self.key) := by
  have hpush : (push self.key jd.atFront jd.id).KeepsExp (.list self.key) := fun s => by
    have hne : pushed jd.atFront jd.id (s.val (.list self.key)) ≠ (default : List JobId) := by
      unfold pushed
      split <;> simp [default]
    have hlist : ((Command.write (.list self.key) (pushed jd.atFront jd.id)).run s).exp
        (.list self.key) = s.exp (.list self.key) := by
      simp [Command.write, KeyStore.put, hne]
    have hlog : (Command.write (V := Value) .log fun l => l ++ [⟨self.key, jd.id⟩]).KeepsExp
        (.list self.key) := Command.keepsExp_write (by simp)
    exact (hlog _).trans hlist
  refine Command.keepsExp_seq fun c hc => ?_
  rcases mem_entryCommands hc with hc | hc | rfl
  · exact (Command.frames_iff.mp (frames_saveCommands (by simp) c hc)).2
  · exact (Command.frames_iff.mp (frames_persistCommands (by simp [Owned]) c hc)).2
  · exact hpush

/-! ## The loop -/

lemma frames_registerCommand (hk : k ≠ .queues) : self.registerCommand.Frames k :=
  Command.frames_alter hk

/-- A call for an entry without dependencies registers the queue first. -/
lemma enqueueCall_eq (hjd : jd.Valid) (hdeps : jd.dependsOn = none) :
    self.enqueueCall sync jd none now fuel =
      .exec false (fun _ => true) (Command.seq [self.registerCommand]).run fun _ =>
        self._enqueueJobOn sync (self.newJob jd .queued none) none jd.atFront jd.unique now := by
  have hids : (self.newJob jd .queued none).dependencyIds = [] := by simp [newJob, hdeps]
  have hstatus : (self.newJob jd .queued none).status ≠ .deferred := by simp [newJob]
  have hexplicit : (jd.unique && !hasJobId jd) = false := by
    cases hunique : jd.unique with
    | true => simp [hjd.hasJobId hunique]
    | false => rfl
  have hjob : ({ self.newJob jd .queued none with origin := self.name } : Job) =
    self.newJob jd .queued none := rfl
  simp only [enqueueCall, hexplicit, createJob_ok hjd.accepted, enqueueJobOn, hjob,
    Bool.false_eq_true, if_false, Prog.ofExcept_ok, Prog.ret_bind]
  generalize self.newJob jd .queued none = job at hids hstatus
  simp only [setupDependencies, hids, hstatus, List.isEmpty_nil, Bool.not_true, Bool.and_false,
    Bool.false_eq_true, if_false, Prog.ret_bind, Prog.pure_eq, ne_eq, not_false_eq_true, if_true,
    Pipeline.command_eq_buffer Pipeline.immediate_empty]
  rw [Pipeline.execute_of_unwatched rfl (by simp)]
  rfl

lemma run_enqueueCall (hjd : jd.Valid) (hdeps : jd.dependsOn = none)
    (hfresh : s.val (.job jd.id) = default) :
    ∃ r, (self.enqueueCall none jd none now fuel).run s = (.ok r,
      (Command.seq (self.registerCommand :: self.entryCommands now jd)).run s) := by
  have hregister : (self.registerCommand.run s).val (.job jd.id) = default := by
    rw [(frames_registerCommand (by simp) s).1, hfresh]
  rw [enqueueCall_eq hjd hdeps, Prog.run_exec, if_pos rfl, Command.seq_cons_run]
  simp only [Command.seq_cons_run, Command.seq_nil_run, _enqueueJobOn, _enqueueJob, entryCommands]
  cases jd.unique with
  | true =>
    have hsave := @run_attemptOf self none now jd (self.registerCommand.run s)
    rw [if_pos hregister] at hsave
    simp only [if_true]
    rw [Prog.run_bind_ok hsave]
    exact ⟨_, rfl⟩
  | false =>
    have hbuffer := @enqueueOnPipeline_buffer {} Pipeline.immediate_empty self
      (self._prepareForQueue (self.newJob jd .queued none) now)
      (@newJob_ttl self none jd hjd.accepted .queued) false jd.atFront now
    have hstatus : ((self.newJob jd .queued none).status == .deferred) = false := rfl
    simp only [Bool.false_eq_true, if_false, hstatus, hbuffer, Prog.ret_bind, Option.getD_some]
    rw [Pipeline.execute_of_unwatched rfl (by simp), Prog.exec_bind, Prog.run_exec, if_pos rfl]
    exact ⟨_, rfl⟩

/-- The commands of a loop on an async queue. -/
def loopCommands (self : Queue) (now : Time) (jds : List EnqueueData) : List (Command Key Value) :=
  jds.flatMap fun jd => self.registerCommand :: self.entryCommands now jd

lemma run_enqueueEachCall {jds : List EnqueueData} (hvalid : ∀ jd ∈ jds, jd.Valid)
    (hdeps : ∀ jd ∈ jds, jd.dependsOn = none) (hdistinct : (jds.map EnqueueData.id).Nodup)
    (hfresh : ∀ jd ∈ jds, s.val (.job jd.id) = default) :
    (self.enqueueEachCall none now fuel jds).run s =
      (.ok (), (Command.seq (self.loopCommands now jds)).run s) := by
  induction jds generalizing s with
  | nil => rfl
  | cons jd jds ih =>
    rw [List.map_cons, List.nodup_cons] at hdistinct
    obtain ⟨r, hrun⟩ := @run_enqueueCall self now fuel s jd (hvalid jd List.mem_cons_self)
      (hdeps jd List.mem_cons_self) (hfresh jd List.mem_cons_self)
    rw [enqueueEachCall, Prog.run_bind_ok hrun, ih (fun x hx => hvalid x (List.mem_cons_of_mem _ hx))
      (fun x hx => hdeps x (List.mem_cons_of_mem _ hx)) hdistinct.2 fun x hx => ?_]
    · rw [loopCommands, loopCommands, List.flatMap_cons, Command.seq_append_run]
    · have hne : x.id ≠ jd.id := fun heq => hdistinct.1 (heq ▸ List.mem_map_of_mem hx)
      have hentry := @frames_entryCommands self now jd (.job x.id) (by simpa [Owned] using hne)
        (by simp) (by simp)
      rw [Command.seq_cons_run, (hentry _).1, (frames_registerCommand (by simp) s).1]
      exact hfresh x (List.mem_cons_of_mem _ hx)

/-- A loop that comes to its end has only seen entries that are accepted. -/
lemma valid_of_run_enqueueEachCall {jds : List EnqueueData} {r : Unit}
    (hdeps : ∀ jd ∈ jds, jd.dependsOn = none)
    (h : (self.enqueueEachCall sync now fuel jds).run s = (.ok r, s')) : ∀ jd ∈ jds, jd.Valid := by
  induction jds generalizing s with
  | nil => simp
  | cons jd jds ih =>
    obtain ⟨_, _, hcall, hrest⟩ := Prog.run_bind_eq_ok h
    intro x hx
    rcases List.mem_cons.mp hx with rfl | hx
    · unfold enqueueCall at hcall
      split at hcall
      · cases hcall
      · next hexplicit =>
        obtain ⟨_, _, hcreate, -⟩ := Prog.run_bind_eq_ok hcall
        refine ⟨?_, fun _ => hdeps x List.mem_cons_self,
          fun hunique => by simpa [hunique] using hexplicit⟩
        by_contra haccepted
        obtain ⟨msg, hmsg⟩ := @createJob_error self x .queued none haccepted
        rw [hmsg] at hcreate
        cases hcreate
    · exact ih (fun x hx => hdeps x (List.mem_cons_of_mem _ hx)) hrest x hx

/-! ## The batch -/

/-- The unique entries first, then the others. -/
def uniques (jds : List EnqueueData) : List EnqueueData := jds.filter fun jd => jd.unique

def plains (jds : List EnqueueData) : List EnqueueData := jds.filter fun jd => !jd.unique

lemma map_snd_filter_indexed (jds : List EnqueueData) (p : EnqueueData → Bool) :
    ((indexed jds).filter fun jd => p jd.2).map Prod.snd = jds.filter p := by
  have hmap : (indexed jds).map Prod.snd = jds := by
    rw [show (Prod.snd : ℕ × EnqueueData → EnqueueData) = fun jd => id jd.2 from rfl, map_indexed,
      List.map_id]
  conv_rhs => rw [← hmap]
  rw [List.filter_map]
  rfl

lemma map_uniqueNoDeps {jds : List EnqueueData} (hdeps : ∀ jd ∈ jds, jd.dependsOn = none) :
    (uniqueNoDeps jds).map Prod.snd = uniques jds := by
  rw [uniques, ← map_snd_filter_indexed, uniqueNoDeps]
  refine congrArg _ (List.filter_congr fun jd hjd => ?_)
  simp [hdeps jd.2 (mem_of_indexed hjd)]

lemma map_normalNoDeps {jds : List EnqueueData} (hdeps : ∀ jd ∈ jds, jd.dependsOn = none) :
    (normalNoDeps jds).map Prod.snd = plains jds := by
  rw [plains, ← map_snd_filter_indexed jds fun jd => !jd.unique, normalNoDeps]
  refine congrArg _ (List.filter_congr fun jd hjd => ?_)
  simp [hdeps jd.2 (mem_of_indexed hjd)]

lemma withDeps_eq_nil {jds : List EnqueueData} (hdeps : ∀ jd ∈ jds, jd.dependsOn = none) :
    withDeps jds = [] :=
  List.filter_eq_nil_iff.mpr fun jd hjd => by simp [hdeps jd.2 (mem_of_indexed hjd)]

lemma flatMap_entryCommands_uniques {jds : List EnqueueData}
    (hdeps : ∀ jd ∈ jds, jd.dependsOn = none) :
    self.uniqueCommands none now (uniqueNoDeps jds) =
      (uniques jds).flatMap (self.entryCommands now) := by
  rw [← map_uniqueNoDeps hdeps, List.flatMap_map]
  refine List.flatMap_congr fun jd hjd => ?_
  have hunique : jd.2.unique = true := (mem_uniqueNoDeps hjd).2.1
  rw [entryCommands, if_pos hunique]

lemma flatMap_entryCommands_plains {jds : List EnqueueData}
    (hdeps : ∀ jd ∈ jds, jd.dependsOn = none) :
    self.normalCommands none now (normalNoDeps jds) =
      (plains jds).flatMap (self.entryCommands now) := by
  rw [← map_normalNoDeps hdeps, List.flatMap_map]
  refine List.flatMap_congr fun jd hjd => ?_
  have hplain : (!jd.2.unique && jd.2.dependsOn.isNone) = true := (List.mem_filter.mp hjd).2
  rw [entryCommands, if_neg]
  intro hunique
  simp [hunique] at hplain

/-- The commands of a batch on an async queue. -/
def batchCommands (self : Queue) (now : Time) (jds : List EnqueueData) :
    List (Command Key Value) :=
  (uniques jds).flatMap (self.entryCommands now) ++
    if plains jds = [] then [] else
      self.registerCommand :: (plains jds).flatMap (self.entryCommands now)

/-- Every entry has its job in the result map. -/
lemma rebuild_batch_ok {jds : List EnqueueData} (hdeps : ∀ jd ∈ jds, jd.dependsOn = none)
    {f g : ℕ × EnqueueData → Job} :
    ∃ jobs, rebuild ((uniqueNoDeps jds).map (fun jd => (jd.1, f jd)) ++
      (normalNoDeps jds).map (fun jd => (jd.1, g jd)) ++ []) jds.length = .ok jobs := by
  refine rebuild_ok fun i hi => ?_
  obtain ⟨jd, hjd, rfl⟩ := List.mem_map.mp (mem_keys_indexed jds i hi)
  rw [List.append_nil, List.map_append, List.map_map, List.map_map, List.mem_append]
  have hnone := hdeps jd.2 (mem_of_indexed hjd)
  cases hunique : jd.2.unique with
  | true => exact .inl (List.mem_map.mpr ⟨jd, List.mem_filter.mpr ⟨hjd, by simp [hunique, hnone]⟩, rfl⟩)
  | false =>
    exact .inr (List.mem_map.mpr ⟨jd, List.mem_filter.mpr ⟨hjd, by simp [hunique, hnone]⟩, rfl⟩)

lemma run_enqueueMany_noDeps {jds : List EnqueueData} (hvalid : ∀ jd ∈ jds, jd.Valid)
    (hdeps : ∀ jd ∈ jds, jd.dependsOn = none) (hdistinct : (jds.map EnqueueData.id).Nodup)
    (hfresh : ∀ jd ∈ jds, s.val (.job jd.id) = default) :
    ∃ r, (self.enqueueMany none jds none none now fuel).run s =
      (.ok r, (Command.seq (self.batchCommands now jds)).run s) := by
  have huniques := @run_enqueueUniques_all self none now s (uniqueNoDeps jds)
    (fun jd hjd => (hvalid _ (mem_uniqueNoDeps hjd).1).accepted)
    (fun jd hjd => hfresh _ (mem_uniqueNoDeps hjd).1) (by
      have hmap : (uniqueNoDeps jds).map (fun jd => jd.2.id) = (uniques jds).map EnqueueData.id := by
        rw [← map_uniqueNoDeps hdeps, List.map_map]
        rfl
      rw [hmap]
      exact hdistinct.sublist (List.filter_sublist.map _))
  have hok : validate jds = .ok () := validate_ok_iff.mpr fun jd hjd hunique =>
    ⟨(hvalid jd hjd).noDeps hunique, (hvalid jd hjd).hasJobId hunique⟩
  obtain ⟨jobs, hjobs⟩ := @rebuild_batch_ok jds hdeps
    (fun jd => (self.attemptOf none now jd.2).job)
    (fun jd => self._prepareForQueue (self.newJob jd.2 .queued none) now)
  have hnormals : ∀ s, ∃ client, (self.enqueueNormalNoDeps none (normalNoDeps jds) none
      (some self.registering) none now).run s =
        (.ok ((normalNoDeps jds).map fun jd =>
            (jd.1, self._prepareForQueue (self.newJob jd.2 .queued none) now), client),
          (Command.seq (if plains jds = [] then [] else
            self.registerCommand :: (plains jds).flatMap (self.entryCommands now))).run s) := by
    intro s
    have hiff : plains jds = [] ↔ normalNoDeps jds = [] := by
      rw [← map_normalNoDeps hdeps, List.map_eq_nil_iff]
    by_cases hnil : normalNoDeps jds = []
    · rw [if_pos (hiff.mpr hnil), enqueueNormalNoDeps, if_pos hnil, hnil]
      exact ⟨_, rfl⟩
    · rw [if_neg (mt hiff.mp hnil), ← flatMap_entryCommands_plains hdeps,
        run_enqueueNormalNoDeps hnil fun jd hjd =>
          (hvalid _ (mem_of_indexed (List.mem_filter.mp hjd).1)).accepted]
      exact ⟨_, rfl⟩
  obtain ⟨client, hnormals⟩ := hnormals
    ((Command.seq (self.uniqueCommands none now (uniqueNoDeps jds))).run s)
  refine ⟨(jobs, none), ?_⟩
  unfold enqueueMany
  rw [hok, Prog.ofExcept_ok, Prog.ret_bind, Option.getD_none,
    Client.command_buffer Pipeline.immediate_empty, Prog.ret_bind, Prog.run_bind_ok huniques,
    Prog.run_bind_ok (by exact hnormals)]
  dsimp only
  rw [withDeps_eq_nil hdeps, enqueueWithDeps, if_pos rfl, Prog.pure_eq, Prog.ret_bind, hjobs,
    Prog.ofExcept_ok, Prog.ret_bind, batchCommands, Command.seq_append_run,
    flatMap_entryCommands_uniques hdeps]
  rfl

/-! ## What the two leave behind -/

/-- The stores hold the same, apart from the history of pushes. -/
def SameStore (s s' : Store) : Prop := ∀ k, k ≠ .log → KeyStore.AgreeAt k s s'

/-- The batch and the loop come to their end and leave the same store. -/
def EqualsLoop (self : Queue) (sync : Option SyncCode) (now : Time) (fuel : ℕ)
    (jds : List EnqueueData) (s : Store) : Prop :=
  ∃ r s₁ s₂, (self.enqueueMany sync jds none none now fuel).run s = (.ok r, s₁) ∧
    (self.enqueueEachCall sync now fuel jds).run s = (.ok (), s₂) ∧ SameStore s₁ s₂

lemma local_flatMap_entryCommands (jds : List EnqueueData) :
    (Command.seq (jds.flatMap (self.entryCommands now))).Local :=
  Command.local_seq fun c hc => by
    obtain ⟨jd, -, hc⟩ := List.mem_flatMap.mp hc
    exact local_entryCommands hc

lemma agreeAt_loopCommands (hk : k ≠ .queues) (jds : List EnqueueData) (s : Store) :
    KeyStore.AgreeAt k ((Command.seq (self.loopCommands now jds)).run s)
      ((Command.seq (jds.flatMap (self.entryCommands now))).run s) := by
  induction jds generalizing s with
  | nil => exact ⟨rfl, rfl⟩
  | cons jd jds ih =>
    have hentry : (Command.seq (self.entryCommands now jd)).Local :=
      Command.local_seq fun c => local_entryCommands
    have hhead := hentry k _ _ (@frames_registerCommand self k hk s)
    rw [loopCommands, List.flatMap_cons, List.flatMap_cons, Command.seq_append_run,
      Command.seq_append_run]
    exact (ih _).trans (local_flatMap_entryCommands jds k _ _ hhead)

lemma agreeAt_batchCommands (hk : k ≠ .queues) (jds : List EnqueueData) (s : Store) :
    KeyStore.AgreeAt k ((Command.seq (self.batchCommands now jds)).run s)
      ((Command.seq ((uniques jds ++ plains jds).flatMap (self.entryCommands now))).run s) := by
  rw [batchCommands, List.flatMap_append, Command.seq_append_run, Command.seq_append_run]
  split
  · next hnil =>
    rw [hnil]
    exact ⟨rfl, rfl⟩
  · exact local_flatMap_entryCommands _ k _ _ (frames_registerCommand hk _)

lemma perm_uniques_plains (jds : List EnqueueData) : (uniques jds ++ plains jds).Perm jds :=
  List.filter_append_perm _ jds

/-- The keys of the jobs do not depend on the order of the entries. -/
theorem agreeAt_batch (hqueues : k ≠ .queues) (hlist : k ≠ .list self.key) (hlog : k ≠ .log)
    {jds : List EnqueueData} (hdistinct : (jds.map EnqueueData.id).Nodup) (s : Store) :
    KeyStore.AgreeAt k ((Command.seq (self.batchCommands now jds)).run s)
      ((Command.seq (self.loopCommands now jds)).run s) := by
  have hdistinct' : ((uniques jds ++ plains jds).map EnqueueData.id).Nodup :=
    ((perm_uniques_plains jds).map _).nodup_iff.mpr hdistinct
  have hone : (uniques jds ++ plains jds).Pairwise fun i j =>
      (Command.seq (self.entryCommands now i)).Frames k ∨
        (Command.seq (self.entryCommands now j)).Frames k := by
    refine (List.pairwise_map.mp hdistinct').imp fun {i j} hne => ?_
    by_cases hown : Owned i.id k
    · refine .inr (frames_entryCommands (fun hown' => hne ?_) hlist hlog)
      rcases hown with rfl | rfl | rfl <;> simpa [Owned] using hown'
    · exact .inl (frames_entryCommands hown hlist hlog)
  have hperm := Command.agreeAt_of_perm (fun _ _ => local_entryCommands)
    (perm_uniques_plains jds) hone s
  exact (agreeAt_batchCommands hqueues jds s).trans
    (hperm.trans (agreeAt_loopCommands hqueues jds s).symm)

/-! ### The list of the queue -/

/-- The ids of the entries that are pushed to the front, and to the back. -/
def fronts (jds : List EnqueueData) : List JobId :=
  (jds.filter fun jd => jd.atFront).map EnqueueData.id

def backs (jds : List EnqueueData) : List JobId :=
  (jds.filter fun jd => !jd.atFront).map EnqueueData.id

lemma list_flatMap_entryCommands (jds : List EnqueueData) (s : Store) :
    ((Command.seq (jds.flatMap (self.entryCommands now))).run s).val (.list self.key) =
      (fronts jds).reverse ++ s.val (.list self.key) ++ backs jds := by
  induction jds generalizing s with
  | nil => simp [fronts, backs]
  | cons jd jds ih =>
    rw [List.flatMap_cons, Command.seq_append_run, ih, list_entryCommands]
    cases hfront : jd.atFront <;> simp [fronts, backs, hfront, pushed]

lemma keepsExp_flatMap_entryCommands (jds : List EnqueueData) :
    (Command.seq (jds.flatMap (self.entryCommands now))).KeepsExp (.list self.key) := by
  induction jds with
  | nil => exact fun _ => rfl
  | cons jd jds ih =>
    intro s
    rw [List.flatMap_cons, Command.seq_append_run, ih, keepsExp_entryCommands]

/-- No entry that is pushed to an end of the list is behind a plain one for the same end, if it is
unique. -/
def Ordered (jds : List EnqueueData) : Prop :=
  jds.Pairwise fun a b => a.atFront = b.atFront → b.unique = true → a.unique = true

lemma filter_map_eq_iff {jds : List EnqueueData} (hdistinct : (jds.map EnqueueData.id).Nodup)
    (p : EnqueueData → Bool) :
    ((uniques jds ++ plains jds).filter p).map EnqueueData.id = (jds.filter p).map EnqueueData.id ↔
      jds.Pairwise fun a b => p a = true → p b = true → b.unique = true → a.unique = true := by
  rw [← List.pairwise_filter, ← map_filter_append_eq_iff
      (hdistinct.sublist (List.filter_sublist.map _)), List.filter_append, List.map_append, uniques,
    plains, List.filter_filter, List.filter_filter, List.filter_filter, List.filter_filter]
  simp only [Bool.and_comm]

lemma list_eq_iff {jds : List EnqueueData} (hdistinct : (jds.map EnqueueData.id).Nodup) (s : Store) :
    ((Command.seq (self.batchCommands now jds)).run s).val (.list self.key) =
      ((Command.seq (self.loopCommands now jds)).run s).val (.list self.key) ↔ Ordered jds := by
  have hlength : ∀ p : EnqueueData → Bool, ((uniques jds ++ plains jds).filter p).length =
      (jds.filter p).length := fun p => ((perm_uniques_plains jds).filter p).length_eq
  rw [(agreeAt_batchCommands (by simp) jds s).1, (agreeAt_loopCommands (by simp) jds s).1,
    list_flatMap_entryCommands, list_flatMap_entryCommands]
  have hsplit : (fronts (uniques jds ++ plains jds)).reverse ++ s.val (.list self.key) ++
        backs (uniques jds ++ plains jds) =
      (fronts jds).reverse ++ s.val (.list self.key) ++ backs jds ↔
      fronts (uniques jds ++ plains jds) = fronts jds ∧
        backs (uniques jds ++ plains jds) = backs jds := by
    constructor
    · intro h
      have hfronts : (fronts (uniques jds ++ plains jds)).reverse.length =
          (fronts jds).reverse.length := by
        rw [List.length_reverse, List.length_reverse, fronts, fronts, List.length_map,
          List.length_map, hlength]
      rw [List.append_assoc, List.append_assoc] at h
      obtain ⟨hfront, hback⟩ := List.append_inj h hfronts
      exact ⟨List.reverse_injective hfront, List.append_cancel_left hback⟩
    · rintro ⟨hfront, hback⟩
      rw [hfront, hback]
  rw [hsplit, fronts, fronts, backs, backs, filter_map_eq_iff hdistinct,
    filter_map_eq_iff hdistinct, ← List.pairwise_and_iff, Ordered]
  refine List.Pairwise.iff fun a b => ?_
  cases a.atFront <;> cases b.atFront <;> simp

/-! ### The set of the queues -/

lemma queues_flatMap_entryCommands (jds : List EnqueueData) (s : Store) :
    KeyStore.AgreeAt .queues ((Command.seq (jds.flatMap (self.entryCommands now))).run s) s := by
  induction jds generalizing s with
  | nil => exact ⟨rfl, rfl⟩
  | cons jd jds ih =>
    have hentry := @frames_entryCommands self now jd .queues (by simp [Owned]) (by simp) (by simp)
    rw [List.flatMap_cons, Command.seq_append_run]
    exact (ih _).trans (hentry s)

lemma keepsExp_registerCommand : self.registerCommand.KeepsExp .queues := by
  intro s
  have hne := RSet.insert_ne_default (s.val .queues) self.key
  unfold registerCommand Command.alter
  dsimp only
  split
  · rfl
  · simp [KeyStore.put, hne]

lemma val_queues_registerCommand (s : Store) :
    (self.registerCommand.run s).val .queues = (s.val .queues).insert self.key := by
  simp [registerCommand]

lemma queues_batchCommands (jds : List EnqueueData) (s : Store) :
    ((Command.seq (self.batchCommands now jds)).run s).val .queues =
        (if plains jds = [] then s.val .queues else (s.val .queues).insert self.key) ∧
      ((Command.seq (self.batchCommands now jds)).run s).exp .queues = s.exp .queues := by
  have huniques := @queues_flatMap_entryCommands self now (uniques jds) s
  rw [batchCommands, Command.seq_append_run]
  split
  · exact huniques
  · rw [Command.seq_cons_run, (queues_flatMap_entryCommands _ _).1,
      (queues_flatMap_entryCommands _ _).2, val_queues_registerCommand, keepsExp_registerCommand,
      huniques.1, huniques.2]
    exact ⟨rfl, rfl⟩

lemma queues_loopCommands (jds : List EnqueueData) (s : Store) :
    ((Command.seq (self.loopCommands now jds)).run s).val .queues =
        (if jds = [] then s.val .queues else (s.val .queues).insert self.key) ∧
      ((Command.seq (self.loopCommands now jds)).run s).exp .queues = s.exp .queues := by
  induction jds generalizing s with
  | nil => exact ⟨rfl, rfl⟩
  | cons jd jds ih =>
    have hentry := @frames_entryCommands self now jd .queues (by simp [Owned]) (by simp) (by simp)
      (self.registerCommand.run s)
    rw [loopCommands, List.flatMap_cons, Command.seq_append_run, Command.seq_cons_run]
    obtain ⟨hval, hexp⟩ := ih ((Command.seq (self.entryCommands now jd)).run
      (self.registerCommand.run s))
    rw [loopCommands] at hval hexp
    refine ⟨?_, by rw [hexp, hentry.2, keepsExp_registerCommand]⟩
    rw [hval, hentry.1, val_queues_registerCommand, if_neg (List.cons_ne_nil _ _)]
    split
    · rfl
    · exact RSet.insert_of_mem (RSet.mem_insert.mpr (.inr rfl))

lemma queues_eq_iff {jds : List EnqueueData} (hne : jds ≠ []) (s : Store) :
    ((Command.seq (self.batchCommands now jds)).run s).val .queues =
        ((Command.seq (self.loopCommands now jds)).run s).val .queues ↔
      (∃ jd ∈ jds, jd.unique = false) ∨ self.key ∈ s.val .queues := by
  have hplains : plains jds = [] ↔ ¬∃ jd ∈ jds, jd.unique = false := by
    simp [plains, List.filter_eq_nil_iff]
  rw [(queues_batchCommands jds s).1, (queues_loopCommands jds s).1, if_neg hne]
  by_cases hnil : plains jds = []
  · rw [if_pos hnil, or_iff_right (hplains.mp hnil)]
    constructor
    · intro h
      rw [h]
      exact RSet.mem_insert.mpr (.inr rfl)
    · intro h
      rw [RSet.insert_of_mem h]
  · rw [if_neg hnil]
    exact iff_of_true rfl (.inl (not_not.mp (mt hplains.mpr hnil)))

/-! ### Asynchronous queues -/

/-- The commands of the batch and of the loop leave the same. -/
lemma sameStore_iff {jds : List EnqueueData} (hdistinct : (jds.map EnqueueData.id).Nodup)
    (s : Store) :
    SameStore ((Command.seq (self.batchCommands now jds)).run s)
        ((Command.seq (self.loopCommands now jds)).run s) ↔
      jds = [] ∨ Ordered jds ∧
        ((∃ jd ∈ jds, jd.unique = false) ∨ self.key ∈ s.val .queues) := by
  by_cases hne : jds = []
  · subst hne
    exact iff_of_true (fun _ _ => ⟨rfl, rfl⟩) (.inl rfl)
  · rw [or_iff_right hne, ← list_eq_iff hdistinct s, ← queues_eq_iff hne s]
    constructor
    · intro h
      exact ⟨(h _ (by simp)).1, (h _ (by simp)).1⟩
    · intro ⟨hlist, hqueues⟩ k hlog
      by_cases hk : k = .queues
      · subst hk
        exact ⟨hqueues, by rw [(queues_batchCommands jds s).2, (queues_loopCommands jds s).2]⟩
      · by_cases hk' : k = .list self.key
        · subst hk'
          refine ⟨hlist, ?_⟩
          rw [(agreeAt_batchCommands hk jds s).2, (agreeAt_loopCommands hk jds s).2,
            keepsExp_flatMap_entryCommands, keepsExp_flatMap_entryCommands]
        · exact agreeAt_batch hk hk' hlog hdistinct s

/-! ### Synchronous queues -/

section Sync
variable {code : SyncCode}

lemma Ended.of_before {id : JobId} {s₁ : Store}
    (h₁ : ∀ id', id' ≠ id → s₁.val (.job id') = s.val (.job id')) (h : Ended id s₁ s') :
    Ended id s s' :=
  ⟨fun id' hne => (h.others id' hne).trans (h₁ id' hne), h.status⟩

/-- A call of `enqueue_call` ends its job. -/
lemma ended_enqueueCall {r : Job × Client} (hjd : jd.Valid) (hdeps : jd.dependsOn = none)
    (h : (self.enqueueCall (some code) jd none now fuel).run s = (.ok r, s')) :
    Ended jd.id s s' := by
  have hregister : ∀ id' ≠ jd.id, ((Command.seq [self.registerCommand]).run s).val (.job id') =
      s.val (.job id') := fun id' _ => (frames_registerCommand (by simp) s).1
  rw [enqueueCall_eq hjd hdeps, Prog.run_exec, if_pos rfl] at h
  refine Ended.of_before hregister ?_
  generalize (Command.seq [self.registerCommand]).run s = s₀ at h
  have hstatus : ((self.newJob jd .queued none).status == .deferred) = false := rfl
  simp only [_enqueueJobOn, _enqueueSyncJob, hstatus] at h
  cases hunique : jd.unique with
  | true =>
    rw [hunique, if_pos rfl] at h
    obtain ⟨_, s₁, hsave, h⟩ := Prog.run_bind_eq_ok h
    obtain ⟨_, s₂, hrun, h⟩ := Prog.run_bind_eq_ok h
    cases h
    refine Ended.of_before (fun id' hne => ?_) (run_runSync hrun)
    unfold saveUniqueJobOnly runUnique at hsave
    rw [Prog.run_step] at hsave
    split at hsave
    · have hframes := @frames_saveCommands now (.job id')
        (self._prepareForQueue (self.newJob jd .queued none) now) (by simpa using hne)
      cases hsave
      exact (Command.frames_seq hframes s₀).1
    · cases hsave
  | false =>
    rw [hunique] at h
    have hpersist := @persistJob_buffer {} Pipeline.immediate_empty
      (self._prepareForQueue (self.newJob jd .queued none) now)
      (@newJob_ttl self none jd hjd.accepted .queued) .queued now
    simp only [Bool.false_eq_true, if_false, persistOnPipeline, Prog.pure_eq, Prog.ret_bind,
      hpersist, Option.getD_some] at h
    obtain ⟨_, s₁, hexecute, h⟩ := Prog.run_bind_eq_ok h
    obtain ⟨_, s₂, hrun, h⟩ := Prog.run_bind_eq_ok h
    cases h
    refine Ended.of_before (fun id' hne => ?_) (run_runSync hrun)
    rw [Pipeline.execute_of_unwatched rfl (by simp [persistCommands]), Prog.run_exec,
      if_pos rfl] at hexecute
    cases hexecute
    exact (Command.frames_seq (frames_persistCommands (by simpa [Owned] using hne)) s₀).1

/-- The loop ends all its jobs. -/
lemma ended_enqueueEachCall {jds : List EnqueueData} {r : Unit}
    (hdeps : ∀ jd ∈ jds, jd.dependsOn = none) (hdistinct : (jds.map EnqueueData.id).Nodup)
    (h : (self.enqueueEachCall (some code) now fuel jds).run s = (.ok r, s')) :
    (∀ jd ∈ jds, (s'.val (.job jd.id)).status ≠ some .queued) ∧
      ∀ id, id ∉ jds.map EnqueueData.id → s'.val (.job id) = s.val (.job id) := by
  have hvalid := valid_of_run_enqueueEachCall hdeps h
  induction jds generalizing s with
  | nil =>
    cases h
    exact ⟨by simp, fun _ _ => rfl⟩
  | cons jd jds ih =>
    rw [List.map_cons, List.nodup_cons] at hdistinct
    obtain ⟨_, s₁, hcall, hrest⟩ := Prog.run_bind_eq_ok h
    have hended := ended_enqueueCall (hvalid jd List.mem_cons_self) (hdeps jd List.mem_cons_self)
      hcall
    obtain ⟨hall, hkeeps⟩ := ih (fun x hx => hdeps x (List.mem_cons_of_mem _ hx)) hdistinct.2 hrest
      fun x hx => hvalid x (List.mem_cons_of_mem _ hx)
    refine ⟨fun x hx => ?_, fun id hid => ?_⟩
    · rcases List.mem_cons.mp hx with rfl | hx
      · rw [hkeeps _ hdistinct.1]
        exact hended.status
      · exact hall x hx
    · rw [List.map_cons, List.mem_cons, not_or] at hid
      rw [hkeeps id hid.2, hended.others id hid.1]

/-- The commands that the plain entries of a synchronous queue leave in the pipeline. -/
def persistAll (self : Queue) (now : Time) (jds : List (ℕ × EnqueueData)) :
    List (Command Key Value) :=
  jds.flatMap fun jd =>
    persistCommands (self._prepareForQueue (self.newJob jd.2 .queued none) now) .queued now

lemma run_enqueueNormals_sync {jds : List (ℕ × EnqueueData)} {pipe : Pipeline Key Value}
    {jobs : List (ℕ × Job)} {client : Client} (hpipe : pipe.immediate = false)
    (h : (self.enqueueNormals (some code) none now jds (some pipe)).run s = (.ok (jobs, client), s')) :
    client = some (pipe.buffer (self.persistAll now jds)) ∧
      ∀ id, id ∉ jds.map (fun jd => jd.2.id) → s'.val (.job id) = s.val (.job id) := by
  have haccepted := accepted_of_run_enqueueNormals h
  induction jds generalizing s pipe jobs with
  | nil =>
    cases h
    exact ⟨by simp [persistAll], fun _ _ => rfl⟩
  | cons jd jds ih =>
    obtain ⟨i, jd⟩ := jd
    have hjd : jd.Accepted := haccepted (i, jd) List.mem_cons_self
    have hpersist := @persistJob_buffer pipe hpipe
      (self._prepareForQueue (self.newJob jd .queued none) now)
      (@newJob_ttl self none jd hjd .queued) .queued now
    have hstatus : ((self.newJob jd .queued none).status == .deferred) = false := rfl
    simp only [enqueueNormals, createJob_ok hjd, _enqueueJobOn, _enqueueSyncJob, hstatus,
      persistOnPipeline, Bool.false_eq_true, if_false, Prog.ofExcept_ok, Prog.pure_eq,
      Prog.ret_bind, hpersist, bind_assoc] at h
    obtain ⟨_, s₁, hrun, h⟩ := Prog.run_bind_eq_ok h
    obtain ⟨⟨rest, client'⟩, s₂, hrest, h⟩ := Prog.run_bind_eq_ok h
    cases h
    obtain ⟨hclient, hkeeps⟩ := ih (by simpa using hpipe) hrest fun x hx =>
      haccepted x (List.mem_cons_of_mem _ hx)
    refine ⟨by rw [hclient, Pipeline.buffer_buffer]; rfl, fun id hid => ?_⟩
    rw [List.map_cons, List.mem_cons, not_or] at hid
    rw [hkeeps id hid.2, (run_runSync hrun).others id hid.1]

lemma status_persistCommands (job : Job) (s : Store) :
    (((Command.seq (persistCommands job .queued now)).run s).val (.job job.id)).status =
      some .queued := by
  have hcleanup : ∀ c ∈ cleanupCommands job.id job.ttl now, c.Keeps (.job job.id) := fun c hc => by
    unfold cleanupCommands at hc
    split at hc
    · simp only [List.mem_cons, List.not_mem_nil, or_false] at hc
      rcases hc with rfl | rfl | rfl <;> exact Command.keeps_expire
    · simp at hc
  rw [persistCommands, Command.seq_append_run, Command.keeps_seq hcleanup]
  simp [JobHash.update, Job.toDict]

lemma status_attemptOf (jd : EnqueueData) (s : Store) :
    (((Command.seq ((self.attemptOf none now jd).commands now)).run s).val (.job jd.id)).status =
      some .queued := by
  rw [Attempt.commands, Command.seq_append_run]
  simp [attemptOf, Place.commands, _prepareForQueue, newJob, EnqueueData.id, Job.toDict,
    JobHash.update]

/-- Entries with other ids do not touch a job. -/
lemma pairwise_keeps {jds : List (ℕ × EnqueueData)} (hjds : (jds.map fun jd => jd.2.id).Nodup)
    {f : ℕ × EnqueueData → List (Command Key Value)}
    (hf : ∀ jd id, id ≠ jd.2.id → (Command.seq (f jd)).Keeps (.job id)) :
    jds.Pairwise fun i j => ∀ s : Store, (s.val (.job i.2.id)).status = some .queued →
      (((Command.seq (f j)).run s).val (.job i.2.id)).status = some .queued :=
  (List.pairwise_map.mp hjds).imp fun {i j} hne s hs => by rwa [hf j i.2.id hne]

/-- Every entry without dependencies is in one of the two passes. -/
lemma exists_mem_noDeps {jds : List EnqueueData} (hdeps : ∀ jd ∈ jds, jd.dependsOn = none)
    {jd : EnqueueData} (hjd : jd ∈ jds) :
    ∃ i, (i, jd) ∈ uniqueNoDeps jds ∨ (i, jd) ∈ normalNoDeps jds := by
  obtain ⟨i, hi⟩ := exists_mem_indexed hjd
  have hnone := hdeps jd hjd
  refine ⟨i, ?_⟩
  cases hunique : jd.unique with
  | true => exact .inl (List.mem_filter.mpr ⟨hi, by simp [hunique, hnone]⟩)
  | false => exact .inr (List.mem_filter.mpr ⟨hi, by simp [hunique, hnone]⟩)

/-- The plain entries are executed first and persisted by the pipeline afterwards, which leaves
them queued. -/
lemma queued_enqueueNormalNoDeps {jds : List (ℕ × EnqueueData)} {r : List (ℕ × Job) × Client}
    (hnodup : (jds.map fun jd => jd.2.id).Nodup)
    (h : (self.enqueueNormalNoDeps (some code) jds none (some self.registering) none now).run s =
      (.ok r, s')) :
    (∀ jd ∈ jds, (s'.val (.job jd.2.id)).status = some .queued) ∧
      ∀ id, id ∉ jds.map (fun jd => jd.2.id) → s'.val (.job id) = s.val (.job id) := by
  unfold enqueueNormalNoDeps at h
  split at h
  · next hnil =>
    cases h
    rw [hnil]
    exact ⟨by simp, fun _ _ => rfl⟩
  · obtain ⟨⟨jobs, client'⟩, s₁, hrun, h⟩ := Prog.run_bind_eq_ok h
    obtain ⟨rfl, hkeeps⟩ := run_enqueueNormals_sync (by simp [registering]) hrun
    obtain ⟨_, s₂, hown, h⟩ := Prog.run_bind_eq_ok h
    obtain ⟨_, s₃, hexecute, hown⟩ := Prog.run_bind_eq_ok hown
    rw [Option.getD_some, Pipeline.execute_of_unwatched rfl (by simp [registering]),
      Prog.run_exec, if_pos rfl] at hexecute
    cases hexecute
    cases hown
    cases h
    have hpersist : ∀ (jd : ℕ × EnqueueData) id, id ≠ jd.2.id → ∀ c ∈ persistCommands
        (self._prepareForQueue (self.newJob jd.2 .queued none) now) .queued now,
          c.Keeps (.job id) := fun jd id hne c hc =>
      (Command.frames_iff.mp (frames_persistCommands (by simpa [Owned] using hne) c hc)).1
    refine ⟨Command.seq_flatMap_establishes (fun (jd : ℕ × EnqueueData) s =>
      @status_persistCommands now (self._prepareForQueue (self.newJob jd.2 .queued none) now) s)
      (pairwise_keeps hnodup fun jd id hne => Command.keeps_seq (hpersist jd id hne))
      ((Command.seq [self.registerCommand]).run s₁), fun id hid => ?_⟩
    have hall : (Command.seq (self.persistAll now jds)).Keeps (.job id) :=
      Command.keeps_seq fun c hc => by
        obtain ⟨jd, hjd, hc⟩ := List.mem_flatMap.mp hc
        exact hpersist jd id (fun heq => hid (heq ▸ List.mem_map_of_mem hjd)) c hc
    exact (hall _).trans ((frames_registerCommand (by simp) s₁).1.trans (hkeeps id hid))

/-- A batch leaves all its jobs queued. -/
lemma queued_enqueueMany {jds : List EnqueueData} {r : List Job × Client}
    (hvalid : ∀ jd ∈ jds, jd.Valid) (hdeps : ∀ jd ∈ jds, jd.dependsOn = none)
    (hdistinct : (jds.map EnqueueData.id).Nodup)
    (hfresh : ∀ jd ∈ jds, s.val (.job jd.id) = default)
    (h : (self.enqueueMany (some code) jds none none now fuel).run s = (.ok r, s')) :
    ∀ jd ∈ jds, (s'.val (.job jd.id)).status = some .queued := by
  have hperm : ((uniques jds ++ plains jds).map EnqueueData.id).Nodup :=
    ((perm_uniques_plains jds).map _).nodup_iff.mpr hdistinct
  rw [List.map_append, List.nodup_append, ← map_uniqueNoDeps hdeps, ← map_normalNoDeps hdeps,
    List.map_map, List.map_map] at hperm
  obtain ⟨hnodup, hnodup', hdisjoint⟩ := hperm
  have huniques := @run_enqueueUniques_all self none now s (uniqueNoDeps jds)
    (fun jd hjd => (hvalid _ (mem_uniqueNoDeps hjd).1).accepted)
    (fun jd hjd => hfresh _ (mem_uniqueNoDeps hjd).1) hnodup
  have hsaved := Command.seq_flatMap_establishes (fun jd s => @status_attemptOf self now jd.2 s)
    (pairwise_keeps hnodup fun jd id hne =>
      keeps_attemptOf (by simpa using hne) (by simp) (by simp)) s
  have hok : validate jds = .ok () := validate_ok_iff.mpr fun jd hjd hunique =>
    ⟨(hvalid jd hjd).noDeps hunique, (hvalid jd hjd).hasJobId hunique⟩
  unfold enqueueMany at h
  rw [hok, Prog.ofExcept_ok, Prog.ret_bind, Option.getD_none,
    Client.command_buffer Pipeline.immediate_empty, Prog.ret_bind, Prog.run_bind_ok huniques] at h
  obtain ⟨⟨normals, client⟩, s₃, hnormals, hrest⟩ := Prog.run_bind_eq_ok h
  dsimp only at hrest
  rw [withDeps_eq_nil hdeps, enqueueWithDeps, if_pos rfl, Prog.pure_eq, Prog.ret_bind] at hrest
  obtain ⟨_, s₄, hrebuild, hend⟩ := Prog.run_bind_eq_ok hrest
  obtain ⟨-, hs₄⟩ := Prog.run_ofExcept_eq_ok hrebuild
  have hs' : s' = s₃ := by
    cases hend
    exact hs₄
  rw [hs']
  obtain ⟨hqueued, hkeeps⟩ := queued_enqueueNormalNoDeps hnodup' hnormals
  intro jd hjd
  obtain ⟨i, hi | hi⟩ := exists_mem_noDeps hdeps hjd
  · -- the second pass leaves the unique entries as the first one has saved them
    have hnot : jd.id ∉ (normalNoDeps jds).map fun jd => jd.2.id := fun hmem =>
      hdisjoint _ (List.mem_map_of_mem hi) _ hmem rfl
    exact (congrArg JobHash.status (hkeeps _ hnot)).trans (hsaved _ hi)
  · exact hqueued _ hi

end Sync

/-! ## When a batch equals a loop -/

/-- **A batch equals the loop only on an async queue, in order and if the queue is registered.** -/
theorem equalsLoop_iff (self : Queue) (sync : Option SyncCode) (now : Time) (fuel : ℕ)
    (jds : List EnqueueData) (s : Store) (hdeps : ∀ jd ∈ jds, jd.dependsOn = none)
    (hdistinct : (jds.map EnqueueData.id).Nodup)
    (hfresh : ∀ jd ∈ jds, s.val (.job jd.id) = default) :
    EqualsLoop self sync now fuel jds s ↔
      jds = [] ∨ sync = none ∧ (∀ jd ∈ jds, jd.Valid) ∧ Ordered jds ∧
        ((∃ jd ∈ jds, jd.unique = false) ∨ self.key ∈ s.val .queues) := by
  constructor
  · intro ⟨r, s₁, s₂, hbatch, hloop, hsame⟩
    have hvalid := valid_of_run_enqueueEachCall hdeps hloop
    cases sync with
    | none =>
      obtain ⟨_, hbatch'⟩ := @run_enqueueMany_noDeps self now fuel s jds hvalid hdeps hdistinct hfresh
      have hloop' := @run_enqueueEachCall self now fuel s jds hvalid hdeps hdistinct hfresh
      obtain ⟨-, rfl⟩ := Prod.mk.inj (hbatch.symm.trans hbatch')
      obtain ⟨-, rfl⟩ := Prod.mk.inj (hloop.symm.trans hloop')
      rcases (sameStore_iff hdistinct s).mp hsame with hnil | ⟨hordered, hqueues⟩
      · exact .inl hnil
      · exact .inr ⟨rfl, hvalid, hordered, hqueues⟩
    | some code =>
      refine .inl (List.eq_nil_iff_forall_not_mem.mpr fun jd hjd => ?_)
      -- the batch leaves the job queued, the loop ends it
      have hqueued := queued_enqueueMany hvalid hdeps hdistinct hfresh hbatch jd hjd
      have hended := (ended_enqueueEachCall hdeps hdistinct hloop).1 jd hjd
      rw [(hsame (.job jd.id) (by simp)).1] at hqueued
      exact hended hqueued
  · rintro (rfl | ⟨rfl, hvalid, hordered, hqueues⟩)
    · exact ⟨_, s, s, rfl, rfl, fun _ _ => ⟨rfl, rfl⟩⟩
    · obtain ⟨r, hbatch⟩ := @run_enqueueMany_noDeps self now fuel s jds hvalid hdeps hdistinct hfresh
      have hloop := @run_enqueueEachCall self now fuel s jds hvalid hdeps hdistinct hfresh
      exact ⟨r, _, _, hbatch, hloop, (sameStore_iff hdistinct s).mpr (.inr ⟨hordered, hqueues⟩)⟩

/-! ### Mixed batches -/

def plainEntry : EnqueueData := { jobId := some "plain" }

def uniqueEntry : EnqueueData := { jobId := some "unique", unique := true }

/-- A plain entry for the front of the list, behind the unique one. -/
def frontEntry : EnqueueData := { jobId := some "front", atFront := true }

/-- A queue in which a job waits already. -/
def waitingStore : Store := (push (queueKey "default") false "waiting").run Store.empty

lemma valid_mixed : ∀ jd ∈ [uniqueEntry, frontEntry, plainEntry], jd.Valid := by
  intro jd hjd
  simp only [List.mem_cons, List.not_mem_nil, or_false] at hjd
  have haccepted : jd.Accepted := by
    rcases hjd with rfl | rfl | rfl <;>
      exact ⟨by decide, fun ttl httl => (by cases httl), fun id hid => (by cases hid; decide)⟩
  rcases hjd with rfl | rfl | rfl <;> exact ⟨haccepted, fun _ => rfl, fun _ => by decide⟩

/-- A unique entry and two plain ones, one of them for the front: in this order the batch equals the
loop, with a plain entry before the unique one it does not. -/
theorem equalsLoop_mixed :
    EqualsLoop { name := "default" } none 0 0 [uniqueEntry, frontEntry, plainEntry] waitingStore ∧
    ((Queue.enqueueMany { name := "default" } none [uniqueEntry, frontEntry, plainEntry] none none
      0 0).run waitingStore).2.val (.list (queueKey "default")) =
        ["front", "waiting", "unique", "plain"] ∧
    ¬EqualsLoop { name := "default" } none 0 0 [plainEntry, frontEntry, uniqueEntry]
      waitingStore := by
  have hiff := equalsLoop_iff { name := "default" } none 0 0 [uniqueEntry, frontEntry, plainEntry]
    waitingStore (by decide) (by decide) (by decide)
  have hiff' := equalsLoop_iff { name := "default" } none 0 0 [plainEntry, frontEntry, uniqueEntry]
    waitingStore (by decide) (by decide) (by decide)
  refine ⟨hiff.mpr (.inr ⟨rfl, valid_mixed, ?_, .inl ⟨plainEntry, by simp, rfl⟩⟩), by decide, ?_⟩
  · unfold Ordered
    decide
  · rintro h
    rcases hiff'.mp h with hnil | ⟨-, -, hordered, -⟩
    · cases hnil
    · unfold Ordered at hordered
      revert hordered
      decide

/-- A unique entry overtakes a plain one, does not register its queue, and is pushed instead of run
on a synchronous queue. -/
theorem batch_differs_from_loop :
    ((Queue.enqueueMany { name := "default" } none [plainEntry, uniqueEntry] none none 0 0).run
      Store.empty).2.val (.list (queueKey "default")) = ["unique", "plain"] ∧
    ((Queue.enqueueEachCall { name := "default" } none 0 0 [plainEntry, uniqueEntry]).run
      Store.empty).2.val (.list (queueKey "default")) = ["plain", "unique"] ∧
    ((Queue.enqueueMany { name := "default" } none [uniqueEntry] none none 0 0).run
      Store.empty).2.val .queues = ∅ ∧
    ((Queue.enqueueEachCall { name := "default" } none 0 0 [uniqueEntry]).run
      Store.empty).2.val .queues ≠ ∅ ∧
    ((Queue.enqueueMany { name := "default" } (some {}) [uniqueEntry] none none 0 0).run
      Store.empty).2.val (.list (queueKey "default")) = ["unique"] ∧
    ((Queue.enqueueEachCall { name := "default" } (some {}) 0 0 [uniqueEntry]).run
      Store.empty).2.val (.list (queueKey "default")) = [] :=
  ⟨by decide, by decide, by decide, by decide, by decide, by decide⟩

end Queue
end RedisQueue
