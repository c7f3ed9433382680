import RedisQueue.BatchOrder
import RedisQueue.GroupRuns

/-!
# What a batch returns

`Queue.enqueue_many` on an async queue and without concurrent clients. Its result is rebuilt from
maps that are keyed by the position of an entry, and for the entries with dependencies by the id.

* `run_checkDependencies`, `run_getJobs`: the loop over the jobs with dependencies, alone;
* `run_enqueueWithDeps`: the pass over the entries with dependencies;
* `returnsEach_iff`: when there is one job for each entry.
-/

namespace RedisQueue

open Prog

namespace Queue
variable {self : Queue} {groupId : Option String} {now : Time} {s : Store} {job : Job}
  {pipe : Pipeline Key Value} {fuel : ℕ}

/-! ## The loop over the jobs, alone -/

/-- The verdict on the job once it is registered. -/
def registeredVerdict (job : Job) (now : Time) (s : Store) : Bool :=
  let r := (Command.seq (job.registerCommands now)).run s
  job.statusesAllowedIn r (r.val (.dependencies job.id)).elems

/-- Alone a job is checked once. -/
lemma run_checkDependencies (hids : job.dependencyIds ≠ []) (hwatched : pipe.watched = [])
    (hpipe : pipe.explicitTransaction = false) (s : Store) :
    (checkDependencies job now (fuel + 1) pipe).run s = (.ok [registeredVerdict job now s],
      (Command.seq (job.registerCommands now ++ pipe.commandStack)).run s) := by
  have hunchanged := @unchanged_registered now pipe job hwatched s
  have himmediate := immediate_watching hids hpipe s
  have hregister := @Job.run_registerDependency now _ job himmediate s
  have hmet := @run_dependenciesAreMet_self (watching pipe job.dependencyIds s) job hids hpipe
    ((Command.seq (job.registerCommands now)).run s)
  rw [checkDependencies, Prog.run_bind_ok (run_watch hids hpipe s), Prog.run_bind_ok hregister,
    Prog.run_bind_ok hmet]
  dsimp only
  rw [Option.getD_some, Pipeline.execute_of_watched (by simp [watching, hids]), Prog.exec_bind,
    Prog.run_exec, if_pos hunchanged, Command.seq_append_run]
  rfl

/-- Alone every job is either among those to enqueue or among the others. -/
lemma run_getJobs {ds : List (ℕ × Job)} (hids : ∀ d ∈ ds, d.2.dependencyIds ≠ [])
    (hwatched : pipe.watched = []) (hpipe : pipe.explicitTransaction = false) (s : Store) :
    ∃ met unmet s', (getJobsWithMetDependencies now (fuel + 1) ds pipe).run s =
      (.ok (met, unmet), s') ∧ (met ++ unmet).Perm ds := by
  induction ds generalizing pipe s with
  | nil => exact ⟨[], [], s, rfl, .refl _⟩
  | cons d ds ih =>
    obtain ⟨i, job⟩ := d
    have hhead := @run_checkDependencies now job pipe fuel (hids (i, job) List.mem_cons_self)
      hwatched hpipe s
    obtain ⟨met, unmet, s', hrest, hperm⟩ := @ih {}
      (fun d hd => hids d (List.mem_cons_of_mem _ hd)) rfl rfl
      ((Command.seq (job.registerCommands now ++ pipe.commandStack)).run s)
    have hrun : (getJobsWithMetDependencies now (fuel + 1) ((i, job) :: ds) pipe).run s =
        (.ok (([registeredVerdict job now s].filter id).map (fun _ => (i, job)) ++ met,
          ([registeredVerdict job now s].filter not).map (fun _ => (i, job)) ++ unmet), s') := by
      rw [getJobsWithMetDependencies, Prog.run_bind_ok hhead, Prog.run_bind_ok hrest]
      rfl
    refine ⟨_, _, s', hrun, ?_⟩
    cases registeredVerdict job now s with
    | true => simpa using hperm
    | false => simpa using List.perm_middle.trans (hperm.cons (i, job))

end Queue

/-! ## The pass over the entries with dependencies -/

/-- The job has the function and the arguments of the entry, and its id if it has one. -/
def EnqueueData.MadeInto (jd : EnqueueData) (job : Job) : Prop :=
  job.data = jd.data ∧ ∀ id ∈ jd.jobId, job.id = id

lemma EnqueueData.madeInto_of_id {jd : EnqueueData} {job : Job} (hdata : job.data = jd.data)
    (hid : job.id = jd.id) : jd.MadeInto job :=
  ⟨hdata, fun id h => by rw [hid, EnqueueData.id, Option.mem_def.mp h, Option.getD_some]⟩

namespace Queue
variable {self : Queue} {groupId : Option String} {now : Time} {s : Store}
  {pipe : Pipeline Key Value} {fuel : ℕ} {jds : List (ℕ × EnqueueData)}

/-- The loop over the jobs to enqueue only needs that an index belongs to one job. -/
lemma consistent_nil {ds : List (ℕ × Job)} (hkeys : (ds.map Prod.fst).Nodup) :
    Consistent self now ds [] where
  enqueued := by simp
  same d hd d' hd' heq := by rw [List.inj_on_of_nodup_map hkeys hd hd' heq]

/-- The jobs of the pass are those of the entries, but their indices are those found by id. -/
lemma run_enqueueWithDeps (haccepted : ∀ jd ∈ jds, jd.2.Accepted)
    (hdeps : ∀ jd ∈ jds, jd.2.dependsOn.isSome) (hkeys : (jds.map Prod.fst).Nodup)
    (hwatched : pipe.watched = []) (s : Store) :
    ∃ (results : List (ℕ × Job)) (client : Client) (s' : Store),
      (self.enqueueWithDeps none jds none (some pipe) groupId now (fuel + 1)).run s =
        (.ok (results.map fun d => (idToIdx (self.deferredJobs groupId jds) d.2, d.2), client), s') ∧
      (∀ jd ∈ jds, ∃ d ∈ results, d.2.id = jd.2.id) ∧
      ∀ d ∈ results, ∃ jd, (d.1, jd) ∈ jds ∧ d.2.data = jd.data ∧ d.2.id = jd.id := by
  by_cases hnil : jds = []
  · subst hnil
    exact ⟨[], some pipe, s, rfl, by simp, by simp⟩
  have himmediate : pipe.immediate = false := by simp [Pipeline.immediate, hwatched]
  generalize hds : self.deferredJobs groupId jds = ds
  have hmem : ∀ d ∈ ds, ∃ jd, (d.1, jd) ∈ jds ∧ d.2 = self.newJob jd .deferred groupId :=
    fun d hd => mem_deferredJobs.mp (hds ▸ hd)
  have hids : ∀ d ∈ ds, d.2.dependencyIds ≠ [] := fun d hd => by
    obtain ⟨jd, hjd, hjob⟩ := hmem d hd
    obtain ⟨dependsOn, hdepends⟩ : ∃ dependsOn, jd.dependsOn = some dependsOn :=
      Option.isSome_iff_exists.mp (hdeps _ hjd)
    rw [hjob]
    simpa [newJob, hdepends] using dependsOn.nonempty
  -- the jobs are saved, then checked one after the other
  generalize hstack : pipe.buffer (self.deferredCommands groupId jds) = stack
  have hsave : (stack.execute : Redis Bool).run s =
      (.ok true, (Command.seq stack.commandStack).run s) :=
    Pipeline.run_execute_of_unwatched (by rw [← hstack]; exact hwatched) s
  obtain ⟨met, unmet, s₁, hget, hperm⟩ := @run_getJobs now {} fuel ds hids rfl rfl
    ((Command.seq stack.commandStack).run s)
  have hmet : ∀ d ∈ met, d ∈ ds := fun d hd => hperm.subset (List.mem_append_left _ hd)
  have hkeys' : (met.map Prod.fst).Nodup := by
    have hall : ((met ++ unmet).map Prod.fst).Nodup := by
      rw [(hperm.map Prod.fst).nodup_iff, ← hds, deferredJobs, List.map_map]
      exact hkeys
    rw [List.map_append] at hall
    exact (List.nodup_append.mp hall).1
  have hbuffer := enqueueMet_buffer (@consistent_nil self now met hkeys') Pipeline.immediate_empty
    fun d hd => by
      obtain ⟨jd, hjd, hjob⟩ := hmem d (hmet d hd)
      rw [hjob]
      exact newJob_ttl (haccepted _ hjd)
  generalize hpushes : Pipeline.buffer {} (self.metCommands now met []) = pushes at hbuffer
  have hpush : (pushes.execute : Redis Bool).run s₁ =
      (.ok true, (Command.seq pushes.commandStack).run s₁) :=
    Pipeline.run_execute_of_unwatched (by rw [← hpushes]; rfl) s₁
  refine ⟨(met.map fun d => (d.1, self._prepareForQueue d.2 now)).reverse ++ [] ++ unmet, some {},
    (Command.seq pushes.commandStack).run s₁, ?_, ?_, ?_⟩
  · rw [enqueueWithDeps, if_neg hnil, saveDeferred_ok haccepted himmediate, Prog.ret_bind, hds,
      hstack]
    dsimp only [executeOwn]
    rw [bind_assoc, Option.getD_some, Prog.run_bind_ok hsave, Prog.pure_eq, Prog.ret_bind,
      Option.getD_some, Prog.run_bind_ok hget]
    dsimp only
    rw [hbuffer, Prog.ret_bind]
    dsimp only
    rw [bind_assoc, Option.getD_some, Prog.run_bind_ok hpush]
    rfl
  · intro jd hjd
    have hd : (jd.1, self.newJob jd.2 .deferred groupId) ∈ ds :=
      hds ▸ mem_deferredJobs.mpr ⟨jd.2, hjd, rfl⟩
    rw [List.append_nil]
    rcases List.mem_append.mp (hperm.symm.subset hd) with hd | hd
    · exact ⟨_, List.mem_append_left _ (List.mem_reverse.mpr (List.mem_map_of_mem hd)), rfl⟩
    · exact ⟨_, List.mem_append_right _ hd, rfl⟩
  · intro d hd
    rw [List.append_nil] at hd
    rcases List.mem_append.mp hd with hd | hd
    · obtain ⟨d', hd', rfl⟩ := List.mem_map.mp (List.mem_reverse.mp hd)
      obtain ⟨jd, hjd, hjob⟩ := hmem d' (hmet d' hd')
      exact ⟨jd, hjd, by rw [hjob]; rfl, by rw [hjob]; rfl⟩
    · obtain ⟨jd, hjd, hjob⟩ := hmem d (hperm.subset (List.mem_append_right _ hd))
      exact ⟨jd, hjd, by rw [hjob]; rfl, by rw [hjob]; rfl⟩

/-- The index of an entry is not found if a later entry has its id. -/
lemma idToIdx_ne {deferred before after : List (ℕ × Job)} {a : ℕ × Job} {job : Job}
    (hkeys : (deferred.map Prod.fst).Nodup) (hsplit : deferred = before ++ a :: after)
    (hafter : a.2.id ∈ after.map fun d => d.2.id) (hjob : ∃ d ∈ deferred, d.2.id = job.id) :
    idToIdx deferred job ≠ a.1 := by
  unfold idToIdx
  have ha : a ∈ deferred := by simp [hsplit]
  cases hfind : deferred.reverse.find? fun d => d.2.id == job.id with
  | none =>
    rw [List.find?_eq_none] at hfind
    obtain ⟨d, hd, hid⟩ := hjob
    exact absurd (by simp [hid]) (hfind d (List.mem_reverse.mpr hd))
  | some d =>
    have hd : d ∈ deferred := List.mem_reverse.mp (List.mem_of_find?_eq_some hfind)
    have hid := List.find?_some hfind
    rw [beq_iff_eq] at hid
    intro heq
    obtain rfl : d = a := List.inj_on_of_nodup_map hkeys hd ha heq
    -- the later entry would have been found first
    obtain ⟨d', hd', hid'⟩ := List.mem_map.mp hafter
    rw [hsplit, List.reverse_append, List.reverse_cons, List.append_assoc,
      List.find?_append] at hfind
    cases hlater : after.reverse.find? fun d => d.2.id == job.id with
    | none =>
      rw [List.find?_eq_none] at hlater
      exact hlater d' (List.mem_reverse.mpr hd') (by simp [hid', hid])
    | some x =>
      rw [hlater, Option.some_or, Option.some.injEq] at hfind
      subst hfind
      rw [hsplit, List.map_append, List.map_cons, List.nodup_append, List.nodup_cons] at hkeys
      exact hkeys.2.1.1 (List.mem_map_of_mem
        (List.mem_reverse.mp (List.mem_of_find?_eq_some hlater)))

end Queue

/-! ## The whole batch -/

namespace Queue
variable {self : Queue} {groupId : Option String} {now : Time} {s : Store} {fuel : ℕ}
  {jds : List EnqueueData}

/-- The entries that are not unique and have no dependencies, with the jobs made of them. -/
def normalJobs (self : Queue) (groupId : Option String) (now : Time) (jds : List EnqueueData) :
    List (ℕ × Job) :=
  (normalNoDeps jds).map fun jd =>
    (jd.1, self._prepareForQueue (self.newJob jd.2 .queued groupId) now)

def uniqueJobs (self : Queue) (groupId : Option String) (now : Time) (jds : List EnqueueData) :
    List (ℕ × Job) :=
  (uniqueNoDeps jds).map fun jd => (jd.1, (self.attemptOf groupId now jd.2).job)

/-- A batch whose entries are accepted gets to the point where the result is put together. -/
lemma run_enqueueMany (hvalid : ∀ jd ∈ jds, jd.Valid)
    (hfresh : ∀ jd ∈ jds, jd.unique = true → s.val (.job jd.id) = default)
    (hdistinct : ((jds.filter fun jd => jd.unique).map EnqueueData.id).Nodup) :
    ∃ (results : List (ℕ × Job)) (s' : Store),
      (self.enqueueMany none jds none groupId now (fuel + 1)).run s =
        ((rebuild (self.uniqueJobs groupId now jds ++ self.normalJobs groupId now jds ++
          results.map fun d => (idToIdx (self.deferredJobs groupId (withDeps jds)) d.2, d.2))
            jds.length).map fun jobs => (jobs, none), s') ∧
      (∀ jd ∈ withDeps jds, ∃ d ∈ results, d.2.id = jd.2.id) ∧
      ∀ d ∈ results, ∃ jd, (d.1, jd) ∈ withDeps jds ∧ d.2.data = jd.data ∧ d.2.id = jd.id := by
  have hok : validate jds = .ok () := validate_ok_iff.mpr fun jd hjd hunique =>
    ⟨(hvalid jd hjd).noDeps hunique, (hvalid jd hjd).hasJobId hunique⟩
  have huniques := @run_enqueueUniques_all self groupId now s (uniqueNoDeps jds)
    (fun jd hjd => (hvalid _ (mem_uniqueNoDeps hjd).1).accepted)
    (fun jd hjd => hfresh _ (mem_uniqueNoDeps hjd).1 (mem_uniqueNoDeps hjd).2.1) (by
      refine List.Nodup.sublist ?_ hdistinct
      rw [← map_snd_filter_indexed jds fun jd => jd.unique, List.map_map]
      refine List.Sublist.map _ (List.monotone_filter_right _ fun jd hjd => ?_)
      exact (Bool.and_eq_true_iff.mp hjd).1)
  generalize hs₁ : (Command.seq (self.uniqueCommands groupId now (uniqueNoDeps jds))).run s = s₁
    at huniques
  have hnormals : ∃ pipe s₂, (self.enqueueNormalNoDeps none (normalNoDeps jds) none
      (some self.registering) groupId now).run s₁ =
        (.ok (self.normalJobs groupId now jds, some pipe), s₂) ∧ pipe.watched = [] := by
    by_cases hnil : normalNoDeps jds = []
    · rw [enqueueNormalNoDeps, if_pos hnil, normalJobs, hnil]
      exact ⟨self.registering, s₁, rfl, rfl⟩
    · rw [run_enqueueNormalNoDeps hnil fun jd hjd =>
        (hvalid _ (mem_of_normalNoDeps hjd).1).accepted]
      exact ⟨{}, _, rfl, rfl⟩
  obtain ⟨pipe, s₂, hnormals, hwatched⟩ := hnormals
  obtain ⟨results, client, s', hdeferred, hall, hresults⟩ :=
    @run_enqueueWithDeps self groupId now pipe fuel (withDeps jds)
      (fun jd hjd => (hvalid _ (mem_of_withDeps hjd).1).accepted)
      (fun jd hjd => (mem_of_withDeps hjd).2)
      ((nodup_keys_indexed jds).sublist (List.filter_sublist.map _)) hwatched s₂
  refine ⟨results, s', ?_, hall, hresults⟩
  unfold enqueueMany
  rw [hok, Prog.ofExcept_ok, Prog.ret_bind, Option.getD_none,
    Client.command_buffer Pipeline.immediate_empty, Prog.ret_bind, Prog.run_bind_ok huniques,
    Prog.run_bind_ok (by exact hnormals)]
  dsimp only
  rw [Prog.run_bind_ok hdeferred]
  dsimp only
  rw [uniqueJobs]
  generalize rebuild _ jds.length = rebuilt
  cases rebuilt with
  | ok jobs => rfl
  | error e => rfl

/-- The batch returns one job for each entry, in their order. -/
def ReturnsEach (self : Queue) (jds : List EnqueueData) (groupId : Option String) (now : Time)
    (fuel : ℕ) (s : Store) : Prop :=
  ∃ jobs s', (self.enqueueMany none jds none groupId now fuel).run s = (.ok (jobs, none), s') ∧
    List.Forall₂ EnqueueData.MadeInto jds jobs

lemma map_withDeps (jds : List EnqueueData) : (withDeps jds).map (fun jd => jd.2.id) =
    (jds.filter fun jd => jd.dependsOn.isSome).map EnqueueData.id := by
  rw [← map_snd_filter_indexed jds fun jd => jd.dependsOn.isSome, List.map_map]
  rfl

/-- Every job is found at the position of its entry. -/
lemma rebuild_distinct {results : List (ℕ × Job)}
    (hdistinct : ((withDeps jds).map fun jd => jd.2.id).Nodup)
    (hall : ∀ jd ∈ withDeps jds, ∃ d ∈ results, d.2.id = jd.2.id)
    (hresults : ∀ d ∈ results, ∃ jd, (d.1, jd) ∈ withDeps jds ∧ d.2.data = jd.data ∧
      d.2.id = jd.id) :
    ∃ jobs, rebuild (self.uniqueJobs groupId now jds ++ self.normalJobs groupId now jds ++
      results.map fun d => (idToIdx (self.deferredJobs groupId (withDeps jds)) d.2, d.2))
        jds.length = .ok jobs ∧ List.Forall₂ EnqueueData.MadeInto jds jobs := by
  have hids : ((self.deferredJobs groupId (withDeps jds)).map fun d => d.2.id).Nodup := by
    rw [deferredJobs, List.map_map]
    exact hdistinct
  have hfound : ∀ jd ∈ withDeps jds, ∀ job : Job, job.id = jd.2.id →
      idToIdx (self.deferredJobs groupId (withDeps jds)) job = jd.1 := fun jd hjd job hid =>
    idToIdx_of_mem hids (List.mem_map_of_mem hjd) hid
  refine rebuild_forall₂ (fun i hi => ?_) fun d hd => ?_
  · obtain ⟨jd, hjd, rfl⟩ := List.mem_map.mp (mem_keys_indexed jds i hi)
    rw [List.map_append, List.map_append, List.mem_append, List.mem_append, uniqueJobs, normalJobs,
      List.map_map, List.map_map]
    rcases mem_passes hjd with hjd | hjd | hjd
    · exact .inl (.inl (List.mem_map.mpr ⟨jd, hjd, rfl⟩))
    · exact .inl (.inr (List.mem_map.mpr ⟨jd, hjd, rfl⟩))
    · obtain ⟨d, hd, hid⟩ := hall jd hjd
      exact .inr (List.mem_map.mpr ⟨_, List.mem_map_of_mem hd, hfound jd hjd _ hid⟩)
  · rw [uniqueJobs, normalJobs] at hd
    rcases List.mem_append.mp hd with hd | hd
    · rcases List.mem_append.mp hd with hd | hd
      · obtain ⟨jd, hjd, rfl⟩ := List.mem_map.mp hd
        exact ⟨jd.2, (List.mem_filter.mp hjd).1, EnqueueData.madeInto_of_id rfl rfl⟩
      · obtain ⟨jd, hjd, rfl⟩ := List.mem_map.mp hd
        exact ⟨jd.2, (List.mem_filter.mp hjd).1, EnqueueData.madeInto_of_id rfl rfl⟩
    · obtain ⟨d', hd', rfl⟩ := List.mem_map.mp hd
      obtain ⟨jd, hjd, hdata, hid⟩ := hresults d' hd'
      refine ⟨jd, ?_, EnqueueData.madeInto_of_id hdata hid⟩
      rw [hfound _ hjd _ hid]
      exact (List.mem_filter.mp hjd).1

lemma rebuild_error {resultMap : List (ℕ × Job)} {n i : ℕ} (hi : i < n)
    (hkey : i ∉ resultMap.map Prod.fst) : ∃ e, rebuild resultMap n = .error e := by
  have hat : ∃ e, resultAt resultMap i = .error e := by
    unfold resultAt
    cases hlookup : resultMap.lookup i with
    | none => exact ⟨_, rfl⟩
    | some job =>
      obtain ⟨before, after, rfl, -⟩ := List.lookup_eq_some_iff.mp hlookup
      exact absurd (by simp) hkey
  have hlist : ∀ is : List ℕ, i ∈ is → ∃ e, is.mapM (resultAt resultMap) = .error e := fun is => by
    induction is with
    | nil => exact fun h => absurd h (List.not_mem_nil)
    | cons k is ih =>
      intro hmem
      rw [List.mapM_cons]
      cases hk : resultAt resultMap k with
      | error e => exact ⟨e, rfl⟩
      | ok job =>
        have hne : i ≠ k := by
          rintro rfl
          obtain ⟨e, he⟩ := hat
          rw [he] at hk
          cases hk
        obtain ⟨e, he⟩ := ih ((List.mem_cons.mp hmem).resolve_left hne)
        exact ⟨e, by rw [he]; rfl⟩
  exact hlist _ (List.mem_range.mpr hi)

/-- The entries with one index are one entry. -/
lemma indexed_inj {jd jd' : ℕ × EnqueueData} (h : jd ∈ indexed jds) (h' : jd' ∈ indexed jds)
    (heq : jd.1 = jd'.1) : jd = jd' :=
  List.inj_on_of_nodup_map (nodup_keys_indexed jds) h h' heq

/-- The entry before the last one with its id has no job. -/
lemma rebuild_repeated {results : List (ℕ × Job)}
    (hrepeated : ¬((withDeps jds).map fun jd => jd.2.id).Nodup)
    (hresults : ∀ d ∈ results, ∃ jd, (d.1, jd) ∈ withDeps jds ∧ d.2.data = jd.data ∧
      d.2.id = jd.id) :
    ∃ e, rebuild (self.uniqueJobs groupId now jds ++ self.normalJobs groupId now jds ++
      results.map fun d => (idToIdx (self.deferredJobs groupId (withDeps jds)) d.2, d.2))
        jds.length = .error e := by
  obtain ⟨before, a, after, hsplit, hafter⟩ := exists_split_of_not_nodup hrepeated
  have ha : a ∈ withDeps jds := by simp [hsplit]
  obtain ⟨haindexed, hadeps⟩ := List.mem_filter.mp ha
  have hlt : a.1 < jds.length := by
    obtain ⟨⟨jd, i⟩, hmem, rfl⟩ := List.mem_map.mp haindexed
    exact (List.getElem?_eq_some_iff.mp (List.mem_zipIdx_iff_getElem?.mp hmem)).1
  refine rebuild_error hlt fun hkey => ?_
  rw [List.map_append, List.map_append, List.mem_append, List.mem_append, uniqueJobs, normalJobs,
    List.map_map, List.map_map, List.map_map] at hkey
  -- the other passes are about entries without dependencies
  have hnodeps : ∀ jd ∈ indexed jds, jd.1 = a.1 → jd.2.dependsOn ≠ none := by
    intro jd hjd heq hnone
    rw [← indexed_inj hjd haindexed heq, hnone] at hadeps
    cases hadeps
  rcases hkey with (hkey | hkey) | hkey
  · obtain ⟨jd, hjd, heq⟩ := List.mem_map.mp hkey
    exact hnodeps jd (List.mem_filter.mp hjd).1 heq (mem_uniqueNoDeps hjd).2.2
  · obtain ⟨jd, hjd, heq⟩ := List.mem_map.mp hkey
    exact hnodeps jd (List.mem_filter.mp hjd).1 heq (mem_of_normalNoDeps hjd).2.2
  · obtain ⟨d, hd, heq⟩ := List.mem_map.mp hkey
    obtain ⟨jd, hjd, -, hid⟩ := hresults d hd
    have hkeys : ((self.deferredJobs groupId (withDeps jds)).map Prod.fst).Nodup := by
      rw [deferredJobs, List.map_map]
      exact (nodup_keys_indexed jds).sublist (List.filter_sublist.map _)
    have hdeferred : self.deferredJobs groupId (withDeps jds) =
        self.deferredJobs groupId before ++ (a.1, self.newJob a.2 .deferred groupId) ::
          self.deferredJobs groupId after := by
      rw [hsplit, deferredJobs, List.map_append, List.map_cons]
      rfl
    refine idToIdx_ne hkeys hdeferred ?_ ⟨_, List.mem_map_of_mem hjd, hid.symm⟩ heq
    rw [deferredJobs, List.map_map]
    exact hafter

/-- **A batch returns one job for each entry exactly when no two entries with dependencies have the
same id.** -/
theorem returnsEach_iff (self : Queue) (groupId : Option String) (now : Time) (fuel : ℕ)
    (hvalid : ∀ jd ∈ jds, jd.Valid)
    (hfresh : ∀ jd ∈ jds, jd.unique = true → s.val (.job jd.id) = default)
    (hdistinct : ((jds.filter fun jd => jd.unique).map EnqueueData.id).Nodup) :
    self.ReturnsEach jds groupId now (fuel + 1) s ↔
      ((jds.filter fun jd => jd.dependsOn.isSome).map EnqueueData.id).Nodup := by
  obtain ⟨results, s', hrun, hall, hresults⟩ :=
    @run_enqueueMany self groupId now s fuel jds hvalid hfresh hdistinct
  rw [← map_withDeps]
  constructor
  · rintro ⟨jobs, s'', hjobs, -⟩
    by_contra hrepeated
    obtain ⟨e, he⟩ := @rebuild_repeated self groupId now jds results hrepeated hresults
    rw [hrun, he] at hjobs
    cases hjobs
  · intro hnodup
    obtain ⟨jobs, hjobs, hmade⟩ :=
      @rebuild_distinct self groupId now jds results hnodup hall hresults
    exact ⟨jobs, s', by rw [hrun, hjobs]; rfl, hmade⟩

/-- An entry with the id `id` that depends on the job `parent`. -/
def dependentEntry (id parent : JobId) : EnqueueData where
  jobId := some id
  dependsOn := some { dependencies := [parent], nonempty := by simp }

lemma valid_dependentEntry {id parent : JobId} (hid : jobIdPattern id = true) :
    (dependentEntry id parent).Valid where
  accepted := ⟨by simp [dependentEntry], by simp [dependentEntry], by simpa [dependentEntry] using hid⟩
  noDeps h := by cases h
  hasJobId h := by cases h

lemma valid_plainEntry : plainEntry.Valid where
  accepted := ⟨by simp [plainEntry], by simp [plainEntry], by
    have hid : jobIdPattern "plain" = true := by decide
    simpa [plainEntry] using hid⟩
  noDeps h := by cases h
  hasJobId h := by cases h

/-- A plain entry twice, and two entries that depend on its job. -/
theorem returnsEach_mixed : ReturnsEach { name := "default" }
    [plainEntry, dependentEntry "b" "plain", plainEntry, dependentEntry "c" "plain"] none 0 1
      Store.empty := by
  refine (returnsEach_iff { name := "default" } none 0 0 ?_ ?_ ?_).mpr (by decide)
  · intro jd hjd
    simp only [List.mem_cons, List.not_mem_nil, or_false] at hjd
    rcases hjd with rfl | rfl | rfl | rfl
    · exact valid_plainEntry
    · exact valid_dependentEntry (by decide)
    · exact valid_plainEntry
    · exact valid_dependentEntry (by decide)
  · intro jd hjd hunique
    rfl
  · decide

/-- The batch with one entry twice does not return. -/
theorem repeated_not_returned :
    (∀ jd ∈ [dependentEntry "b" "a", dependentEntry "b" "a"], jd.Valid ∧ jd.unique = false) ∧
      ¬ReturnsEach { name := "default" } [dependentEntry "b" "a", dependentEntry "b" "a"] none 0 1
        Store.empty := by
  constructor
  · intro jd hjd
    have heq : jd = dependentEntry "b" "a" := by simpa using hjd
    rw [heq]
    exact ⟨valid_dependentEntry (by decide), rfl⟩
  · rintro ⟨jobs, s', hrun, -⟩
    have herror : ((enqueueMany { name := "default" } none
        [dependentEntry "b" "a", dependentEntry "b" "a"] none none 0 1).run Store.empty).1.isOk =
          false := by decide +kernel
    rw [hrun] at herror
    cases herror

end Queue

end RedisQueue
