import RedisQueue.BatchTheorems
import RedisQueue.DependencyChecks

/-!
# Running the batch of a group

What a run of `Group.enqueue_many` on an async queue performs, whatever the number of conflicts.

* `run_refused`: the call raises, and some unique entries have been saved;
* `run_accepted`: the call returns, after the commands of `restCommands`.
-/

namespace RedisQueue

open Prog

namespace Queue
variable {self : Queue} {name : String} {groupId : Option String} {now : Time} {s s' : Store}
  {pipe : Pipeline Key Value} {fuel : ℕ} {os : List Bool}

/-! ## The passes on the pipeline of the group -/

/-- The jobs of the entries with dependencies, as they are saved. -/
def deferredJobs (self : Queue) (groupId : Option String) (jds : List (ℕ × EnqueueData)) :
    List (ℕ × Job) :=
  jds.map fun jd => (jd.1, self.newJob jd.2 .deferred groupId)

/-- The commands that save them. -/
def deferredCommands (self : Queue) (groupId : Option String) (jds : List (ℕ × EnqueueData)) :
    List (Command Key Value) :=
  jds.map fun jd => hset jd.2.id ((self.newJob jd.2 .deferred groupId).toDict true)

lemma saveDeferred_ok {jds : List (ℕ × EnqueueData)} (h : ∀ jd ∈ jds, jd.2.Accepted)
    (hpipe : pipe.immediate = false) :
    self.saveDeferred groupId jds (some pipe) =
      .ret (self.deferredJobs groupId jds,
        some (pipe.buffer (self.deferredCommands groupId jds))) := by
  induction jds generalizing pipe with
  | nil => simp [saveDeferred, deferredJobs, deferredCommands]
  | cons jd jds ih =>
    obtain ⟨i, jd⟩ := jd
    have hjd : jd.Accepted := h (i, jd) List.mem_cons_self
    have hrest := @ih (pipe.buffer [hset jd.id ((self.newJob jd .deferred groupId).toDict true)])
      (fun jd hmem => h jd (List.mem_cons_of_mem _ hmem)) hpipe
    have hsave := @Job.save_buffer pipe hpipe (self.newJob jd .deferred groupId) true
    have hid : (self.newJob jd .deferred groupId).id = jd.id := rfl
    rw [hid] at hsave
    simp only [saveDeferred, createJob_ok hjd, Prog.ofExcept_ok, Prog.ret_bind, hsave, hrest,
      Prog.pure_eq, Pipeline.buffer_buffer]
    rfl

lemma enqueueNormals_error {jds : List (ℕ × EnqueueData)} (h : ¬∀ jd ∈ jds, jd.2.Accepted)
    (hpipe : pipe.immediate = false) :
    ∃ msg, self.enqueueNormals none groupId now jds (some pipe) = .throw (.valueError msg) := by
  induction jds generalizing pipe with
  | nil => exact absurd (by simp) h
  | cons jd jds ih =>
    obtain ⟨i, jd⟩ := jd
    rw [enqueueNormals]
    by_cases hjd : jd.Accepted
    · have hrest : ¬∀ jd ∈ jds, jd.2.Accepted := fun hall => h (by simpa [hjd] using hall)
      obtain ⟨msg, hmsg⟩ := @ih (pipe.buffer
        (enqueueCommands self (self.newJob jd .queued groupId) jd.atFront now)) hrest hpipe
      refine ⟨msg, ?_⟩
      simp only [createJob_ok hjd, _enqueueJobOn, Prog.ofExcept_ok, Prog.ret_bind,
        Queue.enqueueJob_buffer hpipe self (newJob_ttl hjd), hmsg, Prog.throw_bind]
    · obtain ⟨msg, hmsg⟩ := @createJob_error self jd .queued groupId hjd
      exact ⟨msg, by rw [hmsg, Prog.ofExcept_error, Prog.throw_bind]⟩

lemma saveDeferred_error {jds : List (ℕ × EnqueueData)} (h : ¬∀ jd ∈ jds, jd.2.Accepted)
    (hpipe : pipe.immediate = false) :
    ∃ msg, self.saveDeferred groupId jds (some pipe) = .throw (.valueError msg) := by
  induction jds generalizing pipe with
  | nil => exact absurd (by simp) h
  | cons jd jds ih =>
    obtain ⟨i, jd⟩ := jd
    rw [saveDeferred]
    by_cases hjd : jd.Accepted
    · have hrest : ¬∀ jd ∈ jds, jd.2.Accepted := fun hall => h (by simpa [hjd] using hall)
      obtain ⟨msg, hmsg⟩ := @ih (pipe.buffer
        [hset (self.newJob jd .deferred groupId).id
          ((self.newJob jd .deferred groupId).toDict true)]) hrest hpipe
      refine ⟨msg, ?_⟩
      simp only [createJob_ok hjd, Prog.ofExcept_ok, Prog.ret_bind, Job.save_buffer hpipe, hmsg,
        Prog.throw_bind]
    · obtain ⟨msg, hmsg⟩ := @createJob_error self jd .deferred groupId hjd
      exact ⟨msg, by rw [hmsg, Prog.ofExcept_error, Prog.throw_bind]⟩

lemma unguarded_enqueueUniques (jds : List (ℕ × EnqueueData)) :
    (self.enqueueUniques groupId now jds).Unguarded fun _ => True := by
  induction jds with
  | nil => trivial
  | cons jd jds ih =>
    obtain ⟨i, jd⟩ := jd
    rw [enqueueUniques, unguarded_bind, unguarded_ofExcept]
    intro job _
    rw [unguarded_bind]
    intro s
    dsimp only
    split
    · exact unguarded_bind.mpr (ih.mono fun _ _ => trivial)
    · trivial

/-! ## The jobs that are returned -/

/-- The jobs are returned in the order of the entries. -/
lemma rebuild_forall₂ {R : EnqueueData → Job → Prop} {jds : List EnqueueData}
    {resultMap : List (ℕ × Job)} (hkeys : ∀ i < jds.length, i ∈ resultMap.map Prod.fst)
    (hmap : ∀ d ∈ resultMap, ∃ jd, (d.1, jd) ∈ indexed jds ∧ R jd d.2) :
    ∃ jobs, rebuild resultMap jds.length = .ok jobs ∧ List.Forall₂ R jds jobs := by
  have hlist : ∀ is : List (ℕ × EnqueueData), (∀ x ∈ is, x ∈ indexed jds) →
      ∃ jobs, (is.map Prod.fst).mapM (resultAt resultMap) = .ok jobs ∧
        List.Forall₂ R (is.map Prod.snd) jobs := fun is his => by
    induction is with
    | nil => exact ⟨[], rfl, .nil⟩
    | cons x is ih =>
      obtain ⟨i, jd⟩ := x
      obtain ⟨jobs, hjobs, hrest⟩ := ih fun x hx => his x (List.mem_cons_of_mem _ hx)
      have hx : (i, jd) ∈ indexed jds := his (i, jd) List.mem_cons_self
      have hget : ∀ {jd}, (i, jd) ∈ indexed jds → jds[i]? = some jd := fun {jd} h => by
        obtain ⟨⟨jd', i'⟩, hmem, heq⟩ := List.mem_map.mp h
        cases heq
        exact List.mem_zipIdx_iff_getElem?.mp hmem
      have hi : i < jds.length := (List.getElem?_eq_some_iff.mp (hget hx)).1
      obtain ⟨job, hjob⟩ := resultAt_ok (hkeys i hi)
      have hR : R jd job := by
        unfold resultAt at hjob
        split at hjob
        · next job' hlookup =>
          cases hjob
          obtain ⟨before, after, rfl, -⟩ := List.lookup_eq_some_iff.mp hlookup
          obtain ⟨jd', hjd', hR⟩ := hmap (i, job) (by simp)
          rwa [Option.some.inj ((hget hjd').symm.trans (hget hx))] at hR
        · cases hjob
      refine ⟨job :: jobs, ?_, .cons hR hrest⟩
      rw [List.map_cons, List.mapM_cons, hjob, hjobs]
      rfl
  have hrange : List.range jds.length = (indexed jds).map Prod.fst := by
    rw [indexed, List.map_map, List.range_eq_range', ← List.zipIdx_map_snd 0 jds]
    rfl
  obtain ⟨jobs, hjobs, hall⟩ := hlist (indexed jds) fun _ h => h
  have hsnd : (indexed jds).map Prod.snd = jds := by
    rw [indexed, List.map_map]
    exact List.zipIdx_map_fst 0 jds
  rw [hsnd] at hall
  exact ⟨jobs, by rw [rebuild, hrange, hjobs], hall⟩

lemma rebuild_ids {jds : List EnqueueData} {resultMap : List (ℕ × Job)}
    (hkeys : ∀ i < jds.length, i ∈ resultMap.map Prod.fst)
    (hids : ∀ d ∈ resultMap, ∃ jd, (d.1, jd) ∈ indexed jds ∧ d.2.id = jd.id) :
    ∃ jobs, rebuild resultMap jds.length = .ok jobs ∧
      jobs.map Job.id = jds.map EnqueueData.id := by
  obtain ⟨jobs, hjobs, hall⟩ :=
    @rebuild_forall₂ (fun jd job => job.id = jd.id) jds resultMap hkeys hids
  refine ⟨jobs, hjobs, ?_⟩
  clear hjobs hkeys hids
  induction hall with
  | nil => rfl
  | cons hid _ ih => rw [List.map_cons, List.map_cons, hid, ih]

/-! ## The entries with dependencies -/

lemma map_job_verdicts {ds : List (ℕ × Job)} {ns : List ℕ} (hlength : ns.length = ds.length)
    (stack : List (Command Key Value)) (s : Store) :
    (verdicts now ds ns stack s).map Verdict.job = ds := by
  induction ds generalizing ns stack s with
  | nil =>
    obtain rfl := List.eq_nil_of_length_eq_zero hlength
    rfl
  | cons d ds ih =>
    match ns with
    | [] => cases hlength
    | n :: ns => rw [verdicts, List.map_cons, ih (Nat.succ.inj hlength)]

/-- The verdicts on the entries, in a store `s` with `stack` in the pipeline. -/
def checked (self : Queue) (groupId : Option String) (now : Time) (jds : List (ℕ × EnqueueData))
    (ns : List ℕ) (stack : List (Command Key Value)) (s : Store) : List Verdict :=
  verdicts now (self.deferredJobs groupId jds) ns (stack ++ self.deferredCommands groupId jds) s

/-- The commands of the pass over the entries with dependencies, with what it leaves in the
pipeline. -/
def dependentCommands (self : Queue) (groupId : Option String) (now : Time)
    (jds : List (ℕ × EnqueueData)) (ns : List ℕ) (stack : List (Command Key Value)) (s : Store) :
    List (Command Key Value) :=
  if jds = [] then stack
  else
    checkAll now (self.deferredJobs groupId jds) ns (stack ++ self.deferredCommands groupId jds) ++
      self.metCommands now (copies (self.checked groupId now jds ns stack s) true) []

lemma mem_deferredJobs {jds : List (ℕ × EnqueueData)} {d : ℕ × Job} :
    d ∈ self.deferredJobs groupId jds ↔
      ∃ jd, (d.1, jd) ∈ jds ∧ d.2 = self.newJob jd .deferred groupId := by
  constructor
  · intro h
    obtain ⟨jd, hjd, rfl⟩ := List.mem_map.mp h
    exact ⟨jd.2, hjd, rfl⟩
  · rintro ⟨jd, hjd, hd⟩
    exact List.mem_map.mpr ⟨_, hjd, by rw [← hd]⟩

/-- The index of a job of the batch. -/
lemma idToIdx_of_mem {deferred : List (ℕ × Job)} (hdistinct : (deferred.map fun d => d.2.id).Nodup)
    {d : ℕ × Job} (hd : d ∈ deferred) {job : Job} (hid : job.id = d.2.id) :
    idToIdx deferred job = d.1 := by
  unfold idToIdx
  cases hfind : deferred.reverse.find? fun d => d.2.id == job.id with
  | none =>
    rw [List.find?_eq_none] at hfind
    exact absurd (by simp [hid]) (hfind d (List.mem_reverse.mpr hd))
  | some d' =>
    have hmem : d' ∈ deferred := List.mem_reverse.mp (List.mem_of_find?_eq_some hfind)
    have hid' : d'.2.id = d.2.id := by
      have hbeq := List.find?_some hfind
      rw [beq_iff_eq] at hbeq
      rw [hbeq, hid]
    have heq : d' = d := List.inj_on_of_nodup_map hdistinct hmem hd hid'
    rw [heq]
    rfl

/-- The copies of the jobs are jobs of the batch. -/
lemma mem_of_mem_copies {ds : List (ℕ × Job)} {ns : List ℕ} (hlength : ns.length = ds.length)
    {stack : List (Command Key Value)} {met : Bool} {d : ℕ × Job}
    (h : d ∈ copies (verdicts now ds ns stack s) met) : d ∈ ds := by
  obtain ⟨v, hv, -, rfl⟩ := mem_copies.mp h
  rw [← map_job_verdicts hlength stack s]
  exact List.mem_map_of_mem hv

lemma mem_copies_or {ds : List (ℕ × Job)} {ns : List ℕ} (hlength : ns.length = ds.length)
    {stack : List (Command Key Value)} {d : ℕ × Job} (h : d ∈ ds) :
    d ∈ copies (verdicts now ds ns stack s) true ∨
      d ∈ copies (verdicts now ds ns stack s) false := by
  rw [← map_job_verdicts hlength stack s] at h
  obtain ⟨v, hv, rfl⟩ := List.mem_map.mp h
  cases hmet : v.met with
  | true => exact .inl (mem_copies.mpr ⟨v, hv, hmet, rfl⟩)
  | false => exact .inr (mem_copies.mpr ⟨v, hv, hmet, rfl⟩)

section Dependent
variable {jds : List (ℕ × EnqueueData)} {ns : List ℕ} {stack : List (Command Key Value)}

lemma consistent_copies (hkeys : (jds.map Prod.fst).Nodup) (hlength : ns.length = jds.length) :
    Consistent self now (copies (self.checked groupId now jds ns stack s) true) [] where
  enqueued := by simp
  same := by
    have hlength' : ns.length = (self.deferredJobs groupId jds).length := by
      rw [hlength, deferredJobs, List.length_map]
    intro d hd d' hd' heq
    obtain ⟨jd, hjd, hjob⟩ := mem_deferredJobs.mp (mem_of_mem_copies hlength' hd)
    obtain ⟨jd', hjd', hjob'⟩ := mem_deferredJobs.mp (mem_of_mem_copies hlength' hd')
    have hsame : (d.1, jd) = (d'.1, jd') := List.inj_on_of_nodup_map hkeys hjd hjd' heq
    rw [hjob, hjob', (Prod.mk.inj hsame).2]

/-- The dependencies of the entries are checked with their jobs in the pipeline. -/
lemma runOutcomes_checked (hdeps : ∀ jd ∈ jds, jd.2.dependsOn.isSome)
    (hdistinct : (jds.map fun jd => jd.2.id).Nodup) (hlength : ns.length = jds.length)
    (hfuel : ∀ n ∈ ns, n < fuel) (hwatched : pipe.watched = [])
    (hpipe : pipe.explicitTransaction = false)
    (hkeeps : ∀ jd ∈ jds, (Command.seq pipe.commandStack).Keeps (.dependencies jd.2.id))
    (hfresh : ∀ jd ∈ jds, s.val (.dependencies jd.2.id) = default) :
    (getJobsWithMetDependencies now fuel (self.deferredJobs groupId jds)
        (pipe.buffer (self.deferredCommands groupId jds))).runOutcomes (outcomes ns ++ os) s =
      (.ok (copies (self.checked groupId now jds ns pipe.commandStack s) true,
          copies (self.checked groupId now jds ns pipe.commandStack s) false),
        (Command.seq (checkAll now (self.deferredJobs groupId jds) ns
          (pipe.commandStack ++ self.deferredCommands groupId jds))).run s, os) := by
  unfold checked
  rw [← Pipeline.buffer_commandStack]
  refine runOutcomes_getJobs ?_ ?_ hfuel (by simpa using hwatched) (by simpa using hpipe) ?_ ?_ ?_
  · rw [hlength, deferredJobs, List.length_map]
  · intro d hd
    obtain ⟨jd, hjd, hjob⟩ := mem_deferredJobs.mp hd
    obtain ⟨dependsOn, hdepends⟩ : ∃ dependsOn, jd.dependsOn = some dependsOn :=
      Option.isSome_iff_exists.mp (hdeps _ hjd)
    rw [hjob]
    simpa [newJob, hdepends] using dependsOn.nonempty
  · intro d hd s
    obtain ⟨jd, hjd, hjob⟩ := mem_deferredJobs.mp hd
    have hsaves : (Command.seq (self.deferredCommands groupId jds)).Keeps
        (.dependencies d.2.id) := Command.keeps_seq fun c hc => by
      obtain ⟨jd, -, rfl⟩ := List.mem_map.mp hc
      exact Command.keeps_write (by simp)
    rw [Pipeline.buffer_commandStack, Command.seq_append_run, hsaves, hjob]
    exact hkeeps _ hjd s
  · rw [deferredJobs, List.map_map]
    exact hdistinct
  · intro d hd id hid
    obtain ⟨jd, hjd, hjob⟩ := mem_deferredJobs.mp hd
    have hempty : s.val (.dependencies d.2.id) = default := by
      rw [hjob]
      exact hfresh _ hjd
    rw [hempty] at hid
    exact absurd hid (RSet.notMem_empty id)

/-- The jobs of the pass, with the indices that `id_to_idx` has for them. -/
def reindexed (self : Queue) (now : Time) (ds met unmet : List (ℕ × Job)) : List (ℕ × Job) :=
  ((met.map fun d => (d.1, self._prepareForQueue d.2 now)).reverse ++ unmet).map
    fun d => (idToIdx ds d.2, d.2)

section Reindexed
variable {ds met unmet : List (ℕ × Job)}

/-- A job that has been prepared again is still the job of its entry. -/
lemma mem_reindexed (hids : (ds.map fun d => d.2.id).Nodup)
    (hor : ∀ d ∈ ds, d ∈ met ∨ d ∈ unmet) {d : ℕ × Job} (hd : d ∈ ds) :
    d.1 ∈ (self.reindexed now ds met unmet).map Prod.fst := by
  rw [reindexed, List.map_append, List.map_append, List.mem_append]
  rcases hor d hd with hd' | hd'
  · refine .inl (List.mem_map.mpr ⟨_, List.mem_map_of_mem (List.mem_reverse.mpr
      (List.mem_map_of_mem hd')), ?_⟩)
    exact idToIdx_of_mem hids hd rfl
  · refine .inr (List.mem_map.mpr ⟨_, List.mem_map_of_mem hd', ?_⟩)
    exact idToIdx_of_mem hids hd rfl

lemma exists_of_reindexed (hids : (ds.map fun d => d.2.id).Nodup) (hmet : ∀ d ∈ met, d ∈ ds)
    (hunmet : ∀ d ∈ unmet, d ∈ ds) {d : ℕ × Job}
    (hd : d ∈ self.reindexed now ds met unmet) : ∃ d' ∈ ds, d.2.id = d'.2.id ∧ d.1 = d'.1 := by
  rw [reindexed, List.map_append, List.mem_append] at hd
  rcases hd with hd | hd
  · obtain ⟨x, hx, rfl⟩ := List.mem_map.mp hd
    obtain ⟨d', hd', rfl⟩ := List.mem_map.mp (List.mem_reverse.mp hx)
    exact ⟨d', hmet d' hd', rfl, idToIdx_of_mem hids (hmet d' hd') rfl⟩
  · obtain ⟨d', hd', rfl⟩ := List.mem_map.mp hd
    exact ⟨d', hunmet d' hd', rfl, idToIdx_of_mem hids (hunmet d' hd') rfl⟩

end Reindexed

/-- The pass over the entries with dependencies. What is left in the pipeline is executed with the
command `c` that comes next. -/
theorem runOutcomes_enqueueWithDeps (haccepted : ∀ jd ∈ jds, jd.2.Accepted)
    (hdeps : ∀ jd ∈ jds, jd.2.dependsOn.isSome) (hkeys : (jds.map Prod.fst).Nodup)
    (hdistinct : (jds.map fun jd => jd.2.id).Nodup) (hlength : ns.length = jds.length)
    (hfuel : ∀ n ∈ ns, n < fuel) (hwatched : pipe.watched = [])
    (hpipe : pipe.explicitTransaction = false)
    (hkeeps : ∀ jd ∈ jds, (Command.seq pipe.commandStack).Keeps (.dependencies jd.2.id))
    (hfresh : ∀ jd ∈ jds, s.val (.dependencies jd.2.id) = default) :
    ∃ deferred pipe' s',
      (self.enqueueWithDeps none jds (some {}) (some pipe) groupId now fuel).runOutcomes
        (outcomes ns ++ os) s = (.ok (deferred, some pipe'), s', os) ∧
      pipe'.watched = [] ∧ pipe'.explicitTransaction = false ∧
      (∀ c, (Command.seq (pipe'.commandStack ++ [c])).run s' = (Command.seq
        (self.dependentCommands groupId now jds ns pipe.commandStack s ++ [c])).run s) ∧
      (∀ jd ∈ jds, jd.1 ∈ deferred.map Prod.fst) ∧
      ∀ d ∈ deferred, ∃ jd, (d.1, jd) ∈ jds ∧ d.2.id = jd.id := by
  by_cases hnil : jds = []
  · subst hnil
    obtain rfl := List.eq_nil_of_length_eq_zero hlength
    refine ⟨[], pipe, s, rfl, hwatched, hpipe, ?_, by simp, by simp⟩
    simp [dependentCommands]
  · have himmediate : pipe.immediate = false := by simp [Pipeline.immediate, hwatched]
    have hjobs := @runOutcomes_checked self groupId now s pipe fuel os jds ns hdeps hdistinct
      hlength hfuel hwatched hpipe hkeeps hfresh
    have hconsistent := @consistent_copies self groupId now s jds ns pipe.commandStack hkeys hlength
    have hlength' : ns.length = (self.deferredJobs groupId jds).length := by
      rw [hlength, deferredJobs, List.length_map]
    have hids : ((self.deferredJobs groupId jds).map fun d => d.2.id).Nodup := by
      rw [deferredJobs, List.map_map]
      exact hdistinct
    have hmet : ∀ d ∈ copies (self.checked groupId now jds ns pipe.commandStack s) true,
        d ∈ self.deferredJobs groupId jds := fun d hd => mem_of_mem_copies hlength' hd
    have hunmet : ∀ d ∈ copies (self.checked groupId now jds ns pipe.commandStack s) false,
        d ∈ self.deferredJobs groupId jds := fun d hd => mem_of_mem_copies hlength' hd
    have hor : ∀ d ∈ self.deferredJobs groupId jds,
        d ∈ copies (self.checked groupId now jds ns pipe.commandStack s) true ∨
        d ∈ copies (self.checked groupId now jds ns pipe.commandStack s) false :=
      fun d hd => mem_copies_or hlength' hd
    have hcommands : ∀ c, (Command.seq (self.dependentCommands groupId now jds ns
        pipe.commandStack s ++ [c])).run s = (Command.seq (self.metCommands now
          (copies (self.checked groupId now jds ns pipe.commandStack s) true) [] ++ [c])).run
            ((Command.seq (checkAll now (self.deferredJobs groupId jds) ns
              (pipe.commandStack ++ self.deferredCommands groupId jds))).run s) := fun c => by
      rw [dependentCommands, if_neg hnil, List.append_assoc, Command.seq_append_run]
    generalize copies (self.checked groupId now jds ns pipe.commandStack s) true = met at *
    generalize copies (self.checked groupId now jds ns pipe.commandStack s) false = unmet at *
    have hbuffer := enqueueMet_buffer hconsistent Pipeline.immediate_empty fun d hd => by
      obtain ⟨jd, hjd, hjob⟩ := mem_deferredJobs.mp (hmet d hd)
      rw [hjob]
      exact newJob_ttl (haccepted _ hjd)
    rw [List.append_nil] at hbuffer
    refine ⟨self.reindexed now (self.deferredJobs groupId jds) met unmet,
      Pipeline.buffer {} (self.metCommands now met []), _, ?_, rfl, rfl,
      fun c => (hcommands c).symm, fun jd hjd => ?_, fun d hd => ?_⟩
    · rw [enqueueWithDeps, if_neg hnil, saveDeferred_ok haccepted himmediate, Prog.ret_bind]
      dsimp only [executeOwn]
      rw [Prog.pure_eq, Prog.ret_bind, Option.getD_some, Prog.runOutcomes_bind_ok hjobs]
      dsimp only
      rw [hbuffer, Prog.ret_bind]
      dsimp only
      rw [Prog.pure_eq, Prog.ret_bind]
      rfl
    · have hd : (jd.1, self.newJob jd.2 .deferred groupId) ∈ self.deferredJobs groupId jds :=
        mem_deferredJobs.mpr ⟨jd.2, hjd, rfl⟩
      exact mem_reindexed hids hor hd
    · obtain ⟨d', hd', hid, hindex⟩ := exists_of_reindexed hids hmet hunmet hd
      obtain ⟨jd, hjd, hjob⟩ := mem_deferredJobs.mp hd'
      refine ⟨jd, hindex ▸ hjd, ?_⟩
      rw [hid, hjob]
      rfl

end Dependent

/-! ## The whole batch -/

/-- The entries have different ids, of which the store knows nothing. -/
structure FreshBatch (name : String) (jds : List EnqueueData) (s : Store) : Prop where
  nonempty : jds ≠ []
  distinct : (jds.map EnqueueData.id).Nodup
  hash : ∀ jd ∈ jds, s.val (.job jd.id) = default
  dependencies : ∀ jd ∈ jds, s.val (.dependencies jd.id) = default
  group : ∀ jd ∈ jds, jd.id ∉ s.val (.group name)

/-- `SADD rq:group:<name>` -/
def memberCommand (name : String) (ids : List JobId) : Command Key Value :=
  .alter (.group name) fun g => ids.foldl RSet.insert g

/-- What is in the pipeline when the entries with dependencies are saved. -/
def pendingCommands (self : Queue) (groupId : Option String) (now : Time)
    (jds : List EnqueueData) : List (Command Key Value) :=
  self.registering.commandStack ++ self.normalCommands groupId now (normalNoDeps jds)

/-- The commands after the unique entries, which have left `s`. -/
def restCommands (self : Queue) (groupId : Option String) (now : Time) (jds : List EnqueueData)
    (ns : List ℕ) (s : Store) : List (Command Key Value) :=
  self.dependentCommands groupId now (withDeps jds) ns (self.pendingCommands groupId now jds) s

section Batch
variable {jds : List EnqueueData} {ns : List ℕ}

lemma nodup_keys_indexed (jds : List EnqueueData) : ((indexed jds).map Prod.fst).Nodup := by
  have hrange : (indexed jds).map Prod.fst = List.range jds.length := by
    rw [indexed, List.map_map, List.range_eq_range', ← List.zipIdx_map_snd 0 jds]
    rfl
  rw [hrange]
  exact List.nodup_range

lemma nodup_ids_filter (h : (jds.map EnqueueData.id).Nodup) (p : ℕ × EnqueueData → Bool) :
    (((indexed jds).filter p).map fun jd => jd.2.id).Nodup := by
  rw [← map_indexed jds EnqueueData.id] at h
  exact h.sublist (List.filter_sublist.map _)

lemma mem_of_withDeps {jd : ℕ × EnqueueData} (h : jd ∈ withDeps jds) :
    jd.2 ∈ jds ∧ jd.2.dependsOn.isSome := by
  obtain ⟨hmem, hdeps⟩ := List.mem_filter.mp h
  exact ⟨mem_of_indexed hmem, hdeps⟩

lemma mem_of_normalNoDeps {jd : ℕ × EnqueueData} (h : jd ∈ normalNoDeps jds) :
    jd.2 ∈ jds ∧ jd.2.unique = false ∧ jd.2.dependsOn = none := by
  obtain ⟨hmem, hplain⟩ := List.mem_filter.mp h
  rw [Bool.and_eq_true, Option.isNone_iff_eq_none, Bool.not_eq_eq_eq_not, Bool.not_true] at hplain
  exact ⟨mem_of_indexed hmem, hplain⟩

/-- Every entry belongs to one of the passes. -/
lemma mem_passes {jd : ℕ × EnqueueData} (h : jd ∈ indexed jds) :
    jd ∈ uniqueNoDeps jds ∨ jd ∈ normalNoDeps jds ∨ jd ∈ withDeps jds := by
  simp only [uniqueNoDeps, normalNoDeps, withDeps, List.mem_filter, h, true_and]
  cases jd.2.dependsOn with
  | none => cases jd.2.unique <;> simp
  | some dependsOn => simp

lemma keeps_normalCommands (nds : List (ℕ × EnqueueData)) (id : JobId) :
    (Command.seq (self.normalCommands groupId now nds)).Keeps (.dependencies id) :=
  Command.keeps_seq fun c hc => by
    obtain ⟨jd, -, hc⟩ := List.mem_flatMap.mp hc
    intro s
    cases enqueueCommand_of_mem hc <;> simp

lemma enqueueNormalNoDeps_caller {nds : List (ℕ × EnqueueData)} {caller : Pipeline Key Value}
    (h : ∀ jd ∈ nds, jd.2.Accepted) (hpipe : pipe.immediate = false) :
    self.enqueueNormalNoDeps none nds (some caller) (some pipe) groupId now =
      .ret (nds.map fun jd => (jd.1, self._prepareForQueue (self.newJob jd.2 .queued groupId) now),
        some (pipe.buffer (self.normalCommands groupId now nds))) := by
  unfold enqueueNormalNoDeps
  by_cases hnil : nds = []
  · subst hnil
    simp [normalCommands]
  · rw [if_neg hnil, enqueueNormals_ok h hpipe]
    rfl

/-- **A batch whose entries are all accepted is enqueued and added to the group.** -/
theorem run_accepted (hvalid : ∀ jd ∈ jds, jd.Valid) (hfresh : FreshBatch name jds s)
    (hlength : ns.length = (withDeps jds).length) (hfuel : ∀ n ∈ ns, n < fuel) :
    ∃ jobs, jobs.map Job.id = jds.map EnqueueData.id ∧
      (Group.enqueueMany name self none jds now fuel).runOutcomes (outcomes ns) s =
        (.ok jobs, (Command.seq (self.uniqueCommands (some name) now (uniqueNoDeps jds) ++
          (self.restCommands (some name) now jds ns
            ((Command.seq (self.uniqueCommands (some name) now (uniqueNoDeps jds))).run s) ++
          [memberCommand name (jds.map EnqueueData.id)]))).run s, []) := by
  have hok : validate jds = .ok () := validate_ok_iff.mpr fun jd hjd hunique =>
    ⟨(hvalid jd hjd).noDeps hunique, (hvalid jd hjd).hasJobId hunique⟩
  have huniques := @run_enqueueUniques_all self (some name) now s (uniqueNoDeps jds)
    (fun jd hjd => (hvalid _ (mem_uniqueNoDeps hjd).1).accepted)
    (fun jd hjd => hfresh.hash _ (mem_uniqueNoDeps hjd).1) (nodup_ids_filter hfresh.distinct _)
  generalize hs₁ : (Command.seq (self.uniqueCommands (some name) now (uniqueNoDeps jds))).run s =
    s₁ at huniques ⊢
  have hnormals := @enqueueNormalNoDeps_caller self (some name) now self.registering
    (normalNoDeps jds) {} (fun jd hjd => (hvalid _ (mem_of_normalNoDeps hjd).1).accepted)
    (by simp [registering])
  obtain ⟨deferred, pipe', s', hdeferred, hwatched, htransaction, hend, hkeys, hids⟩ :=
    @runOutcomes_enqueueWithDeps self (some name) now s₁
      (self.registering.buffer (self.normalCommands (some name) now (normalNoDeps jds))) fuel []
      (withDeps jds) ns (fun jd hjd => (hvalid _ (mem_of_withDeps hjd).1).accepted)
      (fun jd hjd => (mem_of_withDeps hjd).2)
      ((nodup_keys_indexed jds).sublist (List.filter_sublist.map _))
      (nodup_ids_filter hfresh.distinct _) hlength hfuel rfl rfl
      (fun jd _ s => by
        rw [Pipeline.buffer_commandStack, Command.seq_append_run, keeps_normalCommands]
        simp [registering])
      (fun jd hjd => by
        rw [← hs₁, keeps_uniqueCommands (by simp) (by simp) (by simp)]
        exact hfresh.dependencies _ (mem_of_withDeps hjd).1)
  obtain ⟨jobs, hjobs, hmap⟩ := @rebuild_ids jds
    ((uniqueNoDeps jds).map (fun jd => (jd.1, (self.attemptOf (some name) now jd.2).job)) ++
      (normalNoDeps jds).map (fun jd =>
        (jd.1, self._prepareForQueue (self.newJob jd.2 .queued (some name)) now)) ++ deferred)
    (fun i hi => by
      obtain ⟨jd, hjd, rfl⟩ := List.mem_map.mp (mem_keys_indexed jds i hi)
      rw [List.map_append, List.map_append, List.map_map, List.map_map, List.mem_append,
        List.mem_append]
      rcases mem_passes hjd with hjd | hjd | hjd
      · exact .inl (.inl (List.mem_map.mpr ⟨jd, hjd, rfl⟩))
      · exact .inl (.inr (List.mem_map.mpr ⟨jd, hjd, rfl⟩))
      · exact .inr (hkeys jd hjd))
    (fun d hd => by
      rcases List.mem_append.mp hd with hd | hd
      · rcases List.mem_append.mp hd with hd | hd
        · obtain ⟨jd, hjd, rfl⟩ := List.mem_map.mp hd
          exact ⟨jd.2, (List.mem_filter.mp hjd).1, rfl⟩
        · obtain ⟨jd, hjd, rfl⟩ := List.mem_map.mp hd
          exact ⟨jd.2, (List.mem_filter.mp hjd).1, rfl⟩
      · obtain ⟨jd, hjd, hid⟩ := hids d hd
        exact ⟨jd, (List.mem_filter.mp hjd).1, hid⟩)
  refine ⟨jobs, hmap, ?_⟩
  have hnormals' := congrArg (fun p => p.runOutcomes (outcomes ns) s₁) hnormals
  have hne : jds.map EnqueueData.id ≠ [] := by simpa using hfresh.nonempty
  have himmediate : pipe'.immediate = false := by simp [Pipeline.immediate, hwatched]
  rw [List.append_nil] at hdeferred
  unfold Group.enqueueMany enqueueMany
  rw [hok, Prog.ofExcept_ok, Prog.ret_bind, Option.getD_some,
    Client.command_buffer Pipeline.immediate_empty, Prog.ret_bind, bind_assoc,
    Prog.runOutcomes_bind_unguarded (unguarded_enqueueUniques _) huniques, bind_assoc,
    Prog.runOutcomes_bind_ok (by exact hnormals')]
  dsimp only
  rw [bind_assoc, Prog.runOutcomes_bind_ok hdeferred]
  dsimp only
  rw [hjobs, Prog.ofExcept_ok, Prog.ret_bind, Option.isSome_some, if_pos rfl, Prog.pure_eq,
    Prog.ret_bind]
  dsimp only
  rw [hmap, Option.getD_some, Group.addJobs, if_neg hne, Pipeline.command_eq_buffer himmediate,
    Prog.ret_bind, Pipeline.execute_of_unwatched (by simpa using hwatched) (by simp)]
  have hstore := hend (memberCommand name (jds.map EnqueueData.id))
  rw [Pipeline.buffer_commandStack] at hstore
  rw [Command.seq_append_run, hs₁, restCommands, pendingCommands, ← hstore]
  rfl

lemma enqueueNormalNoDeps_error {nds : List (ℕ × EnqueueData)} {caller : Client}
    (h : ¬∀ jd ∈ nds, jd.2.Accepted) (hpipe : pipe.immediate = false) :
    ∃ msg, self.enqueueNormalNoDeps none nds caller (some pipe) groupId now =
      .throw (.valueError msg) := by
  obtain ⟨msg, hmsg⟩ := @enqueueNormals_error self groupId now pipe nds h hpipe
  have hnil : nds ≠ [] := by
    rintro rfl
    exact h (by simp)
  exact ⟨msg, by rw [enqueueNormalNoDeps, if_neg hnil, hmsg, Prog.throw_bind]⟩

lemma enqueueWithDeps_error {dds : List (ℕ × EnqueueData)} {caller : Client}
    (h : ¬∀ jd ∈ dds, jd.2.Accepted) (hpipe : pipe.immediate = false) :
    ∃ msg, self.enqueueWithDeps none dds caller (some pipe) groupId now fuel =
      .throw (.valueError msg) := by
  obtain ⟨msg, hmsg⟩ := @saveDeferred_error self groupId pipe dds h hpipe
  have hnil : dds ≠ [] := by
    rintro rfl
    exact h (by simp)
  exact ⟨msg, by rw [enqueueWithDeps, if_neg hnil, hmsg, Prog.throw_bind]⟩

lemma run_enqueueUniques_append {before after : List (ℕ × EnqueueData)} {jobs : List (ℕ × Job)}
    {s₁ : Store} {e : PyError}
    (hbefore : (self.enqueueUniques groupId now before).run s = (.ok jobs, s₁))
    (hafter : (self.enqueueUniques groupId now after).run s₁ = (.error e, s')) :
    (self.enqueueUniques groupId now (before ++ after)).run s = (.error e, s') := by
  induction before generalizing s jobs with
  | nil =>
    cases hbefore
    exact hafter
  | cons jd before ih =>
    obtain ⟨i, jd⟩ := jd
    rw [enqueueUniques] at hbefore
    obtain ⟨job, s₂, hjob, hbefore⟩ := Prog.run_bind_eq_ok hbefore
    obtain ⟨_, s₃, hsave, hbefore⟩ := Prog.run_bind_eq_ok hbefore
    obtain ⟨jobs', s₄, hrest, hbefore⟩ := Prog.run_bind_eq_ok hbefore
    cases hbefore
    rw [List.cons_append, enqueueUniques, Prog.run_bind_ok hjob, Prog.run_bind_ok hsave,
      Prog.run_bind_error (ih hrest)]

/-- The call raises before it has saved anything. -/
def RefusedFirst (jds : List EnqueueData) : Prop :=
  validate jds ≠ .ok () ∨
    (¬∀ jd ∈ jds, jd.Accepted) ∧ ∀ jd ∈ (uniqueNoDeps jds).head?, ¬jd.2.Accepted

/-- **A batch that is refused leaves unique entries that it has saved.** -/
theorem run_refused (hfresh : FreshBatch name jds s)
    (h : validate jds ≠ .ok () ∨ ¬∀ jd ∈ jds, jd.Accepted) :
    ∃ msg before, (∀ jd ∈ before, jd ∈ uniqueNoDeps jds) ∧
      (before.map fun jd => jd.2.id).Nodup ∧ (before = [] ↔ RefusedFirst jds) ∧
      (Group.enqueueMany name self none jds now fuel).runOutcomes os s =
        (.error (.valueError msg),
          (Command.seq (self.uniqueCommands (some name) now before)).run s, os) := by
  by_cases hvalid : validate jds = .ok ()
  · have haccepted : ¬∀ jd ∈ jds, jd.Accepted := h.resolve_left (not_not_intro hvalid)
    have hfirst : RefusedFirst jds ↔ ∀ jd ∈ (uniqueNoDeps jds).head?, ¬jd.2.Accepted := by
      simp [RefusedFirst, hvalid, haccepted]
    have hnodup : ((uniqueNoDeps jds).map fun jd => jd.2.id).Nodup :=
      nodup_ids_filter hfresh.distinct _
    unfold Group.enqueueMany enqueueMany
    rw [hfirst, hvalid, Prog.ofExcept_ok, Prog.ret_bind, Option.getD_some,
      Client.command_buffer Pipeline.immediate_empty, Prog.ret_bind, bind_assoc]
    by_cases huniques : ∀ jd ∈ uniqueNoDeps jds, jd.2.Accepted
    · have hrun := @run_enqueueUniques_all self (some name) now s (uniqueNoDeps jds) huniques
        (fun jd hjd => hfresh.hash _ (mem_uniqueNoDeps hjd).1) hnodup
      have hiff : uniqueNoDeps jds = [] ↔ ∀ jd ∈ (uniqueNoDeps jds).head?, ¬jd.2.Accepted := by
        cases hjds : uniqueNoDeps jds with
        | nil => simp
        | cons jd rest => simpa using huniques jd (hjds ▸ List.mem_cons_self)
      by_cases hnormals : ∀ jd ∈ normalNoDeps jds, jd.2.Accepted
      · have hdeps : ¬∀ jd ∈ withDeps jds, jd.2.Accepted := fun hdeps => haccepted fun jd hjd => by
          obtain ⟨i, hi⟩ := exists_mem_indexed hjd
          rcases mem_passes hi with hi | hi | hi
          · exact huniques _ hi
          · exact hnormals _ hi
          · exact hdeps _ hi
        obtain ⟨msg, hmsg⟩ := @enqueueWithDeps_error self (some name) now
          (self.registering.buffer (self.normalCommands (some name) now (normalNoDeps jds))) fuel
          (withDeps jds) (some {}) hdeps (by simp [registering])
        have hok := congrArg (fun p => p.runOutcomes os
          ((Command.seq (self.uniqueCommands (some name) now (uniqueNoDeps jds))).run s))
          (@enqueueNormalNoDeps_caller self (some name) now self.registering (normalNoDeps jds) {}
            hnormals (by simp [registering]))
        refine ⟨msg, uniqueNoDeps jds, fun _ h => h, hnodup, hiff, ?_⟩
        rw [Prog.runOutcomes_bind_unguarded (unguarded_enqueueUniques _) hrun, bind_assoc,
          Prog.runOutcomes_bind_ok (by exact hok)]
        dsimp only
        rw [hmsg, Prog.throw_bind, Prog.throw_bind]
        rfl
      · obtain ⟨msg, hmsg⟩ := @enqueueNormalNoDeps_error self (some name) now self.registering
          (normalNoDeps jds) (some {}) hnormals (by simp [registering])
        have herror := congrArg (fun p => p.runOutcomes os
          ((Command.seq (self.uniqueCommands (some name) now (uniqueNoDeps jds))).run s)) hmsg
        refine ⟨msg, uniqueNoDeps jds, fun _ h => h, hnodup, hiff, ?_⟩
        rw [Prog.runOutcomes_bind_unguarded (unguarded_enqueueUniques _) hrun, bind_assoc,
          Prog.runOutcomes_bind_error (by exact herror)]
    · obtain ⟨before, jd, after, hsplit, hbefore, hjd⟩ := exists_first_not huniques
      rw [hsplit, List.map_append, List.nodup_append] at hnodup
      have hmem : ∀ x ∈ before, x ∈ uniqueNoDeps jds := fun x hx => hsplit ▸ List.mem_append_left _ hx
      obtain ⟨msg, hmsg⟩ := @createJob_error self jd.2 .queued (some name) hjd
      have hall := @run_enqueueUniques_all self (some name) now s before hbefore
        (fun jd hjd => hfresh.hash _ (mem_uniqueNoDeps (hmem jd hjd)).1) hnodup.1
      have hrun := @run_enqueueUniques_append self (some name) now s _ before (jd :: after) _ _ _
        hall (by rw [enqueueUniques, hmsg, Prog.ofExcept_error, Prog.throw_bind, Prog.run_throw])
      have houtcomes := Prog.runOutcomes_of_unguarded
        (@unguarded_enqueueUniques self (some name) now (uniqueNoDeps jds)) os s
      rw [hsplit, hrun, ← hsplit] at houtcomes
      refine ⟨msg, before, hmem, hnodup.1, ?_, by rw [Prog.runOutcomes_bind_error houtcomes]⟩
      rw [hsplit]
      cases before with
      | nil => simpa using hjd
      | cons x before => simpa using hbefore x List.mem_cons_self
  · obtain ⟨msg, hmsg⟩ := validate_error hvalid
    refine ⟨msg, [], by simp, by simp, by simp [RefusedFirst, hvalid], ?_⟩
    unfold Group.enqueueMany enqueueMany
    rw [hmsg, Prog.ofExcept_error, Prog.throw_bind, Prog.throw_bind]
    rfl

end Batch

end Queue

end RedisQueue
