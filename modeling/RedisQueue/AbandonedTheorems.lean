import RedisQueue.FailureTheorems
import RedisQueue.ReleaseEffects

/-!
# The clean-up of abandoned jobs

`StartedJobRegistry.cleanup` run alone on any store.

* `run_handleAbandoned`: what the handling of one job does, and when it raises (`Quiet`);
* `run_cleanupRecorded`: which jobs the whole clean-up handles, which entries it removes, and when it
  raises.
-/

namespace RedisQueue

open Prog

/-! ## What later handling depends on -/

/-- Two hashes that the handling of abandoned jobs cannot tell apart. -/
structure SameView (h h' : JobHash) : Prop where
  data : h'.data.isSome = h.data.isSome
  origin : h'.origin.getD "" = h.origin.getD ""
  failureCallbackName : h'.failureCallbackName.join = h.failureCallbackName.join
  retriesLeft : h'.retriesLeft = h.retriesLeft
  retryIntervals : h'.retryIntervals = h.retryIntervals
  failureTtl : h'.failureTtl = h.failureTtl
  groupId : h'.groupId.join = h.groupId.join
  dependencyIds : h'.dependencyIds.getD [] = h.dependencyIds.getD []
  status : h.status.isSome → h'.status.isSome
  missing : h' = default ↔ h = default

lemma SameView.refl (h : JobHash) : SameView h h :=
  ⟨rfl, rfl, rfl, rfl, rfl, rfl, rfl, rfl, fun hs => hs, Iff.rfl⟩

lemma SameView.trans {h h' h'' : JobHash} (a : SameView h h') (b : SameView h' h'') :
    SameView h h'' where
  data := b.data.trans a.data
  origin := b.origin.trans a.origin
  failureCallbackName := b.failureCallbackName.trans a.failureCallbackName
  retriesLeft := b.retriesLeft.trans a.retriesLeft
  retryIntervals := b.retryIntervals.trans a.retryIntervals
  failureTtl := b.failureTtl.trans a.failureTtl
  groupId := b.groupId.trans a.groupId
  dependencyIds := b.dependencyIds.trans a.dependencyIds
  status hs := b.status (a.status hs)
  missing := b.missing.trans a.missing

/-- The store has changed only where later handling does not look, apart from the dependents of
`ids`, some of which may have been released. -/
structure Calm (ids : List JobId) (now : Time) (s s' : Store) : Prop where
  view : ∀ id, SameView (s.val (.job id)) (s'.val (.job id))
  dependents : ∀ id ∉ ids, s'.val (.dependents id) = s.val (.dependents id)
  fewer : ∀ id, ∀ d ∈ s'.val (.dependents id), d ∈ s.val (.dependents id)
  executions : ∀ id, ExecutionRegistry.executionsIn s' id now =
    ExecutionRegistry.executionsIn s id now
  group : ∀ g, s'.val (.group g) = s.val (.group g)
  wip : ∀ name, s'.val (.wip name) = s.val (.wip name)

variable {now : Time} {ids ids' : List JobId} {s s' s'' : Store}

lemma Calm.refl (s : Store) : Calm [] now s s :=
  ⟨fun _ => .refl _, fun _ _ => rfl, fun _ _ h => h, fun _ => rfl, fun _ => rfl, fun _ => rfl⟩

lemma Calm.trans (h : Calm ids now s s') (h' : Calm ids' now s' s'') :
    Calm (ids ++ ids') now s s'' where
  view id := (h.view id).trans (h'.view id)
  dependents id hid := by
    rw [List.mem_append, not_or] at hid
    exact (h'.dependents id hid.2).trans (h.dependents id hid.1)
  fewer id d hd := h.fewer id d (h'.fewer id d hd)
  executions id := (h'.executions id).trans (h.executions id)
  group g := (h'.group g).trans (h.group g)
  wip name := (h'.wip name).trans (h.wip name)

lemma Calm.mono (h : Calm ids now s s') (hids : ids ⊆ ids') : Calm ids' now s s' :=
  { h with dependents := fun id hid => h.dependents id fun hmem => hid (hids hmem) }

/-- The keys that later handling looks at. -/
def Looked : Key → Prop
  | .job _ | .dependents _ | .executions _ | .execution _ _ | .group _ | .wip _ => True
  | _ => False

lemma Calm.of_val (h : ∀ k, Looked k → s'.val k = s.val k) : Calm [] now s s' where
  view id := by rw [h (.job id) trivial]; exact .refl _
  dependents id _ := h (.dependents id) trivial
  fewer id d hd := by rwa [h (.dependents id) trivial] at hd
  executions id := by
    unfold ExecutionRegistry.executionsIn
    rw [h (.executions id) trivial,
      ExecutionRegistry.readAllIn_congr fun eid => h (.execution id eid) trivial]
  group g := h (.group g) trivial
  wip name := h (.wip name) trivial

lemma Calm.of_trimmed {id : JobId} (h : Job.Trimmed id now s s') : Calm [] now s s' where
  view id' := by rw [h.val (by simp)]; exact .refl _
  dependents id' _ := h.val (by simp)
  fewer id' d hd := by rwa [h.val (by simp)] at hd
  executions id' := by
    by_cases hid : id' = id
    · subst hid
      exact h.executionsIn
    · unfold ExecutionRegistry.executionsIn
      rw [h.val (by simpa using hid), ExecutionRegistry.readAllIn_congr fun eid => h.val (by simp)]
  group g := h.val (by simp)
  wip name := h.val (by simp)

/-! ## What the immediate commands do to it -/

/-- Two jobs that the handling of abandoned jobs cannot tell apart. -/
structure Agree (job job' : Job) : Prop where
  id : job'.id = job.id
  origin : job'.origin = job.origin
  failureCallbackName : job'.failureCallbackName = job.failureCallbackName
  retriesLeft : job'.retriesLeft = job.retriesLeft
  retryIntervals : job'.retryIntervals = job.retryIntervals
  failureTtl : job'.failureTtl = job.failureTtl
  groupId : job'.groupId = job.groupId
  dependencyIds : job'.dependencyIds = job.dependencyIds

/-- Hashes that look the same give jobs that look the same. -/
lemma SameView.agree {h h' : JobHash} (hv : SameView h h') {id : JobId} {job job' : Job}
    (hr : Job.restore id h = .ok job) (hr' : Job.restore id h' = .ok job') : Agree job job' := by
  unfold Job.restore at hr hr'
  split at hr
  · cases hr
  split at hr'
  · cases hr'
  cases hr
  cases hr'
  exact ⟨rfl, hv.origin, hv.failureCallbackName, hv.retriesLeft, hv.retryIntervals, hv.failureTtl, hv.groupId,
    hv.dependencyIds⟩

/-- Hashes that both have data look the same if they agree on the rest. -/
lemma sameView_status {h : JobHash} (hd : h.data.isSome) (status : JobStatus) :
    SameView h (h.update { status := some status }) where
  data := by simp [JobHash.update]
  origin := by simp [JobHash.update]
  failureCallbackName := by simp [JobHash.update]
  retriesLeft := by simp [JobHash.update]
  retryIntervals := by simp [JobHash.update]
  failureTtl := by simp [JobHash.update]
  groupId := by simp [JobHash.update]
  dependencyIds := by simp [JobHash.update]
  status _ := by simp [JobHash.update]
  missing := iff_of_false (ne_default_of_data (by simpa [JobHash.update] using hd))
    (ne_default_of_data hd)

/-- Saving a job that agrees with what its hash was when the job was fetched. -/
lemma sameView_toDict {h₀ h : JobHash} (hv : SameView h₀ h) {id : JobId} {job job' : Job}
    (hr : Job.restore id h₀ = .ok job) (ha : Agree job job') :
    SameView h (h.update (job'.toDict true)) := by
  obtain ⟨current, hcurrent⟩ := Job.exists_restore id (h := h)
    (by rw [hv.data]; exact Job.restore_isSome hr)
  have hagree := hv.agree hr hcurrent
  have hd : h.data.isSome := Job.restore_isSome hcurrent
  have hd' : (h.update (job'.toDict true)).data.isSome := rfl
  unfold Job.restore at hcurrent
  split at hcurrent
  · cases hcurrent
  cases hcurrent
  exact {
    data := by rw [hd, hd']
    origin := by
      have horigin := ha.origin.trans hagree.origin.symm
      simp only [JobHash.update, Job.toDict, horigin]
      by_cases hempty : h.origin.getD "" = "" <;> simp [hempty]
    failureCallbackName := ha.failureCallbackName.trans hagree.failureCallbackName.symm
    retriesLeft := orElse_of_eq hagree.retriesLeft ha.retriesLeft
    retryIntervals := orElse_of_eq hagree.retryIntervals ha.retryIntervals
    failureTtl := orElse_of_eq hagree.failureTtl ha.failureTtl
    groupId := ha.groupId.trans hagree.groupId.symm
    dependencyIds := by
      have hids := ha.dependencyIds.trans hagree.dependencyIds.symm
      simp only [JobHash.update, Job.toDict, hids]
      by_cases hnil : h.dependencyIds.getD [] = [] <;> simp [hnil]
    status := fun _ => rfl
    missing := iff_of_false (ne_default_of_data hd') (ne_default_of_data hd) }

lemma calm_hset {id : JobId} {mapping : JobHash}
    (hv : SameView (s.val (.job id)) ((s.val (.job id)).update mapping)) :
    Calm [] now s ((hset id mapping).run s) where
  view id' := by
    by_cases hid : id' = id
    · subst hid
      simpa using hv
    · simp only [val_hset, ne_eq, Key.job.injEq, hid, not_false_eq_true, Function.update_of_ne]
      exact .refl _
  dependents id' _ := by simp
  fewer id' d hd := by simpa using hd
  executions id' := by
    unfold ExecutionRegistry.executionsIn
    rw [ExecutionRegistry.readAllIn_congr (s := s) fun eid => by simp]
    simp
  group g := by simp
  wip name := by simp

lemma calm_forget (t : Store) (id : JobId) (jobs : List Job) (u : Store) :
    Calm [id] now t ((Queue.forgetCommand u id jobs).run t) := by
  have hother : ∀ k, k ≠ .dependents id →
      ((Queue.forgetCommand u id jobs).run t).val k = t.val k := fun k hk => by
    unfold Queue.forgetCommand
    split <;> simp [hk]
  refine ⟨fun id' => ?_, fun id' hid => hother _ ?_, fun id' d hd => ?_, fun id' => ?_,
    fun g => hother _ (by simp), fun name => hother _ (by simp)⟩
  · rw [hother _ (by simp)]
    exact .refl _
  · simpa using hid
  · by_cases hid : id' = id
    · subst hid
      unfold Queue.forgetCommand at hd
      split at hd
      · simp [RSet.mem_def] at hd
      · simp only [Command.val_alter, Function.update_self, RSet.mem_eraseAll] at hd
        exact hd.1
    · rwa [hother _ (by simpa using hid)] at hd
  · unfold ExecutionRegistry.executionsIn
    rw [hother _ (by simp), ExecutionRegistry.readAllIn_congr fun eid => hother _ (by simp)]

/-- The release of dependents leaves the others as they were. -/
lemma calm_release (queue : Queue) {job : Job} {excludeJobId : Option JobId} {refresh : Bool}
    {r : List Job × Job} (hr : Queue.releaseIn s job excludeJobId refresh = .ok r) :
    Calm [job.id] now s ((Command.seq (queue.releaseAll s job.id r.1 now)).run s) := by
  have hcommands : Calm [] now s ((Command.seq (queue.releaseCommands r.1 now)).run s) := by
    refine Command.seq_preserves (P := Calm [] now s) (fun c hc t ht => ?_) (.refl s)
    obtain ⟨d, hd, hc⟩ := Queue.mem_releaseCommands hc
    obtain ⟨-, -, hok⟩ := Queue.mem_of_releaseIn hr hd
    have hview := ht.view d.id
    have hdata : (t.val (.job d.id)).data.isSome := by
      rw [hview.data]
      exact Job.restore_isSome hok
    rcases hc with rfl | hc
    · exact ht.trans (.of_val fun k hk => by cases k <;> simp_all [Looked])
    · cases hc with
      | undefer => exact ht.trans (.of_val fun k hk => by cases k <;> simp_all [Looked])
      | status => exact ht.trans (calm_hset (sameView_status hdata _))
      | save =>
        exact ht.trans (calm_hset (sameView_toDict hview hok
          ⟨rfl, Queue.queueFor_name queue d, rfl, rfl, rfl, rfl, rfl, rfl⟩))
      | expire k' t' => exact ht.trans (.of_val fun k hk => by simp)
      | push atFront => exact ht.trans (.of_val fun k hk => by cases k <;> simp_all [Looked])
  unfold Queue.releaseAll
  split
  · exact (Calm.refl s).mono (List.nil_subset _)
  · rw [Command.seq_append_run, Command.seq_cons_run, Command.seq_nil_run]
    exact hcommands.trans (calm_forget _ _ _ _)

/-! ## When the handling of a job raises -/

/-- Every execution that is listed and has not expired can be fetched. -/
def ExecutionsReadable (now : Time) (s : Store) (id : JobId) : Prop :=
  ∀ eid ∈ (s.val (.executions id)).removeRange (0 : ℤ) now,
    (s.val (.execution id eid)).createdAt.isSome ∧
      (s.val (.execution id eid)).lastHeartbeat.isSome

/-- Every dependent that exists can be fetched and has dependencies to watch. -/
def DependentsReadable (s : Store) (id : JobId) : Prop :=
  ∀ d ∈ s.val (.dependents id), s.val (.job d) ≠ default →
    (s.val (.job d)).data.isSome ∧ (s.val (.job d)).dependencyIds.getD [] ≠ []

lemma readIn_ok_iff (s : Store) (id : JobId) (eid : ExecutionId) :
    (∃ execution, Execution.readIn s id eid = .ok execution) ↔
      (s.val (.execution id eid)).createdAt.isSome ∧
        (s.val (.execution id eid)).lastHeartbeat.isSome := by
  unfold Execution.readIn
  by_cases h0 : s.val (.execution id eid) = default
  · rw [if_pos h0, h0]
    exact iff_of_false (fun h => by obtain ⟨_, h⟩ := h; cases h) (fun h => by cases h.1)
  · rw [if_neg h0]
    cases (s.val (.execution id eid)).createdAt <;>
      cases (s.val (.execution id eid)).lastHeartbeat <;> simp

lemma executionsIn_ok_iff (s : Store) (id : JobId) (now : Time) :
    (∃ executions, ExecutionRegistry.executionsIn s id now = .ok executions) ↔
      ExecutionsReadable now s id := by
  have hlist : ∀ eids, (∃ executions, ExecutionRegistry.readAllIn s id eids = .ok executions) ↔
      ∀ eid ∈ eids, ∃ execution, Execution.readIn s id eid = .ok execution := fun eids => by
    induction eids with
    | nil => simp [ExecutionRegistry.readAllIn]
    | cons eid eids ih =>
      simp only [ExecutionRegistry.readAllIn, List.forall_mem_cons, ← ih]
      cases hread : Execution.readIn s id eid with
      | error e => simp
      | ok execution =>
        cases ExecutionRegistry.readAllIn s id eids <;> simp [Except.map]
  unfold ExecutionRegistry.executionsIn ExecutionsReadable
  rw [hlist]
  simp only [ZSet.mem_ordered, readIn_ok_iff]

lemma metIn_ok_iff (d parent : Job) (s : Store) :
    (∃ r, d.metIn s (some parent) none false = .ok r) ↔ d.dependencyIds ≠ [] := by
  unfold Job.metIn
  by_cases hnil : d.dependencyIds = []
  · simp [hnil]
  · simp [hnil, Job.statusIn, Except.map]

lemma releasable_ok_iff (s : Store) (dependents : List (Option Job)) (parent : Job) :
    (∃ r, Queue.releasable s none false dependents parent = .ok r) ↔
      ∀ d, some d ∈ dependents → d.dependencyIds ≠ [] := by
  induction dependents generalizing parent with
  | nil => simp [Queue.releasable]
  | cons dependent rest ih =>
    cases dependent with
    | none => simpa [Queue.releasable] using ih parent
    | some d =>
      simp only [Queue.releasable, List.mem_cons, Option.some.injEq, forall_eq_or_imp]
      rw [← metIn_ok_iff d parent s]
      cases hmet : d.metIn s (some parent) none false with
      | error e => simp
      | ok r =>
        simp [← ih (r.2.getD parent), Except.exists_map_ok]

lemma restoreMany_ok_iff (l : List (JobId × JobHash)) :
    (∃ jobs, Job.restoreMany l = .ok jobs) ↔ ∀ x ∈ l, x.2 ≠ default → x.2.data.isSome := by
  induction l with
  | nil => simp [Job.restoreMany]
  | cons x rest ih =>
    obtain ⟨id, data⟩ := x
    simp only [List.forall_mem_cons, ← ih, Job.restoreMany]
    by_cases h0 : data = default
    · rw [if_pos h0]
      cases Job.restoreMany rest <;> simp [h0, Except.ok_bind, Except.error_bind, pure, Except.pure]
    · rw [if_neg h0]
      cases hr : Job.restore id data with
      | error e =>
        have hd : ¬data.data.isSome := fun hd => by
          obtain ⟨job, hjob⟩ := Job.exists_restore id hd
          rw [hr] at hjob
          cases hjob
        simp [Except.error_bind, h0, hd]
      | ok job =>
        have hd := Job.restore_isSome hr
        cases Job.restoreMany rest <;>
          simp [h0, hd, Except.ok_bind, Except.error_bind, pure, Except.pure]

lemma releaseIn_ok_iff (s : Store) (job : Job) :
    (∃ r, Queue.releaseIn s job none false = .ok r) ↔ DependentsReadable s job.id := by
  have hfetch := restoreMany_ok_iff
    ((s.val (.dependents job.id)).elems.map fun id => (id, s.val (.job id)))
  unfold Queue.releaseIn DependentsReadable
  by_cases hnil : (s.val (.dependents job.id)).elems = []
  · simp [hnil, RSet.mem_def]
  rw [if_neg hnil]
  cases hfetched : Job.restoreMany
      ((s.val (.dependents job.id)).elems.map fun id => (id, s.val (.job id))) with
  | error e =>
    rw [hfetched] at hfetch
    refine iff_of_false (by simp) fun h => ?_
    obtain ⟨jobs, hjobs⟩ := hfetch.mpr fun x hx hne => by
      obtain ⟨d, hd, rfl⟩ := List.mem_map.mp hx
      exact (h d hd hne).1
    cases hjobs
  | ok fetched =>
    have hforall := Job.restoreMany_ok hfetched
    simp only [releasable_ok_iff]
    constructor
    · intro h d hd hne
      obtain ⟨dependent, hdep, hok⟩ := fetched_of_mem hforall (List.mem_map.mpr ⟨d, hd, rfl⟩) hne
      exact ⟨Job.restore_isSome hok, Job.restore_dependencyIds hok ▸ h dependent hdep⟩
    · intro h dependent hdep
      obtain ⟨id, data, hmem, hne, hok⟩ := mem_of_fetched hforall hdep
      obtain ⟨d, hd, heq⟩ := List.mem_map.mp hmem
      cases heq
      exact Job.restore_dependencyIds hok ▸ (h _ hd hne).2

/-! ## What the buffered commands do to the registry of started jobs -/

/-- The command removes from the registries of started jobs entries of jobs in `P` only. -/
def Drops (P : JobId → Prop) (c : Command Key Value) : Prop :=
  ∀ (t : Store) (name : QueueName), ∃ p : (JobId × ExecutionId) × Score → Bool,
    (c.run t).val (.wip name) = (t.val (.wip name)).filter p ∧ ∀ e, ¬P e.1.1 → p e = true

variable {P Q : JobId → Prop} {c : Command Key Value} {cs : List (Command Key Value)}

lemma Drops.of_keeps (h : ∀ name, c.Keeps (.wip name)) : Drops P c := fun t name =>
  ⟨fun _ => true, by rw [h name t, ZSet.filter_true], fun _ _ => rfl⟩

lemma Drops.mono (h : Drops P c) (hPQ : ∀ id, P id → Q id) : Drops Q c := fun t name => by
  obtain ⟨p, hp, hkeep⟩ := h t name
  exact ⟨p, hp, fun e he => hkeep e fun hP => he (hPQ _ hP)⟩

lemma Drops.seq (h : ∀ c ∈ cs, Drops P c) : Drops P (Command.seq cs) := by
  induction cs with
  | nil => exact .of_keeps fun _ _ => rfl
  | cons c cs ih =>
    intro t name
    obtain ⟨p, hp, hkeep⟩ := h c List.mem_cons_self t name
    obtain ⟨q, hq, hkeep'⟩ := ih (fun d hd => h d (List.mem_cons_of_mem c hd)) (c.run t) name
    refine ⟨fun e => p e && q e, ?_, fun e he => by simp [hkeep e he, hkeep' e he]⟩
    rw [Command.seq_cons_run, hq, hp, ZSet.filter_filter]

lemma drops_enqueueCommands {queue : Queue} {job : Job} {atFront : Bool} {now : Time} :
    ∀ c ∈ enqueueCommands queue job atFront now, Drops P c := by
  intro c hc
  refine .of_keeps fun name t => ?_
  cases enqueueCommand_of_mem hc <;> simp

lemma drops_persistCommands {job : Job} {status : JobStatus} {now : Time} :
    ∀ c ∈ persistCommands job status now, Drops P c := by
  intro c hc
  refine .of_keeps fun name t => ?_
  simp only [persistCommands, cleanupCommands, List.mem_append, List.mem_cons, List.not_mem_nil,
    or_false] at hc
  rcases hc with (rfl | rfl) | hc
  · simp
  · simp
  · split at hc
    · simp only [List.mem_cons, List.not_mem_nil, or_false] at hc
      rcases hc with rfl | rfl | rfl <;> simp
    · simp at hc

/-- The job can be deleted. -/
structure Deletable (now : Time) (s : Store) (job : Job) : Prop where
  status : (s.val (.job job.id)).status.isSome
  executions : ExecutionsReadable now s job.id
  group : ∀ g, job.groupId = some g → (s.val (.group g)).elems ≠ []

lemma groupIn_ok_iff (s : Store) (job : Job) :
    (∃ cs, job.groupIn s = .ok cs) ↔ ∀ g, job.groupId = some g → (s.val (.group g)).elems ≠ [] := by
  unfold Job.groupIn
  cases job.groupId with
  | none => simp
  | some g => by_cases hnil : (s.val (.group g)).elems = [] <;> simp [hnil]

lemma leaveIn_ok {job : Job} (hs : (s.val (.job job.id)).status.isSome)
    (he : ∃ executions, ExecutionRegistry.executionsIn s job.id now = .ok executions) :
    ∃ cs, job.leaveIn s now = .ok cs := by
  obtain ⟨executions, he⟩ := he
  unfold Job.leaveIn
  split
  · next hnone => simp [hnone] at hs
  · exact ⟨_, by rw [he]; rfl⟩
  · exact ⟨_, rfl⟩

lemma deletionIn_ok_iff (s : Store) (job : Job) (removeFromQueue : Bool) (now : Time) :
    (∃ cs, job.deletionIn s removeFromQueue now = .ok cs) ↔ Deletable now s job := by
  constructor
  · rintro ⟨cs, h⟩
    unfold Job.deletionIn at h
    cases hleave : job.leaveIn s now with
    | error e => rw [hleave] at h; cases h
    | ok leaving =>
      cases hexec : ExecutionRegistry.executionsIn s job.id now with
      | error e => rw [hleave, hexec] at h; cases h
      | ok executions =>
        cases hgroup : job.groupIn s with
        | error e => rw [hleave, hexec, hgroup] at h; cases h
        | ok group =>
          refine ⟨?_, (executionsIn_ok_iff s job.id now).mp ⟨_, hexec⟩,
            (groupIn_ok_iff s job).mp ⟨_, hgroup⟩⟩
          unfold Job.leaveIn at hleave
          split at hleave
          · cases hleave
          · next hstatus => rw [hstatus]; rfl
          · next status _ hstatus => rw [hstatus]; rfl
  · intro h
    obtain ⟨executions, hexec⟩ := (executionsIn_ok_iff s job.id now).mpr h.executions
    obtain ⟨leaving, hleave⟩ := leaveIn_ok h.status ⟨_, hexec⟩
    obtain ⟨group, hgroup⟩ := (groupIn_ok_iff s job).mpr h.group
    exact ⟨_, by rw [Job.deletionIn, hleave, hexec, hgroup]; rfl⟩

lemma failureIn_ok_iff (s : Store) (job : Job) (excString : String) (info : Job.ExecutionInfo)
    (now : Time) : (∃ cs, job.failureIn s excString info now = .ok cs) ↔
      (job.failureTtl = some 0 → Deletable now s job) := by
  unfold Job.failureIn Job.addToFailedIn Job.cleanupIn
  rw [Except.exists_map_ok, Except.exists_map_ok]
  by_cases h0 : job.failureTtl = some 0
  · rw [if_pos (Job.getD_defaultFailureTtl.mpr h0), deletionIn_ok_iff]
    simp [h0]
  · rw [if_neg (fun h => h0 (Job.getD_defaultFailureTtl.mp h))]
    simp [h0]

lemma drops_deletionCommand {job : Job} (h : job.DeletionCommand c) : Drops (· = job.id) c := by
  cases h with
  | side k hk f =>
    refine .of_keeps fun name => Command.keeps_alter ?_
    rintro rfl
    exact hk
  | leave name p hp =>
    intro t name'
    by_cases hname : name' = name
    · subst hname
      exact ⟨p, by simp, hp⟩
    · exact ⟨fun _ => true, by simp [hname], fun _ _ => rfl⟩
  | hash => exact .of_keeps fun name t => by simp

lemma drops_failureCommand {job : Job} (h : job.FailureCommand c) : Drops (· = job.id) c := by
  cases h with
  | delete _ hc => exact drops_deletionCommand hc
  | expire k t => exact .of_keeps fun name => Command.keeps_expire
  | discard ttl now =>
    unfold RedisQueue.expire
    split <;> exact .of_keeps fun name t => by simp
  | _ => exact .of_keeps fun name t => by simp

lemma drops_failureIn {job : Job} {excString : String} {info : Job.ExecutionInfo}
    (h : job.failureIn s excString info now = .ok cs) : ∀ c ∈ cs, Drops (· = job.id) c := by
  obtain ⟨rest, rfl, hrest, -⟩ := Job.failureIn_ok h
  intro c hc
  rcases List.mem_cons.mp hc with rfl | hc
  · exact .of_keeps fun name t => by simp
  · exact drops_failureCommand (hrest c hc)

lemma DependentsReadable.calm (h : Calm ids now s s') {id : JobId}
    (hd : DependentsReadable s id) : DependentsReadable s' id := by
  intro d hmem hne
  have hv := h.view d
  rw [hv.data, hv.dependencyIds]
  exact hd d (h.fewer id d hmem) fun h0 => hne (hv.missing.mpr h0)

lemma DependentsReadable.of_calm (h : Calm ids now s s') {id : JobId} (hid : id ∉ ids)
    (hd : DependentsReadable s' id) : DependentsReadable s id := by
  intro d hmem hne
  have hv := h.view d
  rw [← hv.data, ← hv.dependencyIds]
  exact hd d (by rwa [h.dependents id hid]) fun h0 => hne (hv.missing.mp h0)

/-! ## The handling of one job -/

namespace StartedJobRegistry

/-- The handling of the fetched `job` raises nothing in the store `s`. -/
structure Quiet (userCode : UserCode) (now : Time) (s : Store) (job : Job) : Prop where
  callback : executeFailureCallback userCode job = .ok ()
  handlers : runExceptionHandlers job userCode.exceptionHandlers = .ok ()
  retry : job.shouldRetry = true → ∃ interval, job.getRetryInterval = .ok interval
  deletable : job.shouldRetry = false → job.failureTtl = some 0 → Deletable now s job
  dependents : job.shouldRetry = false → DependentsReadable s job.id

variable {pipe : Pipeline Key Value} {userCode : UserCode} {queue : Queue} {job : Job}

lemma calm_retryNow (hfetch : Job.restore job.id (s.val (.job job.id)) = .ok job) (interval : ℕ) :
    Calm [] now s ((Command.seq (job.retryNow queue interval now)).run s) := by
  unfold Job.retryNow
  split
  · exact .refl s
  · rw [Command.seq_cons_run, Command.seq_cons_run, Command.seq_nil_run]
    exact (calm_hset (sameView_status (Job.restore_isSome hfetch) .scheduled)).trans
      (.of_val fun k hk => by cases k <;> simp_all [Looked])

lemma drops_retryLater (interval : ℕ) :
    ∀ c ∈ job.retryLater queue interval now, Drops P c := by
  intro c hc
  unfold Job.retryLater at hc
  split at hc
  · exact drops_enqueueCommands c hc
  · rcases List.mem_cons.mp hc with rfl | hc
    · exact .of_keeps fun name t => by simp
    · exact drops_persistCommands c hc

/-- What the handling of one job does: an exception or some commands for the end, and meanwhile
nothing that the handling of another job looks at. -/
def HandlingSpec (job : Job) (quiet : Prop) (pipe : Pipeline Key Value) (p : Redis Client)
    (now : Time) (s : Store) : Prop :=
  ∃ s', Calm [job.id] now s s' ∧
    ((∃ e, p.run s = (.error e, s')) ∧ ¬quiet ∨
      ∃ cs, p.run s = (.ok (some (pipe.buffer cs)), s') ∧ (∀ c ∈ cs, Drops (· = job.id) c) ∧ quiet)

/-- The object of a job that fails in the store `s`, as `enqueue_dependents` gets it: the deletion of
a job with a failure TTL of zero has given it the stored status again. -/
def failedJob (s : Store) (job : Job) : Job :=
  ({ job with status := .failed } : Job).cleaned s job.failureTtl

/-- The handling of a job that is not retried: its failure, and the release of its dependents. -/
theorem run_handleAbandoned_failing (h : pipe.immediate = false) (hretry : job.shouldRetry = false)
    (hcallback : executeFailureCallback userCode job = .ok ())
    (hhandlers : runExceptionHandlers job userCode.exceptionHandlers = .ok ()) (s : Store)
    (now : Time) (fuel : ℕ) : ∃ s₁, Job.Trimmed job.id now s s₁ ∧
      (handleAbandoned queue userCode job (some pipe) now (fuel + 1)).run s =
        match ({ job with status := .failed } : Job).failureIn s excString {} now,
          Queue.releaseIn s₁ (failedJob s job) none false with
        | .error e, _ => (.error e, s₁)
        | .ok _, .error e => (.error e, s₁)
        | .ok cs, .ok r =>
          (.ok (some (pipe.buffer ([hset job.id { status := some .failed }] ++ cs))),
            (Command.seq (queue.releaseAll s₁ job.id r.1 now)).run s₁) := by
  obtain ⟨s₁, htrim, hfail⟩ := @Job.run_handleFailure
    (pipe.buffer [hset job.id { status := some .failed }]) (by simpa using h)
    { job with status := .failed } s excString {} now
  have hrelease := queue.run_enqueueDependents s₁ (failedJob s job) none false now fuel
  refine ⟨s₁, htrim, ?_⟩
  unfold handleAbandoned
  rw [hcallback, hhandlers]
  simp only [Prog.ofExcept_ok, Prog.ret_bind]
  rw [if_neg (by simp [hretry])]
  simp only [Job.setStatus_buffer h, Prog.ret_bind]
  cases hin : ({ job with status := .failed } : Job).failureIn s excString {} now with
  | error e =>
    rw [hin] at hfail
    exact Prog.run_bind_error hfail
  | ok cs =>
    rw [hin] at hfail
    simp only [Except.map, Pipeline.buffer_buffer] at hfail
    rw [Prog.run_bind_ok hfail]
    cases hr : Queue.releaseIn s₁ (failedJob s job) none false with
    | error e =>
      rw [hr] at hrelease
      exact Prog.run_bind_error hrelease
    | ok r =>
      rw [hr] at hrelease
      exact Prog.run_bind_ok hrelease

theorem run_handleAbandoned (h : pipe.immediate = false)
    (hfetch : Job.restore job.id (s.val (.job job.id)) = .ok job) (now : Time) (fuel : ℕ) :
    HandlingSpec job (Quiet userCode now s job) pipe
      (handleAbandoned queue userCode job (some pipe) now (fuel + 1)) now s := by
  have hcalm : Calm [job.id] now s s := (Calm.refl s).mono (List.nil_subset _)
  cases hcallback : executeFailureCallback userCode job with
  | error e =>
    refine ⟨s, hcalm, .inl ⟨⟨e, ?_⟩, fun hq => by rw [hq.callback] at hcallback; cases hcallback⟩⟩
    unfold handleAbandoned
    rw [hcallback]
    rfl
  | ok u =>
    cases hhandlers : runExceptionHandlers job userCode.exceptionHandlers with
    | error e =>
      refine ⟨s, hcalm, .inl ⟨⟨e, ?_⟩, fun hq => by
        rw [hq.handlers] at hhandlers; cases hhandlers⟩⟩
      unfold handleAbandoned
      rw [hcallback, hhandlers]
      rfl
    | ok u =>
      cases hretry : job.shouldRetry with
      | true =>
        obtain ⟨job', hrun⟩ := Job.run_retry h job (Job.restore_ok hfetch).2 queue hretry s now
        unfold HandlingSpec handleAbandoned
        simp only [hcallback, hhandlers, Prog.ofExcept_ok, Prog.ret_bind, if_pos hretry]
        cases hinterval : job.getRetryInterval with
        | error e =>
          rw [hinterval] at hrun
          refine ⟨s, hcalm, .inl ⟨⟨e, Prog.run_bind_error hrun⟩, fun hq => ?_⟩⟩
          obtain ⟨interval, hok⟩ := hq.retry hretry
          rw [hinterval] at hok
          cases hok
        | ok interval =>
          rw [hinterval] at hrun
          refine ⟨_, (calm_retryNow hfetch interval).mono (List.nil_subset _), .inr
            ⟨_, Prog.run_bind_ok hrun, drops_retryLater interval, hcallback, hhandlers,
              fun _ => ⟨interval, hinterval⟩, ?_, ?_⟩⟩ <;> simp [hretry]
      | false =>
        obtain ⟨s₁, htrim, hrun⟩ := @run_handleAbandoned_failing _ _ queue _ h hretry hcallback
          hhandlers s now fuel
        have hfailure := failureIn_ok_iff s { job with status := .failed } excString {} now
        have hread := releaseIn_ok_iff s₁ (failedJob s job)
        have hcalm₁ : Calm [] now s s₁ := .of_trimmed htrim
        cases hin : ({ job with status := .failed } : Job).failureIn s excString {} now with
        | error e =>
          rw [hin] at hrun hfailure
          refine ⟨s₁, hcalm₁.mono (List.nil_subset _), .inl ⟨⟨e, hrun⟩, fun hq => ?_⟩⟩
          obtain ⟨cs, hcs⟩ := hfailure.mpr fun h0 =>
            ⟨(hq.deletable hretry h0).status, (hq.deletable hretry h0).executions,
              (hq.deletable hretry h0).group⟩
          cases hcs
        | ok cs =>
          rw [hin] at hrun hfailure
          have hdel : job.failureTtl = some 0 → Deletable now s job := fun h0 =>
            have hd := hfailure.mp ⟨cs, rfl⟩ h0
            ⟨hd.status, hd.executions, hd.group⟩
          cases hr : Queue.releaseIn s₁ (failedJob s job) none false with
          | error e =>
            rw [hr] at hrun hread
            refine ⟨s₁, hcalm₁.mono (List.nil_subset _), .inl ⟨⟨e, hrun⟩, fun hq => ?_⟩⟩
            obtain ⟨r, hr'⟩ := hread.mpr ((hq.dependents hretry).calm hcalm₁)
            cases hr'
          | ok r =>
            rw [hr] at hrun hread
            have hcalm₂ := @calm_release now s₁ queue _ _ _ r hr
            refine ⟨_, hcalm₁.trans hcalm₂, .inr ⟨_, hrun, ?_, hcallback, hhandlers,
              by simp [hretry], fun _ => hdel, fun _ => ?_⟩⟩
            · intro c hc
              rcases List.mem_append.mp hc with hc | hc
              · obtain rfl := List.mem_singleton.mp hc
                exact .of_keeps fun name t => by simp
              · exact drops_failureIn hin c hc
            · exact (hread.mp ⟨r, rfl⟩).of_calm hcalm₁ (by simp)

/-! ## The loop -/

lemma runExceptionHandlers_congr {job' : Job} (hid : job'.id = job.id)
    (handlers : List (JobId → Except String (Option Bool))) :
    runExceptionHandlers job' handlers = runExceptionHandlers job handlers := by
  induction handlers with
  | nil => rfl
  | cons handler rest ih => simp only [runExceptionHandlers, hid, ih]

lemma shouldRetry_of_agree {job' : Job} (ha : Agree job job') :
    job'.shouldRetry = job.shouldRetry := by
  unfold Job.shouldRetry
  rw [ha.retriesLeft]

lemma getRetryInterval_of_agree {job' : Job} (ha : Agree job job') :
    job'.getRetryInterval = job.getRetryInterval := by
  unfold Job.getRetryInterval
  rw [ha.retriesLeft, ha.retryIntervals]

lemma Quiet.calm {job' : Job} (ha : Agree job job') (h : Calm ids now s s')
    (hq : Quiet userCode now s job) : Quiet userCode now s' job' := by
  have hretry := shouldRetry_of_agree ha
  have hinterval := getRetryInterval_of_agree ha
  constructor
  · have hcallback := hq.callback
    unfold executeFailureCallback at hcallback ⊢
    rwa [ha.failureCallbackName, ha.id]
  · rw [runExceptionHandlers_congr ha.id]
    exact hq.handlers
  · rw [hretry, hinterval]
    exact hq.retry
  · rw [hretry, ha.failureTtl]
    intro hr h0
    obtain ⟨hstatus, hexec, hgroup⟩ := hq.deletable hr h0
    refine ⟨?_, ?_, ?_⟩
    · rw [ha.id]
      exact (h.view _).status hstatus
    · rw [ha.id, ← executionsIn_ok_iff, h.executions, executionsIn_ok_iff]
      exact hexec
    · intro g hg
      rw [h.group]
      exact hgroup g (by rw [← ha.groupId, hg])
  · rw [hretry, ha.id]
    exact fun hr => (hq.dependents hr).calm h

lemma Quiet.of_calm {job' : Job} (ha : Agree job job') (h : Calm ids now s s')
    (hid : job.id ∉ ids) (hstatus : (s.val (.job job.id)).status.isSome)
    (hq : Quiet userCode now s' job') : Quiet userCode now s job := by
  have hretry := shouldRetry_of_agree ha
  have hinterval := getRetryInterval_of_agree ha
  constructor
  · have hcallback := hq.callback
    unfold executeFailureCallback at hcallback ⊢
    rwa [ha.failureCallbackName, ha.id] at hcallback
  · rw [← runExceptionHandlers_congr ha.id]
    exact hq.handlers
  · rw [← hretry, ← hinterval]
    exact hq.retry
  · rw [← hretry, ← ha.failureTtl]
    intro hr h0
    obtain ⟨-, hexec, hgroup⟩ := hq.deletable hr h0
    refine ⟨hstatus, ?_, ?_⟩
    · rw [← executionsIn_ok_iff, ← h.executions, executionsIn_ok_iff, ← ha.id]
      exact hexec
    · intro g hg
      rw [← h.group]
      exact hgroup g (by rw [ha.groupId, hg])
  · rw [← hretry]
    intro hr
    have hd := hq.dependents hr
    rw [ha.id] at hd
    exact hd.of_calm h hid

lemma run_fetch_saved (hfetch : Job.restore job.id (s.val (.job job.id)) = .ok job) :
    (attempting (Job.fetch job.id)).run s = (.ok (.ok job), s) := by
  have hne := ne_default_of_data (Job.restore_isSome hfetch)
  simp [attempting, catching, Job.fetch, Prog.read, hne, hfetch]

lemma run_fetch_unsaved {id : JobId} (hd : ¬(s.val (.job id)).data.isSome) :
    ∃ msg, (attempting (Job.fetch id)).run s = (.ok (.error (.noSuchJobError msg)), s) := by
  by_cases h0 : s.val (.job id) = default
  · exact ⟨_, by simp [attempting, catching, Job.fetch, Prog.read, h0]; rfl⟩
  · have hr : Job.restore id (s.val (.job id)) =
        .error (.noSuchJobError "Unexpected job format") := by
      unfold Job.restore
      rw [Option.not_isSome_iff_eq_none.mp hd]
    exact ⟨_, by simp [attempting, catching, Job.fetch, Prog.read, h0, hr]; rfl⟩

/-- The ids that have a saved job. -/
def saved (s : Store) (ids : List JobId) : List JobId :=
  ids.filter fun id => (s.val (.job id)).data.isSome

lemma saved_calm (h : Calm ids' now s s') (ids : List JobId) : saved s' ids = saved s ids := by
  unfold saved
  exact List.filter_congr fun id _ => by rw [(h.view id).data]

/-- The handling of none of the saved jobs raises. -/
def AllQuiet (userCode : UserCode) (now : Time) (s : Store) (ids : List JobId) : Prop :=
  ∀ id ∈ saved s ids, ∀ job, Job.restore id (s.val (.job id)) = .ok job → Quiet userCode now s job

lemma saved_cons_some {jobId : JobId} (hd : (s.val (.job jobId)).data.isSome) (rest : List JobId) :
    saved s (jobId :: rest) = jobId :: saved s rest := by
  simp [saved, hd]

lemma saved_cons_none {jobId : JobId} (hd : ¬(s.val (.job jobId)).data.isSome)
    (rest : List JobId) : saved s (jobId :: rest) = saved s rest := by
  simp [saved, hd]

lemma allQuiet_cons (hfetch : Job.restore job.id (s.val (.job job.id)) = .ok job)
    (rest : List JobId) : AllQuiet userCode now s (job.id :: rest) ↔
      Quiet userCode now s job ∧ AllQuiet userCode now s rest := by
  unfold AllQuiet
  rw [saved_cons_some (Job.restore_isSome hfetch), List.forall_mem_cons, hfetch]
  simp

/-- Handling a job does not make the handling of the later ones raise. -/
lemma AllQuiet.calm (h : Calm ids now s s') {rest : List JobId}
    (hq : AllQuiet userCode now s rest) : AllQuiet userCode now s' rest := by
  intro id hid job' hr'
  rw [saved_calm h] at hid
  obtain ⟨job, hr⟩ := Job.exists_restore id (h := s.val (.job id)) (List.mem_filter.mp hid).2
  exact (hq id hid job hr).calm ((h.view id).agree hr hr') h

/-- Nor does it keep the handling of other jobs from raising. -/
lemma AllQuiet.of_calm (h : Calm ids now s s') {rest : List JobId}
    (hids : ∀ id ∈ saved s rest, id ∉ ids)
    (hstatus : ∀ id ∈ saved s rest, (s.val (.job id)).status.isSome)
    (hq : AllQuiet userCode now s' rest) : AllQuiet userCode now s rest := by
  intro id hid job hr
  obtain ⟨job', hr'⟩ := Job.exists_restore id (h := s'.val (.job id)) (by
    rw [(h.view id).data]
    exact (List.mem_filter.mp hid).2)
  obtain rfl := (Job.restore_ok hr).1
  exact (hq _ (by rwa [saved_calm h]) job' hr').of_calm ((h.view _).agree hr hr') h
    (hids _ hid) (hstatus _ hid)

variable {name : QueueName} {score : Time}

/-- The ids that `get_expired_job_ids` returns. -/
def expiredIds (name : QueueName) (score : Time) (s : Store) : List JobId :=
  ((s.val (.wip name)).range entryLe (0 : ℤ) score).map Prod.fst

/-- The entry of every execution of the job has expired. -/
def Expired (name : QueueName) (score : Time) (s : Store) (id : JobId) : Prop :=
  ∀ e ∈ (s.val (.wip name)).entries, e.1.1 = id → ZSet.inRange (0 : ℤ) score e = true

end StartedJobRegistry

end RedisQueue
