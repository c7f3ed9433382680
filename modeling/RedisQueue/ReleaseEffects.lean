import RedisQueue.ReleaseTheorems

/-!
# What the release of dependents does to the store

* `Queue.mem_releaseIn`: which dependents `enqueue_dependents` releases;
* `Advanced`: how a store changes when some jobs are queued, and that this composes;
* `Queue.advanced_releaseAll`: the release of dependents changes the store so.
-/

namespace RedisQueue

open Prog

/-! ## Which dependents are released -/

/-- `enqueue_dependents` enqueues the job when `parent` ends with its status. -/
def Job.readyIn (self : Job) (s : Store) (parent : Job) : Bool :=
  !decide (parent.status = .canceled ∨ parent.status = .stopped) &&
    !decide (parent.status = .failed ∧ self.allowDependencyFailures ≠ some true) &&
    self.statusesAllowedIn s ((s.val (.dependencies self.id)).elems.filter (· ≠ parent.id)) &&
    self.status != .canceled

/-- `dependencies_are_met` answers for the dependents of `parent` what `ready` says, and leaves the
parent as it is. -/
def Decides (s : Store) (parent : Job) (excludeJobId : Option JobId) (refreshJobStatus : Bool)
    (ready : Job → Bool) : Prop :=
  ∀ (d : Job) (r : Bool × Option Job),
    d.metIn s (some parent) excludeJobId refreshJobStatus = .ok r →
      (r.1 && d.status != .canceled) = ready d ∧ r.2 = some parent

lemma decides_readyIn (s : Store) (parent : Job) :
    Decides s parent none false fun d => d.readyIn s parent := by
  intro d r h
  unfold Job.metIn at h
  split at h
  · cases h
  · simp only [Job.dropExcluded, Option.isSome_none, Bool.false_and, Job.statusIn,
      Bool.false_eq_true, if_false, Except.map, Except.ok.injEq] at h
    subst h
    exact ⟨rfl, rfl⟩

namespace Queue

section Decided
variable {s : Store} {parent : Job} {excludeJobId : Option JobId} {refreshJobStatus : Bool}
  {ready : Job → Bool} {dependents : List (Option Job)} {r : List Job × Job}

lemma sublist_releasable (hready : Decides s parent excludeJobId refreshJobStatus ready)
    (h : releasable s excludeJobId refreshJobStatus dependents parent = .ok r) :
    r.1.Sublist dependents.reduceOption := by
  induction dependents generalizing r with
  | nil =>
    cases h
    simp
  | cons dependent rest ih =>
    cases dependent with
    | none => simpa using ih h
    | some dependent =>
      simp only [releasable] at h
      cases hmet : dependent.metIn s (some parent) excludeJobId refreshJobStatus with
      | error e =>
        rw [hmet] at h
        cases h
      | ok met =>
        obtain ⟨-, hparent⟩ := hready dependent met hmet
        rw [hmet] at h
        simp only [hparent, Option.getD_some] at h
        cases hrest : releasable s excludeJobId refreshJobStatus rest parent with
        | error e =>
          rw [hrest] at h
          cases h
        | ok r' =>
          rw [hrest] at h
          cases h
          rw [List.reduceOption_cons_of_some]
          have htail := ih hrest
          simp only
          split
          · exact htail.cons_cons dependent
          · exact htail.cons dependent

/-- No dependent is released twice. -/
lemma sublist_of_decides (hready : Decides s parent excludeJobId refreshJobStatus ready)
    (h : releaseIn s parent excludeJobId refreshJobStatus = .ok r) :
    (r.1.map Job.id).Sublist (s.val (.dependents parent.id)).elems := by
  unfold releaseIn at h
  split at h
  · cases h
    simp
  · split at h
    · cases h
    · next fetched hfetched =>
      refine ((sublist_releasable hready h).map Job.id).trans ?_
      have hids : ∀ {l jobs}, List.Forall₂ Fetched l jobs →
          (jobs.reduceOption.map Job.id).Sublist (l.map Prod.fst) := fun h => by
        induction h with
        | nil => simp
        | cons hx _ ih =>
          cases hx with
          | missing => simpa using ih.cons _
          | found hne hok =>
            obtain rfl := (Job.restore_ok hok).1
            simpa using ih
      simpa [Function.comp_def] using hids (Job.restoreMany_ok hfetched)

lemma mem_releasable (hready : Decides s parent excludeJobId refreshJobStatus ready)
    (h : releasable s excludeJobId refreshJobStatus dependents parent = .ok r) {d : Job} :
    d ∈ r.1 ↔ some d ∈ dependents ∧ ready d = true := by
  induction dependents generalizing r with
  | nil =>
    cases h
    simp
  | cons dependent rest ih =>
    cases dependent with
    | none => simpa using ih h
    | some dependent =>
      simp only [releasable] at h
      cases hmet : dependent.metIn s (some parent) excludeJobId refreshJobStatus with
      | error e =>
        rw [hmet] at h
        cases h
      | ok met =>
        obtain ⟨hverdict, hparent⟩ := hready dependent met hmet
        rw [hmet] at h
        simp only [hverdict, hparent, Option.getD_some] at h
        cases hrest : releasable s excludeJobId refreshJobStatus rest parent with
        | error e =>
          rw [hrest] at h
          cases h
        | ok r' =>
          rw [hrest] at h
          cases h
          have htail := @ih r' hrest
          cases hd : ready dependent with
          | true =>
            simp only [if_true, List.mem_cons, htail, Option.some.injEq]
            constructor
            · rintro (rfl | ⟨hmem, hd'⟩)
              · exact ⟨.inl rfl, hd⟩
              · exact ⟨.inr hmem, hd'⟩
            · rintro ⟨rfl | hmem, hd'⟩
              · exact .inl rfl
              · exact .inr ⟨hmem, hd'⟩
          | false =>
            simp only [Bool.false_eq_true, if_false, htail, List.mem_cons, Option.some.injEq]
            refine and_congr_left fun hd' => ⟨.inr, fun hmem => hmem.resolve_left ?_⟩
            rintro rfl
            rw [hd] at hd'
            cases hd'

/-- The dependents that are released: those that are ready. -/
lemma mem_of_decides (hready : Decides s parent excludeJobId refreshJobStatus ready)
    (h : releaseIn s parent excludeJobId refreshJobStatus = .ok r) {d : Job} :
    d ∈ r.1 ↔ d.id ∈ s.val (.dependents parent.id) ∧
      Job.restore d.id (s.val (.job d.id)) = .ok d ∧ ready d = true := by
  unfold releaseIn at h
  split at h
  · next hnil =>
    cases h
    simp [RSet.mem_def, hnil]
  · split at h
    · cases h
    · next fetched hfetched =>
      rw [mem_releasable hready h, ← and_assoc]
      refine and_congr_left fun _ => ?_
      have hforall := Job.restoreMany_ok hfetched
      constructor
      · intro hmem
        obtain ⟨id, data, hl, hne, hok⟩ := mem_of_fetched hforall hmem
        obtain ⟨id', hid', heq⟩ := List.mem_map.mp hl
        cases heq
        obtain rfl := (Job.restore_ok hok).1
        exact ⟨hid', hok⟩
      · rintro ⟨hid, hok⟩
        obtain ⟨d', hd', hok'⟩ := fetched_of_mem hforall (List.mem_map.mpr ⟨d.id, hid, rfl⟩)
          (ne_default_of_data (Job.restore_isSome hok))
        rw [hok] at hok'
        cases hok'
        exact hd'

end Decided

/-- The dependents that are released when a job has ended. -/
theorem mem_releaseIn {s : Store} {job : Job} {r : List Job × Job}
    (h : releaseIn s job none false = .ok r) {d : Job} :
    d ∈ r.1 ↔ d.id ∈ s.val (.dependents job.id) ∧
      Job.restore d.id (s.val (.job d.id)) = .ok d ∧ d.readyIn s job = true :=
  mem_of_decides (decides_readyIn s job) h

end Queue

/-! ## How the store changes -/

/-- The queue that a job belongs to. -/
def Store.origin (s : Store) (id : JobId) : QueueName := (s.val (.job id)).origin.getD ""

/-- Only the jobs of which `queued` holds have been queued, and pushed. -/
structure Advanced (s : Store) (queued : JobId → Prop) (s' : Store) : Prop where
  status : ∀ id, queued id → (s'.val (.job id)).status = some .queued
  kept : ∀ id, ¬queued id → (s'.val (.job id)).status = (s.val (.job id)).status
  data : ∀ id, (s'.val (.job id)).data.isSome = (s.val (.job id)).data.isSome
  allows : ∀ id, (s'.val (.job id)).allowDependencyFailures =
    (s.val (.job id)).allowDependencyFailures
  origin : ∀ id, s'.origin id = s.origin id
  dependencies : ∀ id, s'.val (.dependencies id) = s.val (.dependencies id)
  fewer : ∀ id, ∀ d ∈ s'.val (.dependents id), d ∈ s.val (.dependents id)
  dependents : ∀ id, ∀ d ∈ s.val (.dependents id), ¬queued d → d ∈ s'.val (.dependents id)
  log : ∃ new, s'.val .log = s.val .log ++ new ∧
    ∀ push, push ∈ new ↔ queued push.id ∧ push.key = queueKey (s.origin push.id)

namespace Advanced

variable {s s' s'' : Store} {queued queued' : JobId → Prop}

lemma of_val (hjob : ∀ id, s'.val (.job id) = s.val (.job id))
    (hdependencies : ∀ id, s'.val (.dependencies id) = s.val (.dependencies id))
    (hdependents : ∀ id, s'.val (.dependents id) = s.val (.dependents id))
    (hlog : s'.val .log = s.val .log) : Advanced s (fun _ => False) s' where
  status _ h := h.elim
  kept id _ := by rw [hjob]
  data id := by rw [hjob]
  allows id := by rw [hjob]
  origin id := by simp only [Store.origin, hjob]
  dependencies := hdependencies
  fewer id d hd := by rwa [hdependents] at hd
  dependents id d hd _ := by rwa [hdependents]
  log := ⟨[], by simpa using hlog, by simp⟩

lemma trans (h : Advanced s queued s') (h' : Advanced s' queued' s'') :
    Advanced s (fun id => queued id ∨ queued' id) s'' where
  status id hid := by
    by_cases hq : queued' id
    · exact h'.status id hq
    · exact (h'.kept id hq).trans (h.status id (hid.resolve_right hq))
  kept id hid := by
    rw [not_or] at hid
    exact (h'.kept id hid.2).trans (h.kept id hid.1)
  data id := (h'.data id).trans (h.data id)
  allows id := (h'.allows id).trans (h.allows id)
  origin id := (h'.origin id).trans (h.origin id)
  dependencies id := (h'.dependencies id).trans (h.dependencies id)
  fewer id d hd := h.fewer id d (h'.fewer id d hd)
  dependents id d hd hid := by
    rw [not_or] at hid
    exact h'.dependents id d (h.dependents id d hd hid.1) hid.2
  log := by
    obtain ⟨new, hnew, hpush⟩ := h.log
    obtain ⟨new', hnew', hpush'⟩ := h'.log
    refine ⟨new ++ new', by rw [hnew', hnew, List.append_assoc], fun push => ?_⟩
    rw [List.mem_append, hpush, hpush', h.origin, or_and_right]

lemma congr (h : Advanced s queued s') (hiff : ∀ id, queued id ↔ queued' id) :
    Advanced s queued' s' := by
  rwa [show queued' = queued from funext fun id => propext (hiff id).symm]

end Advanced

/-! ## The release of dependents -/

namespace Queue

@[simp] lemma queueFor_key (self : Queue) (dependent : Job) :
    (self.queueFor dependent).key = queueKey dependent.origin := by
  unfold queueFor
  split
  · next h => simp [key, h]
  · rfl

@[simp] lemma queueFor_name (self : Queue) (dependent : Job) :
    (self.queueFor dependent).name = dependent.origin := by
  unfold queueFor
  split
  · next h => exact h.symm
  · rfl

lemma log_enqueueCommands (queue : Queue) (job : Job) (atFront : Bool) (now : Time) (s : Store) :
    ((Command.seq (enqueueCommands queue job atFront now)).run s).val .log =
      s.val .log ++ [⟨queue.key, job.id⟩] := by
  by_cases hd : job.status = .deferred <;> by_cases ht : 0 < job.ttl.getD 0 <;>
    simp [enqueueCommands, persistCommands, cleanupCommands, _prepareForQueue, hd, ht]

lemma log_releaseCommands (self : Queue) (jobs : List Job) (now : Time) (s : Store) :
    ((Command.seq (self.releaseCommands jobs now)).run s).val .log =
      s.val .log ++ jobs.map fun d => ⟨queueKey d.origin, d.id⟩ := by
  induction jobs generalizing s with
  | nil => simp [releaseCommands]
  | cons d jobs ih =>
    unfold releaseCommands at ih ⊢
    rw [List.flatMap_cons, Command.seq_append_run, ih, Command.seq_cons_run, log_enqueueCommands]
    simp

lemma val_forgetCommand {k : Key} {id : JobId} (hk : k ≠ .dependents id) (s t : Store)
    (jobs : List Job) : ((forgetCommand s id jobs).run t).val k = t.val k := by
  unfold forgetCommand
  split <;> simp [hk]

lemma mem_forgetCommand {id : JobId} {s t : Store} {jobs : List Job}
    (hjobs : (jobs.map Job.id).Sublist (s.val (.dependents id)).elems)
    (ht : t.val (.dependents id) = s.val (.dependents id)) {d : JobId} :
    d ∈ ((forgetCommand s id jobs).run t).val (.dependents id) ↔
      d ∈ s.val (.dependents id) ∧ d ∉ jobs.map Job.id := by
  unfold forgetCommand
  split
  · next hlen =>
    have hall := hjobs.eq_of_length (by simpa using hlen)
    simp [RSet.mem_def, hall]
  · simp [ht]

lemma origin_of_restore {s : Store} {id : JobId} {d : Job}
    (hd : Job.restore id (s.val (.job id)) = .ok d) : s.origin id = d.origin := by
  unfold Job.restore at hd
  split at hd
  · cases hd
  · cases hd
    rfl

/-- Saving a released job writes what its hash says already, but for the status. -/
lemma toDict_of_restore {id : JobId} {h h' : JobHash} {d : Job} (hd : Job.restore id h = .ok d)
    (hallows : h'.allowDependencyFailures = h.allowDependencyFailures)
    (horigin : h'.origin.getD "" = h.origin.getD "") (queue : Queue) (hq : queue.name = d.origin)
    (now : Time) : let dict := (queue._prepareForQueue d now).toDict true
    (dict.allowDependencyFailures <|> h'.allowDependencyFailures) = h'.allowDependencyFailures ∧
      (dict.origin <|> h'.origin).getD "" = h'.origin.getD "" := by
  unfold Job.restore at hd
  split at hd
  · cases hd
  · cases hd
    refine ⟨orElse_of_eq rfl hallows.symm, ?_⟩
    simp only [_prepareForQueue, hq, Job.toDict]
    by_cases h0 : h.origin.getD "" = "" <;> simp [h0, horigin]

/-- What the commands of a release preserve, up to the statuses of the jobs it enqueues. -/
structure Releasing (s : Store) (queued : JobId → Prop) (t : Store) : Prop where
  kept : ∀ id, ¬queued id → t.val (.job id) = s.val (.job id)
  data : ∀ id, (t.val (.job id)).data.isSome = (s.val (.job id)).data.isSome
  allows : ∀ id, (t.val (.job id)).allowDependencyFailures =
    (s.val (.job id)).allowDependencyFailures
  origin : ∀ id, t.origin id = s.origin id
  dependencies : ∀ id, t.val (.dependencies id) = s.val (.dependencies id)
  dependents : ∀ id, t.val (.dependents id) = s.val (.dependents id)

lemma Releasing.of_val {s t u : Store} {queued : JobId → Prop} (h : Releasing s queued t)
    (hjob : ∀ id, u.val (.job id) = t.val (.job id))
    (hdependencies : ∀ id, u.val (.dependencies id) = t.val (.dependencies id))
    (hdependents : ∀ id, u.val (.dependents id) = t.val (.dependents id)) :
    Releasing s queued u where
  kept id hid := (hjob id).trans (h.kept id hid)
  data id := by rw [hjob, h.data]
  allows id := by rw [hjob, h.allows]
  origin id := by rw [Store.origin, hjob, ← Store.origin, h.origin]
  dependencies id := (hdependencies id).trans (h.dependencies id)
  dependents id := (hdependents id).trans (h.dependents id)

lemma Releasing.hset {s t : Store} {queued : JobId → Prop} (h : Releasing s queued t) {id : JobId}
    (hq : queued id) {mapping : JobHash}
    (hdata : (mapping.data <|> (t.val (.job id)).data).isSome = (t.val (.job id)).data.isSome)
    (hallows : (mapping.allowDependencyFailures <|> (t.val (.job id)).allowDependencyFailures) =
      (t.val (.job id)).allowDependencyFailures)
    (horigin : (mapping.origin <|> (t.val (.job id)).origin).getD "" = t.origin id) :
    Releasing s queued ((RedisQueue.hset id mapping).run t) := by
  have hother : ∀ id', id' ≠ id → ((RedisQueue.hset id mapping).run t).val (.job id') =
      t.val (.job id') := fun id' hne => by simp [hne]
  refine ⟨fun id' hid' => ?_, fun id' => ?_, fun id' => ?_, fun id' => ?_, fun id' => ?_,
    fun id' => ?_⟩
  · rw [hother id' (by rintro rfl; exact hid' hq)]
    exact h.kept id' hid'
  · by_cases hne : id' = id
    · subst hne
      rw [← h.data]
      simpa [JobHash.update] using hdata
    · rw [hother id' hne, h.data]
  · by_cases hne : id' = id
    · subst hne
      rw [← h.allows]
      simpa [JobHash.update] using hallows
    · rw [hother id' hne, h.allows]
  · by_cases hne : id' = id
    · subst hne
      rw [← h.origin]
      simpa [JobHash.update, Store.origin] using horigin
    · rw [Store.origin, hother id' hne, ← Store.origin, h.origin]
  · simpa using h.dependencies id'
  · simpa using h.dependents id'

lemma releasing_releaseCommands {self : Queue} {jobs : List Job} {s : Store} (now : Time)
    (hjobs : ∀ d ∈ jobs, Job.restore d.id (s.val (.job d.id)) = .ok d) :
    Releasing s (· ∈ jobs.map Job.id) ((Command.seq (self.releaseCommands jobs now)).run s) := by
  refine Command.seq_preserves (P := Releasing s (· ∈ jobs.map Job.id)) (fun c hc t ht => ?_)
    (by constructor <;> intros <;> rfl)
  obtain ⟨d, hd, hc⟩ := mem_releaseCommands hc
  have hq : d.id ∈ jobs.map Job.id := List.mem_map_of_mem hd
  rcases hc with rfl | hc
  · exact ht.of_val (by simp) (by simp) (by simp)
  · cases hc with
    | undefer => exact ht.of_val (by simp) (by simp) (by simp)
    | status => exact ht.hset hq (by simp) (by simp) (by simp [Store.origin])
    | save =>
      obtain ⟨hallows, horigin⟩ := toDict_of_restore (hjobs d hd) (ht.allows d.id)
        (ht.origin d.id) (self.queueFor d) (queueFor_name self d) now
      have hsome : (t.val (.job d.id)).data.isSome := by
        rw [ht.data]
        exact Job.restore_isSome (hjobs d hd)
      exact ht.hset hq (by simp [Job.toDict, hsome]) hallows horigin
    | expire k t' => exact ht.of_val (by simp) (by simp) (by simp)
    | push atFront => exact ht.of_val (by simp) (by simp) (by simp)

lemma status_hset (id id' : JobId) (mapping : JobHash) (t : Store) :
    (((RedisQueue.hset id mapping).run t).val (.job id')).status =
      if id' = id then mapping.status <|> (t.val (.job id')).status
      else (t.val (.job id')).status := by
  by_cases h : id' = id
  · subst h
    simp [JobHash.update]
  · simp [h]

/-- The commands of a release leave the released jobs queued. -/
lemma status_releaseCommands {self : Queue} {jobs : List Job} {d : Job} (hd : d ∈ jobs)
    (now : Time) (s : Store) :
    (((Command.seq (self.releaseCommands jobs now)).run s).val (.job d.id)).status =
      some .queued := by
  refine Command.seq_establishes (P := fun t => (t.val (.job d.id)).status = some .queued)
    (c := RedisQueue.hset d.id { status := some .queued }) (fun c hc t ht => ?_) ?_
    (fun t => by rw [status_hset]; simp) s
  · obtain ⟨d', -, hc⟩ := mem_releaseCommands hc
    rcases hc with rfl | hc
    · simpa using ht
    · cases hc with
      | undefer => simpa using ht
      | status =>
        rw [status_hset]
        simp [ht]
      | save =>
        rw [status_hset]
        simp [ht, Job.toDict, _prepareForQueue]
      | expire k t' => simpa using ht
      | push atFront => simpa using ht
  · refine List.mem_flatMap.mpr ⟨d, hd, List.mem_cons_of_mem _ ?_⟩
    refine List.mem_append_left _ (List.mem_append_right _ ?_)
    exact List.mem_append_left _ List.mem_cons_self

/-- **The release of dependents.** It queues what it has found to be ready, and nothing else. -/
theorem advanced_of_decides {self : Queue} {s : Store} {job : Job} {excludeJobId : Option JobId}
    {refreshJobStatus : Bool} {ready : Job → Bool} {r : List Job × Job}
    (hready : Decides s job excludeJobId refreshJobStatus ready)
    (h : releaseIn s job excludeJobId refreshJobStatus = .ok r) (now : Time) :
    Advanced s (· ∈ r.1.map Job.id) ((Command.seq (self.releaseAll s job.id r.1 now)).run s) := by
  have hjobs : ∀ d ∈ r.1, Job.restore d.id (s.val (.job d.id)) = .ok d := fun d hd =>
    ((mem_of_decides hready h).mp hd).2.1
  have hreleasing := @releasing_releaseCommands self _ _ now hjobs
  by_cases hnil : r.1 = []
  · simp only [releaseAll, hnil, if_true, Command.seq_nil_run]
    exact (Advanced.of_val (fun _ => rfl) (fun _ => rfl) (fun _ => rfl) rfl).congr (by simp)
  rw [releaseAll, if_neg hnil, Command.seq_append_run, Command.seq_cons_run, Command.seq_nil_run]
  have hforget : ∀ k, k ≠ .dependents job.id →
      ((forgetCommand s job.id r.1).run ((Command.seq (self.releaseCommands r.1 now)).run s)).val k
        = ((Command.seq (self.releaseCommands r.1 now)).run s).val k := fun k hk =>
    val_forgetCommand hk s _ r.1
  have hjob : ∀ id, Key.job id ≠ .dependents job.id := fun id => by simp
  have hdependents : ∀ id d,
      d ∈ ((forgetCommand s job.id r.1).run
        ((Command.seq (self.releaseCommands r.1 now)).run s)).val (.dependents id) ↔
      d ∈ s.val (.dependents id) ∧ (id = job.id → d ∉ r.1.map Job.id) := fun id d => by
    by_cases hid : id = job.id
    · subst hid
      rw [mem_forgetCommand (sublist_of_decides hready h) (hreleasing.dependents _)]
      simp
    · rw [hforget _ (by simpa using hid), hreleasing.dependents]
      simp [hid]
  exact {
    status := fun id hid => by
      obtain ⟨d, hd, rfl⟩ := List.mem_map.mp hid
      rw [hforget _ (hjob d.id)]
      exact status_releaseCommands hd now s
    kept := fun id hid => by rw [hforget _ (hjob id), hreleasing.kept id hid]
    data := fun id => by rw [hforget _ (hjob id), hreleasing.data]
    allows := fun id => by rw [hforget _ (hjob id), hreleasing.allows]
    origin := fun id => by
      rw [Store.origin, hforget _ (hjob id), ← Store.origin, hreleasing.origin]
    dependencies := fun id => by rw [hforget _ (by simp), hreleasing.dependencies]
    fewer := fun id d hd => ((hdependents id d).mp hd).1
    dependents := fun id d hd hid => (hdependents id d).mpr ⟨hd, fun _ => hid⟩
    log := by
      refine ⟨r.1.map fun d => ⟨queueKey d.origin, d.id⟩, ?_, fun push => ?_⟩
      · rw [hforget _ (by simp), log_releaseCommands]
      · simp only [List.mem_map]
        constructor
        · rintro ⟨d, hd, rfl⟩
          exact ⟨⟨d, hd, rfl⟩, by rw [origin_of_restore (hjobs d hd)]⟩
        · rintro ⟨⟨d, hd, hid⟩, hkey⟩
          refine ⟨d, hd, ?_⟩
          rw [← hid, origin_of_restore (hjobs d hd)] at hkey
          rw [← hkey, hid] }

/-- The release of dependents when a job has ended. -/
theorem advanced_releaseAll {self : Queue} {s : Store} {job : Job} {r : List Job × Job}
    (h : releaseIn s job none false = .ok r) (now : Time) :
    Advanced s (· ∈ r.1.map Job.id) ((Command.seq (self.releaseAll s job.id r.1 now)).run s) :=
  advanced_of_decides (decides_readyIn s job) h now

/-- What has been released is no dependent any more. -/
lemma notMem_dependents_released {self : Queue} {s : Store} {job : Job}
    {excludeJobId : Option JobId} {refreshJobStatus : Bool} {ready : Job → Bool}
    {r : List Job × Job} (hready : Decides s job excludeJobId refreshJobStatus ready)
    (h : releaseIn s job excludeJobId refreshJobStatus = .ok r) {now : Time} {id : JobId}
    (hid : id ∈ r.1.map Job.id) :
    id ∉ ((Command.seq (self.releaseAll s job.id r.1 now)).run s).val (.dependents job.id) := by
  have hjobs : ∀ d ∈ r.1, Job.restore d.id (s.val (.job d.id)) = .ok d := fun d hd =>
    ((mem_of_decides hready h).mp hd).2.1
  have hne : r.1 ≠ [] := fun hnil => by simp [hnil] at hid
  rw [releaseAll, if_neg hne, Command.seq_append_run, Command.seq_cons_run, Command.seq_nil_run,
    mem_forgetCommand (sublist_of_decides hready h)
      ((releasing_releaseCommands now hjobs).dependents _)]
  exact fun hmem => hmem.2 hid

end Queue

end RedisQueue
