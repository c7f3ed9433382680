import RedisQueue.Compaction
import RedisQueue.Lib.Ranges
import RedisQueue.RegisteredQueues

/-!
# Reading and emptying a queue

`Queue.get_jobs` reads a range of the list of the queue and fetches the jobs one by one. An id whose
job has no hash leaves the list on the way, so reading a queue is not without effects
(`rq/queue.py`).

* `Queue.getJobs`, `Queue.empty`: the methods, command by command;
* `Queue.run_getJobs_range`: what a reader finds, and what is left of the list;
* `Queue.run_pages`: what a reader sees who goes through the queue in pages;
* `Queue.stays_queued_iff`: when a queued job keeps its place, in every interleaving with readers;
* `Queue.run_deleteWithJobs`: what `delete` leaves.
-/

namespace RedisQueue

open Ranges

namespace Queue

/-! ## Reading -/

/-- The ids that `Queue.get_job_ids` reads. -/
def rangeIn (self : Queue) (s : Store) (offset length : ℤ) : List JobId :=
  let stop := if 0 ≤ length then offset + (length - 1) else length
  lrange (s.val (.list self.key)) offset stop

/-- `Queue.get_job_ids` -/
def getJobIds (self : Queue) (offset length : ℤ) : Redis (List JobId) :=
  Prog.read fun s => self.rangeIn s offset length

/-- `Queue.remove`, on the connection. -/
def remove (self : Queue) (jobId : JobId) : Redis Unit := Prog.perform (lrem self.key jobId).run

/-- `Queue.fetch_job` -/
def fetchJob (self : Queue) (jobId : JobId) : Redis (Option Job) := do
  match ← attempting (Job.fetch jobId) with
  | .ok job => return if job.origin = self.name then some job else none
  | .error (.noSuchJobError _) => do
    self.remove jobId
    return none
  | .error e => .throw e

/-- The list comprehension of `Queue.get_jobs`. -/
def fetchJobs (self : Queue) : List JobId → Redis (List (Option Job))
  | [] => return []
  | jobId :: jobIds => do
    let job ← self.fetchJob jobId
    let jobs ← self.fetchJobs jobIds
    return job :: jobs

/-- `Queue.get_jobs` -/
def getJobs (self : Queue) (offset length : ℤ) : Redis (List Job) := do
  let jobIds ← self.getJobIds offset length
  let jobs ← self.fetchJobs jobIds
  return jobs.reduceOption

/-- `Queue.get_job_position`. `LPOS` is there from version 6.0.6 of the server on. -/
def getJobPosition (self : Queue) (hasLpos : Bool) (jobId : JobId) : Redis (Option ℕ) := do
  if hasLpos then
    Prog.read fun s => (s.val (.list self.key)).findIdx? (· = jobId)
  else do
    let jobIds ← self.getJobIds 0 (-1)
    if jobId ∈ jobIds then do
      let jobIds ← self.getJobIds 0 (-1)
      match jobIds.findIdx? (· = jobId) with
      | some position => return some position
      | none => .throw (.valueError s!"'{jobId}' is not in list")
    else return none

/-! ## Emptying -/

/-- The loop of the script of `Queue.empty`. The first component is `count`. -/
def emptyLoop (key : String) : ℕ → ℕ × Store → ℕ × Store
  | 0, c => c
  | fuel + 1, (count, s) =>
    match (s.val (.list key)).head? with
    | none => (count, s)
    | some jobId => emptyLoop key fuel (count + 1, (Command.seq [.alter (.list key) List.tail,
        .del (.job jobId), .del (.dependents jobId)]).run s)

/-- The script ends, since a turn takes an id out of the list. -/
def emptyScript (key : String) (s : Store) : ℕ × Store :=
  emptyLoop key ((s.val (.list key)).length + 1) (0, s)

/-- `Queue.empty` -/
def empty (self : Queue) : Redis ℕ :=
  .step (fun s => (emptyScript self.key s).2) fun s => .ret (emptyScript self.key s).1

/-- `Queue.delete` with `delete_jobs=True`. -/
def deleteWithJobs (self : Queue) : Redis Unit := do
  let _ ← self.empty
  self.delete

/-! ## A reader alone -/

/-- There is no hash from which the job could be restored. -/
def missing (s : Store) (jobId : JobId) : Bool := (s.val (.job jobId)).data.isNone

/-- What a reader is shown under an id. -/
def shown (self : Queue) (s : Store) (jobId : JobId) : Option Job :=
  match Job.restore jobId (s.val (.job jobId)) with
  | .ok job => if job.origin = self.name then some job else none
  | .error _ => none

/-- These ids have left the list, each time the first entry, and nothing else has changed. -/
structure Trimmed (queue : Queue) (taken : List JobId) (s s' : Store) : Prop where
  list : s'.val (.list queue.key) = (s.val (.list queue.key)).diff taken
  others : ∀ k, k ≠ .list queue.key → KeyStore.AgreeAt k s' s

variable {self : Queue} {s s' : Store}

lemma Trimmed.refl (self : Queue) (s : Store) : self.Trimmed [] s s :=
  ⟨rfl, fun _ _ => ⟨rfl, rfl⟩⟩

lemma Trimmed.trans {taken taken' : List JobId} {s'' : Store} (h : self.Trimmed taken s s')
    (h' : self.Trimmed taken' s' s'') : self.Trimmed (taken ++ taken') s s'' where
  list := by rw [h'.list, h.list, List.diff_append]
  others k hk := (h'.others k hk).trans (h.others k hk)

lemma trimmed_lrem (self : Queue) (jobId : JobId) (s : Store) :
    self.Trimmed [jobId] s ((lrem self.key jobId).run s) where
  list := by simp
  others _ hk := Command.frames_alter hk s

/-- A reader changes nothing about the jobs. -/
lemma Trimmed.missing_eq {taken : List JobId} (h : self.Trimmed taken s s') :
    missing s' = missing s := by
  funext jobId
  rw [missing, missing, (h.others (.job jobId) (by simp)).1]

lemma Trimmed.shown_eq {taken : List JobId} (h : self.Trimmed taken s s') :
    self.shown s' = self.shown s := by
  funext jobId
  rw [shown, shown, (h.others (.job jobId) (by simp)).1]

lemma restore_of_missing {jobId : JobId} (hmissing : missing s jobId = true) :
    Job.restore jobId (s.val (.job jobId)) = .error (.noSuchJobError "Unexpected job format") := by
  have hnone : (s.val (.job jobId)).data = none := by simpa [missing] using hmissing
  rw [Job.restore, hnone]

/-- What `Job.fetch` reads or raises. -/
lemma attempting_fetch (jobId : JobId) : attempting (Job.fetch jobId) = .step id fun s =>
    .ret (if s.val (.job jobId) = default
      then .error (.noSuchJobError s!"No such job: rq:job:{jobId}")
      else Job.restore jobId (s.val (.job jobId))) := by
  simp only [attempting, catching, Job.fetch, Prog.read, Prog.step_bind, Prog.tryCatch_step,
    Prog.ret_bind]
  refine congrArg (Prog.step id) (funext fun s => ?_)
  split
  · rfl
  · cases hrestore : Job.restore jobId (s.val (.job jobId)) with
    | ok job => rfl
    | error e =>
      have hraised : e ≠ .stillRunning := by
        rintro rfl
        unfold Job.restore at hrestore
        split at hrestore <;> cases hrestore
      show (if e = .stillRunning then (.throw e : Redis (Except PyError Job)) else _) = _
      rw [if_neg hraised]
      rfl

/-- An id without a hash leaves the list, in a step of its own. -/
lemma fetchJob_eq (self : Queue) (jobId : JobId) :
    self.fetchJob jobId = .step id fun s =>
      if missing s jobId then (do self.remove jobId; return none)
      else .ret (self.shown s jobId) := by
  rw [fetchJob, attempting_fetch, Prog.step_bind]
  refine congrArg (Prog.step id) (funext fun s => ?_)
  cases hmissing : missing s jobId with
  | true =>
    rw [if_pos rfl, restore_of_missing hmissing]
    split <;> rfl
  | false =>
    have hdata : (s.val (.job jobId)).data.isSome := by simpa [missing] using hmissing
    have hne : s.val (.job jobId) ≠ default := ne_default_of_data hdata
    obtain ⟨job, hrestore⟩ := Job.exists_restore jobId hdata
    rw [if_neg hne, shown, hrestore]
    rfl

lemma run_fetchJob (self : Queue) (jobId : JobId) (s : Store) :
    ∃ s', (self.fetchJob jobId).run s = (.ok (self.shown s jobId), s') ∧
      self.Trimmed ([jobId].filter (missing s)) s s' := by
  rw [fetchJob_eq, Prog.run_step]
  cases hmissing : missing s jobId with
  | true =>
    refine ⟨(lrem self.key jobId).run s, ?_, ?_⟩
    · rw [if_pos rfl, shown, restore_of_missing hmissing]
      rfl
    · rw [List.filter_cons_of_pos hmissing, List.filter_nil]
      exact trimmed_lrem self jobId s
  | false =>
    refine ⟨s, rfl, ?_⟩
    rw [List.filter_cons_of_neg (by simp [hmissing]), List.filter_nil]
    exact .refl self s

lemma run_fetchJobs (self : Queue) (jobIds : List JobId) (s : Store) :
    ∃ s', (self.fetchJobs jobIds).run s = (.ok (jobIds.map (self.shown s)), s') ∧
      self.Trimmed (jobIds.filter (missing s)) s s' := by
  induction jobIds generalizing s with
  | nil => exact ⟨s, rfl, .refl self s⟩
  | cons jobId jobIds ih =>
    obtain ⟨s₁, hfetch, htrimmed⟩ := run_fetchJob self jobId s
    obtain ⟨s₂, hrest, htrimmed'⟩ := ih s₁
    rw [htrimmed.shown_eq] at hrest
    rw [htrimmed.missing_eq] at htrimmed'
    refine ⟨s₂, ?_, ?_⟩
    · rw [fetchJobs, Prog.run_bind_ok hfetch, Prog.run_bind_ok hrest]
      rfl
    · have hfilter : (jobId :: jobIds).filter (missing s) =
          [jobId].filter (missing s) ++ jobIds.filter (missing s) := by
        rw [← List.filter_append, List.singleton_append]
      rw [hfilter]
      exact htrimmed.trans htrimmed'

lemma rangeIn_all : self.rangeIn s 0 (-1) = s.val (.list self.key) := lrange_all _

lemma rangeIn_page (offset : ℕ) {k : ℕ} (hk : 0 < k) :
    self.rangeIn s offset k = ((s.val (.list self.key)).drop offset).take k := by
  rw [rangeIn, if_pos (by omega), lrange_page _ _ hk]

/-- **Reading a queue.** A reader gets, in order, the jobs in the range that have the queue as their
origin. Each id in the range that is found without a hash takes the first entry with that id from
the list, and nothing else changes. -/
theorem run_getJobs_range (self : Queue) (offset length : ℤ) (s : Store) :
    ∃ s', (self.getJobs offset length).run s =
        (.ok ((self.rangeIn s offset length).filterMap (self.shown s)), s') ∧
      self.Trimmed ((self.rangeIn s offset length).filter (missing s)) s s' := by
  obtain ⟨s', hfetch, htrimmed⟩ := run_fetchJobs self (self.rangeIn s offset length) s
  refine ⟨s', ?_, htrimmed⟩
  have hids : (self.getJobIds offset length).run s = (.ok (self.rangeIn s offset length), s) := rfl
  rw [getJobs, Prog.run_bind_ok hids, Prog.run_bind_ok hfetch]
  have hcompact : (List.map (self.shown s) (self.rangeIn s offset length)).reduceOption =
      (self.rangeIn s offset length).filterMap (self.shown s) := by
    rw [List.reduceOption, List.filterMap_map]
    rfl
  rw [← hcompact]
  rfl

/-- After a reader of the whole queue the list has only ids whose job has a hash. -/
theorem list_of_run_getJobs (self : Queue) (s : Store) :
    ((self.getJobs 0 (-1)).run s).2.val (.list self.key) =
      (s.val (.list self.key)).filter fun jobId => !missing s jobId := by
  obtain ⟨s', hrun, htrimmed⟩ := run_getJobs_range self 0 (-1) s
  rw [hrun, htrimmed.list, rangeIn_all, diff_filter]

/-! ### Pages -/

lemma run_pages_from (self : Queue) {k : ℕ} (hk : 0 < k) (m offset : ℕ) (s : Store) :
    ∃ pages s', ((List.range m).mapM fun i => self.getJobs (offset + i * k : ℕ) k).run s =
        (.ok pages, s') ∧
      pages.flatten = (visited (missing s) k m ((s.val (.list self.key)).drop offset)).filterMap
        (self.shown s) ∧
      self.Trimmed ((visited (missing s) k m ((s.val (.list self.key)).drop offset)).filter
        (missing s)) s s' := by
  induction m generalizing offset s with
  | zero => exact ⟨[], s, rfl, rfl, .refl self s⟩
  | succ m ih =>
    generalize hpage : ((s.val (.list self.key)).drop offset).take k = page
    obtain ⟨s₁, hread, htrimmed⟩ := run_getJobs_range self offset k s
    obtain ⟨pages, s₂, hpages, hflatten, hrest⟩ := ih (offset + k) s₁
    rw [rangeIn_page offset hk, hpage] at hread htrimmed
    -- the entries that have been removed lie before the next page
    have hbefore : (page.filter (missing s)).Subperm
        ((s.val (.list self.key)).take (offset + k)) := by
      rw [List.take_add, hpage]
      exact (List.filter_sublist.trans (List.sublist_append_right _ _)).subperm
    have hnext : (s₁.val (.list self.key)).drop (offset + k) =
        ((s.val (.list self.key)).drop offset).drop (k + page.countP (missing s)) := by
      rw [htrimmed.list, drop_diff hbefore, ← List.countP_eq_length_filter, Nat.add_assoc,
        List.drop_drop]
    rw [htrimmed.shown_eq, htrimmed.missing_eq, hnext] at hflatten
    rw [htrimmed.missing_eq, hnext] at hrest
    have hvisited : visited (missing s) k (m + 1) ((s.val (.list self.key)).drop offset) =
        page ++ visited (missing s) k m
          (((s.val (.list self.key)).drop offset).drop (k + page.countP (missing s))) := by
      rw [visited, hpage]
    refine ⟨page.filterMap (self.shown s) :: pages, s₂, ?_, ?_, ?_⟩
    · have hoffsets : (fun i => self.getJobs (offset + i * k : ℕ) k) ∘ Nat.succ =
          fun i => self.getJobs (offset + k + i * k : ℕ) k := by
        funext i
        rw [Function.comp_apply, Nat.succ_mul, Nat.add_assoc, Nat.add_comm k]
      rw [List.range_succ_eq_map, List.mapM_cons, Nat.zero_mul, Nat.add_zero,
        Prog.run_bind_ok hread, List.mapM_map, hoffsets, Prog.run_bind_ok hpages]
      rfl
    · rw [List.flatten_cons, hflatten, hvisited, List.filterMap_append]
    · rw [hvisited, List.filter_append]
      exact htrimmed.trans hrest

/-- **Reading a queue in pages.** The pages show the jobs of the list without the entries that move
up while it is read: behind a page as many of them are passed over as it removes. What is shown
without a hash is removed, and nothing else. -/
theorem run_pages (self : Queue) {k : ℕ} (hk : 0 < k) (m : ℕ) (s : Store) :
    ∃ pages s', ((List.range m).mapM fun i => self.getJobs (i * k : ℕ) k).run s =
        (.ok pages, s') ∧
      pages.flatten = (visited (missing s) k m (s.val (.list self.key))).filterMap
        (self.shown s) ∧
      self.Trimmed ((visited (missing s) k m (s.val (.list self.key))).filter
        (missing s)) s s' := by
  have hpages := run_pages_from self hk m 0 s
  simpa only [Nat.zero_add, List.drop_zero] using hpages

/-- Where every job has a hash, the pages show all of the queue and leave it as it is. -/
theorem run_pages_live {k : ℕ} (hk : 0 < k) {m : ℕ}
    (hlive : ∀ jobId ∈ s.val (.list self.key), missing s jobId = false)
    (hlength : (s.val (.list self.key)).length ≤ m * k) :
    ∃ pages s', ((List.range m).mapM fun i => self.getJobs (i * k : ℕ) k).run s =
        (.ok pages, s') ∧
      pages.flatten = (s.val (.list self.key)).filterMap (self.shown s) ∧
      self.Trimmed [] s s' := by
  obtain ⟨pages, s', hrun, hflatten, htrimmed⟩ := run_pages_from self hk m 0 s
  simp only [Nat.zero_add] at hrun
  rw [List.drop_zero, visited_eq_take k m hlive, List.take_of_length_le hlength]
    at hflatten htrimmed
  have hnone : (s.val (.list self.key)).filter (missing s) = [] := by
    rw [List.filter_eq_nil_iff]
    intro jobId hmem
    rw [hlive jobId hmem]
    decide
  rw [hnone] at htrimmed
  exact ⟨pages, s', hrun, hflatten, htrimmed⟩

/-- The queue holds `a`, `b` and `c`; the hash of `a` has expired. -/
def pagesStore : Store :=
  (Command.seq [push (queueKey "q") false "a", hset "b" { data := some "", origin := some "q" },
    push (queueKey "q") false "b", hset "c" { data := some "", origin := some "q" },
    push (queueKey "q") false "c"]).run Store.empty

/-- The first page is empty, and the second one does not show `b`. -/
theorem run_pages_skipped : ∃ pages s',
    ((List.range 3).mapM fun i => (Queue.mk "q" 180).getJobs (i * 1 : ℕ) (1 : ℕ)).run pagesStore =
      (.ok pages, s') ∧ pages.flatten.map Job.id = ["c"] := by
  obtain ⟨pages, s', hrun, hpages, -⟩ := run_pages ⟨"q", 180⟩ Nat.one_pos 3 pagesStore
  refine ⟨pages, s', hrun, ?_⟩
  rw [hpages]
  decide +kernel

/-! ### Positions -/

/-- Both ways give the same answer. -/
theorem run_getJobPosition (self : Queue) (hasLpos : Bool) (jobId : JobId) (s : Store) :
    (self.getJobPosition hasLpos jobId).run s =
      (.ok ((s.val (.list self.key)).findIdx? (· = jobId)), s) := by
  unfold getJobPosition
  cases hasLpos with
  | true => rfl
  | false =>
    have hids : (self.getJobIds 0 (-1)).run s = (.ok (s.val (.list self.key)), s) := by
      rw [getJobIds, Prog.run_read, rangeIn_all]
    rw [if_neg (by decide), Prog.run_bind_ok hids]
    by_cases hmem : jobId ∈ s.val (.list self.key)
    · rw [if_pos hmem, Prog.run_bind_ok hids]
      cases hfound : (s.val (.list self.key)).findIdx? (· = jobId) with
      | none =>
        have hnot := List.findIdx?_eq_none_iff.mp hfound jobId hmem
        simp at hnot
      | some position => rfl
    · have hnone : (s.val (.list self.key)).findIdx? (· = jobId) = none :=
        List.findIdx?_eq_none_iff.mpr fun id hid =>
          decide_eq_false fun heq => hmem (heq ▸ hid)
      rw [if_neg hmem, hnone]
      rfl

/-! ### Emptying -/

/-- A turn of the loop. -/
lemma exists_turn {key : String} {head : JobId} {tail : List JobId}
    (hlist : s.val (.list key) = head :: tail) :
    ∃ s₁, (∀ fuel count, emptyLoop key (fuel + 1) (count, s) =
        emptyLoop key fuel (count + 1, s₁)) ∧
      s₁.val (.list key) = tail ∧
      s₁.val (.job head) = default ∧ s₁.val (.dependents head) = default ∧
      ∀ k, k ≠ .list key → k ≠ .job head → k ≠ .dependents head → KeyStore.AgreeAt k s₁ s := by
  refine ⟨(Command.seq [.alter (.list key) List.tail, .del (.job head),
    .del (.dependents head)]).run s, fun fuel count => ?_, ?_, ?_, ?_, ?_⟩
  · rw [emptyLoop, hlist]
    rfl
  · simp [hlist]
  · simp
  · simp
  · intro k hk hjob hdependents
    refine Command.frames_seq (fun c hc => ?_) s
    simp only [List.mem_cons, List.not_mem_nil, or_false] at hc
    rcases hc with rfl | rfl | rfl
    · exact Command.frames_alter hk
    · exact Command.frames_alter hjob
    · exact Command.frames_alter hdependents

lemma run_emptyLoop (key : String) {fuel : ℕ} (count : ℕ) {s : Store}
    (hfuel : (s.val (.list key)).length < fuel) :
    (emptyLoop key fuel (count, s)).1 = count + (s.val (.list key)).length ∧
      (emptyLoop key fuel (count, s)).2.val (.list key) = [] ∧
      (∀ jobId ∈ s.val (.list key), (emptyLoop key fuel (count, s)).2.val (.job jobId) = default ∧
        (emptyLoop key fuel (count, s)).2.val (.dependents jobId) = default) ∧
      ∀ k, k ≠ .list key → (∀ jobId ∈ s.val (.list key), k ≠ .job jobId ∧ k ≠ .dependents jobId) →
        KeyStore.AgreeAt k (emptyLoop key fuel (count, s)).2 s := by
  induction fuel generalizing count s with
  | zero => omega
  | succ fuel ih =>
    cases hlist : s.val (.list key) with
    | nil =>
      have hloop : emptyLoop key (fuel + 1) (count, s) = (count, s) := by
        rw [emptyLoop, hlist]
        rfl
      rw [hloop]
      exact ⟨rfl, hlist, fun _ hmem => absurd hmem List.not_mem_nil, fun _ _ _ => ⟨rfl, rfl⟩⟩
    | cons head tail =>
      obtain ⟨s₁, hloop, htail, hjob, hdependents, hframe⟩ := exists_turn hlist
      rw [hlist, List.length_cons] at hfuel
      obtain ⟨hcount, hnil, hgone, hothers⟩ := ih (count + 1) (s := s₁) (by rw [htail]; omega)
      rw [htail] at hcount hgone hothers
      rw [hloop]
      refine ⟨by rw [hcount, List.length_cons]; omega, hnil, fun jobId hmem => ?_,
        fun k hk hkeys => ?_⟩
      · by_cases htailmem : jobId ∈ tail
        · exact hgone jobId htailmem
        · -- the later turns leave the keys of the first id as they are
          obtain rfl : jobId = head := by simpa [htailmem] using hmem
          have hapart : ∀ id ∈ tail, jobId ≠ id := fun id hid heq => htailmem (heq ▸ hid)
          have hjob' := hothers (.job jobId) (by simp) fun id hid => by simp [hapart id hid]
          have hdependents' := hothers (.dependents jobId) (by simp) fun id hid => by
            simp [hapart id hid]
          exact ⟨hjob'.1.trans hjob, hdependents'.1.trans hdependents⟩
      · have hrest := hothers k hk fun jobId hmem => hkeys jobId (List.mem_cons_of_mem _ hmem)
        obtain ⟨hjob', hdependents'⟩ := hkeys head List.mem_cons_self
        exact hrest.trans (hframe k hk hjob' hdependents')

/-- **Emptying a queue.** The list is gone, and with it the hash of every job in it and its set of
dependents; nothing else changes. -/
theorem run_empty (self : Queue) (s : Store) :
    ∃ s', self.empty.run s = (.ok (s.val (.list self.key)).length, s') ∧
      s'.val (.list self.key) = [] ∧
      (∀ jobId ∈ s.val (.list self.key),
        s'.val (.job jobId) = default ∧ s'.val (.dependents jobId) = default) ∧
      ∀ k, k ≠ .list self.key →
        (∀ jobId ∈ s.val (.list self.key), k ≠ .job jobId ∧ k ≠ .dependents jobId) →
        KeyStore.AgreeAt k s' s := by
  obtain ⟨hcount, hnil, hgone, hothers⟩ := run_emptyLoop self.key 0
    (Nat.lt_succ_self (s.val (.list self.key)).length)
  refine ⟨(emptyScript self.key s).2, ?_, hnil, hgone, hothers⟩
  rw [empty, Prog.run_step, Prog.run_ret, emptyScript, hcount, Nat.zero_add]

/-- **Deleting a queue** with its jobs. -/
theorem run_deleteWithJobs (self : Queue) (s : Store) :
    ∃ s', self.deleteWithJobs.run s = (.ok (), s') ∧ s'.val (.list self.key) = [] ∧
      self.key ∉ s'.val .queues ∧
      (∀ jobId ∈ s.val (.list self.key),
        s'.val (.job jobId) = default ∧ s'.val (.dependents jobId) = default) ∧
      ∀ k, k ≠ .list self.key → k ≠ .queues →
        (∀ jobId ∈ s.val (.list self.key), k ≠ .job jobId ∧ k ≠ .dependents jobId) →
        KeyStore.AgreeAt k s' s := by
  obtain ⟨s₁, hempty, -, hgone, hothers⟩ := run_empty self s
  have hdelete : self.delete.run s₁ = (.ok (), (Command.del (.list self.key)).run
      ((Command.alter .queues fun q => q.erase self.key).run s₁)) := rfl
  have hframe : ∀ k, k ≠ .list self.key → k ≠ .queues →
      KeyStore.AgreeAt k (self.delete.run s₁).2 s₁ := by
    intro k hlist hqueues
    rw [hdelete]
    have hlisted : (Command.del (.list self.key) : Command Key Value).Frames k :=
      Command.frames_alter hlist
    have hregistered : (Command.alter .queues fun q => q.erase self.key :
        Command Key Value).Frames k := Command.frames_alter hqueues
    exact (hlisted _).trans (hregistered _)
  refine ⟨(self.delete.run s₁).2, ?_, ?_, ?_, fun jobId hmem => ?_, fun k hlist hqueues hkeys => ?_⟩
  · rw [deleteWithJobs, Prog.run_bind_ok hempty, hdelete]
  · rw [hdelete, Command.val_del, Function.update_self]
    rfl
  · rw [hdelete, Command.val_del, Function.update_of_ne (by simp), Command.val_alter,
      Function.update_self]
    exact fun hmem => (RSet.mem_erase.mp hmem).2 rfl
  · rw [(hframe _ (by simp) (by simp)).1, (hframe _ (by simp) (by simp)).1]
    exact hgone jobId hmem
  · exact (hframe k hlist hqueues).trans (hothers k hlist hkeys)

/-! ## Readers among other processes -/

/-- The job has a hash, and its id is at least `n` times in the list. -/
structure Queued (queue : Queue) (jobId : JobId) (n : ℕ) (s : Store) : Prop where
  saved : missing s jobId = false
  count : n ≤ (s.val (.list queue.key)).count jobId

/-- What is left of a reader that still has to fetch these jobs. -/
def reading (self : Queue) (jobIds : List JobId) : Redis Unit := do
  let _ ← self.fetchJobs jobIds
  return ()

/-- A reader that has found no hash under the id and removes an entry next. -/
def removing (self : Queue) (jobId : JobId) (jobIds : List JobId) : Redis Unit := do
  self.remove jobId
  self.reading jobIds

/-- A process that takes no entry of the job away, and not its hash. -/
def Spares (self : Queue) (jobId : JobId) (p : Redis Unit) : Prop :=
  ∀ n, p.Within (self.Queued jobId n) (fun _ _ => True) fun _ => True

/-- A reader at any point of `get_jobs`. -/
def Reader (self : Queue) (p : Redis Unit) : Prop :=
  ∃ offset length, Prog.Leaves (do let _ ← self.getJobs offset length; return ()) p

/-- The first job of the rest is fetched, and only then is its entry removed. -/
lemma reading_cons (self : Queue) (jobId : JobId) (jobIds : List JobId) :
    self.reading (jobId :: jobIds) = .step id fun s =>
      if missing s jobId then self.removing jobId jobIds else self.reading jobIds := by
  rw [reading, fetchJobs, fetchJob_eq, Prog.step_bind, Prog.step_bind]
  refine congrArg (Prog.step id) (funext fun s => ?_)
  split
  · simp only [removing, reading, bind_assoc, pure_bind]
  · simp only [reading, bind_assoc, pure_bind, Prog.ret_bind]

/-- The range is read once. -/
lemma getJobs_eq (self : Queue) (offset length : ℤ) :
    (do let _ ← self.getJobs offset length; return () : Redis Unit) =
      .step id fun s => self.reading (self.rangeIn s offset length) := by
  refine congrArg (Prog.step id) (funext fun s => ?_)
  show ((self.fetchJobs _ >>= _) >>= _ : Redis Unit) = _
  rw [bind_assoc]
  rfl

/-! ### The steps of a reader -/

/-- What is left of a reader at any time. -/
lemma Reader.cases {p : Redis Unit} (h : self.Reader p) :
    (∃ offset length, p = .step id fun s => self.reading (self.rangeIn s offset length)) ∨
      (∃ jobIds, p = self.reading jobIds) ∨ ∃ jobId jobIds, p = self.removing jobId jobIds := by
  obtain ⟨offset, length, hleaves⟩ := h
  rw [getJobs_eq] at hleaves
  refine hleaves.of_advance (C := fun p =>
    (∃ offset length, p = .step id fun s => self.reading (self.rangeIn s offset length)) ∨
      (∃ jobIds, p = self.reading jobIds) ∨ ∃ jobId jobIds, p = self.removing jobId jobIds)
    ?_ (.inl ⟨offset, length, rfl⟩)
  rintro p s p' s' (⟨offset, length, rfl⟩ | ⟨jobIds, rfl⟩ | ⟨jobId, jobIds, rfl⟩) hadv
  · obtain ⟨rfl, -⟩ := Prod.mk.inj (Option.some.inj hadv)
    exact .inr (.inl ⟨_, rfl⟩)
  · cases jobIds with
    | nil => cases hadv
    | cons jobId jobIds =>
      rw [reading_cons] at hadv
      obtain ⟨rfl, -⟩ := Prod.mk.inj (Option.some.inj hadv)
      dsimp only
      split
      · exact .inr (.inr ⟨jobId, jobIds, rfl⟩)
      · exact .inr (.inl ⟨jobIds, rfl⟩)
  · obtain ⟨rfl, -⟩ := Prod.mk.inj (Option.some.inj hadv)
    exact .inr (.inl ⟨jobIds, rfl⟩)

section
variable {jobId : JobId} {n : ℕ}

/-- The entries of another id are removed. -/
lemma Queued.lrem {other : JobId} (hne : other ≠ jobId) (h : self.Queued jobId n s) :
    self.Queued jobId n ((lrem self.key other).run s) where
  saved := by rw [(trimmed_lrem self other s).missing_eq, h.saved]
  count := by
    rw [(trimmed_lrem self other s).list, List.diff_cons, List.diff_nil,
      List.count_erase_of_ne hne.symm]
    exact h.count

/-- A job that has a hash is fetched, and its entry is left alone. -/
lemma within_reading (jobIds : List JobId) :
    (self.reading jobIds).Within (self.Queued jobId n) (fun _ _ => True) fun _ => True := by
  induction jobIds with
  | nil => trivial
  | cons other jobIds ih =>
    rw [reading_cons]
    refine fun s hs => ⟨⟨hs, trivial⟩, ?_⟩
    dsimp only
    split
    · next hmissing =>
      have hne : other ≠ jobId := by
        rintro rfl
        rw [hs.saved] at hmissing
        cases hmissing
      exact fun s hs => ⟨⟨hs.lrem hne, trivial⟩, ih⟩
    · exact ih

lemma Reader.within {p : Redis Unit} (h : self.Reader p)
    (hremoving : ∀ jobIds, p ≠ self.removing jobId jobIds) :
    p.Within (self.Queued jobId n) (fun _ _ => True) fun _ => True := by
  rcases h.cases with ⟨offset, length, rfl⟩ | ⟨jobIds, rfl⟩ | ⟨other, jobIds, rfl⟩
  · exact fun s hs => ⟨⟨hs, trivial⟩, within_reading _⟩
  · exact within_reading jobIds
  · have hne : other ≠ jobId := by
      rintro rfl
      exact hremoving jobIds rfl
    exact fun s hs => ⟨⟨hs.lrem hne, trivial⟩, within_reading jobIds⟩

end

/-- **Readers and queued jobs.** Any number of readers, at any point of `get_jobs`, run among
processes that spare a queued job. In every interleaving the job keeps its hash and all its entries
if and only if no reader has found its hash missing, earlier, and is about to remove an entry. -/
theorem stays_queued_iff {ι : Type} [DecidableEq ι] {P : System ι Store PyError} {jobId : JobId}
    (hprocs : ∀ i, self.Reader (P.procs i) ∨ self.Spares jobId (P.procs i))
    (hsaved : missing P.store jobId = false) (hqueued : jobId ∈ P.store.val (.list self.key)) :
    (∀ P', P.Reaches P' →
        self.Queued jobId ((P.store.val (.list self.key)).count jobId) P'.store) ↔
      ∀ i jobIds, P.procs i ≠ self.removing jobId jobIds := by
  constructor
  · intro h i jobIds hproc
    have hadv : (P.procs i).advance P.store =
        some (self.reading jobIds, (lrem self.key jobId).run P.store) := by
      rw [hproc]
      rfl
    have hcount := (h _ (.single ⟨i, .mk hadv⟩)).count
    have hpos := List.count_pos_iff.mpr hqueued
    rw [(trimmed_lrem self jobId P.store).list, List.diff_cons, List.diff_nil,
      List.count_erase_self] at hcount
    omega
  · intro h P' hreaches
    refine hreaches.of_within (fun i => ?_) ⟨hsaved, le_rfl⟩
    rcases hprocs i with hreader | hspares
    · exact hreader.within (h i)
    · exact hspares _

/-- A job in its queue. -/
def queuedStore : Store :=
  (Command.seq [hset "a" { data := some "" }, push (queueKey "q") false "a"]).run Store.empty

/-- A reader has found the id without a hash. Then the job is enqueued again, under the same id, and
the reader removes the new entry. -/
theorem stays_queued_iff_lateRemoval : ¬∀ P', System.Reaches
    ⟨fun _ : Unit => (Queue.mk "q" 180).removing "a" [], queuedStore⟩ P' →
      (Queue.mk "q" 180).Queued "a" 1 P'.store := by
  intro hstays
  have hreader : (Queue.mk "q" 180).Reader ((Queue.mk "q" 180).removing "a" []) := by
    refine ⟨0, -1, ?_⟩
    rw [getJobs_eq]
    -- the list has the id, and there is no hash
    let s := (push (queueKey "q") false "a").run Store.empty
    have hrange : (Queue.mk "q" 180).rangeIn s 0 (-1) = ["a"] := by decide +kernel
    have hmissing : missing s "a" = true := by decide +kernel
    have hread : (Prog.step id fun s => (Queue.mk "q" 180).reading
        ((Queue.mk "q" 180).rangeIn s 0 (-1))).advance s =
          some ((Queue.mk "q" 180).reading ["a"], s) := by
      rw [Prog.advance, hrange]
      rfl
    have hfetched : ((Queue.mk "q" 180).reading ["a"]).advance s =
        some ((Queue.mk "q" 180).removing "a" [], s) := by
      rw [reading_cons, Prog.advance, hmissing]
      rfl
    exact .tail (.single ⟨s, s, hread⟩) ⟨s, s, hfetched⟩
  have hsaved : missing queuedStore "a" = false := by decide +kernel
  have hqueued : "a" ∈ queuedStore.val (.list (Queue.mk "q" 180).key) := by decide +kernel
  have hcount : (queuedStore.val (.list (Queue.mk "q" 180).key)).count "a" = 1 := by
    decide +kernel
  have hiff := @stays_queued_iff ⟨"q", 180⟩ Unit _
    ⟨fun _ => (Queue.mk "q" 180).removing "a" [], queuedStore⟩ "a" (fun _ => .inl hreader)
    hsaved hqueued
  rw [hcount] at hiff
  exact hiff.mp hstays () [] rfl

end Queue

end RedisQueue
