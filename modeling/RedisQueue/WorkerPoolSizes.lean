import Mathlib.Data.List.Perm.Subperm
import Mathlib.Data.List.Nodup
import RedisQueue.WorkerPool

/-!
# The size of a worker pool

* `Pool.Sized`: how many workers are in the dictionary, and how many are to come;
* `Pool.size_run`: there are never more workers than `num_workers`, the main loop keeps as many
  until it is stopped, and `start` returns when all of them are dead.
-/

namespace RedisQueue

namespace WorkerPool

/-- How many workers are not in the dictionary yet, of those that are being spawned. -/
def Statement.toCome : Statement → ℕ
  | .forRange n | .log n => n
  | .name n | .getWorkerProcess n | .processStart n | .workerData n _ | .insert n _ => n + 1
  | _ => 0

/-- The dictionary has been filled up since workers have been removed from it. -/
def Statement.filled : Statement → Bool
  | .join _ _ | .isAlive _ _ _ | .pop _ _ _ | .respawn | .delta | .activeTest | .exited => false
  | _ => true

/-- `all_workers_have_stopped` is being executed. -/
def Statement.reapsLast : Statement → Bool
  | .workerDatas caller | .join caller _ | .isAlive caller _ _ | .pop caller _ _ =>
    caller = .allWorkersHaveStopped
  | .activeTest => true
  | _ => false

namespace Pool

variable {self : Pool}

/-- The workers in the dictionary and those to come are `num_workers` at most, and no fewer while
the pool is not stopped. -/
structure Sized (pool : Pool) : Prop where
  nodup : pool.workerDict.Nodup
  le : pool.workerDict.length + pool.next.toCome ≤ pool.numWorkers
  full : pool.burst = false → pool.status ≠ .stopped → pool.next.filled = true →
    pool.workerDict.length + pool.next.toCome = pool.numWorkers
  reapsLast : pool.next.reapsLast = true → pool.status = .stopped

/-- A statement that neither registers nor removes a worker. -/
lemma Sized.goTo (h : self.Sized) {next : Statement} (hcome : next.toCome = self.next.toCome)
    (hfilled : next.filled = true → self.next.filled = true ∨ self.status = .stopped ∨
      self.burst = true)
    (hreaps : next.reapsLast = true → self.status = .stopped) :
    ({ self with next := next } : Pool).Sized where
  nodup := h.nodup
  le := by
    rw [hcome]
    exact h.le
  full hburst hstatus hnext := by
    rw [hcome]
    rcases hfilled hnext with hself | hstopped | htrue
    · exact h.full hburst hstatus hself
    · exact absurd hstopped hstatus
    · rw [hburst] at htrue
      cases htrue
  reapsLast := hreaps

/-- `self.worker_dict[name] = worker_data` -/
lemma Sized.insert (h : self.Sized) (hinv : self.Inv) {n data : ℕ}
    (hnext : self.next = .insert n data) :
    ({ self with workerDict := self.workerDict ++ [data], next := .log n } : Pool).Sized := by
  have hnotMem := (hinv.starting data ⟨n, .inr hnext⟩).2.1
  obtain ⟨hnodup, hle, hfull, -⟩ := h
  simp only [hnext, Statement.toCome, Statement.filled] at hle hfull
  constructor
  · exact List.nodup_append.mpr ⟨hnodup, List.nodup_singleton data, by
      rintro a ha b hb rfl
      exact hnotMem (List.mem_singleton.mp hb ▸ ha)⟩
  · simp only [Statement.toCome, List.length_append, List.length_singleton]
    omega
  · intro hburst hstatus _
    have hsize := hfull hburst hstatus trivial
    simp only [Statement.toCome, List.length_append, List.length_singleton]
    omega
  · simp [Statement.reapsLast]

/-- `self.worker_dict.pop(worker_data.name)` -/
lemma Sized.pop (h : self.Sized) {caller : Caller} {data : ℕ} {datas : List ℕ}
    (hnext : self.next = .pop caller data datas) :
    ({ self with
      workerDict := self.workerDict.filter (· ≠ data)
      next := .join caller datas } : Pool).Sized := by
  obtain ⟨hnodup, hle, -, hreaps⟩ := h
  simp only [hnext, Statement.toCome, Statement.reapsLast] at hle hreaps
  refine ⟨hnodup.filter _, ?_, by simp [Statement.filled], hreaps⟩
  have hfilter := List.length_filter_le (· ≠ data) self.workerDict
  simp only [Statement.toCome]
  omega

/-- `delta = self.num_workers - len(self.worker_dict)` -/
lemma Sized.delta (h : self.Sized) (hnext : self.next = .delta) :
    ({ self with next := .forRange (self.numWorkers - self.workerDict.length) } : Pool).Sized := by
  obtain ⟨hnodup, hle, -, -⟩ := h
  simp only [hnext, Statement.toCome] at hle
  refine ⟨hnodup, ?_, fun _ _ _ => ?_, by simp [Statement.reapsLast]⟩ <;>
    simp only [Statement.toCome] <;> omega

lemma Sized.step (h : self.Sized) (hinv : self.Inv) : self.statement.Sized := by
  have hreaps := h.reapsLast
  unfold statement
  cases hnext : self.next with
  | insert n data => exact h.insert hinv hnext
  | pop caller data datas => exact h.pop hnext
  | delta => exact h.delta hnext
  | processStart n =>
    have hsame : ({ self with next := .workerData n self.processes.length } : Pool).Sized := by
      apply h.goTo <;> simp [hnext, Statement.toCome, Statement.filled, Statement.reapsLast]
    exact ⟨hsame.nodup, hsame.le, hsame.full, hsame.reapsLast⟩
  | respawn =>
    dsimp only
    split
    · apply h.goTo <;> simp [hnext, Statement.toCome, Statement.filled, Statement.reapsLast]
    · next hrespawn =>
      -- nothing is respawned in burst mode, or after a stop
      apply h.goTo
      · simp [hnext, Statement.toCome]
      · intro _
        by_cases hburst : self.burst = true
        · exact .inr (.inr hburst)
        · simp only [Bool.not_eq_true] at hburst
          exact .inr (.inl (not_not.mp fun hstatus => hrespawn ⟨hburst, hstatus⟩))
      · simp [Statement.reapsLast]
  | mainLoop | burstTest | activeTest =>
    dsimp only
    split <;> apply h.goTo <;>
      simp_all [Statement.toCome, Statement.filled, Statement.reapsLast]
  | isAlive caller data datas =>
    dsimp only
    split <;> apply h.goTo <;>
      simp_all [Statement.toCome, Statement.filled, Statement.reapsLast]
  | join caller datas =>
    cases datas <;> cases caller <;> apply h.goTo <;>
      simp_all [Statement.toCome, Statement.filled, Statement.reapsLast]
  | forRange n =>
    cases n <;> apply h.goTo <;>
      simp [hnext, Statement.toCome, Statement.filled, Statement.reapsLast]
  | exited => exact h
  | workerDatas caller | name n | getWorkerProcess n | workerData n data | log n | sleep =>
    apply h.goTo <;> simp_all [Statement.toCome, Statement.filled, Statement.reapsLast]

lemma Sized.handle (h : self.Sized) (hinv : self.Inv) (event : Event) :
    (self.handle event).Sized := by
  cases event with
  | statement => exact h.step hinv
  | die data => exact ⟨h.nodup, h.le, h.full, h.reapsLast⟩
  | signal => exact ⟨h.nodup, h.le, fun _ hstatus => absurd rfl hstatus, fun _ => rfl⟩

lemma Sized.run (h : self.Sized) (hinv : self.Inv) (events : List Event) :
    (self.run events).Sized := by
  induction events generalizing self with
  | nil => exact h
  | cons event events ih => exact ih (h.handle hinv event) (hinv.handle event)

/-! ### The start -/

/-- Every worker is in the dictionary once, in the order of the spawning. -/
lemma workerDict_startWorkers (n : ℕ) (h : self.workerDict = List.range self.processes.length) :
    (self.startWorkers n).workerDict = List.range (self.processes.length + n) := by
  induction n generalizing self with
  | zero => exact h
  | succ n ih =>
    have hnext : self.startWorker.workerDict = List.range self.startWorker.processes.length := by
      simp [startWorker, h, List.range_succ]
    rw [Pool.startWorkers, ih hnext]
    simp [startWorker, Nat.add_assoc, Nat.add_comm 1]

lemma frame_startWorkers (self : Pool) (n : ℕ) : (self.startWorkers n).next = self.next ∧
    (self.startWorkers n).numWorkers = self.numWorkers := by
  induction n generalizing self with
  | zero => exact ⟨rfl, rfl⟩
  | succ n ih => exact ih self.startWorker

lemma burst_startWorkers (self : Pool) (n : ℕ) : (self.startWorkers n).burst = self.burst := by
  induction n generalizing self with
  | zero => rfl
  | succ n ih => exact ih self.startWorker

lemma sized_start (numWorkers : ℕ) (burst : Bool) : (start numWorkers burst).Sized := by
  have hdict : (start numWorkers burst).workerDict = List.range (0 + numWorkers) :=
    workerDict_startWorkers numWorkers rfl
  obtain ⟨hnext, hworkers⟩ :=
    frame_startWorkers { numWorkers := numWorkers, burst := burst } numWorkers
  have hnext' : (start numWorkers burst).next = .mainLoop := hnext
  have hworkers' : (start numWorkers burst).numWorkers = numWorkers := hworkers
  constructor
  · rw [hdict]
    exact List.nodup_range
  all_goals simp [hnext', hworkers', hdict, Statement.toCome, Statement.reapsLast]

lemma frame_run (events : List Event) :
    (self.run events).numWorkers = self.numWorkers ∧ (self.run events).burst = self.burst := by
  induction events generalizing self with
  | nil => exact ⟨rfl, rfl⟩
  | cons event events ih =>
    have hevent : (self.handle event).numWorkers = self.numWorkers ∧
        (self.handle event).burst = self.burst := by
      cases event with
      | statement =>
        simp only [Pool.handle, statement]
        repeat' split
        all_goals exact ⟨rfl, rfl⟩
      | die data | signal => exact ⟨rfl, rfl⟩
    exact ⟨ih.1.trans hevent.1, ih.2.trans hevent.2⟩

/-! ### The workers that are alive -/

/-- The workers that are alive, by their positions. -/
def aliveWorkers (self : Pool) : List ℕ := (List.range self.processes.length).filter self.isAlive

lemma mem_aliveWorkers {data : ℕ} : data ∈ self.aliveWorkers ↔ self.isAlive data = true := by
  simp only [aliveWorkers, List.mem_filter, List.mem_range, and_iff_right_iff_imp]
  exact lt_length_of_isAlive

lemma nodup_aliveWorkers (self : Pool) : self.aliveWorkers.Nodup := List.nodup_range.filter _

/-- At most one worker is alive without being in the dictionary, and it is to come. -/
lemma Sized.aliveWorkers_le (h : self.Sized) (hinv : self.Inv) :
    self.aliveWorkers.length ≤ self.numWorkers := by
  have hle := h.le
  by_cases hstarting : ∃ data, self.Starting data
  · obtain ⟨data, hdata⟩ := hstarting
    have hsubset : self.aliveWorkers ⊆ data :: self.workerDict := by
      intro data' hmem
      rcases hinv.registered data' (mem_aliveWorkers.mp hmem) with hdict | hother
      · exact List.mem_cons_of_mem data hdict
      · have hlast := (hinv.starting data hdata).1
        have hlast' := (hinv.starting data' hother).1
        obtain rfl : data' = data := by omega
        exact List.mem_cons_self
    have hlength := (self.nodup_aliveWorkers.subperm hsubset).length_le
    have hcome : 1 ≤ self.next.toCome := by
      obtain ⟨n, hnext | hnext⟩ := hdata <;> rw [hnext] <;> exact Nat.le_add_left 1 n
    rw [List.length_cons] at hlength
    omega
  · have hsubset : self.aliveWorkers ⊆ self.workerDict := by
      intro data' hmem
      rcases hinv.registered data' (mem_aliveWorkers.mp hmem) with hdict | hother
      · exact hdict
      · exact absurd ⟨data', hother⟩ hstarting
    have hlength := (self.nodup_aliveWorkers.subperm hsubset).length_le
    omega

/-- The dictionary is empty where `start` returns. -/
def Emptied (self : Pool) : Prop := self.next = .exited → self.workerDict = []

lemma Emptied.handle (h : self.Emptied) (event : Event) : (self.handle event).Emptied := by
  unfold Emptied at *
  cases event with
  | statement =>
    simp only [Pool.handle, statement]
    repeat' split
    all_goals simp_all
  | die data | signal => exact h

lemma Emptied.run (h : self.Emptied) (events : List Event) : (self.run events).Emptied := by
  induction events generalizing self with
  | nil => exact h
  | cons event events ih => exact ih (h.handle event)

/-- A worker that is alive is in the dictionary, where no worker is being spawned. -/
lemma Emptied.dead (h : self.Emptied) (hinv : self.Inv) (hnext : self.next = .exited) :
    self.aliveWorkers = [] := by
  apply List.eq_nil_iff_forall_not_mem.mpr
  intro data hmem
  rcases hinv.registered data (mem_aliveWorkers.mp hmem) with hdict | ⟨n, hstarting⟩
  · rw [h hnext] at hdict
    cases hdict
  · rw [hnext] at hstarting
    rcases hstarting with hstarting | hstarting <;> cases hstarting

/-- **The size of a pool.** There are never more workers than `num_workers`. At the head of the main
loop there are as many in the dictionary, unless the pool is stopped or in burst mode. When `start`
has returned, all workers are dead. -/
theorem size_run (numWorkers : ℕ) (burst : Bool) (events : List Event) :
    ((start numWorkers burst).run events).aliveWorkers.length ≤ numWorkers ∧
      (burst = false → ((start numWorkers burst).run events).status ≠ .stopped →
        ((start numWorkers burst).run events).next = .mainLoop →
        ((start numWorkers burst).run events).workerDict.length = numWorkers) ∧
      (((start numWorkers burst).run events).next = .exited →
        ((start numWorkers burst).run events).aliveWorkers = []) := by
  have hinv := (inv_start numWorkers burst).run events
  have hsized := (sized_start numWorkers burst).run (inv_start numWorkers burst) events
  have hemptied : ((start numWorkers burst).run events).Emptied := by
    apply Emptied.run
    intro hexited
    rw [start, (frame_startWorkers _ numWorkers).1] at hexited
    cases hexited
  have hworkers : ((start numWorkers burst).run events).numWorkers = numWorkers :=
    (frame_run events).1.trans (frame_startWorkers _ numWorkers).2
  have hburst : ((start numWorkers burst).run events).burst = burst :=
    (frame_run events).2.trans (burst_startWorkers _ numWorkers)
  refine ⟨?_, fun hfalse hstatus hnext => ?_, hemptied.dead hinv⟩
  · exact Nat.le_trans (hsized.aliveWorkers_le hinv) (Nat.le_of_eq hworkers)
  · have hfull := hsized.full (hburst.trans hfalse) hstatus (by rw [hnext]; rfl)
    rwa [hnext, hworkers] at hfull

end Pool

end WorkerPool

end RedisQueue
