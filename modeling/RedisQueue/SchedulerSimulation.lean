import RedisQueue.SchedulerFleet

/-!
# Workers in pace and timely runs

The schedulers of `SchedulerFleet`, with the loop of their processes and its deadlines, are among
those of `Cluster`, where any scheduler does anything at any time.

* `SchedulerFleet.simulated`: a run in pace is a timely run of the cluster.
-/

namespace RedisQueue

open SchedulerFleet

/-- What a process is doing in a phase. -/
def SchedulerPhase.activity : SchedulerPhase → Activity
  | .awake _ | .beaten _ | .asleep _ => .idle
  | .acquiring _ names successful => .acquiring names successful
  | .enqueueing _ names program => .enqueueing names program

/-- A worker and the process that stands for its scheduler. -/
inductive WorkerScheduler.Matches : WorkerScheduler → SchedulerProcess → Prop where
  | dead {self old : RQScheduler} : Matches ⟨self, none, none⟩ ⟨old, .idle, false, some self⟩
  | acquiring {self : RQScheduler} {since : Time} {names : List QueueName}
      {successful : RSet QueueName} :
    Matches ⟨self, some (since, names, successful), none⟩
      ⟨self, .acquiring names successful, false, some self⟩
  | alive {self : RQScheduler} {child : SchedulerChild} :
    Matches ⟨self, none, some child⟩ ⟨child.self, child.phase.activity, true, some self⟩

/-- The scheduler `i` of a cluster does what makes its worker this one, and the store that store. -/
def Follows (c : Cluster) (i : ℕ) (worker : WorkerScheduler) (s : Store) : Prop :=
  ∃ process, Cluster.Run Cluster.Timely c (c.put i process s) ∧ worker.Matches process

section Steps
variable {c : Cluster} {i : ℕ} {worker : WorkerScheduler} {process process' : SchedulerProcess}
  {s : Store} {kind : SchedulerStep} {self : RQScheduler} {child : SchedulerChild}

@[simp] lemma Cluster.put_self : c.put i (c.processes i) c.store = c := by
  simp [Cluster.put]

lemma follows_refl (h : worker.Matches (c.processes i)) : Follows c i worker c.store :=
  ⟨_, by rw [Cluster.put_self]; exact .refl, h⟩

lemma follows_step (hprocess : c.processes i = process)
    (hstep : SchedulerProcess.Step i c.now kind process c.store process' s)
    (htimely : c.Timely (.step i kind)) (h : worker.Matches process') : Follows c i worker s :=
  ⟨process', Cluster.Run.refl.step hprocess hstep htimely, h⟩

/-- Two steps, of which the second one is not the start of a process. -/
lemma follows_steps {kind' : SchedulerStep} {process'' : SchedulerProcess} {s' : Store}
    (hprocess : c.processes i = process)
    (hstep : SchedulerProcess.Step i c.now kind process c.store process' s)
    (hstep' : SchedulerProcess.Step i c.now kind' process' s process'' s')
    (htimely : c.Timely (.step i kind)) (hkind : kind' ≠ .start) (h : worker.Matches process'') :
    Follows c i worker s' := by
  have htimely' : (c.put i process' s).Timely (.step i kind') := by
    cases kind' <;> trivial
  have hrun := (Cluster.Run.refl.step hprocess hstep htimely).step
    (Cluster.processes_put_self i _ _) hstep' htimely'
  rw [Cluster.put_put] at hrun
  exact ⟨process'', hrun, h⟩

/-- **One step of a worker.** -/
lemma follows_worker (h : worker.Matches (c.processes i)) (event : WorkerScheduler.Event)
    (hstart : ∀ pid, event = .start pid → ∀ name ∈ worker.self.acquiredLocks, c.Owns i name) :
    Follows c i (worker.step i c.now c.store event).1 (worker.step i c.now c.store event).2 := by
  generalize hprocess : c.processes i = process at h
  cases event with
  | acquire =>
    cases h with
    | dead => exact follows_step hprocess .reacquire trivial .acquiring
    | acquiring => exact follows_refl (hprocess ▸ .acquiring)
    | alive => exact follows_refl (hprocess ▸ .alive)
  | setLock =>
    cases h with
    | dead => exact follows_refl (hprocess ▸ .dead)
    | @acquiring self since names successful =>
      cases names with
      | nil => exact follows_refl (hprocess ▸ .acquiring)
      | cons name names => exact follows_step hprocess .setLock trivial .acquiring
    | alive => exact follows_refl (hprocess ▸ .alive)
  | start pid =>
    cases h with
    | dead => exact follows_refl (hprocess ▸ .dead)
    | @acquiring self since names successful =>
      cases names with
      | cons => exact follows_refl (hprocess ▸ .acquiring)
      | nil =>
        have htimely : c.Timely (.step i .start) := fun _ => by
          rw [hprocess]
          exact hstart pid rfl
        simp only [WorkerScheduler.step]
        split
        · next hnone => exact follows_step hprocess (.noRestart hnone) htimely .dead
        · next hsome => exact follows_step hprocess (.restart hsome) htimely .alive
    | alive => exact follows_refl (hprocess ▸ .alive)
  | fail =>
    cases h with
    | dead => exact follows_refl (hprocess ▸ .dead)
    | acquiring => exact follows_step hprocess .die trivial .dead
    | alive => exact follows_refl (hprocess ▸ .alive)

/-- **One step of a process.** -/
lemma follows_child (hprocess : c.processes i =
      ⟨child.self, child.phase.activity, true, some self⟩) (event : SchedulerChild.Event) :
    Follows c i ⟨self, none, (child.step i c.now c.store event).1⟩
      (child.step i c.now c.store event).2 := by
  obtain ⟨object, time, phase⟩ := child
  have hnothing : Follows c i ⟨self, none, some ⟨object, time, phase⟩⟩ c.store :=
    follows_refl (hprocess ▸ .alive)
  cases event with
  | turn =>
    cases phase with
    | awake since =>
      simp only [SchedulerChild.step]
      split
      · exact follows_step hprocess .acquire trivial .alive
      · exact follows_step hprocess .enqueue trivial .alive
    | acquiring | enqueueing | beaten | asleep => exact hnothing
  | setLock =>
    cases phase with
    | acquiring since names successful =>
      cases names with
      | nil => exact hnothing
      | cons name names => exact follows_step hprocess .setLock trivial .alive
    | awake | enqueueing | beaten | asleep => exact hnothing
  | acquired =>
    cases phase with
    | acquiring since names successful =>
      cases names with
      | cons => exact hnothing
      | nil => exact follows_steps hprocess .acquired .enqueue trivial (by simp) .alive
    | awake | enqueueing | beaten | asleep => exact hnothing
  | enqueue =>
    cases phase with
    | enqueueing since names program =>
      simp only [SchedulerChild.step]
      cases hadvance : program.advance c.store with
      | some stepped => exact follows_step hprocess (.advance hadvance) trivial .alive
      | none =>
        cases program with
        | throw e => exact follows_step hprocess .raised trivial .dead
        | ret u =>
          cases names with
          | nil => exact hnothing
          | cons name names => exact follows_step hprocess .nextRegistry trivial .alive
        | step => cases hadvance
        | exec =>
          simp only [Prog.advance] at hadvance
          split at hadvance <;> cases hadvance
    | awake | acquiring | beaten | asleep => exact hnothing
  | heartbeat =>
    cases phase with
    | enqueueing since names program =>
      cases names with
      | cons => exact hnothing
      | nil =>
        cases program with
        | ret u => exact follows_steps hprocess .enqueued .heartbeat trivial (by simp) .alive
        | throw | step | exec => exact hnothing
    | awake | acquiring | beaten | asleep => exact hnothing
  | sleep =>
    cases phase with
    | beaten since => exact follows_refl (hprocess ▸ .alive)
    | awake | acquiring | enqueueing | asleep => exact hnothing
  | wake =>
    cases phase with
    | asleep wake => exact follows_refl (hprocess ▸ .alive)
    | awake | acquiring | enqueueing | beaten => exact hnothing
  | stop =>
    cases phase with
    | awake since =>
      simp only [SchedulerChild.step]
      rcases hrelease : object.releaseLocks.run c.store with ⟨e | object', s⟩
      · exact follows_step hprocess (.releaseRaised hrelease) trivial .dead
      · exact follows_steps hprocess (.release hrelease) .die trivial (by simp) .dead
    | acquiring | enqueueing | beaten | asleep => exact hnothing
  | crash => exact follows_step hprocess .die trivial .dead

end Steps

namespace SchedulerFleet

/-- A fleet and the cluster of the same schedulers. -/
structure Matches (fleet : SchedulerFleet) (c : Cluster) : Prop where
  workers : ∀ i, (fleet.workers i).Matches (c.processes i)
  store : c.store = fleet.store
  now : c.now = fleet.clock

variable {δ ε : ℕ} {self : SchedulerFleet} {c : Cluster} {now : Time}

/-- Time passes. -/
lemma Matches.wait (h : self.Matches c) (hclock : self.clock ≤ now) :
    Matches { self with clock := now } (c.wait (now - self.clock).toNat) where
  workers := h.workers
  store := h.store
  now := by
    change c.now + ((now - self.clock).toNat : ℤ) = now
    have hnow : c.now = self.clock := h.now
    lia

/-- What one worker does leaves the others as they are. -/
lemma Matches.set (h : self.Matches c) {i : ℕ} {worker : WorkerScheduler} {s : Store}
    (hfollows : Follows c i worker s) :
    ∃ c', Cluster.Run Cluster.Timely c c' ∧ (self.set i worker s).Matches c' := by
  obtain ⟨process, hrun, hworker⟩ := hfollows
  refine ⟨_, hrun, fun j => ?_, rfl, h.now⟩
  by_cases hj : j = i
  · subst hj
    simpa [SchedulerFleet.set] using hworker
  · simpa [SchedulerFleet.set, Cluster.put, hj] using h.workers j

lemma HeldUntil.not_expired {s : Store} {i : ℕ} {name : QueueName} {t : Time}
    (h : HeldUntil s i name t) (hle : now ≤ t) : ¬s.Expired now (.schedulerLock name) := by
  obtain ⟨pid, expiry, -, hexp, hexpiry⟩ := h
  rintro ⟨t', ht', hlt⟩
  rw [hexp] at ht'
  obtain rfl := Option.some.inj ht'
  exact absurd (hle.trans hexpiry) (not_le.mpr hlt)

/-- In pace no lock expires that is counted as its own by a scheduler. -/
lemma Matches.timely_expire (h : self.Matches c) (hinv : self.Inv δ) (hδ : 2 * δ + ε ≤ 60)
    (hpace : ∀ i, WorkerInPace δ ε now (self.workers i)) (hnow : c.now = now) :
    c.Timely .expire := by
  subst hnow
  intro i name hclaims
  rw [h.store]
  have hworker := h.workers i
  have hheld := hinv i
  have hpace := hpace i
  generalize self.workers i = worker at hworker hheld hpace
  generalize c.processes i = process at hworker hclaims
  cases hworker with
  | dead => exact absurd hclaims Cluster.not_claims_idle
  | @acquiring scheduler since names successful =>
    rcases hclaims with ⟨hrunning, -⟩ | ⟨_, _, hactivity, hname⟩
    · cases hrunning
    · cases hactivity
      refine HeldUntil.not_expired ((hheld.held since names successful rfl).2 name hname) ?_
      have hnow : c.now ≤ since + (δ : ℤ) := hpace.acquiring _ rfl
      simp only [RQScheduler.lockTtl]
      lia
  | @alive scheduler child =>
    have hclaims : child.Claims name := by
      rcases hclaims with ⟨-, hname⟩ | ⟨names, successful, hactivity, hname⟩
      · exact .inl hname
      · refine .inr ?_
        obtain ⟨object, time, phase⟩ := child
        cases phase with
        | acquiring => exact ⟨_, _, _, rfl, by cases hactivity; exact hname⟩
        | awake | enqueueing | beaten | asleep => cases hactivity
    have hle := le_lasting hδ child.self.interval (hpace.child child rfl)
    exact HeldUntil.not_expired ((hheld.child child rfl).held name hclaims) hle

/-- **One event.** -/
lemma Matches.handle (h : self.Matches c) (hinv : self.Inv δ) (hδ : 2 * δ + ε ≤ 60)
    {event : Event} (hallows : self.Allows δ ε now event) :
    ∃ c', Cluster.Run Cluster.Timely c c' ∧ (self.handle now event).Matches c' := by
  have hwaited := h.wait hallows.clock
  generalize hc : c.wait (now - self.clock).toNat = waited at hwaited
  have hrun : Cluster.Run Cluster.Timely c waited := hc ▸ Cluster.Run.refl.tail .wait trivial
  have hnow : waited.now = now := hwaited.now
  have hstore : waited.store = self.store := hwaited.store
  suffices hsuffices : ∃ c', Cluster.Run Cluster.Timely waited c' ∧
      (self.handle now event).Matches c' by
    obtain ⟨c', hrun', hmatches⟩ := hsuffices
    exact ⟨c', hrun.trans hrun', hmatches⟩
  cases event with
  | worker i event =>
    have hfollows := follows_worker (hwaited.workers i) event fun pid hstart name hname => by
      subst hstart
      obtain ⟨pid, expiry, hval, -⟩ := hallows.permits name hname
      exact ⟨_, by rw [hstore]; exact hval, rfl⟩
    rw [hnow, hstore] at hfollows
    exact hwaited.set hfollows
  | child i event =>
    simp only [SchedulerFleet.handle]
    have hworker := hwaited.workers i
    cases hchild : (self.workers i).child with
    | none => exact ⟨waited, .refl, hwaited⟩
    | some child =>
      dsimp only
      dsimp only at hworker
      generalize hselected : self.workers i = worker at hworker hchild ⊢
      generalize hprocess : waited.processes i = process at hworker
      cases hworker with
      | dead | acquiring => cases hchild
      | @alive scheduler child' =>
        obtain rfl := Option.some.inj hchild
        have hfollows := follows_child hprocess event
        rw [hnow, hstore] at hfollows
        exact hwaited.set hfollows
  | expire =>
    refine ⟨waited.expire, Cluster.Run.refl.tail .expire ?_, hwaited.workers, ?_, hnow⟩
    · have hmatches : Matches { self with clock := now } waited := hwaited
      exact hmatches.timely_expire (fun i => (hinv i).later hallows.clock) hδ hallows.pace hnow
    · change waited.store.expireAt waited.now = self.store.expireAt now
      rw [hstore, hnow]

/-- **A run in pace is a timely run.** -/
theorem simulated (h : self.Matches c) (hinv : self.Inv δ) (hδ : 2 * δ + ε ≤ 60)
    {events : List (Time × Event)} (hallows : self.AllowsAll δ ε events) :
    ∃ c', Cluster.Run Cluster.Timely c c' ∧ (self.run events).Matches c' := by
  induction events generalizing self c with
  | nil => exact ⟨c, .refl, h⟩
  | cons event events ih =>
    obtain ⟨c', hrun, hmatches⟩ := h.handle hinv hδ hallows.1
    obtain ⟨c'', hrun', hmatches'⟩ := ih hmatches (hinv.handle hδ hallows.1) hallows.2
    exact ⟨c'', hrun.trans hrun', hmatches'⟩

end SchedulerFleet

end RedisQueue
