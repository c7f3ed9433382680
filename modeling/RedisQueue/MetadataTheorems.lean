import RedisQueue.MetadataOutcomes
import RedisQueue.RetryRuns

/-!
# When the metadata that a function has saved are kept

* `Forked`: an execution as the work horse and its parent see it;
* `Forked.saver`: which of the two saves its copy of the metadata;
* `Forked.keepsMetadata_iff`: nothing is lost if and only if this copy is empty or up to date.
-/

namespace RedisQueue

open Prog

/-! ## The work horse and its parent -/

/-- How a work horse ends: `perform_job` returns, or it is killed while the function is running. -/
inductive HorseEnd where
  | returned (result : Bool)
  | killed
deriving DecidableEq, Repr

/-- The two processes that have a copy of the job. -/
inductive Process where
  | horse
  | parent
deriving DecidableEq, Repr

/-- An execution. `horse` and `parent` are the worker in the two processes, `job` is the object that
both have when the work horse is forked. `retVal` is the status of a work horse that is killed. -/
structure Forked where
  horse : Worker
  parent : Worker
  job : Job
  queue : Queue
  calls : List MetaCall
  outcome : Worker.Outcome
  userCode : Worker.UserCode := {}
  retVal : ℤ := 9
  stoppedCallback : Option String := none
  killedHandler : Option String := none
  startedAt : Time
  now : Time
  horseFuel : ℕ
  fuel : ℕ

namespace Forked

/-- `BaseWorker.perform_job` until the function has ended. -/
def runFunction (f : Forked) : Redis (Worker × Locals) := f.horse.beginFunction f.job f.calls f.now

/-- `Worker.monitor_work_horse` -/
def monitor (f : Forked) (retVal : ℤ) : Redis (Worker × Job) :=
  f.parent.monitorWorkHorse f.job f.queue retVal f.stoppedCallback f.killedHandler f.startedAt f.now
    f.fuel

/-- The work horse and its parent have handled the execution. -/
inductive Handled (f : Forked) (s : Store) : HorseEnd → Locals → Store → Prop where
  | returned {horse : Worker} {locals : Locals} {result : Bool} {r : Worker × Job}
      {r' : Worker × Job} {s₁ s₂ s₃ : Store}
      (hbegin : f.runFunction.run s = (.ok (horse, locals), s₁))
      (houtcome : (horse.handleOutcome locals.current f.queue f.outcome f.userCode f.now
        f.horseFuel).run s₁ = (.ok (result, r), s₂))
      (hmonitor : (f.monitor 0).run s₂ = (.ok r', s₃)) : Handled f s (.returned result) locals s₃
  | killed {horse : Worker} {locals : Locals} {r : Worker × Job} {s₁ s₂ : Store}
      (hbegin : f.runFunction.run s = (.ok (horse, locals), s₁)) (hretVal : f.retVal ≠ 0)
      (hmonitor : (f.monitor f.retVal).run s₁ = (.ok r, s₂)) : Handled f s .killed locals s₂

/-- Which process saves the job with its metadata. -/
def saver (f : Forked) : HorseEnd → Option Process
  | .returned result =>
    if f.horse.savesOutcome f.job f.outcome result then some .horse else none
  | .killed => if f.parent.retries f.job then some .parent else none

/-- The metadata of the object that a process has. -/
def copy (f : Forked) (locals : Locals) : Process → Option String
  | .horse => locals.current.metadata
  | .parent => f.job.metadata

/-- The copy that is saved, if any, is empty or what the function has saved last. -/
def UpToDate (f : Forked) (e : HorseEnd) (locals : Locals) (m : Option String) : Prop :=
  ∀ process ∈ f.saver e, f.copy locals process = none ∨ f.copy locals process = m

instance (f : Forked) (e : HorseEnd) (locals : Locals) (m : Option String) :
    Decidable (f.UpToDate e locals m) :=
  inferInstanceAs (Decidable (∀ process ∈ f.saver e, _ ∨ _))

/-- The hash of the job, if it still exists, holds the metadata `m`. -/
def KeepsIn (f : Forked) (m : Option String) (s : Store) : Prop :=
  s.val (.job f.job.id) ≠ default → metadataOf f.job.id s = m

/-! ## What is stored in the end -/

section Handled
variable {f : Forked} {s s' : Store} {e : HorseEnd} {locals : Locals} {m : Option String}

/-- When the function ends the metadata that it has saved last are stored. -/
lemma metadataOf_runFunction {horse : Worker}
    (hbegin : f.runFunction.run s = (.ok (horse, locals), s')) (hsaved : locals.saved = some m) :
    metadataOf f.job.id s' = m := by
  obtain ⟨-, hvalid, -⟩ := Worker.beginFunction_ok hbegin
  exact hvalid.saved m hsaved

/-- What becomes of the metadata when the work horse returns. -/
lemma savedBy_returned (ht : f.job.ttl ≠ some 0) {horse : Worker} {result : Bool}
    {r r' : Worker × Job} {s₁ s₂ s₃ : Store}
    (hbegin : f.runFunction.run s = (.ok (horse, locals), s₁))
    (houtcome : (horse.handleOutcome locals.current f.queue f.outcome f.userCode f.now
      f.horseFuel).run s₁ = (.ok (result, r), s₂))
    (hmonitor : (f.monitor 0).run s₂ = (.ok r', s₃)) :
    Worker.SavedBy f.job.id (f.horse.savesOutcome f.job f.outcome result) locals.current.metadata s₁
      s₃ := by
  obtain ⟨rfl, hvalid, -⟩ := Worker.beginFunction_ok hbegin
  have hval := Worker.val_of_monitorWorkHorse_zero hmonitor
  have hcurrent := hvalid.current
  generalize locals.current.metadata = p at hcurrent ⊢
  rw [hcurrent] at houtcome
  have hsaved := @Worker.savedBy_handleOutcome { f.horse with currentJobWorkingTime := 0 }
    { f.horse.started f.job f.now with metadata := p } f.queue f.userCode f.now f.horseFuel s₁ s₂ r
    result f.outcome ht f.now rfl houtcome
  unfold Worker.SavedBy at hsaved ⊢
  simp only [metadataOf, hval]
  exact hsaved

/-- What becomes of the metadata when the work horse is killed. -/
lemma savedBy_killed (ht : f.job.ttl ≠ some 0) (hretVal : f.retVal ≠ 0) {horse : Worker}
    {r : Worker × Job} {s₁ s₂ : Store} (hbegin : f.runFunction.run s = (.ok (horse, locals), s₁))
    (hmonitor : (f.monitor f.retVal).run s₁ = (.ok r, s₂)) :
    Worker.SavedBy f.job.id (f.parent.retries f.job) f.job.metadata s₁ s₂ := by
  obtain ⟨-, -, hstatus⟩ := Worker.beginFunction_ok hbegin
  exact Worker.savedBy_monitorWorkHorse ht hretVal hstatus hmonitor

/-- **What a function has saved is kept if and only if the copy of the process that saves the job is
empty or up to date.** -/
theorem keepsMetadata_iff {h : JobHash} (hfetched : Job.restore f.job.id h = .ok f.job)
    (hhandled : f.Handled s e locals s') (hsaved : locals.saved = some m) :
    f.KeepsIn m s' ↔ f.UpToDate e locals m := by
  have ht : f.job.ttl ≠ some 0 := (Job.restore_ok hfetched).2
  cases hhandled with
  | @returned horse _ result r r' s₁ s₂ _ hbegin houtcome hmonitor =>
    have hsavedBy := savedBy_returned ht hbegin houtcome hmonitor
    refine (hsavedBy.keeps_iff (metadataOf_runFunction hbegin hsaved)).trans ?_
    simp only [UpToDate, saver, Option.mem_def]
    split
    · next hsaves => simp [hsaves, copy]
    · next hsaves => simp [hsaves]
  | @killed horse _ r s₁ _ hbegin hretVal hmonitor =>
    have hsavedBy := savedBy_killed ht hretVal hbegin hmonitor
    refine (hsavedBy.keeps_iff (metadataOf_runFunction hbegin hsaved)).trans ?_
    simp only [UpToDate, saver, Option.mem_def]
    split
    · next hsaves => simp [hsaves, copy]
    · next hsaves => simp [hsaves]

end Handled

/-- A job with one retry left and metadata. -/
def progressJob : Job where
  id := "job"
  origin := "q"
  timeout := some 180
  enqueuedAt := some 0
  status := .queued
  retriesLeft := some 1
  metadata := some "step 1"

/-- Its function saves other metadata and fails. -/
def progressFork : Forked where
  horse := { name := "w", queues := ["q"] }
  parent := { name := "w", queues := ["q"] }
  job := progressJob
  queue := { name := "q" }
  calls := [.assign 0 (some "step 2"), .saveMeta 0]
  outcome := .raised "Exception"
  startedAt := 10
  now := 10
  horseFuel := 2
  fuel := 2

lemma progressJob_fetched :
    Job.restore "job" ((enqueuedStore progressJob).val (.job "job")) = .ok progressJob := by
  decide +kernel

/-- When the function ends. -/
def progressLocals : Locals where
  current := { progressFork.horse.started progressJob 10 with metadata := some "step 2" }
  saved := some (some "step 2")

lemma progressFork_runFunction : progressFork.runFunction.run (enqueuedStore progressJob) =
    (.ok (progressFork.horse, progressLocals),
      (progressFork.runFunction.run (enqueuedStore progressJob)).2) :=
  Prod.ext rfl rfl

/-- The work horse saves its own copy, which the function has changed. -/
theorem keepsMetadata_iff_failed : ∃ s',
    progressFork.Handled (enqueuedStore progressJob) (.returned false) progressLocals s' ∧
      progressFork.KeepsIn (some "step 2") s' := by
  obtain ⟨r, houtcome⟩ : ∃ r, ((progressFork.horse.handleOutcome progressLocals.current
      progressFork.queue progressFork.outcome progressFork.userCode 10 2).run
      (progressFork.runFunction.run (enqueuedStore progressJob)).2).1 = .ok (false, r) :=
    ⟨(progressFork.horse, { progressLocals.current with
      status := .queued, retriesLeft := some 0, enqueuedAt := some 10, endedAt := some 10 }),
      rfl⟩
  have hmonitor (s : Store) : ((progressFork.monitor 0).run s).1 =
      .ok (progressFork.parent, { progressJob with startedAt := some 10 }) := rfl
  have hhandled := Handled.returned progressFork_runFunction (Prod.ext houtcome rfl)
    (Prod.ext (hmonitor _) rfl)
  exact ⟨_, hhandled, (keepsMetadata_iff progressJob_fetched hhandled rfl).mpr (by decide)⟩

/-- **The parent of a work horse that is killed saves the metadata that it has fetched.** -/
theorem killed_loses_metadata : ∃ s',
    Job.restore "job" ((enqueuedStore progressJob).val (.job "job")) = .ok progressFork.job ∧
      progressFork.Handled (enqueuedStore progressJob) .killed progressLocals s' ∧
      progressLocals.saved = some (some "step 2") ∧ s'.val (.job "job") ≠ default ∧
      metadataOf "job" s' = some "step 1" := by
  obtain ⟨r, hmonitor⟩ : ∃ r, ((progressFork.monitor 9).run
      (progressFork.runFunction.run (enqueuedStore progressJob)).2).1 = .ok r :=
    ⟨(progressFork.parent, { progressJob with
      status := .queued, retriesLeft := some 0, enqueuedAt := some 10, startedAt := some 10,
      endedAt := some 10 }), rfl⟩
  exact ⟨_, progressJob_fetched, .killed progressFork_runFunction (by decide)
    (Prod.ext hmonitor rfl), rfl, by decide +kernel, by decide +kernel⟩

end Forked

end RedisQueue
