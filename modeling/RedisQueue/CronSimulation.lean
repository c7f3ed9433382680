import RedisQueue.CronFleet

/-!
# Cron schedulers in pace and their registry

The processes of `CronFleet`, with the turns of their loops, are among those of `CronCluster`, whose
schedulers do anything at any time. Where a process is in its turn and what it has not yet saved is
of no concern to the registry.

* `CronFleet.simulated`: a run in pace is a run in which no scheduler is born under a name that is
  taken, and no clean-up takes away an entry of a scheduler at work.
-/

namespace RedisQueue

namespace CronScheduler

/-! ## What the operations do to the registry -/

section Registry
variable {s t : CronStore} {self other : CronScheduler}

lemma agreeAt_registerBirth (h : KeyStore.AgreeAt .registry s t) (hname : self.name = other.name)
    (now : Time) : KeyStore.AgreeAt .registry ((self.registerBirth now).run s).2
      ((other.registerBirth now).run t).2 := by
  have hrest (scheduler : CronScheduler) :
      (Command.seq (scheduler.birthCommands now).tail).Frames .registry :=
    Command.frames_seq (by simp [birthCommands, Command.frames_write, Command.frames_expire])
  have hzadd : KeyStore.AgreeAt .registry ((zaddNx self.name now).run s)
      ((zaddNx other.name now).run t) := by
    rw [hname]
    exact Command.local_alter _ _ _ _ _ h
  rw [run_registerBirth, run_registerBirth]
  exact (hrest self _).trans (hzadd.trans (hrest other _).symm)

lemma agreeAt_heartbeat (h : KeyStore.AgreeAt .registry s t) (hname : self.name = other.name)
    (now : Time) : KeyStore.AgreeAt .registry ((self.heartbeat now).run s).2
      ((other.heartbeat now).run t).2 := by
  rw [run_heartbeat, run_heartbeat, hname]
  dsimp only
  refine Command.local_seq (fun c hc => ?_) _ _ _ h
  rcases List.mem_cons.mp hc with rfl | hc
  · exact Command.local_alter _ _
  · rw [List.mem_singleton.mp hc]
    exact Command.local_expire _ _

lemma agreeAt_registerDeath (h : KeyStore.AgreeAt .registry s t) (hname : self.name = other.name) :
    KeyStore.AgreeAt .registry (self.registerDeath.run s).2 (other.registerDeath.run t).2 := by
  rw [run_registerDeath, run_registerDeath, hname]
  exact Command.local_alter _ _ _ _ _ h

lemma agreeAt_saveJobsData (h : KeyStore.AgreeAt .registry s t) :
    KeyStore.AgreeAt .registry (self.saveJobsData.run s).2 (other.saveJobsData.run t).2 := by
  have hwrite (scheduler : CronScheduler) (s : CronStore) :
      KeyStore.AgreeAt .registry (scheduler.saveJobsData.run s).2 s := by
    have hne : CronKey.registry ≠ .scheduler scheduler.name := by simp
    rw [saveJobsData, Prog.run_perform]
    dsimp only
    exact Command.frames_write hne s
  exact (hwrite self s).trans (h.trans (hwrite other t).symm)

lemma agreeAt_cleanup (h : KeyStore.AgreeAt .registry s t) (threshold : ℤ) (now : Time) :
    KeyStore.AgreeAt .registry ((cleanup threshold now).run s).2
      ((cleanup threshold now).run t).2 := by
  rw [cleanup, Prog.run_perform, Prog.run_perform]
  dsimp only
  exact Command.local_alter _ _ _ _ _ h

lemma agreeAt_expireAt (h : KeyStore.AgreeAt .registry s t) (now : Time) :
    KeyStore.AgreeAt .registry (s.expireAt now) (t.expireAt now) := by
  have hexpired : s.Expired now .registry ↔ t.Expired now .registry := by
    unfold KeyStore.Expired
    rw [h.2]
  constructor <;> simp only [KeyStore.expireAt, hexpired, h.1, h.2]

end Registry

end CronScheduler

namespace CronFleet

/-! ## One event -/

/-- The same schedulers are at work, under the same names, and the registry is the same. -/
structure Matches (fleet : CronFleet) (cluster : CronCluster) : Prop where
  started : ∀ i, cluster.started i = decide (fleet.phase i ≠ .idle)
  names : ∀ i, (cluster.schedulers i).name = (fleet.schedulers i).name
  registry : KeyStore.AgreeAt .registry cluster.store fleet.store

/-- The cluster stands still, or an event that is allowed follows that of the fleet. -/
def Followed (cluster : CronCluster) (now : Time) (fleet : CronFleet) : Prop :=
  fleet.Matches cluster ∨
    ∃ event, cluster.Allows now event ∧ fleet.Matches (cluster.handle now event)

section Step
variable {self : CronFleet} {cluster : CronCluster} {now : Time} {i : ℕ}

/-- What keeps the registry, the names and who is at work. -/
lemma Matches.of_eq (h : self.Matches cluster) {fleet : CronFleet}
    (hphase : ∀ j, fleet.phase j = .idle ↔ self.phase j = .idle)
    (hnames : ∀ j, (fleet.schedulers j).name = (self.schedulers j).name)
    (hstore : fleet.store = self.store) : fleet.Matches cluster where
  started j := by simp [h.started, hphase]
  names j := (h.names j).trans (hnames j).symm
  registry := hstore ▸ h.registry

/-- A process goes from one phase of its work to another. -/
lemma idle_update_iff {phase : CronPhase} (hi : self.phase i ≠ .idle) (hphase : phase ≠ .idle)
    (j : ℕ) : Function.update self.phase i phase j = .idle ↔ self.phase j = .idle := by
  by_cases hji : j = i
  · subst hji
    simp [hi, hphase]
  · simp [hji]

lemma name_setJobs (jobs : List CronJob) (j : ℕ) :
    ((self.setJobs i jobs).schedulers j).name = (self.schedulers j).name := by
  by_cases hji : j = i
  · subst hji
    simp [setJobs]
  · simp [setJobs, hji]

lemma Matches.birth (h : self.Matches cluster) (hi : self.phase i = .idle)
    (hfree : (self.schedulers i).name ∉ self.store.val .registry) :
    Followed cluster now
      { (self.perform ((self.schedulers i).registerBirth now)).enter i (.awake now) with
        clock := now } := by
  have hidle : ¬cluster.started i = true := by simp [h.started, hi]
  refine .inr ⟨.birth i, fun _ => ?_, ?_⟩
  · rw [h.names, h.registry.1]
    exact hfree
  · simp only [CronCluster.handle, if_neg hidle, CronScheduler.run_registerBirth]
    refine ⟨fun j => ?_, h.names, ?_⟩
    · by_cases hji : j = i
      · subst hji
        simp [CronCluster.start, CronFleet.enter, Except.isOk, Except.toBool]
      · simp [CronCluster.start, CronCluster.perform, CronFleet.enter, perform, hji, h.started]
    · exact CronScheduler.agreeAt_registerBirth h.registry (h.names i) now

lemma Matches.save (h : self.Matches cluster) (hi : self.phase i ≠ .idle) (since : Time) :
    Followed cluster now
      { (self.perform (self.schedulers i).saveJobsData).enter i (.passed since false) with
        clock := now } := by
  have hstarted : cluster.started i = true := by simp [h.started, hi]
  refine .inr ⟨.enqueue i (self.schedulers i).cronJobs, trivial, ?_⟩
  simp only [CronCluster.handle, if_pos hstarted]
  refine ⟨fun j => ?_, fun j => ?_, CronScheduler.agreeAt_saveJobsData h.registry⟩
  · simp [CronCluster.perform, CronFleet.enter, perform, h.started,
      idle_update_iff hi (show CronPhase.passed since false ≠ .idle by simp)]
  · by_cases hji : j = i
    · subst hji
      simp [CronCluster.perform, CronFleet.enter, perform, h.names]
    · simp [CronCluster.perform, CronFleet.enter, perform, h.names, hji]

lemma Matches.beat (h : self.Matches cluster) (hi : self.phase i ≠ .idle) (since : Time) :
    Followed cluster now
      { (self.perform ((self.schedulers i).heartbeat now)).enter i (.beaten since) with
        clock := now } := by
  have hstarted : cluster.started i = true := by simp [h.started, hi]
  refine .inr ⟨.heartbeat i, trivial, ?_⟩
  simp only [CronCluster.handle, if_pos hstarted]
  refine ⟨fun j => ?_, h.names, CronScheduler.agreeAt_heartbeat h.registry (h.names i) now⟩
  simp [CronCluster.perform, CronFleet.enter, perform, h.started,
    idle_update_iff hi (show CronPhase.beaten since ≠ .idle by simp)]

lemma Matches.stop (h : self.Matches cluster) (hi : self.phase i ≠ .idle) :
    Followed cluster now
      { (self.perform (self.schedulers i).registerDeath).enter i .idle with clock := now } := by
  have hstarted : cluster.started i = true := by simp [h.started, hi]
  refine .inr ⟨.death i, trivial, ?_⟩
  simp only [CronCluster.handle, if_pos hstarted]
  refine ⟨fun j => ?_, h.names, CronScheduler.agreeAt_registerDeath h.registry (h.names i)⟩
  by_cases hji : j = i
  · subst hji
    simp [CronCluster.start, CronFleet.enter]
  · simp [CronCluster.start, CronCluster.perform, CronFleet.enter, perform, hji, h.started]

lemma Matches.crash (h : self.Matches cluster) :
    Followed cluster now { self.enter i .idle with clock := now } := by
  refine .inr ⟨.crash i, trivial, fun j => ?_, h.names, h.registry⟩
  by_cases hji : j = i
  · subst hji
    simp [CronCluster.handle, CronCluster.start, CronFleet.enter]
  · simp [CronCluster.handle, CronCluster.start, CronFleet.enter, hji, h.started]

/-- A clean-up leaves the entries of those in pace. -/
lemma Matches.cleanup {δ ε : ℕ} (h : self.Matches cluster) {threshold : ℤ}
    (hinv : Inv δ ε { self.perform (CronScheduler.cleanup threshold now) with clock := now }) :
    Followed cluster now
      { self.perform (CronScheduler.cleanup threshold now) with clock := now } := by
  have hregistry := CronScheduler.agreeAt_cleanup h.registry threshold now
  refine .inr ⟨.cleanup threshold, fun j hj => ?_, h.started, h.names, hregistry⟩
  have hwork : self.phase j ≠ .idle := by simpa [h.started] using hj
  have hmem : (self.schedulers j).name ∈
      ((CronScheduler.cleanup threshold now).run self.store).2.val .registry :=
    hinv.mem_registry hwork
  rw [← hregistry.1] at hmem
  rw [h.names]
  simpa [CronScheduler.cleanup, Prog.run_perform] using hmem

lemma Matches.handle {getNext : GetNext} {δ ε : ℕ} (hpace : 2 * δ + ε < 60)
    (hinv : self.Inv δ ε) (h : self.Matches cluster) {event : Event}
    (hallows : self.Allows δ ε now event) :
    Followed cluster now (self.handle getNext now event) := by
  have hsame : Followed cluster now { self with clock := now } :=
    .inl (h.of_eq (fun _ => Iff.rfl) (fun _ => rfl) rfl)
  -- from one phase of a turn to the next
  have henter {i : ℕ} {phase : CronPhase} (hi : self.phase i ≠ .idle) (hphase : phase ≠ .idle) :
      Followed cluster now { self.enter i phase with clock := now } :=
    .inl (h.of_eq (idle_update_iff hi hphase) (fun _ => rfl) rfl)
  cases event with
  | birth i =>
    cases hi : self.phase i with
    | idle =>
      simp only [CronFleet.handle, handleAt, hi]
      exact h.birth hi (hallows.permits hi)
    | _ => simpa only [CronFleet.handle, handleAt, hi] using hsame
  | pass i pass =>
    cases hi : self.phase i with
    | awake since =>
      simp only [CronFleet.handle, handleAt, hi]
      have hwork : self.phase i ≠ .idle := by simp [hi]
      refine .inl (h.of_eq (idle_update_iff hwork ?_) (name_setJobs _) rfl)
      split <;> simp
    | _ => simpa only [CronFleet.handle, handleAt, hi] using hsame
  | save i =>
    cases hi : self.phase i with
    | passed since unsaved =>
      cases unsaved with
      | true =>
        simp only [CronFleet.handle, handleAt, hi]
        exact h.save (by simp [hi]) since
      | false => simpa only [CronFleet.handle, handleAt, hi] using hsame
    | _ => simpa only [CronFleet.handle, handleAt, hi] using hsame
  | beat i =>
    cases hi : self.phase i with
    | passed since unsaved =>
      cases unsaved with
      | true => simpa only [CronFleet.handle, handleAt, hi] using hsame
      | false =>
        simp only [CronFleet.handle, handleAt, hi]
        exact h.beat (by simp [hi]) since
    | _ => simpa only [CronFleet.handle, handleAt, hi] using hsame
  | doze i =>
    cases hi : self.phase i with
    | beaten since =>
      simp only [CronFleet.handle, handleAt, hi]
      exact henter (by simp [hi]) (by simp)
    | _ => simpa only [CronFleet.handle, handleAt, hi] using hsame
  | wake i =>
    cases hi : self.phase i with
    | asleep wake =>
      simp only [CronFleet.handle, handleAt, hi]
      exact henter (by simp [hi]) (by simp)
    | _ => simpa only [CronFleet.handle, handleAt, hi] using hsame
  | stop i =>
    cases hi : self.phase i with
    | idle => simpa only [CronFleet.handle, handleAt, hi] using hsame
    | _ =>
      simp only [CronFleet.handle, handleAt, hi]
      exact h.stop (by simp [hi])
  | crash i => exact h.crash
  | cleanup threshold =>
    exact h.cleanup (hinv.cleanup hpace hallows.clock hallows.pace hallows.permits)
  | expire =>
    exact .inr ⟨.wait, trivial, h.started, h.names,
      CronScheduler.agreeAt_expireAt h.registry now⟩

end Step

/-! ## Whole runs -/

lemma Matches.run {getNext : GetNext} {δ ε : ℕ} (hpace : 2 * δ + ε < 60) {self : CronFleet}
    (hinv : self.Inv δ ε) {cluster : CronCluster} (h : self.Matches cluster)
    {events : List (Time × Event)} (hallows : self.AllowsAll getNext δ ε events) :
    ∃ events', cluster.AllowsAll events' ∧
      (self.run getNext events).Matches (cluster.run events') := by
  induction events generalizing self cluster with
  | nil => exact ⟨[], trivial, h⟩
  | cons event events ih =>
    have hinv' := @Inv.handle _ _ _ _ getNext hinv hpace _ hallows.1
    rcases @Matches.handle _ _ _ getNext _ _ hpace hinv h _ hallows.1 with h' | ⟨first, hfirst, h'⟩
    · exact ih hinv' h' hallows.2
    · obtain ⟨events', hevents', hmatches⟩ := ih hinv' h' hallows.2
      exact ⟨(event.1, first) :: events', ⟨hfirst, hevents'⟩, hmatches⟩

/-- The schedulers of the fleet, when none of them is at work. -/
def cluster (self : CronFleet) : CronCluster where
  schedulers := self.schedulers
  store := self.store

/-- **A run in pace is one of the cluster.** It is allowed there, and comes to the same registry
with the same schedulers at work. -/
theorem simulated {getNext : GetNext} {δ ε : ℕ} (hpace : 2 * δ + ε < 60) {self : CronFleet}
    (h : self.Initial) {events : List (Time × Event)}
    (hallows : self.AllowsAll getNext δ ε events) :
    ∃ events', self.cluster.AllowsAll events' ∧
      (self.run getNext events).Matches (self.cluster.run events') := by
  have hmatches : self.Matches self.cluster := by
    refine ⟨fun i => ?_, fun _ => rfl, rfl, rfl⟩
    simp [cluster, h.idle i]
  exact hmatches.run hpace h.inv hallows

end CronFleet
end RedisQueue
