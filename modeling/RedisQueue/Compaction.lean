import RedisQueue.Lib.Refill
import RedisQueue.Queue

/-!
# Compacting a queue

`Queue.compact` renames the list of the queue and puts the ids of the jobs that exist back, one
command at a time, while other clients push to the queue.

* `Queue.represents_run`: the commands are the steps of a refill;
* `Queue.compact_perm`: no job that exists is lost or duplicated;
* `Queue.compact_fifo_iff`: in which runs the order is kept;
* `Queue.compact_returns`: `compact` comes to an end.
-/

namespace RedisQueue

/-! ## `Queue.compact` -/

/-- The hash of the job exists. -/
def existsIn (s : Store) (id : JobId) : Bool := decide (s.val (.job id) ≠ default)

/-- `Job.exists` -/
def Job.exists (id : JobId) : Redis Bool := .read fun s => existsIn s id

/-- `RENAME`. What the new key holds is replaced. -/
def renameList (key newKey : String) : Redis Unit :=
  .step
    (fun s => if s.val (.list key) = [] then s else
      (Command.seq [.del (.list key), .write (.list newKey) fun _ => s.val (.list key)]).run s)
    fun s => if s.val (.list key) = [] then .throw (.responseError "no such key") else .ret ()

/-- `LPOP` -/
def lpopList (key : String) : Redis (Option JobId) :=
  .step (Command.alter (.list key) List.tail).run fun s => .ret (s.val (.list key)).head?

namespace Queue

/-- `COMPACT_QUEUE` -/
def compactKey (uuid : String) : String := queueKey ("_compact:" ++ uuid)

/-- The loop of `Queue.compact`. -/
def compactLoop (self : Queue) (uuid : String) : ℕ → Redis Unit
  | 0 => .throw .stillRunning
  | fuel + 1 => do
    match ← lpopList (compactKey uuid) with
    | none => return ()
    | some id => do
      let found ← Job.exists id
      if found then do
        Prog.perform (push self.key false id).run
        self.compactLoop uuid fuel
      else self.compactLoop uuid fuel

/-- `Queue.compact` -/
def compact (self : Queue) (uuid : String) (fuel : ℕ) : Redis Unit := do
  renameList self.key (compactKey uuid)
  self.compactLoop uuid fuel

/-! ## Other clients -/

/-- A command of `compact`, or a `push_job_id` of another client. -/
def interleave (self : Queue) (c : Redis Unit × Store) : Refill.Move JobId → Redis Unit × Store
  | .own => (c.1.advance c.2).getD c
  | .append id => (c.1, ((self.pushJobId id none false).run c.2).2)

/-- What is left of `compact`, and the store, after the commands in this order. -/
def interleaved (self : Queue) (uuid : String) (fuel : ℕ) (s : Store)
    (ms : List (Refill.Move JobId)) : Redis Unit × Store :=
  ms.foldl self.interleave (self.compact uuid fuel, s)

variable {q : Queue} {uuid : String} {fuel : ℕ} {s : Store} {c : Redis Unit × Store}
  {r : Refill JobId} {keep : JobId → Bool} {ms : List (Refill.Move JobId)}

/-! ## The commands as a refill -/

/-- What is left of `compact`. -/
def remaining (self : Queue) (uuid : String) (fuel : ℕ) : Refill.Phase JobId → Redis Unit
  | .setAside => self.compact uuid fuel
  | .take => self.compactLoop uuid fuel
  | .test id => do
    let found ← Job.exists id
    if found then do
      Prog.perform (push self.key false id).run
      self.compactLoop uuid fuel
    else self.compactLoop uuid fuel
  | .put id => do
    Prog.perform (push self.key false id).run
    self.compactLoop uuid fuel
  | .done => .ret ()

/-- The program and the store are those of a refill. -/
structure Represents (q : Queue) (uuid : String) (keep : JobId → Bool) (fuel : ℕ)
    (c : Redis Unit × Store) (r : Refill JobId) : Prop where
  prog : c.1 = q.remaining uuid fuel r.phase
  list : c.2.val (.list q.key) = r.queue
  rest : r.phase ≠ .setAside → c.2.val (.list (compactKey uuid)) = r.rest
  exist : ∀ id, existsIn c.2 id = keep id

/-- `compact` cannot go on: there is nothing to rename, or the bound is reached. -/
def Stuck (fuel : ℕ) (r : Refill JobId) : Prop :=
  (r.phase = .setAside ∧ r.queue = []) ∨ (r.phase = .take ∧ fuel = 0)

/-- The bound after a command. -/
def fuelAfter (fuel : ℕ) (r : Refill JobId) : ℕ :=
  match r.phase with
  | .take => fuel - 1
  | _ => fuel

lemma compactKey_ne (hfresh : q.name ≠ "_compact:" ++ uuid) :
    Key.list (compactKey uuid) ≠ .list q.key :=
  fun h => hfresh (queueKey_inj.mp (Key.list.inj h).symm)

lemma val_pushed (id : JobId) (s : Store) {k : Key} (hk : k ≠ .log) :
    ((push q.key false id).run s).val k =
      Function.update s.val (.list q.key) (s.val (.list q.key) ++ [id]) k := by
  rw [val_push, Function.update_of_ne hk]
  rfl

/-- A push to the list of the queue. -/
lemma represents_push (h : Represents q uuid keep fuel c r)
    (hfresh : q.name ≠ "_compact:" ++ uuid) (id : JobId) :
    Represents q uuid keep fuel (c.1, (push q.key false id).run c.2)
      { r with queue := r.queue ++ [id] } where
  prog := h.prog
  list := by
    rw [val_pushed id c.2 (by simp), Function.update_self, h.list]
  rest hphase := by
    rw [val_pushed id c.2 (by simp), Function.update_of_ne (compactKey_ne hfresh)]
    exact h.rest hphase
  exist id' := by
    rw [existsIn, val_pushed id c.2 (by simp), Function.update_of_ne (by simp)]
    exact h.exist id'

/-- What `RENAME` leaves behind. -/
lemma val_rename {key newKey : String} {s : Store} {l : List JobId} {k : Key} :
    ((Command.seq [.del (.list key), .write (.list newKey) fun _ => l]).run s).val k =
      Function.update (Function.update s.val (.list key) []) (.list newKey) l k := by
  simp only [Command.seq_cons_run, Command.seq_nil_run, Command.val_write, Command.val_del]
  rfl

/-! ### The commands of `compact` -/

lemma interleave_rename (hne : s.val (.list q.key) ≠ []) :
    q.interleave (q.compact uuid fuel, s) .own = (q.compactLoop uuid fuel,
      (Command.seq [.del (.list q.key),
        .write (.list (compactKey uuid)) fun _ => s.val (.list q.key)]).run s) := by
  have hadvance : (q.compact uuid fuel).advance s = some (q.compactLoop uuid fuel,
      (Command.seq [.del (.list q.key),
        .write (.list (compactKey uuid)) fun _ => s.val (.list q.key)]).run s) := by
    simp only [compact, renameList, Prog.step_bind, Prog.advance, if_neg hne]
    rfl
  rw [interleave, hadvance, Option.getD_some]

lemma interleave_rename_nil (hnil : s.val (.list q.key) = []) :
    q.interleave (q.compact uuid fuel, s) .own = (.throw (.responseError "no such key"), s) := by
  have hadvance : (q.compact uuid fuel).advance s =
      some (.throw (.responseError "no such key"), s) := by
    simp only [compact, renameList, Prog.step_bind, Prog.advance, if_pos hnil]
    rfl
  rw [interleave, hadvance, Option.getD_some]

lemma interleave_pop_nil (hnil : s.val (.list (compactKey uuid)) = []) :
    q.interleave (q.compactLoop uuid (fuel + 1), s) .own = (.ret (), s) := by
  have hsame : (Command.alter (Key.list (compactKey uuid)) List.tail).run s = s := by
    rw [Command.alter]
    exact if_pos (by rw [hnil]; rfl)
  have hadvance : (q.compactLoop uuid (fuel + 1)).advance s = some (.ret (), s) := by
    simp only [compactLoop, lpopList, Prog.step_bind, Prog.advance, hsame, hnil]
    rfl
  rw [interleave, hadvance, Option.getD_some]

lemma interleave_pop {id : JobId} {rest : List JobId}
    (hcons : s.val (.list (compactKey uuid)) = id :: rest) :
    q.interleave (q.compactLoop uuid (fuel + 1), s) .own = (q.remaining uuid fuel (.test id),
      (Command.alter (.list (compactKey uuid)) List.tail).run s) := by
  have hadvance : (q.compactLoop uuid (fuel + 1)).advance s =
      some (q.remaining uuid fuel (.test id),
        (Command.alter (.list (compactKey uuid)) List.tail).run s) := by
    simp only [compactLoop, lpopList, Prog.step_bind, Prog.advance, hcons]
    rfl
  rw [interleave, hadvance, Option.getD_some]

lemma interleave_test (id : JobId) :
    q.interleave (q.remaining uuid fuel (.test id), s) .own =
      (q.remaining uuid fuel (if existsIn s id then .put id else .take), s) := by
  have hadvance : (q.remaining uuid fuel (.test id)).advance s =
      some (q.remaining uuid fuel (if existsIn s id then .put id else .take), s) := by
    show some (if existsIn s id then _ else _, s) = _
    cases existsIn s id with
    | true => rfl
    | false => rfl
  rw [interleave, hadvance, Option.getD_some]

/-- A command of `compact` is a step of the refill. -/
lemma represents_own (h : Represents q uuid keep fuel c r)
    (hfresh : q.name ≠ "_compact:" ++ uuid) (hstuck : ¬Stuck fuel r) :
    Represents q uuid keep (fuelAfter fuel r) (q.interleave c .own) (r.advance keep) := by
  obtain ⟨prog, s⟩ := c
  obtain ⟨phase, queue, rest⟩ := r
  obtain ⟨hprog, hlist, hrest, hexist⟩ := h
  dsimp only at hprog hlist hrest hexist
  subst hprog hlist
  cases phase with
  | setAside =>
    have hne : s.val (.list q.key) ≠ [] := fun he => hstuck (.inl ⟨rfl, he⟩)
    rw [remaining, interleave_rename hne]
    refine ⟨rfl, ?_, fun _ => ?_, fun id => ?_⟩
    · rw [val_rename, Function.update_of_ne (compactKey_ne hfresh).symm, Function.update_self]
      rfl
    · rw [val_rename, Function.update_self]
      rfl
    · rw [existsIn, val_rename, Function.update_of_ne (by simp), Function.update_of_ne (by simp)]
      exact hexist id
  | take =>
    have htemp := hrest (by simp)
    cases fuel with
    | zero => exact absurd (.inr ⟨rfl, rfl⟩) hstuck
    | succ fuel =>
      cases rest with
      | nil =>
        rw [remaining, interleave_pop_nil htemp]
        exact ⟨rfl, rfl, fun _ => htemp, hexist⟩
      | cons id rest =>
        rw [remaining, interleave_pop htemp]
        refine ⟨rfl, ?_, fun _ => ?_, fun id' => ?_⟩
        · rw [Command.val_alter, Function.update_of_ne (compactKey_ne hfresh).symm]
          rfl
        · rw [Command.val_alter, Function.update_self, htemp]
          rfl
        · rw [existsIn, Command.val_alter, Function.update_of_ne (by simp)]
          exact hexist id'
  | test id =>
    rw [interleave_test, hexist id]
    cases hkeep : keep id with
    | true =>
      simp only [Refill.advance, hkeep, if_true]
      exact ⟨rfl, rfl, fun _ => hrest (by simp), hexist⟩
    | false =>
      simp only [Refill.advance, hkeep, if_neg Bool.false_ne_true]
      exact ⟨rfl, rfl, fun _ => hrest (by simp), hexist⟩
  | put id =>
    have htaken : Represents q uuid keep fuel (q.compactLoop uuid fuel, s)
        ⟨.take, s.val (.list q.key), rest⟩ :=
      ⟨rfl, rfl, fun _ => hrest (by simp), hexist⟩
    exact represents_push htaken hfresh id
  | done => exact ⟨rfl, rfl, hrest, hexist⟩

lemma throws_of_stuck (h : Represents q uuid keep fuel c r) (hstuck : Stuck fuel r) :
    ∃ e, (q.interleave c .own).1 = .throw e := by
  obtain ⟨prog, s⟩ := c
  have hprog := h.prog
  dsimp only at hprog
  subst hprog
  rcases hstuck with ⟨hphase, hnil⟩ | ⟨hphase, rfl⟩
  · rw [hphase, remaining, interleave_rename_nil (h.list.trans hnil)]
    exact ⟨_, rfl⟩
  · rw [hphase]
    exact ⟨_, rfl⟩

/-! ## Runs -/

lemma interleave_throw {e : PyError} (h : c.1 = .throw e) (m : Refill.Move JobId) :
    (q.interleave c m).1 = .throw e := by
  obtain ⟨prog, s⟩ := c
  subst h
  cases m with
  | own => rfl
  | append id => rfl

lemma foldl_interleave_throw {e : PyError} (ms : List (Refill.Move JobId)) (h : c.1 = .throw e) :
    (ms.foldl q.interleave c).1 = .throw e := by
  induction ms generalizing c with
  | nil => exact h
  | cons m ms ih => exact ih (interleave_throw h m)

/-- A run of the commands is a run of the refill, unless `compact` raises an exception. -/
theorem represents_run (hfresh : q.name ≠ "_compact:" ++ uuid) (ms : List (Refill.Move JobId))
    (h : Represents q uuid keep fuel c r) :
    (∃ fuel', Represents q uuid keep fuel' (ms.foldl q.interleave c) (r.run keep ms)) ∨
      ∃ e, (ms.foldl q.interleave c).1 = .throw e := by
  induction ms generalizing fuel c r with
  | nil => exact .inl ⟨fuel, h⟩
  | cons m ms ih =>
    cases m with
    | own =>
      by_cases hstuck : Stuck fuel r
      · obtain ⟨e, he⟩ := throws_of_stuck h hstuck
        exact .inr ⟨e, foldl_interleave_throw ms he⟩
      · exact ih (represents_own h hfresh hstuck)
    | append id => exact ih (represents_push h hfresh id)

lemma represents_start (s : Store) : Represents q uuid (existsIn s) fuel (q.compact uuid fuel, s)
    (Refill.start (s.val (.list q.key))) :=
  ⟨rfl, rfl, fun h => absurd rfl h, fun _ => rfl⟩

/-- `compact` has returned only at the end of the refill. -/
lemma phase_of_returned {phase : Refill.Phase JobId} (h : q.remaining uuid fuel phase = .ret ()) :
    phase = .done := by
  cases phase with
  | setAside => cases h
  | take =>
    cases fuel with
    | zero => cases h
    | succ fuel => cases h
  | test id => cases h
  | put id => cases h
  | done => rfl

lemma returned_done (hfresh : q.name ≠ "_compact:" ++ uuid)
    (hreturned : (q.interleaved uuid fuel s ms).1 = .ret ()) :
    ((Refill.start (s.val (.list q.key))).run (existsIn s) ms).phase = .done ∧
      (q.interleaved uuid fuel s ms).2.val (.list q.key) =
        ((Refill.start (s.val (.list q.key))).run (existsIn s) ms).queue := by
  rcases represents_run hfresh ms (represents_start s) with ⟨fuel', h⟩ | ⟨e, he⟩
  · exact ⟨phase_of_returned (h.prog.symm.trans hreturned), h.list⟩
  · have hthrow : (Prog.ret () : Redis Unit) = .throw e := hreturned.symm.trans he
    cases hthrow

/-- What other clients push in a run: new ids of jobs that exist, each of them once. -/
structure NewPushes (q : Queue) (s : Store) (ms : List (Refill.Move JobId)) : Prop where
  new : ∀ id ∈ Refill.appended ms, id ∉ s.val (.list q.key)
  exist : ∀ id ∈ Refill.appended ms, existsIn s id
  nodup : (Refill.appended ms).Nodup

/-- No job that exists is lost or duplicated. -/
theorem compact_perm (hfresh : q.name ≠ "_compact:" ++ uuid) (hpushes : NewPushes q s ms)
    (hreturned : (q.interleaved uuid fuel s ms).1 = .ret ()) :
    ((q.interleaved uuid fuel s ms).2.val (.list q.key)).Perm
      ((s.val (.list q.key)).filter (existsIn s) ++ Refill.appended ms) := by
  obtain ⟨hdone, hlist⟩ := returned_done hfresh hreturned
  rw [hlist]
  exact Refill.run_perm hpushes.exist hdone

/-- When `compact` has returned, the list holds the ids of the jobs that exist in their order,
followed by the ids pushed in the meantime, exactly if no id was pushed between the `RENAME` and the
last `RPUSH` of `compact`. -/
theorem compact_fifo_iff (hfresh : q.name ≠ "_compact:" ++ uuid) (hpushes : NewPushes q s ms)
    (hreturned : (q.interleaved uuid fuel s ms).1 = .ret ()) :
    (q.interleaved uuid fuel s ms).2.val (.list q.key) =
        (s.val (.list q.key)).filter (existsIn s) ++ Refill.appended ms ↔
      Refill.Undisturbed (existsIn s) (Refill.start (s.val (.list q.key))) ms := by
  obtain ⟨hdone, hlist⟩ := returned_done hfresh hreturned
  rw [hlist]
  exact Refill.fifo_iff hpushes.exist hpushes.new hpushes.nodup hdone

/-- The queue holds the job `a`. The job `x` exists. -/
def compactStore : Store :=
  (Command.seq [hset "a" { data := some "" }, hset "x" { data := some "" },
    push (queueKey "q") false "a"]).run Store.empty

/-- A push after the last `RPUSH` of `compact`. -/
theorem compact_fifo_outside :
    ((Queue.mk "q" 180).interleaved "u" 3 compactStore
      [.own, .own, .own, .own, .append "x", .own]).2.val (.list (queueKey "q")) = ["a", "x"] := by
  have hpushes : NewPushes ⟨"q", 180⟩ compactStore [.own, .own, .own, .own, .append "x", .own] :=
    ⟨by decide +kernel, by decide +kernel, by decide⟩
  have hfresh : (Queue.mk "q" 180).name ≠ "_compact:" ++ "u" := by decide
  have hundisturbed : Refill.Undisturbed (existsIn compactStore)
      (Refill.start (compactStore.val (.list (queueKey "q"))))
      [.own, .own, .own, .own, .append "x", .own] := by decide +kernel
  have hlive : (compactStore.val (.list (queueKey "q"))).filter (existsIn compactStore) =
      ["a"] := by decide +kernel
  have hfifo := (@compact_fifo_iff _ _ 3 _ _ hfresh hpushes rfl).mpr hundisturbed
  exact hfifo.trans (congrArg (· ++ ["x"]) hlive)

/-- A push between the `RENAME` and the `RPUSH` gets in front. -/
theorem compact_overtaken :
    NewPushes ⟨"q", 180⟩ compactStore [.own, .append "x", .own, .own, .own, .own] ∧
    ((Queue.mk "q" 180).interleaved "u" 3 compactStore
      [.own, .append "x", .own, .own, .own, .own]).1 = .ret () ∧
    ((Queue.mk "q" 180).interleaved "u" 3 compactStore
      [.own, .append "x", .own, .own, .own, .own]).2.val (.list (queueKey "q")) = ["x", "a"] ∧
    (compactStore.val (.list (queueKey "q"))).filter (existsIn compactStore) ++
      Refill.appended [.own, .append "x", .own, .own, .own, .own] = ["a", "x"] :=
  ⟨⟨by decide +kernel, by decide +kernel, by decide⟩, rfl, by decide +kernel, by decide +kernel⟩

/-! ## The end of `compact` -/

/-- The bound is large enough for what is left, with `n` more pushes. -/
def Supplied (fuel n : ℕ) (r : Refill JobId) : Prop :=
  match r.phase with
  | .setAside => r.queue ≠ [] ∧ r.queue.length + n < fuel
  | .done => True
  | _ => r.rest.length < fuel

lemma not_stuck {n : ℕ} (h : Supplied fuel n r) : ¬Stuck fuel r := by
  rintro (⟨hphase, hnil⟩ | ⟨hphase, hzero⟩)
  · rw [Supplied, hphase] at h
    exact h.1 hnil
  · rw [Supplied, hphase, hzero] at h
    exact Nat.not_lt_zero _ h

lemma supplied_advance {n : ℕ} (h : Supplied fuel n r) :
    Supplied (fuelAfter fuel r) n (r.advance keep) := by
  obtain ⟨phase, queue, rest⟩ := r
  cases phase with
  | setAside => exact Nat.lt_of_add_right_lt h.2
  | take =>
    cases rest with
    | nil => trivial
    | cons id rest => exact Nat.lt_sub_of_add_lt h
  | test id =>
    cases hkeep : keep id with
    | true => simpa [Supplied, Refill.advance, fuelAfter, hkeep] using h
    | false => simpa [Supplied, Refill.advance, fuelAfter, hkeep] using h
  | put id => exact h
  | done => trivial

lemma supplied_append {n : ℕ} {id : JobId} (h : Supplied fuel (n + 1) r) :
    Supplied fuel n (r.move keep (.append id)) := by
  obtain ⟨phase, queue, rest⟩ := r
  cases phase with
  | setAside =>
    obtain ⟨-, hlength⟩ := h
    simp only at hlength
    refine ⟨by simp [Refill.move], ?_⟩
    simp only [Refill.move, List.length_append, List.length_singleton]
    omega
  | take => exact h
  | test id' => exact h
  | put id' => exact h
  | done => trivial

lemma represents_run_supplied (hfresh : q.name ≠ "_compact:" ++ uuid)
    (ms : List (Refill.Move JobId)) (h : Represents q uuid keep fuel c r)
    (hfuel : Supplied fuel (Refill.appended ms).length r) :
    ∃ fuel', Represents q uuid keep fuel' (ms.foldl q.interleave c) (r.run keep ms) := by
  induction ms generalizing fuel c r with
  | nil => exact ⟨fuel, h⟩
  | cons m ms ih =>
    cases m with
    | own => exact ih (represents_own h hfresh (not_stuck hfuel)) (supplied_advance hfuel)
    | append id => exact ih (represents_push h hfresh id) (supplied_append hfuel)

/-- On a queue that is not empty `compact` returns, whatever is pushed. -/
theorem compact_returns (hfresh : q.name ≠ "_compact:" ++ uuid) (hne : s.val (.list q.key) ≠ [])
    (hfuel : (s.val (.list q.key)).length + (Refill.appended ms).length < fuel)
    (hlong : 3 * (s.val (.list q.key)).length + 2 + 4 * (Refill.appended ms).length ≤ ms.length) :
    (q.interleaved uuid fuel s ms).1 = .ret () := by
  have hstart : Represents q uuid (existsIn s) fuel (q.compact uuid fuel, s)
      (Refill.start (s.val (.list q.key))) := represents_start s
  obtain ⟨fuel', h⟩ := represents_run_supplied hfresh ms hstart ⟨hne, hfuel⟩
  have hdone : ((Refill.start (s.val (.list q.key))).run (existsIn s) ms).phase = .done :=
    Refill.run_done hlong
  have hprog := h.prog
  rw [hdone] at hprog
  exact hprog

end Queue

end RedisQueue
