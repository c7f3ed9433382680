import RedisQueue.DeletionTheorems

/-!
# Dequeueing

`Queue.dequeue_any` takes ids from several queues until it finds one with a job.

* `Popped`: what one `LPOP`, `BLPOP`, `LMOVE` or `BLMOVE` does;
* `Queue.dequeueAny_first`: without a timeout, the job of the first live id is returned and the ids
  before it are gone;
* `Worker.roundRobin_fair`: with the round-robin strategy no queue waits for longer than a round.
-/

namespace RedisQueue

open KeyStore (AgreeAt)

namespace Queue

/-! ## One pop -/

/-- The ids that are popped from a single queue are kept in its intermediate queue. -/
def Holds (version : ℕ × ℕ × ℕ) (keys : List String) (key : String) : Prop :=
  keys = [key] ∧ supportsLmove version = true

/-- The first id of the first nonempty list has been taken. -/
structure Popped (version : ℕ × ℕ × ℕ) (keys : List String) (s s' : Store) (key : String)
    (id : JobId) : Prop where
  first : ∃ before after, keys = before ++ key :: after ∧ ∀ k ∈ before, s.val (.list k) = []
  taken : s.val (.list key) = id :: s'.val (.list key)
  held : ∀ k, Holds version keys k → s'.val (.list (intermediateQueueKey k)) =
    s.val (.list (intermediateQueueKey k)) ++ [id]
  frame : ∀ k, k ≠ .list key → (∀ q, Holds version keys q → k ≠ .list (intermediateQueueKey q)) →
    AgreeAt k s' s

/-- What a pop comes to: nothing without a timeout, an id, or an exception because of a timeout. -/
inductive PopOutcome (version : ℕ × ℕ × ℕ) (keys : List String) (timeout : Option ℕ) (s : Store) :
    Except PyError (Option (String × JobId)) × Store → Prop
  | empty (htimeout : timeout = none) (hkeys : ∀ key ∈ keys, s.val (.list key) = []) :
      PopOutcome version keys timeout s (.ok none, s)
  | popped {key : String} {id : JobId} {s' : Store} (h : Popped version keys s s' key id) :
      PopOutcome version keys timeout s (.ok (some (key, id)), s')
  | raised (htimeout : timeout ≠ none) (e : PyError) (s' : Store) :
      PopOutcome version keys timeout s (.error e, s')

lemma intermediateQueueKey_ne (key : String) : intermediateQueueKey key ≠ key := by
  intro h
  have hlength := congrArg String.length h
  simp [intermediateQueueKey] at hlength

/-- An `LPOP` of an empty list. -/
lemma run_pop_nil {key : String} {s : Store} (h : s.val (.list key) = []) :
    (Command.alter (.list key) List.tail : Command Key Value).run s = s := by
  simp [Command.alter, h]

lemma popped_pop {version : ℕ × ℕ × ℕ} {keys before after : List String} {key : String} {id : JobId}
    {rest : List JobId} {s : Store} (hkeys : keys = before ++ key :: after)
    (hbefore : ∀ k ∈ before, s.val (.list k) = []) (h : s.val (.list key) = id :: rest)
    (hholds : ∀ q, ¬Holds version keys q) :
    Popped version keys s ((Command.alter (.list key) List.tail : Command Key Value).run s) key id where
  first := ⟨before, after, hkeys, hbefore⟩
  taken := by
    rw [Command.val_alter, Function.update_self, h]
    rfl
  held q hq := absurd hq (hholds q)
  frame k hk _ := Command.frames_alter hk s

lemma popOutcome_lpopEach {version : ℕ × ℕ × ℕ} {keys before : List String} (rest : List String)
    {s : Store} (hkeys : keys = before ++ rest) (hbefore : ∀ k ∈ before, s.val (.list k) = [])
    (hholds : ∀ q, ¬Holds version keys q) :
    PopOutcome version keys none s ((lpopEach rest).run s) := by
  induction rest generalizing before with
  | nil =>
    rw [List.append_nil] at hkeys
    exact .empty rfl (hkeys ▸ hbefore)
  | cons key rest ih =>
    rw [lpopEach, Prog.run_step]
    cases hlist : s.val (.list key) with
    | nil =>
      have hkeys' : keys = (before ++ [key]) ++ rest := by rw [hkeys, List.append_assoc]; rfl
      have hbefore' : ∀ k ∈ before ++ [key], s.val (.list k) = [] := by
        intro k hk
        rcases List.mem_append.mp hk with hk | hk
        · exact hbefore k hk
        · rwa [List.mem_singleton.mp hk]
      rw [run_pop_nil hlist]
      exact ih hkeys' hbefore'
    | cons id ids => exact .popped (popped_pop hkeys hbefore hlist hholds)

lemma firstNonempty_eq_some {s : Store} {keys : List String} {key : String} {id : JobId}
    (h : firstNonempty s keys = some (key, id)) :
    ∃ before after rest, keys = before ++ key :: after ∧
      (∀ k ∈ before, s.val (.list k) = []) ∧ s.val (.list key) = id :: rest := by
  obtain ⟨before, key', after, rfl, hfound, hbefore⟩ := List.findSome?_eq_some_iff.mp h
  simp only [Option.map_eq_some_iff, Prod.mk.injEq] at hfound
  obtain ⟨id', hhead, rfl, rfl⟩ := hfound
  obtain ⟨rest, hlist⟩ := List.head?_eq_some_iff.mp hhead
  exact ⟨before, after, rest, rfl, fun k hk => by simpa using hbefore k hk, hlist⟩

lemma popOutcome_lpop {version : ℕ × ℕ × ℕ} {keys : List String} (timeout : Option ℕ) (s : Store)
    (hholds : ∀ q, ¬Holds version keys q) :
    PopOutcome version keys timeout s ((lpop keys timeout).run s) := by
  unfold lpop
  split
  · exact popOutcome_lpopEach keys rfl (List.forall_mem_nil _) hholds
  · exact .raised (by simp) _ _
  · rw [Prog.run_step]
    cases hfirst : firstNonempty s keys with
    | none => exact .raised (by simp) _ _
    | some result =>
      obtain ⟨key, id⟩ := result
      obtain ⟨before, after, rest, hkeys, hbefore, hlist⟩ := firstNonempty_eq_some hfirst
      exact .popped (popped_pop hkeys hbefore hlist hholds)

lemma popped_lmove {version : ℕ × ℕ × ℕ} {key : String} {id : JobId} {rest : List JobId} {s : Store}
    (h : s.val (.list key) = id :: rest) (hversion : supportsLmove version = true) :
    Popped version [key] s ((Command.seq [.write (.list key) fun _ => rest,
      .write (.list (intermediateQueueKey key)) fun l => l ++ [id]]).run s) key id where
  first := ⟨[], [], rfl, List.forall_mem_nil _⟩
  taken := by
    simp [h, (intermediateQueueKey_ne key).symm]
  held q hq := by
    obtain rfl : key = q := by simpa using hq.1
    simp [intermediateQueueKey_ne key]
  frame k hk hheld := by
    apply Command.frames_seq
    simp only [List.mem_cons, List.not_mem_nil, or_false]
    rintro c (rfl | rfl)
    · exact Command.frames_write hk
    · exact Command.frames_write (hheld key ⟨rfl, hversion⟩)

lemma popOutcome_lmove {version : ℕ × ℕ × ℕ} (key : String) (timeout : Option ℕ) (s : Store)
    (hversion : supportsLmove version = true) :
    PopOutcome version [key] timeout s ((lmove key timeout).run s) := by
  unfold lmove
  split
  · next hzero => exact .raised (by simp [hzero]) _ _
  · rw [Prog.run_step]
    cases hlist : s.val (.list key) with
    | nil =>
      cases timeout with
      | none => exact .empty rfl (by simpa using hlist)
      | some timeout => exact .raised (by simp) _ _
    | cons id rest => exact .popped (popped_lmove hlist hversion)

/-- One pop of `dequeue_any`. -/
theorem popOutcome_popAny (version : ℕ × ℕ × ℕ) (keys : List String) (timeout : Option ℕ)
    (s : Store) : PopOutcome version keys timeout s ((popAny version keys timeout).run s) := by
  unfold popAny
  split
  · next key =>
    split
    · next hversion => exact popOutcome_lmove key timeout s hversion
    · next hversion => exact popOutcome_lpop timeout s fun q hq => hversion hq.2
  · next hmany =>
    exact popOutcome_lpop timeout s fun q hq => hmany q hq.1

/-! ## The first live id -/

/-- The concatenation of the lists, with the list each id is in. -/
def contents (s : Store) (keys : List String) : List (String × JobId) :=
  keys.flatMap fun key => (s.val (.list key)).map fun id => (key, id)

/-- The first id whose hash exists. -/
def firstLive (s : Store) (keys : List String) : Option (String × JobId) :=
  (contents s keys).find? fun entry => s.val (.job entry.2) ≠ default

/-- The ids up to and including that one. -/
def takenBy (s : Store) (keys : List String) : List (String × JobId) :=
  ((contents s keys).takeWhile fun entry => s.val (.job entry.2) = default) ++
    (firstLive s keys).toList

/-- The outcome of `dequeue_any` without a timeout. -/
structure Dequeued (version : ℕ × ℕ × ℕ) (keys : List String) (s : Store)
    (r : Option (Job × String)) (s' : Store) : Prop where
  result : r.map (fun found => (found.2, found.1.id)) = firstLive s keys
  restored : ∀ found ∈ r, Job.restore found.1.id (s.val (.job found.1.id)) = .ok found.1
  removed : contents s keys = takenBy s keys ++ contents s' keys
  held : ∀ key, Holds version keys key → s'.val (.list (intermediateQueueKey key)) =
    s.val (.list (intermediateQueueKey key)) ++ (takenBy s keys).map Prod.snd
  frame : ∀ k, (∀ key ∈ keys, k ≠ .list key) →
    (∀ key, Holds version keys key → k ≠ .list (intermediateQueueKey key)) → AgreeAt k s' s

lemma contents_cons (s : Store) (key : String) (keys : List String) : contents s (key :: keys) =
    ((s.val (.list key)).map fun id => (key, id)) ++ contents s keys := rfl

lemma contents_append (s : Store) (keys keys' : List String) :
    contents s (keys ++ keys') = contents s keys ++ contents s keys' :=
  List.flatMap_append

lemma contents_eq_nil {s : Store} {keys : List String}
    (h : ∀ key ∈ keys, s.val (.list key) = []) : contents s keys = [] := by
  apply List.flatMap_eq_nil_iff.mpr
  intro key hkey
  rw [h key hkey]
  rfl

lemma contents_congr {s s' : Store} {keys : List String}
    (h : ∀ key ∈ keys, s'.val (.list key) = s.val (.list key)) :
    contents s' keys = contents s keys := by
  induction keys with
  | nil => rfl
  | cons key keys ih =>
    rw [contents_cons, contents_cons, h key List.mem_cons_self,
      ih fun k hk => h k (List.mem_cons_of_mem key hk)]

section Popped
variable {version : ℕ × ℕ × ℕ} {keys : List String} {s s' : Store} {key : String} {id : JobId}

lemma Popped.mem (h : Popped version keys s s' key id) : key ∈ keys := by
  obtain ⟨before, after, rfl, -⟩ := h.first
  simp

/-- The other lists stay. -/
lemma Popped.list (h : Popped version keys s s' key id) {k : String} (hk : k ∈ keys) (hne : k ≠ key) :
    s'.val (.list k) = s.val (.list k) := by
  apply (h.frame (.list k) (by simpa using hne) fun q hq => ?_).1
  -- a queue that holds what is popped is the only one
  obtain ⟨rfl, -⟩ := hq
  obtain rfl := List.mem_singleton.mp hk
  exact absurd (List.mem_singleton.mp h.mem) (Ne.symm hne)

lemma Popped.hash (h : Popped version keys s s' key id) (id' : JobId) :
    s'.val (.job id') = s.val (.job id') :=
  (h.frame (.job id') (by simp) fun q _ => by simp).1

/-- A pop takes the head of the contents. -/
lemma Popped.contents_eq (h : Popped version keys s s' key id) (hkeys : keys.Nodup) :
    contents s keys = (key, id) :: contents s' keys := by
  obtain ⟨before, after, rfl, hbefore⟩ := h.first
  have hdisjoint := List.nodup_append.mp hkeys
  have hnotMem : key ∉ after := (List.nodup_cons.mp hdisjoint.2.1).1
  have hbefore' : ∀ k ∈ before, s'.val (.list k) = [] := by
    intro k hk
    have hne : k ≠ key := hdisjoint.2.2 k hk key List.mem_cons_self
    rw [h.list (List.mem_append_left _ hk) hne, hbefore k hk]
  have hafter : contents s' after = contents s after := by
    apply contents_congr
    intro k hk
    have hne : k ≠ key := fun heq => hnotMem (heq ▸ hk)
    exact h.list (List.mem_append_right _ (List.mem_cons_of_mem key hk)) hne
  rw [contents_append, contents_append, contents_eq_nil hbefore, contents_eq_nil hbefore',
    contents_cons, contents_cons, hafter, h.taken]
  rfl

end Popped

/-! ### The loop of `dequeue_any` -/

section Dequeued
variable {version : ℕ × ℕ × ℕ} {keys : List String} {s s' : Store} {key : String} {id : JobId}

lemma dequeued_nil (h : contents s keys = []) : Dequeued version keys s none s where
  result := by simp [firstLive, h]
  restored := by simp
  removed := by simp [takenBy, firstLive, h]
  held key _ := by simp [takenBy, firstLive, h]
  frame k _ _ := ⟨rfl, rfl⟩

lemma firstLive_of_live {rest : List (String × JobId)} (h : contents s keys = (key, id) :: rest)
    (hlive : s.val (.job id) ≠ default) : firstLive s keys = some (key, id) := by
  simp [firstLive, h, hlive]

lemma takenBy_of_live {rest : List (String × JobId)} (h : contents s keys = (key, id) :: rest)
    (hlive : s.val (.job id) ≠ default) : takenBy s keys = [(key, id)] := by
  simp [takenBy, firstLive, h, hlive]

/-- The pop of a live id ends the loop. -/
lemma Popped.dequeued (h : Popped version keys s s' key id) (hkeys : keys.Nodup) {job : Job}
    (hlive : s.val (.job id) ≠ default) (hjob : Job.restore id (s.val (.job id)) = .ok job) :
    Dequeued version keys s (some (job, key)) s' := by
  have hcontents := h.contents_eq hkeys
  have hid : job.id = id := (Job.restore_ok hjob).1
  have htaken := takenBy_of_live hcontents hlive
  constructor
  · rw [firstLive_of_live hcontents hlive, Option.map_some, hid]
  · intro found hfound
    obtain rfl := Option.mem_some_iff.mp hfound
    show Job.restore job.id (s.val (.job job.id)) = .ok job
    rw [hid]
    exact hjob
  · rw [htaken, hcontents]
    rfl
  · intro q hq
    rw [h.held q hq, htaken]
    rfl
  · intro k hk hheld
    exact h.frame k (hk key h.mem) hheld

lemma firstLive_of_dead (h : contents s keys = (key, id) :: contents s' keys)
    (hdead : s.val (.job id) = default) (hhash : ∀ id', s'.val (.job id') = s.val (.job id')) :
    firstLive s keys = firstLive s' keys := by
  simp [firstLive, h, hdead, hhash]

lemma takenBy_of_dead (h : contents s keys = (key, id) :: contents s' keys)
    (hdead : s.val (.job id) = default) (hhash : ∀ id', s'.val (.job id') = s.val (.job id')) :
    takenBy s keys = (key, id) :: takenBy s' keys := by
  simp [takenBy, firstLive_of_dead h hdead hhash, h, hdead, hhash]

/-- The pop of a dead id starts the loop again. -/
lemma Popped.dequeued_cons {s₁ : Store} (h : Popped version keys s s₁ key id) (hkeys : keys.Nodup)
    (hdead : s.val (.job id) = default) {r : Option (Job × String)}
    (hrest : Dequeued version keys s₁ r s') : Dequeued version keys s r s' := by
  have hcontents := h.contents_eq hkeys
  have htaken := takenBy_of_dead hcontents hdead h.hash
  constructor
  · rw [hrest.result, firstLive_of_dead hcontents hdead h.hash]
  · intro found hfound
    rw [← h.hash]
    exact hrest.restored found hfound
  · rw [hcontents, htaken, hrest.removed]
    rfl
  · intro q hq
    rw [hrest.held q hq, h.held q hq, htaken]
    simp
  · intro k hk hheld
    exact (hrest.frame k hk hheld).trans (h.frame k (hk key h.mem) hheld)

end Dequeued

/-- Every hash of a job has the field `data`. -/
def WellFormed (s : Store) : Prop :=
  ∀ id, s.val (.job id) ≠ default → (s.val (.job id)).data.isSome

lemma dequeued_of_nodup (version : ℕ × ℕ × ℕ) {keys : List String} (hkeys : keys.Nodup) {s : Store}
    (hformat : WellFormed s) {fuel : ℕ} (hfuel : (contents s keys).length < fuel) :
    ∃ r s', (dequeueAny version keys none fuel).run s = (.ok r, s') ∧
      Dequeued version keys s r s' := by
  induction fuel generalizing s with
  | zero => exact absurd hfuel (Nat.not_lt_zero _)
  | succ fuel ih =>
    rw [dequeueAny, Prog.run_bind]
    generalize hpop : (popAny version keys none).run s = outcome
    have houtcome := hpop ▸ popOutcome_popAny version keys none s
    cases houtcome with
    | empty _ hempty => exact ⟨none, s, rfl, dequeued_nil (contents_eq_nil hempty)⟩
    | raised htimeout => exact absurd rfl htimeout
    | @popped key id s₁ h =>
      have hcontents := h.contents_eq hkeys
      dsimp only
      rw [Prog.run_bind_ok (Prog.run_read _ _), h.hash]
      by_cases hdead : s.val (.job id) = default
      · -- fewer ids are left for the next iteration
        have hlength : (contents s₁ keys).length < fuel := by
          rw [hcontents, List.length_cons] at hfuel
          omega
        have hformat₁ : WellFormed s₁ := by
          intro id'
          rw [h.hash]
          exact hformat id'
        obtain ⟨r, s', hrun, hrest⟩ := ih hformat₁ hlength
        rw [if_pos hdead]
        exact ⟨r, s', hrun, h.dequeued_cons hkeys hdead hrest⟩
      · obtain ⟨job, hjob⟩ := Job.exists_restore id (hformat id hdead)
        rw [if_neg hdead, hjob]
        exact ⟨some (job, key), s₁, rfl, h.dequeued hkeys hdead hjob⟩

/-- Without a timeout, `dequeue_any` returns the job of the first id whose hash exists, and takes
exactly the ids up to that one. It needs no more iterations than there are ids. -/
theorem dequeueAny_first (version : ℕ × ℕ × ℕ) {names : List QueueName} (hnames : names.Nodup)
    {s : Store} (hformat : WellFormed s) {fuel : ℕ}
    (hfuel : (contents s (names.map queueKey)).length < fuel) :
    ∃ r s', (dequeueAny version (names.map queueKey) none fuel).run s = (.ok r, s') ∧
      Dequeued version (names.map queueKey) s r s' :=
  dequeued_of_nodup version (hnames.map fun _ _ => queueKey_inj.mp) hformat hfuel

/-- The first queue holds an id whose hash has gone. -/
def staleFirst : Store :=
  (Command.seq [push "rq:queue:high" false "gone", push "rq:queue:low" false "job",
    hset "job" { data := some "", origin := some "low" }]).run Store.empty

lemma hash_staleFirst (id : JobId) : staleFirst.val (.job id) =
    if id = "job" then { data := some "", origin := some "low" } else default := by
  by_cases hid : id = "job"
  · subst hid
    decide
  · simp [staleFirst, hid, Store.empty]

theorem dequeueAny_first_staleFirst :
    ∃ r s', (dequeueAny (7, 0, 0) (["high", "low"].map queueKey) none 3).run staleFirst = (.ok r, s') ∧
      Dequeued (7, 0, 0) (["high", "low"].map queueKey) staleFirst r s' := by
  apply dequeueAny_first
  · decide
  · intro id hexists
    rw [hash_staleFirst] at hexists ⊢
    split
    · rfl
    · next hid => simp [hid] at hexists
  · decide

/-! ## The queue that is served -/

/-- `Queue.from_queue_key` -/
def fromQueueKey (queueKey : String) : Except PyError QueueName :=
  let namespacePrefix := "rq:queue:".toList
  if namespacePrefix.isPrefixOf queueKey.toList then
    .ok (String.ofList (queueKey.toList.drop namespacePrefix.length))
  else .error (.valueError s!"Not a valid RQ queue key: {queueKey}")

lemma fromQueueKey_queueKey (name : QueueName) : fromQueueKey (queueKey name) = .ok name := by
  simp [fromQueueKey, queueKey]

/-- The list holds the id of a job that can be fetched. -/
def HoldsJob (s : Store) (key : String) : Prop :=
  ∃ id ∈ s.val (.list key), ∃ job, Job.restore id (s.val (.job id)) = .ok job

section HoldsJob
variable {version : ℕ × ℕ × ℕ} {keys : List String} {s s' : Store} {key waiting : String}
  {id : JobId}

/-- No pop passes over a list that is not empty. -/
lemma Popped.served (h : Popped version keys s s' key id) (hwaiting : HoldsJob s waiting) :
    ∃ before after, keys = before ++ key :: after ∧ waiting ∉ before := by
  obtain ⟨before, after, hkeys, hbefore⟩ := h.first
  refine ⟨before, after, hkeys, fun hmem => ?_⟩
  obtain ⟨id', hid', -⟩ := hwaiting
  rw [hbefore waiting hmem] at hid'
  cases hid'

/-- The pop of an id without a job takes no job away. -/
lemma Popped.holdsJob (h : Popped version keys s s' key id) (hmem : waiting ∈ keys)
    (hdead : ∀ job, Job.restore id (s.val (.job id)) ≠ .ok job) (hwaiting : HoldsJob s waiting) :
    HoldsJob s' waiting := by
  obtain ⟨id', hid', job, hjob⟩ := hwaiting
  have hne : id' ≠ id := by
    rintro rfl
    exact hdead job hjob
  refine ⟨id', ?_, job, by rw [h.hash, hjob]⟩
  by_cases hkey : waiting = key
  · subst hkey
    rw [h.taken] at hid'
    exact (List.mem_cons.mp hid').resolve_left hne
  · rwa [h.list hmem hkey]

/-- `dequeue_any` serves no queue after one that holds a job. -/
lemma dequeueAny_served {timeout : Option ℕ} {fuel : ℕ} {job : Job} (hmem : waiting ∈ keys)
    (hwaiting : HoldsJob s waiting)
    (hrun : (dequeueAny version keys timeout fuel).run s = (.ok (some (job, key)), s')) :
    ∃ before after, keys = before ++ key :: after ∧ waiting ∉ before := by
  induction fuel generalizing s with
  | zero => cases hrun
  | succ fuel ih =>
    rw [dequeueAny, Prog.run_bind] at hrun
    generalize hpop : (popAny version keys timeout).run s = outcome at hrun
    have houtcome := hpop ▸ popOutcome_popAny version keys timeout s
    cases houtcome with
    | empty _ hempty => cases hrun
    | raised _ _ _ => cases hrun
    | @popped key' id s₁ h =>
      dsimp only at hrun
      rw [Prog.run_bind_ok (Prog.run_read _ _), h.hash] at hrun
      split at hrun
      · next hdead =>
        refine ih (h.holdsJob hmem (fun job' hjob' => ?_) hwaiting) hrun
        have hdata := Job.restore_isSome hjob'
        rw [hdead] at hdata
        cases hdata
      · split at hrun
        · next job' hjob' =>
          obtain ⟨⟨-, rfl⟩, -⟩ : (job' = job ∧ key' = key) ∧ s₁ = s' := by simpa using hrun
          exact h.served hwaiting
        · next hraised =>
          refine ih (h.holdsJob hmem (fun job' hjob' => ?_) hwaiting) hrun
          rw [hraised] at hjob'
          cases hjob'
        · cases hrun

end HoldsJob

end Queue

/-! ## The order of the queues -/

/-- `DequeueStrategy` -/
inductive DequeueStrategy where
  | default | roundRobin | random
deriving DecidableEq, Repr

/-- The queues after the first occurrence of the reference queue, then those up to it. -/
def rotateQueues (orderedQueues : List QueueName) (referenceQueue : QueueName) :
    Except PyError (List QueueName) :=
  if referenceQueue ∈ orderedQueues then
    let pos := orderedQueues.idxOf referenceQueue
    .ok (orderedQueues.drop (pos + 1) ++ orderedQueues.take (pos + 1))
  else .error (.valueError s!"{referenceQueue} is not in list")

namespace Worker

/-- `BaseWorker.reorder_queues`. What `shuffle` comes to is a parameter. -/
def reorderQueues (dequeueStrategy : DequeueStrategy) (shuffle : List QueueName → List QueueName)
    (orderedQueues : List QueueName) (referenceQueue : QueueName) : Except PyError (List QueueName) :=
  match dequeueStrategy with
  | .default => .ok orderedQueues
  | .roundRobin => rotateQueues orderedQueues referenceQueue
  | .random => .ok (shuffle orderedQueues)

/-- `RoundRobinWorker.reorder_queues` -/
def roundRobinReorderQueues (orderedQueues : List QueueName) (referenceQueue : QueueName) :
    Except PyError (List QueueName) :=
  rotateQueues orderedQueues referenceQueue

/-- The ways to get the round-robin strategy. -/
inductive RoundRobin : (List QueueName → QueueName → Except PyError (List QueueName)) → Prop where
  | strategy (shuffle : List QueueName → List QueueName) :
      RoundRobin (reorderQueues .roundRobin shuffle)
  | workerClass : RoundRobin roundRobinReorderQueues

lemma RoundRobin.eq {reorder : List QueueName → QueueName → Except PyError (List QueueName)}
    (h : RoundRobin reorder) : reorder = rotateQueues := by
  cases h <;> rfl

/-- The iteration of `BaseWorker.dequeue_job_and_maintain_ttl` that ends its loop: the job, its queue
and the new order of the queues. -/
def dequeueJob (reorder : List QueueName → QueueName → Except PyError (List QueueName))
    (version : ℕ × ℕ × ℕ) (orderedQueues : List QueueName) (timeout : Option ℕ) (fuel : ℕ) :
    Redis (Option (Job × QueueName × List QueueName)) := do
  let result ← Queue.dequeueAny version (orderedQueues.map queueKey) timeout fuel
  match result with
  | none => return none
  | some (job, queueKey) => do
    let queue ← Prog.ofExcept (Queue.fromQueueKey queueKey)
    let orderedQueues ← Prog.ofExcept (reorder orderedQueues queue)
    return some (job, queue, orderedQueues)

/-- A dequeue: the database it finds and the queue it serves. -/
structure Turn where
  store : Store
  queue : QueueName

/-- Successful dequeues of a worker, one after the other, from one order of its queues to another.
Between two of them the database changes in any way. -/
inductive Dequeues (reorder : List QueueName → QueueName → Except PyError (List QueueName))
    (version : ℕ × ℕ × ℕ) : List QueueName → List Turn → List QueueName → Prop where
  | nil {orderedQueues : List QueueName} : Dequeues reorder version orderedQueues [] orderedQueues
  | cons {orderedQueues ordered' ordered'' : List QueueName} {turns : List Turn}
      {timeout : Option ℕ} {fuel : ℕ} {s s' : Store} {job : Job} {queue : QueueName}
      (hrun : (dequeueJob reorder version orderedQueues timeout fuel).run s =
        (.ok (some (job, queue, ordered')), s'))
      (hrest : Dequeues reorder version ordered' turns ordered'') :
      Dequeues reorder version orderedQueues (⟨s, queue⟩ :: turns) ordered''

/-! ### A rotation -/

lemma perm_of_rotateQueues {orderedQueues ordered' : List QueueName} {reference : QueueName}
    (h : rotateQueues orderedQueues reference = .ok ordered') : ordered'.Perm orderedQueues := by
  unfold rotateQueues at h
  split at h
  · cases h
    apply List.perm_append_comm.trans
    rw [List.take_append_drop]
  · cases h

/-- The rotation brings every queue behind the reference queue forward. -/
lemma idxOf_rotateQueues {orderedQueues ordered' : List QueueName} {reference q : QueueName}
    (h : rotateQueues orderedQueues reference = .ok ordered') (hq : q ∈ orderedQueues)
    (hbehind : orderedQueues.idxOf reference < orderedQueues.idxOf q) :
    ordered'.idxOf q + (orderedQueues.idxOf reference + 1) = orderedQueues.idxOf q := by
  unfold rotateQueues at h
  split at h
  · cases h
    show (orderedQueues.drop (orderedQueues.idxOf reference + 1) ++
      orderedQueues.take (orderedQueues.idxOf reference + 1)).idxOf q + _ = _
    have hle : orderedQueues.idxOf reference + 1 ≤ orderedQueues.idxOf q := hbehind
    clear hbehind
    generalize orderedQueues.idxOf reference + 1 = pos at *
    have hlength : pos ≤ orderedQueues.length := hle.trans List.idxOf_le_length
    -- the queue is not among those that go to the end
    have hnotMem : q ∉ orderedQueues.take pos := by
      intro hmem
      have hlt := List.idxOf_lt_length_of_mem hmem
      have heq : orderedQueues.idxOf q = (orderedQueues.take pos).idxOf q := by
        conv_lhs => rw [← List.take_append_drop pos orderedQueues]
        exact List.idxOf_append_of_mem hmem
      rw [List.length_take] at hlt
      omega
    have hmem : q ∈ orderedQueues.drop pos := by
      rw [← List.take_append_drop pos orderedQueues, List.mem_append] at hq
      exact hq.resolve_left hnotMem
    have hfront : orderedQueues.idxOf q = pos + (orderedQueues.drop pos).idxOf q := by
      conv_lhs => rw [← List.take_append_drop pos orderedQueues]
      rw [List.idxOf_append_of_notMem hnotMem, List.length_take, Nat.min_eq_left hlength]
    rw [List.idxOf_append_of_mem hmem]
    omega
  · cases h

/-! ### Fairness -/

section Fairness
variable {reorder : List QueueName → QueueName → Except PyError (List QueueName)}
  {version : ℕ × ℕ × ℕ}

/-- A dequeue serves one of the queues, and none behind one that holds a job. -/
lemma dequeueJob_served {orderedQueues ordered' : List QueueName} {timeout : Option ℕ} {fuel : ℕ}
    {s s' : Store} {job : Job} {queue : QueueName}
    (hrun : (dequeueJob reorder version orderedQueues timeout fuel).run s =
      (.ok (some (job, queue, ordered')), s')) :
    reorder orderedQueues queue = .ok ordered' ∧
      ∀ q ∈ orderedQueues, Queue.HoldsJob s (queueKey q) →
        orderedQueues.idxOf queue ≤ orderedQueues.idxOf q := by
  obtain ⟨result, s₁, hdequeue, hrest⟩ := Prog.run_bind_eq_ok hrun
  cases result with
  | none => cases hrest
  | some found =>
    obtain ⟨job', key⟩ := found
    obtain ⟨queue', s₂, hqueue, hrest⟩ := Prog.run_bind_eq_ok hrest
    obtain ⟨ordered₁, s₃, hreorder, hrest⟩ := Prog.run_bind_eq_ok hrest
    obtain ⟨⟨rfl, rfl, rfl⟩, -⟩ : (job' = job ∧ queue' = queue ∧ ordered₁ = ordered') ∧ s₃ = s' := by
      simpa using hrest
    refine ⟨(Prog.run_ofExcept_eq_ok hreorder).1, fun q hq hholds => ?_⟩
    obtain ⟨before, after, hkeys, hbefore⟩ :=
      Queue.dequeueAny_served (List.mem_map_of_mem hq) hholds hdequeue
    obtain ⟨front, back, hsplit, rfl, hback⟩ := List.map_eq_append_iff.mp hkeys
    obtain ⟨name, behind, rfl, rfl, rfl⟩ := List.map_eq_cons_iff.mp hback
    -- the name is read back from the key
    have hname : name = queue' := by
      have hok := (Prog.run_ofExcept_eq_ok hqueue).1
      rw [Queue.fromQueueKey_queueKey] at hok
      cases hok
      rfl
    have hq' : q ∉ front := fun hmem => hbefore (List.mem_map_of_mem hmem)
    have hfirst : (front ++ name :: behind).idxOf name ≤ front.length := by
      by_cases hmem : name ∈ front
      · rw [List.idxOf_append_of_mem hmem]
        exact (List.idxOf_lt_length_of_mem hmem).le
      · rw [List.idxOf_append_of_notMem hmem, List.idxOf_cons_self]
        omega
    rw [hsplit, List.idxOf_append_of_notMem hq', ← hname]
    omega

variable (hreorder : RoundRobin reorder)
include hreorder

lemma Dequeues.perm {orderedQueues ordered' : List QueueName} {turns : List Turn}
    (h : Dequeues reorder version orderedQueues turns ordered') : ordered'.Perm orderedQueues := by
  induction h with
  | nil => exact .refl _
  | cons hrun _ ih =>
    have hrotate := (dequeueJob_served hrun).1
    rw [hreorder.eq] at hrotate
    exact ih.trans (perm_of_rotateQueues hrotate)

/-- A queue that is not served comes forward with every dequeue. -/
lemma Dequeues.length_le_idxOf {orderedQueues ordered' : List QueueName} {turns : List Turn}
    (h : Dequeues reorder version orderedQueues turns ordered') {q : QueueName}
    (hq : q ∈ orderedQueues) (hholds : ∀ turn ∈ turns, Queue.HoldsJob turn.store (queueKey q))
    (hserved : ∀ turn ∈ turns, turn.queue ≠ q) : turns.length ≤ orderedQueues.idxOf q := by
  induction h with
  | nil => exact Nat.zero_le _
  | @cons orderedQueues ordered' ordered'' turns timeout fuel s s' job queue hrun _ ih =>
    obtain ⟨hrotate, hfirst⟩ := dequeueJob_served hrun
    rw [hreorder.eq] at hrotate
    have hle := hfirst q hq (hholds _ List.mem_cons_self)
    have hne : orderedQueues.idxOf queue ≠ orderedQueues.idxOf q := by
      intro heq
      exact hserved _ List.mem_cons_self ((List.idxOf_inj hq).mp heq.symm).symm
    have hforward := idxOf_rotateQueues hrotate hq (by omega)
    have hrest := ih ((perm_of_rotateQueues hrotate).mem_iff.mpr hq)
      (fun turn hturn => hholds turn (List.mem_cons_of_mem _ hturn))
      (fun turn hturn => hserved turn (List.mem_cons_of_mem _ hturn))
    rw [List.length_cons]
    omega

/-- With the round-robin strategy the order of the queues is always a permutation of them, and of as
many dequeues in a row as there are queues one serves each queue that holds a job all the time. -/
theorem roundRobin_fair {queues orderedQueues : List QueueName} {earlier : List Turn}
    (h : Dequeues reorder version queues earlier orderedQueues) :
    orderedQueues.Perm queues ∧
    ∀ turns ordered', Dequeues reorder version orderedQueues turns ordered' →
      turns.length = queues.length → ∀ q ∈ queues,
      (∀ turn ∈ turns, Queue.HoldsJob turn.store (queueKey q)) → ∃ turn ∈ turns, turn.queue = q := by
  have hperm := h.perm hreorder
  refine ⟨hperm, fun turns ordered' hturns hlength q hq hholds => ?_⟩
  by_contra hunserved
  have hq' : q ∈ orderedQueues := hperm.mem_iff.mpr hq
  have hle := hturns.length_le_idxOf hreorder hq' hholds fun turn hturn heq =>
    hunserved ⟨turn, hturn, heq⟩
  have hlt := List.idxOf_lt_length_of_mem hq'
  rw [hperm.length_eq] at hlt
  omega

end Fairness

/-- Two queues with a job each. -/
def bothWaiting : Store :=
  (Command.seq [push "rq:queue:a" false "x", push "rq:queue:b" false "y",
    hset "x" { data := some "", origin := some "a" },
    hset "y" { data := some "", origin := some "b" }]).run Store.empty

def bothServed : List Turn := [⟨bothWaiting, "a"⟩, ⟨bothWaiting, "b"⟩]

lemma dequeues_bothServed :
    Dequeues roundRobinReorderQueues (7, 0, 0) ["a", "b"] bothServed ["a", "b"] := by
  have hfirst : ((dequeueJob roundRobinReorderQueues (7, 0, 0) ["a", "b"] none 1).run bothWaiting).1 =
      .ok (some ({ id := "x", origin := "a" }, "a", ["b", "a"])) := by decide +kernel
  have hsecond : ((dequeueJob roundRobinReorderQueues (7, 0, 0) ["b", "a"] none 1).run bothWaiting).1 =
      .ok (some ({ id := "y", origin := "b" }, "b", ["a", "b"])) := by decide +kernel
  exact .cons (Prod.ext hfirst rfl) (.cons (Prod.ext hsecond rfl) .nil)

theorem roundRobin_fair_bothServed : ∃ turn ∈ bothServed, turn.queue = "b" := by
  have hjob : Queue.HoldsJob bothWaiting (queueKey "b") :=
    ⟨"y", by decide, { id := "y", origin := "b" }, by decide⟩
  apply (roundRobin_fair .workerClass .nil).2 bothServed _ dequeues_bothServed
  · rfl
  · decide
  · simp [bothServed, hjob]

end Worker

end RedisQueue
