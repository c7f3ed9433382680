import RedisQueue.SavedJobs
import RedisQueue.Dequeueing

/-!
# The keys in Redis

The templates of `rq/job.py`, `rq/results.py`, `rq/executions.py` and `rq/intermediate_queue.py`, as
the strings that they are.

* `JobKey.redisKey_injective`: the keys of jobs and executions are those of no others;
* `JobKey.keys_parse`: the composite key of an execution is read back;
* `Queue.isolated_iff`: two queues share a key if the name of one continues that of the other.
-/

namespace RedisQueue

/-! ## Keys of jobs and executions -/

/-- `Job.key_for` -/
def Job.keyFor (jobId : JobId) : String := "rq:job:" ++ jobId

/-- `Job.dependents_key_for` -/
def Job.dependentsKeyFor (jobId : JobId) : String := "rq:job:" ++ jobId ++ ":dependents"

/-- `Job.dependencies_key` -/
def Job.dependenciesKey (jobId : JobId) : String := "rq:job:" ++ ":" ++ jobId ++ ":dependencies"

/-- `Result.get_key` -/
def Result.getKey (jobId : JobId) : String := "rq:results:" ++ jobId

/-- `ExecutionRegistry.key` -/
def ExecutionRegistry.keyFor (jobId : JobId) : String := "rq:executions:" ++ jobId

namespace Execution

/-- `Execution.composite_key` -/
def compositeKey (jobId : JobId) (id : ExecutionId) : String := jobId ++ ":" ++ id

/-- `Execution.key` -/
def keyFor (jobId : JobId) (id : ExecutionId) : String := "rq:execution:" ++ compositeKey jobId id

end Execution

/-- `parse_composite_key` -/
def parseCompositeKey (compositeKey : String) : Except PyError (JobId × ExecutionId) :=
  match (compositeKey.toList.splitOn ':').map String.ofList with
  | [jobId] => .ok (jobId, "")
  | [jobId, executionId] => .ok (jobId, executionId)
  | _ => .error (.valueError "too many values to unpack (expected 2)")

/-- An id that `validate_job_id` accepts. -/
abbrev ValidJobId := {id : JobId // jobIdPattern id = true}

/-- The hexadecimal digits. -/
def isHexDigit (c : Char) : Bool :=
  c.isDigit || ('a' ≤ c && c ≤ 'f') || ('A' ≤ c && c ≤ 'F')

/-- The id of an execution. -/
abbrev HexId := {id : ExecutionId // id ≠ "" ∧ id.toList.all isHexDigit = true}

/-- A key about a job. -/
inductive JobKey where
  | job (id : ValidJobId)
  | dependents (id : ValidJobId)
  | dependencies (id : ValidJobId)
  | results (id : ValidJobId)
  | executions (jobId : ValidJobId)
  | execution (jobId : ValidJobId) (id : HexId)

namespace JobKey

/-- The key as the model has it. -/
def toKey : JobKey → Key
  | job id => .job id
  | dependents id => .dependents id
  | dependencies id => .dependencies id
  | results id => .results id
  | executions jobId => .executions jobId
  | execution jobId id => .execution jobId id

/-- The key as Redis has it. -/
def redisKey : JobKey → String
  | job id => Job.keyFor id
  | dependents id => Job.dependentsKeyFor id
  | dependencies id => Job.dependenciesKey id
  | results id => Result.getKey id
  | executions jobId => ExecutionRegistry.keyFor jobId
  | execution jobId id => Execution.keyFor jobId id

/-- What stands between the colons. -/
def parts : JobKey → List (List Char)
  | job id => ["rq".toList, "job".toList, id.val.toList]
  | dependents id => ["rq".toList, "job".toList, id.val.toList, "dependents".toList]
  | dependencies id => ["rq".toList, "job".toList, [], id.val.toList, "dependencies".toList]
  | results id => ["rq".toList, "results".toList, id.val.toList]
  | executions jobId => ["rq".toList, "executions".toList, jobId.val.toList]
  | execution jobId id =>
    ["rq".toList, "execution".toList, jobId.val.toList, id.val.toList]

/-! ### Injectivity -/

lemma colon_notMem_hex (id : HexId) : ':' ∉ id.val.toList := by
  intro hcolon
  have hdigit := List.all_eq_true.mp id.property.2 ':' hcolon
  exact absurd hdigit (by decide)

lemma colon_notMem_parts (k : JobKey) : ∀ part ∈ k.parts, ':' ∉ part := by
  have hid : ∀ id : ValidJobId, ':' ∉ id.val.toList := fun id => colon_notMem_of_pattern id.property
  cases k <;> simp [parts, hid, colon_notMem_hex]

lemma toList_redisKey (k : JobKey) : k.redisKey.toList = [':'].intercalate k.parts := by
  cases k <;> simp [redisKey, parts, Job.keyFor, Job.dependentsKeyFor, Job.dependenciesKey,
    Result.getKey, ExecutionRegistry.keyFor, Execution.keyFor, Execution.compositeKey,
    List.intercalate]

/-- The parts are read off the key. -/
lemma splitOn_redisKey (k : JobKey) : k.redisKey.toList.splitOn ':' = k.parts := by
  rw [toList_redisKey]
  apply List.splitOn_intercalate ':' k.colon_notMem_parts
  cases k <;> simp [parts]

lemma parts_injective : Function.Injective parts := by
  intro k k' h
  cases k <;> cases k' <;> simp [parts, Subtype.ext_iff, String.toList_inj] at h ⊢
  all_goals exact h

/-- **No two keys are the same string.** -/
theorem redisKey_injective : Function.Injective redisKey := by
  intro k k' h
  apply parts_injective
  rw [← splitOn_redisKey, ← splitOn_redisKey, h]

/-- The keys of the model are told apart as the strings are. -/
theorem toKey_eq_iff (k k' : JobKey) : k.toKey = k'.toKey ↔ k.redisKey = k'.redisKey := by
  rw [redisKey_injective.eq_iff]
  constructor
  · intro h
    cases k <;> cases k' <;> simp [toKey, Subtype.ext_iff] at h ⊢
    all_goals exact h
  · exact congrArg toKey

/-! ### Composite keys -/

lemma toList_compositeKey (jobId : JobId) (id : ExecutionId) :
    (Execution.compositeKey jobId id).toList = [':'].intercalate [jobId.toList, id.toList] := by
  simp [Execution.compositeKey, List.intercalate]

lemma parseCompositeKey_compositeKey (jobId : ValidJobId) (id : HexId) :
    parseCompositeKey (Execution.compositeKey jobId id) = .ok (jobId.val, id.val) := by
  have hsplit : (Execution.compositeKey jobId id).toList.splitOn ':' =
      [jobId.val.toList, id.val.toList] := by
    rw [toList_compositeKey]
    apply List.splitOn_intercalate
    · simp [colon_notMem_of_pattern jobId.property, colon_notMem_hex]
    · simp
  simp [parseCompositeKey, hsplit]

lemma parseJobId_compositeKey (jobId : ValidJobId) (id : ExecutionId) :
    JobRecord.parseJobId (Execution.compositeKey jobId id) = jobId.val := by
  have hjobId : ∀ c ∈ jobId.val.toList, decide (c ≠ ':') = true := fun c hc =>
    decide_eq_true fun heq => colon_notMem_of_pattern jobId.property (heq ▸ hc)
  have htake : (Execution.compositeKey jobId id).toList.takeWhile (· ≠ ':') =
      jobId.val.toList := by
    rw [toList_compositeKey, List.intercalate_cons_cons, List.intercalate_singleton,
      List.append_assoc, List.takeWhile_append_of_pos hjobId]
    simp
  rw [JobRecord.parseJobId, htake, String.ofList_toList]

/-- **The keys of jobs and executions.** The six templates share no key, and none of them gives the
same key twice; a composite key is read back. -/
theorem keys_parse : Function.Injective redisKey ∧
    (∀ (jobId : ValidJobId) (id : HexId),
      parseCompositeKey (Execution.compositeKey jobId id) = .ok (jobId.val, id.val)) ∧
    ∀ (jobId : ValidJobId) (id : HexId), JobRecord.parseJobId jobId = jobId.val ∧
      JobRecord.parseJobId (Execution.compositeKey jobId id) = jobId.val :=
  ⟨redisKey_injective, parseCompositeKey_compositeKey, fun jobId id =>
    ⟨parseJobId_of_pattern jobId.property, parseJobId_compositeKey jobId id⟩⟩

end JobKey

/-! ## Keys of queues -/

/-- `IntermediateQueue.get_first_seen_key` -/
def firstSeenKey (queueKey : String) (jobId : JobId) : String :=
  intermediateQueueKey queueKey ++ ":first_seen:" ++ jobId

namespace Queue

/-- The keys that the queue uses for a job. -/
def keysFor (name : QueueName) (id : JobId) : List String :=
  [queueKey name, intermediateQueueKey (queueKey name), firstSeenKey (queueKey name) id]

/-- The name of the first queue continues that of the second like one of its keys. -/
def Continues (name name' : QueueName) (id : JobId) : Prop :=
  name = name' ++ ":intermediate" ∨ name = name' ++ ":intermediate:first_seen:" ++ id ∨
    id = "intermediate" ∧ name = name' ++ ":intermediate:first_seen"

instance (name name' : QueueName) (id : JobId) : Decidable (Continues name name' id) :=
  inferInstanceAs (Decidable (_ ∨ _ ∨ _ ∧ _))

def KeepsList (key : String) (s s' : Store) : Prop := s'.val (.list key) = s.val (.list key)

lemma KeepsList.refl (key : String) (s : Store) : KeepsList key s s := rfl

lemma KeepsList.trans {key : String} (s t u : Store) (h : KeepsList key s t)
    (h' : KeepsList key t u) : KeepsList key s u := Eq.trans h' h

/-- The queues have no key in common, so that what is taken from the first leaves the second
alone, and either is found again by its key. -/
structure Isolated (name name' : QueueName) (id : JobId) : Prop where
  keys : (keysFor name id).Disjoint (keysFor name' id)
  named : fromQueueKey (queueKey name) = .ok name ∧ fromQueueKey (queueKey name') = .ok name'
  dequeue : ∀ (version : ℕ × ℕ × ℕ) (timeout : Option ℕ) (fuel : ℕ) (s : Store),
    ∀ key ∈ keysFor name' id,
      KeepsList key s ((dequeueAny version [queueKey name] timeout fuel).run s).2

section Dequeue
variable {name : QueueName} {version : ℕ × ℕ × ℕ} {timeout : Option ℕ} {key : String}

/-- A pop touches the list of the queue and its intermediate list. -/
lemma within_popAny_keeps (hkey : key ≠ queueKey name)
    (hkey' : key ≠ intermediateQueueKey (queueKey name)) :
    (popAny version [queueKey name] timeout).Within (fun _ => True) (KeepsList key)
      fun _ => True := by
  have hpop (s : Store) : KeepsList key s
      ((Command.alter (.list (queueKey name)) List.tail : Command Key Value).run s) := by
    simp [KeepsList, hkey]
  simp only [popAny]
  split
  · unfold lmove
    split
    · trivial
    · refine fun s _ => ⟨⟨trivial, ?_⟩, ?_⟩ <;> dsimp only <;> split
      · rfl
      · simp [KeepsList, hkey, hkey']
      all_goals trivial
  · unfold lpop
    split
    · exact fun s _ => ⟨⟨trivial, hpop s⟩, by dsimp only; split <;> trivial⟩
    · trivial
    · refine fun s _ => ⟨⟨trivial, ?_⟩, ?_⟩ <;> dsimp only <;> split
      · next key' id hfirst =>
        obtain ⟨before, after, rest, hkeys, -, -⟩ := firstNonempty_eq_some hfirst
        have hmem : key' ∈ [queueKey name] := by simp [hkeys]
        rw [List.mem_singleton.mp hmem]
        exact hpop s
      · rfl
      all_goals trivial

lemma dequeueAny_keeps (hkey : key ≠ queueKey name)
    (hkey' : key ≠ intermediateQueueKey (queueKey name)) (fuel : ℕ) (s : Store) :
    KeepsList key s ((dequeueAny version [queueKey name] timeout fuel).run s).2 := by
  have hwithin : (dequeueAny version [queueKey name] timeout fuel).Within (fun _ => True)
      (KeepsList key) fun _ => True := by
    induction fuel with
    | zero => trivial
    | succ fuel ih =>
      simp only [dequeueAny, Prog.within_bind]
      refine (within_popAny_keeps hkey hkey').mono fun r _ => ?_
      split
      · trivial
      · simp only [Prog.within_bind]
        refine Prog.within_read (KeepsList.refl key) fun s _ => ?_
        split
        · exact ih
        · split
          · trivial
          · exact ih
          · trivial
  exact (hwithin.run (KeepsList.refl key) KeepsList.trans trivial).2

end Dequeue

/-! ### When two queues share a key -/

section Shared
variable {name name' : QueueName}

lemma queueKey_eq_intermediate :
    queueKey name = intermediateQueueKey (queueKey name') ↔ name = name' ++ ":intermediate" := by
  simp [queueKey, intermediateQueueKey, String.append_assoc]

lemma queueKey_eq_firstSeen {id : JobId} : queueKey name = firstSeenKey (queueKey name') id ↔
    name = name' ++ ":intermediate:first_seen:" ++ id := by
  simp [queueKey, intermediateQueueKey, firstSeenKey, String.append_assoc]

lemma intermediate_inj : intermediateQueueKey (queueKey name) =
    intermediateQueueKey (queueKey name') ↔ name = name' := by
  simp [queueKey, intermediateQueueKey]

lemma firstSeen_inj {id : JobId} :
    firstSeenKey (queueKey name) id = firstSeenKey (queueKey name') id ↔ name = name' := by
  simp [firstSeenKey, intermediate_inj]

/-- The last part of an id of a job is the whole id. -/
lemma intermediate_eq_firstSeen (id : ValidJobId) :
    intermediateQueueKey (queueKey name) = firstSeenKey (queueKey name') id ↔
      id.val = "intermediate" ∧ name = name' ++ ":intermediate:first_seen" := by
  have hid := colon_notMem_of_pattern id.property
  have hleft : (intermediateQueueKey (queueKey name)).toList =
      ("rq:queue:".toList ++ name.toList) ++ ':' :: "intermediate".toList := by
    simp [intermediateQueueKey, queueKey]
  have hright : (firstSeenKey (queueKey name') id).toList =
      ("rq:queue:".toList ++ (name' ++ ":intermediate:first_seen").toList) ++
        ':' :: id.val.toList := by
    simp [firstSeenKey, intermediateQueueKey, queueKey]
  rw [← String.toList_inj, hleft, hright, append_cons_inj_right (by decide) hid,
    List.append_cancel_left_eq, String.toList_inj, String.toList_inj]
  exact ⟨fun h => ⟨h.2.symm, h.1⟩, fun h => ⟨h.2, h.1.symm⟩⟩

lemma disjoint_keysFor_iff (hne : name ≠ name') (id : ValidJobId) :
    (keysFor name id).Disjoint (keysFor name' id) ↔
      ¬Continues name name' id ∧ ¬Continues name' name id := by
  have hlist : intermediateQueueKey (queueKey name) = queueKey name' ↔
      name' = name ++ ":intermediate" := by rw [eq_comm, queueKey_eq_intermediate]
  have hmarker : firstSeenKey (queueKey name) id.val = queueKey name' ↔
      name' = name ++ ":intermediate:first_seen:" ++ id.val := by
    rw [eq_comm, queueKey_eq_firstSeen]
  have hlast : firstSeenKey (queueKey name) id.val = intermediateQueueKey (queueKey name') ↔
      id.val = "intermediate" ∧ name' = name ++ ":intermediate:first_seen" := by
    rw [eq_comm, intermediate_eq_firstSeen]
  simp only [keysFor, List.disjoint_cons_left, List.mem_cons, List.not_mem_nil, or_false,
    List.disjoint_nil_left, and_true, queueKey_inj, queueKey_eq_intermediate,
    queueKey_eq_firstSeen, intermediate_inj, firstSeen_inj, intermediate_eq_firstSeen, hlist,
    hmarker, hlast, hne, false_or, Continues]
  grind

end Shared

/-- **Distinct queues are isolated if and only if neither name continues the other like a key.** -/
theorem isolated_iff {name name' : QueueName} (hne : name ≠ name') (id : ValidJobId) :
    Isolated name name' id ↔ ¬Continues name name' id ∧ ¬Continues name' name id := by
  rw [← disjoint_keysFor_iff hne id]
  constructor
  · exact Isolated.keys
  · intro hkeys
    refine ⟨hkeys, ⟨fromQueueKey_queueKey name, fromQueueKey_queueKey name'⟩, ?_⟩
    intro version timeout fuel s key hkey
    apply dequeueAny_keeps
    · exact fun heq => hkeys (by simp [keysFor, heq]) hkey
    · exact fun heq => hkeys (by simp [keysFor, heq]) hkey

theorem isolated_iff_plain : Isolated "emails" "reports" "job" :=
  (isolated_iff (by decide) ⟨"job", by decide⟩).mpr (by decide)

/-- **The intermediate list of a queue is the list of another one.** A dequeue puts the id there. -/
theorem intermediate_shared : ¬Isolated "emails" "emails:intermediate" "job" ∧
    ((dequeueAny (7, 0, 0) [queueKey "emails"] none 2).run
      ((Command.write (.list (queueKey "emails")) fun _ => ["job"] : Command Key Value).run
        Store.empty)).2.val (.list (queueKey "emails:intermediate")) = ["job"] :=
  ⟨fun h => h.keys (a := queueKey "emails:intermediate") (by decide) (by decide), by decide +kernel⟩

end Queue

end RedisQueue
