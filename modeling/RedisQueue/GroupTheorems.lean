import RedisQueue.GroupRuns

/-!
# Delivery of the batch of a group

What `Group.enqueue_many` leaves of a batch, whatever the number of conflicts at each dependency
check.

* `Entered`: the hash of a job of the batch, which every command of the batch preserves;
* `delivers_iff`: when every job of the batch is delivered.
-/

namespace RedisQueue

open Prog

/-! ## Entries that wait -/

namespace EnqueueData

def dependencies (jd : EnqueueData) : List JobId :=
  (jd.dependsOn.map DependsOn.dependencies).getD []

/-- A dependency may have this status. -/
def allows (jd : EnqueueData) (status : Option JobStatus) : Bool :=
  Job.statusAllowed
    { id := jd.id, allowDependencyFailures := jd.dependsOn.bind DependsOn.allowFailure } status

/-- The dependencies of the entry are met. -/
def MetIn (jd : EnqueueData) (s : Store) : Prop :=
  ∀ id ∈ jd.dependencies, jd.allows (s.val (.job id)).status = true

/-- The entry depends on one of `ids`, or on a job whose status it does not allow. -/
def WaitsFor (jd : EnqueueData) (s : Store) (ids : List JobId) : Prop :=
  ∃ id ∈ jd.dependencies, id ∈ ids ∨ jd.allows (s.val (.job id)).status = false

instance (jd : EnqueueData) (s : Store) : Decidable (jd.MetIn s) :=
  inferInstanceAs (Decidable (∀ id ∈ jd.dependencies, _))

instance (jd : EnqueueData) (s : Store) (ids : List JobId) : Decidable (jd.WaitsFor s ids) :=
  inferInstanceAs (Decidable (∃ id ∈ jd.dependencies, _ ∨ _))

lemma allowedIn_newJob (jd : EnqueueData) (queue : Queue) (status : JobStatus)
    (groupId : Option String) (s : Store) :
    (queue.newJob jd status groupId).allowedIn s = true ↔ jd.MetIn s := by
  rw [Job.allowedIn, Job.statusesAllowedIn, List.all_eq_true]
  rfl

lemma metIn_of_noDeps {jd : EnqueueData} (h : jd.dependsOn = none) (s : Store) : jd.MetIn s := by
  simp [MetIn, dependencies, h]

/-- Jobs that have just been enqueued or deferred are waited for. -/
lemma metIn_iff (jd : EnqueueData) {s s' : Store} {ids : List JobId}
    (hin : ∀ id ∈ ids, (s'.val (.job id)).status = some .queued ∨
      (s'.val (.job id)).status = some .deferred)
    (hout : ∀ id ∉ ids, s'.val (.job id) = s.val (.job id)) :
    jd.MetIn s' ↔ ¬jd.WaitsFor s ids := by
  have hpending : ∀ id ∈ ids, jd.allows (s'.val (.job id)).status = false := fun id hid => by
    unfold allows Job.statusAllowed Job.allowedStatuses
    rcases hin id hid with hstatus | hstatus <;> rw [hstatus] <;> dsimp only <;> split <;> decide
  constructor
  · rintro hmet ⟨id, hid, hwaits⟩
    have hallows := hmet id hid
    by_cases hids : id ∈ ids
    · rw [hpending id hids] at hallows
      cases hallows
    · rw [hout id hids, hwaits.resolve_left hids] at hallows
      cases hallows
  · intro hwaits id hid
    have hids : id ∉ ids := fun hids => hwaits ⟨id, hid, .inl hids⟩
    rw [hout id hids]
    exact Bool.eq_true_of_not_eq_false fun hallows => hwaits ⟨id, hid, .inr hallows⟩

end EnqueueData

/-! ## The hashes of the batch -/

/-- The hash is that of a job of the group that has been enqueued or deferred. -/
structure JobHash.Entered (h : JobHash) (name : String) : Prop where
  data : h.data.isSome
  groupId : h.groupId = some (some name)
  status : h.status = some .queued ∨ h.status = some .deferred

namespace Queue
variable {queue : Queue} {name : String} {now : Time} {s : Store} {jds : List EnqueueData}
  {ns : List ℕ} {id : JobId} {c : Command Key Value}

/-- The commands of a batch, as far as the hashes are concerned. -/
inductive BatchCommand (queue : Queue) (name : String) (now : Time) (jds : List EnqueueData) :
    Command Key Value → Prop where
  | enqueue (jd : EnqueueData) (hjd : jd ∈ jds) (status : JobStatus) (c : Command Key Value)
      (h : EnqueueCommand queue (queue.newJob jd status (some name)) now c) :
    BatchCommand queue name now jds c
  | save (jd : EnqueueData) (hjd : jd ∈ jds) : BatchCommand queue name now jds
      (hset jd.id ((queue.newJob jd .deferred (some name)).toDict true))
  | other (c : Command Key Value) (h : ∀ id, c.Keeps (.job id)) : BatchCommand queue name now jds c

/-- What the commands of a batch write to a hash. -/
lemma BatchCommand.eq_hset (h : BatchCommand queue name now jds c) :
    (∀ id, c.Keeps (.job id)) ∨ ∃ jd ∈ jds, ∃ mapping : JobHash, c = hset jd.id mapping ∧
      (mapping = { status := some .queued } ∨ mapping.Entered name) := by
  cases h with
  | enqueue jd hjd status c h =>
    cases h with
    | undefer => exact .inl fun _ => Command.keeps_alter (by simp)
    | status => exact .inr ⟨jd, hjd, _, rfl, .inl rfl⟩
    | save => exact .inr ⟨jd, hjd, _, rfl, .inr ⟨rfl, rfl, .inl rfl⟩⟩
    | expire k t => exact .inl fun _ => Command.keeps_expire
    | push atFront => exact .inl fun _ s => by simp
  | save jd hjd => exact .inr ⟨jd, hjd, _, rfl, .inr ⟨rfl, rfl, .inr rfl⟩⟩
  | other c h => exact .inl h

lemma entered_update {h mapping : JobHash} (hmapping : mapping.Entered name) :
    (h.update mapping).Entered name where
  data := by
    obtain ⟨data, hdata⟩ := Option.isSome_iff_exists.mp hmapping.data
    simp [JobHash.update, hdata]
  groupId := by simp [JobHash.update, hmapping.groupId]
  status := hmapping.status.imp (fun hstatus => by simp [JobHash.update, hstatus])
    fun hstatus => by simp [JobHash.update, hstatus]

/-- A job of the batch stays one. -/
lemma BatchCommand.entered (h : BatchCommand queue name now jds c)
    (hs : (s.val (.job id)).Entered name) : ((c.run s).val (.job id)).Entered name := by
  rcases h.eq_hset with hkeeps | ⟨jd, -, mapping, rfl, hmapping⟩
  · rwa [hkeeps]
  · by_cases hid : id = jd.id
    · subst hid
      rw [val_hset, Function.update_self]
      rcases hmapping with rfl | hmapping
      · exact ⟨by simpa [JobHash.update] using hs.data, by simpa [JobHash.update] using hs.groupId,
          .inl rfl⟩
      · exact entered_update hmapping
    · rwa [val_hset, Function.update_of_ne (by simpa using hid)]

/-- Other jobs are left alone. -/
lemma BatchCommand.keeps (h : BatchCommand queue name now jds c)
    (hid : id ∉ jds.map EnqueueData.id) : c.Keeps (.job id) := by
  rcases h.eq_hset with hkeeps | ⟨jd, hjd, mapping, rfl, -⟩
  · exact hkeeps id
  · exact Command.keeps_write fun heq =>
      hid (List.mem_map.mpr ⟨jd, hjd, (Key.job.inj heq).symm⟩)

lemma BatchCommand.mono {jds' : List EnqueueData} (h : BatchCommand queue name now jds c)
    (hjds : ∀ jd ∈ jds, jd ∈ jds') : BatchCommand queue name now jds' c := by
  cases h with
  | enqueue jd hjd status c h => exact .enqueue jd (hjds jd hjd) status c h
  | save jd hjd => exact .save jd (hjds jd hjd)
  | other c h => exact .other c h

lemma keeps_expire_or {p : Prop} [Decidable p] {k k' : Key} {t : Time} :
    (if p then Command.expire k' t else Command.seq [] : Command Key Value).Keeps k := by
  split
  · exact Command.keeps_expire
  · exact fun _ => rfl

lemma batchCommand_uniques {uds : List (ℕ × EnqueueData)} (hmem : ∀ jd ∈ uds, jd.2 ∈ jds)
    (hc : c ∈ queue.uniqueCommands (some name) now uds) : BatchCommand queue name now jds c := by
  obtain ⟨jd, hjd, hc⟩ := List.mem_flatMap.mp hc
  simp only [Attempt.commands, saveCommands, Place.commands, attemptOf, List.mem_append,
    List.mem_cons, List.not_mem_nil, or_false] at hc
  rcases hc with (rfl | rfl) | rfl
  · exact .enqueue jd.2 (hmem jd hjd) .queued _ .save
  · exact .other _ fun _ => keeps_expire_or
  · exact .enqueue jd.2 (hmem jd hjd) .queued _ (.push _)

lemma batchCommand_normals {nds : List (ℕ × EnqueueData)} (hmem : ∀ jd ∈ nds, jd.2 ∈ jds)
    (hc : c ∈ queue.normalCommands (some name) now nds) : BatchCommand queue name now jds c := by
  obtain ⟨jd, hjd, hc⟩ := List.mem_flatMap.mp hc
  exact .enqueue jd.2 (hmem jd hjd) .queued c (enqueueCommand_of_mem hc)

lemma batchCommand_deferred {dds : List (ℕ × EnqueueData)} (hmem : ∀ jd ∈ dds, jd.2 ∈ jds)
    (hc : c ∈ queue.deferredCommands (some name) dds) : BatchCommand queue name now jds c := by
  obtain ⟨jd, hjd, rfl⟩ := List.mem_map.mp hc
  exact .save jd.2 (hmem jd hjd)

lemma batchCommand_pending (hc : c ∈ queue.pendingCommands (some name) now jds) :
    BatchCommand queue name now jds c := by
  rcases List.mem_append.mp hc with hc | hc
  · obtain rfl : c = .alter .queues fun q => q.insert queue.key := by
      simpa [registering] using hc
    exact .other _ fun _ => Command.keeps_alter (by simp)
  · exact batchCommand_normals (fun jd hjd => (mem_of_normalNoDeps hjd).1) hc

/-! ## The commands after the unique entries -/

/-- The commands in the pipeline are not lost. -/
def Kept (jds : List EnqueueData) (ns : List ℕ) : Prop := withDeps jds = [] ∨ ns.head? = some 0

/-- The jobs that are found to have their dependencies met. -/
def metJobs (queue : Queue) (name : String) (now : Time) (jds : List EnqueueData) (ns : List ℕ)
    (s : Store) : List (ℕ × Job) :=
  copies (queue.checked (some name) now (withDeps jds) ns
    (queue.pendingCommands (some name) now jds) s) true

lemma nodup_keys_withDeps (jds : List EnqueueData) : ((withDeps jds).map Prod.fst).Nodup :=
  (nodup_keys_indexed jds).sublist (List.filter_sublist.map _)

lemma consistent_metJobs (hlength : ns.length = (withDeps jds).length) :
    Consistent queue now (queue.metJobs name now jds ns s) [] :=
  consistent_copies (nodup_keys_withDeps jds) hlength

lemma mem_metJobs (hlength : ns.length = (withDeps jds).length) {d : ℕ × Job}
    (hd : d ∈ queue.metJobs name now jds ns s) :
    ∃ jd, (d.1, jd) ∈ withDeps jds ∧ d.2 = queue.newJob jd .deferred (some name) :=
  mem_deferredJobs.mp (mem_of_mem_copies (by rw [hlength, deferredJobs, List.length_map]) hd)

/-- Where the commands come from. -/
lemma mem_restCommands (hlength : ns.length = (withDeps jds).length)
    (hc : c ∈ queue.restCommands (some name) now jds ns s) :
    (∃ jd ∈ withDeps jds,
        c ∈ (queue.newJob jd.2 .deferred (some name)).registerCommands now) ∨
      Kept jds ns ∧ (c ∈ queue.pendingCommands (some name) now jds ∨
        c ∈ queue.deferredCommands (some name) (withDeps jds)) ∨
      ∃ d ∈ queue.metJobs name now jds ns s, EnqueueCommand queue d.2 now c := by
  unfold restCommands dependentCommands at hc
  split at hc
  · next hnil => exact .inr (.inl ⟨.inl hnil, .inl hc⟩)
  · rcases List.mem_append.mp hc with hc | hc
    · rcases mem_checkAll hc with ⟨d, hd, hc⟩ | ⟨hhead, hc⟩
      · obtain ⟨jd, hjd, hjob⟩ := mem_deferredJobs.mp hd
        exact .inl ⟨(d.1, jd), hjd, hjob ▸ hc⟩
      · exact .inr (.inl ⟨.inr hhead, List.mem_append.mp hc⟩)
    · exact .inr (.inr (mem_metCommands (consistent_metJobs hlength) hc))

lemma batchCommand_rest (hlength : ns.length = (withDeps jds).length)
    (hc : c ∈ queue.restCommands (some name) now jds ns s) : BatchCommand queue name now jds c := by
  rcases mem_restCommands hlength hc with ⟨jd, hjd, hc⟩ | ⟨-, hc | hc⟩ | ⟨d, hd, hc⟩
  · refine .other _ fun id => ?_
    rcases Job.mem_registerCommands hc with rfl | ⟨id', -, rfl | rfl⟩ <;>
      exact Command.keeps_alter (by simp)
  · exact batchCommand_pending hc
  · exact batchCommand_deferred (fun jd hjd => (mem_of_withDeps hjd).1) hc
  · obtain ⟨jd, hjd, hjob⟩ := mem_metJobs hlength hd
    exact .enqueue jd (mem_of_withDeps hjd).1 .deferred c (hjob ▸ hc)

/-- If nothing is lost, the commands in the pipeline are among those performed. -/
lemma subset_restCommands (hkept : Kept jds ns) (hlength : ns.length = (withDeps jds).length)
    (hc : c ∈ queue.pendingCommands (some name) now jds ∨
      c ∈ queue.deferredCommands (some name) (withDeps jds)) :
    c ∈ queue.restCommands (some name) now jds ns s := by
  unfold restCommands dependentCommands
  split
  · next hnil =>
    rw [hnil] at hc
    exact hc.resolve_right List.not_mem_nil
  · next hnil =>
    refine List.mem_append_left _ ?_
    have hhead := hkept.resolve_left hnil
    match hdeps : withDeps jds, ns with
    | [], _ => exact absurd hdeps hnil
    | jd :: rest, [] => cases hhead
    | jd :: rest, n :: ns =>
      obtain rfl : n = 0 := by simpa using hhead
      rw [hdeps] at hc
      refine List.mem_append_left _ (List.mem_append_right _ ?_)
      rw [if_pos rfl]
      exact List.mem_append.mpr hc

/-! ## What is left of the batch -/

/-- The store after the unique entries. -/
def uniqueStore (queue : Queue) (name : String) (now : Time) (jds : List EnqueueData) (s : Store) :
    Store :=
  (Command.seq (queue.uniqueCommands (some name) now (uniqueNoDeps jds))).run s

/-- The commands of the whole call. -/
def groupCommands (queue : Queue) (name : String) (now : Time) (jds : List EnqueueData)
    (ns : List ℕ) (s : Store) : List (Command Key Value) :=
  queue.uniqueCommands (some name) now (uniqueNoDeps jds) ++
    (queue.restCommands (some name) now jds ns (queue.uniqueStore name now jds s) ++
      [memberCommand name (jds.map EnqueueData.id)])

/-- The store after the call. -/
def groupStore (queue : Queue) (name : String) (now : Time) (jds : List EnqueueData)
    (ns : List ℕ) (s : Store) : Store :=
  (Command.seq (queue.groupCommands name now jds ns s)).run s

lemma groupStore_eq : queue.groupStore name now jds ns s =
    (memberCommand name (jds.map EnqueueData.id)).run
      ((Command.seq (queue.restCommands (some name) now jds ns
        (queue.uniqueStore name now jds s))).run (queue.uniqueStore name now jds s)) := by
  rw [groupStore, groupCommands, Command.seq_append_run, Command.seq_append_run]
  rfl

lemma keeps_memberCommand {k : Key} (hk : k ≠ .group name) (ids : List JobId) :
    (memberCommand name ids).Keeps k := Command.keeps_alter hk

lemma batchCommand_group (hlength : ns.length = (withDeps jds).length)
    (hc : c ∈ queue.groupCommands name now jds ns s) : BatchCommand queue name now jds c := by
  rcases List.mem_append.mp hc with hc | hc
  · exact batchCommand_uniques (fun jd hjd => (mem_uniqueNoDeps hjd).1) hc
  · rcases List.mem_append.mp hc with hc | hc
    · exact batchCommand_rest hlength hc
    · obtain rfl := List.mem_singleton.mp hc
      exact .other _ fun _ => keeps_memberCommand (by simp) _

/-- Other jobs are left alone. -/
lemma hash_groupStore (hlength : ns.length = (withDeps jds).length)
    (hid : id ∉ jds.map EnqueueData.id) :
    (queue.groupStore name now jds ns s).val (.job id) = s.val (.job id) :=
  Command.keeps_seq (fun _ hc => (batchCommand_group hlength hc).keeps hid) s

lemma mem_group_groupStore {jd : EnqueueData} (hjd : jd ∈ jds) :
    jd.id ∈ (queue.groupStore name now jds ns s).val (.group name) := by
  have hfold : ∀ (ids : List JobId) (g : RSet JobId), jd.id ∈ ids ∨ jd.id ∈ g →
      jd.id ∈ ids.foldl RSet.insert g := fun ids => by
    induction ids with
    | nil => simp
    | cons id ids ih =>
      intro g h
      refine ih _ ?_
      rw [RSet.mem_insert]
      rcases h with h | h
      · exact (List.mem_cons.mp h).symm.imp_right .inr
      · exact .inr (.inl h)
  rw [groupStore_eq, memberCommand, Command.val_alter, Function.update_self]
  exact hfold _ _ (.inl (List.mem_map_of_mem hjd))

/-- What is written for a job of the batch, and only that. -/
lemma entered_of_hset {mapping : JobHash} {cs : List (Command Key Value)}
    (hcs : ∀ c ∈ cs, BatchCommand queue name now jds c) (hmapping : mapping.Entered name)
    (hmem : hset id mapping ∈ cs) (s : Store) :
    (((Command.seq cs).run s).val (.job id)).Entered name :=
  Command.seq_establishes (P := fun s => (s.val (.job id)).Entered name)
    (fun c hc _ hs => (hcs c hc).entered hs) hmem
    (fun s => by
      rw [val_hset, Function.update_self]
      exact entered_update hmapping) s

lemma entered_uniqueCommands {uds : List (ℕ × EnqueueData)} {jd : ℕ × EnqueueData}
    (hjd : jd ∈ uds) (s : Store) :
    (((Command.seq (queue.uniqueCommands (some name) now uds)).run s).val (.job jd.2.id)).Entered
      name := by
  refine @entered_of_hset queue name now (uds.map Prod.snd) _ ((queue._prepareForQueue
    (queue.newJob jd.2 .queued (some name)) now).toDict true) _
    (fun c hc => batchCommand_uniques (fun jd hjd => List.mem_map_of_mem hjd) hc)
    ⟨rfl, rfl, .inl rfl⟩ (List.mem_flatMap.mpr ⟨jd, hjd, ?_⟩) s
  simp [Attempt.commands, saveCommands, attemptOf, _prepareForQueue, newJob, EnqueueData.id]

/-- If nothing in the pipeline is lost, every job is saved. -/
lemma entered_of_subset {cs : List (Command Key Value)}
    (hcs : ∀ c ∈ cs, BatchCommand queue name now jds c)
    (hsubset : ∀ c, c ∈ queue.pendingCommands (some name) now jds ∨
      c ∈ queue.deferredCommands (some name) (withDeps jds) → c ∈ cs)
    {jd : EnqueueData} (hjd : jd ∈ jds) (s : Store) :
    (((Command.seq cs).run (queue.uniqueStore name now jds s)).val (.job jd.id)).Entered name := by
  obtain ⟨i, hi⟩ := exists_mem_indexed hjd
  rcases mem_passes hi with hi | hi | hi
  · exact Command.seq_preserves (P := fun s => (s.val (.job jd.id)).Entered name)
      (fun c hc s hs => (hcs c hc).entered hs) (entered_uniqueCommands hi s)
  · refine @entered_of_hset queue name now jds _ ((queue._prepareForQueue
      (queue.newJob jd .queued (some name)) now).toDict true) cs hcs ⟨rfl, rfl, .inl rfl⟩
      (hsubset _ (.inl (List.mem_append_right _ (List.mem_flatMap.mpr ⟨_, hi, ?_⟩)))) _
    simp [enqueueCommands, persistCommands, _prepareForQueue, newJob, EnqueueData.id]
  · exact @entered_of_hset queue name now jds _
      ((queue.newJob jd .deferred (some name)).toDict true) cs hcs ⟨rfl, rfl, .inr rfl⟩
      (hsubset _ (.inr (List.mem_map.mpr ⟨_, hi, rfl⟩))) _

lemma entered_groupStore (hkept : Kept jds ns) (hlength : ns.length = (withDeps jds).length)
    {jd : EnqueueData} (hjd : jd ∈ jds) :
    ((queue.groupStore name now jds ns s).val (.job jd.id)).Entered name := by
  rw [groupStore_eq, keeps_memberCommand (by simp)]
  exact entered_of_subset (fun _ hc => batchCommand_rest hlength hc)
    (fun _ hc => subset_restCommands hkept hlength hc) hjd s

/-! ## The pushes -/

/-- The ids that have been pushed, in order. -/
def pushedIds (s : Store) : List JobId := (s.val .log).map Push.id

/-- How often the id has been pushed. -/
def pushes (id : JobId) (s : Store) : ℕ := (pushedIds s).count id

lemma pushedIds_of_keeps {cs : List (Command Key Value)} (h : ∀ c ∈ cs, c.Keeps .log) (s : Store) :
    pushedIds ((Command.seq cs).run s) = pushedIds s := by
  rw [pushedIds, Command.keeps_seq h]
  rfl

lemma pushedIds_uniqueCommands (uds : List (ℕ × EnqueueData)) (s : Store) :
    pushedIds ((Command.seq (queue.uniqueCommands (some name) now uds)).run s) =
      pushedIds s ++ uds.map fun jd => jd.2.id := by
  induction uds generalizing s with
  | nil => simp [uniqueCommands]
  | cons jd uds ih =>
    rw [uniqueCommands_cons, Command.seq_append_run, ih, Attempt.commands, Command.seq_append_run]
    simp [pushedIds, attemptOf, Place.commands, _prepareForQueue, newJob, EnqueueData.id]

lemma pushedIds_normalCommands (nds : List (ℕ × EnqueueData)) (s : Store) :
    pushedIds ((Command.seq (queue.normalCommands (some name) now nds)).run s) =
      pushedIds s ++ nds.map fun jd => jd.2.id := by
  induction nds generalizing s with
  | nil => simp [normalCommands]
  | cons jd nds ih =>
    unfold normalCommands at ih ⊢
    rw [List.flatMap_cons, Command.seq_append_run, ih, pushedIds, log_enqueueCommands]
    simp [pushedIds, newJob, EnqueueData.id]

lemma pushedIds_stack (s : Store) :
    pushedIds ((Command.seq (queue.pendingCommands (some name) now jds ++
        queue.deferredCommands (some name) (withDeps jds))).run s) =
      pushedIds s ++ (normalNoDeps jds).map fun jd => jd.2.id := by
  rw [Command.seq_append_run, pushedIds_of_keeps, pendingCommands, Command.seq_append_run,
    pushedIds_normalCommands, pushedIds_of_keeps]
  · intro c hc
    obtain rfl : c = .alter .queues fun q => q.insert queue.key := by simpa [registering] using hc
    exact Command.keeps_alter (by simp)
  · intro c hc
    obtain ⟨jd, -, rfl⟩ := List.mem_map.mp hc
    exact Command.keeps_write (by simp)

lemma keeps_log_registerCommands {job : Job} (hc : c ∈ job.registerCommands now) : c.Keeps .log := by
  rcases Job.mem_registerCommands hc with rfl | ⟨id', -, rfl | rfl⟩ <;>
    exact Command.keeps_alter (by simp)

/-- The check of a job loses what has been in the pipeline if there is a conflict. -/
lemma pushedIds_checkAll {ds : List (ℕ × Job)} {stack : List (Command Key Value)} {d : ℕ × Job}
    {n : ℕ} {ids : List JobId}
    (hstack : ∀ s, pushedIds ((Command.seq stack).run s) = pushedIds s ++ ids) (s : Store) :
    pushedIds ((Command.seq (checkAll now (d :: ds) (n :: ns) stack)).run s) =
      pushedIds s ++ if n = 0 then ids else [] := by
  have hregister : ∀ s, pushedIds ((Command.seq
      (List.replicate (n + 1) (d.2.registerCommands now)).flatten).run s) = pushedIds s :=
    pushedIds_of_keeps fun c hc => by
      obtain ⟨cs, hcs, hc⟩ := List.mem_flatten.mp hc
      obtain rfl := List.eq_of_mem_replicate hcs
      exact keeps_log_registerCommands hc
  rw [checkAll, Command.seq_append_run, pushedIds_of_keeps, Job.checkCommands,
    Command.seq_append_run]
  · split
    · rw [hstack, hregister]
    · rw [Command.seq_nil_run, hregister, List.append_nil]
  · intro c hc
    rcases mem_checkAll hc with ⟨d, -, hc⟩ | ⟨-, hc⟩
    · exact keeps_log_registerCommands hc
    · cases hc

instance (jds : List EnqueueData) (ns : List ℕ) : Decidable (Kept jds ns) :=
  inferInstanceAs (Decidable (_ ∨ _))

lemma pushedIds_restCommands (hlength : ns.length = (withDeps jds).length) (t : Store) :
    pushedIds ((Command.seq (queue.restCommands (some name) now jds ns s)).run t) =
      pushedIds t ++ ((if Kept jds ns then (normalNoDeps jds).map fun jd => jd.2.id else []) ++
        (queue.metJobs name now jds ns s).map fun d => d.2.id) := by
  have hmet : ∀ t, pushedIds ((Command.seq (queue.metCommands now
      (queue.metJobs name now jds ns s) [])).run t) =
        pushedIds t ++ (queue.metJobs name now jds ns s).map fun d => d.2.id := fun t => by
    rw [pushedIds, log_metCommands (consistent_metJobs hlength)]
    simp [pushedIds]
  have hstack := fun t => @pushedIds_stack queue name now jds t
  unfold restCommands dependentCommands
  by_cases hdeps : withDeps jds = []
  · have hnone : queue.metJobs name now jds ns s = [] := by
      unfold metJobs checked
      rw [hdeps]
      rfl
    have hplain := hstack t
    rw [hdeps] at hplain
    rw [if_pos hdeps, if_pos (.inl hdeps), hnone]
    simpa [deferredCommands] using hplain
  · obtain ⟨jd, rest, hcons⟩ := List.exists_cons_of_ne_nil hdeps
    obtain ⟨n, ns, rfl⟩ : ∃ n ns', ns = n :: ns' := by
      rw [hcons] at hlength
      exact List.exists_cons_of_length_eq_add_one hlength
    have hkept : Kept jds (n :: ns) ↔ n = 0 := by simp [Kept, hdeps]
    have hcheck := fun t => @pushedIds_checkAll now ns (queue.deferredJobs (some name) rest) _
      (jd.1, queue.newJob jd.2 .deferred (some name)) n _ hstack t
    have hjobs : queue.deferredJobs (some name) (withDeps jds) =
        (jd.1, queue.newJob jd.2 .deferred (some name)) ::
          queue.deferredJobs (some name) rest := by
      rw [hcons]
      rfl
    rw [if_neg hdeps, Command.seq_append_run, ← List.append_assoc]
    simp only [hkept]
    rw [← hcheck, ← hjobs]
    exact hmet _

lemma pushedIds_groupStore (hlength : ns.length = (withDeps jds).length) :
    pushedIds (queue.groupStore name now jds ns s) =
      pushedIds s ++ ((uniqueNoDeps jds).map (fun jd => jd.2.id) ++
        ((if Kept jds ns then (normalNoDeps jds).map fun jd => jd.2.id else []) ++
          (queue.metJobs name now jds ns (queue.uniqueStore name now jds s)).map
            fun d => d.2.id)) := by
  have hmember : ∀ t : Store,
      pushedIds ((memberCommand name (jds.map EnqueueData.id)).run t) = pushedIds t := fun t => by
    rw [pushedIds, keeps_memberCommand (by simp)]
    rfl
  rw [groupStore_eq, hmember, pushedIds_restCommands hlength, uniqueStore,
    pushedIds_uniqueCommands, List.append_assoc]

/-- The verdicts on the entries with dependencies. -/
def verdictsOf (queue : Queue) (name : String) (now : Time) (jds : List EnqueueData) (ns : List ℕ)
    (s : Store) : List Verdict :=
  queue.checked (some name) now (withDeps jds) ns (queue.pendingCommands (some name) now jds)
    (queue.uniqueStore name now jds s)

lemma map_job_verdictsOf (hlength : ns.length = (withDeps jds).length) :
    (queue.verdictsOf name now jds ns s).map Verdict.job =
      queue.deferredJobs (some name) (withDeps jds) :=
  map_job_verdicts (by rw [hlength, deferredJobs, List.length_map]) _ _

lemma mem_verdictsOf (hlength : ns.length = (withDeps jds).length) {v : Verdict}
    (hv : v ∈ queue.verdictsOf name now jds ns s) :
    ∃ jd, (v.job.1, jd) ∈ withDeps jds ∧ v.job.2 = queue.newJob jd .deferred (some name) := by
  have hmem := List.mem_map_of_mem (f := Verdict.job) hv
  rw [map_job_verdictsOf hlength] at hmem
  exact mem_deferredJobs.mp hmem

/-- The ids tell the entries apart. -/
lemma eq_of_id (hdistinct : (jds.map EnqueueData.id).Nodup) {jd jd' : ℕ × EnqueueData}
    (h : jd ∈ indexed jds) (h' : jd' ∈ indexed jds) (hid : jd.2.id = jd'.2.id) : jd = jd' := by
  rw [← map_indexed jds EnqueueData.id] at hdistinct
  exact List.inj_on_of_nodup_map hdistinct h h' hid

lemma nodup_ids_verdictsOf (hdistinct : (jds.map EnqueueData.id).Nodup)
    (hlength : ns.length = (withDeps jds).length) :
    ((queue.verdictsOf name now jds ns s).map fun v => v.job.2.id).Nodup := by
  have hmap : (queue.verdictsOf name now jds ns s).map (fun v => v.job.2.id) =
      (withDeps jds).map fun jd => jd.2.id := by
    have hjobs := congrArg (List.map fun d : ℕ × Job => d.2.id)
      (@map_job_verdictsOf queue name now s jds ns hlength)
    rw [List.map_map, deferredJobs, List.map_map] at hjobs
    exact hjobs
  rw [hmap]
  exact nodup_ids_filter hdistinct _

/-- The ids of the entries that one pass takes, counted. -/
lemma count_pass (hdistinct : (jds.map EnqueueData.id).Nodup) {jd : ℕ × EnqueueData}
    (hjd : jd ∈ indexed jds) (p : ℕ × EnqueueData → Bool) :
    (((indexed jds).filter p).map fun jd => jd.2.id).count jd.2.id = if p jd then 1 else 0 := by
  split
  · next hp =>
    exact List.count_eq_one_of_mem (nodup_ids_filter hdistinct p)
      (List.mem_map.mpr ⟨jd, List.mem_filter.mpr ⟨hjd, hp⟩, rfl⟩)
  · next hp =>
    refine List.count_eq_zero.mpr fun hmem => hp ?_
    obtain ⟨jd', hjd', hid⟩ := List.mem_map.mp hmem
    obtain ⟨hindexed, hp'⟩ := List.mem_filter.mp hjd'
    rwa [eq_of_id hdistinct hjd hindexed hid.symm]

/-- An entry without dependencies is pushed, unless it is in the pipeline when that is lost. -/
lemma pushes_noDeps (hdistinct : (jds.map EnqueueData.id).Nodup)
    (hlength : ns.length = (withDeps jds).length) (hkept : Kept jds ns) {jd : ℕ × EnqueueData}
    (hjd : jd ∈ indexed jds) (hdeps : jd.2.dependsOn = none) :
    pushes jd.2.id (queue.groupStore name now jds ns s) = pushes jd.2.id s + 1 := by
  have hmet : ((queue.metJobs name now jds ns (queue.uniqueStore name now jds s)).map
      fun d => d.2.id).count jd.2.id = 0 := List.count_eq_zero.mpr fun hmem => by
    obtain ⟨d, hd, hid⟩ := List.mem_map.mp hmem
    obtain ⟨jd', hjd', hjob⟩ := mem_metJobs hlength hd
    rw [hjob] at hid
    have hsome := (mem_of_withDeps hjd').2
    rw [← eq_of_id hdistinct hjd (List.mem_filter.mp hjd').1 hid.symm, hdeps] at hsome
    cases hsome
  rw [pushes, pushedIds_groupStore hlength, if_pos hkept, List.count_append, List.count_append,
    List.count_append, hmet, uniqueNoDeps, normalNoDeps, count_pass hdistinct hjd,
    count_pass hdistinct hjd, hdeps, pushes]
  cases jd.2.unique <;> simp

/-- An entry with dependencies that are found to be met is pushed once for each iteration. -/
lemma pushes_withDeps (hdistinct : (jds.map EnqueueData.id).Nodup)
    (hlength : ns.length = (withDeps jds).length) {v : Verdict}
    (hv : v ∈ queue.verdictsOf name now jds ns s) :
    pushes v.job.2.id (queue.groupStore name now jds ns s) =
      pushes v.job.2.id s + if v.met = true then v.conflicts + 1 else 0 := by
  obtain ⟨jd, hjd, hjob⟩ := mem_verdictsOf hlength hv
  have hid : v.job.2.id = jd.id := by rw [hjob]; rfl
  have hsome : jd.dependsOn ≠ none := Option.isSome_iff_ne_none.mp (mem_of_withDeps hjd).2
  have hindexed := (List.mem_filter.mp hjd).1
  have hcount := count_copies (@nodup_ids_verdictsOf queue name now s jds ns hdistinct hlength) hv
    true
  have hnormals : (if Kept jds ns then (normalNoDeps jds).map fun jd => jd.2.id else []).count
      jd.id = 0 := by
    split
    · rw [normalNoDeps, count_pass hdistinct hindexed]
      simp [hsome]
    · simp
  rw [← hcount, pushes, pushedIds_groupStore hlength, List.count_append, List.count_append,
    List.count_append, hid, hnormals, uniqueNoDeps, count_pass hdistinct hindexed, pushes]
  simp [hsome]
  rfl

/-! ## The registry of deferred jobs -/

lemma mem_metJobs_iff {d : ℕ × Job} :
    d ∈ queue.metJobs name now jds ns (queue.uniqueStore name now jds s) ↔
      ∃ v ∈ queue.verdictsOf name now jds ns s, v.met = true ∧ v.job = d := mem_copies

/-- A job has one verdict. -/
lemma ne_id_of_metJobs (hdistinct : (jds.map EnqueueData.id).Nodup)
    (hlength : ns.length = (withDeps jds).length) {v : Verdict}
    (hv : v ∈ queue.verdictsOf name now jds ns s) (hmet : v.met = false) {d : ℕ × Job}
    (hd : d ∈ queue.metJobs name now jds ns (queue.uniqueStore name now jds s)) :
    d.2.id ≠ v.job.2.id := by
  obtain ⟨w, hw, hmet', rfl⟩ := mem_metJobs_iff.mp hd
  intro hid
  have heq := List.inj_on_of_nodup_map
    (@nodup_ids_verdictsOf queue name now s jds ns hdistinct hlength) hw hv hid
  rw [heq, hmet] at hmet'
  cases hmet'

lemma EnqueueCommand.mem_deferred {job : Job} (h : EnqueueCommand queue job now c)
    (hne : job.id ≠ id) (s : Store) :
    id ∈ (c.run s).val (.registry .deferred queue.name) ↔
      id ∈ s.val (.registry .deferred queue.name) := by
  cases h <;> simp [hne.symm]

lemma EnqueueCommand.notMem_deferred {job : Job} (h : EnqueueCommand queue job now c) {s : Store}
    (hs : id ∉ s.val (.registry .deferred queue.name)) :
    id ∉ (c.run s).val (.registry .deferred queue.name) := by
  cases h <;> simp [hs]

lemma withDeps_ne_nil (hlength : ns.length = (withDeps jds).length) {v : Verdict}
    (hv : v ∈ queue.verdictsOf name now jds ns s) : withDeps jds ≠ [] := by
  obtain ⟨jd, hjd, -⟩ := mem_verdictsOf hlength hv
  exact List.ne_nil_of_mem hjd

/-- An entry is left in the registry exactly if its dependencies are not found to be met. -/
lemma mem_deferred_groupStore (hdistinct : (jds.map EnqueueData.id).Nodup)
    (hlength : ns.length = (withDeps jds).length) {v : Verdict}
    (hv : v ∈ queue.verdictsOf name now jds ns s) :
    v.job.2.id ∈ (queue.groupStore name now jds ns s).val (.registry .deferred queue.name) ↔
      v.met = false := by
  obtain ⟨jd, hjd, hjob⟩ := mem_verdictsOf hlength hv
  have hnil := withDeps_ne_nil hlength hv
  have hconsistent := @consistent_metJobs queue name now (queue.uniqueStore name now jds s) jds ns
    hlength
  have hds : v.job ∈ queue.deferredJobs (some name) (withDeps jds) :=
    mem_deferredJobs.mpr ⟨jd, hjd, hjob⟩
  rw [groupStore_eq, keeps_memberCommand (by simp)]
  constructor
  · intro hmem
    by_contra hmet
    have hd := mem_metJobs_iff.mpr ⟨v, hv, Bool.eq_true_of_not_eq_false hmet, rfl⟩
    have hstatus : v.job.2.status = .deferred := by rw [hjob]; rfl
    refine Command.seq_establishes
      (P := fun s : Store => v.job.2.id ∉ s.val (.registry .deferred queue.name))
      (fun c hc s hs => ?_) (zrem_mem_metCommands hconsistent hd rfl hstatus) (fun s => by simp)
      ((Command.seq (checkAll now (queue.deferredJobs (some name) (withDeps jds)) ns
        (queue.pendingCommands (some name) now jds ++
          queue.deferredCommands (some name) (withDeps jds)))).run
            (queue.uniqueStore name now jds s)) ?_
    · obtain ⟨d, -, hc⟩ := mem_metCommands hconsistent hc
      exact EnqueueCommand.notMem_deferred hc hs
    · rw [restCommands, dependentCommands, if_neg hnil, Command.seq_append_run] at hmem
      exact hmem
  · intro hmet
    refine Command.seq_establishes
      (P := fun s : Store => v.job.2.id ∈ s.val (.registry .deferred queue.name))
      (fun c hc t ht => ?_)
      (c := zadd .deferred v.job.2.origin v.job.2.id (now : ℤ)) ?_ (fun s => ?_) _
    · rcases mem_restCommands hlength hc with ⟨jd', -, hc⟩ | ⟨-, hc | hc⟩ | ⟨d, hd, hc⟩
      · rcases Job.mem_registerCommands hc with rfl | ⟨id', -, rfl | rfl⟩
        · by_cases hname : (queue.newJob jd'.2 .deferred (some name)).origin = queue.name
          · rw [hname]
            simp [ht]
          · exact absurd rfl hname
        · simpa using ht
        · simpa using ht
      · rcases List.mem_append.mp hc with hc | hc
        · obtain rfl : c = .alter .queues fun q => q.insert queue.key := by
            simpa [registering] using hc
          simpa using ht
        · obtain ⟨jd', hjd', hc⟩ := List.mem_flatMap.mp hc
          refine (EnqueueCommand.mem_deferred (enqueueCommand_of_mem hc) ?_ t).mpr ht
          rw [hjob]
          intro hid
          have heq := eq_of_id hdistinct (List.mem_filter.mp hjd').1 (List.mem_filter.mp hjd).1 hid
          have hnone := (mem_of_normalNoDeps hjd').2.2
          have hsome := (mem_of_withDeps hjd).2
          rw [heq] at hnone
          rw [hnone] at hsome
          cases hsome
      · obtain ⟨jd', -, rfl⟩ := List.mem_map.mp hc
        simpa using ht
      · exact (EnqueueCommand.mem_deferred hc
          (ne_id_of_metJobs hdistinct hlength hv hmet hd) t).mpr ht
    · rw [restCommands, dependentCommands, if_neg hnil]
      exact List.mem_append_left _ (registerCommands_subset_checkAll
        (by rw [hlength, deferredJobs, List.length_map]) hds List.mem_cons_self)
    · have hname : v.job.2.origin = queue.name := by rw [hjob]; rfl
      rw [hname]
      simp

/-! ## The verdicts -/

lemma EnqueueCommand.keeps_job {job : Job} (h : EnqueueCommand queue job now c) (hne : job.id ≠ id) :
    c.Keeps (.job id) := by
  intro s
  cases h <;> simp [hne.symm]

/-- A job that is not found to have its dependencies met is lost with the pipeline. -/
lemma hash_lost (hfresh : FreshBatch name jds s) (hlength : ns.length = (withDeps jds).length)
    (hkept : ¬Kept jds ns) {v : Verdict} (hv : v ∈ queue.verdictsOf name now jds ns s)
    (hmet : v.met = false) :
    (queue.groupStore name now jds ns s).val (.job v.job.2.id) = default := by
  obtain ⟨jd, hjd, hjob⟩ := mem_verdictsOf hlength hv
  have hid : v.job.2.id = jd.id := by rw [hjob]; rfl
  have hunique : v.job.2.id ∉ ((uniqueNoDeps jds).map Prod.snd).map EnqueueData.id := fun hmem => by
    obtain ⟨x, hx, heq⟩ := List.mem_map.mp hmem
    obtain ⟨jd', hjd', rfl⟩ := List.mem_map.mp hx
    have hsame := eq_of_id hfresh.distinct (List.mem_filter.mp hjd').1 (List.mem_filter.mp hjd).1
      (heq.trans hid)
    have hsome := (mem_of_withDeps hjd).2
    rw [← hsame, (mem_uniqueNoDeps hjd').2.2] at hsome
    cases hsome
  have hrest : (Command.seq (queue.restCommands (some name) now jds ns
      (queue.uniqueStore name now jds s))).Keeps (.job v.job.2.id) :=
    Command.keeps_seq fun c hc => by
      rcases mem_restCommands hlength hc with ⟨jd', -, hc⟩ | ⟨hkept', -⟩ | ⟨d, hd, hc⟩
      · rcases Job.mem_registerCommands hc with rfl | ⟨id', -, rfl | rfl⟩ <;>
          exact Command.keeps_alter (by simp)
      · exact absurd hkept' hkept
      · exact EnqueueCommand.keeps_job hc (ne_id_of_metJobs hfresh.distinct hlength hv hmet hd)
  rw [groupStore_eq, keeps_memberCommand (by simp), hrest, uniqueStore,
    Command.keeps_seq fun c hc => (@batchCommand_uniques queue name now _ c (uniqueNoDeps jds)
      (fun jd hjd => List.mem_map_of_mem hjd) hc).keeps hunique, hid]
  exact hfresh.hash jd (mem_of_withDeps hjd).1

/-- The first check reads the statuses before the pipeline is executed. -/
lemma met_head_iff (jd : EnqueueData) :
    (queue.newJob jd .deferred (some name)).allowedIn (queue.uniqueStore name now jds s) = true ↔
      ¬jd.WaitsFor s ((uniqueNoDeps jds).map fun jd => jd.2.id) := by
  rw [EnqueueData.allowedIn_newJob]
  refine jd.metIn_iff (fun id hid => ?_) fun id hid => ?_
  · obtain ⟨jd', hjd', rfl⟩ := List.mem_map.mp hid
    exact (entered_uniqueCommands hjd' s).status
  · refine Command.keeps_seq (fun c hc => (@batchCommand_uniques queue name now
      ((uniqueNoDeps jds).map Prod.snd) c (uniqueNoDeps jds)
      (fun jd hjd => List.mem_map_of_mem hjd) hc).keeps ?_) s
    rwa [List.map_map]

/-- Once the pipeline has been executed all jobs of the batch are waited for. -/
lemma met_rest_iff (jd : EnqueueData) {t : Store}
    (hin : ∀ jd ∈ jds, (t.val (.job jd.id)).Entered name)
    (hout : ∀ id ∉ jds.map EnqueueData.id, t.val (.job id) = s.val (.job id)) :
    jd.MetIn t ↔ ¬jd.WaitsFor s (jds.map EnqueueData.id) :=
  jd.metIn_iff (fun id hid => by
    obtain ⟨jd', hjd', rfl⟩ := List.mem_map.mp hid
    exact (hin jd' hjd').status) hout

lemma metIn_groupStore_iff (jd : EnqueueData) (hkept : Kept jds ns)
    (hlength : ns.length = (withDeps jds).length) :
    jd.MetIn (queue.groupStore name now jds ns s) ↔ ¬jd.WaitsFor s (jds.map EnqueueData.id) :=
  met_rest_iff jd (fun _ hjd => entered_groupStore hkept hlength hjd)
    fun _ hid => hash_groupStore hlength hid

/-- The verdicts when the first check meets no conflict. -/
lemma verdictsOf_cons {jd : ℕ × EnqueueData} {rest : List (ℕ × EnqueueData)}
    (hdeps : withDeps jds = jd :: rest) :
    ∃ v, v.job = (jd.1, queue.newJob jd.2 .deferred (some name)) ∧ v.conflicts = 0 ∧
      (v.met = true ↔ ¬jd.2.WaitsFor s ((uniqueNoDeps jds).map fun jd => jd.2.id)) ∧
      ∃ met : ℕ × EnqueueData → Bool,
        (∀ jd, met jd = true ↔ ¬jd.2.WaitsFor s (jds.map EnqueueData.id)) ∧
        queue.verdictsOf name now jds (0 :: ns) s = v :: (rest.zip ns).map fun p =>
          ⟨(p.1.1, queue.newJob p.1.2 .deferred (some name)), p.2, met p.1⟩ := by
  generalize hjob : queue.newJob jd.2 .deferred (some name) = job
  generalize hcs : job.checkCommands now 0 (queue.pendingCommands (some name) now jds ++
    queue.deferredCommands (some name) (withDeps jds)) = cs
  have hbatch : ∀ c ∈ cs, BatchCommand queue name now jds c := fun c hc => by
    rw [← hcs] at hc
    rcases mem_checkCommands hc with hc | ⟨-, hc⟩
    · refine .other _ fun id => ?_
      rcases Job.mem_registerCommands hc with rfl | ⟨id', -, rfl | rfl⟩ <;>
        exact Command.keeps_alter (by simp)
    · rcases List.mem_append.mp hc with hc | hc
      · exact batchCommand_pending hc
      · exact batchCommand_deferred (fun jd hjd => (mem_of_withDeps hjd).1) hc
  have hsubset : ∀ c, c ∈ queue.pendingCommands (some name) now jds ∨
      c ∈ queue.deferredCommands (some name) (withDeps jds) → c ∈ cs := fun c hc => by
    rw [← hcs, Job.checkCommands, if_pos rfl]
    exact List.mem_append_right _ (List.mem_append.mpr hc)
  refine ⟨⟨(jd.1, job), 0, job.allowedIn (queue.uniqueStore name now jds s)⟩, rfl, rfl, ?_,
    fun jd => (queue.newJob jd.2 .deferred (some name)).allowedIn
      ((Command.seq cs).run (queue.uniqueStore name now jds s)), fun jd' => ?_, ?_⟩
  · rw [← hjob]
    exact met_head_iff jd.2
  · rw [EnqueueData.allowedIn_newJob]
    refine met_rest_iff jd'.2 (fun _ hjd => entered_of_subset hbatch hsubset hjd s) fun id hid => ?_
    rw [Command.keeps_seq (fun c hc => (hbatch c hc).keeps hid), uniqueStore,
      Command.keeps_seq (fun c hc => (batchCommand_uniques
        (fun jd hjd => (mem_uniqueNoDeps hjd).1) hc : BatchCommand queue name now jds c).keeps hid)]
  · have hds : queue.deferredJobs (some name) (withDeps jds) =
        (jd.1, job) :: queue.deferredJobs (some name) rest := by
      rw [hdeps, ← hjob]
      rfl
    rw [verdictsOf, checked, hds, verdicts, hcs, verdicts_nil, deferredJobs, List.zip_map_left,
      List.map_map]
    rfl

lemma exists_verdict_head {n : ℕ} {jd : ℕ × EnqueueData} {rest : List (ℕ × EnqueueData)}
    (hdeps : withDeps jds = jd :: rest) : ∃ v ∈ queue.verdictsOf name now jds (n :: ns) s,
      v.job = (jd.1, queue.newJob jd.2 .deferred (some name)) ∧ v.conflicts = n := by
  unfold verdictsOf checked
  rw [hdeps]
  exact ⟨_, List.mem_cons_self, rfl, rfl⟩

/-! ## Delivery -/

/-- What the call is to leave of an entry. -/
structure Delivered (name : String) (queue : Queue) (s s' : Store) (jd : EnqueueData) : Prop where
  saved : (s'.val (.job jd.id)).data.isSome
  tagged : (s'.val (.job jd.id)).groupId = some (some name)
  member : jd.id ∈ s'.val (.group name)
  pushed : jd.MetIn s' → pushes jd.id s' = pushes jd.id s + 1
  deferred : ¬jd.MetIn s' → jd.id ∈ s'.val (.registry .deferred queue.name)

/-- A hash that is tagged with the group, whose id is not in the set of the group. -/
def Orphan (name : String) (id : JobId) (s : Store) : Prop :=
  (s.val (.job id)).groupId = some (some name) ∧ id ∉ s.val (.group name)

/-- A call that returns has delivered every entry, and one that raises makes no orphan. -/
def Delivers (name : String) (queue : Queue) (jds : List EnqueueData) (s : Store) :
    Except PyError (List Job) × Store × List Bool → Prop
  | (.ok jobs, s', _) =>
    jobs.map Job.id = jds.map EnqueueData.id ∧ ∀ jd ∈ jds, Delivered name queue s s' jd
  | (.error _, s', _) => ∀ id, Orphan name id s' → Orphan name id s

/-- The conflicts at the entries with dependencies do no harm: there is none at the first one, which
waits for nothing that is still in the pipeline, and any number at the others that have to wait. -/
def ConflictsHarmless (jds : List EnqueueData) (s : Store) :
    List ((ℕ × EnqueueData) × ℕ) → Prop
  | [] => True
  | (jd, n) :: rest =>
    n = 0 ∧
    (jd.2.WaitsFor s (jds.map EnqueueData.id) →
      jd.2.WaitsFor s ((uniqueNoDeps jds).map fun jd => jd.2.id)) ∧
    ∀ p ∈ rest, 0 < p.2 → p.1.2.WaitsFor s (jds.map EnqueueData.id)

lemma delivered_noDeps (hfresh : FreshBatch name jds s)
    (hlength : ns.length = (withDeps jds).length) (hkept : Kept jds ns) {jd : ℕ × EnqueueData}
    (hjd : jd ∈ indexed jds) (hdeps : jd.2.dependsOn = none) :
    Delivered name queue s (queue.groupStore name now jds ns s) jd.2 := by
  have hmem := mem_of_indexed hjd
  have hentered := @entered_groupStore queue name now s jds ns hkept hlength jd.2 hmem
  exact {
    saved := hentered.data
    tagged := hentered.groupId
    member := mem_group_groupStore hmem
    pushed := fun _ => pushes_noDeps hfresh.distinct hlength hkept hjd hdeps
    deferred := fun hmet => absurd (EnqueueData.metIn_of_noDeps hdeps _) hmet }

/-- An entry with dependencies is delivered if the verdict is right, and reached once. -/
lemma delivered_withDeps (hfresh : FreshBatch name jds s)
    (hlength : ns.length = (withDeps jds).length) (hkept : Kept jds ns) {jd : ℕ × EnqueueData}
    (hjd : jd ∈ withDeps jds) {v : Verdict} (hv : v ∈ queue.verdictsOf name now jds ns s)
    (hjob : v.job = (jd.1, queue.newJob jd.2 .deferred (some name))) :
    Delivered name queue s (queue.groupStore name now jds ns s) jd.2 ↔
      (v.met = true ↔ ¬jd.2.WaitsFor s (jds.map EnqueueData.id)) ∧
        (v.met = true → v.conflicts = 0) := by
  have hmem := (mem_of_withDeps hjd).1
  have hid : v.job.2.id = jd.2.id := by rw [hjob]; rfl
  have hentered := @entered_groupStore queue name now s jds ns hkept hlength jd.2 hmem
  have hmet := @metIn_groupStore_iff queue name now s jds ns jd.2 hkept hlength
  have hpushes := pushes_withDeps hfresh.distinct hlength hv
  have hdeferred := mem_deferred_groupStore hfresh.distinct hlength hv
  rw [hid] at hpushes hdeferred
  rw [← hmet]
  constructor
  · rintro ⟨-, -, -, hpushed, hunmet⟩
    cases hverdict : v.met with
    | false =>
      rw [hverdict] at hpushes
      refine ⟨⟨nofun, fun h => ?_⟩, nofun⟩
      have hone := hpushed h
      rw [hpushes] at hone
      simp at hone
    | true =>
      rw [hverdict] at hpushes hdeferred
      have hallowed : jd.2.MetIn (queue.groupStore name now jds ns s) := by
        by_contra hnot
        simpa using hdeferred.mp (hunmet hnot)
      have hone := hpushed hallowed
      rw [hpushes, if_pos rfl] at hone
      exact ⟨⟨fun _ => hallowed, fun _ => rfl⟩, fun _ => by omega⟩
  · rintro ⟨hright, honce⟩
    refine ⟨hentered.data, hentered.groupId, mem_group_groupStore hmem, fun h => ?_, fun h => ?_⟩
    · have hverdict := hright.mpr h
      rw [hpushes, if_pos hverdict, honce hverdict]
    · exact hdeferred.mpr (Bool.eq_false_of_not_eq_true fun hverdict => h (hright.mp hverdict))

/-- The first entry with dependencies: its verdict does not know of the jobs in the pipeline. -/
lemma delivered_head (hfresh : FreshBatch name jds s)
    (hlength : (0 :: ns).length = (withDeps jds).length) {jd : ℕ × EnqueueData}
    {rest : List (ℕ × EnqueueData)} (hdeps : withDeps jds = jd :: rest) :
    Delivered name queue s (queue.groupStore name now jds (0 :: ns) s) jd.2 ↔
      (jd.2.WaitsFor s (jds.map EnqueueData.id) →
        jd.2.WaitsFor s ((uniqueNoDeps jds).map fun jd => jd.2.id)) := by
  obtain ⟨v, hjob, hconflicts, hmet, met, -, hverdicts⟩ :=
    @verdictsOf_cons queue name now s jds ns jd rest hdeps
  have hmono : jd.2.WaitsFor s ((uniqueNoDeps jds).map fun jd => jd.2.id) →
      jd.2.WaitsFor s (jds.map EnqueueData.id) := by
    rintro ⟨id, hid, hwaits⟩
    refine ⟨id, hid, hwaits.imp_left fun hmem => ?_⟩
    obtain ⟨jd', hjd', rfl⟩ := List.mem_map.mp hmem
    exact List.mem_map_of_mem (mem_uniqueNoDeps hjd').1
  rw [delivered_withDeps hfresh hlength (.inr rfl) (hdeps ▸ List.mem_cons_self)
    (hverdicts ▸ List.mem_cons_self) hjob, hmet]
  constructor
  · rintro ⟨hright, -⟩
    exact not_imp_not.mp hright.mp
  · intro hwaits
    exact ⟨not_congr ⟨hmono, hwaits⟩, fun _ => hconflicts⟩

/-- The others: the verdict is right, and reached once for each conflict. -/
lemma delivered_rest (hfresh : FreshBatch name jds s)
    (hlength : (0 :: ns).length = (withDeps jds).length) {jd : ℕ × EnqueueData}
    {rest : List (ℕ × EnqueueData)} (hdeps : withDeps jds = jd :: rest)
    {p : (ℕ × EnqueueData) × ℕ} (hp : p ∈ rest.zip ns) :
    Delivered name queue s (queue.groupStore name now jds (0 :: ns) s) p.1.2 ↔
      (0 < p.2 → p.1.2.WaitsFor s (jds.map EnqueueData.id)) := by
  obtain ⟨v, -, -, -, met, hmets, hverdicts⟩ :=
    @verdictsOf_cons queue name now s jds ns jd rest hdeps
  have hv : (⟨(p.1.1, queue.newJob p.1.2 .deferred (some name)), p.2, met p.1⟩ : Verdict) ∈
      queue.verdictsOf name now jds (0 :: ns) s :=
    hverdicts ▸ List.mem_cons_of_mem _ (List.mem_map.mpr ⟨p, hp, rfl⟩)
  have hmem : p.1 ∈ withDeps jds := hdeps ▸ List.mem_cons_of_mem _ (List.of_mem_zip hp).1
  rw [delivered_withDeps hfresh hlength (.inr rfl) hmem hv rfl]
  dsimp only
  rw [hmets]
  constructor
  · rintro ⟨-, honce⟩ hpos
    by_contra hnot
    exact absurd (honce hnot) (Nat.ne_of_gt hpos)
  · intro hwaits
    exact ⟨Iff.rfl, fun hnot => Nat.eq_zero_of_not_pos fun hpos => hnot (hwaits hpos)⟩

/-- After a conflict at the first entry with dependencies its job has been lost with the pipeline, or
it has been pushed once for each iteration. -/
lemma not_delivered_head (hfresh : FreshBatch name jds s) {n : ℕ} (hn : n ≠ 0)
    (hlength : (n :: ns).length = (withDeps jds).length) {jd : ℕ × EnqueueData}
    {rest : List (ℕ × EnqueueData)} (hdeps : withDeps jds = jd :: rest) :
    ¬Delivered name queue s (queue.groupStore name now jds (n :: ns) s) jd.2 := by
  have hkept : ¬Kept jds (n :: ns) := by simp [Kept, hdeps, hn]
  obtain ⟨v, hv, hjob, hconflicts⟩ := @exists_verdict_head queue name now s jds ns n jd rest hdeps
  have hid : v.job.2.id = jd.2.id := by rw [hjob]; rfl
  rintro ⟨hsaved, -, -, hpushed, hdeferred⟩
  cases hverdict : v.met with
  | false =>
    have hlost := hash_lost hfresh hlength hkept hv hverdict
    rw [hid] at hlost
    rw [hlost] at hsaved
    cases hsaved
  | true =>
    have hpushes := pushes_withDeps hfresh.distinct hlength hv
    have hregistry := mem_deferred_groupStore hfresh.distinct hlength hv
    rw [hid, hverdict] at hpushes hregistry
    rw [if_pos rfl, hconflicts] at hpushes
    have hmet : jd.2.MetIn (queue.groupStore name now jds (n :: ns) s) := by
      by_contra hnot
      simpa using hregistry.mp (hdeferred hnot)
    have hone := hpushed hmet
    omega

/-- A batch without entries that are refused is delivered if the conflicts are harmless. -/
lemma delivered_iff (hfresh : FreshBatch name jds s) (hlength : ns.length = (withDeps jds).length) :
    (∀ jd ∈ jds, Delivered name queue s (queue.groupStore name now jds ns s) jd) ↔
      ConflictsHarmless jds s ((withDeps jds).zip ns) := by
  have hplain : Kept jds ns → ∀ jd ∈ indexed jds, jd ∉ withDeps jds →
      Delivered name queue s (queue.groupStore name now jds ns s) jd.2 := fun hkept jd hjd hnot => by
    refine delivered_noDeps hfresh hlength hkept hjd ?_
    cases hdeps : jd.2.dependsOn with
    | none => rfl
    | some d => exact absurd (List.mem_filter.mpr ⟨hjd, by simp [hdeps]⟩) hnot
  cases hdeps : withDeps jds with
  | nil =>
    refine ⟨fun _ => trivial, fun _ jd hjd => ?_⟩
    obtain ⟨i, hi⟩ := exists_mem_indexed hjd
    exact hplain (.inl hdeps) _ hi (by simp [hdeps])
  | cons jd rest =>
    obtain ⟨n, ns, rfl⟩ : ∃ n ns', ns = n :: ns' := by
      rw [hdeps] at hlength
      exact List.exists_cons_of_length_eq_add_one hlength
    have hjd : jd ∈ withDeps jds := hdeps ▸ List.mem_cons_self
    rw [List.zip_cons_cons, ConflictsHarmless]
    by_cases hn : n = 0
    · subst hn
      have hfirst := @delivered_head queue name now s jds ns hfresh hlength jd rest hdeps
      have hothers := fun p => @delivered_rest queue name now s jds ns hfresh hlength jd rest hdeps p
      constructor
      · intro h
        refine ⟨rfl, hfirst.mp (h _ (mem_of_withDeps hjd).1), fun p hp => ?_⟩
        have hmem : p.1 ∈ withDeps jds := hdeps ▸ List.mem_cons_of_mem _ (List.of_mem_zip hp).1
        exact (hothers p hp).mp (h _ (mem_of_withDeps hmem).1)
      · rintro ⟨-, hwaits, hrest⟩ jd' hjd'
        obtain ⟨i, hi⟩ := exists_mem_indexed hjd'
        by_cases hmem : (i, jd') ∈ withDeps jds
        · rw [hdeps] at hmem
          rcases List.mem_cons.mp hmem with heq | hmem
          · subst heq
            exact hfirst.mpr hwaits
          · have hlength' : ns.length = rest.length := by
              rw [hdeps] at hlength
              exact Nat.succ.inj hlength
            rw [← @List.map_fst_zip _ _ rest ns (by rw [hlength'])] at hmem
            obtain ⟨p, hp, heq⟩ := List.mem_map.mp hmem
            have hdelivered := (hothers p hp).mpr (hrest p hp)
            rw [heq] at hdelivered
            exact hdelivered
        · exact hplain (.inr rfl) _ hi hmem
    · exact iff_of_false (fun h => not_delivered_head hfresh hn hlength hdeps
        (h jd.2 (mem_of_withDeps hjd).1)) fun h => hn h.1

/-- **When the batch of a group is delivered.** -/
theorem delivers_iff (name : String) (queue : Queue) (jds : List EnqueueData) (ns : List ℕ)
    (now : Time) (fuel : ℕ) (s : Store) (hfresh : FreshBatch name jds s)
    (hlength : ns.length = (withDeps jds).length) (hfuel : ∀ n ∈ ns, n < fuel) :
    Delivers name queue jds s
        ((Group.enqueueMany name queue none jds now fuel).runOutcomes (outcomes ns) s) ↔
      RefusedFirst jds ∨
        (∀ jd ∈ jds, jd.Valid) ∧ ConflictsHarmless jds s ((withDeps jds).zip ns) := by
  by_cases hvalid : ∀ jd ∈ jds, jd.Valid
  · have hok : validate jds = .ok () := validate_ok_iff.mpr fun jd hjd hunique =>
      ⟨(hvalid jd hjd).noDeps hunique, (hvalid jd hjd).hasJobId hunique⟩
    have hnot : ¬RefusedFirst jds := fun hrefused => hrefused.elim (fun h => h hok)
      fun h => h.1 fun jd hjd => (hvalid jd hjd).accepted
    obtain ⟨jobs, hids, hrun⟩ := @run_accepted queue name now s fuel jds ns hvalid hfresh hlength
      hfuel
    rw [hrun, or_iff_right hnot, and_iff_right hvalid, ← delivered_iff hfresh hlength]
    exact and_iff_right hids
  · have hrefused : validate jds ≠ .ok () ∨ ¬∀ jd ∈ jds, jd.Accepted := by
      by_contra hnot
      rw [not_or, not_not, not_not] at hnot
      refine hvalid fun jd hjd => ⟨hnot.2 jd hjd, fun hunique => ?_, fun hunique => ?_⟩
      · exact (validate_ok_iff.mp hnot.1 jd hjd hunique).1
      · exact (validate_ok_iff.mp hnot.1 jd hjd hunique).2
    obtain ⟨msg, before, hmem, hnodup, hfirst, hrun⟩ := @run_refused queue name now s fuel
      (outcomes ns) jds hfresh hrefused
    rw [hrun, or_iff_left fun h => hvalid h.1, ← hfirst]
    constructor
    · intro h
      -- a unique entry that has been saved is an orphan
      cases before with
      | nil => rfl
      | cons jd before =>
        have hjd := hmem jd List.mem_cons_self
        have hentered := @entered_uniqueCommands queue name now (jd :: before) jd
          List.mem_cons_self s
        have hgroup := hfresh.group jd.2 (mem_uniqueNoDeps hjd).1
        have horphan := h jd.2.id ⟨hentered.groupId, by
          rwa [keeps_uniqueCommands (by simp) (by simp) (by simp)]⟩
        have hhash := hfresh.hash jd.2 (mem_uniqueNoDeps hjd).1
        rw [Orphan, hhash] at horphan
        cases horphan.1
    · rintro rfl id h
      exact h

/-! ### A conflict at the first entry with dependencies -/

/-- A plain entry and one that depends on a job. -/
def mixedBatch : List EnqueueData :=
  [{ jobId := some "plain" },
    { jobId := some "child", dependsOn := some { dependencies := ["parent"], nonempty := by simp } }]

/-- The job is running. -/
def parentStore : Store :=
  (hset "parent" { data := some "", origin := some "default", status := some .started }).run
    Store.empty

lemma fresh_mixedBatch : FreshBatch "group" mixedBatch parentStore where
  nonempty := by simp [mixedBatch]
  distinct := by decide
  hash := by decide
  dependencies := by decide
  group := by decide

/-- A second entry depends on the job as well. -/
def siblingBatch : List EnqueueData :=
  mixedBatch ++ [{ jobId := some "sibling",
                   dependsOn := some { dependencies := ["parent"], nonempty := by simp } }]

lemma fresh_siblingBatch : FreshBatch "group" siblingBatch parentStore where
  nonempty := by simp [siblingBatch]
  distinct := by decide
  hash := by decide
  dependencies := by decide
  group := by decide

lemma valid_siblingBatch : ∀ jd ∈ siblingBatch, jd.Valid := by
  have hids : ∀ jd ∈ siblingBatch, jd.timeout = none ∧ jd.ttl = none ∧ jd.unique = false ∧
      ∀ id ∈ jd.jobId, jobIdPattern id = true := by decide
  intro jd hjd
  obtain ⟨htimeout, httl, hunique, hid⟩ := hids jd hjd
  exact ⟨⟨by simp [htimeout], by simp [httl], hid⟩, by simp [hunique], by simp [hunique]⟩

/-- Two conflicts at the last entry, whose job has to wait. -/
theorem delivers_iff_laterConflict :
    Delivers "group" { name := "default" } siblingBatch parentStore
      ((Group.enqueueMany "group" { name := "default" } none siblingBatch 0 3).runOutcomes
        (outcomes [0, 2]) parentStore) := by
  refine (delivers_iff "group" { name := "default" } siblingBatch [0, 2] 0 3 parentStore
    fresh_siblingBatch rfl (by decide)).mpr (.inr ⟨valid_siblingBatch, rfl, ?_, ?_⟩)
  · decide
  · decide

/-- After one conflict the call returns, and both jobs are gone. -/
theorem conflict_loses_batch :
    FreshBatch "group" mixedBatch parentStore ∧
    ((Group.enqueueMany "group" { name := "default" } none mixedBatch 0 2).runOutcomes
      (outcomes [1]) parentStore).2.1.val (.job "plain") = default ∧
    ¬Delivers "group" { name := "default" } mixedBatch parentStore
      ((Group.enqueueMany "group" { name := "default" } none mixedBatch 0 2).runOutcomes
        (outcomes [1]) parentStore) := by
  refine ⟨fresh_mixedBatch, by decide, fun h => ?_⟩
  have hsaved := (h.2 { jobId := some "plain" } List.mem_cons_self).saved
  revert hsaved
  decide

end Queue

end RedisQueue
