import RedisQueue.Basic

/-!
# The registry of the groups

`Group.fetch`, `Group.all`, `Group.cleanup` and `Group.clean_registries` (`rq/group.py`), on a
database with the sets of the groups, the set `rq:groups` of their names and the hashes of the jobs.

* `GroupName`: a `Group` object never has an empty name;
* `expiredEntries`: the loop that pairs the results of a pipeline with what it has asked for;
* `Group.cleanRegistries_exact`: what a cleaning leaves, and that a second one changes nothing.
-/

namespace RedisQueue

/-! ## The database -/

/-- The name of a `Group` object, which is what `rq:groups` contains. -/
abbrev GroupName := {name : String // name ≠ ""}

inductive GroupKey where
  /-- `rq:groups` -/
  | groups
  /-- `rq:group:<name>` -/
  | group (name : GroupName)
  /-- `rq:job:<id>` -/
  | job (id : JobId)
deriving DecidableEq

@[reducible] def GroupValue : GroupKey → Type
  | .groups => RSet GroupName
  | .group _ => RSet JobId
  | .job _ => JobHash

instance GroupValue.decidableEq : (k : GroupKey) → DecidableEq (GroupValue k)
  | .groups => inferInstanceAs (DecidableEq (RSet GroupName))
  | .group _ => inferInstanceAs (DecidableEq (RSet JobId))
  | .job _ => inferInstanceAs (DecidableEq JobHash)

instance GroupValue.inhabited : (k : GroupKey) → Inhabited (GroupValue k)
  | .groups => inferInstanceAs (Inhabited (RSet GroupName))
  | .group _ => inferInstanceAs (Inhabited (RSet JobId))
  | .job _ => inferInstanceAs (Inhabited JobHash)

/-- The database. An empty set does not exist, nor does a hash without fields. -/
abbrev GroupStore := KeyStore GroupKey GroupValue

/-- A program that talks to that database. -/
abbrev Grouping (α : Type) := Prog GroupStore PyError α

/-- `EXISTS` -/
def keyExists (s : GroupStore) (k : GroupKey) : Bool := decide (s.val k ≠ default)

/-- `SREM` of a job from a group. -/
def sremJobs (name : GroupName) (ids : List JobId) : Command GroupKey GroupValue :=
  .alter (.group name) fun (jobs : RSet JobId) => jobs.eraseAll ids

/-- `SREM` of a name from `rq:groups`. -/
def sremGroups (names : List GroupName) : Command GroupKey GroupValue :=
  .alter .groups fun (groups : RSet GroupName) => groups.eraseAll names

/-! ## Pairing by position -/

/-- `for i, key_exists in enumerate(results)`: the entries whose keys do not exist. -/
def expiredEntries {α : Type} (entries : List α) : List (Bool × ℕ) → Except PyError (List α)
  | [] => .ok []
  | (true, _) :: results => expiredEntries entries results
  | (false, i) :: results =>
    match entries[i]? with
    | none => .error .indexError
    | some entry => do
      let expired ← expiredEntries entries results
      return entry :: expired

/-- With one result for each entry, the loop finds the right ones. -/
lemma expiredEntries_map {α : Type} (f : α → Bool) (entries : List α) :
    expiredEntries entries (entries.map f).zipIdx = .ok (entries.filter fun a => !f a) := by
  have hsuffix : ∀ done rest : List α,
      expiredEntries (done ++ rest) ((rest.map f).zipIdx done.length) =
        .ok (rest.filter fun a => !f a) := fun done rest => by
    induction rest generalizing done with
    | nil => rfl
    | cons a rest ih =>
      have hrest := ih (done ++ [a])
      rw [List.append_assoc, List.singleton_append, List.length_append] at hrest
      rw [List.map_cons, List.zipIdx_cons]
      cases hf : f a with
      | true => simpa [expiredEntries, hf] using hrest
      | false =>
        have hentry : (done ++ a :: rest)[done.length]? = some a := by simp
        have hloop : expiredEntries (done ++ a :: rest) ((rest.map f).zipIdx (done.length + 1)) =
          .ok (rest.filter fun a => !f a) := hrest
        simp only [expiredEntries, hentry, hloop, Except.ok_bind]
        simp [hf, pure, Except.pure]
  exact hsuffix [] entries

/-! ## The operations -/

namespace Group

/-- `Group.__init__`. `uuid` is the name that is generated for a group without one. -/
def new (name : String) (uuid : GroupName) : GroupName :=
  if h : name = "" then uuid else ⟨name, h⟩

/-- `Group.fetch` -/
def fetch (name : String) (uuid : GroupName) : Grouping GroupName := do
  let group := new name uuid
  let found ← Prog.read fun s => keyExists s (.group group)
  if found then return group else .throw .noSuchGroupError

/-- What `Group.all` makes of one name. -/
def fetchOrRemove (key uuid : GroupName) : Grouping (Option GroupName) :=
  (some <$> fetch key.val uuid).tryCatch fun e =>
    if e = .noSuchGroupError then do
      Prog.perform (sremGroups [key]).run
      return none
    else .throw e

/-- The loop of `Group.all`. -/
def allLoop (uuid : GroupName) : List GroupName → Grouping (List GroupName)
  | [] => return []
  | key :: keys => do
    let group ← fetchOrRemove key uuid
    let groups ← allLoop uuid keys
    return group.toList ++ groups

/-- `Group.all` -/
def all (uuid : GroupName) : Grouping (List GroupName) := do
  let groupKeys ← Prog.read fun s => (s.val .groups).elems
  allLoop uuid groupKeys

/-- `Group.cleanup` -/
def cleanup (self : GroupName) : Grouping Unit := do
  let jobIds ← Prog.read fun s => (s.val (.group self)).elems
  if jobIds = [] then return ()
  else
    let results ← Prog.read fun s => jobIds.map fun id => keyExists s (.job id)
    let expiredJobIds ← Prog.ofExcept (expiredEntries jobIds results.zipIdx)
    if expiredJobIds = [] then return ()
    else Prog.perform (sremJobs self expiredJobIds).run

/-- The loop of `Group.clean_registries` that removes the expired jobs. -/
def cleanupEach : List GroupName → Grouping Unit
  | [] => return ()
  | group :: groups => do
    cleanup group
    cleanupEach groups

/-- The end of `Group.clean_registries`: the names of the groups that are empty are removed. -/
def removeEmpty (groups : List GroupName) : Grouping Unit := do
  let results ← Prog.read fun s => groups.map fun group => keyExists s (.group group)
  let expiredGroupIds ← Prog.ofExcept (expiredEntries groups results.zipIdx)
  if expiredGroupIds = [] then return ()
  else Prog.perform (sremGroups expiredGroupIds).run

/-- `Group.clean_registries` -/
def cleanRegistries (uuid : GroupName) : Grouping Unit := do
  let groups ← all uuid
  cleanupEach groups
  removeEmpty groups

/-! ## What each of them does -/

variable {s s' : GroupStore} {uuid : GroupName}

/-- The ids of a group whose jobs are gone. -/
def expiredIn (s : GroupStore) (name : GroupName) : List JobId :=
  (s.val (.group name)).elems.filter fun id => !keyExists s (.job id)

lemma run_cleanup (name : GroupName) (s : GroupStore) :
    (cleanup name).run s = (.ok (),
      if expiredIn s name = [] then s else (sremJobs name (expiredIn s name)).run s) := by
  rw [cleanup, Prog.run_bind_ok (Prog.run_read _ _)]
  by_cases hempty : (s.val (.group name)).elems = []
  · have hexpired : expiredIn s name = [] := by simp [expiredIn, hempty]
    rw [if_pos hempty, if_pos hexpired]
    rfl
  · rw [if_neg hempty, Prog.run_bind_ok (Prog.run_read _ _), expiredEntries_map]
    show (if expiredIn s name = [] then _ else _ : Grouping Unit).run s = _
    split
    · rfl
    · rfl

/-- A job is kept in a group if it exists. -/
lemma mem_cleanup {name : GroupName} {id : JobId} :
    id ∈ ((cleanup name).run s).2.val (.group name) ↔
      id ∈ s.val (.group name) ∧ s.val (.job id) ≠ default := by
  have hexpired : id ∈ expiredIn s name ↔ id ∈ s.val (.group name) ∧ s.val (.job id) = default := by
    simp [expiredIn, keyExists, RSet.mem_def]
  rw [run_cleanup]
  split
  · next hnone =>
    rw [hnone] at hexpired
    have hkept : id ∈ s.val (.group name) → s.val (.job id) ≠ default := fun hid hgone =>
      List.not_mem_nil (hexpired.mpr ⟨hid, hgone⟩)
    exact ⟨fun hid => ⟨hid, hkept hid⟩, And.left⟩
  · have hmem : id ∈ ((sremJobs name (expiredIn s name)).run s).val (.group name) ↔
        id ∈ s.val (.group name) ∧ id ∉ expiredIn s name := by
      simp [sremJobs]
    refine hmem.trans (and_congr_right fun hid => ?_)
    rw [hexpired]
    exact not_congr (and_iff_right hid)

lemma keeps_cleanup {name : GroupName} {k : GroupKey} (hk : k ≠ .group name) :
    ((cleanup name).run s).2.val k = s.val k := by
  rw [run_cleanup]
  split
  · rfl
  · exact (Command.keeps_alter hk : (sremJobs name (expiredIn s name)).Keeps k) s

/-- A cleaning that finds nothing does nothing. -/
lemma run_cleanup_of_alive {name : GroupName}
    (h : ∀ id ∈ s.val (.group name), s.val (.job id) ≠ default) :
    (cleanup name).run s = (.ok (), s) := by
  have hexpired : expiredIn s name = [] := by
    rw [expiredIn, List.filter_eq_nil_iff]
    intro id hid
    simpa [keyExists] using h id hid
  rw [run_cleanup, if_pos hexpired]

lemma run_cleanupEach_cons (name : GroupName) (names : List GroupName) (s : GroupStore) :
    (cleanupEach (name :: names)).run s = (cleanupEach names).run ((cleanup name).run s).2 := by
  have hok : (cleanup name).run s = (.ok (), ((cleanup name).run s).2) := by
    rw [run_cleanup]
  rw [cleanupEach, Prog.run_bind_ok hok]

/-- The loop over the groups cleans each of them and touches nothing else. -/
lemma run_cleanupEach (names : List GroupName) (s : GroupStore) :
    ∃ s', (cleanupEach names).run s = (.ok (), s') ∧ s'.val .groups = s.val .groups ∧
      (∀ id, s'.val (.job id) = s.val (.job id)) ∧
      (∀ name ∉ names, s'.val (.group name) = s.val (.group name)) ∧
      ∀ name ∈ names, ∀ id, id ∈ s'.val (.group name) ↔
        id ∈ s.val (.group name) ∧ s.val (.job id) ≠ default := by
  induction names generalizing s with
  | nil => exact ⟨s, rfl, rfl, fun _ => rfl, fun _ _ => rfl, fun _ h => absurd h List.not_mem_nil⟩
  | cons first names ih =>
    obtain ⟨s', hrun, hgroups, hjobs, hothers, hmembers⟩ := ih ((cleanup first).run s).2
    have hjobs' : ∀ id, ((cleanup first).run s).2.val (.job id) = s.val (.job id) := fun id =>
      keeps_cleanup (by simp)
    refine ⟨s', (run_cleanupEach_cons first names s).trans hrun,
      hgroups.trans (keeps_cleanup (by simp)), fun id => (hjobs id).trans (hjobs' id),
      fun name hname => ?_, fun name hname id => ?_⟩
    · rw [List.mem_cons, not_or] at hname
      exact (hothers name hname.2).trans (keeps_cleanup (by simpa using hname.1))
    · by_cases hfirst : name = first
      · subst hfirst
        -- a group that is cleaned twice keeps what it has
        by_cases hagain : name ∈ names
        · rw [hmembers name hagain, hjobs', mem_cleanup]
          exact ⟨And.left, fun h => ⟨h, h.2⟩⟩
        · rw [hothers name hagain, mem_cleanup]
      · have htail : name ∈ names := (List.mem_cons.mp hname).resolve_left hfirst
        rw [hmembers name htail, hjobs', keeps_cleanup (by simpa using hfirst)]

/-! ### Fetching -/

lemma run_fetch (name uuid : GroupName) (s : GroupStore) : (fetch name.val uuid).run s =
    (if keyExists s (.group name) then .ok name else .error .noSuchGroupError, s) := by
  have hnew : new name.val uuid = name := dif_neg name.property
  rw [fetch, hnew, Prog.run_bind_ok (Prog.run_read _ _)]
  split
  · rfl
  · rfl

lemma run_fetchOrRemove (key uuid : GroupName) (s : GroupStore) :
    (fetchOrRemove key uuid).run s = if keyExists s (.group key) then (.ok (some key), s)
      else (.ok none, (sremGroups [key]).run s) := by
  have hfetch := run_fetch key uuid s
  rw [fetchOrRemove, Prog.run_tryCatch]
  by_cases hfound : keyExists s (.group key) = true
  · rw [if_pos hfound] at hfetch ⊢
    rw [Prog.run_map_ok some hfetch]
  · rw [if_neg hfound] at hfetch ⊢
    rw [← bind_pure_comp, Prog.run_bind_error hfetch]
    rfl

/-- The loop over the names returns the groups that exist and removes the names of the others. -/
lemma run_allLoop (uuid : GroupName) (keys : List GroupName) (s : GroupStore) :
    ∃ s', (allLoop uuid keys).run s =
        (.ok (keys.filter fun key => keyExists s (.group key)), s') ∧
      (∀ k, k ≠ .groups → s'.val k = s.val k) ∧
      ∀ name, name ∈ s'.val .groups ↔
        name ∈ s.val .groups ∧ (name ∈ keys → keyExists s (.group name) = true) := by
  induction keys generalizing s with
  | nil => exact ⟨s, rfl, fun _ _ => rfl, fun name => by simp⟩
  | cons key keys ih =>
    have hone := run_fetchOrRemove key uuid s
    by_cases hfound : keyExists s (.group key) = true
    · rw [if_pos hfound] at hone
      obtain ⟨s', hrun, hkeeps, hgroups⟩ := ih s
      refine ⟨s', ?_, hkeeps, fun name => ?_⟩
      · have hfilter : (key :: keys).filter (fun key => keyExists s (.group key)) =
            key :: keys.filter fun key => keyExists s (.group key) := by simp [hfound]
        rw [allLoop, Prog.run_bind_ok hone, Prog.run_bind_ok hrun, hfilter]
        rfl
      · rw [hgroups, List.mem_cons]
        refine and_congr_right fun _ => ⟨?_, fun h hname => h (.inr hname)⟩
        rintro h (rfl | hname)
        · exact hfound
        · exact h hname
    · rw [if_neg hfound] at hone
      obtain ⟨s', hrun, hkeeps, hgroups⟩ := ih ((sremGroups [key]).run s)
      have hsame : ∀ k, k ≠ .groups → ((sremGroups [key]).run s).val k = s.val k := fun k hk =>
        (Command.keeps_alter hk : (sremGroups [key]).Keeps k) s
      have hexists : ∀ name, keyExists ((sremGroups [key]).run s) (.group name) =
          keyExists s (.group name) := fun name => by
        rw [keyExists, keyExists, hsame _ (by simp)]
      have hremoved : ∀ name, name ∈ ((sremGroups [key]).run s).val .groups ↔
          name ∈ s.val .groups ∧ name ≠ key := fun name => by
        simp [sremGroups]
      simp only [hexists] at hrun hgroups
      refine ⟨s', ?_, fun k hk => (hkeeps k hk).trans (hsame k hk), fun name => ?_⟩
      · have hfilter : (key :: keys).filter (fun key => keyExists s (.group key)) =
            keys.filter fun key => keyExists s (.group key) := by simp [hfound]
        rw [allLoop, Prog.run_bind_ok hone, Prog.run_bind_ok hrun, hfilter]
        rfl
      · rw [hgroups, hremoved, List.mem_cons, and_assoc]
        refine and_congr_right fun _ => ⟨?_, fun h => ⟨?_, fun hname => h (.inr hname)⟩⟩
        · rintro ⟨hne, h⟩ (rfl | hname)
          · exact absurd rfl hne
          · exact h hname
        · rintro rfl
          exact hfound (h (.inl rfl))

/-- Without missing groups nothing is removed. -/
lemma run_allLoop_of_exists (uuid : GroupName) {keys : List GroupName}
    (h : ∀ key ∈ keys, keyExists s (.group key) = true) :
    (allLoop uuid keys).run s = (.ok keys, s) := by
  induction keys with
  | nil => rfl
  | cons key keys ih =>
    have hone := run_fetchOrRemove key uuid s
    rw [if_pos (h key List.mem_cons_self)] at hone
    have hrest := ih fun other hother => h other (List.mem_cons_of_mem _ hother)
    rw [allLoop, Prog.run_bind_ok hone, Prog.run_bind_ok hrest]
    rfl

lemma run_cleanupEach_of_alive {names : List GroupName}
    (h : ∀ name ∈ names, ∀ id ∈ s.val (.group name), s.val (.job id) ≠ default) :
    (cleanupEach names).run s = (.ok (), s) := by
  induction names with
  | nil => rfl
  | cons name names ih =>
    rw [run_cleanupEach_cons, run_cleanup_of_alive (h name List.mem_cons_self)]
    exact ih fun other hother => h other (List.mem_cons_of_mem _ hother)

/-! ## The cleaning -/

/-- The groups of `s'` are those of `s` without the jobs that are gone, and only those that are then
not empty are registered. -/
structure Cleaned (s s' : GroupStore) : Prop where
  jobs : ∀ name ∈ s.val .groups, ∀ id, id ∈ s'.val (.group name) ↔
    id ∈ s.val (.group name) ∧ s.val (.job id) ≠ default
  groups : ∀ name, name ∈ s'.val .groups ↔
    name ∈ s.val .groups ∧ s'.val (.group name) ≠ default
  unregistered : ∀ name ∉ s.val .groups, s'.val (.group name) = s.val (.group name)
  hashes : ∀ id, s'.val (.job id) = s.val (.job id)

lemma run_removeEmpty (live : List GroupName) (s : GroupStore) :
    ∃ s', (removeEmpty live).run s = (.ok (), s') ∧
      (∀ k, k ≠ .groups → s'.val k = s.val k) ∧
      ∀ name, name ∈ s'.val .groups ↔
        name ∈ s.val .groups ∧ (name ∈ live → keyExists s (.group name) = true) := by
  have hmem : ∀ name, (name ∈ live → keyExists s (.group name) = true) ↔
      name ∉ live.filter fun group => !keyExists s (.group group) := fun name => by
    simp
  rw [removeEmpty, Prog.run_bind_ok (Prog.run_read _ _), expiredEntries_map, Prog.ofExcept_ok,
    Prog.ret_bind]
  simp only [hmem]
  split
  · next hnone => exact ⟨s, rfl, fun _ _ => rfl, fun name => by simp [hnone]⟩
  · refine ⟨_, rfl, fun k hk => ?_, fun name => by simp [sremGroups]⟩
    exact (Command.keeps_alter hk : (sremGroups _).Keeps k) s

lemma run_cleanRegistries (uuid : GroupName) (s : GroupStore) :
    ∃ s', (cleanRegistries uuid).run s = (.ok (), s') ∧ Cleaned s s' := by
  obtain ⟨s₁, hall, hkeeps₁, hgroups₁⟩ := run_allLoop uuid (s.val .groups).elems s
  have hall' : (all uuid).run s = _ := (Prog.run_bind_ok (Prog.run_read _ _)).trans hall
  generalize hlive : (s.val .groups).elems.filter (fun key => keyExists s (.group key)) = live
    at hall'
  have hmem : ∀ name, name ∈ live ↔ name ∈ s.val .groups ∧ s.val (.group name) ≠ default :=
    fun name => by simp [← hlive, keyExists, RSet.mem_def]
  obtain ⟨s₂, heach, hgroups₂, hjobs₂, hothers₂, hmembers₂⟩ := run_cleanupEach live s₁
  obtain ⟨s₃, hend, hkeeps₃, hgroups₃⟩ := run_removeEmpty live s₂
  have hhashes : ∀ id, s₁.val (.job id) = s.val (.job id) := fun id => hkeeps₁ _ (by simp)
  have hsets : ∀ name, s₁.val (.group name) = s.val (.group name) := fun name =>
    hkeeps₁ _ (by simp)
  have hfinal : ∀ name, s₃.val (.group name) = s₂.val (.group name) := fun name =>
    hkeeps₃ _ (by simp)
  have huntouched : ∀ name ∉ live, s₃.val (.group name) = s.val (.group name) := fun name hname =>
    (hfinal name).trans ((hothers₂ name hname).trans (hsets name))
  refine ⟨s₃, ?_, fun name hname id => ?_, fun name => ?_, fun name hname => ?_, fun id => ?_⟩
  · rw [cleanRegistries, Prog.run_bind_ok hall', Prog.run_bind_ok heach]
    exact hend
  · by_cases hname' : name ∈ live
    · rw [hfinal, hmembers₂ name hname', hsets, hhashes]
    · -- the name of a group without a set
      have hempty : s.val (.group name) = default := by
        by_contra hne
        exact hname' ((hmem name).mpr ⟨hname, hne⟩)
      rw [huntouched name hname', hempty]
      exact ⟨fun h => absurd h (RSet.notMem_empty id), And.left⟩
  · rw [hgroups₃, hgroups₂, hgroups₁, hfinal]
    constructor
    · rintro ⟨⟨hname, hfound⟩, hkept⟩
      have hset : s.val (.group name) ≠ default := of_decide_eq_true (hfound hname)
      exact ⟨hname, of_decide_eq_true (hkept ((hmem name).mpr ⟨hname, hset⟩))⟩
    · rintro ⟨hname, hset⟩
      refine ⟨⟨hname, fun _ => decide_eq_true fun hempty => ?_⟩, fun _ => decide_eq_true hset⟩
      have hname' : name ∉ live := fun h => ((hmem name).mp h).2 hempty
      rw [← hfinal, huntouched name hname'] at hset
      exact hset hempty
  · exact huntouched name fun h => hname ((hmem name).mp h).1
  · exact (hkeeps₃ _ (by simp)).trans ((hjobs₂ id).trans (hhashes id))

/-- There is nothing to clean. -/
lemma run_cleanRegistries_of_clean (uuid : GroupName)
    (hgroups : ∀ name ∈ s.val .groups, s.val (.group name) ≠ default)
    (hjobs : ∀ name ∈ s.val .groups, ∀ id ∈ s.val (.group name), s.val (.job id) ≠ default) :
    (cleanRegistries uuid).run s = (.ok (), s) := by
  have hfound : ∀ name ∈ (s.val .groups).elems, keyExists s (.group name) = true :=
    fun name hname => decide_eq_true (hgroups name hname)
  have hall : (all uuid).run s = (.ok (s.val .groups).elems, s) :=
    (Prog.run_bind_ok (Prog.run_read _ _)).trans (run_allLoop_of_exists uuid hfound)
  have hexpired : ((s.val .groups).elems.filter fun group => !keyExists s (.group group)) = [] :=
    List.filter_eq_nil_iff.mpr fun name hname => by simp [hfound name hname]
  rw [cleanRegistries, Prog.run_bind_ok hall, Prog.run_bind_ok (run_cleanupEach_of_alive hjobs),
    removeEmpty, Prog.run_bind_ok (Prog.run_read _ _), expiredEntries_map, hexpired]
  rfl

/-- **Cleaning the groups.** It is exact, and cleaning once more changes nothing. -/
theorem cleanRegistries_exact (uuid : GroupName) (s : GroupStore) :
    ∃ s', (cleanRegistries uuid).run s = (.ok (), s') ∧ Cleaned s s' ∧
      (cleanRegistries uuid).run s' = (.ok (), s') := by
  obtain ⟨s', hrun, hcleaned⟩ := run_cleanRegistries uuid s
  refine ⟨s', hrun, hcleaned, run_cleanRegistries_of_clean uuid (fun name hname => ?_)
    fun name hname id hid => ?_⟩
  · exact ((hcleaned.groups name).mp hname).2
  · have hregistered := ((hcleaned.groups name).mp hname).1
    rw [hcleaned.hashes]
    exact ((hcleaned.jobs name hregistered id).mp hid).2

end Group

end RedisQueue
