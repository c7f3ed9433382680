import Mathlib.Logic.Function.Basic
import Mathlib.Data.List.Infix
import RedisQueue.Basic

/-!
# The lazy job tuple

The property `data` of a `Job` and the four properties that it is decoded to, `func_name`,
`instance`, `args` and `kwargs` (`rq/job.py`), with the five slots in which they are cached.

* `LazyJob.behavesAsFields_iff`: the properties behave like four fields unless a property of a
  restored job is written before one has been read.

The values are arbitrary objects, and `dumps` and `loads` of the serializer are parameters.
-/

namespace RedisQueue

/-- The properties `func_name`, `instance`, `args` and `kwargs`. -/
inductive TupleProperty where
  | funcName | inst | args | kwargs
deriving DecidableEq, Repr

/-- `(func_name, instance, args, kwargs)` -/
abbrev JobTuple (V : Type) := TupleProperty → V

/-- The serializer of a job with objects `V` and bytes `D`, and the objects that `Job.data` uses. -/
structure DataFormat (V D : Type) where
  dumps : JobTuple V → D
  /-- Without a value if it raises, or if the object is not a tuple of four. -/
  loads : D → Option (JobTuple V)
  pyNone : V
  emptyTuple : V
  emptyDict : V

/-- What a property is set to before the data are built. The name has no default. -/
def DataFormat.default {V D : Type} (format : DataFormat V D) : TupleProperty → V
  | .funcName | .inst => format.pyNone
  | .args => format.emptyTuple
  | .kwargs => format.emptyDict

/-- What reading a property raises. -/
inductive DataError where
  | valueError (message : String)
  | deserializationError
deriving DecidableEq, Repr

/-- The slots of a `Job`: `_data`, and `_func_name`, `_instance`, `_args` and `_kwargs`. A slot that
is `UNEVALUATED` is `none`. -/
structure LazyJob (V D : Type) where
  data : Option D
  slots : TupleProperty → Option V

/-- A read or a write of a property, or a read of `data`. -/
inductive TupleAccess (V : Type) where
  | read (p : TupleProperty)
  | write (p : TupleProperty) (v : V)
  | readData

namespace LazyJob

variable {V D : Type} (format : DataFormat V D)

/-! ## The properties -/

/-- `Job.data` -/
def getData (self : LazyJob V D) : Except DataError (D × LazyJob V D) :=
  match self.data with
  | some data => .ok (data, self)
  | none =>
    if self.slots .funcName = none then .error (.valueError "Cannot build the job data")
    else
      let jobTuple : JobTuple V := fun p => (self.slots p).getD (format.default p)
      let data := format.dumps jobTuple
      .ok (data, { data := some data, slots := fun p => some (jobTuple p) })

/-- The setter of `Job.data` -/
def setData (_self : LazyJob V D) (value : D) : LazyJob V D where
  data := some value
  slots _ := none

/-- `Job._deserialize_data` -/
def _deserializeData (self : LazyJob V D) : Except DataError (JobTuple V × LazyJob V D) :=
  match self.getData format with
  | .error _ => .error .deserializationError
  | .ok (data, self) =>
    match format.loads data with
    | none => .error .deserializationError
    | some jobTuple => .ok (jobTuple, { self with slots := fun p => some (jobTuple p) })

/-- `Job.func_name`, `Job.instance`, `Job.args` and `Job.kwargs` -/
def getProperty (p : TupleProperty) (self : LazyJob V D) : Except DataError (V × LazyJob V D) :=
  match self.slots p with
  | some v => .ok (v, self)
  | none =>
    match self._deserializeData format with
    | .error e => .error e
    | .ok (jobTuple, self) => .ok (jobTuple p, self)

/-- The setters of the four properties -/
def setProperty (p : TupleProperty) (v : V) (self : LazyJob V D) : LazyJob V D where
  data := none
  slots := Function.update self.slots p (some v)

/-- The slots after `Job.__init__` -/
def init : LazyJob V D where
  data := none
  slots _ := none

/-- The tuple part of `Job.create` -/
def create (jobTuple : JobTuple V) : LazyJob V D where
  data := none
  slots p := some (jobTuple p)

/-- The tuple part of `Job.restore`, with the data after their decompression. -/
def restore (self : LazyJob V D) (data : D) : LazyJob V D := self.setData data

/-- The job after an access. -/
def access (self : LazyJob V D) : TupleAccess V → Except DataError (LazyJob V D)
  | .read p => (self.getProperty format p).map Prod.snd
  | .write p v => .ok (self.setProperty p v)
  | .readData => (self.getData format).map Prod.snd

def run (self : LazyJob V D) : List (TupleAccess V) → Except DataError (LazyJob V D)
  | [] => .ok self
  | a :: accesses =>
    match self.access format a with
    | .error e => .error e
    | .ok self => self.run accesses

end LazyJob

/-! ## Four fields -/

section
variable {V D : Type}

/-- What an access does to four independent fields. -/
def JobTuple.access (t : JobTuple V) : TupleAccess V → JobTuple V
  | .write p v => Function.update t p v
  | .read _ | .readData => t

/-- The last value written to each property, or else its original value. -/
def JobTuple.current (t : JobTuple V) (accesses : List (TupleAccess V)) : JobTuple V :=
  accesses.foldl JobTuple.access t

namespace LazyJob

variable (format : DataFormat V D)

/-- At this moment every read gives the value of the field, and the data decode to all of them. -/
def Agrees (self : LazyJob V D) (t : JobTuple V) : Prop :=
  (∀ p, ∃ after, self.getProperty format p = .ok (t p, after)) ∧
    ∃ data after, self.getData format = .ok (data, after) ∧ format.loads data = some t

/-- No access raises, and the job agrees with four fields at every moment. -/
def BehavesAsFields (self : LazyJob V D) (t : JobTuple V) (accesses : List (TupleAccess V)) :
    Prop :=
  ∀ before, before <+: accesses →
    ∃ job, self.run format before = .ok job ∧ job.Agrees format (t.current before)

/-- How a job has been made. -/
inductive Origin (D : Type) where
  | created
  | restored (data : D)

/-- The job of a tuple. -/
def ofOrigin (t : JobTuple V) : Origin D → LazyJob V D
  | .created => create t
  | .restored data => init.restore data

/-- The data of a restored job are those of the tuple. -/
def Origin.Stores (format : DataFormat V D) (t : JobTuple V) : Origin D → Prop
  | .created => True
  | .restored data => format.loads data = some t

/-- A property is read before the first write, or the first write is one of `func_name` in a tuple
that has nothing else. -/
def ReadFirst (t : JobTuple V) : List (TupleAccess V) → Prop
  | [] => True
  | .read _ :: _ => True
  | .readData :: accesses => ReadFirst t accesses
  | .write p _ :: _ => p = .funcName ∧ ∀ q, q ≠ .funcName → t q = format.default q

/-! ## Jobs that have been decoded -/

/-- The slots agree with the tuple. Those that are missing will be filled from their defaults; once
the data have been built, none is missing. -/
structure Settled (job : LazyJob V D) (t : JobTuple V) : Prop where
  slot : ∀ p v, job.slots p = some v → v = t p
  unbuilt : job.data = none →
    job.slots .funcName ≠ none ∧ ∀ p, job.slots p = none → t p = format.default p
  built : ∀ data, job.data = some data → format.loads data = some t ∧ ∀ p, job.slots p ≠ none

variable {format} {job : LazyJob V D} {t : JobTuple V}

/-- A job with all its slots. -/
lemma settled_full {data : D} (h : format.loads data = some t) :
    Settled format ⟨some data, fun p => some (t p)⟩ t where
  slot _ _ heq := (Option.some.inj heq).symm
  unbuilt hnone := (Option.some_ne_none _ hnone).elim
  built _ heq := by
    cases heq
    exact ⟨h, fun _ => Option.some_ne_none _⟩

lemma settled_create : Settled format (create t) t where
  slot _ _ heq := (Option.some.inj heq).symm
  unbuilt _ := ⟨Option.some_ne_none _, fun _ hnone => (Option.some_ne_none _ hnone).elim⟩
  built _ heq := (Option.some_ne_none _ heq.symm).elim

/-- The data of a settled job decode to its tuple. -/
lemma getData_settled (hinv : ∀ t, format.loads (format.dumps t) = some t)
    (h : Settled format job t) :
    ∃ data after, job.getData format = .ok (data, after) ∧ format.loads data = some t ∧
      after.data = some data ∧ Settled format after t := by
  obtain ⟨data, slots⟩ := job
  cases data with
  | some data => exact ⟨data, _, rfl, (h.built data rfl).1, rfl, h⟩
  | none =>
    obtain ⟨hname, hdefault⟩ := h.unbuilt rfl
    -- a missing slot is filled with the value that it stands for
    have htuple : (fun p => (slots p).getD (format.default p)) = t := by
      funext p
      cases hslot : slots p with
      | none => exact (hdefault p hslot).symm
      | some v => exact h.slot p v hslot
    refine ⟨format.dumps t, ⟨some (format.dumps t), fun p => some (t p)⟩, ?_, hinv t, rfl,
      settled_full (hinv t)⟩
    simp only [getData, if_neg hname]
    rw [htuple]
    simp only [← congrFun htuple]

lemma getProperty_settled (hinv : ∀ t, format.loads (format.dumps t) = some t)
    (h : Settled format job t) (p : TupleProperty) :
    ∃ after, job.getProperty format p = .ok (t p, after) ∧ Settled format after t := by
  cases hslot : job.slots p with
  | some v =>
    refine ⟨job, ?_, h⟩
    simp only [getProperty, hslot, h.slot p v hslot]
  | none =>
    obtain ⟨data, after, hdata, hloads, hbuilt, -⟩ := getData_settled hinv h
    refine ⟨⟨some data, fun q => some (t q)⟩, ?_, settled_full hloads⟩
    simp only [getProperty, hslot, _deserializeData, hdata, hloads, hbuilt]

@[simp]
lemma slots_setProperty (p : TupleProperty) (v : V) :
    (job.setProperty p v).slots p = some v := Function.update_self ..

lemma slots_setProperty_of_ne {p q : TupleProperty} (h : q ≠ p) (v : V) :
    (job.setProperty p v).slots q = job.slots q := Function.update_of_ne h ..

/-- A write makes the data obsolete and leaves the other slots alone. -/
lemma setProperty_settled {p : TupleProperty} (v : V)
    (hslot : ∀ q w, q ≠ p → job.slots q = some w → w = t q)
    (hdefault : ∀ q, q ≠ p → job.slots q = none → t q = format.default q)
    (hname : job.slots .funcName ≠ none ∨ p = .funcName) :
    Settled format (job.setProperty p v) (Function.update t p v) where
  slot q w heq := by
    by_cases hq : q = p
    · subst hq
      rw [slots_setProperty] at heq
      rw [Function.update_self]
      exact (Option.some.inj heq).symm
    · rw [slots_setProperty_of_ne hq] at heq
      rw [Function.update_of_ne hq]
      exact hslot q w hq heq
  unbuilt _ := by
    refine ⟨?_, fun q hnone => ?_⟩
    · by_cases hp : TupleProperty.funcName = p
      · simp [hp]
      · rw [slots_setProperty_of_ne hp]
        exact hname.resolve_right (Ne.symm hp)
    · by_cases hq : q = p
      · simp [hq] at hnone
      · rw [slots_setProperty_of_ne hq] at hnone
        rw [Function.update_of_ne hq]
        exact hdefault q hq hnone
  built _ heq := (Option.some_ne_none _ heq.symm).elim

/-- No slot that a write leaves alone is missing without a default. -/
lemma missing_settled (h : Settled format job t) :
    job.slots .funcName ≠ none ∧ ∀ p, job.slots p = none → t p = format.default p := by
  cases hdata : job.data with
  | none => exact h.unbuilt hdata
  | some data =>
    have hfull := (h.built data hdata).2
    exact ⟨hfull .funcName, fun p hnone => absurd hnone (hfull p)⟩

/-- An access does to a settled job what it does to four fields. -/
lemma access_settled (hinv : ∀ t, format.loads (format.dumps t) = some t)
    (h : Settled format job t) (a : TupleAccess V) :
    ∃ after, job.access format a = .ok after ∧ Settled format after (t.access a) := by
  cases a with
  | read p =>
    obtain ⟨after, hread, hafter⟩ := getProperty_settled hinv h p
    exact ⟨after, by rw [access, hread]; rfl, hafter⟩
  | write p v =>
    obtain ⟨hname, hdefault⟩ := missing_settled h
    exact ⟨_, rfl, setProperty_settled v (fun q w _ => h.slot q w) (fun q _ => hdefault q)
      (.inl hname)⟩
  | readData =>
    obtain ⟨data, after, hdata, -, -, hafter⟩ := getData_settled hinv h
    exact ⟨after, by rw [access, hdata]; rfl, hafter⟩

lemma run_settled (hinv : ∀ t, format.loads (format.dumps t) = some t)
    (accesses : List (TupleAccess V)) : ∀ {job : LazyJob V D} {t : JobTuple V},
    Settled format job t →
    ∃ after, job.run format accesses = .ok after ∧ Settled format after (t.current accesses) := by
  induction accesses with
  | nil =>
    intro job t h
    exact ⟨job, rfl, h⟩
  | cons a accesses ih =>
    intro job t h
    obtain ⟨next, haccess, hnext⟩ := access_settled hinv h a
    obtain ⟨after, hrun, hafter⟩ := ih hnext
    exact ⟨after, by rw [run, haccess]; exact hrun, hafter⟩

lemma agrees_settled (hinv : ∀ t, format.loads (format.dumps t) = some t)
    (h : Settled format job t) : job.Agrees format t := by
  refine ⟨fun p => ?_, ?_⟩
  · obtain ⟨after, hread, -⟩ := getProperty_settled hinv h p
    exact ⟨after, hread⟩
  · obtain ⟨data, after, hdata, hloads, -⟩ := getData_settled hinv h
    exact ⟨data, after, hdata, hloads⟩

lemma behavesAsFields_settled (hinv : ∀ t, format.loads (format.dumps t) = some t)
    (h : Settled format job t) (accesses : List (TupleAccess V)) :
    job.BehavesAsFields format t accesses := by
  intro before _
  obtain ⟨after, hrun, hafter⟩ := run_settled hinv before h
  exact ⟨after, hrun, agrees_settled hinv hafter⟩

/-! ## Restored jobs -/

/-- The moments of a run are its beginning and those after the first access. -/
lemma behavesAsFields_cons (a : TupleAccess V) (accesses : List (TupleAccess V)) :
    job.BehavesAsFields format t (a :: accesses) ↔
      job.Agrees format t ∧ ∃ next, job.access format a = .ok next ∧
        next.BehavesAsFields format (t.access a) accesses := by
  constructor
  · intro h
    obtain ⟨start, hstart, hagrees⟩ := h [] List.nil_prefix
    cases hstart
    refine ⟨hagrees, ?_⟩
    have hlater : ∀ before, before <+: accesses → ∃ after, job.run format (a :: before) = .ok after ∧
        after.Agrees format (t.current (a :: before)) :=
      fun before hbefore => h (a :: before) ((List.prefix_cons_inj a).mpr hbefore)
    cases haccess : job.access format a with
    | error e =>
      obtain ⟨after, hrun, -⟩ := hlater [] List.nil_prefix
      rw [run, haccess] at hrun
      cases hrun
    | ok next =>
      refine ⟨next, rfl, fun before hbefore => ?_⟩
      obtain ⟨after, hrun, hafter⟩ := hlater before hbefore
      rw [run, haccess] at hrun
      exact ⟨after, hrun, hafter⟩
  · rintro ⟨hagrees, next, haccess, hnext⟩ before hbefore
    cases before with
    | nil => exact ⟨job, rfl, hagrees⟩
    | cons b before =>
      obtain ⟨rfl, hrest⟩ := List.cons_prefix_cons.mp hbefore
      obtain ⟨after, hrun, hafter⟩ := hnext before hrest
      exact ⟨after, by rw [run, haccess]; exact hrun, hafter⟩

lemma behavesAsFields_nil :
    job.BehavesAsFields format t [] ↔ job.Agrees format t := by
  constructor
  · intro h
    obtain ⟨start, hstart, hagrees⟩ := h [] List.nil_prefix
    cases hstart
    exact hagrees
  · intro h before hbefore
    rw [List.prefix_nil.mp hbefore]
    exact ⟨job, rfl, h⟩

variable {data : D}

/-- The first property that is read decodes the data. -/
lemma getProperty_restored (h : format.loads data = some t) (p : TupleProperty) :
    (init.restore data).getProperty format p = .ok (t p, ⟨some data, fun q => some (t q)⟩) := by
  simp only [getProperty, restore, setData, _deserializeData, getData, h]

lemma agrees_restored (h : format.loads data = some t) :
    (init.restore data).Agrees format t :=
  ⟨fun p => ⟨_, getProperty_restored h p⟩, data, _, rfl, h⟩

/-- The name of the function is enough if the rest of the tuple is made up of defaults. -/
lemma settled_written_name (v : V) (h : ∀ q, q ≠ .funcName → t q = format.default q) :
    Settled format ((init.restore data).setProperty .funcName v)
      (Function.update t .funcName v) :=
  setProperty_settled v (fun _ w _ heq => (Option.some_ne_none w heq.symm).elim)
    (fun q hq _ => h q hq) (.inr rfl)

/-- Without its data a restored job has only what was written: it can still be built if that was the
name of the function and the rest of the tuple is made up of defaults. -/
lemma agrees_written (hinv : ∀ t, format.loads (format.dumps t) = some t) {p : TupleProperty}
    {v : V} : ((init.restore data).setProperty p v).Agrees format (Function.update t p v) ↔
      p = .funcName ∧ ∀ q, q ≠ .funcName → t q = format.default q := by
  constructor
  · rintro ⟨-, built, after, hbuilt, hloads⟩
    have hname : p = .funcName := by
      by_contra hp
      -- the name of the function is missing, so that `data` raises
      have hmissing : ((init.restore data).setProperty p v).slots .funcName = none :=
        slots_setProperty_of_ne (Ne.symm hp) v
      rw [getData, if_pos hmissing] at hbuilt
      cases hbuilt
    subst hname
    refine ⟨rfl, fun q hq => ?_⟩
    have hmissing : ((init.restore data).setProperty .funcName v).slots q = none :=
      slots_setProperty_of_ne hq v
    have hpresent : ((init.restore data).setProperty .funcName v).slots .funcName ≠ none := by
      rw [slots_setProperty]
      exact Option.some_ne_none v
    rw [getData, if_neg hpresent] at hbuilt
    cases hbuilt
    -- the tuple that is built has the default of `q`, that of the fields its old value
    have htuple := congrFun (Option.some.inj ((hinv _).symm.trans hloads)) q
    rw [hmissing, Function.update_of_ne hq] at htuple
    exact htuple.symm
  · rintro ⟨rfl, hdefault⟩
    exact agrees_settled hinv (settled_written_name v hdefault)

/-- The first access that is not a read of `data` decides about a restored job. -/
lemma behavesAsFields_restored (hinv : ∀ t, format.loads (format.dumps t) = some t)
    (h : format.loads data = some t) (accesses : List (TupleAccess V)) :
    (init.restore data).BehavesAsFields format t accesses ↔ ReadFirst format t accesses := by
  induction accesses with
  | nil => exact iff_of_true (behavesAsFields_nil.mpr (agrees_restored h)) trivial
  | cons a accesses ih =>
    rw [behavesAsFields_cons]
    cases a with
    | read p =>
      -- from here on all slots are filled
      have hread : (init.restore data).access format (.read p) =
          .ok ⟨some data, fun q => some (t q)⟩ := by
        rw [access, getProperty_restored h]
        rfl
      exact iff_of_true ⟨agrees_restored h, _, hread,
        behavesAsFields_settled hinv (settled_full h) accesses⟩ trivial
    | readData =>
      -- `data` is read without decoding it
      constructor
      · rintro ⟨-, next, haccess, hnext⟩
        cases haccess
        exact ih.mp hnext
      · intro hfirst
        exact ⟨agrees_restored h, _, rfl, ih.mpr hfirst⟩
    | write p v =>
      constructor
      · rintro ⟨-, next, haccess, hnext⟩
        cases haccess
        obtain ⟨start, hstart, hagrees⟩ := hnext [] List.nil_prefix
        cases hstart
        exact (agrees_written hinv).mp hagrees
      · rintro ⟨rfl, hdefault⟩
        exact ⟨agrees_restored h, _, rfl,
          behavesAsFields_settled hinv (settled_written_name v hdefault) accesses⟩

/-- The properties of a job behave like four fields just if the job has been created, or a property
is read before the first write, or the first write is one of `func_name` in a tuple that has
nothing else. -/
theorem behavesAsFields_iff (hinv : ∀ t, format.loads (format.dumps t) = some t)
    (origin : Origin D) (h : origin.Stores format t) (accesses : List (TupleAccess V)) :
    (ofOrigin t origin).BehavesAsFields format t accesses ↔
      origin = .created ∨ ReadFirst format t accesses := by
  cases origin with
  | created =>
    exact iff_of_true (behavesAsFields_settled hinv settled_create accesses) (.inl rfl)
  | restored data =>
    rw [or_iff_right (by simp)]
    exact behavesAsFields_restored hinv h accesses

/-! ## A restored job -/

/-- Objects are numbers, and the bytes of a tuple are the tuple. -/
def numberFormat : DataFormat ℕ (JobTuple ℕ) where
  dumps t := t
  loads t := some t
  pyNone := 0
  emptyTuple := 1
  emptyDict := 2

/-- A function with arguments. -/
def numberTuple : JobTuple ℕ
  | .funcName => 3
  | .inst => 0
  | .args => 4
  | .kwargs => 2

/-- `args` is read before it is written. -/
theorem behavesAsFields_args :
    (ofOrigin numberTuple (.restored numberTuple)).BehavesAsFields numberFormat numberTuple
      [.read .args, .write .args 7] := by
  have hstores : (Origin.restored numberTuple).Stores numberFormat numberTuple := rfl
  exact (behavesAsFields_iff (fun _ => rfl) _ hstores _).mpr (.inr trivial)

/-- After a write of `args` to a restored job, `func_name` cannot be read and the data cannot be
built. -/
theorem written_not_decoded :
    let written := (init.restore numberTuple).setProperty TupleProperty.args 7
    (written.getProperty numberFormat .funcName).map Prod.fst = .error .deserializationError ∧
    (written.getData numberFormat).map Prod.fst =
      .error (.valueError "Cannot build the job data") ∧
    ¬ (ofOrigin numberTuple (.restored numberTuple)).BehavesAsFields numberFormat numberTuple
      [.write .args 7] := by
  refine ⟨rfl, rfl, fun h => ?_⟩
  obtain ⟨after, hrun, -, data, built, hdata, -⟩ := h [.write .args 7] (List.prefix_refl _)
  cases hrun
  cases hdata

end LazyJob

end

end RedisQueue
