import Mathlib.Data.List.Induction
import RedisQueue.Basic

/-!
# References to functions

`resolve_function_reference` and `import_attribute` (`rq/utils.py`): how a job names its function
when it is enqueued, and how a worker finds it again.

* `Interpreter.resolvesBack_iff`: the function is found just if at most one class encloses it.

The modules and packages of an interpreter are a finite tree. An attribute of a module or of a class
is a function or a class; the submodules of a package stand apart from its attributes.
-/

namespace RedisQueue

/-! ## Dotted names -/

/-- A name between dots. -/
abbrev Identifier := {name : List Char // name ≠ [] ∧ '.' ∉ name}

/-- `'.'.join(bits)` -/
def join (bits : List (List Char)) : List Char := ['.'].intercalate bits

/-- A dotted name. -/
def dotted (names : List Identifier) : List Char := join (names.map Subtype.val)

/-- The value of a name in a namespace. -/
def lookupName {α : Type} (name : List Char) (bindings : List (Identifier × α)) : Option α :=
  (bindings.find? fun binding => binding.1.val == name).map Prod.snd

lemma join_append {a b : List (List Char)} (ha : a ≠ []) (hb : b ≠ []) :
    join (a ++ b) = join a ++ '.' :: join b := by
  induction a with
  | nil => exact absurd rfl ha
  | cons x a ih =>
    cases a with
    | nil =>
      unfold join
      rw [List.singleton_append, List.intercalate_cons_of_ne_nil hb, List.intercalate_singleton]
      simp
    | cons y a =>
      have hrest := ih (List.cons_ne_nil _ _)
      unfold join at hrest ⊢
      rw [List.cons_append, List.intercalate_cons_of_ne_nil (by simp), hrest,
        List.intercalate_cons_of_ne_nil (List.cons_ne_nil _ _)]
      simp

/-- A dotted name splits into its parts. -/
lemma splitOn_dotted {names : List Identifier} (h : names ≠ []) :
    (dotted names).splitOn '.' = names.map Subtype.val := by
  apply List.splitOn_intercalate
  · intro name hname
    obtain ⟨identifier, -, rfl⟩ := List.mem_map.mp hname
    exact identifier.property.2
  · exact List.map_eq_nil_iff.not.mpr h

lemma dotted_append {a b : List Identifier} (ha : a ≠ []) (hb : b ≠ []) :
    dotted (a ++ b) = dotted a ++ '.' :: dotted b := by
  unfold dotted
  rw [List.map_append, join_append (List.map_eq_nil_iff.not.mpr ha) (List.map_eq_nil_iff.not.mpr hb)]

lemma dotted_singleton (name : Identifier) : dotted [name] = name.val := by
  unfold dotted join
  rw [List.map_singleton, List.intercalate_singleton]

/-- The first character of a dotted name is that of an identifier. -/
lemma head?_dotted (name : Identifier) (names : List Identifier) :
    (dotted (name :: names)).head? = name.val.head? := by
  cases names with
  | nil => rw [dotted_singleton]
  | cons next names =>
    have hsplit := dotted_append (List.cons_ne_nil name []) (List.cons_ne_nil next names)
    rw [List.singleton_append, dotted_singleton] at hsplit
    rw [hsplit, List.head?_append_of_ne_nil _ name.property.1]

/-- No identifier is a dotted name of several parts. -/
lemma lookupName_dotted {α : Type} (bindings : List (Identifier × α)) {names : List Identifier}
    (h : 2 ≤ names.length) : lookupName (dotted names) bindings = none := by
  match names with
  | name :: next :: names =>
    have hdot : '.' ∈ dotted (name :: next :: names) := by
      rw [← List.singleton_append, dotted_append (List.cons_ne_nil _ _) (List.cons_ne_nil _ _)]
      simp
    rw [lookupName, Option.map_eq_none_iff, List.find?_eq_none]
    intro binding _ heq
    rw [← eq_of_beq heq] at hdot
    exact binding.1.property.2 hdot

lemma lookupName_mem {α : Type} {name : List Char} {bindings : List (Identifier × α)} {a : α}
    (h : lookupName name bindings = some a) : ∃ identifier : Identifier,
      identifier.val = name ∧ (identifier, a) ∈ bindings := by
  obtain ⟨binding, hfind, rfl⟩ := Option.map_eq_some_iff.mp h
  have hname := List.find?_some hfind
  exact ⟨binding.1, eq_of_beq hname, List.mem_of_find?_eq_some hfind⟩

/-! ## Modules, classes and functions -/

/-- A function with its `__module__` and its `__qualname__`. -/
structure PyFunction where
  module : List Char
  qualname : List Char
  id : ℕ
deriving DecidableEq, Repr

inductive PyObject where
  | function (f : PyFunction)
  | cls (attributes : List (Identifier × PyObject))

inductive PyModule where
  | mk (attributes : List (Identifier × PyObject)) (submodules : List (Identifier × PyModule))

/-- `getattr`, without a value if it raises. -/
def PyObject.getattr : PyObject → List Char → Option PyObject
  | .function _, _ => none
  | .cls attributes, name => lookupName name attributes

/-- The object that the names lead to from an object. -/
def PyObject.walk : PyObject → List Identifier → Option PyObject
  | self, [] => some self
  | self, name :: names => (self.getattr name.val).bind fun next => next.walk names

namespace PyModule

def attributes : PyModule → List (Identifier × PyObject)
  | .mk attributes _ => attributes

def submodules : PyModule → List (Identifier × PyModule)
  | .mk _ submodules => submodules

def getattr (self : PyModule) (name : List Char) : Option PyObject :=
  lookupName name self.attributes

/-- The object that the names lead to from a module. -/
def walk (self : PyModule) : List Identifier → Option PyObject
  | [] => none
  | name :: names => (self.getattr name.val).bind fun next => next.walk names

/-- The module below a package. -/
def find : PyModule → List (List Char) → Option PyModule
  | self, [] => some self
  | self, name :: names => (lookupName name self.submodules).bind fun module => module.find names

lemma find_append (self : PyModule) (names rest : List (List Char)) :
    self.find (names ++ rest) = (self.find names).bind fun module => module.find rest := by
  induction names generalizing self with
  | nil => rfl
  | cons name names ih =>
    rw [List.cons_append, find, find, Option.bind_assoc]
    exact congrArg _ (funext fun module => ih module)

end PyModule

/-- The modules that can be imported, and the builtins. -/
structure Interpreter where
  modules : List (Identifier × PyModule)
  builtins : List (Identifier × PyObject)

/-- What `importlib.import_module` raises. -/
inductive ImportFailure where
  | importError
  | raised (e : PyError)
deriving DecidableEq, Repr

/-! ## `rq/utils.py` -/

/-- The kinds of `func` that `resolve_function_reference` tells apart. -/
inductive FunctionReference (α : Type) where
  | method (self : α) (name : List Char)
  | function (f : PyFunction)
  | builtin (f : PyFunction)
  | text (name : List Char)
  | callable (object : α)
  | other

/-- `resolve_function_reference` -/
def resolveFunctionReference {α : Type} :
    FunctionReference α → Except PyError (Option α × List Char)
  | .method self name => .ok (some self, name)
  | .function f | .builtin f => .ok (none, f.module ++ '.' :: f.qualname)
  | .text name => .ok (none, name)
  | .callable object => .ok (some object, "__call__".toList)
  | .other => .error .typeError

def invalidAttribute (name : List Char) : PyError :=
  .valueError ("Invalid attribute name: " ++ String.ofList name)

namespace Interpreter

section
variable (self : Interpreter)

/-- All top-level modules, as the submodules of one package. -/
def root : PyModule := ⟨[], self.modules⟩

/-- `importlib.import_module` -/
def importModule (name : List Char) : Except ImportFailure PyModule :=
  if name = [] then .error (.raised (.valueError "Empty module name"))
  else if name.head? = some '.' then .error (.raised .typeError)
  else match self.root.find (name.splitOn '.') with
    | some module => .ok module
    | none => .error .importError

/-- The loop of `import_attribute`, with the bits of the module name from the last to the first. -/
def importLongest : List (List Char) → List (List Char) →
    Except PyError (Option PyModule × List (List Char))
  | [], attributeBits => .ok (none, attributeBits)
  | bit :: bits, attributeBits =>
    match self.importModule (join (bit :: bits).reverse) with
    | .ok module => .ok (some module, attributeBits)
    | .error .importError => importLongest bits (bit :: attributeBits)
    | .error (.raised e) => .error e

/-- The end of `import_attribute`, once a module has been imported. -/
def attributeOf (module : PyModule) (attributeBits : List (List Char)) (name : List Char) :
    Except PyError PyObject :=
  match module.getattr (join attributeBits) with
  | some object => .ok object
  | none =>
    let attributeName := attributeBits.getLastD []
    match module.getattr (join attributeBits.dropLast) with
    | none => .error (invalidAttribute attributeName)
    | some owner =>
      match owner.getattr attributeName with
      | some object => .ok object
      | none => .error (invalidAttribute name)

/-- `import_attribute` -/
def importAttribute (name : List Char) : Except PyError PyObject :=
  let nameBits := name.splitOn '.'
  match self.importLongest nameBits.dropLast.reverse [nameBits.getLastD []] with
  | .error e => .error e
  | .ok (none, _) =>
    match lookupName name self.builtins with
    | some object => .ok object
    | none => .error (invalidAttribute name)
  | .ok (some module, attributeBits) => attributeOf module attributeBits name

end

/-- `f` is found in the module under its qualified name: the classes around it and its own name.
No attribute of the module is called like a submodule. -/
structure Finds (I : Interpreter) (module classes : List Identifier) (name : Identifier)
    (f : PyFunction) : Prop where
  module_ne_nil : module ≠ []
  module_eq : f.module = dotted module
  qualname_eq : f.qualname = dotted (classes ++ [name])
  path : ∃ m ∈ I.root.find (module.map Subtype.val),
    (∀ binding ∈ m.attributes, lookupName binding.1.val m.submodules = none) ∧
      m.walk (classes ++ [name]) = some (.function f)

variable {I : Interpreter} {module classes : List Identifier} {name : Identifier} {f : PyFunction}

/-! ## The import -/

/-- A dotted name is neither empty nor relative. -/
lemma importModule_dotted {names : List Identifier} (h : names ≠ []) :
    I.importModule (dotted names) =
      (I.root.find (names.map Subtype.val)).elim (.error .importError) .ok := by
  cases names with
  | nil => exact absurd rfl h
  | cons first names =>
    have hhead := head?_dotted first names
    have hdot : first.val.head? ≠ some '.' := by
      intro hdot
      exact first.property.2 (List.mem_of_mem_head? hdot)
    have hne : dotted (first :: names) ≠ [] := by
      intro hnil
      rw [hnil] at hhead
      exact first.property.1 (List.head?_eq_none_iff.mp hhead.symm)
    unfold importModule
    rw [if_neg hne, hhead, if_neg hdot, splitOn_dotted h]
    cases I.root.find ((first :: names).map Subtype.val) <;> rfl

/-- The loop ends at a module. -/
lemma importLongest_of_ok {bits : List (List Char)} {m : PyModule} (hne : bits ≠ [])
    (h : I.importModule (join bits) = .ok m) (attributeBits : List (List Char)) :
    I.importLongest bits.reverse attributeBits = .ok (some m, attributeBits) := by
  obtain ⟨bit, rest, hbits⟩ := List.exists_cons_of_ne_nil (List.reverse_eq_nil_iff.not.mpr hne)
  rw [hbits, importLongest, ← hbits, List.reverse_reverse, h]

/-- A bit that does not end the name of a module belongs to the attribute. -/
lemma importLongest_of_importError {bits : List (List Char)} {bit : List Char}
    (h : I.importModule (join (bits ++ [bit])) = .error .importError)
    (attributeBits : List (List Char)) :
    I.importLongest (bits ++ [bit]).reverse attributeBits =
      I.importLongest bits.reverse (bit :: attributeBits) := by
  rw [List.reverse_append, List.reverse_singleton, List.singleton_append, importLongest,
    List.reverse_cons, List.reverse_reverse, h]

/-- An attribute of a module is not a module. -/
lemma find_attribute {m : PyModule} {object : PyObject}
    (hdisjoint : ∀ binding ∈ m.attributes, lookupName binding.1.val m.submodules = none)
    {first : Identifier} (h : m.getattr first.val = some object) (rest : List (List Char)) :
    m.find (first.val :: rest) = none := by
  obtain ⟨identifier, hval, hmem⟩ := lookupName_mem h
  have hnone := hdisjoint _ hmem
  rw [hval] at hnone
  rw [PyModule.find, hnone, Option.bind_none]

/-- From a name below a module the loop goes back to the module, one name at a time. -/
lemma importLongest_back {m : PyModule} (hmodule : module ≠ [])
    (hm : I.root.find (module.map Subtype.val) = some m)
    (hdisjoint : ∀ binding ∈ m.attributes, lookupName binding.1.val m.submodules = none)
    {first : Identifier} {object : PyObject} (hfirst : m.getattr first.val = some object)
    (below : List Identifier) (attributeBits : List (List Char))
    (hbelow : below = [] ∨ below.head? = some first) :
    I.importLongest ((module ++ below).map Subtype.val).reverse attributeBits =
      .ok (some m, below.map Subtype.val ++ attributeBits) := by
  induction below using List.reverseRecOn generalizing attributeBits with
  | nil =>
    rw [List.append_nil]
    exact importLongest_of_ok (List.map_eq_nil_iff.not.mpr hmodule)
      (by rw [← dotted, importModule_dotted hmodule, hm, Option.elim_some]) attributeBits
  | append_singleton below last ih =>
    have hhead : (below ++ [last]).head? = some first :=
      hbelow.resolve_left (List.append_ne_nil_of_right_ne_nil _ (List.cons_ne_nil _ _))
    obtain ⟨rest, hrest⟩ : ∃ rest, below ++ [last] = first :: rest :=
      List.head?_eq_some_iff.mp hhead
    have hnot : I.root.find ((module ++ (below ++ [last])).map Subtype.val) = none := by
      rw [hrest, List.map_append, PyModule.find_append, hm, Option.bind_some, List.map_cons]
      exact find_attribute hdisjoint hfirst _
    have hbefore : below = [] ∨ below.head? = some first := by
      cases below with
      | nil => exact .inl rfl
      | cons next below => exact .inr hhead
    have himport := importModule_dotted (I := I)
      (List.append_ne_nil_of_left_ne_nil hmodule (below ++ [last]))
    rw [hnot, Option.elim_none] at himport
    rw [← List.append_assoc] at himport ⊢
    unfold dotted at himport
    rw [List.map_append, List.map_singleton] at himport ⊢
    rw [importLongest_of_importError himport, ih _ hbefore]
    simp

/-! ## The attribute -/

/-- The bits of the name of a function: those of its module, the classes and its own. -/
lemma splitOn_name (h : I.Finds module classes name f) :
    (f.module ++ '.' :: f.qualname).splitOn '.' =
      (module ++ classes).map Subtype.val ++ [name.val] := by
  rw [h.module_eq, h.qualname_eq, ← dotted_append h.module_ne_nil (by simp),
    splitOn_dotted (by simp)]
  simp

/-- The loop leaves the classes and the name of the function. -/
lemma importAttribute_eq (h : I.Finds module classes name f) {m : PyModule}
    (hm : I.root.find (module.map Subtype.val) = some m)
    (hdisjoint : ∀ binding ∈ m.attributes, lookupName binding.1.val m.submodules = none)
    (hwalk : m.walk (classes ++ [name]) = some (.function f)) :
    I.importAttribute (f.module ++ '.' :: f.qualname) =
      attributeOf m ((classes ++ [name]).map Subtype.val) (f.module ++ '.' :: f.qualname) := by
  -- the first name of the path is an attribute of the module
  obtain ⟨first, rest, hpath⟩ := List.exists_cons_of_ne_nil
    (List.append_ne_nil_of_right_ne_nil classes (List.cons_ne_nil name []))
  rw [hpath, PyModule.walk] at hwalk
  obtain ⟨object, hfirst, -⟩ := Option.bind_eq_some_iff.mp hwalk
  have hhead : classes = [] ∨ classes.head? = some first := by
    cases classes with
    | nil => exact .inl rfl
    | cons next classes => exact .inr (congrArg List.head? hpath)
  have hlongest := importLongest_back h.module_ne_nil hm hdisjoint hfirst classes [name.val] hhead
  unfold importAttribute
  simp only [splitOn_name h]
  rw [List.dropLast_concat, List.getLastD_concat, hlongest, List.map_append,
    List.map_singleton]

/-- No attribute has a dotted name. -/
lemma getattr_dotted (m : PyModule) {names : List Identifier} (h : 2 ≤ names.length) :
    m.getattr (join (names.map Subtype.val)) = none :=
  lookupName_dotted m.attributes h

/-- The function is an attribute of the module or of a class in it, or it is not found: the names
of two classes are looked up as one attribute of the module. -/
lemma attributeOf_path {m : PyModule} (hwalk : m.walk (classes ++ [name]) = some (.function f))
    (reference : List Char) :
    attributeOf m ((classes ++ [name]).map Subtype.val) reference =
      if classes.length ≤ 1 then .ok (.function f) else .error (invalidAttribute name.val) := by
  have hlast : (classes.map Subtype.val ++ [name.val]).getLastD [] = name.val :=
    List.getLastD_concat
  unfold attributeOf
  cases classes with
  | nil =>
    obtain ⟨object, hobject, hend⟩ := Option.bind_eq_some_iff.mp hwalk
    have hname : m.getattr (join ([name].map Subtype.val)) = some (.function f) := by
      rw [← dotted, dotted_singleton, hobject]
      exact hend
    rw [List.nil_append, hname]
    rfl
  | cons outer classes =>
    have hwhole : m.getattr (join ((outer :: classes ++ [name]).map Subtype.val)) = none :=
      getattr_dotted m (by simp)
    simp only [hwhole]
    rw [List.map_append, List.map_singleton, List.dropLast_concat]
    cases classes with
    | nil =>
      obtain ⟨owner, howner, hrest⟩ := Option.bind_eq_some_iff.mp hwalk
      obtain ⟨object, hobject, hend⟩ := Option.bind_eq_some_iff.mp hrest
      have hsingle : m.getattr (join ([outer].map Subtype.val)) = some owner := by
        rw [← dotted, dotted_singleton, howner]
      simp only [hsingle, hlast]
      rw [hobject]
      cases hend
      rfl
    | cons inner classes =>
      have howner : m.getattr (join ((outer :: inner :: classes).map Subtype.val)) = none :=
        getattr_dotted m (by simp)
      simp only [howner, hlast]
      exact (if_neg (by simp)).symm

/-- The worker finds the function that was enqueued. -/
def ResolvesBack (I : Interpreter) (f : PyFunction) : Prop :=
  ∃ reference, resolveFunctionReference (.function f : FunctionReference PyObject) = .ok reference ∧
    I.importAttribute reference.2 = .ok (.function f)

/-- A function that is found under its qualified name is imported by the name that
`resolve_function_reference` makes for it just if at most one class encloses it. -/
theorem resolvesBack_iff (h : I.Finds module classes name f) :
    I.ResolvesBack f ↔ classes.length ≤ 1 := by
  obtain ⟨m, hm, hdisjoint, hwalk⟩ := h.path
  have himport := importAttribute_eq h hm hdisjoint hwalk
  rw [attributeOf_path hwalk] at himport
  constructor
  · rintro ⟨reference, hreference, hfound⟩
    cases hreference
    by_contra hdeep
    rw [himport, if_neg hdeep] at hfound
    cases hfound
  · intro hflat
    refine ⟨_, rfl, ?_⟩
    rw [himport, if_pos hflat]

/-! ## Functions in classes -/

/-- The function `g` of `class A` and the function `f` of the `class B` inside it. -/
def methodFunction : PyFunction := ⟨"m".toList, "A.g".toList, 0⟩

def nestedFunction : PyFunction := ⟨"m".toList, "A.B.f".toList, 1⟩

/-- A module `m` with these classes. -/
def nestedClasses : Interpreter where
  modules := [(⟨"m".toList, by decide⟩, .mk
    [(⟨"A".toList, by decide⟩, .cls
      [(⟨"g".toList, by decide⟩, .function methodFunction),
        (⟨"B".toList, by decide⟩, .cls
          [(⟨"f".toList, by decide⟩, .function nestedFunction)])])] [])]
  builtins := []

lemma nestedClasses_finds : nestedClasses.Finds [⟨"m".toList, by decide⟩]
    [⟨"A".toList, by decide⟩, ⟨"B".toList, by decide⟩] ⟨"f".toList, by decide⟩ nestedFunction where
  module_ne_nil := by decide
  module_eq := by decide
  qualname_eq := by decide
  path := ⟨_, rfl, fun _ _ => rfl, rfl⟩

theorem resolvesBack_method : nestedClasses.ResolvesBack methodFunction := by
  have hfinds : nestedClasses.Finds [⟨"m".toList, by decide⟩] [⟨"A".toList, by decide⟩]
      ⟨"g".toList, by decide⟩ methodFunction :=
    ⟨by decide, by decide, by decide, _, rfl, fun _ _ => rfl, rfl⟩
  exact (resolvesBack_iff hfinds).mpr (by decide)

/-- The function of the inner class is found in the module and named, but not imported. -/
theorem nestedFunction_not_imported :
    nestedClasses.Finds [⟨"m".toList, by decide⟩]
      [⟨"A".toList, by decide⟩, ⟨"B".toList, by decide⟩] ⟨"f".toList, by decide⟩ nestedFunction ∧
    nestedClasses.importAttribute "m.A.B.f".toList =
      .error (.valueError "Invalid attribute name: f") ∧
    ¬ nestedClasses.ResolvesBack nestedFunction := by
  have himport : nestedClasses.importAttribute "m.A.B.f".toList =
      .error (.valueError "Invalid attribute name: f") := rfl
  refine ⟨nestedClasses_finds, himport, ?_⟩
  rintro ⟨reference, hreference, hfound⟩
  cases hreference
  have hname : nestedFunction.module ++ '.' :: nestedFunction.qualname = "m.A.B.f".toList := rfl
  rw [hname, himport] at hfound
  cases hfound

end Interpreter

end RedisQueue
