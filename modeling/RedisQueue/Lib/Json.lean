import Mathlib.Data.List.MinMax
import RedisQueue.Lib.Text

/-!
# JSON values

A value, the text that `json.dumps` writes for it, and the reader `json.loads`.

* `Json.fold`: the recursion over a value, from which `write`, `depth` and `native` are made;
* `Json.loads_write`: what is written is read back.

How a float is written is a parameter.
-/

/-- A JSON value. The fields of an object stand in the order in which they have been inserted. -/
inductive Json (F : Type) where
  | null
  | bool (b : Bool)
  | int (n : ℤ)
  | float (x : F)
  | str (s : String)
  | arr (items : List (Json F))
  | obj (fields : List (String × Json F))

namespace Json

open Text

variable {F β : Type}

/-! ## Recursion -/

/-- What a fold makes of each kind of value. -/
structure Visitor (F β : Type) where
  null : β
  bool : Bool → β
  int : ℤ → β
  float : F → β
  str : String → β
  arr : List β → β
  obj : List (String × β) → β

mutual

def fold (visitor : Visitor F β) : Json F → β
  | .null => visitor.null
  | .bool b => visitor.bool b
  | .int n => visitor.int n
  | .float x => visitor.float x
  | .str s => visitor.str s
  | .arr items => visitor.arr (foldItems visitor items)
  | .obj fields => visitor.obj (foldFields visitor fields)

def foldItems (visitor : Visitor F β) : List (Json F) → List β
  | [] => []
  | v :: vs => fold visitor v :: foldItems visitor vs

def foldFields (visitor : Visitor F β) : List (String × Json F) → List (String × β)
  | [] => []
  | (key, v) :: fields => (key, fold visitor v) :: foldFields visitor fields

end

lemma foldItems_eq (visitor : Visitor F β) (items : List (Json F)) :
    foldItems visitor items = items.map (fold visitor) := by
  induction items with
  | nil => rfl
  | cons v vs ih => rw [foldItems, ih, List.map_cons]

lemma foldFields_eq (visitor : Visitor F β) (fields : List (String × Json F)) :
    foldFields visitor fields = fields.map fun f => (f.1, fold visitor f.2) := by
  induction fields with
  | nil => rfl
  | cons f fields ih => rw [foldFields, ih, List.map_cons]

lemma fold_arr (visitor : Visitor F β) (items : List (Json F)) :
    fold visitor (.arr items) = visitor.arr (items.map (fold visitor)) := by
  rw [fold, foldItems_eq]

lemma fold_obj (visitor : Visitor F β) (fields : List (String × Json F)) :
    fold visitor (.obj fields) = visitor.obj (fields.map fun f => (f.1, fold visitor f.2)) := by
  rw [fold, foldFields_eq]

/-- Induction over values: the items of an array and the values of an object come first. -/
theorem induction {P : Json F → Prop} (hnull : P .null) (hbool : ∀ b, P (.bool b))
    (hint : ∀ n, P (.int n)) (hfloat : ∀ x, P (.float x)) (hstr : ∀ s, P (.str s))
    (harr : ∀ items, (∀ v ∈ items, P v) → P (.arr items))
    (hobj : ∀ fields : List (String × Json F), (∀ f ∈ fields, P f.2) → P (.obj fields))
    (v : Json F) : P v := by
  refine Json.rec (motive_1 := P) (motive_2 := fun items => ∀ v ∈ items, P v)
    (motive_3 := fun fields => ∀ f ∈ fields, P f.2) (motive_4 := fun f => P f.2)
    hnull hbool hint hfloat hstr harr hobj (by simp) ?_ (by simp) ?_ (fun _ _ h => h) v
  · intro v vs hv hvs
    exact List.forall_mem_cons.mpr ⟨hv, hvs⟩
  · intro f fields hf hfields
    exact List.forall_mem_cons.mpr ⟨hf, hfields⟩

/-- How deep arrays and objects are nested. -/
def depth : Json F → ℕ := fold {
  null := 1
  bool _ := 1
  int _ := 1
  float _ := 1
  str _ := 1
  arr depths := depths.foldr max 0 + 1
  obj depths := (depths.map Prod.snd).foldr max 0 + 1 }

/-- No object has a key twice. -/
def native : Json F → Bool := fold {
  null := true
  bool _ := true
  int _ := true
  float _ := true
  str _ := true
  arr natives := natives.all id
  obj natives := decide (natives.map Prod.fst).Nodup && (natives.map Prod.snd).all id }

@[simp] lemma native_null : (null : Json F).native := rfl

@[simp] lemma native_int (n : ℤ) : (int n : Json F).native := rfl

@[simp] lemma native_str (s : String) : (str s : Json F).native := rfl

lemma native_arr {items : List (Json F)} : (arr items).native ↔ ∀ v ∈ items, v.native := by
  unfold native
  rw [fold_arr]
  simp

lemma native_obj {fields : List (String × Json F)} :
    (obj fields).native ↔ (fields.map Prod.fst).Nodup ∧ ∀ f ∈ fields, f.2.native := by
  unfold native
  rw [fold_obj]
  simp [Function.comp_def]

lemma depth_pos (v : Json F) : 0 < v.depth := by
  cases v <;> first | exact Nat.one_pos | exact Nat.succ_pos _

lemma depth_arr (items : List (Json F)) :
    (arr items).depth = (items.map depth).foldr max 0 + 1 := by
  unfold depth
  rw [fold_arr]

lemma depth_obj (fields : List (String × Json F)) :
    (obj fields).depth = (fields.map fun f => f.2.depth).foldr max 0 + 1 := by
  unfold depth
  rw [fold_obj]
  simp [Function.comp_def]

/-! ## Writing -/

/-- How floats are written and read. -/
structure FloatFormat (F : Type) where
  write : F → List Char
  read : List Char → Option F
  isZero : F → Bool

/-- The characters of a number. -/
def isNumberChar (c : Char) : Bool :=
  c.isDigit || c == '-' || c == '+' || c == '.' || c == 'e' || c == 'E'

/-- Every float is read back, and is told apart from an integer. -/
structure FloatFormat.Lawful (floats : FloatFormat F) : Prop where
  read_write : ∀ x, floats.read (floats.write x) = some x
  write_ne_nil : ∀ x, floats.write x ≠ []
  numeric : ∀ x, ∀ c ∈ floats.write x, isNumberChar c
  not_int : ∀ x, whole readJsonInt (floats.write x) = none

variable (floats : FloatFormat F)

/-- A key with the text of its value. -/
def writeField (f : String × List Char) : List Char := writeString f.1.toList ++ ':' :: ' ' :: f.2

/-- `json.dumps` -/
def write : Json F → List Char := fold {
  null := "null".toList
  bool b := if b then "true".toList else "false".toList
  int := writeInt
  float := floats.write
  str s := writeString s.toList
  arr texts := '[' :: (writeItems id texts ++ [']'])
  obj fields := '{' :: (writeItems writeField fields ++ ['}']) }

/-! ## Reading -/

/-- Takes the characters of `word`. -/
def expectWord : List Char → List Char → Option (List Char)
  | [], text => some text
  | c :: word, text => do
    let rest ← expect c text
    expectWord word rest

/-- A number: an integer, or else a float. -/
def readNumber : Reader (Json F) := fun text =>
  let token := text.takeWhile isNumberChar
  let rest := text.dropWhile isNumberChar
  match whole readJsonInt token with
  | some n => some (.int n, rest)
  | none => if token = [] then none else (floats.read token).map fun x => (.float x, rest)

/-- A key and its value. -/
def readField {α : Type} (read : Reader α) : Reader (String × α) := fun text => do
  let (key, rest) ← readString text
  let rest ← expect ':' (skipSpaces rest)
  let (a, rest) ← read (skipSpaces rest)
  return ((String.ofList key, a), rest)

/-- Puts a field into a dictionary, in the place of one with the same key. -/
def insertField {α : Type} (fields : List (String × α)) (f : String × α) : List (String × α) :=
  if f.1 ∈ fields.map Prod.fst then fields.map fun g => if g.1 = f.1 then f else g
  else fields ++ [f]

/-- A value whose arrays and objects are nested less than `fuel` deep. -/
def readValue : ℕ → Reader (Json F)
  | 0 => fun _ => none
  | fuel + 1 => fun text =>
    match text with
    | [] => none
    | c :: rest =>
      if c = '"' then (readString text).map fun r => (.str (String.ofList r.1), r.2)
      else if c = '[' then
        (readEnclosed ']' (readValue fuel) rest).map fun r => (.arr r.1, r.2)
      else if c = '{' then
        (readEnclosed '}' (readField (readValue fuel)) rest).map fun r =>
          (.obj (r.1.foldl insertField []), r.2)
      else if c = 'n' then (expectWord "null".toList text).map fun rest => (.null, rest)
      else if c = 't' then (expectWord "true".toList text).map fun rest => (.bool true, rest)
      else if c = 'f' then (expectWord "false".toList text).map fun rest => (.bool false, rest)
      else readNumber floats text

/-- `json.loads` -/
def loads (text : List Char) : Option (Json F) :=
  whole (fun text => (readValue floats (text.length + 1) (skipSpaces text)).map fun r =>
    (r.1, skipSpaces r.2)) text

/-! ## The round trip -/

variable {floats}

lemma write_arr (items : List (Json F)) :
    write floats (.arr items) = '[' :: (writeItems (write floats) items ++ [']']) := by
  rw [write, fold_arr, ← write]
  dsimp only
  rw [writeItems_map]
  rfl

lemma write_obj (fields : List (String × Json F)) : write floats (.obj fields) =
    '{' :: (writeItems (fun f => writeField (f.1, write floats f.2)) fields ++ ['}']) := by
  rw [write, fold_obj, ← write]
  dsimp only
  rw [writeItems_map]

/-- What follows a value does not go on with a number. -/
def Follows (rest : List Char) : Prop := ∀ c ∈ rest.head?, isNumberChar c = false

/-- A text starts with a character that is neither a space nor one that closes something. -/
def StartsValue (text : List Char) : Prop :=
  ∃ c cs, text = c :: cs ∧ isSpace c = false ∧ c ≠ ']' ∧ c ≠ '}'

lemma numeric_writeInt (n : ℤ) : ∀ c ∈ writeInt n, isNumberChar c := by
  have hdigits : ∀ m, ∀ c ∈ Nat.toDigits 10 m, isNumberChar c := fun m c hc => by
    simp [isNumberChar, isDigit_toDigits m c hc]
  cases n with
  | ofNat m => exact hdigits m
  | negSucc m => exact List.forall_mem_cons.mpr ⟨rfl, hdigits _⟩

lemma writeInt_ne_nil (n : ℤ) : writeInt n ≠ [] := by
  obtain ⟨c, cs, hc, -⟩ := starts_writeInt n
  rw [hc]
  exact List.cons_ne_nil _ _

lemma whole_readJsonInt (n : ℤ) : whole readJsonInt (writeInt n) = some n := by
  have hread := inverts_readInt n [] (by simp [NoDigit])
  rw [List.append_nil] at hread
  simp [whole, readJsonInt, hread]

/-- A character of a number is none of those by which the reader tells the other values. -/
lemma readValue_number {fuel : ℕ} {c : Char} (hc : isNumberChar c) (cs : List Char) :
    readValue floats (fuel + 1) (c :: cs) = readNumber floats (c :: cs) := by
  have hne : ∀ d, isNumberChar d = false → c ≠ d := by
    rintro d hd rfl
    rw [hc] at hd
    cases hd
  rw [readValue]
  dsimp only
  rw [if_neg (hne '"' rfl), if_neg (hne '[' rfl), if_neg (hne '{' rfl), if_neg (hne 'n' rfl),
    if_neg (hne 't' rfl), if_neg (hne 'f' rfl)]

/-- The characters of a number end where something else follows. -/
lemma span_number {token rest : List Char} (h : ∀ c ∈ token, isNumberChar c)
    (hrest : Follows rest) :
    (token ++ rest).takeWhile isNumberChar = token ∧
      (token ++ rest).dropWhile isNumberChar = rest := by
  rw [List.takeWhile_append_of_pos h, List.dropWhile_append_of_pos h]
  cases rest with
  | nil => simp
  | cons c rest =>
    have hc : isNumberChar c = false := hrest c rfl
    simp [hc]

lemma readValue_int {fuel : ℕ} (n : ℤ) {rest : List Char} (hrest : Follows rest) :
    readValue floats (fuel + 1) (writeInt n ++ rest) = some (.int n, rest) := by
  obtain ⟨htake, hdrop⟩ := span_number (numeric_writeInt n) hrest
  obtain ⟨c, cs, hc, -⟩ := starts_writeInt n
  have hnumeric := numeric_writeInt n c (by simp [hc])
  rw [hc, List.cons_append, readValue_number hnumeric, ← List.cons_append, ← hc, readNumber, htake,
    hdrop, whole_readJsonInt]

lemma readValue_float (hf : floats.Lawful) {fuel : ℕ} (x : F) {rest : List Char}
    (hrest : Follows rest) :
    readValue floats (fuel + 1) (floats.write x ++ rest) = some (.float x, rest) := by
  obtain ⟨htake, hdrop⟩ := span_number (hf.numeric x) hrest
  obtain ⟨c, cs, hc⟩ := List.exists_cons_of_ne_nil (hf.write_ne_nil x)
  have hnumeric := hf.numeric x c (by simp [hc])
  rw [hc, List.cons_append, readValue_number hnumeric, ← List.cons_append, ← hc, readNumber, htake,
    hdrop, hf.not_int, if_neg (hf.write_ne_nil x), hf.read_write]
  rfl

lemma startsValue_write (hf : floats.Lawful) (v : Json F) : StartsValue (write floats v) := by
  have hnumber : ∀ token, token ≠ [] → (∀ c ∈ token, isNumberChar c) → StartsValue token := by
    intro token hne hnumeric
    obtain ⟨c, cs, rfl⟩ := List.exists_cons_of_ne_nil hne
    have hc := hnumeric c List.mem_cons_self
    refine ⟨c, cs, rfl, ?_, ?_, ?_⟩
    · cases hspace : isSpace c with
      | false => rfl
      | true =>
        simp only [isSpace, Bool.or_eq_true, beq_iff_eq] at hspace
        rcases hspace with ((rfl | rfl) | rfl) | rfl <;> exact absurd hc (by decide)
    · rintro rfl
      exact absurd hc (by decide)
    · rintro rfl
      exact absurd hc (by decide)
  cases v with
  | null => exact ⟨'n', _, rfl, by decide⟩
  | bool b => cases b <;> exact ⟨_, _, rfl, by decide⟩
  | int n => exact hnumber _ (writeInt_ne_nil n) (numeric_writeInt n)
  | float x => exact hnumber _ (hf.write_ne_nil x) (hf.numeric x)
  | str s => exact ⟨'"', _, rfl, by decide⟩
  | arr items => exact ⟨'[', _, write_arr items, by decide⟩
  | obj fields => exact ⟨'{', _, write_obj fields, by decide⟩

lemma StartsValue.skipSpaces {text : List Char} (h : StartsValue text) (rest : List Char) :
    skipSpaces (text ++ rest) = text ++ rest := by
  obtain ⟨c, cs, rfl, hspace, -⟩ := h
  exact skipSpaces_cons hspace _

/-- A text that starts with a value goes on after it with what `readEnclosed` expects. -/
lemma readEnclosed_writeItems {α : Type} {read : Reader α} {write : α → List Char} {close : Char}
    (hspace : isSpace close = false) (hcomma : close ≠ ',') {as : List α}
    (hread : ∀ b ∈ as, ∀ c rest, c = ',' ∨ c = close →
      read (write b ++ c :: rest) = some (b, c :: rest))
    (hstarts : ∀ b ∈ as, ∃ c cs, write b = c :: cs ∧ isSpace c = false ∧ c ≠ close)
    (rest : List Char) :
    readEnclosed close read (writeItems write as ++ close :: rest) = some (as, rest) := by
  have hskip : ∀ b ∈ as, ∀ rest, skipSpaces (write b ++ rest) = write b ++ rest := by
    intro b hb rest
    obtain ⟨c, cs, hc, hspace, -⟩ := hstarts b hb
    rw [hc]
    exact skipSpaces_cons hspace _
  have hlength : as.length ≤ (writeItems write as).length := length_le_writeItems fun b hb => by
    obtain ⟨c, cs, hc, -⟩ := hstarts b hb
    rw [hc]
    exact List.cons_ne_nil _ _
  unfold readEnclosed
  cases as with
  | nil =>
    rw [writeItems, List.nil_append, skipSpaces_cons hspace]
    exact if_pos rfl
  | cons a as =>
    obtain ⟨c, cs, hc, hspace', hne⟩ := hstarts a List.mem_cons_self
    have hhead : ∃ ds, writeItems write (a :: as) ++ close :: rest = c :: ds := by
      cases as with
      | nil => exact ⟨cs ++ close :: rest, by rw [writeItems, hc, List.cons_append]⟩
      | cons b as => exact ⟨_, by rw [writeItems_cons, hc, List.cons_append, List.cons_append]⟩
    obtain ⟨ds, hds⟩ := hhead
    rw [hds, skipSpaces_cons hspace']
    dsimp only
    rw [if_neg hne, ← hds]
    apply readSeparated_writeItems hspace hcomma hread hskip
    simp only [List.length_cons, List.length_append] at hlength ⊢
    omega

/-- A dictionary without a key twice is built field by field. -/
lemma foldl_insertField {α : Type} {fields acc : List (String × α)}
    (h : ((acc ++ fields).map Prod.fst).Nodup) :
    fields.foldl insertField acc = acc ++ fields := by
  induction fields generalizing acc with
  | nil => simp
  | cons f fields ih =>
    have happend : acc ++ f :: fields = acc ++ [f] ++ fields := by simp
    have hf : f.1 ∉ acc.map Prod.fst := by
      rw [List.map_append, List.map_cons, List.nodup_append] at h
      exact fun hmem => h.2.2 _ hmem _ List.mem_cons_self rfl
    rw [happend] at h
    rw [List.foldl_cons, insertField, if_neg hf, ih h, happend]

lemma readField_writeField {read : Reader (Json F)} {f : String × Json F} (hf : floats.Lawful)
    {rest : List Char} (hread : read (write floats f.2 ++ rest) = some (f.2, rest)) :
    readField read (writeField (f.1, write floats f.2) ++ rest) = some (f, rest) := by
  obtain ⟨key, v⟩ := f
  have hkey := inverts_readString key.toList (':' :: ' ' :: (write floats v ++ rest)) trivial
  have hskip : skipSpaces (' ' :: (write floats v ++ rest)) = write floats v ++ rest :=
    (startsValue_write hf v).skipSpaces rest
  have hcolon : skipSpaces (':' :: ' ' :: (write floats v ++ rest)) =
      ':' :: ' ' :: (write floats v ++ rest) := skipSpaces_cons rfl _
  simp only [readField, writeField, List.append_assoc, List.cons_append, hkey, hcolon, expect_cons,
    hskip, hread, Option.bind_eq_bind, Option.bind_some, String.ofList_toList]
  rfl

/-- **What is written is read back**, if the reader goes deep enough. -/
theorem readValue_write (hf : floats.Lawful) {fuel : ℕ} {v : Json F} (hnative : v.native)
    (hdepth : v.depth ≤ fuel) {rest : List Char} (hrest : Follows rest) :
    readValue floats fuel (write floats v ++ rest) = some (v, rest) := by
  induction fuel generalizing v rest with
  | zero => exact absurd (depth_pos v) (by omega)
  | succ fuel ih =>
    -- a comma and what closes an array or an object do not go on with a number
    have hfollows : ∀ close : Char, isNumberChar close = false → ∀ c rest, c = ',' ∨ c = close →
        Follows (c :: rest) := by
      rintro close hclose c rest (rfl | rfl) d hd
      · cases hd
        rfl
      · cases hd
        exact hclose
    cases v with
    | null => rfl
    | bool b => cases b <;> rfl
    | int n => exact readValue_int n hrest
    | float x => exact readValue_float hf x hrest
    | str s =>
      have hread := inverts_readString s.toList rest trivial
      show (readString (writeString s.toList ++ rest)).map _ = _
      rw [hread, Option.map_some, String.ofList_toList]
    | arr items =>
      rw [depth_arr] at hdepth
      have hread : readEnclosed ']' (readValue floats fuel)
          (writeItems (write floats) items ++ ']' :: rest) = some (items, rest) := by
        refine readEnclosed_writeItems rfl (by decide) (fun v hv c rest' hc => ?_)
          (fun v _ => ?_) rest
        · have hv' : v.depth ≤ fuel :=
            (List.le_max_of_le (List.mem_map_of_mem hv) le_rfl).trans
              (Nat.le_of_succ_le_succ hdepth)
          exact ih (native_arr.mp hnative v hv) hv' (hfollows ']' rfl c rest' hc)
        · obtain ⟨c, cs, hc, hspace, hclose, -⟩ := startsValue_write hf v
          exact ⟨c, cs, hc, hspace, hclose⟩
      rw [write_arr, List.cons_append, List.append_assoc]
      show (readEnclosed ']' (readValue floats fuel)
        (writeItems (write floats) items ++ ']' :: rest)).map _ = _
      rw [hread]
      rfl
    | obj fields =>
      rw [depth_obj] at hdepth
      obtain ⟨hkeys, hvalues⟩ := native_obj.mp hnative
      have hread : readEnclosed '}' (readField (readValue floats fuel))
          (writeItems (fun f => writeField (f.1, write floats f.2)) fields ++ '}' :: rest) =
            some (fields, rest) := by
        refine readEnclosed_writeItems rfl (by decide) (fun f hmem c rest' hc => ?_)
          (fun f _ => ⟨'"', _, rfl, by decide⟩) rest
        have hf' : f.2.depth ≤ fuel :=
          (List.le_max_of_le (List.mem_map_of_mem hmem) le_rfl).trans
            (Nat.le_of_succ_le_succ hdepth)
        exact readField_writeField hf
          (ih (hvalues f hmem) hf' (hfollows '}' rfl c rest' hc))
      rw [write_obj, List.cons_append, List.append_assoc]
      show (readEnclosed '}' (readField (readValue floats fuel))
        (writeItems (fun f => writeField (f.1, write floats f.2)) fields ++ '}' :: rest)).map _ = _
      rw [hread, Option.map_some, foldl_insertField (by simpa using hkeys), List.nil_append]

lemma length_le_writeField (f : String × List Char) : f.2.length ≤ (writeField f).length := by
  simp only [writeField, List.length_append, List.length_cons]
  omega

lemma depth_le_length (hf : floats.Lawful) (v : Json F) : v.depth ≤ (write floats v).length := by
  have hpos : ∀ v : Json F, 1 ≤ (write floats v).length := fun v => by
    obtain ⟨c, cs, hc, -⟩ := startsValue_write hf v
    rw [hc]
    simp
  induction v using induction with
  | hnull => exact hpos .null
  | hbool b => exact hpos (.bool b)
  | hint n => exact hpos (.int n)
  | hfloat x => exact hpos (.float x)
  | hstr s => exact hpos (.str s)
  | harr items ih =>
    rw [depth_arr, write_arr]
    have hle : (items.map depth).foldr max 0 ≤ (writeItems (write floats) items).length := by
      refine List.max_le_of_forall_le _ _ fun n hn => ?_
      obtain ⟨v, hv, rfl⟩ := List.mem_map.mp hn
      exact (ih v hv).trans (length_write_le_writeItems hv)
    simp only [List.length_cons, List.length_append]
    omega
  | hobj fields ih =>
    rw [depth_obj, write_obj]
    have hle : (fields.map fun f => f.2.depth).foldr max 0 ≤
        (writeItems (fun f => writeField (f.1, write floats f.2)) fields).length := by
      refine List.max_le_of_forall_le _ _ fun n hn => ?_
      obtain ⟨f, hf', rfl⟩ := List.mem_map.mp hn
      have hitem := @length_write_le_writeItems _
        (fun f : String × Json F => writeField (f.1, write floats f.2)) f fields hf'
      exact ((ih f hf').trans (length_le_writeField (f.1, write floats f.2))).trans hitem
    simp only [List.length_cons, List.length_append]
    omega

/-- **The round trip of a JSON value.** -/
theorem loads_write (hf : floats.Lawful) {v : Json F} (hnative : v.native) :
    loads floats (write floats v) = some v := by
  have hdepth := depth_le_length hf v
  have hskip := (startsValue_write hf v).skipSpaces []
  have hread := @readValue_write _ _ hf _ v hnative (hdepth.trans (Nat.le_succ _)) []
    (by simp [Follows])
  rw [List.append_nil] at hskip hread
  unfold loads whole
  dsimp only
  rw [hskip, hread]
  rfl

end Json
