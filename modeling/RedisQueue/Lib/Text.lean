import Mathlib.Data.Nat.Notation
import Mathlib.Data.Int.Notation
import Mathlib.Data.Char
import Mathlib.Data.List.Count
import Mathlib.Data.List.TakeWhile
import Mathlib.Tactic.Lemma
import Mathlib.Tactic.IntervalCases

/-!
# Texts that are written and read back

Texts are lists of characters. A `Reader` takes a value off the front of a text and leaves the rest;
it `Inverts` a writer if it gives back every value that is written, whatever follows (as far as a
given predicate allows it to follow). Three kinds of texts are treated:

* decimal integers, of any length (`writeInt`) and of a fixed width (`padded`);
* JSON strings with every character outside ASCII escaped (`writeString`);
* JSON arrays of anything that has a reader (`writeArray`).

Texts that are joined by a separator are taken apart again just if none of them contains it
(`splitOn_intercalate_iff`).
-/

namespace Text

/-- Takes a value off the front of a text. -/
abbrev Reader (α : Type) := List Char → Option (α × List Char)

/-- `read` gives back what `write` has written, if `follow` allows what comes after it. -/
def Inverts {α : Type} (follow : List Char → Prop) (read : Reader α) (write : α → List Char) :
    Prop :=
  ∀ a rest, follow rest → read (write a ++ rest) = some (a, rest)

lemma Inverts.mono {α : Type} {follow follow' : List Char → Prop} {read : Reader α}
    {write : α → List Char} (h : Inverts follow read write)
    (hfollow : ∀ rest, follow' rest → follow rest) : Inverts follow' read write :=
  fun a rest hrest => h a rest (hfollow rest hrest)

/-- The text consists of one value. -/
def whole {α : Type} (read : Reader α) (text : List Char) : Option α :=
  match read text with
  | some (a, []) => some a
  | _ => none

lemma whole_write {α : Type} {follow : List Char → Prop} {read : Reader α}
    {write : α → List Char} (h : Inverts follow read write) (hnil : follow []) (a : α) :
    whole read (write a) = some a := by
  have hread := h a [] hnil
  rw [List.append_nil] at hread
  simp [whole, hread]

/-- Takes the character `c`. -/
def expect (c : Char) : List Char → Option (List Char)
  | [] => none
  | d :: rest => if d = c then some rest else none

@[simp] lemma expect_cons (c : Char) (rest : List Char) : expect c (c :: rest) = some rest := by
  simp [expect]

/-! ## Decimal integers -/

/-- What follows does not start with a digit. -/
def NoDigit (rest : List Char) : Prop := ∀ c ∈ rest.head?, c.isDigit = false

/-- The digits at the front. -/
def readNat (text : List Char) : Option (ℕ × List Char) :=
  match text.takeWhile Char.isDigit with
  | [] => none
  | digits => some (Nat.ofDigitChars 10 digits 0, text.dropWhile Char.isDigit)

/-- An integer as `str` writes it. -/
def writeInt : ℤ → List Char
  | .ofNat n => Nat.toDigits 10 n
  | .negSucc n => '-' :: Nat.toDigits 10 (n + 1)

/-- Digits after an optional minus sign. -/
def readInt : Reader ℤ
  | '-' :: text => (readNat text).map fun r => (-(r.1 : ℤ), r.2)
  | text => (readNat text).map fun r => ((r.1 : ℤ), r.2)

lemma isDigit_toDigits (n : ℕ) : ∀ c ∈ Nat.toDigits 10 n, c.isDigit = true :=
  fun _ hc => Nat.isDigit_of_mem_toDigits (by omega) (by omega) hc

lemma takeWhile_digits {digits rest : List Char} (h : ∀ c ∈ digits, c.isDigit = true)
    (hrest : NoDigit rest) : (digits ++ rest).takeWhile Char.isDigit = digits := by
  rw [List.takeWhile_append_of_pos h]
  cases rest with
  | nil => simp
  | cons c rest =>
    have hc : c.isDigit = false := hrest c rfl
    simp [hc]

lemma dropWhile_digits {digits rest : List Char} (h : ∀ c ∈ digits, c.isDigit = true)
    (hrest : NoDigit rest) : (digits ++ rest).dropWhile Char.isDigit = rest := by
  rw [List.dropWhile_append_of_pos h]
  cases rest with
  | nil => simp
  | cons c rest =>
    have hc : c.isDigit = false := hrest c rfl
    simp [hc]

theorem inverts_readNat : Inverts NoDigit readNat (Nat.toDigits 10) := by
  intro n rest hrest
  have hdigits := isDigit_toDigits n
  have hne : Nat.toDigits 10 n ≠ [] := Nat.toDigits_ne_nil
  unfold readNat
  rw [takeWhile_digits hdigits hrest, dropWhile_digits hdigits hrest]
  split
  · next h => exact absurd h hne
  · rw [Nat.ofDigitChars_ten_toDigits]

/-- A text of digits does not start with a sign. -/
lemma readInt_toDigits (n : ℕ) (rest : List Char) :
    readInt (Nat.toDigits 10 n ++ rest) =
      (readNat (Nat.toDigits 10 n ++ rest)).map fun r => ((r.1 : ℤ), r.2) := by
  have hhead : ∀ text, Nat.toDigits 10 n ++ rest ≠ '-' :: text := by
    intro text h
    cases hd : Nat.toDigits 10 n with
    | nil => exact Nat.toDigits_ne_nil hd
    | cons c cs =>
      have hc : c.isDigit = true := isDigit_toDigits n c (by simp [hd])
      rw [hd, List.cons_append, List.cons.injEq] at h
      rw [h.1] at hc
      exact absurd hc (by decide)
  unfold readInt
  split
  · next text h => exact absurd h (hhead text)
  · rfl

theorem inverts_readInt : Inverts NoDigit readInt writeInt := by
  intro n rest hrest
  cases n with
  | ofNat n =>
    show readInt (Nat.toDigits 10 n ++ rest) = _
    rw [readInt_toDigits, inverts_readNat n rest hrest]
    rfl
  | negSucc n =>
    show ((readNat (Nat.toDigits 10 (n + 1) ++ rest)).map fun r => (-(r.1 : ℤ), r.2)) = _
    rw [inverts_readNat (n + 1) rest hrest]
    rfl

lemma whole_writeInt (n : ℤ) : whole readInt (writeInt n) = some n :=
  whole_write inverts_readInt (by simp [NoDigit]) n

/-! ## Numbers of a fixed width -/

/-- The `width` last digits of a number. -/
def padded : ℕ → ℕ → List Char
  | 0, _ => []
  | width + 1, n => padded width (n / 10) ++ [Nat.digitChar (n % 10)]

/-- At least `least` and at most `most` digits. -/
def readDigits (least most : ℕ) : Reader (List Char) := fun text =>
  let digits := (text.take most).takeWhile Char.isDigit
  if least ≤ digits.length then some (digits, text.drop digits.length) else none

/-- A number of at least `least` and at most `most` digits. -/
def readNumber (least most : ℕ) : Reader ℕ := fun text =>
  (readDigits least most text).map fun r => (Nat.ofDigitChars 10 r.1 0, r.2)

@[simp] lemma length_padded (width n : ℕ) : (padded width n).length = width := by
  induction width generalizing n with
  | zero => rfl
  | succ width ih => simp [padded, ih]

lemma isDigit_padded (width n : ℕ) : ∀ c ∈ padded width n, c.isDigit = true := by
  induction width generalizing n with
  | zero => simp [padded]
  | succ width ih =>
    intro c hc
    rcases List.mem_append.mp hc with hc | hc
    · exact ih (n / 10) c hc
    · rw [List.mem_singleton.mp hc, Nat.isDigit_digitChar]
      exact decide_eq_true (Nat.mod_lt n (by omega))

lemma ofDigitChars_padded (width : ℕ) {n : ℕ} (h : n < 10 ^ width) :
    Nat.ofDigitChars 10 (padded width n) 0 = n := by
  induction width generalizing n with
  | zero =>
    have hn : n = 0 := by simpa using h
    simp [padded, hn]
  | succ width ih =>
    have hdiv : n / 10 < 10 ^ width := by
      rw [Nat.div_lt_iff_lt_mul (by omega), ← Nat.pow_succ]
      exact h
    have hmod : n % 10 < 10 := Nat.mod_lt n (by omega)
    rw [padded, Nat.ofDigitChars_append, ih hdiv, Nat.ofDigitChars_cons_digitChar_of_lt_ten hmod,
      Nat.ofDigitChars_nil]
    omega

lemma readDigits_padded {least width : ℕ} (h : least ≤ width) (n : ℕ) (rest : List Char) :
    readDigits least width (padded width n ++ rest) = some (padded width n, rest) := by
  have htake : (padded width n ++ rest).take width = padded width n :=
    List.take_left' (length_padded width n)
  have hall : (padded width n).takeWhile Char.isDigit = padded width n :=
    List.takeWhile_eq_self_iff.mpr (isDigit_padded width n)
  have hdrop : (padded width n ++ rest).drop width = rest :=
    List.drop_left' (length_padded width n)
  simp [readDigits, htake, hall, h, hdrop]

lemma readNumber_padded {least width n : ℕ} (h : least ≤ width) (hn : n < 10 ^ width)
    (rest : List Char) : readNumber least width (padded width n ++ rest) = some (n, rest) := by
  simp [readNumber, readDigits_padded h, ofDigitChars_padded width hn]

/-! ## JSON strings -/

/-- Four hexadecimal digits. -/
def hex4 (n : ℕ) : List Char :=
  [Nat.digitChar (n / 4096 % 16), Nat.digitChar (n / 256 % 16), Nat.digitChar (n / 16 % 16),
    Nat.digitChar (n % 16)]

def hexValue (c : Char) : Option ℕ :=
  if '0' ≤ c ∧ c ≤ '9' then some (c.toNat - 48)
  else if 'a' ≤ c ∧ c ≤ 'f' then some (c.toNat - 87)
  else if 'A' ≤ c ∧ c ≤ 'F' then some (c.toNat - 55)
  else none

def readHex4 : Reader ℕ
  | a :: b :: c :: d :: rest => do
    let a ← hexValue a
    let b ← hexValue b
    let c ← hexValue c
    let d ← hexValue d
    return (a * 4096 + b * 256 + c * 16 + d, rest)
  | _ => none

lemma hexValue_digitChar {n : ℕ} (h : n < 16) : hexValue (Nat.digitChar n) = some n := by
  interval_cases n <;> rfl

lemma readHex4_hex4 {n : ℕ} (h : n < 65536) (rest : List Char) :
    readHex4 (hex4 n ++ rest) = some (n, rest) := by
  have hsum : n / 4096 % 16 * 4096 + n / 256 % 16 * 256 + n / 16 % 16 * 16 + n % 16 = n := by omega
  simp [readHex4, hex4, hexValue_digitChar, Nat.mod_lt, hsum]

/-- The escapes that consist of a letter after the backslash. -/
def shortEscape : Char → Option Char
  | '"' => some '"'
  | '\\' => some '\\'
  | '\n' => some 'n'
  | '\r' => some 'r'
  | '\t' => some 't'
  | '\x0c' => some 'f'
  | '\x08' => some 'b'
  | _ => none

/-- A character of a JSON string, in ASCII. -/
def escape (c : Char) : List Char :=
  match shortEscape c with
  | some e => ['\\', e]
  | none =>
    if ' ' ≤ c ∧ c ≤ '~' then [c]
    else if c.toNat < 0x10000 then '\\' :: 'u' :: hex4 c.toNat
    else '\\' :: 'u' :: (hex4 (0xd800 + (c.toNat - 0x10000) / 1024) ++
      '\\' :: 'u' :: hex4 (0xdc00 + (c.toNat - 0x10000) % 1024))

/-- What a backslash and a letter stand for. -/
def unescape : Char → Option Char
  | '"' => some '"'
  | '\\' => some '\\'
  | '/' => some '/'
  | 'n' => some '\n'
  | 'r' => some '\r'
  | 't' => some '\t'
  | 'f' => some '\x0c'
  | 'b' => some '\x08'
  | _ => none

/-- The character for a code unit, which may be the first of a surrogate pair. A surrogate on its
own is no character. -/
def readCodeUnit (n : ℕ) (rest : List Char) : Option (Char × List Char) :=
  if 0xd800 ≤ n ∧ n ≤ 0xdbff then
    match rest with
    | '\\' :: 'u' :: rest => do
      let (m, rest) ← readHex4 rest
      if 0xdc00 ≤ m ∧ m ≤ 0xdfff then
        some (Char.ofNat (0x10000 + (n - 0xd800) * 1024 + (m - 0xdc00)), rest)
      else none
    | _ => none
  else if 0xdc00 ≤ n ∧ n ≤ 0xdfff then none
  else some (Char.ofNat n, rest)

/-- One character of a JSON string. -/
def readChar : Reader Char
  | '\\' :: 'u' :: rest => do
    let (n, rest) ← readHex4 rest
    readCodeUnit n rest
  | '\\' :: e :: rest => (unescape e).map fun c => (c, rest)
  | c :: rest => if c = '\\' ∨ c = '"' ∨ c < ' ' then none else some (c, rest)
  | [] => none

/-- The characters up to the closing quotation mark, at most `fuel - 1` of them. -/
def readBody : ℕ → Reader (List Char)
  | 0, _ => none
  | _ + 1, '"' :: rest => some ([], rest)
  | fuel + 1, text => do
    let (c, rest) ← readChar text
    let (cs, rest) ← readBody fuel rest
    return (c :: cs, rest)

def readString : Reader (List Char)
  | '"' :: text => readBody text.length text
  | _ => none

def writeString (s : List Char) : List Char := '"' :: (s.flatMap escape ++ ['"'])

lemma unescape_shortEscape {c e : Char} (h : shortEscape c = some e) :
    e ≠ 'u' ∧ unescape e = some c := by
  unfold shortEscape at h
  split at h <;> cases h <;> decide

lemma toNat_lt (c : Char) : c.toNat < 0xd800 ∨ 0xdfff < c.toNat ∧ c.toNat < 0x110000 := c.valid

lemma readCodeUnit_single {n : ℕ} (h : n < 0xd800 ∨ 0xdfff < n) (rest : List Char) :
    readCodeUnit n rest = some (Char.ofNat n, rest) := by
  have hhigh : ¬(0xd800 ≤ n ∧ n ≤ 0xdbff) := by omega
  have hlow : ¬(0xdc00 ≤ n ∧ n ≤ 0xdfff) := by omega
  unfold readCodeUnit
  rw [if_neg hhigh, if_neg hlow]

lemma readCodeUnit_pair {n m : ℕ} (hn : 0xd800 ≤ n ∧ n ≤ 0xdbff) (hm : 0xdc00 ≤ m ∧ m ≤ 0xdfff)
    (rest : List Char) : readCodeUnit n ('\\' :: 'u' :: (hex4 m ++ rest)) =
      some (Char.ofNat (0x10000 + (n - 0xd800) * 1024 + (m - 0xdc00)), rest) := by
  have hm' : m < 65536 := by omega
  unfold readCodeUnit
  rw [if_pos hn]
  show (readHex4 (hex4 m ++ rest)).bind _ = _
  rw [readHex4_hex4 hm']
  exact if_pos hm

/-- Code points up to `0xffff` are written as one code unit, the others as a surrogate pair. -/
lemma readChar_unicode {c : Char} {rest : List Char} :
    readChar ((if c.toNat < 0x10000 then '\\' :: 'u' :: hex4 c.toNat
      else '\\' :: 'u' :: (hex4 (0xd800 + (c.toNat - 0x10000) / 1024) ++
        '\\' :: 'u' :: hex4 (0xdc00 + (c.toNat - 0x10000) % 1024))) ++ rest) = some (c, rest) := by
  have hvalid := toNat_lt c
  split
  · next hsmall =>
    have hsingle : c.toNat < 0xd800 ∨ 0xdfff < c.toNat := by omega
    show (readHex4 (hex4 c.toNat ++ rest)).bind _ = _
    rw [readHex4_hex4 hsmall]
    show readCodeUnit c.toNat rest = _
    rw [readCodeUnit_single hsingle, Char.ofNat_toNat]
  · next hbig =>
    obtain ⟨v, hv⟩ : ∃ v, v = c.toNat - 0x10000 := ⟨_, rfl⟩
    rw [← hv]
    have hhi : 0xd800 + v / 1024 < 65536 := by omega
    have hhigh : 0xd800 ≤ 0xd800 + v / 1024 ∧ 0xd800 + v / 1024 ≤ 0xdbff := by omega
    have hlow : 0xdc00 ≤ 0xdc00 + v % 1024 ∧ 0xdc00 + v % 1024 ≤ 0xdfff := by omega
    -- the two units give back the code point
    have hpoint : 0x10000 + (0xd800 + v / 1024 - 0xd800) * 1024 + (0xdc00 + v % 1024 - 0xdc00) =
        c.toNat := by omega
    simp only [List.cons_append, List.append_assoc]
    show (readHex4 (hex4 (0xd800 + v / 1024) ++ _)).bind _ = _
    rw [readHex4_hex4 hhi]
    show readCodeUnit _ ('\\' :: 'u' :: (hex4 (0xdc00 + v % 1024) ++ rest)) = _
    rw [readCodeUnit_pair hhigh hlow, hpoint, Char.ofNat_toNat]

theorem readChar_escape (c : Char) (rest : List Char) :
    readChar (escape c ++ rest) = some (c, rest) := by
  unfold escape
  split
  · next e he =>
    obtain ⟨hu, hc⟩ := unescape_shortEscape he
    show readChar ('\\' :: e :: rest) = _
    unfold readChar
    split
    · next h =>
      exact absurd (List.cons.inj (List.cons.inj h).2).1 hu
    · next h =>
      obtain ⟨rfl, rfl⟩ := List.cons.inj (List.cons.inj h).2
      simp [hc]
    · next hslash h =>
      obtain ⟨rfl, rfl⟩ := List.cons.inj h
      exact (hslash e rest rfl rfl).elim
    · next h => cases h
  · next hnone =>
    split
    · next hascii =>
      have hslash : c ≠ '\\' := by
        intro h
        exact absurd (h ▸ hnone) (by decide)
      have hquote : c ≠ '"' := by
        intro h
        exact absurd (h ▸ hnone) (by decide)
      simp [readChar, hslash, hquote, hascii.1]
    · exact readChar_unicode

/-- An escape does not start with a quotation mark. -/
lemma head_escape (c : Char) : ∃ d ds, escape c = d :: ds ∧ d ≠ '"' := by
  unfold escape
  split
  · exact ⟨_, _, rfl, by decide⟩
  · next hnone =>
    split
    · refine ⟨c, [], rfl, ?_⟩
      intro h
      exact absurd (h ▸ hnone) (by decide)
    · split <;> exact ⟨_, _, rfl, by decide⟩

lemma readBody_escape {fuel : ℕ} {s : List Char} (h : s.length < fuel) (rest : List Char) :
    readBody fuel (s.flatMap escape ++ '"' :: rest) = some (s, rest) := by
  induction s generalizing fuel with
  | nil =>
    cases fuel with
    | zero => omega
    | succ fuel => rfl
  | cons c s ih =>
    cases fuel with
    | zero => omega
    | succ fuel =>
      have hrest : s.length < fuel := by simpa using h
      have hread := readChar_escape c (s.flatMap escape ++ '"' :: rest)
      obtain ⟨d, ds, hd, hne⟩ := head_escape c
      rw [hd] at hread
      rw [List.flatMap_cons, hd]
      simp only [List.cons_append, List.append_assoc] at hread ⊢
      rw [readBody, hread]
      · show (readBody fuel (s.flatMap escape ++ '"' :: rest)).bind _ = _
        rw [ih hrest]
        rfl
      · intro rest' h'
        exact hne (List.cons.inj h').1

lemma length_le_flatMap_escape (s : List Char) : s.length ≤ (s.flatMap escape).length := by
  induction s with
  | nil => rfl
  | cons c s ih =>
    obtain ⟨d, ds, hd, -⟩ := head_escape c
    rw [List.flatMap_cons, hd]
    simp only [List.length_cons, List.length_append]
    omega

theorem inverts_readString : Inverts (fun _ => True) readString writeString := by
  intro s rest _
  have hlength := length_le_flatMap_escape s
  have happend : s.flatMap escape ++ ['"'] ++ rest = s.flatMap escape ++ '"' :: rest := by simp
  show readBody (s.flatMap escape ++ ['"'] ++ rest).length (s.flatMap escape ++ ['"'] ++ rest) = _
  rw [happend]
  apply readBody_escape
  simp only [List.length_append, List.length_cons]
  omega

/-! ## JSON arrays -/

def isSpace (c : Char) : Bool := c == ' ' || c == '\t' || c == '\n' || c == '\r'

def skipSpaces (text : List Char) : List Char := text.dropWhile isSpace

/-- Items separated by commas, up to the character `close`, at most `fuel` of them. -/
def readSeparated {α : Type} (close : Char) (read : Reader α) : ℕ → Reader (List α)
  | 0, _ => none
  | fuel + 1, text => do
    let (a, rest) ← read text
    match skipSpaces rest with
    | [] => none
    | c :: rest =>
      if c = close then return ([a], rest)
      else if c = ',' then do
        let (as, rest) ← readSeparated close read fuel (skipSpaces rest)
        return (a :: as, rest)
      else none

/-- Any number of items, up to the character `close`. -/
def readEnclosed {α : Type} (close : Char) (read : Reader α) : Reader (List α) := fun text =>
  match skipSpaces text with
  | [] => none
  | c :: rest =>
    if c = close then some ([], rest) else readSeparated close read (c :: rest).length (c :: rest)

def readArray {α : Type} (read : Reader α) : Reader (List α) := fun text => do
  let rest ← expect '[' (skipSpaces text)
  readEnclosed ']' read rest

/-- `json.loads` of an array. -/
def loads {α : Type} (read : Reader α) (text : List Char) : Option (List α) :=
  whole (fun text => (readArray read text).map fun r => (r.1, skipSpaces r.2)) text

def writeItems {α : Type} (write : α → List Char) : List α → List Char
  | [] => []
  | [a] => write a
  | a :: as => write a ++ ',' :: ' ' :: writeItems write as

def writeArray {α : Type} (write : α → List Char) (as : List α) : List Char :=
  '[' :: (writeItems write as ++ [']'])

/-- An item is followed by a comma or by the closing bracket. -/
def Delimited (rest : List Char) : Prop := ∃ c ∈ rest.head?, c = ',' ∨ c = ']'

/-- What is written starts with a character that is neither a space nor a closing bracket. -/
def Starts {α : Type} (write : α → List Char) : Prop :=
  ∀ a, ∃ c cs, write a = c :: cs ∧ isSpace c = false ∧ c ≠ ']'

@[simp] lemma skipSpaces_cons {c : Char} (h : isSpace c = false) (cs : List Char) :
    skipSpaces (c :: cs) = c :: cs := by
  simp [skipSpaces, h]

section Arrays
variable {α : Type} {read : Reader α} {write : α → List Char}

lemma skipSpaces_write (h : Starts write) (a : α) (rest : List Char) :
    skipSpaces (write a ++ rest) = write a ++ rest := by
  obtain ⟨c, cs, hc, hspace, -⟩ := h a
  rw [hc, List.cons_append, skipSpaces_cons hspace]

lemma writeItems_cons (a b : α) (as : List α) :
    writeItems write (a :: b :: as) = write a ++ ',' :: ' ' :: writeItems write (b :: as) := rfl

lemma writeItems_map {β : Type} (write : β → List Char) (f : α → β) (as : List α) :
    writeItems write (as.map f) = writeItems (fun a => write (f a)) as := by
  induction as with
  | nil => rfl
  | cons a as ih =>
    cases as with
    | nil => rfl
    | cons b as =>
      rw [List.map_cons, List.map_cons, writeItems_cons, writeItems_cons, ← List.map_cons, ih]

lemma skipSpaces_writeItems (h : Starts write) (a : α) (as : List α) (rest : List Char) :
    skipSpaces (writeItems write (a :: as) ++ rest) = writeItems write (a :: as) ++ rest := by
  cases as with
  | nil => exact skipSpaces_write h a rest
  | cons b as =>
    rw [writeItems_cons, List.append_assoc]
    exact skipSpaces_write h a _

/-- What is written with commas is read up to the character that closes it. -/
lemma readSeparated_writeItems {close : Char} (hclose : isSpace close = false)
    (hcomma : close ≠ ',') {a : α} {as : List α}
    (hread : ∀ b ∈ a :: as, ∀ c rest, c = ',' ∨ c = close →
      read (write b ++ c :: rest) = some (b, c :: rest))
    (hstarts : ∀ b ∈ a :: as, ∀ rest, skipSpaces (write b ++ rest) = write b ++ rest)
    {fuel : ℕ} (h : as.length < fuel) (rest : List Char) :
    readSeparated close read fuel (writeItems write (a :: as) ++ close :: rest) =
      some (a :: as, rest) := by
  induction as generalizing a fuel with
  | nil =>
    cases fuel with
    | zero => omega
    | succ fuel =>
      have ha := hread a List.mem_cons_self close rest (.inr rfl)
      show (read (write a ++ close :: rest)).bind _ = _
      rw [ha, Option.bind_some]
      dsimp only
      rw [skipSpaces_cons hclose]
      exact if_pos rfl
  | cons b as ih =>
    cases fuel with
    | zero => omega
    | succ fuel =>
      have hrest : as.length < fuel := by simpa using h
      have ha := hread a List.mem_cons_self ','
        (' ' :: (writeItems write (b :: as) ++ close :: rest)) (.inl rfl)
      have hskip : skipSpaces (' ' :: (writeItems write (b :: as) ++ close :: rest)) =
          writeItems write (b :: as) ++ close :: rest := by
        have hb := hstarts b (List.mem_cons_of_mem _ List.mem_cons_self)
        cases as with
        | nil => exact hb _
        | cons b' as =>
          rw [writeItems_cons, List.append_assoc]
          exact hb _
      have hread' := ih (fun b' hb' => hread b' (List.mem_cons_of_mem _ hb'))
        (fun b' hb' => hstarts b' (List.mem_cons_of_mem _ hb')) hrest
      rw [writeItems_cons, List.append_assoc]
      show (read (write a ++
        ',' :: ' ' :: (writeItems write (b :: as) ++ close :: rest))).bind _ = _
      rw [ha, Option.bind_some]
      dsimp only
      rw [skipSpaces_cons rfl]
      dsimp only
      rw [if_neg hcomma.symm, if_pos rfl, hskip, hread']
      rfl

lemma length_le_writeItems {as : List α} (h : ∀ a ∈ as, write a ≠ []) :
    as.length ≤ (writeItems write as).length := by
  induction as with
  | nil => rfl
  | cons a as ih =>
    have ha := List.length_pos_iff.mpr (h a List.mem_cons_self)
    have has := ih fun b hb => h b (List.mem_cons_of_mem _ hb)
    cases as with
    | nil => exact ha
    | cons b as =>
      rw [writeItems_cons]
      simp only [List.length_append, List.length_cons] at has ⊢
      omega

lemma length_write_le_writeItems {a : α} {as : List α} (h : a ∈ as) :
    (write a).length ≤ (writeItems write as).length := by
  induction as with
  | nil => cases h
  | cons b as ih =>
    cases as with
    | nil =>
      obtain rfl := List.mem_singleton.mp h
      exact le_refl _
    | cons b' as =>
      rw [writeItems_cons]
      simp only [List.length_append, List.length_cons]
      rcases List.mem_cons.mp h with rfl | h
      · omega
      · have hle := ih h
        omega

theorem inverts_readArray (hread : Inverts Delimited read write) (hstarts : Starts write) :
    Inverts (fun _ => True) (readArray read) (writeArray write) := by
  intro as rest _
  have hopen : skipSpaces (writeArray write as ++ rest) =
      '[' :: (writeItems write as ++ ']' :: rest) := by
    simp [writeArray, isSpace]
  simp only [readArray, hopen, expect_cons, Option.bind_eq_bind, Option.bind_some]
  cases as with
  | nil => rfl
  | cons a as =>
    have hlength : (a :: as).length ≤ (writeItems write (a :: as)).length :=
      length_le_writeItems fun b _ => by
        obtain ⟨c, cs, hc, -⟩ := hstarts b
        rw [hc]
        exact List.cons_ne_nil _ _
    obtain ⟨c, cs, hc, -, hne⟩ := hstarts a
    have hhead : ∃ ds, writeItems write (a :: as) ++ ']' :: rest = c :: ds := by
      cases as with
      | nil => exact ⟨cs ++ ']' :: rest, by rw [writeItems, hc, List.cons_append]⟩
      | cons b as => exact ⟨_, by rw [writeItems_cons, hc, List.cons_append, List.cons_append]⟩
    obtain ⟨ds, hds⟩ := hhead
    unfold readEnclosed
    rw [skipSpaces_writeItems hstarts, hds]
    dsimp only
    rw [if_neg hne, ← hds]
    apply readSeparated_writeItems rfl (by decide)
    · exact fun b _ c rest hc => hread b (c :: rest) ⟨c, rfl, hc⟩
    · exact fun b _ rest => skipSpaces_write hstarts b rest
    · simp only [List.length_cons, List.length_append] at hlength ⊢
      omega

theorem loads_writeArray (hread : Inverts Delimited read write) (hstarts : Starts write)
    (as : List α) : loads read (writeArray write as) = some as := by
  have harray := inverts_readArray hread hstarts as [] trivial
  rw [List.append_nil] at harray
  simp [loads, whole, harray, skipSpaces]

end Arrays

/-! ## Arrays of integers and of strings -/

/-- The integer at the front, in the form in which `str` writes it. -/
def readJsonInt : Reader ℤ := fun text => do
  let (n, rest) ← readInt text
  if writeInt n ++ rest = text then return (n, rest) else none

theorem inverts_readJsonInt : Inverts Delimited readJsonInt writeInt := by
  intro n rest hrest
  have hdigit : NoDigit rest := by
    intro c hc
    obtain ⟨d, hd, hor⟩ := hrest
    obtain rfl : d = c := Option.mem_unique hd hc
    rcases hor with rfl | rfl <;> rfl
  have hread := inverts_readInt n rest hdigit
  simp [readJsonInt, hread]

lemma starts_writeInt : Starts writeInt := by
  intro n
  cases n with
  | ofNat n =>
    cases hd : Nat.toDigits 10 n with
    | nil => exact absurd hd Nat.toDigits_ne_nil
    | cons c cs =>
      have hc : c.isDigit = true := isDigit_toDigits n c (by simp [hd])
      refine ⟨c, cs, hd, ?_, ?_⟩
      · simp only [isSpace, Bool.or_eq_false_iff, beq_eq_false_iff_ne]
        refine ⟨⟨⟨?_, ?_⟩, ?_⟩, ?_⟩ <;> rintro rfl <;> exact absurd hc (by decide)
      · rintro rfl
        exact absurd hc (by decide)
  | negSucc n => exact ⟨'-', _, rfl, rfl, by decide⟩

lemma starts_writeString : Starts writeString := fun _ => ⟨'"', _, rfl, rfl, by decide⟩

/-! ## Joined texts -/

section Joined
variable {α : Type} [DecidableEq α]

/-- Every separator ends a part. -/
lemma length_splitOn (a : α) (l : List α) : (l.splitOn a).length = l.count a + 1 := by
  induction l with
  | nil => simp
  | cons b l ih =>
    rw [List.splitOn_cons_eq_if_modifyHead]
    by_cases h : b = a
    · simp [h, ih]
    · simp [h, ih]

lemma count_intercalate (a : α) (l : List α) (ls : List (List α)) :
    ([a].intercalate (l :: ls)).count a = ((l :: ls).map (List.count a)).sum + ls.length := by
  induction ls generalizing l with
  | nil => simp
  | cons l' ls ih =>
    rw [List.intercalate_cons_cons, List.count_append, List.count_append, ih]
    simp
    omega

/-- Joining and splitting gives a part more for each separator in the parts. -/
lemma length_splitOn_intercalate (a : α) {ls : List (List α)} (h : ls ≠ []) :
    (([a].intercalate ls).splitOn a).length = ls.length + (ls.map (List.count a)).sum := by
  cases ls with
  | nil => exact absurd rfl h
  | cons l ls =>
    rw [length_splitOn, count_intercalate, List.length_cons]
    omega

/-- Splitting undoes joining just if no part contains the separator. -/
lemma splitOn_intercalate_iff (a : α) {ls : List (List α)} (h : ls ≠ []) :
    ([a].intercalate ls).splitOn a = ls ↔ ∀ l ∈ ls, a ∉ l := by
  constructor
  · intro heq l hl
    have hlength := length_splitOn_intercalate a h
    have hsum : (ls.map (List.count a)).sum = 0 := by
      rw [heq] at hlength
      omega
    have hzero := List.sum_eq_zero_iff_forall_eq_nat.mp hsum _ (List.mem_map_of_mem hl)
    exact List.count_eq_zero.mp hzero
  · exact fun hfree => List.splitOn_intercalate a hfree h

end Joined

end Text
