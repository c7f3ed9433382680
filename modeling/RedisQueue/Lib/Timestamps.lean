import RedisQueue.Lib.Text

/-!
# Dates and times

`DateTime` is a date of the Gregorian calendar with a time of the day to the microsecond; only valid
ones can be built. The module has the ISO 8601 format with the fraction of the second, its parser,
and the number of seconds since the epoch.
-/

/-- The rule for leap years. -/
def isLeap (year : ℕ) : Bool := year % 4 == 0 && (year % 100 != 0 || year % 400 == 0)

def daysInMonth (year month : ℕ) : ℕ :=
  if month = 2 then if isLeap year then 29 else 28
  else if month = 4 ∨ month = 6 ∨ month = 9 ∨ month = 11 then 30
  else 31

lemma daysInMonth_le (year month : ℕ) : daysInMonth year month ≤ 31 := by
  unfold daysInMonth
  split
  · split <;> omega
  · split <;> omega

/-- The values that the constructor of a date with a time accepts. -/
def ValidDateTime (year month day hour minute second microsecond : ℕ) : Prop :=
  (1 ≤ year ∧ year ≤ 9999) ∧ (1 ≤ month ∧ month ≤ 12) ∧ (1 ≤ day ∧ day ≤ daysInMonth year month) ∧
    hour < 24 ∧ minute < 60 ∧ second < 60 ∧ microsecond < 1000000

instance (year month day hour minute second microsecond : ℕ) :
    Decidable (ValidDateTime year month day hour minute second microsecond) :=
  inferInstanceAs (Decidable (_ ∧ _))

structure DateTime where
  year : ℕ
  month : ℕ
  day : ℕ
  hour : ℕ
  minute : ℕ
  second : ℕ
  microsecond : ℕ
  valid : ValidDateTime year month day hour minute second microsecond
deriving DecidableEq

namespace DateTime

open Text

def ofFields (year month day hour minute second microsecond : ℕ) : Option DateTime :=
  if h : ValidDateTime year month day hour minute second microsecond then
    some ⟨year, month, day, hour, minute, second, microsecond, h⟩
  else none

/-! ## The ISO format -/

/-- `strftime('%Y-%m-%dT%H:%M:%S.%fZ')` -/
def format (t : DateTime) : List Char :=
  padded 4 t.year ++ '-' :: (padded 2 t.month ++ '-' :: (padded 2 t.day ++ 'T' ::
    (padded 2 t.hour ++ ':' :: (padded 2 t.minute ++ ':' :: (padded 2 t.second ++ '.' ::
      (padded 6 t.microsecond ++ ['Z']))))))

/-- The fraction of a second, filled up with zeros on the right. -/
def readFraction (text : List Char) : Option (ℕ × List Char) := do
  let text ← expect '.' text
  let (digits, text) ← readDigits 1 6 text
  return (Nat.ofDigitChars 10 digits 0 * 10 ^ (6 - digits.length), text)

/-- A number of at least `least` and at most `most` digits, and the character after it. -/
def readBefore (least most : ℕ) (c : Char) (text : List Char) : Option (ℕ × List Char) := do
  let (n, text) ← readNumber least most text
  let text ← expect c text
  return (n, text)

/-- `strptime`, with or without the fraction of the second. -/
def parse (fraction : Bool) (text : List Char) : Option DateTime := do
  let (year, text) ← readBefore 4 4 '-' text
  let (month, text) ← readBefore 1 2 '-' text
  let (day, text) ← readBefore 1 2 'T' text
  let (hour, text) ← readBefore 1 2 ':' text
  let (minute, text) ← readBefore 1 2 ':' text
  let (second, text) ← readNumber 1 2 text
  let (microsecond, text) ← if fraction then readFraction text else some (0, text)
  let text ← expect 'Z' text
  if text = [] then ofFields year month day hour minute second microsecond else none

lemma readFraction_padded {n : ℕ} (h : n < 1000000) (rest : List Char) :
    readFraction ('.' :: (padded 6 n ++ rest)) = some (n, rest) := by
  have hn : n < 10 ^ 6 := by omega
  simp [readFraction, readDigits_padded, ofDigitChars_padded 6 hn]

lemma readBefore_padded {least width n : ℕ} (h : least ≤ width) (hn : n < 10 ^ width) (c : Char)
    (rest : List Char) :
    readBefore least width c (padded width n ++ c :: rest) = some (n, rest) := by
  simp [readBefore, readNumber_padded h hn]

theorem parse_format (t : DateTime) : parse true t.format = some t := by
  obtain ⟨year, month, day, hour, minute, second, microsecond, hvalid⟩ := t
  have hdays := daysInMonth_le year month
  obtain ⟨hyear, hmonth, hday, hhour, hminute, hsecond, hmicrosecond⟩ := id hvalid
  have h4 : year < 10 ^ 4 := by omega
  have h2 : month < 10 ^ 2 ∧ day < 10 ^ 2 ∧ hour < 10 ^ 2 ∧ minute < 10 ^ 2 ∧ second < 10 ^ 2 := by
    omega
  unfold parse format
  simp only [Option.bind_eq_bind, if_true]
  rw [readBefore_padded (le_refl 4) h4, Option.bind_some]
  rw [readBefore_padded (by omega) h2.1, Option.bind_some]
  rw [readBefore_padded (by omega) h2.2.1, Option.bind_some]
  rw [readBefore_padded (by omega) h2.2.2.1, Option.bind_some]
  rw [readBefore_padded (by omega) h2.2.2.2.1, Option.bind_some]
  rw [readNumber_padded (by omega) h2.2.2.2.2, Option.bind_some]
  rw [readFraction_padded hmicrosecond, Option.bind_some, expect_cons, Option.bind_some, if_pos rfl]
  exact dif_pos hvalid

/-! ## Seconds since the epoch -/

def daysBeforeYear (year : ℕ) : ℕ :=
  (year - 1) * 365 + (year - 1) / 4 - (year - 1) / 100 + (year - 1) / 400

def daysBeforeMonth (year month : ℕ) : ℕ :=
  ((List.range (month - 1)).map fun m => daysInMonth year (m + 1)).sum

/-- Microseconds since the epoch. -/
def microseconds (t : DateTime) : ℤ :=
  let days : ℤ := (daysBeforeYear t.year + daysBeforeMonth t.year t.month + t.day : ℕ) - 719163
  (((days * 24 + t.hour) * 60 + t.minute) * 60 + t.second) * 1000000 + t.microsecond

/-- `calendar.timegm` -/
def timestamp (t : DateTime) : ℤ := t.microseconds / 1000000

/-- `datetime.min` and `datetime.max` -/
def least : DateTime := ⟨1, 1, 1, 0, 0, 0, 0, by decide⟩

def greatest : DateTime := ⟨9999, 12, 31, 23, 59, 59, 999999, by decide⟩

end DateTime
