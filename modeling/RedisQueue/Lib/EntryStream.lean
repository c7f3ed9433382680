import Mathlib.Data.List.Basic
import Mathlib.Data.Nat.Notation
import Mathlib.Tactic.Lemma

/-!
# Streams of entries

An append-only stream of a key-value server: entries with increasing ids, which are times in
milliseconds with a sequence number. That the ids increase is a field of the type.

* `EntryStream.add`, `EntryStream.trim`: appending (`XADD`), and removing the oldest entries beyond
  a length;
* `EntryStream.newestFirst`, `EntryStream.after`: the two ways to read (`XREVRANGE`, `XREAD`).
-/

/-- The id of an entry: milliseconds and a sequence number. -/
structure EntryId where
  ms : ℕ
  seq : ℕ
deriving DecidableEq, Repr

namespace EntryId

instance : LT EntryId := ⟨fun a b => a.ms < b.ms ∨ a.ms = b.ms ∧ a.seq < b.seq⟩

lemma lt_def {a b : EntryId} : a < b ↔ a.ms < b.ms ∨ a.ms = b.ms ∧ a.seq < b.seq := Iff.rfl

instance (a b : EntryId) : Decidable (a < b) := inferInstanceAs (Decidable (_ ∨ _))

lemma lt_trans {a b c : EntryId} (h : a < b) (h' : b < c) : a < c := by
  rw [lt_def] at *
  omega

/-- The id before all entries. -/
def zero : EntryId := ⟨0, 0⟩

/-- The id that follows `last` when the clock shows `clock`, which may be behind. -/
def next (last : EntryId) (clock : ℕ) : EntryId :=
  if last.ms < clock then ⟨clock, 0⟩ else ⟨last.ms, last.seq + 1⟩

lemma lt_next (last : EntryId) (clock : ℕ) : last < last.next clock := by
  unfold next
  split
  · next h => exact .inl h
  · exact .inr ⟨rfl, Nat.lt_succ_self _⟩

end EntryId

/-- The entries from the oldest to the newest, and the last id that has been given. -/
structure EntryStream (α : Type) where
  entries : List (EntryId × α)
  lastId : EntryId
  sorted : entries.Pairwise fun a b => a.1 < b.1
  bounded : ∀ e ∈ entries, e.1 = lastId ∨ e.1 < lastId
  positive : ∀ e ∈ entries, EntryId.zero < e.1
deriving DecidableEq

namespace EntryStream

variable {α : Type}

instance : Inhabited (EntryStream α) :=
  ⟨⟨[], EntryId.zero, .nil, fun _ h => absurd h List.not_mem_nil,
    fun _ h => absurd h List.not_mem_nil⟩⟩

@[simp] lemma entries_default : (default : EntryStream α).entries = [] := rfl

/-- Every id that has been given is before the next one. -/
lemma lt_next (s : EntryStream α) (clock : ℕ) {e : EntryId × α} (he : e ∈ s.entries) :
    e.1 < s.lastId.next clock := by
  rcases s.bounded e he with heq | hlt
  · exact heq ▸ s.lastId.lt_next clock
  · exact EntryId.lt_trans hlt (s.lastId.lt_next clock)

lemma zero_lt_next (last : EntryId) (clock : ℕ) : EntryId.zero < last.next clock := by
  have hlt := last.lt_next clock
  rw [EntryId.lt_def] at *
  simp only [EntryId.zero]
  omega

/-- Appends an entry. -/
def add (s : EntryStream α) (clock : ℕ) (a : α) : EntryStream α where
  entries := s.entries ++ [(s.lastId.next clock, a)]
  lastId := s.lastId.next clock
  sorted := List.pairwise_append.mpr ⟨s.sorted, List.pairwise_singleton _ _, fun e he e' he' => by
    rw [List.mem_singleton.mp he']
    exact s.lt_next clock he⟩
  bounded e he := by
    rcases List.mem_append.mp he with he | he
    · exact .inr (s.lt_next clock he)
    · rw [List.mem_singleton.mp he]
      exact .inl rfl
  positive e he := by
    rcases List.mem_append.mp he with he | he
    · exact s.positive e he
    · rw [List.mem_singleton.mp he]
      exact zero_lt_next _ _

/-- Removes some of the oldest entries, if there are more than `maxLen`, and never leaves fewer. -/
def trim (s : EntryStream α) (maxLen evicted : ℕ) : EntryStream α where
  entries := s.entries.drop (min evicted (s.entries.length - maxLen))
  lastId := s.lastId
  sorted := s.sorted.sublist (List.drop_sublist _ _)
  bounded e he := s.bounded e (List.mem_of_mem_drop he)
  positive e he := s.positive e (List.mem_of_mem_drop he)

lemma entries_trim {s : EntryStream α} {maxLen : ℕ} (h : s.entries.length ≤ maxLen) (evicted : ℕ) :
    (s.trim maxLen evicted).entries = s.entries := by
  simp [trim, Nat.sub_eq_zero_of_le h]

/-- All entries, the newest first. -/
def newestFirst (s : EntryStream α) : List (EntryId × α) := s.entries.reverse

lemma head?_newestFirst (s : EntryStream α) :
    (s.newestFirst.take 1).head? = s.entries.getLast? := by
  rw [List.head?_take, if_neg Nat.one_ne_zero, newestFirst, List.head?_reverse]

/-- The entries after an id, the oldest first. -/
def after (s : EntryStream α) (id : EntryId) : List (EntryId × α) :=
  s.entries.filter fun e => id < e.1

lemma after_zero (s : EntryStream α) : s.after EntryId.zero = s.entries :=
  List.filter_eq_self.mpr fun e he => decide_eq_true (s.positive e he)

end EntryStream
