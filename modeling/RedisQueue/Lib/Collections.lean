import Mathlib.Data.List.Nodup
import Mathlib.Data.List.Sort
import Mathlib.Order.WithBot

/-!
# Sets and sorted sets

The two collection types of a key-value server whose members are unique: `RSet`, a set that
remembers an order of enumeration, and `ZSet`, a set whose members carry a score in `ℤ ∪ {+∞}`.
Uniqueness of the members is a field of both types.
-/

/-! ## Sets -/

/-- A finite set with an enumeration order (the order of insertion). -/
@[ext] structure RSet (α : Type) where
  elems : List α
  nodup : elems.Nodup

namespace RSet

variable {α : Type}

instance : EmptyCollection (RSet α) := ⟨⟨[], List.nodup_nil⟩⟩

instance : Inhabited (RSet α) := ⟨∅⟩

instance : Membership α (RSet α) := ⟨fun s a => a ∈ s.elems⟩

lemma mem_def {a : α} {s : RSet α} : a ∈ s ↔ a ∈ s.elems := Iff.rfl

@[simp] lemma notMem_empty (a : α) : a ∉ (∅ : RSet α) := List.not_mem_nil

@[simp] lemma elems_default : (default : RSet α).elems = [] := rfl

variable [DecidableEq α]

instance : DecidableEq (RSet α) := fun a b =>
  decidable_of_iff (a.elems = b.elems) RSet.ext_iff.symm

instance (a : α) (s : RSet α) : Decidable (a ∈ s) := inferInstanceAs (Decidable (a ∈ s.elems))

/-- Adds a member at the end of the enumeration; a set that has it already is unchanged. -/
def insert (s : RSet α) (a : α) : RSet α :=
  if h : a ∈ s.elems then s
  else ⟨s.elems ++ [a], by
    rw [List.nodup_append]
    exact ⟨s.nodup, List.nodup_singleton a, fun x hx y hy hxy =>
      h (by rw [← List.mem_singleton.mp hy, ← hxy]; exact hx)⟩⟩

/-- Removes a member. -/
def erase (s : RSet α) (a : α) : RSet α := ⟨s.elems.filter (· ≠ a), s.nodup.filter _⟩

/-- Removes several members. -/
def eraseAll (s : RSet α) (as : List α) : RSet α := ⟨s.elems.filter (· ∉ as), s.nodup.filter _⟩

@[simp] lemma mem_insert {s : RSet α} {a b : α} : b ∈ s.insert a ↔ b ∈ s ∨ b = a := by
  unfold insert
  split
  · next h => exact ⟨.inl, fun hb => hb.elim id fun e => e ▸ h⟩
  · simp [mem_def]

lemma insert_of_mem {s : RSet α} {a : α} (h : a ∈ s) : s.insert a = s := dif_pos h

lemma insert_ne_default (s : RSet α) (a : α) : s.insert a ≠ default := fun h => by
  have ha : a ∈ s.insert a := mem_insert.mpr (.inr rfl)
  rw [h] at ha
  exact notMem_empty a ha

@[simp] lemma mem_erase {s : RSet α} {a b : α} : b ∈ s.erase a ↔ b ∈ s ∧ b ≠ a := by
  simp [mem_def, erase]

@[simp] lemma mem_eraseAll {s : RSet α} {as : List α} {b : α} :
    b ∈ s.eraseAll as ↔ b ∈ s ∧ b ∉ as := by
  simp [mem_def, eraseAll]

end RSet

/-! ## Sorted sets -/

/-- The score of a member of a sorted set. -/
abbrev Score := WithTop ℤ

instance : LE Score := @WithTop.instLE ℤ Int.instLEInt

instance : LT Score := @WithTop.instLT ℤ Int.instLTInt

instance : DecidableLE Score := @WithTop.decidableLE ℤ Int.instLEInt Int.decLe

instance : DecidableLT Score := @WithTop.decidableLT ℤ Int.instLTInt Int.decLt

/-- A finite map from members to scores. -/
@[ext] structure ZSet (α : Type) where
  entries : List (α × Score)
  nodup : (entries.map Prod.fst).Nodup

namespace ZSet

variable {α : Type}

instance : EmptyCollection (ZSet α) := ⟨⟨[], List.nodup_nil⟩⟩

instance : Inhabited (ZSet α) := ⟨∅⟩

/-- The members, in the order in which they were first added. -/
def members (z : ZSet α) : List α := z.entries.map Prod.fst

instance : Membership α (ZSet α) := ⟨fun z a => a ∈ z.members⟩

lemma mem_def {a : α} {z : ZSet α} : a ∈ z ↔ a ∈ z.members := Iff.rfl

@[simp] lemma notMem_empty (a : α) : a ∉ (∅ : ZSet α) := List.not_mem_nil

@[simp] lemma notMem_default (a : α) : a ∉ (default : ZSet α) := List.not_mem_nil

@[simp] lemma entries_default : (default : ZSet α).entries = [] := rfl

lemma mem_iff_exists {z : ZSet α} {a : α} : a ∈ z ↔ ∃ sc, (a, sc) ∈ z.entries := by
  simp [mem_def, members]

/-- Keeps the entries that satisfy `p`. -/
def filter (z : ZSet α) (p : α × Score → Bool) : ZSet α :=
  ⟨z.entries.filter p, z.nodup.sublist (List.filter_sublist.map _)⟩

@[simp] lemma filter_true (z : ZSet α) : (z.filter fun _ => true) = z := by
  simp [filter]

lemma filter_filter (z : ZSet α) (p q : α × Score → Bool) :
    (z.filter p).filter q = z.filter fun e => p e && q e := by
  simp [filter, List.filter_filter, Bool.and_comm]

lemma mem_filter {z : ZSet α} {p : α × Score → Bool} {a : α} :
    a ∈ z.filter p ↔ ∃ sc, (a, sc) ∈ z.entries ∧ p (a, sc) = true := by
  simp [mem_iff_exists, filter]

/-- Whether an entry has a score between `lo` and `hi`. -/
def inRange (lo hi : Score) (e : α × Score) : Bool := lo ≤ e.2 && e.2 ≤ hi

/-- `ZREMRANGEBYSCORE`. -/
def removeRange (z : ZSet α) (lo hi : Score) : ZSet α := z.filter fun e => !inRange lo hi e

/-- `ZRANGE 0 -1`: the members by score and, for equal scores, by `le`. -/
def ordered (le : α → α → Prop) [DecidableRel le] (z : ZSet α) : List α :=
  (z.entries.insertionSort fun e e' => e.2 < e'.2 ∨ e.2 = e'.2 ∧ le e.1 e'.1).map Prod.fst

/-- `ZRANGEBYSCORE`: the members with a score between `lo` and `hi`, in the order of `ordered`. -/
def range (le : α → α → Prop) [DecidableRel le] (z : ZSet α) (lo hi : Score) : List α :=
  (z.filter (inRange lo hi)).ordered le

@[simp] lemma removeRange_removeRange (z : ZSet α) (lo hi : Score) :
    (z.removeRange lo hi).removeRange lo hi = z.removeRange lo hi := by
  simp [removeRange, filter_filter]

lemma mem_removeRange {z : ZSet α} {lo hi : Score} {b : α} :
    b ∈ z.removeRange lo hi ↔ ∃ sc, (b, sc) ∈ z.entries ∧ inRange lo hi (b, sc) = false := by
  simp [removeRange, mem_filter]

/-- The longer the range, the fewer members are left. -/
lemma mem_of_mem_removeRange {z : ZSet α} {lo hi hi' : Score} {b : α} (h : hi ≤ hi')
    (hb : b ∈ z.removeRange lo hi') : b ∈ z.removeRange lo hi := by
  obtain ⟨sc, hmem, hout⟩ := mem_removeRange.mp hb
  refine mem_removeRange.mpr ⟨sc, hmem, ?_⟩
  simp only [inRange, Bool.and_eq_false_iff, decide_eq_false_iff_not] at hout ⊢
  exact hout.imp_right fun hsc hle => hsc (hle.trans h)

@[simp] lemma mem_ordered {le : α → α → Prop} [DecidableRel le] {z : ZSet α} {a : α} :
    a ∈ z.ordered le ↔ a ∈ z := by
  simp [ordered, List.mem_insertionSort, mem_iff_exists]

lemma nodup_ordered {le : α → α → Prop} [DecidableRel le] (z : ZSet α) : (z.ordered le).Nodup := by
  have hperm := (List.perm_insertionSort
    (fun e e' : α × Score => e.2 < e'.2 ∨ e.2 = e'.2 ∧ le e.1 e'.1) z.entries).map Prod.fst
  exact hperm.nodup_iff.mpr z.nodup

lemma mem_range {le : α → α → Prop} [DecidableRel le] {z : ZSet α} {lo hi : Score} {a : α} :
    a ∈ z.range le lo hi ↔ ∃ sc, (a, sc) ∈ z.entries ∧ inRange lo hi (a, sc) = true := by
  simp [range, mem_filter]

lemma nodup_range {le : α → α → Prop} [DecidableRel le] (z : ZSet α) (lo hi : Score) :
    (z.range le lo hi).Nodup := nodup_ordered _

variable [DecidableEq α]

instance : DecidableEq (ZSet α) := fun a b =>
  decidable_of_iff (a.entries = b.entries) ZSet.ext_iff.symm

instance (a : α) (z : ZSet α) : Decidable (a ∈ z) := inferInstanceAs (Decidable (a ∈ z.members))

/-- The score of a member. -/
def score (z : ZSet α) (a : α) : Option Score := (z.entries.find? (·.1 = a)).map Prod.snd

/-- `ZADD`: adds a member, or gives a new score to one that is there. -/
def add (z : ZSet α) (a : α) (sc : Score) : ZSet α :=
  if h : a ∈ z.members then
    ⟨z.entries.map fun e => if e.1 = a then (a, sc) else e, by
      have : (z.entries.map fun e => if e.1 = a then (a, sc) else e).map Prod.fst
          = z.entries.map Prod.fst := by
        rw [List.map_map]
        refine List.map_congr_left fun e _ => ?_
        by_cases he : e.1 = a <;> simp [he]
      exact this ▸ z.nodup⟩
  else
    ⟨z.entries ++ [(a, sc)], by
      rw [List.map_append, List.nodup_append]
      refine ⟨z.nodup, List.nodup_singleton a, fun x hx y hy hxy => h ?_⟩
      obtain rfl : y = a := List.mem_singleton.mp hy
      exact hxy ▸ hx⟩

/-- `ZREM`. -/
def remove (z : ZSet α) (a : α) : ZSet α := z.filter fun e => e.1 ≠ a

/-- `ZREM` of several members. -/
def removeAll (z : ZSet α) (as : List α) : ZSet α := z.filter fun e => e.1 ∉ as

@[simp] lemma mem_add {z : ZSet α} {a b : α} {sc : Score} : b ∈ z.add a sc ↔ b ∈ z ∨ b = a := by
  unfold add
  split
  · next h =>
    have : (z.entries.map fun e => if e.1 = a then (a, sc) else e).map Prod.fst
        = z.entries.map Prod.fst := by
      rw [List.map_map]
      refine List.map_congr_left fun e _ => ?_
      by_cases he : e.1 = a <;> simp [he]
    rw [mem_def, members, this, ← members, ← mem_def]
    exact ⟨.inl, fun hb => hb.elim id fun e => e ▸ h⟩
  · simp [mem_def, members]

/-- A member that is added has the new score, the others keep theirs. -/
lemma mem_entries_add {z : ZSet α} {a : α} {sc : Score} {e : α × Score} :
    e ∈ (z.add a sc).entries ↔ e = (a, sc) ∨ e ∈ z.entries ∧ e.1 ≠ a := by
  unfold add
  split
  · next h =>
    obtain ⟨sc', hsc'⟩ := mem_iff_exists.mp (mem_def.mpr h)
    simp only [List.mem_map]
    constructor
    · rintro ⟨e', he', rfl⟩
      by_cases heq : e'.1 = a
      · exact .inl (if_pos heq)
      · rw [if_neg heq]
        exact .inr ⟨he', heq⟩
    · rintro (rfl | ⟨he, hne⟩)
      · exact ⟨(a, sc'), hsc', if_pos rfl⟩
      · exact ⟨e, he, if_neg hne⟩
  · next h =>
    have hne : e ∈ z.entries → e.1 ≠ a := fun he heq =>
      h (List.mem_map.mpr ⟨e, he, heq⟩)
    rw [List.mem_append, List.mem_singleton]
    exact ⟨fun he => he.elim (fun he => .inr ⟨he, hne he⟩) .inl,
      fun he => he.elim .inr fun he => .inl he.1⟩

lemma mem_removeRange_add {z : ZSet α} {a b : α} {sc lo hi : Score} :
    b ∈ (z.add a sc).removeRange lo hi ↔
      (b = a ∧ inRange lo hi (a, sc) = false) ∨ (b ≠ a ∧ b ∈ z.removeRange lo hi) := by
  rw [mem_removeRange, mem_removeRange]
  constructor
  · rintro ⟨sc', hmem, hout⟩
    rcases mem_entries_add.mp hmem with heq | ⟨hmem, hne⟩
    · cases heq
      exact .inl ⟨rfl, hout⟩
    · exact .inr ⟨hne, sc', hmem, hout⟩
  · rintro (⟨rfl, hout⟩ | ⟨hne, sc', hmem, hout⟩)
    · exact ⟨sc, mem_entries_add.mpr (.inl rfl), hout⟩
    · exact ⟨sc', mem_entries_add.mpr (.inr ⟨hmem, hne⟩), hout⟩

lemma mem_removeRange_remove {z : ZSet α} {a b : α} {lo hi : Score} :
    b ∈ (z.remove a).removeRange lo hi ↔ b ∈ z.removeRange lo hi ∧ b ≠ a := by
  rw [removeRange, remove, filter_filter, mem_filter, mem_removeRange]
  simp only [ne_eq, decide_not, Bool.and_eq_true, Bool.not_eq_eq_eq_not, Bool.not_true,
    decide_eq_false_iff_not]
  exact ⟨fun ⟨sc, hmem, hne, hout⟩ => ⟨⟨sc, hmem, hout⟩, hne⟩,
    fun ⟨⟨sc, hmem, hout⟩, hne⟩ => ⟨sc, hmem, hne, hout⟩⟩

@[simp] lemma mem_remove {z : ZSet α} {a b : α} : b ∈ z.remove a ↔ b ∈ z ∧ b ≠ a := by
  rw [remove, mem_filter, mem_iff_exists]
  simp

lemma remove_eq_self_iff {z : ZSet α} {a : α} : z.remove a = z ↔ a ∉ z := by
  refine ⟨fun h => by rw [← h]; simp, fun h => ?_⟩
  refine ZSet.ext (List.filter_eq_self.mpr fun e he => ?_)
  have hne : e.1 ≠ a := fun heq => h (mem_iff_exists.mpr ⟨e.2, by rw [← heq]; exact he⟩)
  simpa using hne

@[simp] lemma mem_removeAll {z : ZSet α} {as : List α} {b : α} :
    b ∈ z.removeAll as ↔ b ∈ z ∧ b ∉ as := by
  rw [removeAll, mem_filter, mem_iff_exists]
  simp

end ZSet

/-! ## Lists taken apart -/

/-- A list has a first element of which `p` does not hold. -/
lemma exists_first_not {α : Type} {p : α → Prop} {l : List α} (h : ¬∀ a ∈ l, p a) :
    ∃ before a after, l = before ++ a :: after ∧ (∀ b ∈ before, p b) ∧ ¬p a := by
  induction l with
  | nil => exact absurd (by simp) h
  | cons a l ih =>
    by_cases ha : p a
    · have hrest : ¬∀ b ∈ l, p b := fun hall => h (by simpa [ha] using hall)
      obtain ⟨before, b, after, rfl, hbefore, hb⟩ := ih hrest
      exact ⟨a :: before, b, after, rfl, by simpa [ha] using hbefore, hb⟩
    · exact ⟨[], a, l, rfl, by simp, ha⟩

/-- A list with two elements of one image falls apart at the first of them. -/
lemma exists_split_of_not_nodup {α β : Type} {f : α → β} {l : List α} (h : ¬(l.map f).Nodup) :
    ∃ before a after, l = before ++ a :: after ∧ f a ∈ after.map f := by
  induction l with
  | nil => exact absurd List.nodup_nil h
  | cons a l ih =>
    by_cases ha : f a ∈ l.map f
    · exact ⟨[], a, l, rfl, ha⟩
    · have hrest : ¬(l.map f).Nodup := fun hnodup => h (List.nodup_cons.mpr ⟨ha, hnodup⟩)
      obtain ⟨before, b, after, rfl, hb⟩ := ih hrest
      exact ⟨a :: before, b, after, rfl, hb⟩

/-- Taking the elements with `p` first changes nothing if and only if they are first. -/
lemma map_filter_append_eq_iff {α β : Type} {f : α → β} {p : α → Bool} {l : List α}
    (hl : (l.map f).Nodup) :
    (l.filter p).map f ++ (l.filter fun a => !p a).map f = l.map f ↔
      l.Pairwise fun a b => p b = true → p a = true := by
  induction l with
  | nil => simp
  | cons a l ih =>
    rw [List.map_cons, List.nodup_cons] at hl
    rw [List.pairwise_cons, ← ih hl.2]
    cases ha : p a with
    | true => simp [ha]
    | false =>
      rw [List.filter_cons_of_neg (by simp [ha]), List.filter_cons_of_pos (by simp [ha])]
      cases hfirst : l.filter p with
      | nil =>
        have hnone : ∀ b ∈ l, ¬p b = true := List.filter_eq_nil_iff.mp hfirst
        have hrest : (l.filter fun a => !p a) = l := List.filter_eq_self.mpr (by simpa using hnone)
        rw [hrest]
        simpa using hnone
      | cons b bs =>
        have hb : b ∈ l ∧ p b = true := List.mem_filter.mp (hfirst ▸ List.mem_cons_self)
        have hne : f b ≠ f a := fun heq => hl.1 (heq ▸ List.mem_map_of_mem hb.1)
        constructor
        · intro h
          rw [List.map_cons, List.map_cons, List.map_cons, List.cons_append] at h
          exact absurd (List.cons.inj h).1 hne
        · intro h
          exact absurd (h.1 b hb.1 hb.2) (by simp)

/-- What is left of a list without its first `n` elements. -/
lemma filter_notMem_take {α : Type} [DecidableEq α] {l : List α} (hl : l.Nodup) (n : ℕ) :
    (l.filter fun a => a ∉ l.take n) = l.drop n := by
  have hdisjoint : ∀ a ∈ l.take n, a ∉ l.drop n := fun a hfirst hrest =>
    List.disjoint_take_drop hl le_rfl hfirst hrest
  conv_lhs => rw [← List.take_append_drop n l, List.filter_append]
  rw [List.take_append_drop, List.filter_eq_nil_iff.mpr (by simp), List.nil_append]
  exact List.filter_eq_self.mpr fun a ha => by
    simpa using fun hfirst => hdisjoint a hfirst ha

/-- Two lists are split at the last occurrence of `c`. -/
lemma append_cons_inj_right {α : Type*} {c : α} {x y u v : List α} (hu : c ∉ u) (hv : c ∉ v) :
    x ++ c :: u = y ++ c :: v ↔ x = y ∧ u = v := by
  constructor
  · intro h
    rcases List.append_eq_append_iff.mp h with ⟨w, hy, hw⟩ | ⟨w, hx, hw⟩
    · cases w with
      | nil => simpa [hy] using hw
      | cons d w =>
        rw [List.cons_append, List.cons.injEq] at hw
        exact absurd (by simp [hw.2]) hu
    · cases w with
      | nil => simpa [hx] using hw.symm
      | cons d w =>
        rw [List.cons_append, List.cons.injEq] at hw
        exact absurd (by simp [hw.2]) hv
  · rintro ⟨rfl, rfl⟩
    rfl

/-! ## The order of a sorted set -/

namespace ZSet

section Order
variable {α : Type} {le : α → α → Prop} [DecidableRel le]

/-- The order of `ordered`: by score and, for equal scores, by member. -/
def EntryLe (le : α → α → Prop) (e e' : α × Score) : Prop :=
  e.2 < e'.2 ∨ e.2 = e'.2 ∧ le e.1 e'.1

instance : DecidableRel (EntryLe le) := fun e e' =>
  inferInstanceAs (Decidable (e.2 < e'.2 ∨ e.2 = e'.2 ∧ le e.1 e'.1))

instance [Std.Total le] : Std.Total (EntryLe le) where
  total e e' := by
    rcases lt_trichotomy e.2 e'.2 with hlt | heq | hlt
    · exact .inl (.inl hlt)
    · exact (Std.Total.total (r := le) e.1 e'.1).imp (fun h => .inr ⟨heq, h⟩)
        fun h => .inr ⟨heq.symm, h⟩
    · exact .inr (.inl hlt)

instance [IsTrans α le] : IsTrans (α × Score) (EntryLe le) where
  trans a b c hab hbc := by
    rcases hab with hab | ⟨hab, hle⟩
    · rcases hbc with hbc | ⟨hbc, -⟩
      · exact .inl (hab.trans hbc)
      · exact .inl (hbc ▸ hab)
    · rcases hbc with hbc | ⟨hbc, hle'⟩
      · exact .inl (hab ▸ hbc)
      · exact .inr ⟨hab.trans hbc, IsTrans.trans _ _ _ hle hle'⟩

instance [Std.Antisymm le] : Std.Antisymm (EntryLe le) where
  antisymm a b hab hba := by
    rcases hab with hab | ⟨hab, hle⟩
    · rcases hba with hba | ⟨hba, -⟩
      · exact absurd (hab.trans hba) (lt_irrefl _)
      · exact absurd hab (hba ▸ lt_irrefl _)
    · rcases hba with hba | ⟨-, hle'⟩
      · exact absurd hba (hab ▸ lt_irrefl _)
      · exact Prod.ext (Std.Antisymm.antisymm _ _ hle hle') hab

variable [Std.Total le] [IsTrans α le] [Std.Antisymm le]

/-- Sorting a part of a list. -/
lemma insertionSort_filter {β : Type} {r : β → β → Prop} [DecidableRel r] [Std.Total r]
    [IsTrans β r] [Std.Antisymm r] (l : List β) (p : β → Bool) :
    (l.filter p).insertionSort r = (l.insertionSort r).filter p := by
  have hperm : ((l.filter p).insertionSort r).Perm ((l.insertionSort r).filter p) :=
    (List.perm_insertionSort r _).trans ((List.perm_insertionSort r l).filter p).symm
  exact hperm.eq_of_pairwise' (List.pairwise_insertionSort r _)
    ((List.pairwise_insertionSort r l).filter p)

lemma ordered_filter (z : ZSet α) (p : α → Bool) :
    (z.filter fun e => p e.1).ordered le = (z.ordered le).filter p := by
  have hsort := insertionSort_filter (r := EntryLe le) z.entries fun e => p e.1
  exact (congrArg (List.map Prod.fst) hsort).trans List.filter_map.symm

variable [DecidableEq α]

/-- What is removed is no longer in range, and the rest stays in order. -/
lemma range_removeAll (z : ZSet α) (as : List α) (lo hi : Score) :
    (z.removeAll as).range le lo hi = (z.range le lo hi).filter fun a => a ∉ as := by
  unfold range
  rw [← ordered_filter, removeAll, filter_filter, filter_filter]
  simp only [Bool.and_comm]

lemma removeAll_removeAll (z : ZSet α) (as bs : List α) :
    (z.removeAll as).removeAll bs = z.removeAll (as ++ bs) := by
  unfold removeAll
  rw [filter_filter]
  simp

/-- **The rest of a range.** -/
theorem range_removeAll_take (z : ZSet α) (n : ℕ) (lo hi : Score) :
    (z.removeAll ((z.range le lo hi).take n)).range le lo hi = (z.range le lo hi).drop n := by
  rw [range_removeAll]
  exact filter_notMem_take (nodup_range _ _ _) n

end Order
end ZSet

/-! ## Scores -/

namespace ZSet

section Score
variable {α : Type} [DecidableEq α] {z : ZSet α} {a b : α} {sc : Score}

lemma score_eq_some : z.score a = some sc ↔ (a, sc) ∈ z.entries := by
  unfold score
  rw [Option.map_eq_some_iff]
  constructor
  · rintro ⟨e, he, rfl⟩
    obtain rfl : e.1 = a := by simpa using List.find?_some he
    exact List.mem_of_find?_eq_some he
  · intro hmem
    have hfound : (z.entries.find? (·.1 = a)).isSome :=
      List.find?_isSome.mpr ⟨(a, sc), hmem, by simp⟩
    obtain ⟨e, he⟩ := Option.isSome_iff_exists.mp hfound
    have hfst : e.1 = a := by simpa using List.find?_some he
    have heq : e = (a, sc) :=
      List.inj_on_of_nodup_map z.nodup (List.mem_of_find?_eq_some he) hmem hfst
    exact ⟨e, he, by rw [heq]⟩

lemma score_eq_none : z.score a = none ↔ a ∉ z := by
  rw [mem_iff_exists, Option.eq_none_iff_forall_not_mem, not_exists]
  exact forall_congr' fun sc => not_congr score_eq_some

lemma score_add : (z.add a sc).score b = if b = a then some sc else z.score b := by
  apply Option.ext
  intro sc'
  rw [score_eq_some, mem_entries_add]
  by_cases hb : b = a
  · simp [hb, eq_comm]
  · simp [hb, score_eq_some]

lemma score_filter {p : α → Bool} :
    (z.filter fun e => p e.1).score b = if p b then z.score b else none := by
  apply Option.ext
  intro sc
  rw [score_eq_some, filter, List.mem_filter]
  cases p b <;> simp [score_eq_some]

lemma score_removeRange {lo hi : Score} :
    (z.removeRange lo hi).score b = (z.score b).filter fun sc => !inRange lo hi (b, sc) := by
  apply Option.ext
  intro sc
  rw [score_eq_some, Option.filter_eq_some_iff, score_eq_some]
  simp [removeRange, filter]

lemma score_remove : (z.remove a).score b = if b = a then none else z.score b := by
  rw [remove, score_filter (p := fun c => c ≠ a)]
  by_cases hb : b = a <;> simp [hb]

lemma score_removeAll {as : List α} :
    (z.removeAll as).score b = if b ∈ as then none else z.score b := by
  rw [removeAll, score_filter (p := fun c => c ∉ as)]
  by_cases hb : b ∈ as <;> simp [hb]

end Score
end ZSet
