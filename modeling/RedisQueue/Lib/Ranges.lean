import Mathlib.Data.Int.Order.Basic
import Mathlib.Data.List.Perm.Subperm

/-!
# Ranges of a list

The part of a list between two positions that may be counted from the end, and what is left of the
parts of a list when some of its elements are taken out.

* `lrange`: the elements between two positions;
* `drop_diff`: behind the elements that are taken out the list moves up;
* `visited`: the elements that are seen by someone who reads the list in pages and takes out some of
  what he has read before he goes on.
-/

namespace Ranges

variable {α : Type}

/-- The elements from `start` to `stop`. Negative positions count from the end of the list. -/
def lrange (l : List α) (start stop : ℤ) : List α :=
  let first := if start < 0 then max (start + l.length) 0 else start
  let last := if stop < 0 then stop + l.length else stop
  if last < first then [] else (l.drop first.toNat).take (last - first + 1).toNat

lemma lrange_all (l : List α) : lrange l 0 (-1) = l := by
  rcases eq_or_ne l [] with rfl | hne
  · rfl
  · have hpos : 0 < l.length := List.length_pos_of_ne_nil hne
    have hlast : ¬(-1 + (l.length : ℤ) < 0) := by omega
    have hlength : (-1 + (l.length : ℤ) - 0 + 1).toNat = l.length := by omega
    simp only [lrange, lt_irrefl, if_false, if_pos (show (-1 : ℤ) < 0 by omega), if_neg hlast,
      hlength, Int.toNat_zero, List.drop_zero, List.take_length]

/-- A page. -/
lemma lrange_page (l : List α) (offset : ℕ) {k : ℕ} (hk : 0 < k) :
    lrange l offset (offset + (k - 1)) = (l.drop offset).take k := by
  unfold lrange
  have hstart : ¬((offset : ℤ) < 0) := by omega
  have hstop : ¬((offset : ℤ) + (k - 1) < 0) := by omega
  have horder : ¬((offset : ℤ) + (k - 1) < offset) := by omega
  have hlength : ((offset : ℤ) + (k - 1) - offset + 1).toNat = k := by omega
  simp only [if_neg hstart, if_neg hstop, if_neg horder, hlength, Int.toNat_natCast]

section
variable [DecidableEq α]

lemma diff_append_left {front taken : List α} (h : taken.Subperm front) (back : List α) :
    (front ++ back).diff taken = front.diff taken ++ back ∧
      (front.diff taken).length = front.length - taken.length := by
  induction taken generalizing front with
  | nil => exact ⟨rfl, rfl⟩
  | cons a taken ih =>
    have ha : a ∈ front := h.subset List.mem_cons_self
    have hrest : taken.Subperm (front.erase a) := by
      have herase := h.erase a
      rwa [List.erase_cons_head] at herase
    obtain ⟨happend, hlength⟩ := ih hrest
    rw [List.diff_cons, List.diff_cons, List.erase_append_left _ ha]
    refine ⟨happend, ?_⟩
    rw [hlength, List.length_erase_of_mem ha, List.length_cons]
    omega

/-- What lies behind the first `n` elements moves up by as many places as elements are taken out of
those. -/
theorem drop_diff {l taken : List α} {n : ℕ} (h : taken.Subperm (l.take n)) :
    (l.diff taken).drop n = l.drop (n + taken.length) := by
  obtain ⟨happend, hlength⟩ := diff_append_left h (l.drop n)
  have hle := h.length_le
  rw [List.take_append_drop] at happend
  rw [happend, List.drop_append, ← List.drop_drop, hlength]
  rw [List.length_take] at hle ⊢
  rw [List.drop_eq_nil_of_le (by rw [hlength, List.length_take]; omega), List.nil_append]
  by_cases hn : n ≤ l.length
  · congr 1
    omega
  · rw [List.drop_eq_nil_of_le (show l.length ≤ n by omega), List.drop_nil, List.drop_nil]

/-- Without its elements that satisfy `p`. -/
lemma diff_filter (l : List α) (p : α → Bool) : l.diff (l.filter p) = l.filter fun a => !p a := by
  induction l with
  | nil => rfl
  | cons a l ih =>
    by_cases ha : p a
    · rw [List.filter_cons_of_pos ha, List.diff_cons, List.erase_cons_head, ih,
        List.filter_cons_of_neg (by simp [ha])]
    · have hnot : a ∉ l.filter p := fun hmem => ha (List.mem_filter.mp hmem).2
      rw [List.filter_cons_of_neg ha, List.cons_diff_of_not_mem hnot, ih,
        List.filter_cons_of_pos (by simp [ha])]

end

/-! ## Reading in pages -/

/-- What `m` pages of `k` elements show of `rest`, if the elements of a page that satisfy `dead` are
taken out before the next page is read. -/
def visited (dead : α → Bool) (k : ℕ) : ℕ → List α → List α
  | 0, _ => []
  | m + 1, rest =>
    rest.take k ++ visited dead k m (rest.drop (k + (rest.take k).countP dead))

/-- Where nothing is taken out the pages show everything. -/
lemma visited_eq_take {dead : α → Bool} (k m : ℕ) {rest : List α}
    (hnone : ∀ a ∈ rest, dead a = false) : visited dead k m rest = rest.take (m * k) := by
  induction m generalizing rest with
  | zero => simp [visited]
  | succ m ih =>
    have hcount : (rest.take k).countP dead = 0 := by
      rw [List.countP_eq_zero]
      intro a ha
      simp [hnone a (List.mem_of_mem_take ha)]
    rw [visited, hcount, Nat.add_zero, ih fun a ha => hnone a (List.mem_of_mem_drop ha),
      Nat.succ_mul, Nat.add_comm (m * k) k, List.take_add]

end Ranges
