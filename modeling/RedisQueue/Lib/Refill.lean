import Mathlib.Data.List.Basic
import Mathlib.Data.List.Perm.Basic

/-!
# Refilling a queue

A queue is set aside as a whole and refilled, one element at a time, with those of its elements that
are kept, while others append to it.

* `Refill.run_perm`: nothing that is kept or appended is lost or duplicated;
* `Refill.fifo_iff`: the queue keeps its order exactly when nothing is appended during the refill;
* `Refill.run_done`: the refill comes to an end.
-/

/-- What the refill does next. -/
inductive Refill.Phase (α : Type) where
  | setAside
  | take
  | test (a : α)
  | put (a : α)
  | done
deriving DecidableEq, Repr

/-- A queue and what is left of the elements that were set aside. -/
structure Refill (α : Type) where
  phase : Refill.Phase α
  queue : List α
  rest : List α
deriving DecidableEq, Repr

namespace Refill

variable {α : Type} {keep : α → Bool} {r : Refill α}

def start (l : List α) : Refill α := ⟨.setAside, l, []⟩

/-- A step of the refill. -/
def advance (keep : α → Bool) (r : Refill α) : Refill α :=
  match r.phase with
  | .setAside => ⟨.take, [], r.queue⟩
  | .take => match r.rest with
    | [] => ⟨.done, r.queue, []⟩
    | a :: rest => ⟨.test a, r.queue, rest⟩
  | .test a => if keep a then ⟨.put a, r.queue, r.rest⟩ else ⟨.take, r.queue, r.rest⟩
  | .put a => ⟨.take, r.queue ++ [a], r.rest⟩
  | .done => r

/-- A step of the refill, or an element that is appended by somebody else. -/
inductive Move (α : Type) where
  | own
  | append (a : α)
deriving DecidableEq, Repr

def move (keep : α → Bool) (r : Refill α) : Move α → Refill α
  | .own => r.advance keep
  | .append a => { r with queue := r.queue ++ [a] }

def run (keep : α → Bool) (r : Refill α) (ms : List (Move α)) : Refill α := ms.foldl (move keep) r

/-- The appended elements. -/
def appended : List (Move α) → List α
  | [] => []
  | .own :: ms => appended ms
  | .append a :: ms => a :: appended ms

/-- The elements that are still to be put into the queue. -/
def pending (keep : α → Bool) (r : Refill α) : List α :=
  match r.phase with
  | .setAside => r.queue.filter keep
  | .take => r.rest.filter keep
  | .test a => (a :: r.rest).filter keep
  | .put a => a :: r.rest.filter keep
  | .done => []

/-- The elements that stay where they are. -/
def settled (r : Refill α) : List α :=
  match r.phase with
  | .setAside => []
  | _ => r.queue

/-- No element has to be put behind those that are in the queue. -/
def Open (keep : α → Bool) (r : Refill α) : Prop :=
  r.phase = .setAside ∨ r.pending keep = []

instance [DecidableEq α] : Decidable (r.Open keep) :=
  inferInstanceAs (Decidable (r.phase = .setAside ∨ r.pending keep = []))

/-- Nothing is appended between the start of the refill and the last element it puts back. -/
def Undisturbed (keep : α → Bool) : Refill α → List (Move α) → Prop
  | _, [] => True
  | r, .own :: ms => Undisturbed keep (r.advance keep) ms
  | r, .append a :: ms => r.Open keep ∧ Undisturbed keep (r.move keep (.append a)) ms

instance decidableUndisturbed [DecidableEq α] :
    (r : Refill α) → (ms : List (Move α)) → Decidable (Undisturbed keep r ms)
  | _, [] => isTrue trivial
  | r, .own :: ms => decidableUndisturbed (r.advance keep) ms
  | r, .append a :: ms =>
    have : Decidable (Undisturbed keep (r.move keep (.append a)) ms) :=
      decidableUndisturbed (r.move keep (.append a)) ms
    inferInstanceAs (Decidable (_ ∧ _))

@[simp] lemma run_nil : r.run keep [] = r := rfl

@[simp] lemma run_cons {m : Move α} {ms : List (Move α)} :
    r.run keep (m :: ms) = (r.move keep m).run keep ms := rfl

lemma run_append {ms ms' : List (Move α)} :
    r.run keep (ms ++ ms') = (r.run keep ms).run keep ms' := List.foldl_append

@[simp] lemma appended_append {ms ms' : List (Move α)} :
    appended (ms ++ ms') = appended ms ++ appended ms' := by
  induction ms with
  | nil => rfl
  | cons m ms ih =>
    cases m with
    | own => exact ih
    | append a => exact congrArg (a :: ·) ih

@[simp] lemma pending_start (l : List α) : (start l).pending keep = l.filter keep := rfl

@[simp] lemma settled_start (l : List α) : (start l).settled = [] := rfl

/-! ## The order of the elements -/

/-- The elements in the order in which they are going to stand. -/
def order (keep : α → Bool) (r : Refill α) : List α := r.settled ++ r.pending keep

/-- The refill keeps the order. -/
lemma order_advance : (r.advance keep).order keep = r.order keep := by
  obtain ⟨phase, queue, rest⟩ := r
  cases phase with
  | setAside => rfl
  | take =>
    cases rest with
    | nil => rfl
    | cons a rest => rfl
  | test a =>
    simp only [order, advance, settled, pending]
    cases hkeep : keep a with
    | true => rw [if_pos rfl, List.filter_cons_of_pos hkeep]
    | false => rw [if_neg Bool.false_ne_true, List.filter_cons_of_neg (by simp [hkeep])]
  | put a => simp [order, advance, settled, pending]
  | done => rfl

/-- What is settled stays where it is. -/
lemma settled_advance : r.settled <+: (r.advance keep).settled := by
  obtain ⟨phase, queue, rest⟩ := r
  cases phase with
  | setAside => exact List.nil_prefix
  | take => cases rest <;> exact List.prefix_rfl
  | test a =>
    have hqueue : ((Refill.mk (.test a) queue rest).advance keep).settled = queue := by
      cases hkeep : keep a <;> simp [advance, settled, hkeep]
    rw [hqueue]
    exact List.prefix_rfl
  | put a => exact List.prefix_append queue [a]
  | done => exact List.prefix_rfl

/-- An element goes behind what is settled, in front of what is still to be put back. -/
lemma order_append {a : α} (hphase : r.phase ≠ .setAside) :
    (r.move keep (.append a)).order keep = r.settled ++ a :: r.pending keep := by
  obtain ⟨phase, queue, rest⟩ := r
  cases phase with
  | setAside => exact absurd rfl hphase
  | take => simp [order, move, settled, pending]
  | test b => simp [order, move, settled, pending]
  | put b => simp [order, move, settled, pending]
  | done => simp [order, move, settled, pending]

lemma settled_append {a : α} (hphase : r.phase ≠ .setAside) :
    (r.move keep (.append a)).settled = r.settled ++ [a] := by
  obtain ⟨phase, queue, rest⟩ := r
  cases phase with
  | setAside => exact absurd rfl hphase
  | take => rfl
  | test b => rfl
  | put b => rfl
  | done => rfl

/-- Before the start the element comes last. -/
lemma order_append_setAside {a : α} (hphase : r.phase = .setAside) (hkeep : keep a) :
    (r.move keep (.append a)).order keep = r.order keep ++ [a] := by
  obtain ⟨phase, queue, rest⟩ := r
  cases hphase
  simp [order, move, settled, pending, hkeep]

lemma order_append_of_open {a : α} (hopen : r.Open keep) (hkeep : keep a) :
    (r.move keep (.append a)).order keep = r.order keep ++ [a] := by
  by_cases hphase : r.phase = .setAside
  · exact order_append_setAside hphase hkeep
  · have hnone : r.pending keep = [] := hopen.resolve_left hphase
    rw [order_append hphase, order, hnone, List.append_nil]

lemma settled_prefix_move {m : Move α} : r.settled <+: (r.move keep m).settled := by
  cases m with
  | own => exact settled_advance
  | append a =>
    by_cases hphase : r.phase = .setAside
    · rw [settled, hphase]
      exact List.nil_prefix
    · rw [settled_append hphase]
      exact List.prefix_append _ _

lemma settled_prefix_run (ms : List (Move α)) : r.settled <+: (r.run keep ms).settled := by
  induction ms generalizing r with
  | nil => exact List.prefix_rfl
  | cons m ms ih => exact settled_prefix_move.trans ih

/-- **Conservation.** Nothing is lost or duplicated, whatever is appended when. -/
theorem order_perm {ms : List (Move α)} (hkeep : ∀ a ∈ appended ms, keep a) :
    ((r.run keep ms).order keep).Perm (r.order keep ++ appended ms) := by
  induction ms generalizing r with
  | nil => simp [appended]
  | cons m ms ih =>
    cases m with
    | own =>
      have hrest := ih (r := r.advance keep) hkeep
      rw [order_advance] at hrest
      exact hrest
    | append a =>
      have hrest := ih (r := r.move keep (.append a)) fun b hb =>
        hkeep b (List.mem_cons_of_mem a hb)
      have hone : ((r.move keep (.append a)).order keep).Perm (r.order keep ++ [a]) := by
        by_cases hphase : r.phase = .setAside
        · rw [order_append_setAside hphase (hkeep a List.mem_cons_self)]
        · rw [order_append hphase]
          exact List.perm_middle.trans (List.perm_append_singleton a _).symm
      have hboth := hrest.trans (hone.append_right (appended ms))
      rwa [List.append_assoc] at hboth

lemma order_done (hdone : r.phase = .done) : r.order keep = r.queue := by
  obtain ⟨phase, queue, rest⟩ := r
  cases hdone
  exact List.append_nil queue

lemma settled_done (hdone : r.phase = .done) : r.settled = r.queue := by
  obtain ⟨phase, queue, rest⟩ := r
  cases hdone
  rfl

/-- Nothing that is kept or appended is lost or duplicated. -/
theorem run_perm {l : List α} {ms : List (Move α)} (hkeep : ∀ a ∈ appended ms, keep a)
    (hdone : ((start l).run keep ms).phase = .done) :
    (((start l).run keep ms).queue).Perm (l.filter keep ++ appended ms) := by
  have horder := order_perm (r := start l) hkeep
  rw [order_done hdone] at horder
  exact horder

/-- Without a disturbance the order is that of a queue. -/
lemma order_of_undisturbed {ms : List (Move α)} (hkeep : ∀ a ∈ appended ms, keep a)
    (h : Undisturbed keep r ms) : (r.run keep ms).order keep = r.order keep ++ appended ms := by
  induction ms generalizing r with
  | nil => exact (List.append_nil _).symm
  | cons m ms ih =>
    cases m with
    | own =>
      have hrest := ih (r := r.advance keep) hkeep h
      rw [order_advance] at hrest
      exact hrest
    | append a =>
      have hrest := ih (r := r.move keep (.append a))
        (fun b hb => hkeep b (List.mem_cons_of_mem a hb)) h.2
      rw [run_cons, hrest, order_append_of_open h.1 (hkeep a List.mem_cons_self),
        List.append_assoc]
      rfl

/-- The first disturbance of a run. -/
lemma exists_of_disturbed {ms : List (Move α)} (h : ¬Undisturbed keep r ms) :
    ∃ ms₁ a ms₂, ms = ms₁ ++ .append a :: ms₂ ∧ ¬(r.run keep ms₁).Open keep := by
  induction ms generalizing r with
  | nil => exact absurd trivial h
  | cons m ms ih =>
    have later (hrest : ¬Undisturbed keep (r.move keep m) ms) :
        ∃ ms₁ a ms₂, m :: ms = ms₁ ++ .append a :: ms₂ ∧ ¬(r.run keep ms₁).Open keep := by
      obtain ⟨ms₁, a, ms₂, rfl, hopen⟩ := ih hrest
      exact ⟨m :: ms₁, a, ms₂, rfl, hopen⟩
    cases m with
    | own => exact later h
    | append a =>
      by_cases hopen : r.Open keep
      · exact later fun hrest => h ⟨hopen, hrest⟩
      · exact ⟨[], a, ms, rfl, hopen⟩

/-- **Order.** At the end the queue holds what was kept followed by what was appended exactly if
nothing was appended during the refill. -/
theorem fifo_iff {l : List α} {ms : List (Move α)} (hkeep : ∀ a ∈ appended ms, keep a)
    (hnew : ∀ a ∈ appended ms, a ∉ l) (hnodup : (appended ms).Nodup)
    (hdone : ((start l).run keep ms).phase = .done) :
    ((start l).run keep ms).queue = l.filter keep ++ appended ms ↔
      Undisturbed keep (start l) ms := by
  constructor
  · intro hqueue
    by_contra hdisturbed
    obtain ⟨ms₁, a, ms₂, rfl, hclosed⟩ := exists_of_disturbed hdisturbed
    rw [Open, not_or] at hclosed
    -- what is in the queue when `a` is appended stays in front of it
    have hprefix : (((start l).run keep ms₁).move keep (.append a)).settled <+:
        ((((start l).run keep ms₁).move keep (.append a)).run keep ms₂).settled :=
      settled_prefix_run ms₂
    rw [settled_append hclosed.1, ← run_cons, ← run_append, settled_done hdone, hqueue] at hprefix
    obtain ⟨tail, htail⟩ := hprefix
    have hsplit : (l.filter keep ++ appended ms₁) ++ a :: appended ms₂ =
        ((start l).run keep ms₁).settled ++ a :: tail := by
      simpa [appended] using htail.symm
    have hperm : (((start l).run keep ms₁).order keep).Perm (l.filter keep ++ appended ms₁) :=
      order_perm fun b hb => hkeep b (by simp [hb])
    -- `a` stands only once in the queue that is wanted
    have ha : a ∈ appended (ms₁ ++ .append a :: ms₂) := by simp [appended]
    have hparts : (appended ms₁ ++ a :: appended ms₂).Nodup := by
      simpa [appended] using hnodup
    have hfront : a ∉ l.filter keep ++ appended ms₁ := by
      intro hmem
      rcases List.mem_append.mp hmem with hl | hbefore
      · exact hnew a ha (List.mem_of_mem_filter hl)
      · exact (List.nodup_append.mp hparts).2.2 a hbefore a List.mem_cons_self rfl
    have hback : a ∉ appended ms₂ := (List.nodup_cons.mp (List.nodup_append.mp hparts).2.1).1
    have hsame : l.filter keep ++ appended ms₁ = ((start l).run keep ms₁).settled :=
      ((List.append_cons_inj_of_notMem hfront hback).mp hsplit).1
    -- so nothing was pending
    have hlength := hperm.length_eq
    rw [order, ← hsame, List.length_append] at hlength
    exact hclosed.2 (List.eq_nil_of_length_eq_zero (by omega))
  · intro h
    have horder := order_of_undisturbed hkeep h
    rw [order_done hdone] at horder
    exact horder

/-! ## The end of the refill -/

/-- The number of steps that the refill still takes, at most. -/
def rank (r : Refill α) : ℕ :=
  match r.phase with
  | .setAside => 3 * r.queue.length + 2
  | .take => 3 * r.rest.length + 1
  | .test _ => 3 * r.rest.length + 3
  | .put _ => 3 * r.rest.length + 2
  | .done => 0

lemma rank_advance (h : r.phase ≠ .done) : (r.advance keep).rank + 1 ≤ r.rank := by
  obtain ⟨phase, queue, rest⟩ := r
  cases phase with
  | setAside => exact Nat.le_refl _
  | take =>
    cases rest with
    | nil => exact Nat.le_refl _
    | cons a rest =>
      simp only [advance, rank, List.length_cons]
      omega
  | test a => cases hkeep : keep a <;> simp [advance, rank, hkeep]
  | put a => simp [advance, rank]
  | done => exact absurd rfl h

lemma rank_append {a : α} : (r.move keep (.append a)).rank ≤ r.rank + 3 := by
  obtain ⟨phase, queue, rest⟩ := r
  cases phase <;>
  · simp only [move, rank, List.length_append, List.length_singleton]
    omega

lemma phase_of_rank (h : r.rank = 0) : r.phase = .done := by
  obtain ⟨phase, queue, rest⟩ := r
  cases phase <;> first | rfl | simp [rank] at h

lemma phase_run_done {ms : List (Move α)} (h : r.phase = .done) :
    (r.run keep ms).phase = .done := by
  induction ms generalizing r with
  | nil => exact h
  | cons m ms ih =>
    cases m with
    | own =>
      refine ih (r := r.advance keep) ?_
      rw [advance, h]
      exact h
    | append a => exact ih (r := r.move keep (.append a)) h

/-- **Termination.** Whatever is appended, enough steps bring the refill to its end. -/
theorem run_done {ms : List (Move α)} (h : r.rank + 4 * (appended ms).length ≤ ms.length) :
    (r.run keep ms).phase = .done := by
  induction ms generalizing r with
  | nil => exact phase_of_rank (Nat.eq_zero_of_le_zero (Nat.le_of_add_right_le h))
  | cons m ms ih =>
    cases m with
    | own =>
      by_cases hdone : r.phase = .done
      · exact phase_run_done hdone
      · have hless : (r.advance keep).rank + 1 ≤ r.rank := rank_advance hdone
        simp only [appended, List.length_cons] at h
        exact ih (r := r.advance keep) (by omega)
    | append a =>
      have hmore : (r.move keep (.append a)).rank ≤ r.rank + 3 := rank_append
      simp only [appended, List.length_cons] at h
      exact ih (r := r.move keep (.append a)) (by omega)

end Refill
