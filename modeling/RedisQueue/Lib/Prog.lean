import Mathlib.Data.Nat.Notation
import Mathlib.Logic.Function.Basic
import Mathlib.Logic.Relation
import Mathlib.Tactic.Lemma

/-!
# Programs of atomic steps on a shared state

A `Prog σ ε α` is a program that talks to a shared state `σ` one atomic step at a time and
returns an `α` or raises an `ε`. There are two kinds of atomic step: an unconditional one, and a
guarded one that takes effect only if its guard holds (the commit of an optimistic transaction).

Three readings of a program are defined here:

* `run`, alone and to completion, and `runConflicts`, in which the first guarded commits fail;
* `crash`, the state left behind by a process that stops for ever after `n` steps;
* `System`, any number of programs interleaved step by step.

`Safe R G Q` is the rely-guarantee triple of a program: whatever the others do within `R`, every
step of the program stays within `G`, and its outcome satisfies `Q`. `System.safe_of_reachable`
composes the triples of all processes into a fact about every interleaving.
-/

/-- A program over a shared state `σ`, raising `ε` or returning `α`. `step act next` performs
`act` and continues with `next`, which sees the state from before the step. -/
inductive Prog (σ ε α : Type) : Type where
  | ret (a : α)
  | throw (e : ε)
  | step (act : σ → σ) (next : σ → Prog σ ε α)
  | exec (watching : Bool) (guard : σ → Bool) (act : σ → σ) (next : Bool → Prog σ ε α)

lemma Except.ok_bind {ε α β : Type} (a : α) (f : α → Except ε β) :
    ((Except.ok a : Except ε α) >>= f) = f a := rfl

lemma Except.error_bind {ε α β : Type} (e : ε) (f : α → Except ε β) :
    ((Except.error e : Except ε α) >>= f) = .error e := rfl

lemma Except.exists_map_ok {ε α β : Type} {x : Except ε α} {f : α → β} :
    (∃ b, x.map f = .ok b) ↔ ∃ a, x = .ok a := by
  cases x <;> simp [Except.map]

namespace Prog

variable {σ ε α β : Type}

/-! ## Sequencing -/

def bind : Prog σ ε α → (α → Prog σ ε β) → Prog σ ε β
  | ret a, k => k a
  | throw e, _ => throw e
  | step act next, k => step act fun s => (next s).bind k
  | exec w g act next, k => exec w g act fun b => (next b).bind k

instance : Monad (Prog σ ε) where
  pure := ret
  bind := bind

/-- Python's `try`/`except` around a program. -/
def tryCatch : Prog σ ε α → (ε → Prog σ ε α) → Prog σ ε α
  | ret a, _ => ret a
  | throw e, h => h e
  | step act next, h => step act fun s => (next s).tryCatch h
  | exec w g act next, h => exec w g act fun b => (next b).tryCatch h

/-- A read of the shared state. -/
def read (f : σ → α) : Prog σ ε α := step id fun s => ret (f s)

/-- A write to the shared state. -/
def perform (act : σ → σ) : Prog σ ε Unit := step act fun _ => ret ()

/-- A value or an exception that needs no access to the shared state. -/
def ofExcept : Except ε α → Prog σ ε α
  | .ok a => ret a
  | .error e => throw e

@[simp] lemma ofExcept_ok (a : α) : (ofExcept (.ok a) : Prog σ ε α) = ret a := rfl

@[simp] lemma ofExcept_error (e : ε) : (ofExcept (.error e) : Prog σ ε α) = throw e := rfl

@[simp] lemma pure_eq (a : α) : (pure a : Prog σ ε α) = ret a := rfl

@[simp] lemma ret_bind (a : α) (k : α → Prog σ ε β) : (ret a >>= k) = k a := rfl

@[simp] lemma throw_bind (e : ε) (k : α → Prog σ ε β) : ((throw e : Prog σ ε α) >>= k) = throw e :=
  rfl

@[simp] lemma step_bind (act : σ → σ) (next : σ → Prog σ ε α) (k : α → Prog σ ε β) :
    (step act next >>= k) = step act fun s => next s >>= k := rfl

@[simp] lemma exec_bind (w : Bool) (g : σ → Bool) (act : σ → σ) (next : Bool → Prog σ ε α)
    (k : α → Prog σ ε β) : (exec w g act next >>= k) = exec w g act fun b => next b >>= k := rfl

lemma bind_ret (p : Prog σ ε α) : (p >>= ret) = p := by
  induction p with
  | ret a => rfl
  | throw e => rfl
  | step act next ih => exact congrArg (step act) (funext ih)
  | exec w g act next ih => exact congrArg (exec w g act) (funext ih)

lemma bind_bind {γ : Type} (p : Prog σ ε α) (k : α → Prog σ ε β) (l : β → Prog σ ε γ) :
    (p >>= k >>= l) = p >>= fun a => k a >>= l := by
  induction p with
  | ret a => rfl
  | throw e => rfl
  | step act next ih => exact congrArg (step act) (funext ih)
  | exec w g act next ih => exact congrArg (exec w g act) (funext ih)

instance : LawfulMonad (Prog σ ε) := LawfulMonad.mk' (Prog σ ε) bind_ret (fun _ _ => rfl) bind_bind

@[simp] lemma map_ret (f : α → β) (a : α) : f <$> (ret a : Prog σ ε α) = ret (f a) := rfl

@[simp] lemma tryCatch_ret (a : α) (h : ε → Prog σ ε α) : (ret a).tryCatch h = ret a := rfl

@[simp] lemma tryCatch_throw (e : ε) (h : ε → Prog σ ε α) : (throw e).tryCatch h = h e := rfl

@[simp] lemma tryCatch_step (act : σ → σ) (next : σ → Prog σ ε α) (h : ε → Prog σ ε α) :
    (step act next).tryCatch h = step act fun s => (next s).tryCatch h := rfl

/-! ## One program alone -/

/-- The outcome and the final state of a program that runs alone. -/
def run : Prog σ ε α → σ → Except ε α × σ
  | ret a, s => (.ok a, s)
  | throw e, s => (.error e, s)
  | step act next, s => (next s).run (act s)
  | exec _ g act next, s => if g s then (next true).run (act s) else (next false).run s

@[simp] lemma run_ret (a : α) (s : σ) : (ret a : Prog σ ε α).run s = (.ok a, s) := rfl

@[simp] lemma run_throw (e : ε) (s : σ) : (throw e : Prog σ ε α).run s = (.error e, s) := rfl

@[simp] lemma run_step (act : σ → σ) (next : σ → Prog σ ε α) (s : σ) :
    (step act next).run s = (next s).run (act s) := rfl

lemma run_exec (w : Bool) (g : σ → Bool) (act : σ → σ) (next : Bool → Prog σ ε α) (s : σ) :
    (exec w g act next).run s = if g s then (next true).run (act s) else (next false).run s := rfl

@[simp] lemma run_read (f : σ → α) (s : σ) : (read f : Prog σ ε α).run s = (.ok (f s), s) := rfl

@[simp] lemma run_perform (act : σ → σ) (s : σ) :
    (perform act : Prog σ ε Unit).run s = (.ok (), act s) := rfl

lemma run_bind (p : Prog σ ε α) (k : α → Prog σ ε β) (s : σ) :
    (p >>= k).run s = match p.run s with
      | (.ok a, s') => (k a).run s'
      | (.error e, s') => (.error e, s') := by
  induction p generalizing s with
  | ret a => rfl
  | throw e => rfl
  | step act next ih => exact ih s (act s)
  | exec w g act next ih =>
    rw [exec_bind, run_exec, run_exec]
    split
    · exact ih true (act s)
    · exact ih false s

lemma run_bind_ok {p : Prog σ ε α} {k : α → Prog σ ε β} {s s' : σ} {a : α}
    (h : p.run s = (.ok a, s')) : (p >>= k).run s = (k a).run s' := by
  rw [run_bind, h]

lemma run_map_ok {p : Prog σ ε α} {s s' : σ} {a : α} (f : α → β) (h : p.run s = (.ok a, s')) :
    (f <$> p).run s = (.ok (f a), s') :=
  run_bind_ok (k := fun a => ret (f a)) h

lemma run_bind_error {p : Prog σ ε α} {k : α → Prog σ ε β} {s s' : σ} {e : ε}
    (h : p.run s = (.error e, s')) : (p >>= k).run s = (.error e, s') := by
  rw [run_bind, h]

/-- A sequence raises in its first part or in the rest. -/
lemma run_bind_eq_error {p : Prog σ ε α} {k : α → Prog σ ε β} {s s' : σ} {e : ε}
    (h : (p >>= k).run s = (.error e, s')) : p.run s = (.error e, s') ∨
      ∃ a s₁, p.run s = (.ok a, s₁) ∧ (k a).run s₁ = (.error e, s') := by
  rw [run_bind] at h
  split at h
  · next a s₁ hp => exact .inr ⟨a, s₁, hp, h⟩
  · next e' s₁ hp =>
    cases h
    exact .inl hp

lemma run_ofExcept_eq_ok {x : Except ε α} {s s' : σ} {a : α}
    (h : (ofExcept x : Prog σ ε α).run s = (.ok a, s')) : x = .ok a ∧ s' = s := by
  cases x <;> cases h
  exact ⟨rfl, rfl⟩

lemma run_bind_eq_ok {p : Prog σ ε α} {k : α → Prog σ ε β} {s s' : σ} {b : β}
    (h : (p >>= k).run s = (.ok b, s')) :
    ∃ a s₁, p.run s = (.ok a, s₁) ∧ (k a).run s₁ = (.ok b, s') := by
  rw [run_bind] at h
  split at h
  · next a s₁ hp => exact ⟨a, s₁, hp, h⟩
  · cases h

/-- Rule for sequences, where a property of the states is concerned. -/
lemma run_bind_preserves {I : σ → Prop} {p : Prog σ ε α} {k : α → Prog σ ε β} {s : σ}
    (hp : I (p.run s).2) (hk : ∀ a s', p.run s = (.ok a, s') → I s' → I ((k a).run s').2) :
    I ((p >>= k).run s).2 := by
  rw [run_bind]
  split
  · next heq =>
    rw [heq] at hp
    exact hk _ _ heq hp
  · next heq =>
    rw [heq] at hp
    exact hp

lemma run_bind_raises {p : Prog σ ε α} {k : α → Prog σ ε β} {s : σ} {e : ε}
    (h : (p.run s).1 = .error e) : ((p >>= k).run s).1 = .error e := by
  rcases hp : p.run s with ⟨r, s'⟩
  rw [hp] at h
  obtain rfl : r = .error e := h
  rw [run_bind_error hp]

/-- A run in which the first `n` guarded commits under a watch fail, whatever their guards say;
also returns how many of the `n` failures are left. -/
def runConflicts : Prog σ ε α → ℕ → σ → Except ε α × σ × ℕ
  | ret a, n, s => (.ok a, s, n)
  | throw e, n, s => (.error e, s, n)
  | step act next, n, s => (next s).runConflicts n (act s)
  | exec true _ _ next, n + 1, s => (next false).runConflicts n s
  | exec true g act next, 0, s =>
    if g s then (next true).runConflicts 0 (act s) else (next false).runConflicts 0 s
  | exec false g act next, n, s =>
    if g s then (next true).runConflicts n (act s) else (next false).runConflicts n s

/-- The program commits nothing under a watch, and what it returns satisfies `Q`. -/
def Unguarded (Q : α → Prop) : Prog σ ε α → Prop
  | ret a => Q a
  | throw _ => True
  | step _ next => ∀ s, (next s).Unguarded Q
  | exec w _ _ next => w = false ∧ ∀ b, (next b).Unguarded Q

section Unguarded
variable {Q : α → Prop}

@[simp] lemma unguarded_ret {a : α} : (ret a : Prog σ ε α).Unguarded Q ↔ Q a := Iff.rfl

@[simp] lemma unguarded_throw {e : ε} : (throw e : Prog σ ε α).Unguarded Q := trivial

@[simp] lemma unguarded_read {f : σ → α} : (read f : Prog σ ε α).Unguarded Q ↔ ∀ s, Q (f s) :=
  Iff.rfl

@[simp] lemma unguarded_perform {Q : Unit → Prop} {act : σ → σ} :
    (perform act : Prog σ ε Unit).Unguarded Q ↔ σ → Q () := Iff.rfl

lemma Unguarded.mono {Q' : α → Prop} {p : Prog σ ε α} (h : p.Unguarded Q) (hQ : ∀ a, Q a → Q' a) :
    p.Unguarded Q' := by
  induction p with
  | ret a => exact hQ a h
  | throw e => trivial
  | step act next ih => exact fun s => ih s (h s)
  | exec w g act next ih => exact ⟨h.1, fun b => ih b (h.2 b)⟩

@[simp] lemma unguarded_bind {R : β → Prop} {p : Prog σ ε α} {k : α → Prog σ ε β} :
    (p >>= k).Unguarded R ↔ p.Unguarded fun a => (k a).Unguarded R := by
  induction p with
  | ret a => rfl
  | throw e => rfl
  | step act next ih => exact forall_congr' ih
  | exec w g act next ih => exact and_congr_right fun _ => forall_congr' ih

@[simp] lemma unguarded_map {R : β → Prop} {p : Prog σ ε α} {f : α → β} :
    (f <$> p).Unguarded R ↔ p.Unguarded fun a => R (f a) := by
  rw [← bind_pure_comp, unguarded_bind]
  rfl

lemma Unguarded.tryCatch {p : Prog σ ε α} {k : ε → Prog σ ε α} (h : p.Unguarded Q)
    (hk : ∀ e, (k e).Unguarded Q) : (p.tryCatch k).Unguarded Q := by
  induction p with
  | ret a => exact h
  | throw e => exact hk e
  | step act next ih => exact fun s => ih s (h s)
  | exec w g act next ih => exact ⟨h.1, fun b => ih b (h.2 b)⟩

@[simp] lemma unguarded_ofExcept {x : Except ε α} :
    (ofExcept x : Prog σ ε α).Unguarded Q ↔ ∀ a, x = .ok a → Q a := by
  cases x <;> simp

/-- The conflicts are left for what comes after. -/
lemma runConflicts_of_unguarded {p : Prog σ ε α} (h : p.Unguarded Q) (n : ℕ) (s : σ) :
    p.runConflicts n s = ((p.run s).1, (p.run s).2, n) := by
  induction p generalizing s with
  | ret a => rfl
  | throw e => rfl
  | step act next ih => exact ih s (h s) (act s)
  | exec w g act next ih =>
    obtain ⟨rfl, hnext⟩ := h
    simp only [runConflicts, run_exec]
    split
    · exact ih true (hnext true) (act s)
    · exact ih false (hnext false) s

end Unguarded

/-- Every exception that the program can raise satisfies `E`. -/
def Raises (E : ε → Prop) : Prog σ ε α → Prop
  | ret _ => True
  | throw e => E e
  | step _ next => ∀ s, (next s).Raises E
  | exec _ _ _ next => ∀ b, (next b).Raises E

section Raises
variable {E : ε → Prop}

@[simp] lemma raises_ret {a : α} : (ret a : Prog σ ε α).Raises E := trivial

@[simp] lemma raises_throw {e : ε} : (throw e : Prog σ ε α).Raises E ↔ E e := Iff.rfl

@[simp] lemma raises_read {f : σ → α} : (read f : Prog σ ε α).Raises E := fun _ => trivial

@[simp] lemma raises_perform {act : σ → σ} : (perform act : Prog σ ε Unit).Raises E :=
  fun _ => trivial

lemma raises_ofExcept {x : Except ε α} (h : ∀ e, x = .error e → E e) :
    (ofExcept x : Prog σ ε α).Raises E := by
  cases x with
  | ok a => trivial
  | error e => exact h e rfl

lemma Raises.bind {p : Prog σ ε α} {k : α → Prog σ ε β} (h : p.Raises E)
    (hk : ∀ a, (k a).Raises E) : (p >>= k).Raises E := by
  induction p with
  | ret a => exact hk a
  | throw e => exact h
  | step act next ih => exact fun s => ih s (h s)
  | exec w g act next ih => exact fun b => ih b (h b)

lemma Raises.map {p : Prog σ ε α} (h : p.Raises E) (f : α → β) : (f <$> p).Raises E := by
  rw [← bind_pure_comp]
  exact h.bind fun _ => trivial

lemma Raises.tryCatch {p : Prog σ ε α} {k : ε → Prog σ ε α} (hk : ∀ e, (k e).Raises E) :
    (p.tryCatch k).Raises E := by
  induction p with
  | ret a => trivial
  | throw e => exact hk e
  | step act next ih => exact fun s => ih s
  | exec w g act next ih => exact fun b => ih b

lemma Raises.run {p : Prog σ ε α} (h : p.Raises E) {s s' : σ} {e : ε}
    (hrun : p.run s = (.error e, s')) : E e := by
  induction p generalizing s with
  | ret a => cases hrun
  | throw e' =>
    cases hrun
    exact h
  | step act next ih => exact ih s (h s) hrun
  | exec w g act next ih =>
    rw [run_exec] at hrun
    split at hrun
    · exact ih true (h true) hrun
    · exact ih false (h false) hrun

end Raises

/-- From states that satisfy `I` every atomic step of the program keeps `I` and is within `G`,
whatever it reads, and what the program returns satisfies `Q`. -/
def Within (I : σ → Prop) (G : σ → σ → Prop) (Q : α → Prop) : Prog σ ε α → Prop
  | ret a => Q a
  | throw _ => True
  | step act next => ∀ s, I s → (I (act s) ∧ G s (act s)) ∧ (next s).Within I G Q
  | exec _ g act next =>
    (∀ s, I s → g s = true → I (act s) ∧ G s (act s)) ∧ ∀ b, (next b).Within I G Q

section Within
variable {I : σ → Prop} {G : σ → σ → Prop} {Q : α → Prop}

@[simp] lemma within_ret {a : α} : (ret a : Prog σ ε α).Within I G Q ↔ Q a := Iff.rfl

@[simp] lemma within_throw {e : ε} : (throw e : Prog σ ε α).Within I G Q := trivial

lemma Within.mono {Q' : α → Prop} {p : Prog σ ε α} (h : p.Within I G Q) (hQ : ∀ a, Q a → Q' a) :
    p.Within I G Q' := by
  induction p with
  | ret a => exact hQ a h
  | throw e => trivial
  | step act next ih => exact fun s hs => ⟨(h s hs).1, ih s (h s hs).2⟩
  | exec w g act next ih => exact ⟨h.1, fun b => ih b (h.2 b)⟩

@[simp] lemma within_bind {R : β → Prop} {p : Prog σ ε α} {k : α → Prog σ ε β} :
    (p >>= k).Within I G R ↔ p.Within I G fun a => (k a).Within I G R := by
  induction p with
  | ret a => rfl
  | throw e => rfl
  | step act next ih => exact forall₂_congr fun s _ => and_congr_right fun _ => ih s
  | exec w g act next ih => exact and_congr_right fun _ => forall_congr' ih

@[simp] lemma within_map {R : β → Prop} {p : Prog σ ε α} {f : α → β} :
    (f <$> p).Within I G R ↔ p.Within I G fun a => R (f a) := by
  rw [← bind_pure_comp, within_bind]
  rfl

lemma Within.tryCatch {p : Prog σ ε α} {k : ε → Prog σ ε α} (h : p.Within I G Q)
    (hk : ∀ e, (k e).Within I G Q) : (p.tryCatch k).Within I G Q := by
  induction p with
  | ret a => exact h
  | throw e => exact hk e
  | step act next ih => exact fun s hs => ⟨(h s hs).1, ih s (h s hs).2⟩
  | exec w g act next ih => exact ⟨h.1, fun b => ih b (h.2 b)⟩

@[simp] lemma within_ofExcept {x : Except ε α} :
    (ofExcept x : Prog σ ε α).Within I G Q ↔ ∀ a, x = .ok a → Q a := by
  cases x <;> simp

lemma within_perform {Q : Unit → Prop} {act : σ → σ} (hQ : Q ())
    (hact : ∀ s, I s → I (act s) ∧ G s (act s)) :
    (perform act : Prog σ ε Unit).Within I G Q :=
  fun s hs => ⟨hact s hs, hQ⟩

/-- A read changes nothing. -/
lemma within_read (hrefl : ∀ s, G s s) {f : σ → α} (hQ : ∀ s, I s → Q (f s)) :
    (read f : Prog σ ε α).Within I G Q :=
  fun s hs => ⟨⟨hs, hrefl s⟩, hQ s hs⟩

/-- What holds of the steps holds of a run. -/
theorem Within.run (hrefl : ∀ s, G s s) (htrans : ∀ a b c, G a b → G b c → G a c)
    {p : Prog σ ε α} (h : p.Within I G Q) {s : σ} (hs : I s) :
    I (p.run s).2 ∧ G s (p.run s).2 := by
  induction p generalizing s with
  | ret a => exact ⟨hs, hrefl s⟩
  | throw e => exact ⟨hs, hrefl s⟩
  | step act next ih =>
    have hstep := (h s hs).1
    have hrest := ih s (h s hs).2 hstep.1
    exact ⟨hrest.1, htrans _ _ _ hstep.2 hrest.2⟩
  | exec w g act next ih =>
    rw [run_exec]
    split
    · next hg =>
      have hstep := h.1 s hs hg
      have hrest := ih true (h.2 true) hstep.1
      exact ⟨hrest.1, htrans _ _ _ hstep.2 hrest.2⟩
    · exact ih false (h.2 false) hs

/-- What holds of the results holds of the one of a run. -/
theorem Within.returns {p : Prog σ ε α} (h : p.Within I G Q) {s s' : σ} {a : α} (hs : I s)
    (hrun : p.run s = (.ok a, s')) : Q a := by
  induction p generalizing s with
  | ret b =>
    cases hrun
    exact h
  | throw e => cases hrun
  | step act next ih => exact ih s (h s hs).2 (h s hs).1.1 hrun
  | exec w g act next ih =>
    rw [run_exec] at hrun
    split at hrun
    · next hg => exact ih true (h.2 true) (h.1 s hs hg).1 hrun
    · exact ih false (h.2 false) hs hrun

end Within

lemma runConflicts_bind (p : Prog σ ε α) (k : α → Prog σ ε β) (n : ℕ) (s : σ) :
    (p >>= k).runConflicts n s = match p.runConflicts n s with
      | (.ok a, s', n') => (k a).runConflicts n' s'
      | (.error e, s', n') => (.error e, s', n') := by
  induction p generalizing n s with
  | ret a => rfl
  | throw e => rfl
  | step act next ih => exact ih s n (act s)
  | exec w g act next ih =>
    cases w with
    | false =>
      simp only [exec_bind, runConflicts]
      split
      · exact ih true n (act s)
      · exact ih false n s
    | true =>
      cases n with
      | succ n => exact ih false n s
      | zero =>
        simp only [exec_bind, runConflicts]
        split
        · exact ih true 0 (act s)
        · exact ih false 0 s

/-- A run in which the list says, for one commit under a watch after the other, whether it fails
whatever its guard says; also returns what is left of the list. -/
def runOutcomes : Prog σ ε α → List Bool → σ → Except ε α × σ × List Bool
  | ret a, os, s => (.ok a, s, os)
  | throw e, os, s => (.error e, s, os)
  | step act next, os, s => (next s).runOutcomes os (act s)
  | exec true _ _ next, true :: os, s => (next false).runOutcomes os s
  | exec true g act next, false :: os, s =>
    if g s then (next true).runOutcomes os (act s) else (next false).runOutcomes os s
  | exec true g act next, [], s =>
    if g s then (next true).runOutcomes [] (act s) else (next false).runOutcomes [] s
  | exec false g act next, os, s =>
    if g s then (next true).runOutcomes os (act s) else (next false).runOutcomes os s

section Outcomes
variable {p : Prog σ ε α} {k : α → Prog σ ε β} {os os' : List Bool} {s s' : σ}

lemma runOutcomes_bind (p : Prog σ ε α) (k : α → Prog σ ε β) (os : List Bool) (s : σ) :
    (p >>= k).runOutcomes os s = match p.runOutcomes os s with
      | (.ok a, s', os') => (k a).runOutcomes os' s'
      | (.error e, s', os') => (.error e, s', os') := by
  induction p generalizing os s with
  | ret a => rfl
  | throw e => rfl
  | step act next ih => exact ih s os (act s)
  | exec w g act next ih =>
    cases w with
    | false =>
      simp only [exec_bind, runOutcomes]
      split
      · exact ih true os (act s)
      · exact ih false os s
    | true =>
      match os with
      | true :: os => exact ih false os s
      | false :: os =>
        simp only [exec_bind, runOutcomes]
        split
        · exact ih true os (act s)
        · exact ih false os s
      | [] =>
        simp only [exec_bind, runOutcomes]
        split
        · exact ih true [] (act s)
        · exact ih false [] s

lemma runOutcomes_bind_ok {a : α} (h : p.runOutcomes os s = (.ok a, s', os')) :
    (p >>= k).runOutcomes os s = (k a).runOutcomes os' s' := by
  rw [runOutcomes_bind, h]

lemma runOutcomes_bind_error {e : ε} (h : p.runOutcomes os s = (.error e, s', os')) :
    (p >>= k).runOutcomes os s = (.error e, s', os') := by
  rw [runOutcomes_bind, h]

/-- The outcomes are left for what comes after. -/
lemma runOutcomes_of_unguarded {Q : α → Prop} (h : p.Unguarded Q) (os : List Bool) (s : σ) :
    p.runOutcomes os s = ((p.run s).1, (p.run s).2, os) := by
  induction p generalizing s with
  | ret a => rfl
  | throw e => rfl
  | step act next ih => exact ih s (h s) (act s)
  | exec w g act next ih =>
    obtain ⟨rfl, hnext⟩ := h
    simp only [runOutcomes, run_exec]
    split
    · exact ih true (hnext true) (act s)
    · exact ih false (hnext false) s

lemma runOutcomes_bind_unguarded {Q : α → Prop} {a : α} (h : p.Unguarded Q)
    (hrun : p.run s = (.ok a, s')) :
    (p >>= k).runOutcomes os s = (k a).runOutcomes os s' := by
  have houtcomes := runOutcomes_of_unguarded h os s
  rw [hrun] at houtcomes
  exact runOutcomes_bind_ok houtcomes

end Outcomes

/-- Without conflicts it is the ordinary run. -/
lemma runConflicts_zero (p : Prog σ ε α) (s : σ) :
    p.runConflicts 0 s = ((p.run s).1, (p.run s).2, 0) := by
  induction p generalizing s with
  | ret a => rfl
  | throw e => rfl
  | step act next ih => exact ih s (act s)
  | exec w g act next ih =>
    cases w <;>
    · simp only [runConflicts, run_exec]
      split
      · exact ih true (act s)
      · exact ih false s

lemma run_tryCatch (p : Prog σ ε α) (k : ε → Prog σ ε α) (s : σ) :
    (p.tryCatch k).run s = match p.run s with
      | (.ok a, s') => (.ok a, s')
      | (.error e, s') => (k e).run s' := by
  induction p generalizing s with
  | ret a => rfl
  | throw e => rfl
  | step act next ih => exact ih s (act s)
  | exec w g act next ih =>
    simp only [Prog.tryCatch, run_exec]
    split
    · exact ih true (act s)
    · exact ih false s

/-- The state left by a process that stops for ever after its first `n` steps. -/
def crash : Prog σ ε α → ℕ → σ → σ
  | _, 0, s => s
  | ret _, _ + 1, s => s
  | throw _, _ + 1, s => s
  | step act next, n + 1, s => (next s).crash n (act s)
  | exec _ g act next, n + 1, s =>
    if g s then (next true).crash n (act s) else (next false).crash n s

/-- Also of the part of a run that a process gets to before it stops. -/
theorem Within.crash {I : σ → Prop} {G : σ → σ → Prop} {Q : α → Prop} (hrefl : ∀ s, G s s)
    (htrans : ∀ a b c, G a b → G b c → G a c) {p : Prog σ ε α} (h : p.Within I G Q) (n : ℕ) {s : σ}
    (hs : I s) : I (p.crash n s) ∧ G s (p.crash n s) := by
  induction p generalizing n s with
  | ret a => cases n <;> exact ⟨hs, hrefl s⟩
  | throw e => cases n <;> exact ⟨hs, hrefl s⟩
  | step act next ih =>
    cases n with
    | zero => exact ⟨hs, hrefl s⟩
    | succ n =>
      have hstep := (h s hs).1
      have hrest := ih s (h s hs).2 n hstep.1
      exact ⟨hrest.1, htrans _ _ _ hstep.2 hrest.2⟩
  | exec w g act next ih =>
    cases n with
    | zero => exact ⟨hs, hrefl s⟩
    | succ n =>
      unfold Prog.crash
      split
      · next hg =>
        have hstep := h.1 s hs hg
        have hrest := ih true (h.2 true) n hstep.1
        exact ⟨hrest.1, htrans _ _ _ hstep.2 hrest.2⟩
      · exact ih false (h.2 false) n hs

/-- The program has come to an end. -/
def Returned (p : Prog σ ε α) : Prop := (∃ a, p = ret a) ∨ ∃ e, p = throw e

/-- A single step of a program. -/
def advance : Prog σ ε α → σ → Option (Prog σ ε α × σ)
  | ret _, _ => none
  | throw _, _ => none
  | step act next, s => some (next s, act s)
  | exec _ g act next, s => if g s then some (next true, act s) else some (next false, s)

/-- What holds of the steps holds of one step and of the rest. -/
theorem Within.advance {I : σ → Prop} {G : σ → σ → Prop} {Q : α → Prop} (hrefl : ∀ s, G s s)
    {p p' : Prog σ ε α} {s s' : σ} (h : p.Within I G Q) (hs : I s)
    (hadv : p.advance s = some (p', s')) : I s' ∧ G s s' ∧ p'.Within I G Q := by
  cases p with
  | ret a => cases hadv
  | throw e => cases hadv
  | step act next =>
    cases hadv
    exact ⟨(h s hs).1.1, (h s hs).1.2, (h s hs).2⟩
  | exec w g act next =>
    cases hg : g s with
    | true =>
      obtain ⟨rfl, rfl⟩ : next true = p' ∧ act s = s' := by simpa [Prog.advance, hg] using hadv
      exact ⟨(h.1 s hs hg).1, (h.1 s hs hg).2, h.2 true⟩
    | false =>
      obtain ⟨rfl, rfl⟩ : next false = p' ∧ s = s' := by simpa [Prog.advance, hg] using hadv
      exact ⟨hs, hrefl s, h.2 false⟩

/-- `p'` is what is left of `p` after some of its steps, whatever the others have done in between. -/
def Leaves : Prog σ ε α → Prog σ ε α → Prop :=
  Relation.ReflTransGen fun p p' => ∃ s s', p.advance s = some (p', s')

lemma Leaves.of_advance {C : Prog σ ε α → Prop} {p p' : Prog σ ε α}
    (hadvance : ∀ p s p' s', C p → p.advance s = some (p', s') → C p') (hl : p.Leaves p')
    (h : C p) : C p' := by
  induction hl with
  | refl => exact h
  | tail _ hlast ih =>
    obtain ⟨s, s', hadv⟩ := hlast
    exact hadvance _ _ _ _ ih hadv

/-- What holds of the steps from any state holds of the steps that are left. -/
theorem Within.leaves {G : σ → σ → Prop} {Q : α → Prop} (hrefl : ∀ s, G s s) {p p' : Prog σ ε α}
    (h : p.Within (fun _ => True) G Q) (hl : p.Leaves p') : p'.Within (fun _ => True) G Q :=
  hl.of_advance (fun _ _ _ _ hp hadv => (hp.advance hrefl trivial hadv).2.2) h

/-! ## Rely-guarantee triples -/

/-- Started in `s`, and whatever the other processes do within the rely `R`, every step of the
program is within the guarantee `G` and its outcome satisfies `Q`. -/
def Safe (R G : σ → σ → Prop) (Q : Except ε α → σ → Prop) : Prog σ ε α → σ → Prop
  | ret a, s => Q (.ok a) s
  | throw e, s => Q (.error e) s
  | step act next, s => ∀ s', R s s' → G s' (act s') ∧ (next s').Safe R G Q (act s')
  | exec _ g act next, s => ∀ s', R s s' →
      (g s' = true → G s' (act s') ∧ (next true).Safe R G Q (act s')) ∧
      (g s' = false → (next false).Safe R G Q s')

section Safe
variable {R G : σ → σ → Prop} {Q Q' : Except ε α → σ → Prop}

/-- The steps of the others do not invalidate a triple. -/
theorem Safe.rely (htrans : ∀ a b c, R a b → R b c → R a c)
    (hstable : ∀ r s s', R s s' → Q r s → Q r s') {p : Prog σ ε α} {s s' : σ}
    (h : p.Safe R G Q s) (hr : R s s') : p.Safe R G Q s' := by
  cases p with
  | ret a => exact hstable _ _ _ hr h
  | throw e => exact hstable _ _ _ hr h
  | step act next => exact fun t ht => h t (htrans _ _ _ hr ht)
  | exec w g act next => exact fun t ht => h t (htrans _ _ _ hr ht)

theorem Safe.bind {Q₂ : Except ε β → σ → Prop} {p : Prog σ ε α} {k : α → Prog σ ε β} {s : σ}
    (h : p.Safe R G Q s) (hk : ∀ a s, Q (.ok a) s → (k a).Safe R G Q₂ s)
    (he : ∀ e s, Q (.error e) s → Q₂ (.error e) s) : (p >>= k).Safe R G Q₂ s := by
  induction p generalizing s with
  | ret a => exact hk a s h
  | throw e => exact he e s h
  | step act next ih => exact fun t ht => ⟨(h t ht).1, ih t (h t ht).2⟩
  | exec w g act next ih =>
    exact fun t ht => ⟨fun hg => ⟨((h t ht).1 hg).1, ih true ((h t ht).1 hg).2⟩,
      fun hg => ih false ((h t ht).2 hg)⟩

end Safe

end Prog

/-! ## Processes interleaved -/

/-- Processes `procs i` that share the state `store`. -/
structure System (ι σ ε : Type) where
  procs : ι → Prog σ ε Unit
  store : σ

namespace System

variable {ι σ ε : Type} [DecidableEq ι]

/-- Process `i` makes one step. -/
inductive Step (i : ι) : System ι σ ε → System ι σ ε → Prop where
  | mk {P : System ι σ ε} {p : Prog σ ε Unit} {s : σ}
      (h : (P.procs i).advance P.store = some (p, s)) :
      Step i P ⟨Function.update P.procs i p, s⟩

/-- `P'` is reached from `P` by some interleaving of the processes. -/
def Reaches : System ι σ ε → System ι σ ε → Prop :=
  Relation.ReflTransGen fun P P' => ∃ i, Step i P P'

/-- Every process has returned. -/
def Done (P : System ι σ ε) : Prop := ∀ i, P.procs i = .ret ()

lemma Step.advance_eq {i : ι} {P P' : System ι σ ε} (h : Step i P P') :
    (P.procs i).advance P.store = some (P'.procs i, P'.store) := by
  obtain ⟨h⟩ := h
  simpa using h

/-- **The rule of invariants.** -/
theorem invariant {I : System ι σ ε → Prop} (hstep : ∀ i P P', Step i P P' → I P → I P')
    {P P' : System ι σ ε} (h : I P) (hr : Reaches P P') : I P' := by
  induction hr with
  | refl => exact h
  | tail _ hlast ih =>
    obtain ⟨i, hi⟩ := hlast
    exact hstep i _ _ hi ih

lemma Step.procs_of_ne {i j : ι} {P P' : System ι σ ε} (h : Step i P P') (hj : j ≠ i) :
    P'.procs j = P.procs j := by
  obtain ⟨h⟩ := h
  exact Function.update_of_ne hj _ _

/-- The processes make one step each in the order given; `none` if one of them cannot. -/
def after (P : System ι σ ε) : List ι → Option (System ι σ ε)
  | [] => some P
  | i :: is => ((P.procs i).advance P.store).bind fun r =>
      after ⟨Function.update P.procs i r.1, r.2⟩ is

lemma reaches_of_after {P P' : System ι σ ε} (is : List ι) (h : P.after is = some P') :
    Reaches P P' := by
  induction is generalizing P with
  | nil =>
    obtain rfl : P = P' := by simpa [after] using h
    exact .refl
  | cons i is ih =>
    simp only [after, Option.bind_eq_some_iff] at h
    obtain ⟨r, hr, h⟩ := h
    exact .head ⟨i, .mk hr⟩ (ih h)

/-- What the steps of every process keep, whatever the others do that keeps it too, is never lost. -/
theorem Reaches.of_within {I : σ → Prop} {P P' : System ι σ ε}
    (hprocs : ∀ i, (P.procs i).Within I (fun _ _ => True) fun _ => True) (hI : I P.store)
    (hr : Reaches P P') : I P'.store := by
  have hinvariant := invariant
    (I := fun P => I P.store ∧ ∀ i, (P.procs i).Within I (fun _ _ => True) fun _ => True)
    (fun i P P' hstep h => ?_) ⟨hI, hprocs⟩ hr
  · exact hinvariant.1
  · obtain ⟨hI, hprocs⟩ := h
    have hadv := (hprocs i).advance (fun _ => trivial) hI hstep.advance_eq
    refine ⟨hadv.1, fun j => ?_⟩
    by_cases hj : j = i
    · exact hj ▸ hadv.2.2
    · rw [hstep.procs_of_ne hj]
      exact hprocs j

/-- A step of one process, and then that process alone. -/
lemma exists_reaches_advance {P : System ι σ ε} {i : ι} {p : Prog σ ε Unit} {s : σ}
    (hadv : (P.procs i).advance P.store = some (p, s))
    (hrest : ∀ P : System ι σ ε, P.procs i = p → ∃ P', Reaches P P' ∧ P'.store = (p.run P.store).2) :
    ∃ P', Reaches P P' ∧ P'.store = (p.run s).2 := by
  obtain ⟨P', hreaches, hstore⟩ := hrest ⟨Function.update P.procs i p, s⟩ (by simp)
  exact ⟨P', .head ⟨i, .mk hadv⟩ hreaches, hstore⟩

/-- One process alone is an interleaving. -/
lemma exists_reaches_run (P : System ι σ ε) (i : ι) :
    ∃ P', Reaches P P' ∧ P'.store = ((P.procs i).run P.store).2 := by
  generalize hp : P.procs i = p
  induction p generalizing P with
  | ret a => exact ⟨P, .refl, rfl⟩
  | throw e => exact ⟨P, .refl, rfl⟩
  | step act next ih =>
    rw [Prog.run_step]
    exact exists_reaches_advance (by rw [hp]; rfl) (ih P.store)
  | exec w g act next ih =>
    rw [Prog.run_exec]
    split
    · next hg => exact exists_reaches_advance (by rw [hp]; exact if_pos hg) (ih true)
    · next hg => exact exists_reaches_advance (by rw [hp]; exact if_neg hg) (ih false)

/-- A step of an interleaving: the process that makes it, and the states before and after. -/
structure Event (ι σ : Type) where
  proc : ι
  before : σ
  after : σ

/-- `P'` is reached from `P` by the steps `es`. -/
inductive Path (P : System ι σ ε) : List (Event ι σ) → System ι σ ε → Prop
  | start : Path P [] P
  | step {es : List (Event ι σ)} {P' P'' : System ι σ ε} {i : ι} (h : Path P es P')
      (hs : Step i P' P'') : Path P (es ++ [⟨i, P'.store, P''.store⟩]) P''

/-- The rule of invariants, for what may depend on the steps. -/
theorem Path.invariant {P : System ι σ ε} {I : List (Event ι σ) → System ι σ ε → Prop}
    (hstart : I [] P)
    (hstep : ∀ es P' P'' i, I es P' → Step i P' P'' → I (es ++ [⟨i, P'.store, P''.store⟩]) P'')
    {es : List (Event ι σ)} {P' : System ι σ ε} (h : Path P es P') : I es P' := by
  induction h with
  | start => exact hstart
  | step _ hs ih => exact hstep _ _ _ _ ih hs

lemma exists_path_of_reaches {P P' : System ι σ ε} (h : Reaches P P') : ∃ es, Path P es P' := by
  induction h with
  | refl => exact ⟨[], .start⟩
  | tail _ hlast ih =>
    obtain ⟨es, hpath⟩ := ih
    obtain ⟨i, hi⟩ := hlast
    exact ⟨_, hpath.step hi⟩

section Safe
variable {R G : ι → σ → σ → Prop} {Q : ι → Except ε Unit → σ → Prop}

/-- Every process satisfies its triple in the current state. -/
def AllSafe (R G : ι → σ → σ → Prop) (Q : ι → Except ε Unit → σ → Prop) (P : System ι σ ε) :
    Prop :=
  ∀ i, (P.procs i).Safe (R i) (G i) (Q i) P.store

/-- One step keeps all the triples, provided that what each process guarantees is what the others
rely on. It is within the guarantee of the process that makes it, or changes nothing. -/
theorem AllSafe.step (hrefl : ∀ i s, R i s s) (htrans : ∀ i a b c, R i a b → R i b c → R i a c)
    (hstable : ∀ i r s s', R i s s' → Q i r s → Q i r s')
    (hGR : ∀ i j, i ≠ j → ∀ s s', G i s s' → R j s s')
    {P P' : System ι σ ε} {i : ι} (h : AllSafe R G Q P) (hs : Step i P P') :
    AllSafe R G Q P' ∧ (G i P.store P'.store ∨ P'.store = P.store) := by
  obtain @⟨p, s, hadv⟩ := hs
  have hi := h i
  have key : p.Safe (R i) (G i) (Q i) s ∧ (G i P.store s ∨ s = P.store) := by
    cases hp : P.procs i with
    | ret a => simp [hp, Prog.advance] at hadv
    | throw e => simp [hp, Prog.advance] at hadv
    | step act next =>
      rw [hp] at hi hadv
      obtain ⟨rfl, rfl⟩ : next P.store = p ∧ act P.store = s := by simpa [Prog.advance] using hadv
      exact ⟨(hi _ (hrefl i _)).2, .inl (hi _ (hrefl i _)).1⟩
    | exec w g act next =>
      rw [hp] at hi hadv
      cases hg : g P.store with
      | true =>
        obtain ⟨rfl, rfl⟩ : next true = p ∧ act P.store = s := by
          simpa [Prog.advance, hg] using hadv
        exact ⟨((hi _ (hrefl i _)).1 hg).2, .inl ((hi _ (hrefl i _)).1 hg).1⟩
      | false =>
        obtain ⟨rfl, rfl⟩ : next false = p ∧ P.store = s := by
          simpa [Prog.advance, hg] using hadv
        exact ⟨(hi _ (hrefl i _)).2 hg, .inr rfl⟩
  refine ⟨fun j => ?_, key.2⟩
  by_cases hj : j = i
  · subst hj
    simpa using key.1
  · have hR : R j P.store s := by
      rcases key.2 with hG | rfl
      · exact hGR i j (Ne.symm hj) _ _ hG
      · exact hrefl j _
    simpa [Function.update_of_ne hj] using (h j).rely (htrans j) (hstable j) hR

end Safe

end System
