import RedisQueue.Lib.Prog

/-!
# Programs among others

A program that shares its state with processes about which nothing is known: between any two of its
steps they may change the state in any way.

* `Prog.Among`: the program runs through a list of `Moment`s, the states that its steps find;
* `Prog.Yields`: what every such run returns, and the rules for sequences;
* `Prog.replay`: the run for a list of states, computed.
-/

namespace Prog

variable {σ ε α β : Type}

/-- A step of a program: the state that it finds, and for a commit whether it succeeds. -/
inductive Moment (σ : Type) where
  | step (found : σ)
  | commit (found : σ) (succeeds : Bool)

namespace Moment

/-- A commit that fails. -/
def conflict : Moment σ → Bool
  | step _ => false
  | commit _ succeeds => !succeeds

end Moment

/-- The number of the commits that fail. -/
def conflicts (ms : List (Moment σ)) : ℕ := ms.countP Moment.conflict

@[simp] lemma conflicts_append (ms ms' : List (Moment σ)) :
    conflicts (ms ++ ms') = conflicts ms + conflicts ms' := List.countP_append

/-- The program runs through these moments and ends with this result. -/
def Among : Prog σ ε α → List (Moment σ) → Except ε α → Prop
  | ret a, ms, r => ms = [] ∧ r = .ok a
  | throw e, ms, r => ms = [] ∧ r = .error e
  | step _ next, ms, r => ∃ s ms', ms = .step s :: ms' ∧ (next s).Among ms' r
  | exec _ g _ next, ms, r => ∃ s ms', ms = .commit s (g s) :: ms' ∧ (next (g s)).Among ms' r

section Among
variable {p : Prog σ ε α} {k : α → Prog σ ε β} {ms : List (Moment σ)}

@[simp] lemma among_ret {a : α} {r : Except ε α} :
    (ret a : Prog σ ε α).Among ms r ↔ ms = [] ∧ r = .ok a := Iff.rfl

@[simp] lemma among_throw {e : ε} {r : Except ε α} :
    (throw e : Prog σ ε α).Among ms r ↔ ms = [] ∧ r = .error e := Iff.rfl

@[simp] lemma among_read {f : σ → α} {r : Except ε α} :
    (read f : Prog σ ε α).Among ms r ↔ ∃ s, ms = [.step s] ∧ r = .ok (f s) := by
  constructor
  · rintro ⟨s, ms', rfl, rfl, rfl⟩
    exact ⟨s, rfl, rfl⟩
  · rintro ⟨s, rfl, rfl⟩
    exact ⟨s, [], rfl, rfl, rfl⟩

/-- A sequence ends with the error of its first part, or both parts run one after the other. -/
theorem among_bind {r : Except ε β} : (p >>= k).Among ms r ↔
    (∃ e, p.Among ms (.error e) ∧ r = .error e) ∨
      ∃ a ms₁ ms₂, ms = ms₁ ++ ms₂ ∧ p.Among ms₁ (.ok a) ∧ (k a).Among ms₂ r := by
  induction p generalizing ms with
  | ret a =>
    constructor
    · exact fun h => .inr ⟨a, [], ms, rfl, ⟨rfl, rfl⟩, h⟩
    · rintro (⟨e, ⟨-, he⟩, -⟩ | ⟨b, -, ms₂, rfl, ⟨rfl, hb⟩, hk⟩)
      · cases he
      · cases hb
        exact hk
  | throw e =>
    constructor
    · rintro ⟨rfl, rfl⟩
      exact .inl ⟨e, ⟨rfl, rfl⟩, rfl⟩
    · rintro (⟨e', ⟨rfl, he⟩, rfl⟩ | ⟨b, -, ms₂, rfl, ⟨-, hb⟩, -⟩)
      · cases he
        exact ⟨rfl, rfl⟩
      · cases hb
  | step act next ih =>
    constructor
    · rintro ⟨s, ms', rfl, h⟩
      rcases (ih s).mp h with ⟨e, he, rfl⟩ | ⟨a, ms₁, ms₂, rfl, ha, hk⟩
      · exact .inl ⟨e, ⟨s, ms', rfl, he⟩, rfl⟩
      · exact .inr ⟨a, .step s :: ms₁, ms₂, rfl, ⟨s, ms₁, rfl, ha⟩, hk⟩
    · rintro (⟨e, ⟨s, ms', rfl, he⟩, rfl⟩ | ⟨a, -, ms₂, rfl, ⟨s, ms₁, rfl, ha⟩, hk⟩)
      · exact ⟨s, ms', rfl, (ih s).mpr (.inl ⟨e, he, rfl⟩)⟩
      · exact ⟨s, ms₁ ++ ms₂, rfl, (ih s).mpr (.inr ⟨a, ms₁, ms₂, rfl, ha, hk⟩)⟩
  | exec w g act next ih =>
    constructor
    · rintro ⟨s, ms', rfl, h⟩
      rcases (ih (g s)).mp h with ⟨e, he, rfl⟩ | ⟨a, ms₁, ms₂, rfl, ha, hk⟩
      · exact .inl ⟨e, ⟨s, ms', rfl, he⟩, rfl⟩
      · exact .inr ⟨a, .commit s (g s) :: ms₁, ms₂, rfl, ⟨s, ms₁, rfl, ha⟩, hk⟩
    · rintro (⟨e, ⟨s, ms', rfl, he⟩, rfl⟩ | ⟨a, -, ms₂, rfl, ⟨s, ms₁, rfl, ha⟩, hk⟩)
      · exact ⟨s, ms', rfl, (ih (g s)).mpr (.inl ⟨e, he, rfl⟩)⟩
      · exact ⟨s, ms₁ ++ ms₂, rfl, (ih (g s)).mpr (.inr ⟨a, ms₁, ms₂, rfl, ha, hk⟩)⟩

lemma among_map {f : α → β} {r : Except ε β} : (f <$> p).Among ms r ↔
    (∃ e, p.Among ms (.error e) ∧ r = .error e) ∨ ∃ a, p.Among ms (.ok a) ∧ r = .ok (f a) := by
  rw [← bind_pure_comp, among_bind]
  refine or_congr_right ⟨?_, ?_⟩
  · rintro ⟨a, ms₁, -, rfl, ha, rfl, rfl⟩
    exact ⟨a, by simpa using ha, rfl⟩
  · rintro ⟨a, ha, rfl⟩
    exact ⟨a, ms, [], by simp, ha, rfl, rfl⟩

/-- Every run of the program returns a value, and `P` holds of its moments and of that value. -/
def Yields (P : List (Moment σ) → α → Prop) (p : Prog σ ε α) : Prop :=
  ∀ ms r, p.Among ms r → ∃ a, r = .ok a ∧ P ms a

lemma yields_read (f : σ → α) :
    (read f : Prog σ ε α).Yields fun ms a => ∃ s, ms = [.step s] ∧ a = f s := by
  intro ms r h
  obtain ⟨s, rfl, rfl⟩ := among_read.mp h
  exact ⟨f s, rfl, s, rfl, rfl⟩

lemma Yields.map {P : List (Moment σ) → α → Prop} {f : α → β} (h : p.Yields P) :
    (f <$> p).Yields fun ms b => ∃ a, P ms a ∧ b = f a := by
  intro ms r hrun
  rcases among_map.mp hrun with ⟨e, he, -⟩ | ⟨a, ha, rfl⟩
  · obtain ⟨a, hok, -⟩ := h _ _ he
    cases hok
  · obtain ⟨a', hok, hP⟩ := h _ _ ha
    cases hok
    exact ⟨f a, rfl, a, hP, rfl⟩

/-- The rest of a sequence whose first part always returns. -/
theorem Yields.among_bind {P : List (Moment σ) → α → Prop} (h : p.Yields P) {r : Except ε β}
    (hrun : (p >>= k).Among ms r) :
    ∃ a ms₁ ms₂, ms = ms₁ ++ ms₂ ∧ P ms₁ a ∧ (k a).Among ms₂ r := by
  rcases Prog.among_bind.mp hrun with ⟨e, he, -⟩ | ⟨a, ms₁, ms₂, hms, ha, hk⟩
  · obtain ⟨a, hok, -⟩ := h _ _ he
    cases hok
  · obtain ⟨a', hok, hP⟩ := h _ _ ha
    cases hok
    exact ⟨a, ms₁, ms₂, hms, hP, hk⟩

end Among

/-! ## Computing a run -/

/-- The run in which the steps find these states, if it has as many steps. -/
def replay : Prog σ ε α → List σ → Option (List (Moment σ) × Except ε α)
  | ret a, [] => some ([], .ok a)
  | throw e, [] => some ([], .error e)
  | step _ next, s :: ss => ((next s).replay ss).map fun r => (.step s :: r.1, r.2)
  | exec _ g _ next, s :: ss =>
    ((next (g s)).replay ss).map fun r => (.commit s (g s) :: r.1, r.2)
  | _, _ => none

lemma among_of_replay {p : Prog σ ε α} {ss : List σ} {ms : List (Moment σ)} {r : Except ε α}
    (h : p.replay ss = some (ms, r)) : p.Among ms r := by
  induction p generalizing ss ms with
  | ret a =>
    cases ss with
    | nil =>
      cases h
      exact ⟨rfl, rfl⟩
    | cons s ss => cases h
  | throw e =>
    cases ss with
    | nil =>
      cases h
      exact ⟨rfl, rfl⟩
    | cons s ss => cases h
  | step act next ih =>
    cases ss with
    | nil => cases h
    | cons s ss =>
      obtain ⟨⟨ms', r'⟩, hrest, heq⟩ := Option.map_eq_some_iff.mp h
      cases heq
      exact ⟨s, ms', rfl, ih s hrest⟩
  | exec w g act next ih =>
    cases ss with
    | nil => cases h
    | cons s ss =>
      obtain ⟨⟨ms', r'⟩, hrest, heq⟩ := Option.map_eq_some_iff.mp h
      cases heq
      exact ⟨s, ms', rfl, ih (g s) hrest⟩

end Prog
