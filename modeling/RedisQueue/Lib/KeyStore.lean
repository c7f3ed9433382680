import Mathlib.Data.Int.Notation
import RedisQueue.Lib.Prog

/-!
# A versioned key store with optimistic transactions

`KeyStore κ V` maps every key to a value (a missing key holds `default`), to a version that counts
its modifications, and to an expiry time. `Command`s are the atomic modifications; each carries the
proof that it never changes a value without changing the version, so a transaction (`Pipeline`)
that finds the versions of its watched keys unchanged sees the values it has read.
-/

/-- Raising the errors of the server and of its client library. -/
class StoreErrors (ε : Type) where
  redisError : String → ε
  responseError : String → ε

structure KeyStore (κ : Type) (V : κ → Type) where
  val : (k : κ) → V k
  ver : κ → ℕ
  exp : κ → Option ℤ

namespace KeyStore

variable {κ : Type} {V : κ → Type}

/-- `s'` comes after `s`: versions never decrease, and an unchanged version means an unchanged
value. -/
def Later (s s' : KeyStore κ V) : Prop :=
  ∀ k, s.ver k ≤ s'.ver k ∧ (s'.ver k = s.ver k → s'.val k = s.val k)

lemma Later.refl (s : KeyStore κ V) : s.Later s := fun _ => ⟨Nat.le_refl _, fun _ => rfl⟩

lemma Later.trans {s t u : KeyStore κ V} (h : s.Later t) (h' : t.Later u) : s.Later u := by
  intro k
  have h1 := h k
  have h2 := h' k
  refine ⟨Nat.le_trans h1.1 h2.1, fun he => ?_⟩
  rw [h2.2 (by omega), h1.2 (by omega)]

/-- The stores have the same value at `k`, with the same expiry. -/
def AgreeAt (k : κ) (s t : KeyStore κ V) : Prop := s.val k = t.val k ∧ s.exp k = t.exp k

lemma AgreeAt.trans {k : κ} {s t u : KeyStore κ V} (h : AgreeAt k s t) (h' : AgreeAt k t u) :
    AgreeAt k s u := ⟨h.1.trans h'.1, h.2.trans h'.2⟩

lemma AgreeAt.symm {k : κ} {s t : KeyStore κ V} (h : AgreeAt k s t) : AgreeAt k t s :=
  ⟨h.1.symm, h.2.symm⟩

variable [DecidableEq κ] [∀ k, DecidableEq (V k)] [∀ k, Inhabited (V k)]

/-- Sets the value of a key. An emptied key is gone, and its expiry with it. -/
def put (s : KeyStore κ V) (k : κ) (v : V k) : KeyStore κ V where
  val := Function.update s.val k v
  ver := Function.update s.ver k (s.ver k + 1)
  exp := if v = default then Function.update s.exp k none else s.exp

lemma later_put (s : KeyStore κ V) (k : κ) (v : V k) : s.Later (s.put k v) := by
  intro k'
  by_cases h : k' = k
  · subst h
    simp [put]
  · simp [put, h]

omit [DecidableEq κ] [∀ k, DecidableEq (V k)] [∀ k, Inhabited (V k)] in
/-- The expiry of the key is past. -/
def Expired (s : KeyStore κ V) (t : ℤ) (k : κ) : Prop :=
  ∃ t' ∈ s.exp k, t' < t

omit [DecidableEq κ] [∀ k, DecidableEq (V k)] [∀ k, Inhabited (V k)] in
instance (s : KeyStore κ V) (t : ℤ) (k : κ) : Decidable (s.Expired t k) :=
  inferInstanceAs (Decidable (∃ t' ∈ s.exp k, t' < t))

omit [DecidableEq κ] [∀ k, DecidableEq (V k)] in
/-- The store at the time `t`: the keys whose expiry is past are gone. -/
def expireAt (s : KeyStore κ V) (t : ℤ) : KeyStore κ V where
  val k := if s.Expired t k then default else s.val k
  ver k := if s.Expired t k then s.ver k + 1 else s.ver k
  exp k := if s.Expired t k then none else s.exp k

end KeyStore

/-! ## Commands -/

/-- An atomic modification of the store. -/
structure Command (κ : Type) (V : κ → Type) where
  run : KeyStore κ V → KeyStore κ V
  later : ∀ s : KeyStore κ V, s.Later (run s)

namespace Command

open KeyStore

variable {κ : Type} {V : κ → Type}

/-- Several commands as one atomic one (`MULTI`/`EXEC`, a script). -/
def seq : List (Command κ V) → Command κ V
  | [] => ⟨id, Later.refl⟩
  | c :: cs => ⟨fun s => (seq cs).run (c.run s), fun s => (c.later s).trans ((seq cs).later _)⟩

@[simp] lemma seq_nil_run (s : KeyStore κ V) : (seq [] : Command κ V).run s = s := rfl

@[simp] lemma seq_cons_run (c : Command κ V) (cs : List (Command κ V)) (s : KeyStore κ V) :
    (seq (c :: cs)).run s = (seq cs).run (c.run s) := rfl

@[simp] lemma seq_append_run (cs cs' : List (Command κ V)) (s : KeyStore κ V) :
    (seq (cs ++ cs')).run s = (seq cs').run ((seq cs).run s) := by
  induction cs generalizing s with
  | nil => rfl
  | cons c cs ih => exact ih (c.run s)

variable [DecidableEq κ] [∀ k, DecidableEq (V k)] [∀ k, Inhabited (V k)]

/-- A command that counts as a modification even when the value stays the same. -/
def write (k : κ) (f : V k → V k) : Command κ V where
  run s := s.put k (f (s.val k))
  later s := later_put s k _

/-- A command that counts as a modification only if it changes the value. -/
def alter (k : κ) (f : V k → V k) : Command κ V where
  run s := if f (s.val k) = s.val k then s else s.put k (f (s.val k))
  later s := by
    split
    · exact Later.refl s
    · exact later_put s k _

/-- `DEL`. -/
def del (k : κ) : Command κ V := alter k fun _ => default

/-- `EXPIRE`, with the absolute time `t`; a modification of any key that exists. -/
def expire (k : κ) (t : ℤ) : Command κ V where
  run s := if s.val k = default then s else
    { s with ver := Function.update s.ver k (s.ver k + 1), exp := Function.update s.exp k (some t) }
  later s := by
    split
    · exact Later.refl s
    · intro k'
      by_cases h : k' = k
      · subst h
        simp
      · simp [h]

/-- `PERSIST`, a modification if the key had an expiry. -/
def persist (k : κ) : Command κ V where
  run s := if s.exp k = none then s else
    { s with ver := Function.update s.ver k (s.ver k + 1), exp := Function.update s.exp k none }
  later s := by
    split
    · exact Later.refl s
    · intro k'
      by_cases h : k' = k
      · subst h
        simp
      · simp [h]

@[simp] lemma val_write (k : κ) (f : V k → V k) (s : KeyStore κ V) :
    ((write k f).run s).val = Function.update s.val k (f (s.val k)) := rfl

@[simp] lemma val_alter (k : κ) (f : V k → V k) (s : KeyStore κ V) :
    ((alter k f).run s).val = Function.update s.val k (f (s.val k)) := by
  simp only [alter]
  split
  · next h => rw [h, Function.update_eq_self]
  · rfl

@[simp] lemma val_del (k : κ) (s : KeyStore κ V) :
    ((del k).run s).val = Function.update s.val k default := val_alter k _ s

@[simp] lemma val_expire (k : κ) (t : ℤ) (s : KeyStore κ V) : ((expire k t).run s).val = s.val := by
  simp only [expire]
  split <;> rfl

omit [∀ k, DecidableEq (V k)] [∀ k, Inhabited (V k)] in
@[simp] lemma val_persist (k : κ) (s : KeyStore κ V) : ((persist k).run s).val = s.val := by
  simp only [persist]
  split <;> rfl

/-- What is written does not matter if the key is deleted next. -/
lemma del_write_run {k : κ} {f g : V k → V k} {s : KeyStore κ V} (hf : f (s.val k) ≠ default)
    (hg : g (s.val k) ≠ default) :
    (del k).run ((write k f).run s) = (del k).run ((write k g).run s) := by
  simp [del, alter, write, put, hf, hg, hf.symm, hg.symm]

omit [DecidableEq κ] [∀ k, DecidableEq (V k)] [∀ k, Inhabited (V k)] in
/-- The command leaves the value of `k` alone. -/
def Keeps (k : κ) (c : Command κ V) : Prop := ∀ s, (c.run s).val k = s.val k

omit [DecidableEq κ] [∀ k, DecidableEq (V k)] [∀ k, Inhabited (V k)] in
/-- What every command of a list preserves, the list preserves. -/
lemma seq_preserves {P : KeyStore κ V → Prop} {cs : List (Command κ V)}
    (h : ∀ c ∈ cs, ∀ s, P s → P (c.run s)) {s : KeyStore κ V} (hs : P s) : P ((seq cs).run s) := by
  induction cs generalizing s with
  | nil => exact hs
  | cons c cs ih =>
    exact ih (fun c' hc' => h c' (List.mem_cons_of_mem c hc')) (h c List.mem_cons_self s hs)

omit [DecidableEq κ] [∀ k, DecidableEq (V k)] [∀ k, Inhabited (V k)] in
/-- What one command establishes and all of them preserve holds at the end. -/
lemma seq_establishes {P : KeyStore κ V → Prop} {cs : List (Command κ V)}
    (h : ∀ c ∈ cs, ∀ s, P s → P (c.run s)) {c : Command κ V} (hc : c ∈ cs)
    (hP : ∀ s, P (c.run s)) (s : KeyStore κ V) : P ((seq cs).run s) := by
  induction cs generalizing s with
  | nil => simp at hc
  | cons c' cs ih =>
    have htail : ∀ d ∈ cs, ∀ s, P s → P (d.run s) := fun d hd => h d (List.mem_cons_of_mem c' hd)
    rcases List.mem_cons.mp hc with rfl | hc
    · exact seq_preserves htail (hP s)
    · exact ih htail hc _

omit [DecidableEq κ] [∀ k, DecidableEq (V k)] [∀ k, Inhabited (V k)] in
lemma keeps_seq {k : κ} {cs : List (Command κ V)} (h : ∀ c ∈ cs, c.Keeps k) : (seq cs).Keeps k := by
  induction cs with
  | nil => exact fun _ => rfl
  | cons c cs ih =>
    intro s
    have htail := ih (fun c' hc' => h c' (List.mem_cons_of_mem c hc')) (c.run s)
    exact htail.trans (h c List.mem_cons_self s)

lemma keeps_write {k k' : κ} {f : V k' → V k'} (h : k ≠ k') : (write k' f).Keeps k := by
  intro s
  simp [h]

lemma keeps_alter {k k' : κ} {f : V k' → V k'} (h : k ≠ k') : (alter k' f).Keeps k := by
  intro s
  simp [h]

lemma keeps_del {k k' : κ} (h : k ≠ k') : (del (V := V) k').Keeps k := keeps_alter h

lemma keeps_expire {k k' : κ} {t : ℤ} : (expire (V := V) k' t).Keeps k := fun s => by simp

omit [∀ k, DecidableEq (V k)] [∀ k, Inhabited (V k)] in
lemma keeps_persist {k k' : κ} : (persist (V := V) k').Keeps k := fun s => by simp

/-- The command leaves the expiry of `k` alone. -/
def KeepsExp (k : κ) (c : Command κ V) : Prop := ∀ s, (c.run s).exp k = s.exp k

omit [DecidableEq κ] [∀ k, DecidableEq (V k)] [∀ k, Inhabited (V k)] in
lemma keepsExp_seq {k : κ} {cs : List (Command κ V)} (h : ∀ c ∈ cs, c.KeepsExp k) :
    (seq cs).KeepsExp k := by
  induction cs with
  | nil => exact fun _ => rfl
  | cons c cs ih =>
    intro s
    have htail := ih (fun c' hc' => h c' (List.mem_cons_of_mem c hc')) (c.run s)
    exact htail.trans (h c List.mem_cons_self s)

lemma exp_put_of_ne {k k' : κ} (h : k ≠ k') (s : KeyStore κ V) (v : V k') :
    (s.put k' v).exp k = s.exp k := by
  unfold KeyStore.put
  split
  · exact Function.update_of_ne h _ _
  · rfl

/-- What has no expiry gets none by being written. -/
lemma exp_put_of_none {k k' : κ} {s : KeyStore κ V} (v : V k') (h : s.exp k = none) :
    (s.put k' v).exp k = none := by
  unfold KeyStore.put
  dsimp only
  split
  · by_cases hk : k = k'
    · rw [hk, Function.update_self]
    · rwa [Function.update_of_ne hk]
  · exact h

lemma exp_alter_of_none {k k' : κ} {s : KeyStore κ V} (f : V k' → V k') (h : s.exp k = none) :
    ((alter k' f).run s).exp k = none := by
  unfold alter
  dsimp only
  split
  · exact h
  · exact exp_put_of_none _ h

lemma keepsExp_write {k k' : κ} {f : V k' → V k'} (h : k ≠ k') : (write k' f).KeepsExp k :=
  fun s => exp_put_of_ne h s _

lemma keepsExp_alter {k k' : κ} {f : V k' → V k'} (h : k ≠ k') : (alter k' f).KeepsExp k := by
  intro s
  unfold alter
  dsimp only
  split
  · rfl
  · exact exp_put_of_ne h s _

lemma keepsExp_expire {k k' : κ} {t : ℤ} (h : k ≠ k') : (expire (V := V) k' t).KeepsExp k := by
  intro s
  unfold expire
  dsimp only
  split
  · rfl
  · exact Function.update_of_ne h _ _

omit [DecidableEq κ] [∀ k, DecidableEq (V k)] [∀ k, Inhabited (V k)] in
/-- The command does not count as a modification of `k`. -/
def KeepsVer (k : κ) (c : Command κ V) : Prop := ∀ s, (c.run s).ver k = s.ver k

omit [DecidableEq κ] [∀ k, DecidableEq (V k)] [∀ k, Inhabited (V k)] in
lemma keepsVer_seq {k : κ} {cs : List (Command κ V)} (h : ∀ c ∈ cs, c.KeepsVer k) :
    (seq cs).KeepsVer k := by
  induction cs with
  | nil => exact fun _ => rfl
  | cons c cs ih =>
    intro s
    have htail := ih (fun c' hc' => h c' (List.mem_cons_of_mem c hc')) (c.run s)
    exact htail.trans (h c List.mem_cons_self s)

lemma keepsVer_alter {k k' : κ} {f : V k' → V k'} (h : k ≠ k') : (alter k' f).KeepsVer k := by
  intro s
  unfold alter
  dsimp only
  split
  · rfl
  · simp [KeyStore.put, h]

/-! ### The order of commands -/

omit [DecidableEq κ] [∀ k, DecidableEq (V k)] [∀ k, Inhabited (V k)] in
/-- What every group of commands establishes for itself, and no later one spoils, holds at the
end. -/
theorem seq_flatMap_establishes {ι : Type} {P : ι → KeyStore κ V → Prop}
    {f : ι → List (Command κ V)} {l : List ι} (hset : ∀ i s, P i ((seq (f i)).run s))
    (hkeep : l.Pairwise fun i j => ∀ s, P i s → P i ((seq (f j)).run s)) (s : KeyStore κ V) :
    ∀ i ∈ l, P i ((seq (l.flatMap f)).run s) := by
  induction l generalizing s with
  | nil => simp
  | cons i l ih =>
    obtain ⟨hi, hl⟩ := List.pairwise_cons.mp hkeep
    intro j hj
    rw [List.flatMap_cons, seq_append_run]
    rcases List.mem_cons.mp hj with rfl | hj
    · have hrest : ∀ l' : List ι, (∀ i ∈ l', i ∈ l) → ∀ s, P j s →
          P j ((seq (l'.flatMap f)).run s) := fun l' hl' => by
        induction l' with
        | nil => exact fun _ hs => hs
        | cons i l' ih' =>
          intro s hs
          rw [List.flatMap_cons, seq_append_run]
          exact ih' (fun i hi => hl' i (List.mem_cons_of_mem _ hi)) _
            (hi i (hl' i List.mem_cons_self) s hs)
      exact hrest l (fun _ h => h) _ (hset j s)
    · exact ih hl _ j hj

omit [DecidableEq κ] [∀ k, DecidableEq (V k)] [∀ k, Inhabited (V k)] in
/-- What the command makes of a key depends on that key only. -/
def Local (c : Command κ V) : Prop := ∀ k s t, AgreeAt k s t → AgreeAt k (c.run s) (c.run t)

omit [DecidableEq κ] [∀ k, DecidableEq (V k)] [∀ k, Inhabited (V k)] in
/-- The command leaves `k` alone, with its expiry. -/
def Frames (k : κ) (c : Command κ V) : Prop := ∀ s, AgreeAt k (c.run s) s

omit [DecidableEq κ] [∀ k, DecidableEq (V k)] [∀ k, Inhabited (V k)] in
lemma frames_iff {k : κ} {c : Command κ V} : c.Frames k ↔ c.Keeps k ∧ c.KeepsExp k :=
  forall_and

omit [DecidableEq κ] [∀ k, DecidableEq (V k)] [∀ k, Inhabited (V k)] in
lemma frames_seq {k : κ} {cs : List (Command κ V)} (h : ∀ c ∈ cs, c.Frames k) :
    (seq cs).Frames k :=
  frames_iff.mpr ⟨keeps_seq fun c hc => (frames_iff.mp (h c hc)).1,
    keepsExp_seq fun c hc => (frames_iff.mp (h c hc)).2⟩

omit [DecidableEq κ] [∀ k, DecidableEq (V k)] [∀ k, Inhabited (V k)] in
lemma local_seq {cs : List (Command κ V)} (h : ∀ c ∈ cs, c.Local) : (seq cs).Local := by
  induction cs with
  | nil => exact fun _ _ _ hst => hst
  | cons c cs ih =>
    intro k s t hst
    have hhead := h c List.mem_cons_self k s t hst
    exact ih (fun c' hc' => h c' (List.mem_cons_of_mem c hc')) k _ _ hhead

omit [DecidableEq κ] [∀ k, DecidableEq (V k)] [∀ k, Inhabited (V k)] in
/-- Of a list of commands, those in the middle decide about a key that the others leave alone. -/
lemma agreeAt_seq_middle {k : κ} {before middle after : List (Command κ V)}
    (hbefore : ∀ c ∈ before, c.Frames k) (hmiddle : ∀ c ∈ middle, c.Local)
    (hafter : ∀ c ∈ after, c.Frames k) (s : KeyStore κ V) :
    AgreeAt k ((seq (before ++ (middle ++ after))).run s) ((seq middle).run s) := by
  rw [seq_append_run, seq_append_run]
  exact (frames_seq hafter _).trans (local_seq hmiddle k _ _ (frames_seq hbefore s))

lemma agreeAt_put {k : κ} {s t : KeyStore κ V} (h : AgreeAt k s t) (k' : κ) {v w : V k'}
    (hv : k = k' → v = w) : AgreeAt k (s.put k' v) (t.put k' w) := by
  rcases eq_or_ne k k' with rfl | hne
  · obtain rfl := hv rfl
    refine ⟨by simp [KeyStore.put], ?_⟩
    unfold KeyStore.put
    split
    · simp
    · exact h.2
  · refine ⟨by simp [KeyStore.put, hne, h.1], ?_⟩
    rw [exp_put_of_ne hne, exp_put_of_ne hne, h.2]

lemma local_write (k' : κ) (f : V k' → V k') : (write k' f).Local := fun k s t hst =>
  agreeAt_put hst k' fun heq => by
    subst heq
    rw [hst.1]

lemma local_alter (k' : κ) (f : V k' → V k') : (alter k' f).Local := by
  intro k s t hst
  by_cases hk : k = k'
  · subst hk
    simp only [alter, ← hst.1]
    split
    · exact hst
    · exact agreeAt_put hst k fun _ => rfl
  · exact (frames_iff.mpr ⟨keeps_alter hk, keepsExp_alter hk⟩ s).trans
      (hst.trans (frames_iff.mpr ⟨keeps_alter hk, keepsExp_alter hk⟩ t).symm)

lemma frames_write {k k' : κ} {f : V k' → V k'} (h : k ≠ k') : (write k' f).Frames k :=
  frames_iff.mpr ⟨keeps_write h, keepsExp_write h⟩

lemma frames_alter {k k' : κ} {f : V k' → V k'} (h : k ≠ k') : (alter k' f).Frames k :=
  frames_iff.mpr ⟨keeps_alter h, keepsExp_alter h⟩

lemma frames_expire {k k' : κ} {t : ℤ} (h : k ≠ k') : (expire (V := V) k' t).Frames k :=
  frames_iff.mpr ⟨keeps_expire, keepsExp_expire h⟩

lemma local_expire (k' : κ) (t : ℤ) : (expire (V := V) k' t).Local := by
  intro k s u hsu
  rcases eq_or_ne k k' with rfl | hne
  · refine ⟨by simp [hsu.1], ?_⟩
    unfold expire
    dsimp only
    rw [hsu.1]
    split
    · exact hsu.2
    · simp
  · exact (frames_expire hne s).trans (hsu.trans (frames_expire hne u).symm)

omit [DecidableEq κ] [∀ k, DecidableEq (V k)] [∀ k, Inhabited (V k)] in
/-- Groups of commands of which at most one touches the key can be performed in any order. -/
theorem agreeAt_of_perm {ι : Type} {f : ι → List (Command κ V)} (hlocal : ∀ i, ∀ c ∈ f i, c.Local)
    {k : κ} {l l' : List ι} (h : l.Perm l')
    (hl : l.Pairwise fun i j => (seq (f i)).Frames k ∨ (seq (f j)).Frames k)
    (s : KeyStore κ V) :
    AgreeAt k ((seq (l.flatMap f)).run s) ((seq (l'.flatMap f)).run s) := by
  induction h generalizing s with
  | nil => exact ⟨rfl, rfl⟩
  | cons i _ ih =>
    rw [List.flatMap_cons, List.flatMap_cons, seq_append_run, seq_append_run]
    exact ih hl.of_cons _
  | swap i j l =>
    have hrest : (seq (l.flatMap f)).Local := local_seq fun c hc => by
      obtain ⟨i, -, hc⟩ := List.mem_flatMap.mp hc
      exact hlocal i c hc
    have hi := local_seq (hlocal i)
    have hj := local_seq (hlocal j)
    simp only [List.flatMap_cons, seq_append_run]
    refine hrest k _ _ ?_
    rcases (List.pairwise_cons.mp hl).1 i List.mem_cons_self with hframe | hframe
    · exact (hi k _ _ (hframe s)).trans (hframe _).symm
    · exact (hframe _).trans (hj k _ _ (hframe s).symm)
  | trans h₁ _ ih₁ ih₂ =>
    exact (ih₁ hl s).trans (ih₂ ((h₁.pairwise_iff fun h => h.symm).mp hl) s)

end Command

/-! ## Pipelines -/

/-- A client-side transaction: the keys it watches with their versions at the time of `WATCH`,
whether `MULTI` has been called, and the commands buffered so far. -/
structure Pipeline (κ : Type) (V : κ → Type) where
  watched : List (κ × ℕ) := []
  explicitTransaction : Bool := false
  commandStack : List (Command κ V) := []

namespace Pipeline

open KeyStore

variable {κ : Type} {V : κ → Type} {ε β : Type} [StoreErrors ε]

/-- Between `WATCH` and `MULTI` commands go to the server at once instead of being buffered. -/
def immediate (p : Pipeline κ V) : Bool := !p.watched.isEmpty && !p.explicitTransaction

/-- No watched key has been modified since its `WATCH`. -/
def unchanged (p : Pipeline κ V) (s : KeyStore κ V) : Bool :=
  p.watched.all fun kv => s.ver kv.1 == kv.2

variable [DecidableEq κ] [∀ k, DecidableEq (V k)] [∀ k, Inhabited (V k)]

/-- The pipeline with more commands buffered. -/
def buffer (p : Pipeline κ V) (cs : List (Command κ V)) : Pipeline κ V :=
  { p with commandStack := p.commandStack ++ cs }

def watch (p : Pipeline κ V) (ks : List κ) : Prog (KeyStore κ V) ε (Pipeline κ V) :=
  if p.explicitTransaction then .throw (StoreErrors.redisError "Cannot issue a WATCH after a MULTI")
  else if ks = [] then
    .throw (StoreErrors.responseError "wrong number of arguments for 'watch' command")
  else .read fun s => { p with watched := p.watched ++ ks.map fun k => (k, s.ver k) }

def multi (p : Pipeline κ V) : Prog (KeyStore κ V) ε (Pipeline κ V) :=
  if p.explicitTransaction then
    .throw (StoreErrors.redisError "Cannot issue nested calls to MULTI")
  else if p.commandStack.length ≠ 0 then
    .throw (StoreErrors.redisError "Commands without an initial WATCH have already been issued")
  else .ret { p with explicitTransaction := true }

/-- Issues a command through the pipeline. -/
def command (p : Pipeline κ V) (c : Command κ V) : Prog (KeyStore κ V) ε (Pipeline κ V) :=
  if p.immediate then do
    Prog.perform c.run
    return p
  else .ret { p with commandStack := p.commandStack ++ [c] }

/-- Reads through a pipeline that is in immediate mode. A buffered read has no value yet. -/
def query (p : Pipeline κ V) (f : KeyStore κ V → β) : Prog (KeyStore κ V) ε β :=
  if p.immediate then .read f
  else .throw (StoreErrors.redisError "the reply of a buffered command is not available")

/-- `EXEC`. The outcome `false` is the `WatchError` raised when a watched key was modified; either
way the pipeline is reset, so that the caller goes on with a fresh one. -/
def execute (p : Pipeline κ V) : Prog (KeyStore κ V) ε Bool :=
  if p.commandStack.length = 0 ∧ p.watched.length = 0 then .ret true
  else .exec (!p.watched.isEmpty) p.unchanged (Command.seq p.commandStack).run .ret

section Buffer
omit [DecidableEq κ] [∀ k, DecidableEq (V k)] [∀ k, Inhabited (V k)]

@[simp] lemma buffer_watched (p : Pipeline κ V) (cs : List (Command κ V)) :
    (p.buffer cs).watched = p.watched := by
  simp [buffer]

@[simp] lemma buffer_explicitTransaction (p : Pipeline κ V) (cs : List (Command κ V)) :
    (p.buffer cs).explicitTransaction = p.explicitTransaction := by
  simp [buffer]

@[simp] lemma buffer_commandStack (p : Pipeline κ V) (cs : List (Command κ V)) :
    (p.buffer cs).commandStack = p.commandStack ++ cs := by
  simp [buffer]

@[simp] lemma immediate_buffer (p : Pipeline κ V) (cs : List (Command κ V)) :
    (p.buffer cs).immediate = p.immediate := by
  simp [immediate]

@[simp] lemma buffer_buffer (p : Pipeline κ V) (cs cs' : List (Command κ V)) :
    (p.buffer cs).buffer cs' = p.buffer (cs ++ cs') := by
  simp [buffer]

@[simp] lemma buffer_nil (p : Pipeline κ V) : p.buffer [] = p := by
  simp [buffer]

@[simp] lemma immediate_empty : ({} : Pipeline κ V).immediate = false := by
  simp [immediate]

omit [StoreErrors ε]

lemma command_eq_buffer {p : Pipeline κ V} (h : p.immediate = false) (c : Command κ V) :
    (p.command c : Prog (KeyStore κ V) ε (Pipeline κ V)) = .ret (p.buffer [c]) := by
  simp [command, h, buffer]

/-- The `EXEC` of a pipeline that watches nothing. -/
lemma execute_of_unwatched {p : Pipeline κ V} (hw : p.watched = []) (hc : p.commandStack ≠ []) :
    (p.execute : Prog (KeyStore κ V) ε Bool) =
      .exec false (fun _ => true) (Command.seq p.commandStack).run .ret := by
  have hlen : p.commandStack.length ≠ 0 := by simpa using hc
  have hu : p.unchanged = fun _ => true := by
    funext s
    simp [unchanged, hw]
  simp [execute, hlen, hw, hu]

lemma run_execute_of_unwatched {p : Pipeline κ V} (hw : p.watched = []) (s : KeyStore κ V) :
    (p.execute : Prog (KeyStore κ V) ε Bool).run s =
      (.ok true, (Command.seq p.commandStack).run s) := by
  rcases eq_or_ne p.commandStack [] with hc | hc
  · simp [execute, hw, hc]
  · rw [execute_of_unwatched hw hc, Prog.run_exec, if_pos rfl, Prog.run_ret]

/-- The `EXEC` of a pipeline that watches something. -/
lemma execute_of_watched {p : Pipeline κ V} (hw : p.watched ≠ []) :
    (p.execute : Prog (KeyStore κ V) ε Bool) =
      .exec true p.unchanged (Command.seq p.commandStack).run .ret := by
  have hempty : p.watched.isEmpty = false := by simpa using hw
  simp [execute, hempty, hw]

end Buffer

end Pipeline
