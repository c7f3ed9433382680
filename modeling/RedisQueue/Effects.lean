import RedisQueue.Enqueueing
import RedisQueue.Maintenance

/-!
# The effects of the methods

An invariant of the database is rarely about all that a method does. Here the commands that can
break one are told apart from the others.

* `Benign`: commands that write no hash of a job, add nothing to a list, a registry or the dependents
  of a job, set no expiry of a hash and forget no queue;
* `Effect`: the other commands of rq;
* `Emits P`: commands that are made of benign ones and of effects that satisfy `P`;
* `Via P`: what such a command can do to the database.

`Footprints` has, method by method, the effects that it can have.
-/

namespace RedisQueue

open Prog

/-! ## Commands -/

/-- What is not benign. -/
inductive Effect where
  /-- `HSET` of the hash of a job. -/
  | hset (id : JobId) (mapping : JobHash)
  /-- `ZADD` to a registry of job ids. -/
  | zadd (kind : RegistryKind) (name : QueueName) (id : JobId) (score : Score)
  /-- `LPUSH` or `RPUSH`. -/
  | push (key : String) (atFront : Bool) (id : JobId)
  /-- The second half of `LMOVE`, to the intermediate queue of the list at `key`. -/
  | hold (key : String) (id : JobId)
  /-- `EXPIRE` of the hash of a job. -/
  | expire (id : JobId) (t : Time)
  /-- `DEL` of the hash of a job. -/
  | delete (id : JobId)
  /-- `SADD` to the dependents of a job. -/
  | depend (parent child : JobId)

def Effect.command : Effect → Command Key Value
  | .hset id mapping => RedisQueue.hset id mapping
  | .zadd kind name id score => RedisQueue.zadd kind name id score
  | .push key atFront id => RedisQueue.push key atFront id
  | .hold key id => .write (.list (intermediateQueueKey key)) fun l => l ++ [id]
  | .expire id t => .expire (.job id) t
  | .delete id => .del (.job id)
  | .depend parent child => .alter (.dependents parent) fun d => d.insert child

structure Benign (c : Command Key Value) : Prop where
  hash : ∀ s id, (c.run s).val (.job id) = s.val (.job id)
  expiry : ∀ s id, (c.run s).exp (.job id) = s.exp (.job id) ∨ (c.run s).exp (.job id) = none
  list : ∀ s key id, id ∈ (c.run s).val (.list key) → id ∈ s.val (.list key)
  registry : ∀ s kind name e, e ∈ ((c.run s).val (.registry kind name)).entries →
    e ∈ (s.val (.registry kind name)).entries
  dependents : ∀ s id child, child ∈ (c.run s).val (.dependents id) → child ∈ s.val (.dependents id)
  queues : ∀ s key, key ∈ s.val .queues → key ∈ (c.run s).val .queues

inductive Emits (P : Effect → Prop) : Command Key Value → Prop where
  | benign {c : Command Key Value} (h : Benign c) : Emits P c
  | effect (e : Effect) (h : P e) : Emits P e.command
  | seq {cs : List (Command Key Value)} (h : ∀ c ∈ cs, Emits P c) : Emits P (.seq cs)

/-- Rule for invariants: they only have to be proved of benign commands and of effects. -/
theorem Emits.preserves {P : Effect → Prop} {I : Store → Prop}
    (hbenign : ∀ c, Benign c → ∀ s, I s → I (c.run s))
    (heffect : ∀ e, P e → ∀ s, I s → I (e.command.run s)) {c : Command Key Value}
    (hc : Emits P c) {s : Store} (hs : I s) : I (c.run s) := by
  induction hc generalizing s with
  | benign h => exact hbenign _ h s hs
  | effect e h => exact heffect e h s hs
  | seq h ih =>
    apply Command.seq_preserves _ hs
    exact fun c hc s hs => ih c hc hs

lemma Emits.mono {P P' : Effect → Prop} (h : ∀ e, P e → P' e) {c : Command Key Value}
    (hc : Emits P c) : Emits P' c := by
  induction hc with
  | benign hc => exact .benign hc
  | effect e he => exact .effect e (h e he)
  | seq _ ih => exact .seq ih

/-! ### Benign commands -/

/-- A key that is none of a hash, a list, a registry, the dependents of a job and the queues. -/
def Aside : Key → Prop
  | .job _ | .list _ | .registry _ _ | .dependents _ | .queues => False
  | _ => True

/-- A command that leaves the keys alone that are not aside. -/
lemma benign_of_frames {c : Command Key Value} (h : ∀ k, ¬Aside k → c.Frames k) : Benign c where
  hash s id := (h (.job id) not_false s).1
  expiry s id := .inl (h (.job id) not_false s).2
  list s key id hid := by rwa [(h (.list key) not_false s).1] at hid
  registry s kind name e he := by rwa [(h (.registry kind name) not_false s).1] at he
  dependents s id child hchild := by rwa [(h (.dependents id) not_false s).1] at hchild
  queues s key hkey := by rwa [(h .queues not_false s).1]

lemma ne_of_aside {k k' : Key} (hk : ¬Aside k) (hk' : Aside k') : k ≠ k' :=
  fun heq => hk (heq ▸ hk')

lemma benign_write {k : Key} (hk : Aside k) (f : Value k → Value k) : Benign (.write k f) :=
  benign_of_frames fun _ hk' => Command.frames_write (ne_of_aside hk' hk)

lemma benign_alter {k : Key} (hk : Aside k) (f : Value k → Value k) : Benign (.alter k f) :=
  benign_of_frames fun _ hk' => Command.frames_alter (ne_of_aside hk' hk)

lemma benign_del {k : Key} (hk : Aside k) : Benign (.del k) := benign_alter hk _

/-- The values stay, and of the expiries one that is not of a hash changes. -/
lemma benign_expire {k : Key} (hk : ∀ id, k ≠ .job id) (t : Time) : Benign (.expire k t) where
  hash s id := by rw [Command.val_expire]
  expiry s id := .inl (Command.keepsExp_expire (hk id).symm s)
  list s key id hid := by rwa [Command.val_expire] at hid
  registry s kind name e he := by rwa [Command.val_expire] at he
  dependents s id child hchild := by rwa [Command.val_expire] at hchild
  queues s key hkey := by rwa [Command.val_expire]

lemma benign_expireIn {k : Key} (hk : Aside k) (ttl : ℤ) (now : Time) : Benign (expire k ttl now) := by
  unfold expire
  split
  · exact benign_del hk
  · exact benign_expire (fun id heq => by rw [heq] at hk; exact hk) _

lemma exp_persist (k k' : Key) (s : Store) : ((Command.persist k).run s).exp k' = s.exp k' ∨
    ((Command.persist k).run s).exp k' = none := by
  unfold Command.persist
  dsimp only
  split
  · exact .inl rfl
  · by_cases hk : k' = k
    · exact .inr (by simp [hk])
    · exact .inl (by simp [hk])

lemma benign_persist (k : Key) : Benign (.persist k) where
  hash s id := by rw [Command.val_persist]
  expiry s id := exp_persist _ _ s
  list s key id hid := by rwa [Command.val_persist] at hid
  registry s kind name e he := by rwa [Command.val_persist] at he
  dependents s id child hchild := by rwa [Command.val_persist] at hchild
  queues s key hkey := by rwa [Command.val_persist]

lemma benign_zrem (kind : RegistryKind) (name : QueueName) (id : JobId) :
    Benign (zrem kind name id) where
  hash s id' := (Command.frames_alter (by simp) s).1
  expiry s id' := .inl (Command.frames_alter (by simp) s).2
  list s key id' hid := by rwa [zrem, (Command.frames_alter (by simp) s).1] at hid
  registry s kind' name' e he := by
    rw [val_zrem] at he
    by_cases hk : Key.registry kind' name' = .registry kind name
    · obtain ⟨rfl, rfl⟩ : kind' = kind ∧ name' = name := by simpa using hk
      rw [Function.update_self] at he
      exact List.mem_of_mem_filter he
    · rwa [Function.update_of_ne hk] at he
  dependents s id' child hchild := by rwa [zrem, (Command.frames_alter (by simp) s).1] at hchild
  queues s key hkey := by rwa [zrem, (Command.frames_alter (by simp) s).1]

/-- A list that gets shorter. -/
lemma benign_list (key : String) {f : List JobId → List JobId} (hf : ∀ l, ∀ id ∈ f l, id ∈ l) :
    Benign (.alter (.list key) f) where
  hash s id := (Command.frames_alter (by simp) s).1
  expiry s id := .inl (Command.frames_alter (by simp) s).2
  list s key' id hid := by
    rw [Command.val_alter] at hid
    by_cases hk : Key.list key' = .list key
    · obtain rfl : key' = key := by simpa using hk
      rw [Function.update_self] at hid
      exact hf _ _ hid
    · rwa [Function.update_of_ne hk] at hid
  registry s kind name e he := by rwa [(Command.frames_alter (by simp) s).1] at he
  dependents s id child hchild := by rwa [(Command.frames_alter (by simp) s).1] at hchild
  queues s key' hkey := by rwa [(Command.frames_alter (by simp) s).1]

lemma benign_lrem (key : String) (id : JobId) : Benign (lrem key id) :=
  benign_list key fun _ _ hid => List.mem_of_mem_erase hid

/-- Dependents that are taken away. -/
lemma benign_dependents (id : JobId) {f : RSet JobId → RSet JobId}
    (hf : ∀ d, ∀ child ∈ f d, child ∈ d) :
    Benign (.alter (.dependents id) f) where
  hash s id' := (Command.frames_alter (by simp) s).1
  expiry s id' := .inl (Command.frames_alter (by simp) s).2
  list s key id' hid := by rwa [(Command.frames_alter (by simp) s).1] at hid
  registry s kind name e he := by rwa [(Command.frames_alter (by simp) s).1] at he
  dependents s id' child hchild := by
    rw [Command.val_alter] at hchild
    by_cases hk : Key.dependents id' = .dependents id
    · obtain rfl : id' = id := by simpa using hk
      rw [Function.update_self] at hchild
      exact hf _ _ hchild
    · rwa [Function.update_of_ne hk] at hchild
  queues s key hkey := by rwa [(Command.frames_alter (by simp) s).1]

lemma benign_register (key : String) : Benign (.alter .queues fun q => q.insert key) where
  hash s id := (Command.frames_alter (by simp) s).1
  expiry s id := .inl (Command.frames_alter (by simp) s).2
  list s key' id hid := by rwa [(Command.frames_alter (by simp) s).1] at hid
  registry s kind name e he := by rwa [(Command.frames_alter (by simp) s).1] at he
  dependents s id child hchild := by rwa [(Command.frames_alter (by simp) s).1] at hchild
  queues s key' hkey := by
    rw [Command.val_alter, Function.update_self]
    exact RSet.mem_insert.mpr (.inl hkey)

/-! ## Programs -/

/-- What a command that emits only effects of `P` can make of a database. -/
def Via (P : Effect → Prop) (s s' : Store) : Prop := ∃ c, Emits P c ∧ s' = c.run s

lemma Via.refl {P : Effect → Prop} (s : Store) : Via P s s := ⟨.seq [], .seq nofun, rfl⟩

lemma Via.trans {P : Effect → Prop} {s t u : Store} (h : Via P s t) (h' : Via P t u) :
    Via P s u := by
  obtain ⟨c, hc, rfl⟩ := h
  obtain ⟨c', hc', rfl⟩ := h'
  refine ⟨.seq [c, c'], .seq fun d hd => ?_, rfl⟩
  simp only [List.mem_cons, List.not_mem_nil, or_false] at hd
  obtain rfl | rfl := hd
  · exact hc
  · exact hc'

/-- The effects that satisfy `P` do not break `I`. -/
def Stable (I : Store → Prop) (P : Effect → Prop) : Prop :=
  ∀ c, Emits P c → ∀ s, I s → I (c.run s)

/-- The commands that a client has buffered emit only effects of `P`. -/
def Client.Emits (P : Effect → Prop) : Client → Prop
  | none => True
  | some pipe => ∀ c ∈ pipe.commandStack, RedisQueue.Emits P c

lemma Client.emits_none {P : Effect → Prop} : Client.Emits P none := trivial

lemma Client.emits_empty {P : Effect → Prop} : Client.Emits P (some {}) :=
  List.forall_mem_nil _

/-- The pipeline of a client, or a fresh one. -/
lemma Client.Emits.getD {P : Effect → Prop} {client : Client} (h : client.Emits P) :
    Client.Emits P (some (client.getD {})) := by
  cases client with
  | none => exact emits_empty
  | some pipe => exact h

section Programs
variable {I : Store → Prop} {P : Effect → Prop}

lemma within_watch {pipe : Pipeline Key Value} (hpipe : Client.Emits P (some pipe)) {ks : List Key}
    {Q : Pipeline Key Value → Prop}
    (hQ : ∀ pipe : Pipeline Key Value, Client.Emits P (some pipe) → Q pipe) :
    (pipe.watch ks : Redis (Pipeline Key Value)).Within I (Via P) Q := by
  unfold Pipeline.watch
  split
  · trivial
  · split
    · trivial
    · exact within_read Via.refl fun s _ => hQ _ hpipe

lemma within_multi {pipe : Pipeline Key Value} (hpipe : Client.Emits P (some pipe))
    {Q : Pipeline Key Value → Prop}
    (hQ : ∀ pipe : Pipeline Key Value, Client.Emits P (some pipe) → Q pipe) :
    (pipe.multi : Redis (Pipeline Key Value)).Within I (Via P) Q := by
  unfold Pipeline.multi
  split
  · trivial
  · split
    · trivial
    · exact hQ _ hpipe

/-- A read through a client. -/
lemma within_clientQuery {client : Client} {β : Type} {f : Store → β} {Q : β → Prop}
    (hQ : ∀ s, I s → Q (f s)) : (client.query f).Within I (Via P) Q := by
  cases client with
  | none => exact within_read Via.refl hQ
  | some pipe =>
    simp only [Client.query, Pipeline.query]
    split
    · exact within_read Via.refl hQ
    · trivial

variable (hI : Stable I P)
include hI

lemma via_of_emits {c : Command Key Value} (hc : Emits P c) (s : Store) (hs : I s) :
    I (c.run s) ∧ Via P s (c.run s) :=
  ⟨hI c hc s hs, c, hc, rfl⟩

/-- A command that goes to the server at once. -/
lemma within_emit {c : Command Key Value} (hc : Emits P c) {Q : Unit → Prop} (hQ : Q ()) :
    (Prog.perform c.run : Redis Unit).Within I (Via P) Q :=
  within_perform hQ fun s hs => via_of_emits hI hc s hs

lemma within_pipelineCommand {pipe : Pipeline Key Value} (hpipe : Client.Emits P (some pipe))
    {c : Command Key Value} (hc : Emits P c) {Q : Pipeline Key Value → Prop}
    (hQ : ∀ pipe : Pipeline Key Value, Client.Emits P (some pipe) → Q pipe) :
    (pipe.command c : Redis (Pipeline Key Value)).Within I (Via P) Q := by
  unfold Pipeline.command
  split
  · simp only [within_bind]
    exact within_emit hI hc (hQ _ hpipe)
  · refine hQ _ fun d hd => ?_
    obtain hd | hd := List.mem_append.mp hd
    · exact hpipe d hd
    · exact List.mem_singleton.mp hd ▸ hc

/-- Rule for commands, which are executed or buffered. -/
lemma within_command {client : Client} (hclient : client.Emits P) {c : Command Key Value}
    (hc : Emits P c) {Q : Client → Prop} (hQ : ∀ client, client.Emits P → Q client) :
    (client.command c).Within I (Via P) Q := by
  cases client with
  | none =>
    simp only [Client.command, within_bind]
    exact within_emit hI hc (hQ none trivial)
  | some pipe =>
    simp only [Client.command, within_bind]
    exact within_pipelineCommand hI hclient hc fun pipe hpipe => hQ (some pipe) hpipe

lemma within_execute {pipe : Pipeline Key Value} (hpipe : Client.Emits P (some pipe))
    {Q : Bool → Prop} (hQ : ∀ committed, Q committed) :
    (pipe.execute : Redis Bool).Within I (Via P) Q := by
  unfold Pipeline.execute
  split
  · exact hQ true
  · exact ⟨fun s hs _ => via_of_emits hI (.seq hpipe) s hs, hQ⟩

end Programs

end RedisQueue
