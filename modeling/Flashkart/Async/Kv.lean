import Flashkart.Async.Logic

/-!
# Async.Kv

A keyed store whose entries expire, with the clock its clients read. An entry is there until its
expiry and gone from then on, whether or not anybody looks. Each entry also remembers the thread
that wrote it; no call returns the writer, only statements about runs speak of it.
-/

namespace Async

structure Entry (V : Type) where
  value : V
  expiry : Nat
  writer : Nat

abbrev Kv (V : Type) : Type := String → Option (Entry V)

namespace Kv

variable {V : Type}

/-- The entry a read of `k` finds at time `now`. -/
def live (kv : Kv V) (now : Nat) (k : String) : Option (Entry V) :=
  (kv k).filter fun e => decide (now < e.expiry)

def put (kv : Kv V) (k : String) (e : Entry V) : Kv V := Function.update kv k (some e)

def erase (kv : Kv V) (k : String) : Kv V := Function.update kv k none

theorem live_eq_some {kv : Kv V} {now : Nat} {k : String} {e : Entry V} :
    kv.live now k = some e ↔ kv k = some e ∧ now < e.expiry := by
  simp only [live, Option.filter_eq_some_iff, decide_eq_true_eq]

@[simp] theorem live_put_self (kv : Kv V) (now : Nat) (k : String) (e : Entry V) :
    (kv.put k e).live now k = if now < e.expiry then some e else none := by
  simp [live, put, Option.filter]

@[simp] theorem live_erase_self (kv : Kv V) (now : Nat) (k : String) :
    (kv.erase k).live now k = none := by
  simp [live, erase]

theorem live_put_of_ne (kv : Kv V) (now : Nat) {k k' : String} (e : Entry V) (h : k' ≠ k) :
    (kv.put k e).live now k' = kv.live now k' := by
  simp [live, put, Function.update_of_ne h]

theorem live_erase_of_ne (kv : Kv V) (now : Nat) {k k' : String} (h : k' ≠ k) :
    (kv.erase k).live now k' = kv.live now k' := by
  simp [live, erase, Function.update_of_ne h]

theorem put_eq_some {kv : Kv V} {k k' : String} {e d : Entry V} :
    kv.put k e k' = some d ↔ (k' = k ∧ d = e) ∨ (k' ≠ k ∧ kv k' = some d) := by
  by_cases hk : k' = k
  · subst hk
    rw [put, Function.update_self]
    simp [eq_comm]
  · rw [put, Function.update_of_ne hk]
    simp [hk]

theorem erase_eq_some {kv : Kv V} {k k' : String} {d : Entry V} :
    kv.erase k k' = some d ↔ k' ≠ k ∧ kv k' = some d := by
  by_cases hk : k' = k
  · subst hk
    rw [erase, Function.update_self]
    simp
  · rw [erase, Function.update_of_ne hk]
    simp [hk]

/-- What is there later is there now. -/
theorem live_of_le {kv : Kv V} {now later : Nat} (hle : now ≤ later) {k : String} {e : Entry V}
    (h : kv.live later k = some e) : kv.live now k = some e := by
  rw [live_eq_some] at h ⊢
  exact ⟨h.1, by omega⟩

end Kv

/-- The calls of a client: `set … EX`, `set … EX … NX`, `get`, `del`, and the clock. -/
inductive KvOp (V : Type) where
  | set (key : String) (value : V) (ex : Nat)
  | setNx (key : String) (value : V) (ex : Nat)
  | get (key : String)
  | del (key : String)
  | dateNow
  | sleepUntil (t : Nat)

abbrev KvOp.Ret {V : Type} : KvOp V → Type
  | .set .. => Unit
  | .setNx .. => Bool
  | .get _ => Option V
  | .del _ => Unit
  | .dateNow => Nat
  | .sleepUntil _ => Unit

abbrev kvSig (V : Type) : Sig := ⟨KvOp V, KvOp.Ret⟩

def KvOp.call {V ε : Type} (o : KvOp V) : Prog (kvSig V) ε o.Ret := @Prog.op (kvSig V) ε o

/-- The calls that can change the store. -/
def KvOp.writes {V : Type} : KvOp V → Bool
  | .set .. | .setNx .. | .del _ => true
  | .get _ | .dateNow | .sleepUntil _ => false

def KvOp.key? {V : Type} : KvOp V → Option String
  | .set k .. | .setNx k .. | .get k | .del k => some k
  | .dateNow | .sleepUntil _ => none

/-- Expiry is given in seconds, the clock counts milliseconds. -/
def kvStore {V P : Type} : Store (kvSig V) (Kv V) P
  | now, i, .set k v ex, _, kv => some ((), kv.put k ⟨v, now + ex * 1000, i⟩)
  | now, i, .setNx k v ex, _, kv =>
    match kv.live now k with
    | some _ => some (false, kv)
    | none => some (true, kv.put k ⟨v, now + ex * 1000, i⟩)
  | now, _, .get k, _, kv => some ((kv.live now k).map (·.value), kv)
  | _, _, .del k, _, kv => some ((), kv.erase k)
  | now, _, .dateNow, _, kv => some (now, kv)
  | now, _, .sleepUntil t, _, kv => if t ≤ now then some ((), kv) else none

theorem kvStore_reads {V P : Type} {now i : Nat} {o : KvOp V} {p : P} {kv kv' : Kv V} {a : o.Ret}
    (ho : o.writes = false) (h : kvStore now i o p kv = some (a, kv')) : kv' = kv := by
  cases o with
  | get k => cases h; rfl
  | dateNow => cases h; rfl
  | sleepUntil t =>
    simp only [kvStore] at h
    split at h
    · cases h; rfl
    · cases h
  | _ => cases ho

/-- An entry that is there after a call was there before it, or the call has set it. -/
theorem kvStore_entry {V P : Type} {now i : Nat} {o : KvOp V} {p : P} {kv kv' : Kv V} {a : o.Ret}
    {key : String} {x : Entry V} (h : kvStore now i o p kv = some (a, kv'))
    (hx : kv' key = some x) :
    kv key = some x ∨ (∃ ex, o = .set key x.value ex) ∨ ∃ ex, o = .setNx key x.value ex := by
  cases o with
  | set k v ex =>
    cases h
    rcases Kv.put_eq_some.mp hx with ⟨rfl, rfl⟩ | ⟨-, hx⟩
    · exact .inr (.inl ⟨ex, rfl⟩)
    · exact .inl hx
  | setNx k v ex =>
    simp only [kvStore] at h
    split at h
    · cases h
      exact .inl hx
    · cases h
      rcases Kv.put_eq_some.mp hx with ⟨rfl, rfl⟩ | ⟨-, hx⟩
      · exact .inr (.inr ⟨ex, rfl⟩)
      · exact .inl hx
  | del k =>
    cases h
    exact .inl (Kv.erase_eq_some.mp hx).2
  | _ => exact .inl (kvStore_reads rfl h ▸ hx)

end Async
