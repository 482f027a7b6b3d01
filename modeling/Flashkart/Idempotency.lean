import Flashkart.Async.Kv
import Flashkart.Basic

/-!
# Flashkart.Idempotency

`withIdempotency`: the wrapper that runs `fn` under a Redis claim on the request's key, stores its
result, and lets every other caller with the key wait for that result.

`fn` is a program over any signature `S` of its own, so it cannot touch the key. The stored text
is a type `J` with `stringify` and `parse` for `JSON.stringify` and `JSON.parse`.
-/

namespace Flashkart

open Async

def RESULT_TTL_SECONDS : Nat := 24 * 60 * 60
def LOCK_TTL_SECONDS : Nat := 30
def POLL_INTERVAL_MS : Nat := 25
def POLL_TIMEOUT_MS : Nat := 5000

/-- The two kinds of value under an idempotency key: `__pending__`, or a stored result. -/
inductive Cell (J : Type) where
  | pending
  | result (json : J)

structure StoredResult (T : Type) where
  status : Nat
  body : T
  deriving DecidableEq

structure IdemResult (T : Type) where
  replayed : Bool
  value : T

structure Json (T J : Type) where
  stringify : T → J
  parse : J → T

variable {S : Sig} {T J : Type}

/-- The programs that hold `withIdempotency`: its own Redis calls beside those of `fn`. -/
abbrev IdemProg (J : Type) (S : Sig) (α : Type) : Type := Prog ((kvSig (Cell J)).sum S) Err α

namespace Idem

def setNx (key : String) (v : Cell J) (ex : Nat) : IdemProg J S Bool := (KvOp.setNx key v ex).call.inl
def set (key : String) (v : Cell J) (ex : Nat) : IdemProg J S Unit := (KvOp.set key v ex).call.inl
def get (key : String) : IdemProg J S (Option (Cell J)) := (KvOp.get key).call.inl
def del (key : String) : IdemProg J S Unit := (KvOp.del key).call.inl
def dateNow : IdemProg J S Nat := KvOp.dateNow.call.inl

def sleep (ms : Nat) : IdemProg J S Unit := do
  let t ← dateNow
  (KvOp.sleepUntil (t + ms)).call.inl

end Idem

open Idem

def idemKey (key : String) : String := "idem:" ++ key

def waitTimeout : Err := .error "idempotency wait timeout"

/-- The polling loop. A round takes `POLL_INTERVAL_MS`, so the deadline ends it within
`POLL_ROUNDS` rounds. -/
def poll (json : Json (StoredResult T) J) (redisKey : String) (deadline : Nat) :
    Nat → IdemProg J S (IdemResult (StoredResult T))
  | 0 => .throw waitTimeout
  | n + 1 => do
    let now ← dateNow
    if now < deadline then
      let existing ← get redisKey
      match existing with
      | some (.result j) => return ⟨true, json.parse j⟩
      | _ =>
        sleep POLL_INTERVAL_MS
        poll json redisKey deadline n
    else .throw waitTimeout

def POLL_ROUNDS : Nat := POLL_TIMEOUT_MS / POLL_INTERVAL_MS + 1

def withIdempotency (json : Json (StoredResult T) J) (key : String)
    (fn : Prog S Err (StoredResult T)) : IdemProg J S (IdemResult (StoredResult T)) := do
  let redisKey := idemKey key
  let claimed ← setNx redisKey .pending LOCK_TTL_SECONDS
  if claimed then
    Prog.tryCatch
      (do
        let result ← fn.inr
        set redisKey (.result (json.stringify result)) RESULT_TTL_SECONDS
        return ⟨false, result⟩)
      fun err => do
        -- `fn` threw, or storing its result did
        del redisKey
        .throw err
  else
    let now ← dateNow
    poll json redisKey (now + POLL_TIMEOUT_MS) POLL_ROUNDS

/-! ## Which calls the wrapper makes -/

section Calls

variable {A : S.Op → Prop}

/-- Any call of the wrapper's own, and the calls of `fn`. -/
abbrev OrOwn (A : S.Op → Prop) : ((kvSig (Cell J)).sum S).Op → Prop :=
  Sum.elim (fun _ => True) A

theorem calls_bind_own {α β : Type} {m : Prog (kvSig (Cell J)) Err β} {f : β → IdemProg J S α}
    (hm : m.Calls fun _ => True) (hf : ∀ a, (f a).Calls (OrOwn A)) :
    ((m.inl : IdemProg J S β).bind f).Calls (OrOwn A) :=
  Prog.calls_bind (Prog.calls_inl (A := OrOwn A) hm) hf

theorem calls_own (o : KvOp (Cell J)) : (o.call : Prog (kvSig (Cell J)) Err _).Calls fun _ => True :=
  (Prog.calls_op (S := kvSig (Cell J)) o).mpr trivial

/-- The wrapper's own calls that change no key. -/
abbrev OnlyReads : ((kvSig (Cell J)).sum S).Op → Prop :=
  Sum.elim (fun k : KvOp (Cell J) => k.writes = false) fun _ => False

/-- A caller that waits only reads. -/
theorem calls_poll (json : Json (StoredResult T) J) (redisKey : String) (deadline n : Nat) :
    (poll json redisKey deadline n : IdemProg J S _).Calls OnlyReads := by
  have hop : ∀ (o : KvOp (Cell J)), o.writes = false →
      (o.call.inl : IdemProg J S o.Ret).Calls OnlyReads :=
    fun o ho => Prog.calls_inl (A := OnlyReads) ((Prog.calls_op (S := kvSig (Cell J)) o).mpr ho)
  induction n with
  | zero => trivial
  | succ n ih =>
    refine Prog.calls_bind (hop _ rfl) fun now => ?_
    split
    · refine Prog.calls_bind (hop _ rfl) fun existing => ?_
      split
      · trivial
      · refine Prog.calls_bind ?_ fun _ => ih
        exact Prog.calls_bind (hop _ rfl) fun t => hop _ rfl
    · trivial

theorem calls_withIdempotency {json : Json (StoredResult T) J} {key : String}
    {fn : Prog S Err (StoredResult T)} (hfn : fn.Calls A) :
    (withIdempotency json key fn).Calls (OrOwn A) := by
  refine calls_bind_own (calls_own _) fun claimed => ?_
  cases claimed with
  | true =>
    refine Prog.calls_tryCatch ?_ fun err => ?_
    · refine Prog.calls_bind (Prog.calls_inr (A := OrOwn A) hfn) fun v => ?_
      exact calls_bind_own (calls_own _) fun _ => trivial
    · exact calls_bind_own (calls_own _) fun _ => trivial
  | false =>
    refine calls_bind_own (calls_own _) fun now => (calls_poll json _ _ _).mono ?_
    intro o ho
    cases o with
    | inl k => trivial
    | inr o => exact ho.elim

end Calls

/-! ## What the wrapper does to a thread's account -/

section Account

variable {L G W P : Type} [AddCommMonoid G] {K : Logic ((kvSig (Cell J)).sum S) Err W P L G}
  {i : Nat} {l : L}

theorem safe_poll (hkv : ∀ o, K.Neutral (.inl o)) (json : Json (StoredResult T) J)
    (redisKey : String) (deadline n : Nat) :
    K.Safe i (poll json redisKey deadline n : IdemProg J S _) l fun r l' =>
      l' = l ∧ ∀ v, r = .ok v → v.replayed = true := by
  induction n with
  | zero => exact ⟨rfl, fun v h => by cases h⟩
  | succ n ih =>
    have herr : ∀ (e : Err) (l' : L), l' = l → l' = l ∧
        ∀ v : IdemResult (StoredResult T), Except.error e = .ok v → v.replayed = true :=
      fun e l' h => ⟨h, fun v h => by cases h⟩
    refine .inl_op (hkv _ i l) ?_ herr
    rintro now l' rfl
    split
    · refine .inl_op (hkv _ i l') ?_ herr
      rintro existing l'' rfl
      split
      · exact ⟨rfl, fun v h => by cases h; rfl⟩
      · refine Logic.safe_bind.mpr (.inl_op (hkv _ i l'') ?_ herr)
        rintro t l' rfl
        refine (hkv _ i l').mono ?_
        rintro (e | u) l'' rfl
        · exact herr e l'' rfl
        · exact ih
    · exact ⟨rfl, fun v h => by cases h⟩

/-- The account after a call of `withIdempotency`: that of `fn` if it ran, the one before if a
result was replayed. `E` is what is known when `fn` ended well and its result was not stored. -/
theorem safe_withIdempotency (hkv : ∀ o, K.Neutral (.inl o)) {json : Json (StoredResult T) J}
    {key : String} {fn : Prog S Err (StoredResult T)}
    {R : Except Err (StoredResult T) → L → Prop} {E : L → Prop} (hfn : K.Safe i fn.inr l R)
    (hset : ∀ v l', R (.ok v) l' →
      K.Call i l' (.inl (.set (idemKey key) (.result (json.stringify v)) RESULT_TTL_SECONDS))
        fun out l'' => l'' = l' ∧ ∀ e, out = .error e → E l') :
    K.Safe i (withIdempotency json key fn) l fun r l' =>
      match r with
      | .ok v => if v.replayed then l' = l else R (.ok v.value) l'
      | .error _ => l' = l ∨ (∃ e, R (.error e) l') ∨ E l' := by
  refine .inl_op (hkv _ i l) ?_ fun e l' h => .inl h
  rintro claimed l₀ rfl
  cases claimed with
  | true =>
    refine Logic.safe_tryCatch.mpr (Logic.safe_bind.mpr (hfn.mono ?_))
    -- the `catch` block keeps what is known, whether its `del` succeeds or not
    have herr : ∀ {l₁ : L} {e : Err}, (l₁ = l₀ ∨ (∃ e, R (.error e) l₁) ∨ E l₁) →
        K.Safe i (Idem.del (idemKey key) >>= fun _ => Prog.throw e) l₁
          fun (r : Except Err (IdemResult (StoredResult T))) l' =>
          match r with
          | .ok v => if v.replayed then l' = l₀ else R (.ok v.value) l'
          | .error _ => l' = l₀ ∨ (∃ e, R (.error e) l') ∨ E l' := by
      intro l₁ e h
      refine .inl_op (hkv _ i l₁) ?_ ?_
      · rintro u l₂ rfl; exact h
      · rintro e l₂ rfl; exact h
    intro r l₁ hr
    cases r with
    | error e => exact herr (.inr (.inl ⟨e, hr⟩))
    | ok v =>
      refine .inl_op (hset v l₁ hr) ?_ ?_
      · rintro u l₂ ⟨rfl, -⟩; exact hr
      · rintro e l₂ ⟨rfl, hE⟩; exact herr (.inr (.inr (hE e rfl)))
  | false =>
    refine .inl_op (hkv _ i l₀) ?_ fun e l' h => .inl h
    rintro now l₁ rfl
    refine (safe_poll hkv json _ _ _).mono ?_
    rintro (e | v) l₂ ⟨rfl, hrep⟩
    · exact .inl rfl
    · simp [hrep v rfl]

end Account

end Flashkart
