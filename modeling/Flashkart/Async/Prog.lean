import Mathlib

/-!
# Async.Prog

Asynchronous programs as trees. A program of signature `S` makes one call at a time; the tree
has a branch for every answer the call can give, and for every error it can throw. What a call
does to the outside is not part of the program: `Run` gives it a meaning, one atomic step a call.

* `Prog S ε α`  — programs that return an `α` or throw an `ε`.
* `op`          — the program that makes one call and returns its answer.
* `tryCatch`    — `try p catch h`: an error thrown inside `p`, by a call too, goes to `h`.
* `inl`, `inr`  — a program over one of two signatures, read over their sum.
-/

namespace Async

/-- The calls a program may make and the type each one answers with. -/
structure Sig where
  Op : Type
  Ret : Op → Type

/-- The calls of both signatures. -/
def Sig.sum (S T : Sig) : Sig where
  Op := S.Op ⊕ T.Op
  Ret := Sum.elim S.Ret T.Ret

inductive Prog (S : Sig) (ε α : Type) : Type where
  | ret (a : α)
  | throw (e : ε)
  | call (o : S.Op) (k : Except ε (S.Ret o) → Prog S ε α)

namespace Prog

variable {S T : Sig} {ε α β : Type}

def bind : Prog S ε α → (α → Prog S ε β) → Prog S ε β
  | .ret a, f => f a
  | .throw e, _ => .throw e
  | .call o k, f => .call o fun r => (k r).bind f

def tryCatch : Prog S ε α → (ε → Prog S ε α) → Prog S ε α
  | .ret a, _ => .ret a
  | .throw e, h => h e
  | .call o k, h => .call o fun r => (k r).tryCatch h

instance : Monad (Prog S ε) where
  pure := .ret
  bind := .bind

def ofExcept : Except ε α → Prog S ε α
  | .ok a => .ret a
  | .error e => .throw e

def op (o : S.Op) : Prog S ε (S.Ret o) := .call o ofExcept

def inl : Prog S ε α → Prog (S.sum T) ε α
  | .ret a => .ret a
  | .throw e => .throw e
  | .call o k => .call (.inl o) fun r => (k r).inl

def inr : Prog T ε α → Prog (S.sum T) ε α
  | .ret a => .ret a
  | .throw e => .throw e
  | .call o k => .call (.inr o) fun r => (k r).inr

/-- The call the program makes next; `none` once it has returned or thrown. -/
def next : Prog S ε α → Option S.Op
  | .call o _ => some o
  | _ => none

/-- What the program ended with, once it has. -/
def result : Prog S ε α → Option (Except ε α)
  | .ret a => some (.ok a)
  | .throw e => some (.error e)
  | .call _ _ => none

@[simp] theorem pure_eq (a : α) : (pure a : Prog S ε α) = .ret a := rfl
@[simp] theorem bind_eq (p : Prog S ε α) (f : α → Prog S ε β) : p >>= f = p.bind f := rfl
@[simp] theorem map_eq (p : Prog S ε α) (f : α → β) : f <$> p = p.bind (fun a => .ret (f a)) := rfl

@[simp] theorem result_ret (a : α) : (ret a : Prog S ε α).result = some (.ok a) := rfl
@[simp] theorem result_throw (e : ε) : (throw e : Prog S ε α).result = some (.error e) := rfl
@[simp] theorem result_call (o : S.Op) (k : Except ε (S.Ret o) → Prog S ε α) :
    (call o k).result = none := rfl

@[simp] theorem ret_bind (a : α) (f : α → Prog S ε β) : (ret a).bind f = f a := rfl
@[simp] theorem throw_bind (e : ε) (f : α → Prog S ε β) : (throw e).bind f = .throw e := rfl

theorem bind_assoc {γ : Type} (p : Prog S ε α) (f : α → Prog S ε β) (g : β → Prog S ε γ) :
    (p.bind f).bind g = p.bind fun a => (f a).bind g := by
  induction p with
  | ret a => rfl
  | throw e => rfl
  | call o k ih => exact congrArg (call o) (funext ih)

/-! ## Reading a program over a sum of signatures -/

@[simp] theorem inl_ret (a : α) : (ret a : Prog S ε α).inl = (ret a : Prog (S.sum T) ε α) := rfl
@[simp] theorem inl_throw (e : ε) :
    (throw e : Prog S ε α).inl = (throw e : Prog (S.sum T) ε α) := rfl
@[simp] theorem inr_ret (a : α) : (ret a : Prog T ε α).inr = (ret a : Prog (S.sum T) ε α) := rfl
@[simp] theorem inr_throw (e : ε) :
    (throw e : Prog T ε α).inr = (throw e : Prog (S.sum T) ε α) := rfl

theorem inl_bind (p : Prog S ε α) (f : α → Prog S ε β) :
    ((p.bind f).inl : Prog (S.sum T) ε β) = p.inl.bind fun a => (f a).inl := by
  induction p with
  | ret a => rfl
  | throw e => rfl
  | call o k ih => exact congrArg (@call (S.sum T) ε β (Sum.inl o)) (funext ih)

theorem inr_bind (p : Prog T ε α) (f : α → Prog T ε β) :
    ((p.bind f).inr : Prog (S.sum T) ε β) = p.inr.bind fun a => (f a).inr := by
  induction p with
  | ret a => rfl
  | throw e => rfl
  | call o k ih => exact congrArg (@call (S.sum T) ε β (Sum.inr o)) (funext ih)

theorem inr_tryCatch (p : Prog T ε α) (h : ε → Prog T ε α) :
    ((p.tryCatch h).inr : Prog (S.sum T) ε α) = p.inr.tryCatch fun e => (h e).inr := by
  induction p with
  | ret a => rfl
  | throw e => rfl
  | call o k ih => exact congrArg (@call (S.sum T) ε α (Sum.inr o)) (funext ih)

/-! ## Which calls a program can make -/

/-- Every call in the tree satisfies `A`. -/
def Calls (A : S.Op → Prop) : Prog S ε α → Prop
  | .ret _ => True
  | .throw _ => True
  | .call o k => A o ∧ ∀ r, (k r).Calls A

variable {A B : S.Op → Prop}

@[simp] theorem calls_ret (a : α) : (ret a : Prog S ε α).Calls A := trivial
@[simp] theorem calls_throw (e : ε) : (throw e : Prog S ε α).Calls A := trivial

@[simp] theorem calls_op (o : S.Op) : (op o : Prog S ε (S.Ret o)).Calls A ↔ A o := by
  refine ⟨fun h => h.1, fun h => ⟨h, ?_⟩⟩
  intro r
  cases r <;> trivial

theorem Calls.mono {p : Prog S ε α} (h : p.Calls A) (himp : ∀ o, A o → B o) : p.Calls B := by
  induction p with
  | ret a => trivial
  | throw e => trivial
  | call o k ih => exact ⟨himp o h.1, fun r => ih r (h.2 r)⟩

theorem calls_all (p : Prog S ε α) (h : ∀ o, A o) : p.Calls A := by
  induction p with
  | ret a => trivial
  | throw e => trivial
  | call o k ih => exact ⟨h o, ih⟩

theorem calls_bind {p : Prog S ε α} {f : α → Prog S ε β} (hp : p.Calls A)
    (hf : ∀ a, (f a).Calls A) : (p.bind f).Calls A := by
  induction p with
  | ret a => exact hf a
  | throw e => trivial
  | call o k ih => exact ⟨hp.1, fun r => ih r (hp.2 r)⟩

theorem calls_tryCatch {p : Prog S ε α} {h : ε → Prog S ε α} (hp : p.Calls A)
    (hh : ∀ e, (h e).Calls A) : (p.tryCatch h).Calls A := by
  induction p with
  | ret a => trivial
  | throw e => exact hh e
  | call o k ih => exact ⟨hp.1, fun r => ih r (hp.2 r)⟩

theorem calls_inl {p : Prog S ε α} {A : (S.sum T).Op → Prop} (hp : p.Calls fun o => A (.inl o)) :
    (p.inl : Prog (S.sum T) ε α).Calls A := by
  induction p with
  | ret a => trivial
  | throw e => trivial
  | call o k ih => exact ⟨hp.1, fun r => ih r (hp.2 r)⟩

theorem calls_inr {p : Prog T ε α} {A : (S.sum T).Op → Prop} (hp : p.Calls fun o => A (.inr o)) :
    (p.inr : Prog (S.sum T) ε α).Calls A := by
  induction p with
  | ret a => trivial
  | throw e => trivial
  | call o k ih => exact ⟨hp.1, fun r => ih r (hp.2 r)⟩

end Prog
end Async
