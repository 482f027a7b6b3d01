import Mathlib

/-!
# Async.Sequential

Objects that are used by one caller at a time. A history of operations and answers is `Legal` from
a state when each answer is the one the object gives there; a concurrent run is linearizable when
its calls, put in some order, are a legal history.

`counter` is a number of units: `take` subtracts if there are enough, `put` adds.
-/

namespace Async
namespace Sequential

variable {σ Op Ret : Type} {step : σ → Op → Ret × σ} {s : σ} {h : List (Op × Ret)} {x : Op × Ret}

def Legal (step : σ → Op → Ret × σ) : σ → List (Op × Ret) → Prop
  | _, [] => True
  | s, x :: h => (step s x.1).1 = x.2 ∧ Legal step (step s x.1).2 h

/-- The state after the operations of a history. -/
def final (step : σ → Op → Ret × σ) : σ → List (Op × Ret) → σ
  | s, [] => s
  | s, x :: h => final step (step s x.1).2 h

theorem legal_concat :
    Legal step s (h ++ [x]) ↔ Legal step s h ∧ (step (final step s h) x.1).1 = x.2 := by
  induction h generalizing s with
  | nil => simp [Legal, final]
  | cons y h ih => simp [Legal, final, ih, and_assoc]

theorem final_concat : final step s (h ++ [x]) = (step (final step s h) x.1).2 := by
  induction h generalizing s with
  | nil => rfl
  | cons y h ih => exact ih

inductive CounterOp where
  | take (n : Nat)
  | put (n : Nat)
  deriving DecidableEq

/-- The answer is the new value, or `none` when there are too few units. -/
def counter (v : Int) : CounterOp → Option Int × Int
  | .take n => if v < n then (none, v) else (some (v - n), v - n)
  | .put n => (some (v + n), v + n)

end Sequential
end Async
