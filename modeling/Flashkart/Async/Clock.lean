import Mathlib

/-!
# Async.Clock

Readings of a clock in the order in which they arrive. `forward l ts` is how far the readings `ts`
go forward, step by step, from `l` on; steps back do not count. Readings that never go back go
forward by the last one less the first (`forward_of_sorted`); others can go over the same time again
and again.
-/

namespace Async
namespace Clock

variable {K : Type} [AddCommGroup K] [LinearOrder K] [IsOrderedAddMonoid K]

def forward : K → List K → K
  | _, [] => 0
  | l, t :: ts => max 0 (t - l) + forward t ts

variable {l t y : K} {ts : List K}

theorem forward_of_sorted (h : (l :: ts).Pairwise (· ≤ ·)) (hlast : (l :: ts).getLast? = some y) :
    forward l ts = y - l := by
  induction ts generalizing l with
  | nil =>
    cases hlast
    exact (sub_self l).symm
  | cons t ts ih =>
    obtain ⟨hl, h⟩ := List.pairwise_cons.mp h
    have hlt : l ≤ t := hl t (List.mem_cons_self ..)
    rw [List.getLast?_cons_cons] at hlast
    rw [forward, ih h hlast, max_eq_right (sub_nonneg.mpr hlt)]
    abel

end Clock
end Async
