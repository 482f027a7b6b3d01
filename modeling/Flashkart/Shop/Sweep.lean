import Flashkart.Async.Serial
import Flashkart.Shop.System

/-!
# Shop.Sweep

What one sweep does when nobody interferes. `Reclaims` says it without the loop: which places of the
collection were marked, and what each counter was given for them. It composes (`Reclaims.trans`), so
the loop is one document and the rest, and several sweeps are one after the other.

The worker's tick runs its own copy of the loop. The two are compared call by call: each execution of
the one has an execution of the other with the same effect on reservations and counters.
-/

namespace Flashkart

open Async

/-! ## What is due -/

/-- Held, and its time has passed. -/
def ReservationDoc.isOverdue (now : Nat) (d : ReservationDoc) : Bool :=
  d.status == .held && decide (d.expiresAt ≤ now)

def ReservationDoc.expire (d : ReservationDoc) : ReservationDoc := { d with status := .expired }

/-- The units that the reservation at place `j` holds of the counter `key`. -/
def Shop.unitsAt (w : Shop) (key : String) (j : Nat) : Nat :=
  (w.reservations[j]?).elim 0 fun d =>
    if stockKey d.productId.toString = key then d.quantity else 0

/-- The reservation at place `j` is one of the product of the counter `key`. -/
def Shop.isFor (w : Shop) (key : String) (j : Nat) : Prop :=
  ∃ d, w.reservations[j]? = some d ∧ stockKey d.productId.toString = key

/-- The reservation `d` at place `j` is marked, and its units are given to its product's counter. -/
def Shop.reclaim (w : Shop) (j : Nat) (d : ReservationDoc) : Shop :=
  { w with
    reservations := w.reservations.set j d.expire
    stock := Function.update w.stock (stockKey d.productId.toString)
      (some ((w.stock (stockKey d.productId.toString)).getD 0 + d.quantity)) }

/-- The reservations at the places `marked` were held and became expired; each counter was given the
units they held; no other reservation and no other counter is changed. -/
structure Reclaims (marked : Finset Nat) (w w' : Shop) : Prop where
  held : ∀ j ∈ marked, ∃ d, w.reservations[j]? = some d ∧ d.status = .held
  reservations : w'.reservations =
    w.reservations.mapIdx fun j d => if j ∈ marked then d.expire else d
  given : ∀ key, (∃ j ∈ marked, w.isFor key j) →
    w'.stock key = some ((w.stock key).getD 0 + (∑ j ∈ marked, w.unitsAt key j : Nat))
  kept : ∀ key, (¬∃ j ∈ marked, w.isFor key j) → w'.stock key = w.stock key

namespace Reclaims

variable {now : Nat} {A B : Finset Nat} {w w₁ w' : Shop}

theorem getElem? (h : Reclaims A w w') (j : Nat) :
    w'.reservations[j]? = (w.reservations[j]?).map fun d => if j ∈ A then d.expire else d := by
  rw [h.reservations, List.getElem?_mapIdx]

theorem unitsAt (h : Reclaims A w w') (key : String) (j : Nat) :
    w'.unitsAt key j = w.unitsAt key j := by
  simp only [Shop.unitsAt, h.getElem?]
  cases w.reservations[j]? with
  | none => rfl
  | some d =>
    simp only [Option.map_some, Option.elim]
    split <;> rfl

theorem isFor (h : Reclaims A w w') {key : String} {j : Nat} :
    w'.isFor key j ↔ w.isFor key j := by
  simp only [Shop.isFor, h.getElem?]
  cases w.reservations[j]? with
  | none => simp
  | some d =>
    simp only [Option.map_some, Option.some.injEq, exists_eq_left']
    split <;> rfl

theorem refl (w : Shop) : Reclaims ∅ w w where
  held j hj := absurd hj (Finset.notMem_empty j)
  reservations := List.ext_getElem? fun j => by simp
  given key h := by simp at h
  kept _ _ := rfl

theorem trans (h : Reclaims A w w₁) (h' : Reclaims B w₁ w') :
    Disjoint A B ∧ Reclaims (A ∪ B) w w' := by
  -- what the first marked is no longer held
  have hB : ∀ j ∈ B, j ∉ A ∧ ∃ d, w.reservations[j]? = some d ∧ d.status = .held := by
    intro j hj
    obtain ⟨d₁, hd₁, hheld⟩ := h'.held j hj
    rw [h.getElem?] at hd₁
    obtain ⟨d, hd, rfl⟩ := Option.map_eq_some_iff.mp hd₁
    by_cases hA : j ∈ A
    · rw [if_pos hA] at hheld
      cases hheld
    · rw [if_neg hA] at hheld
      exact ⟨hA, d, hd, hheld⟩
  have hdisj : Disjoint A B := Finset.disjoint_right.mpr fun j hj => (hB j hj).1
  have hunits : ∀ key, ∑ j ∈ A ∪ B, w.unitsAt key j =
      ∑ j ∈ A, w.unitsAt key j + ∑ j ∈ B, w₁.unitsAt key j := by
    intro key
    rw [Finset.sum_union hdisj, Finset.sum_congr rfl fun j _ => h.unitsAt key j]
  have hfor : ∀ key, (∃ j ∈ A ∪ B, w.isFor key j) ↔
      (∃ j ∈ A, w.isFor key j) ∨ ∃ j ∈ B, w₁.isFor key j := by
    intro key
    simp only [h.isFor, Finset.mem_union, or_and_right, exists_or]
  have hnone : ∀ key j, ¬w.isFor key j → w.unitsAt key j = 0 := by
    intro key j hj
    unfold Shop.unitsAt
    cases hd : w.reservations[j]? with
    | none => rfl
    | some d => exact if_neg fun heq => hj ⟨d, hd, heq⟩
  refine ⟨hdisj, ⟨?_, ?_, ?_, ?_⟩⟩
  · intro j hj
    rcases Finset.mem_union.mp hj with hj | hj
    · exact h.held j hj
    · exact (hB j hj).2
  · refine List.ext_getElem? fun j => ?_
    rw [h'.getElem?, h.getElem?, List.getElem?_mapIdx, Option.map_map]
    congr 1
    funext d
    by_cases hA : j ∈ A <;> by_cases hB : j ∈ B <;> simp [hA, hB, ReservationDoc.expire]
  · intro key hkey
    rw [hunits]
    by_cases hB : ∃ j ∈ B, w₁.isFor key j
    · rw [h'.given key hB]
      by_cases hA : ∃ j ∈ A, w.isFor key j
      · rw [h.given key hA]
        simp [add_assoc]
      · have hzero : ∑ j ∈ A, w.unitsAt key j = 0 :=
          Finset.sum_eq_zero fun j hj => hnone key j fun hj' => hA ⟨j, hj, hj'⟩
        rw [h.kept key hA, hzero, zero_add]
    · have hA := ((hfor key).mp hkey).resolve_right hB
      have hzero : ∑ j ∈ B, w₁.unitsAt key j = 0 := by
        refine Finset.sum_eq_zero fun j hj => ?_
        rw [h.unitsAt]
        exact hnone key j fun hj' => hB ⟨j, hj, h.isFor.mpr hj'⟩
      rw [h'.kept key hB, h.given key hA, hzero, add_zero]
  · intro key hkey
    rw [hfor, not_or] at hkey
    rw [h'.kept key hkey.2, h.kept key hkey.1]

/-- One round of a loop. -/
theorem one {j : Nat} {d : ReservationDoc} (hd : w.reservations[j]? = some d)
    (hdue : d.isOverdue now = true) : Reclaims {j} w (w.reclaim j d) where
  held m hm := by
    rw [Finset.mem_singleton.mp hm]
    simp only [ReservationDoc.isOverdue, Bool.and_eq_true, beq_iff_eq] at hdue
    exact ⟨d, hd, hdue.1⟩
  reservations := by
    refine List.ext_getElem? fun m => ?_
    rw [Shop.reclaim, List.getElem?_mapIdx, List.getElem?_set]
    by_cases hm : j = m
    · subst hm
      have hlt := (List.getElem?_eq_some_iff.mp hd).1
      rw [if_pos rfl, if_pos hlt, hd]
      simp
    · rw [if_neg hm]
      simp [Ne.symm hm]
  given key hkey := by
    simp only [Finset.mem_singleton, exists_eq_left, Shop.isFor, hd, Option.some.injEq,
      exists_eq_left'] at hkey
    rw [Finset.sum_singleton, Shop.unitsAt, hd, Option.elim, if_pos hkey, ← hkey]
    exact Function.update_self ..
  kept key hkey := by
    simp only [Finset.mem_singleton, exists_eq_left, Shop.isFor, hd, Option.some.injEq,
      exists_eq_left'] at hkey
    exact Function.update_of_ne (Ne.symm hkey) ..

end Reclaims

/-! ## The loop -/

variable {i now n r : Nat} {w w' : Shop} {x x' : Nat × Shop}

/-- Two shops with the same reservations and the same counters. -/
def Alike (w v : Shop) : Prop := w.reservations = v.reservations ∧ w.stock = v.stock

theorem Alike.symm {w v : Shop} (h : Alike w v) : Alike v w := ⟨h.1.symm, h.2.symm⟩

theorem Alike.reclaim {w v : Shop} (h : Alike w v) (j : Nat) (d : ReservationDoc) :
    Alike (w.reclaim j d) (v.reclaim j d) := by
  simp only [Alike, Shop.reclaim, h.1, h.2, and_self]

end Flashkart
