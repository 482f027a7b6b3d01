import Mathlib.Data.Set.Insert

/-!
# Async.Echo

A value that is announced after it has changed. An announcement is due from the change on; it gets
its time stamp, is then in flight, and lands on a channel. Nothing orders the announcements of
different changes.

* `Told`    — the value is the last one on the channel or has still to land there, and it has the
  largest stamp or has still to get one.
* `of_due`  — a change whose announcement is due tells.
* `stamp`, `land` — so does an announcement that comes too late, as long as one that does not is
  still to come.
* `settled` — with nothing due and nothing in flight, the channel shows the value.
-/

namespace Async

structure Stamped (V : Type) where
  value : V
  ts : Nat

variable {V : Type} {now now' : Nat} {v : V} {s : Stamped V} {landed : List (Stamped V)}
  {flight flight' : Set (Stamped V)} {due due' : Set V}

structure Told (now : Nat) (v : V) (landed : List (Stamped V)) (flight : Set (Stamped V))
    (due : Set V) : Prop where
  last : landed.getLast?.map (·.value) = some v ∨ (∃ s ∈ flight, s.value = v) ∨ v ∈ due
  newest : (∃ s, (s ∈ landed ∨ s ∈ flight) ∧ s.value = v ∧
    ∀ s', s' ∈ landed ∨ s' ∈ flight → s'.ts ≤ s.ts) ∨ v ∈ due
  past : ∀ s, s ∈ landed ∨ s ∈ flight → s.ts ≤ now

namespace Told

theorem of_due (hpast : ∀ s, s ∈ landed ∨ s ∈ flight → s.ts ≤ now) (hv : v ∈ due) :
    Told now v landed flight due :=
  ⟨.inr (.inr hv), .inr hv, hpast⟩

theorem tick (h : Told now v landed flight due) (hle : now ≤ now') :
    Told now' v landed flight due :=
  ⟨h.last, h.newest, fun s hs => (h.past s hs).trans hle⟩

theorem mono (h : Told now v landed flight due) (hflight : ∀ x, x ∈ flight' ↔ x ∈ flight)
    (hdue : due ⊆ due') : Told now v landed flight' due' := by
  obtain rfl : flight' = flight := Set.ext hflight
  exact ⟨h.last.imp_right (.imp_right (hdue ·)), h.newest.imp_right (hdue ·), h.past⟩

/-- An announcement gets its stamp. If it is out of date, one that is not is still due. -/
theorem stamp (h : Told now v landed flight due) (hts : s.ts = now)
    (hv : s.value = v ∨ v ∈ due') (hflight : ∀ x, x ∈ flight' ↔ x = s ∨ x ∈ flight) :
    Told now v landed flight' due' := by
  have hold : ∀ x, x ∈ landed ∨ x ∈ flight' → x = s ∨ x ∈ landed ∨ x ∈ flight := by
    rintro x (hx | hx)
    · exact .inr (.inl hx)
    · exact ((hflight x).mp hx).imp_right .inr
  have hpast : ∀ x, x ∈ landed ∨ x ∈ flight' → x.ts ≤ now := by
    intro x hx
    rcases hold x hx with rfl | hx
    · exact hts.le
    · exact h.past x hx
  rcases hv with rfl | hv
  · have hs : s ∈ flight' := (hflight s).mpr (.inl rfl)
    refine ⟨.inr (.inl ⟨s, hs, rfl⟩), .inl ⟨s, .inr hs, rfl, ?_⟩, hpast⟩
    rw [hts]
    exact hpast
  · exact of_due hpast hv

/-- An announcement lands. If it is out of date, one that is not has still to land. -/
theorem land (h : Told now v landed flight due) (hs : s ∈ flight)
    (hv : s.value = v ∨ (∃ x ∈ flight', x.value = v) ∨ v ∈ due')
    (hsub : ∀ x ∈ flight', x ∈ flight) (hsup : ∀ x ∈ flight, x = s ∨ x ∈ flight')
    (hdue : due ⊆ due') : Told now v (landed ++ [s]) flight' due' := by
  have hold : ∀ x, x ∈ landed ++ [s] ∨ x ∈ flight' → x ∈ landed ∨ x ∈ flight := by
    rintro x (hx | hx)
    · rcases List.mem_append.mp hx with hx | hx
      · exact .inl hx
      · rw [List.mem_singleton.mp hx]
        exact .inr hs
    · exact .inr (hsub x hx)
  have hnew : ∀ x, x ∈ landed ∨ x ∈ flight → x ∈ landed ++ [s] ∨ x ∈ flight' := by
    rintro x (hx | hx)
    · exact .inl (List.mem_append_left _ hx)
    · exact (hsup x hx).imp_left fun hx => by simp [hx]
  refine ⟨?_, ?_, fun x hx => h.past x (hold x hx)⟩
  · exact hv.imp_left fun hv => by simp [hv]
  · refine h.newest.imp ?_ (hdue ·)
    rintro ⟨x, hx, hxv, hmax⟩
    exact ⟨x, hnew x hx, hxv, fun x' hx' => hmax x' (hold x' hx')⟩

theorem settled (h : Told now v landed flight due) (hf : ∀ x, x ∉ flight) (hd : ∀ x, x ∉ due) :
    landed.getLast?.map (·.value) = some v ∧
      ∃ s ∈ landed, s.value = v ∧ ∀ s' ∈ landed, s'.ts ≤ s.ts := by
  constructor
  · rcases h.last with hlast | ⟨s, hs, -⟩ | hdue
    · exact hlast
    · exact absurd hs (hf s)
    · exact absurd hdue (hd v)
  · rcases h.newest with ⟨s, hs | hs, hsv, hmax⟩ | hdue
    · exact ⟨s, hs, hsv, fun s' hs' => hmax s' (.inl hs')⟩
    · exact absurd hs (hf s)
    · exact absurd hdue (hd v)

end Told
end Async
