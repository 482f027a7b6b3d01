import Mathlib.Data.List.Induction

/-!
# Async.Script

Runs of a system that is given by a step function, by the list of its actions.

* `script`           — the actions one after the other, as far as a guard lets them through.
* `script_induction` — what holds at first and is kept by every action.
-/

namespace Async

variable {σ α : Type}

/-- `none` when an action cannot happen or is not let through by `ok`. -/
def script (step : σ → α → Option σ) (ok : σ → α → Bool) (s : σ) (as : List α) : Option σ :=
  as.foldlM (fun s a => if ok s a then step s a else none) s

variable {step : σ → α → Option σ} {ok ok' : σ → α → Bool} {s₀ s s' : σ} {as bs : List α} {a : α}

theorem script_append : script step ok s₀ (as ++ bs) =
    (script step ok s₀ as).bind fun s => script step ok s bs := List.foldlM_append

theorem script_concat : script step ok s₀ (as ++ [a]) = some s' ↔
    ∃ s, script step ok s₀ as = some s ∧ ok s a = true ∧ step s a = some s' := by
  rw [script_append, Option.bind_eq_some_iff]
  refine exists_congr fun s => and_congr_right fun _ => ?_
  simp only [script, List.foldlM_cons, List.foldlM_nil]
  split
  · rename_i hok
    simp [hok]
  · rename_i hok
    simp [hok]

theorem script_one (hok : ok s a = true) (hs : step s a = some s') :
    script step ok s [a] = some s' := by
  rw [← List.nil_append [a]]
  exact script_concat.mpr ⟨s, rfl, hok, hs⟩

theorem script_mono (h : script step ok s₀ as = some s)
    (himp : ∀ s a, ok s a = true → ok' s a = true) : script step ok' s₀ as = some s := by
  induction as using List.reverseRecOn generalizing s with
  | nil => exact h
  | append_singleton as a ih =>
    obtain ⟨s₁, hrun, hok, hs⟩ := script_concat.mp h
    exact script_concat.mpr ⟨s₁, ih hrun, himp _ _ hok, hs⟩

theorem script_induction {I : List α → σ → Prop} (h : script step ok s₀ as = some s) (h0 : I [] s₀)
    (hstep : ∀ as s a s', script step ok s₀ as = some s → I as s → ok s a = true →
      step s a = some s' → I (as ++ [a]) s') : I as s := by
  induction as using List.reverseRecOn generalizing s with
  | nil =>
    obtain rfl := Option.some.inj h
    exact h0
  | append_singleton as a ih =>
    obtain ⟨s₁, hrun, hok, hs⟩ := script_concat.mp h
    exact hstep as s₁ a s hrun (ih hrun) hok hs

end Async
