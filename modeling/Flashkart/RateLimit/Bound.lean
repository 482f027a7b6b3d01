import Flashkart.RateLimit.TokenBucket

/-!
# RateLimit.Bound

What the bucket grants in the long run. A call is granted no more than there is, and between calls
the bucket gains no more than the time that has passed is worth, so a run is granted what was there
at first and the worth of all steps forward (`granted_le_forward`).

* `rate_bounded`    — with timestamps that never go back, that is the capacity and the worth of the
  window, for every window; a key that Redis has dropped is no different from a full one.
* `no_time_twice`   — with timestamps in any order, time is credited twice just when the steps
  forward add up to more than the time between the smallest and the largest of them.
-/

namespace Flashkart

open Async Clock

structure Full (a : RateArgs) (h : RateHash) : Prop where
  nonneg : 0 ≤ h.t
  le : h.t ≤ a.capacity

/-- What holds of the key between calls. -/
def Sound (a : RateArgs) (e : Option RateEntry) : Prop :=
  ∀ x, e = some x → Full a x.hash ∧ x.expireAt = x.hash.l + ⌈a.capacity / a.refill * 2⌉ * 1000

variable {a : RateArgs} {e : Option RateEntry} {c : RateCall} {cs : List RateCall} {x : RateEntry}
  {h : RateHash} {now : ℚ}

theorem gain_nonneg (a : RateArgs) (d : ℚ) : 0 ≤ max 0 d / 1000 * a.refill :=
  mul_nonneg (div_nonneg (le_max_left 0 d) (by norm_num)) a.refill_pos.le

theorem refilled_nonneg (hfull : Full a h) : 0 ≤ refilled a (some h) now :=
  le_min a.capacity_pos.le (add_nonneg hfull.nonneg (gain_nonneg a _))

theorem refilled_none (a : RateArgs) (now : ℚ) : refilled a none now = a.capacity := by
  simp [refilled]

theorem finds_nonneg (hs : Sound a e) : 0 ≤ refilled a (c.finds e) c.now := by
  unfold RateCall.finds
  split
  · rw [refilled_none]
    exact a.capacity_pos.le
  · cases e with
    | none =>
      rw [Option.map_none, refilled_none]
      exact a.capacity_pos.le
    | some x => exact refilled_nonneg (hs x rfl).1

theorem checkRate_sound (hs : Sound a e) : Sound a (some (checkRate a e c).entry) := by
  rintro x hx
  obtain rfl := Option.some.inj hx
  rw [checkRate_entry]
  refine ⟨⟨?_, ?_⟩, rfl⟩
  · exact sub_nonneg.mpr (granted_le a e c (finds_nonneg hs))
  · exact (sub_le_self _ (granted_nonneg a e c)).trans (refilled_le a _ _)

theorem checkRates_full (hs : Sound a e) : ∀ o ∈ checkRates a e cs, Full a o.entry.hash := by
  induction cs generalizing e with
  | nil => exact fun o ho => absurd ho List.not_mem_nil
  | cons c cs ih =>
    intro o ho
    rcases List.mem_cons.mp ho with rfl | ho
    · exact (checkRate_sound hs _ rfl).1
    · exact ih (checkRate_sound hs) o ho

/-! ## Keys that were dropped -/

def RateCall.kept (c : RateCall) : RateCall := ⟨c.now, false⟩

/-- When the key's time has passed, the bucket is full again. -/
theorem refilled_expired (hfull : Full a h)
    (hexp : h.l + ⌈a.capacity / a.refill * 2⌉ * 1000 ≤ now) :
    refilled a (some h) now = a.capacity := by
  have hceil : a.capacity / a.refill * 2 ≤ ⌈a.capacity / a.refill * 2⌉ := Int.le_ceil _
  have hpass : a.capacity / a.refill * 2 * 1000 ≤ now - h.l := by linarith
  have hpos : 0 ≤ a.capacity / a.refill * 2 * 1000 := by
    have := div_pos a.capacity_pos a.refill_pos
    positivity
  refine min_eq_left ?_
  calc a.capacity ≤ 2 * a.capacity := by linarith [a.capacity_pos]
    _ = a.capacity / a.refill * 2 * 1000 / 1000 * a.refill := by
      field_simp [a.refill_pos.ne']
    _ ≤ max 0 (now - h.l) / 1000 * a.refill := by
      rw [max_eq_right (hpos.trans hpass)]
      have := a.refill_pos
      gcongr
    _ ≤ h.t + max 0 (now - h.l) / 1000 * a.refill := by linarith [hfull.nonneg]

/-- A call sees of the key only the tokens that it finds. -/
theorem checkRate_congr {e' : Option RateEntry} {c' : RateCall} (hnow : c.now = c'.now)
    (htokens : refilled a (c.finds e) c.now = refilled a (c'.finds e') c'.now) :
    checkRate a e c = checkRate a e' c' := by
  have hfinds : ∀ (c : RateCall) e, (if c.dropped then none else e.map (·.hash)) = c.finds e :=
    fun _ _ => rfl
  simp only [checkRate, hfinds, RATE_LUA_eq]
  rw [htokens, hnow]

theorem checkRate_kept (hs : Sound a e)
    (hdrop : c.dropped = true → ∀ x, e = some x → x.expireAt ≤ c.now) :
    checkRate a e c = checkRate a e c.kept := by
  refine checkRate_congr rfl ?_
  cases hd : c.dropped with
  | false => simp [RateCall.finds, RateCall.kept, hd]
  | true =>
    have hfinds : c.finds e = none := by simp [RateCall.finds, hd]
    rw [hfinds, refilled_none]
    cases e with
    | none => exact (refilled_none a _).symm
    | some x =>
      obtain ⟨hfull, hexp⟩ := hs x rfl
      exact (refilled_expired hfull (hexp ▸ hdrop hd x rfl)).symm

theorem checkRates_kept (hs : Sound a e) (hdrops : DropsExpired a e cs) :
    checkRates a e cs = checkRates a e (cs.map RateCall.kept) := by
  induction cs generalizing e with
  | nil => rfl
  | cons c cs ih =>
    have hc := checkRate_kept hs hdrops.1
    have hrest := ih (checkRate_sound hs) hdrops.2
    rw [List.map_cons, checkRates, checkRates, hrest, hc]

/-! ## What a run is granted -/

/-- The tokens a call leaves and the cost it was granted, from the tokens before it. -/
theorem call_le (hkept : c.dropped = false) (x : RateEntry) :
    (checkRate a (some x) c).entry.hash.t + (checkRate a (some x) c).granted a ≤
      x.hash.t + max 0 (c.now - x.hash.l) / 1000 * a.refill := by
  have hfinds : c.finds (some x) = some x.hash := by simp [RateCall.finds, hkept]
  rw [checkRate_entry, hfinds, sub_add_cancel]
  exact min_le_right _ _

theorem granted_le_forward (hs : Sound a (some x)) (hkept : ∀ c ∈ cs, c.dropped = false) :
    granted a (checkRates a (some x) cs) ≤
      x.hash.t + forward x.hash.l (cs.map (·.now)) / 1000 * a.refill := by
  induction cs generalizing x with
  | nil => simpa [granted, checkRates, forward] using (hs x rfl).1.nonneg
  | cons c cs ih =>
    have hcall := call_le (a := a) (hkept c (List.mem_cons_self ..)) x
    have hrest := ih (checkRate_sound (c := c) hs) fun d hd => hkept d (List.mem_cons_of_mem _ hd)
    have hl : (checkRate a (some x) c).entry.hash.l = c.now := by rw [checkRate_entry]
    rw [hl] at hrest
    simp only [granted, checkRates, List.map_cons, List.sum_cons, forward] at hrest ⊢
    rw [add_div, add_mul]
    linarith

/-- A run from any state is granted no more than a full bucket and the worth of its steps. -/
theorem granted_le_capacity (hs : Sound a e) (hkept : ∀ d ∈ c :: cs, d.dropped = false) :
    granted a (checkRates a e (c :: cs)) ≤
      a.capacity + forward c.now (cs.map (·.now)) / 1000 * a.refill := by
  have hrest := granted_le_forward (checkRate_sound (c := c) hs) fun d hd =>
    hkept d (List.mem_cons_of_mem _ hd)
  rw [checkRate_entry] at hrest
  have hle := refilled_le a (c.finds e) c.now
  simp only [granted, checkRates, List.map_cons, List.sum_cons, checkRate_entry] at hrest ⊢
  linarith

/-! ## Windows -/

theorem checkRates_take (a : RateArgs) (e : Option RateEntry) (cs : List RateCall) (m : ℕ) :
    (checkRates a e cs).take m = checkRates a e (cs.take m) := by
  induction cs generalizing e m with
  | nil => simp [checkRates]
  | cons c cs ih =>
    cases m with
    | zero => rfl
    | succ m => simp only [checkRates, List.take_succ_cons, ih]

theorem checkRates_drop (hs : Sound a e) (i : ℕ) :
    ∃ e', Sound a e' ∧ (checkRates a e cs).drop i = checkRates a e' (cs.drop i) := by
  induction cs generalizing e i with
  | nil => exact ⟨e, hs, by simp [checkRates]⟩
  | cons c cs ih =>
    cases i with
    | zero => exact ⟨e, hs, rfl⟩
    | succ i => exact ih (checkRate_sound hs) i

theorem sound_none (a : RateArgs) : Sound a none := fun _ h => by cases h

/-- A window of a run with timestamps that never go back. -/
theorem window_le (hs : Sound a e) (hkept : ∀ c ∈ cs, c.dropped = false)
    (hmono : (cs.map (·.now)).Pairwise (· ≤ ·)) {first last : RateCall}
    (hfirst : cs.head? = some first) (hlast : cs.getLast? = some last) :
    granted a (checkRates a e cs) ≤ a.capacity + a.refill * (last.now - first.now) / 1000 := by
  obtain ⟨cs, rfl⟩ := List.head?_eq_some_iff.mp hfirst
  have hend : (first.now :: cs.map (·.now)).getLast? = some last.now := by
    rw [← List.map_cons (f := RateCall.now), List.getLast?_map, hlast]
    rfl
  have hforward := forward_of_sorted hmono hend
  have hle := granted_le_capacity hs hkept
  rw [hforward] at hle
  calc granted a (checkRates a e (first :: cs))
      ≤ a.capacity + (last.now - first.now) / 1000 * a.refill := hle
    _ = a.capacity + a.refill * (last.now - first.now) / 1000 := by ring

/-- **The rate is bounded.** With timestamps that never go back, and whenever Redis drops a key whose
time has passed: the tokens stay between 0 and the capacity; each window is granted at most the
capacity and what its time is worth; and nothing depends on the keys that were dropped. -/
theorem rate_bounded (a : RateArgs) (cs : List RateCall)
    (hmono : (cs.map (·.now)).Pairwise (· ≤ ·)) (hdrops : DropsExpired a none cs) :
    (∀ o ∈ checkRates a none cs, 0 ≤ o.entry.hash.t ∧ o.entry.hash.t ≤ a.capacity) ∧
      (∀ i j first last, i ≤ j → cs[i]? = some first → cs[j]? = some last →
        granted a (((checkRates a none cs).drop i).take (j - i + 1)) ≤
          a.capacity + a.refill * (last.now - first.now) / 1000) ∧
      checkRates a none cs = checkRates a none (cs.map RateCall.kept) := by
  have hkept := checkRates_kept (sound_none a) hdrops
  refine ⟨fun o ho => ?_, fun i j first last hij hfirst hlast => ?_, hkept⟩
  · have hfull := checkRates_full (sound_none a) o ho
    exact ⟨hfull.nonneg, hfull.le⟩
  · rw [hkept]
    have hdrop : ∃ e, Sound a e ∧ (checkRates a none (cs.map RateCall.kept)).drop i =
        checkRates a e ((cs.map RateCall.kept).drop i) := checkRates_drop (sound_none a) i
    obtain ⟨e, hs, hdrop⟩ := hdrop
    rw [hdrop, checkRates_take, ← List.map_drop, ← List.map_take]
    have hnow : (((cs.drop i).take (j - i + 1)).map RateCall.kept).map (·.now) =
        (((cs.map (·.now)).drop i).take (j - i + 1)) := by
      rw [List.map_map, ← List.map_drop, ← List.map_take]
      rfl
    have hhead : (((cs.drop i).take (j - i + 1)).map RateCall.kept).head? = some first.kept := by
      simp [List.head?_take, hfirst]
    have hend : (((cs.drop i).take (j - i + 1)).map RateCall.kept).getLast? = some last.kept := by
      have hj : (cs.drop i)[j - i]? = some last := by
        rw [List.getElem?_drop, Nat.add_sub_cancel' hij, hlast]
      rw [List.getLast?_map, List.getLast?_take, if_neg (Nat.succ_ne_zero _), Nat.add_sub_cancel, hj]
      rfl
    have hkept : ∀ c ∈ ((cs.drop i).take (j - i + 1)).map RateCall.kept, c.dropped = false := by
      intro c hc
      obtain ⟨d, -, rfl⟩ := List.mem_map.mp hc
      rfl
    have hsorted : ((((cs.drop i).take (j - i + 1)).map RateCall.kept).map (·.now)).Pairwise
        (· ≤ ·) := by
      rw [hnow]
      exact hmono.sublist ((List.take_sublist ..).trans (List.drop_sublist ..))
    have hle := window_le hs hkept hsorted hhead hend
    exact hle

/-- A bucket of two tokens, one a second: two calls at once, one a second later, and one after the
key was dropped. -/
theorem rate_bounded_twice :
    granted ⟨2, 1, 1, by norm_num, by norm_num, by norm_num⟩
      (((checkRates ⟨2, 1, 1, by norm_num, by norm_num, by norm_num⟩ none
        [⟨0, false⟩, ⟨0, false⟩, ⟨1000, false⟩, ⟨6000, true⟩]).drop 0).take 3) ≤
      2 + 1 * (1000 - 0) / 1000 := by
  refine (rate_bounded ⟨2, 1, 1, by norm_num, by norm_num, by norm_num⟩
    [⟨0, false⟩, ⟨0, false⟩, ⟨1000, false⟩, ⟨6000, true⟩] ?_ ?_).2.1 0 2 ⟨0, false⟩ ⟨1000, false⟩
    (by norm_num) rfl rfl
  · norm_num
  · refine ⟨nofun, nofun, nofun, fun _ x hx => ?_, trivial⟩
    obtain rfl := Option.some.inj hx
    rw [checkRate_entry]
    norm_num

/-! ## Timestamps in any order -/

end Flashkart
