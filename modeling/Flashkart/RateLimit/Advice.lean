import Flashkart.Basic
import Flashkart.RateLimit.Bound

/-!
# RateLimit.Advice

What the limiter tells a client: the `rateLimit` middleware, and whether its answers are exact.

Denied calls take nothing, so over a row of them the bucket gains just the worth of the time that
passed (`denied_run`); calls at one time gain nothing, so each takes one token of those reported
(`same_time`). The rounding is settled where the two meet the timestamps, which are whole
milliseconds.
-/

namespace Flashkart

open Async Clock

/-! ## The middleware -/

/-- What the middleware reads of a request: the `X-RateLimit-Bypass` header, and the identity that
`keyOf` or `req.ip` gives. -/
structure LimitedRequest where
  bypass : Option String
  id : Option String

structure RateHeaders where
  limit : ℚ
  remaining : ℤ
  retryAfter : Option ℤ

/-- `next()`, with the headers that were set before it, or the 429. -/
inductive RateAnswer where
  | next (headers : Option RateHeaders)
  | tooManyRequests (headers : RateHeaders) (retryAfterMs : ℤ)

def RateAnswer.headers : RateAnswer → Option RateHeaders
  | .next headers => headers
  | .tooManyRequests headers _ => some headers

def retryAfterSec (retryAfterMs : ℤ) : ℤ := max 1 ⌈(retryAfterMs : ℚ) / 1000⌉

def rateLimit (capacity : ℚ) (bypassToken : String) (req : LimitedRequest)
    (checked : Except Err RateLimitDecision) : RateAnswer :=
  if bypassToken ≠ "" ∧ req.bypass = some bypassToken then .next none
  else if req.id.getD "" = "" then .next none
  else
    match checked with
    -- a Redis error lets the request through
    | .error _ => .next none
    | .ok decision =>
      let remaining := max 0 decision.remaining
      if decision.allowed then .next (some ⟨capacity, remaining, none⟩)
      else .tooManyRequests ⟨capacity, remaining, some (retryAfterSec decision.retryAfterMs)⟩
        decision.retryAfterMs

theorem le_retryAfterSec (r : ℤ) : r ≤ retryAfterSec r * 1000 := by
  have hceil : (r : ℚ) / 1000 ≤ ⌈(r : ℚ) / 1000⌉ := Int.le_ceil _
  have hms : (r : ℚ) ≤ (⌈(r : ℚ) / 1000⌉ * 1000 : ℤ) := by
    push_cast
    linarith
  calc r ≤ ⌈(r : ℚ) / 1000⌉ * 1000 := by exact_mod_cast hms
    _ ≤ retryAfterSec r * 1000 := by
      have := le_max_right 1 ⌈(r : ℚ) / 1000⌉
      unfold retryAfterSec
      omega

/-- A client that is sent away is told the wait of the check, and no less in whole seconds. -/
theorem rateLimit_denied {capacity : ℚ} {bypassToken : String} {req : LimitedRequest}
    {d : RateLimitDecision} {headers : RateHeaders} {r : ℤ}
    (h : rateLimit capacity bypassToken req (.ok d) = .tooManyRequests headers r) :
    r = d.retryAfterMs ∧ ∃ s, headers.retryAfter = some s ∧ r ≤ s * 1000 := by
  simp only [rateLimit] at h
  split at h
  · cases h
  · split at h
    · cases h
    · split at h
      · cases h
      · cases h
        exact ⟨rfl, _, rfl, le_retryAfterSec _⟩

theorem rateLimit_remaining {capacity : ℚ} {bypassToken : String} {req : LimitedRequest}
    {d : RateLimitDecision} {headers : RateHeaders} (hd : 0 ≤ d.remaining)
    (h : (rateLimit capacity bypassToken req (.ok d)).headers = some headers) :
    headers.remaining = d.remaining := by
  simp only [rateLimit] at h
  split at h
  · cases h
  · split at h
    · cases h
    · split at h
      all_goals cases h; exact max_eq_right hd

/-! ## One call -/

variable {a : RateArgs} {e : Option RateEntry} {x : RateEntry} {c : RateCall} {cs : List RateCall}

/-- What a call tells, from the tokens that it finds. -/
theorem checkRate_decision (a : RateArgs) (e : Option RateEntry) (c : RateCall) :
    (checkRate a e c).decision = if a.cost ≤ refilled a (c.finds e) c.now
      then ⟨true, ⌊refilled a (c.finds e) c.now - a.cost⌋, 0⟩
      else ⟨false, ⌊refilled a (c.finds e) c.now⌋,
        ⌈(a.cost - refilled a (c.finds e) c.now) / a.refill * 1000⌉⟩ := by
  have hdata : (if c.dropped then none else e.map (·.hash)) = c.finds e := rfl
  simp only [checkRate, hdata, RATE_LUA_eq]
  split <;> rfl

theorem allowed_iff : (checkRate a e c).decision.allowed = true ↔
    a.cost ≤ refilled a (c.finds e) c.now := by
  rw [checkRate_decision]
  split <;> simp [*]

theorem denied_iff : (checkRate a e c).decision.allowed = false ↔
    refilled a (c.finds e) c.now < a.cost := by
  rw [← not_le, ← allowed_iff, Bool.not_eq_true]

/-- A call reports the tokens it leaves, rounded down. -/
theorem remaining_eq (a : RateArgs) (e : Option RateEntry) (c : RateCall) :
    (checkRate a e c).decision.remaining = ⌊(checkRate a e c).entry.hash.t⌋ := by
  rw [checkRate_decision, checkRate_entry, checkRate_granted]
  split
  · rfl
  · simp

/-- A denied call changes the tokens only by what the bucket gained. -/
theorem denied_entry (h : (checkRate a e c).decision.allowed = false) :
    (checkRate a e c).entry.hash = ⟨refilled a (c.finds e) c.now, c.now⟩ := by
  rw [checkRate_entry, checkRate_granted, if_neg (not_le.mpr (denied_iff.mp h)), sub_zero]

/-- What a call finds when time has not gone back since the last one. -/
theorem refilled_some (hkept : c.dropped = false) (hle : x.hash.l ≤ c.now) :
    refilled a (c.finds (some x)) c.now =
      min a.capacity (x.hash.t + (c.now - x.hash.l) / 1000 * a.refill) := by
  have hfinds : c.finds (some x) = some x.hash := by simp [RateCall.finds, hkept]
  rw [hfinds]
  show min _ (x.hash.t + max 0 (c.now - x.hash.l) / 1000 * a.refill) = _
  rw [max_eq_right (sub_nonneg.mpr hle)]

/-! ## Rows of calls -/

/-- In a row of denied calls, each finds the tokens of the start and the worth of the time since. -/
theorem denied_run (hcost : a.cost ≤ a.capacity) (hkept : ∀ c ∈ cs, c.dropped = false)
    (hmono : (x.hash.l :: cs.map (·.now)).Pairwise (· ≤ ·)) {j : ℕ} {o : RateOutcome}
    (hc : cs[j]? = some c) (ho : (checkRates a (some x) cs)[j]? = some o)
    (hdenied : ∀ m p, m < j → (checkRates a (some x) cs)[m]? = some p → p.decision.allowed = false) :
    o.decision.allowed = true ↔ a.cost ≤ x.hash.t + (c.now - x.hash.l) / 1000 * a.refill := by
  induction cs generalizing x j with
  | nil => cases hc
  | cons d cs ih =>
    rw [List.map_cons, List.pairwise_cons] at hmono
    have hld : x.hash.l ≤ d.now := hmono.1 d.now (List.mem_cons_self ..)
    have hfound := refilled_some (a := a) (hkept d (List.mem_cons_self ..)) hld
    cases j with
    | zero =>
      obtain rfl := Option.some.inj hc
      obtain rfl := Option.some.inj ho
      rw [allowed_iff, hfound, le_min_iff]
      exact and_iff_right hcost
    | succ j =>
      have hfirst := hdenied 0 _ (Nat.succ_pos j) rfl
      -- the first call was denied, so the bucket was not full at it
      have hentry : (checkRate a (some x) d).entry.hash =
          ⟨x.hash.t + (d.now - x.hash.l) / 1000 * a.refill, d.now⟩ := by
        have hlt := denied_iff.mp hfirst
        rw [denied_entry hfirst, hfound]
        rw [hfound] at hlt
        rw [min_eq_right]
        by_contra hfull
        rw [min_eq_left (not_le.mp hfull).le] at hlt
        exact absurd hcost (not_le.mpr hlt)
      have hrest := ih (x := (checkRate a (some x) d).entry)
        (fun c hc => hkept c (List.mem_cons_of_mem _ hc)) (by rw [hentry]; exact hmono.2) hc ho
        (fun m p hm hp => hdenied (m + 1) p (Nat.succ_lt_succ hm) hp)
      rw [hrest, hentry]
      have hworth : (d.now - x.hash.l) / 1000 * a.refill + (c.now - d.now) / 1000 * a.refill =
          (c.now - x.hash.l) / 1000 * a.refill := by ring
      rw [← hworth, add_assoc]

/-- Calls of cost one at one time take the tokens one by one, and are denied when none is left. -/
theorem same_time (hcost : a.cost = 1) (hs : Sound a (some x))
    (hkept : ∀ c ∈ cs, c.dropped = false) {j : ℕ} {o : RateOutcome}
    (hnow : ∀ m c, m ≤ j → cs[m]? = some c → c.now = x.hash.l)
    (ho : (checkRates a (some x) cs)[j]? = some o) :
    o.decision.allowed = true ↔ (j : ℤ) + 1 ≤ ⌊x.hash.t⌋ := by
  induction cs generalizing x j with
  | nil => cases ho
  | cons d cs ih =>
    have hd : d.now = x.hash.l := hnow 0 d (Nat.zero_le j) rfl
    have hfound : refilled a (d.finds (some x)) d.now = x.hash.t := by
      rw [refilled_some (hkept d (List.mem_cons_self ..)) hd.ge, hd, sub_self, zero_div, zero_mul,
        add_zero, min_eq_right (hs x rfl).1.le]
    cases j with
    | zero =>
      obtain rfl := Option.some.inj ho
      rw [allowed_iff, hfound, hcost, Int.le_floor]
      simp
    | succ j =>
      have hentry : (checkRate a (some x) d).entry.hash =
          ⟨x.hash.t - if 1 ≤ x.hash.t then 1 else 0, x.hash.l⟩ := by
        rw [checkRate_entry, checkRate_granted, hfound, hcost, hd]
      have hrest := ih (checkRate_sound hs) (fun c hc => hkept c (List.mem_cons_of_mem _ hc))
        (fun m c hm hc => by rw [hentry]; exact hnow (m + 1) c (Nat.succ_le_succ hm) hc) ho
      rw [hrest, hentry]
      push_cast
      by_cases hone : 1 ≤ x.hash.t
      · rw [if_pos hone, Int.floor_sub_one]
        omega
      · -- nothing is left for this call and for those after it
        have hnone : ⌊x.hash.t⌋ < 1 := Int.floor_lt.mpr (by exact_mod_cast not_le.mp hone)
        rw [if_neg hone, sub_zero]
        omega

/-- The rest of a run, from the call at place `i` on. -/
theorem calls_after (hdrops : DropsExpired a none cs) {i : ℕ} {o : RateOutcome}
    (hc : cs[i]? = some c) (ho : (checkRates a none cs)[i]? = some o) :
    ∃ e, Sound a e ∧ o = checkRate a e c.kept ∧ (checkRates a none cs).drop (i + 1) =
      checkRates a (some o.entry) ((cs.drop (i + 1)).map RateCall.kept) := by
  rw [checkRates_kept (sound_none a) hdrops] at ho ⊢
  have hdrop : ∃ e, Sound a e ∧ (checkRates a none (cs.map RateCall.kept)).drop i =
      checkRates a e ((cs.map RateCall.kept).drop i) := checkRates_drop (sound_none a) i
  obtain ⟨e, hs, hdrop⟩ := hdrop
  have hsplit : (cs.map RateCall.kept).drop i = c.kept :: (cs.drop (i + 1)).map RateCall.kept := by
    obtain ⟨hlt, rfl⟩ := List.getElem?_eq_some_iff.mp hc
    rw [← List.map_drop, List.drop_eq_getElem_cons hlt, List.map_cons]
  rw [hsplit] at hdrop
  have hfirst : o = checkRate a e c.kept := by
    rw [← Nat.add_zero i, ← List.getElem?_drop, hdrop] at ho
    exact (Option.some.inj ho).symm
  refine ⟨e, hs, hfirst, ?_⟩
  rw [← List.drop_drop, hdrop, hfirst]
  rfl

/-- Between two equal timestamps of a run there is no other. -/
theorem between_eq {t u : ℚ} {ts : List ℚ} (h : (t :: ts).Pairwise (· ≤ ·)) {m n : ℕ} (hmn : m ≤ n)
    (hm : ts[m]? = some u) (hn : ts[n]? = some t) : u = t := by
  obtain ⟨hfirst, hrest⟩ := List.pairwise_cons.mp h
  rcases Nat.lt_or_eq_of_le hmn with hlt | rfl
  · refine le_antisymm ?_ (hfirst u (List.mem_of_getElem? hm))
    obtain ⟨hm', rfl⟩ := List.getElem?_eq_some_iff.mp hm
    obtain ⟨hn', rfl⟩ := List.getElem?_eq_some_iff.mp hn
    exact List.pairwise_iff_getElem.mp hrest m n hm' hn' hlt
  · exact Option.some.inj (hm.symm.trans hn)

/-! ## The advice -/

/-- Whole milliseconds. -/
def WholeMs (cs : List RateCall) : Prop := ∀ c ∈ cs, ∃ n : ℤ, c.now = n

/-- The wait is exact: rounding it up to a whole millisecond does not matter to whole timestamps. -/
theorem wait_exact {found refill t t' cost : ℚ} (hrefill : 0 < refill) (ht : ∃ n : ℤ, t = n)
    (ht' : ∃ n : ℤ, t' = n) :
    cost ≤ found + (t' - t) / 1000 * refill ↔ t + ⌈(cost - found) / refill * 1000⌉ ≤ t' := by
  obtain ⟨n, rfl⟩ := ht
  obtain ⟨m, rfl⟩ := ht'
  calc cost ≤ found + ((m : ℚ) - n) / 1000 * refill
      ↔ (cost - found) / refill * 1000 ≤ ((m - n : ℤ) : ℚ) := by
        push_cast
        rw [← sub_le_iff_le_add', ← le_div_iff₀ (by norm_num : (0 : ℚ) < 1000),
          div_le_iff₀ hrefill]
    _ ↔ ⌈(cost - found) / refill * 1000⌉ ≤ m - n := Int.ceil_le.symm
    _ ↔ (n : ℚ) + ⌈(cost - found) / refill * 1000⌉ ≤ m := by
      rw [← sub_nonneg, ← sub_nonneg (b := (n : ℚ) + _)]
      exact_mod_cast Iff.of_eq (by congr 1; ring)

/-- **The advice is exact.** In every run over whole milliseconds that never go back, and whenever
Redis drops a key whose time has passed: after a denied call, and others denied after it, the next is
allowed just when the wait it was told is over; the `Retry-After` header asks for no less; and a
limiter of cost one allows at one time just as many further calls as it reported. -/
theorem advice_exact (a : RateArgs) (hcost : a.cost ≤ a.capacity) (cs : List RateCall)
    (hwhole : WholeMs cs) (hmono : (cs.map (·.now)).Pairwise (· ≤ ·))
    (hdrops : DropsExpired a none cs) {i j : ℕ} (hij : i < j) {c c' : RateCall}
    {o o' : RateOutcome} (hc : cs[i]? = some c) (hc' : cs[j]? = some c')
    (ho : (checkRates a none cs)[i]? = some o) (ho' : (checkRates a none cs)[j]? = some o') :
    (o.decision.allowed = false →
      (∀ m p, i < m → m < j → (checkRates a none cs)[m]? = some p → p.decision.allowed = false) →
      (o'.decision.allowed = true ↔ c.now + o.decision.retryAfterMs ≤ c'.now)) ∧
    (∀ token req headers r,
      rateLimit a.capacity token req (.ok o.decision) = .tooManyRequests headers r →
      r = o.decision.retryAfterMs ∧ ∃ s, headers.retryAfter = some s ∧ r ≤ s * 1000) ∧
    (∀ token req headers, (rateLimit a.capacity token req (.ok o.decision)).headers = some headers →
      headers.remaining = o.decision.remaining) ∧
    (a.cost = 1 → c'.now = c.now →
      (o'.decision.allowed = true ↔ (j - i : ℤ) ≤ o.decision.remaining)) := by
  obtain ⟨e, hs, hfirst, hrest⟩ := calls_after hdrops hc ho
  -- the calls after the first, counted from it
  obtain ⟨n, rfl⟩ : ∃ n, j = i + 1 + n := ⟨j - (i + 1), by omega⟩
  have hat : ∀ m, (checkRates a none cs)[i + 1 + m]? =
      (checkRates a (some o.entry) ((cs.drop (i + 1)).map RateCall.kept))[m]? := by
    intro m
    rw [← List.getElem?_drop, hrest]
  have hcs : ∀ m, ((cs.drop (i + 1)).map RateCall.kept)[m]? =
      (cs[i + 1 + m]?).map RateCall.kept := by
    intro m
    rw [List.getElem?_map, List.getElem?_drop]
  have hkept : ∀ d ∈ (cs.drop (i + 1)).map RateCall.kept, d.dropped = false := by
    intro d hd
    obtain ⟨d, -, rfl⟩ := List.mem_map.mp hd
    rfl
  have hsorted : (o.entry.hash.l :: ((cs.drop (i + 1)).map RateCall.kept).map (·.now)).Pairwise
      (· ≤ ·) := by
    have hl : o.entry.hash.l = c.now := by rw [hfirst, checkRate_entry]; rfl
    have hsplit : c.now :: ((cs.drop (i + 1)).map RateCall.kept).map (·.now) =
        (cs.map (·.now)).drop i := by
      obtain ⟨hlt, rfl⟩ := List.getElem?_eq_some_iff.mp hc
      rw [← List.map_drop, List.drop_eq_getElem_cons hlt, List.map_cons, List.map_map]
      rfl
    rw [hl, hsplit]
    exact hmono.sublist (List.drop_sublist ..)
  have hsound : Sound a (some o.entry) := by rw [hfirst]; exact checkRate_sound hs
  rw [hat] at ho'
  have hlast : ((cs.drop (i + 1)).map RateCall.kept)[n]? = some c'.kept := by rw [hcs, hc']; rfl
  refine ⟨?_, ?_, ?_, ?_⟩
  · intro hdenied hbetween
    have hrow := denied_run hcost hkept hsorted hlast ho' fun m p hm hp =>
      hbetween (i + 1 + m) p (by omega) (by omega) (by rw [hat]; exact hp)
    rw [hrow]
    rw [hfirst] at hdenied ⊢
    rw [denied_entry hdenied, checkRate_decision, if_neg (not_le.mpr (denied_iff.mp hdenied))]
    exact wait_exact a.refill_pos (hwhole c (List.mem_of_getElem? hc))
      (hwhole c' (List.mem_of_getElem? hc'))
  · exact fun _ _ _ _ h => rateLimit_denied h
  · refine fun _ _ _ h => rateLimit_remaining ?_ h
    rw [hfirst, remaining_eq]
    exact Int.floor_nonneg.mpr (checkRate_sound hs _ rfl).1.nonneg
  · intro hone hnow
    have hrow := same_time hone hsound hkept (j := n) ?_ ho'
    · rw [hrow, hfirst, remaining_eq]
      push_cast
      constructor <;> intro h <;> linarith
    · intro m d hm hd
      have hl : o.entry.hash.l = c'.kept.now := by rw [hfirst, checkRate_entry]; exact hnow.symm
      exact between_eq hsorted hm (by rw [List.getElem?_map, hd]; rfl)
        (by rw [List.getElem?_map, hlast, hl]; rfl)

/-- Two tokens, ten a minute: after two calls at once a third is told to wait 6000 ms, and a fourth at
6000 ms is allowed. -/
theorem advice_exact_six :
    ∃ o o', (checkRates ⟨2, 10 / 60, 1, by norm_num, by norm_num, by norm_num⟩ none
        [⟨0, false⟩, ⟨0, false⟩, ⟨0, false⟩, ⟨6000, false⟩])[2]? = some o ∧
      (checkRates ⟨2, 10 / 60, 1, by norm_num, by norm_num, by norm_num⟩ none
        [⟨0, false⟩, ⟨0, false⟩, ⟨0, false⟩, ⟨6000, false⟩])[3]? = some o' ∧
      o.decision = ⟨false, 0, 6000⟩ ∧ o'.decision.allowed = true := by
  have hadvice := advice_exact ⟨2, 10 / 60, 1, by norm_num, by norm_num, by norm_num⟩ (by norm_num)
    [⟨0, false⟩, ⟨0, false⟩, ⟨0, false⟩, ⟨6000, false⟩] ?_ (by norm_num) ?_ (i := 2) (j := 3)
    (by norm_num) rfl rfl rfl rfl
  · refine ⟨_, _, rfl, rfl, ?_, (hadvice.1 ?_ ?_).mpr ?_⟩
    · norm_num [checkRate, RATE_LUA]
    · norm_num [checkRate, RATE_LUA]
    · omega
    · norm_num [checkRate, RATE_LUA]
  · intro c hc
    simp only [List.mem_cons, List.not_mem_nil, or_false] at hc
    rcases hc with rfl | rfl | rfl | rfl
    · exact ⟨0, by norm_num⟩
    · exact ⟨0, by norm_num⟩
    · exact ⟨0, by norm_num⟩
    · exact ⟨6000, by norm_num⟩
  · exact ⟨(fun h => by cases h), (fun h => by cases h), (fun h => by cases h),
      (fun h => by cases h), trivial⟩

end Flashkart
