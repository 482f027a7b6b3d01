import Flashkart.Async.Clock

/-!
# RateLimit.TokenBucket

The token bucket of one key: `RATE_LUA` and `checkRate`, in exact rational arithmetic.

A call carries the time its caller reads. Redis may drop the key when the time that `EXPIRE` set has
passed, but need not do so at once, so a call also says whether the key was dropped before it.
-/

namespace Flashkart

open Async

/-- The arguments of every call on one key. -/
structure RateArgs where
  capacity : ℚ
  refill : ℚ
  cost : ℚ
  capacity_pos : 0 < capacity
  refill_pos : 0 < refill
  cost_pos : 0 < cost

/-- The hash under the key: `t` tokens at time `l`. -/
structure RateHash where
  t : ℚ
  l : ℚ

structure RateReply where
  allowed : ℕ
  tokens : ℤ
  retryAfterMs : ℤ

/-- The reply, the hash that is set and the seconds it is to expire in. -/
def RATE_LUA (capacity refill now cost : ℚ) (data : Option RateHash) : RateReply × RateHash × ℤ :=
  let tokens := data.elim capacity (·.t)
  let last := data.elim now (·.l)
  let elapsedMs := if now - last < 0 then 0 else now - last
  let tokens := min capacity (tokens + elapsedMs / 1000 * refill)
  let ttl := ⌈capacity / refill * 2⌉
  if cost ≤ tokens then (⟨1, ⌊tokens - cost⌋, 0⟩, ⟨tokens - cost, now⟩, ttl)
  else (⟨0, ⌊tokens⌋, ⌈(cost - tokens) / refill * 1000⌉⟩, ⟨tokens, now⟩, ttl)

/-- The key in Redis. -/
structure RateEntry where
  hash : RateHash
  expireAt : ℚ

structure RateLimitDecision where
  allowed : Bool
  remaining : ℤ
  retryAfterMs : ℤ
  deriving DecidableEq

structure RateCall where
  now : ℚ
  dropped : Bool

structure RateOutcome where
  decision : RateLimitDecision
  entry : RateEntry

def checkRate (a : RateArgs) (e : Option RateEntry) (c : RateCall) : RateOutcome :=
  let data := if c.dropped then none else e.map (·.hash)
  let x := RATE_LUA a.capacity a.refill c.now a.cost data
  ⟨⟨x.1.allowed == 1, x.1.tokens, x.1.retryAfterMs⟩, ⟨x.2.1, c.now + x.2.2 * 1000⟩⟩

/-- The calls on one key, one after the other. -/
def checkRates (a : RateArgs) : Option RateEntry → List RateCall → List RateOutcome
  | _, [] => []
  | e, c :: cs => checkRate a e c :: checkRates a (some (checkRate a e c).entry) cs

/-- A key is dropped only when its time has passed. -/
def DropsExpired (a : RateArgs) : Option RateEntry → List RateCall → Prop
  | _, [] => True
  | e, c :: cs => (c.dropped = true → ∀ x, e = some x → x.expireAt ≤ c.now) ∧
      DropsExpired a (some (checkRate a e c).entry) cs

def RateOutcome.granted (a : RateArgs) (o : RateOutcome) : ℚ := if o.decision.allowed then a.cost else 0

/-- The cost that a list of calls was granted. -/
def granted (a : RateArgs) (os : List RateOutcome) : ℚ := (os.map (·.granted a)).sum

/-! ## One call -/

/-- The tokens that a call finds, before it takes its own. -/
def refilled (a : RateArgs) (data : Option RateHash) (now : ℚ) : ℚ :=
  min a.capacity (data.elim a.capacity (·.t) + max 0 (now - data.elim now (·.l)) / 1000 * a.refill)

variable {a : RateArgs} {e : Option RateEntry} {c : RateCall} {data : Option RateHash} {now : ℚ}

theorem RATE_LUA_eq : RATE_LUA a.capacity a.refill now a.cost data =
    if a.cost ≤ refilled a data now then
      (⟨1, ⌊refilled a data now - a.cost⌋, 0⟩, ⟨refilled a data now - a.cost, now⟩,
        ⌈a.capacity / a.refill * 2⌉)
    else
      (⟨0, ⌊refilled a data now⌋, ⌈(a.cost - refilled a data now) / a.refill * 1000⌉⟩,
        ⟨refilled a data now, now⟩, ⌈a.capacity / a.refill * 2⌉) := by
  have hmax : ∀ x : ℚ, (if x < 0 then 0 else x) = max 0 x := fun x => by
    split
    · rename_i h
      exact (max_eq_left h.le).symm
    · rename_i h
      exact (max_eq_right (not_lt.mp h)).symm
  have hrefilled : min a.capacity (data.elim a.capacity (·.t) +
      max 0 (now - data.elim now (·.l)) / 1000 * a.refill) = refilled a data now := rfl
  simp only [RATE_LUA, hmax, hrefilled]

/-- The hash that a call reads. -/
def RateCall.finds (c : RateCall) (e : Option RateEntry) : Option RateHash :=
  if c.dropped then none else e.map (·.hash)

/-- What a call leaves: the tokens it found less the cost it was granted, its own time, and the time
at which the key may go. -/
theorem checkRate_entry (a : RateArgs) (e : Option RateEntry) (c : RateCall) :
    (checkRate a e c).entry = ⟨⟨refilled a (c.finds e) c.now - (checkRate a e c).granted a, c.now⟩,
      c.now + ⌈a.capacity / a.refill * 2⌉ * 1000⟩ := by
  have hdata : (if c.dropped then none else e.map (·.hash)) = c.finds e := rfl
  simp only [checkRate, RateOutcome.granted, hdata, RATE_LUA_eq]
  split
  · rfl
  · simp

theorem checkRate_granted (a : RateArgs) (e : Option RateEntry) (c : RateCall) :
    (checkRate a e c).granted a = if a.cost ≤ refilled a (c.finds e) c.now then a.cost else 0 := by
  have hdata : (if c.dropped then none else e.map (·.hash)) = c.finds e := rfl
  simp only [checkRate, RateOutcome.granted, hdata, RATE_LUA_eq]
  split <;> rfl

theorem granted_nonneg (a : RateArgs) (e : Option RateEntry) (c : RateCall) :
    0 ≤ (checkRate a e c).granted a := by
  rw [checkRate_granted]
  split
  · exact a.cost_pos.le
  · exact le_rfl

/-- A call is granted no more than there is. -/
theorem granted_le (a : RateArgs) (e : Option RateEntry) (c : RateCall)
    (h : 0 ≤ refilled a (c.finds e) c.now) :
    (checkRate a e c).granted a ≤ refilled a (c.finds e) c.now := by
  rw [checkRate_granted]
  split
  · assumption
  · exact h

theorem refilled_le (a : RateArgs) (data : Option RateHash) (now : ℚ) :
    refilled a data now ≤ a.capacity := min_le_left _ _

end Flashkart
