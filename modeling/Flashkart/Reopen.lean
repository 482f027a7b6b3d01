import Flashkart.Attempt

/-!
# Flashkart.Reopen

Whether an effect that was committed can be repeated. The `SET` of the result stands in the `try`
block of `fn`, so when it throws, the `catch` block deletes the claim of an execution that went
well.

* `never_reopened`  — as long as nobody whose `fn` has resolved deletes the key, and no claim is
  taken over from a caller at work, no execution starts before the entry of a resolved one has run
  out.
* `reopened`        — the `SET` throws once, the `DEL` goes through, and the next caller runs `fn`
  again.
-/

namespace Flashkart

open Async Logic Attempt

variable {S : Sig} {T J X W P Env : Type}

/-- Redis calls throw without effect, if they throw. -/
def redisEffectless (c : IdemConfig S T X J W) : IdemAct X P Env → Bool
  | .call i (.lost _ _) =>
    match c.next i with
    | some (.inl _) => false
    | _ => true
  | _ => true

/-- Each `fn` makes its calls before its claim has run out. -/
def fnInTime (c : IdemConfig S T X J W) : IdemAct X P Env → Bool
  | .call i _ =>
    match c.next i with
    | some (.inr _) => (c.pool[i]?).all fun t => c.now < (attempt t).expiry
    | _ => true
  | _ => true

/-- No claim is taken over from a caller that is at work: between its claim and the `SET` that goes
through, or the `DEL`. -/
def noTakeover (c : IdemConfig S T X J W) : IdemAct X P Env → Bool
  | .call i f =>
    match c.next i with
    | some (.inl (.setNx k _ _)) => !f.isAnswered || (c.world.1.live c.now k).isSome ||
        (c.pool.eraseIdx i).all fun u => !(idemKey u.req.1 == k && (attempt u).atWork)
    | _ => true
  | _ => true

/-- No `DEL` goes through for a caller whose `fn` has resolved. -/
def keepsResults (c : IdemConfig S T X J W) : IdemAct X P Env → Bool
  | .call i f =>
    match c.next i with
    | some (.inl (.del _)) => !f.isAnswered || (c.pool[i]?).all fun t => !(attempt t).resolved
    | _ => true
  | _ => true

/-- What the theorem below asks of every step. -/
def Careful (c : IdemConfig S T X J W) (a : IdemAct X P Env) : Prop :=
  redisEffectless c a = true ∧ noTakeover c a = true ∧ keepsResults c a = true

theorem careful_outline (json : Json (StoredResult T) J) (fn : X → Prog S Err (StoredResult T))
    (fnStore : Store S W P) (fnEnv : Nat → Env → W → Option W) (n : Nat) (w₀ : W) :
    (idemSystem json fn fnStore fnEnv).Outline Careful (.init n (fun _ => none, w₀))
      (Attempt.logic false json fn fnStore) first fun _ r => Outcome json fn false r := by
  refine Attempt.outline fun c i f t o k _ hok ht hp _ => ?_
  obtain ⟨hlost, hfree, hdel⟩ := hok
  have hnext := System.next_eq ht hp
  cases o with
  | inr o => trivial
  | inl o =>
    refine ⟨?_, (fun hs => by cases hs), fun hf => ⟨?_, ?_⟩⟩
    · rintro e p rfl
      simp [redisEffectless, hnext] at hlost
    · rintro key v ex rfl hlive b hb hkey
      obtain ⟨u, hu, rfl⟩ := (System.mem_worth fun _ => rfl).mp hb
      have hothers : ∀ x ∈ c.pool.eraseIdx i, ¬idemKey x.req.1 = key ∨ (attempt x).atWork = false := by
        simpa [noTakeover, hnext, hlive, hf] using hfree
      have hukey : (attempt u).key = u.req.1 := (attempt_eq u).2.1
      exact (hothers u hu).resolve_left fun hne => hne (hukey ▸ hkey)
    · rintro - key rfl
      simpa [keepsResults, hnext, hf, ht] using hdel

/-- **No effect twice.** In every run that meets the conditions, an execution of `fn` starts only
when the claim or the stored result of every execution of that key that has resolved has run out. -/
theorem never_reopened {json : Json (StoredResult T) J} {fn : X → Prog S Err (StoredResult T)}
    {fnStore : Store S W P} {fnEnv : Nat → Env → W → Option W} {n : Nat} {w₀ : W}
    {c c' : IdemConfig S T X J W}
    (h : (idemSystem json fn fnStore fnEnv).Reachable Careful (.init n (fun _ => none, w₀)) c)
    {i : Nat} {f : Fate Err P} (hok : Careful c (.call i f : IdemAct X P Env))
    (hs : (idemSystem json fn fnStore fnEnv).step c (.call i f) = some c') {key : String}
    (hstart : Starts c c' i key) :
    ∀ t ∈ c.pool, t.req.1 = key → ∀ v, Resolves fn t v → (attempt t).expiry ≤ c.now :=
  fun _ ht hkey _ hv =>
    expired_of_starts (careful_outline json fn fnStore fnEnv n w₀) h hok hs hstart ht hkey hv

/-! Runs of `workSystem` in which the first `SET` throws. -/

/-- `calls` says of each call of the caller's `fn` whether it was answered. -/
structure Seen where
  key : String
  claimed : Option Nat
  expiry : Nat
  calls : List Bool
  deriving DecidableEq

def seenOf (t : IdemThread workSig Unit Unit (StoredResult Unit)) : Seen :=
  ⟨t.req.1, (attempt t).claimed, (attempt t).expiry,
    (ownCalls t.trace).map fun e => e.out.toOption.isSome⟩

theorem resolves_of_seen {t : IdemThread workSig Unit Unit (StoredResult Unit)} {key : String}
    {claimed ex : Nat} (h : seenOf t = ⟨key, some claimed, ex, [true]⟩) :
    Resolves workFn t ⟨201, ()⟩ := by
  simp only [seenOf, Seen.mk.injEq] at h
  obtain ⟨-, hclaimed, -, hown⟩ := h
  obtain ⟨⟨time, op, out⟩, es, htrace, hout, hes⟩ := List.map_eq_cons_iff.mp hown
  obtain rfl := List.map_eq_nil_iff.mp hes
  refine ⟨by rw [hclaimed]; rfl, ?_⟩
  rw [htrace]
  cases out with
  | error e => cases hout
  | ok v => exact Runs.call (S := workSig) time (.ok ()) .start

/-- Thread 0 runs `fn` for `"k"`, and its `SET` throws; its `DEL` ends as `del`. Thread 1 comes
`wait` later. -/
def setThrows (del : Fate Err Unit) (wait : Nat) : List (IdemAct Unit Unit Empty) :=
  .arrive ("k", ()) :: workCalls 0 2 ++ [.call 0 (.failed (.error "connection closed")),
    .call 0 del, .arrive ("k", ()), .tick wait]

/-- What is seen before and after a further call of thread 1. -/
def thenClaim (ok : IdemConfig workSig Unit Unit (StoredResult Unit) Unit →
    IdemAct Unit Unit Empty → Bool) (as : List (IdemAct Unit Unit Empty)) :
    Option (Nat × List Seen × List Seen) :=
  (workSystem.run ok (.init 0 (fun _ => none, ())) as).bind fun c =>
    (workSystem.run ok c [.call 1 (.answered ())]).map fun c' =>
      (c.now, c.pool.map seenOf, c'.pool.map seenOf)

theorem of_thenClaim {ok : IdemConfig workSig Unit Unit (StoredResult Unit) Unit →
    IdemAct Unit Unit Empty → Bool} {as : List (IdemAct Unit Unit Empty)} {now κ ex ex' : Nat}
    (h : thenClaim ok as = some (now, [⟨"k", some 0, lockTtl, [true]⟩, ⟨"k", none, ex, []⟩],
      [⟨"k", some 0, lockTtl, [true]⟩, ⟨"k", some κ, ex', []⟩])) :
    ∃ c c', workSystem.Reachable (fun c a => ok c a = true) (.init 0 (fun _ => none, ())) c ∧
      ok c (.call 1 (.answered ())) = true ∧ workSystem.step c (.call 1 (.answered ())) = some c' ∧
      c.now = now ∧ Starts c c' 1 "k" ∧ ∃ t ∈ c.pool, t.req.1 = "k" ∧
        Resolves workFn t ⟨201, ()⟩ ∧ (attempt t).expiry = lockTtl := by
  obtain ⟨c, hc, h⟩ := Option.bind_eq_some_iff.mp h
  obtain ⟨c', hc', h⟩ := Option.map_eq_some_iff.mp h
  simp only [Prod.mk.injEq] at h
  obtain ⟨hnow, hpool, hpool'⟩ := h
  -- the last step
  simp only [System.run] at hc'
  split at hc'
  · rename_i hok
    obtain ⟨c₁, hs, hc₁⟩ := Option.bind_eq_some_iff.mp hc'
    obtain rfl := Option.some.inj hc₁
    -- the two threads before it and after it
    obtain ⟨t, us, hp, ht, hus⟩ := List.map_eq_cons_iff.mp hpool
    obtain ⟨u, rest, rfl, hu, -⟩ := List.map_eq_cons_iff.mp hus
    obtain ⟨t', us', hp', -, hus'⟩ := List.map_eq_cons_iff.mp hpool'
    obtain ⟨u', rest', rfl, hu', -⟩ := List.map_eq_cons_iff.mp hus'
    have hdone := resolves_of_seen ht
    simp only [seenOf, Seen.mk.injEq] at ht hu hu'
    refine ⟨c, c₁, .of_run hc, hok, hs, hnow, ⟨u, u', by simp [hp], by simp [hp'], hu.1, hu.2.1,
      by rw [hu'.2.1]; rfl⟩, t, by simp [hp], ht.1, hdone, ht.2.2.1⟩
  · cases hc'

/-- The claim of an execution whose result could not be stored stays for its 30 seconds. -/
theorem never_reopened_late :
    ∃ c c', workSystem.Reachable Careful (.init 0 (fun _ => none, ())) c ∧ Starts c c' 1 "k" ∧
      ∃ t ∈ c.pool, Resolves workFn t ⟨201, ()⟩ ∧ (attempt t).expiry ≤ c.now := by
  have hrun : thenClaim (fun c a => redisEffectless c a && noTakeover c a && keepsResults c a)
      (setThrows (.failed (.error "connection closed")) lockTtl) =
        some (lockTtl, [⟨"k", some 0, lockTtl, [true]⟩, ⟨"k", none, lockTtl, []⟩],
          [⟨"k", some 0, lockTtl, [true]⟩, ⟨"k", some lockTtl, lockTtl + lockTtl, []⟩]) := by
    decide
  obtain ⟨c, c', hr, hok, hs, -, hstart, t, ht, hkey, hdone, -⟩ := of_thenClaim hrun
  have hcareful : workSystem.Reachable Careful (.init 0 (fun _ => none, ())) c :=
    hr.mono fun c a hok => by simpa [Careful, and_assoc] using hok
  have hok : Careful c (.call 1 (.answered ()) : IdemAct Unit Unit Empty) := by
    simpa [Careful, and_assoc] using hok
  exact ⟨c, c', hcareful, hstart, t, ht, hdone,
    never_reopened hcareful hok hs hstart t ht hkey _ hdone⟩

/-- The `SET` throws, the `DEL` goes through, and the next caller runs `fn` again at once. -/
theorem reopened :
    ¬∀ c c' i f key, workSystem.Reachable
        (fun c a => redisEffectless c a = true ∧ fnInTime c a = true)
        (.init 0 (fun _ => none, ())) c →
      redisEffectless c (.call i f : IdemAct Unit Unit Empty) = true ∧
        fnInTime c (.call i f : IdemAct Unit Unit Empty) = true →
      workSystem.step c (.call i f) = some c' → Starts c c' i key →
      ∀ t ∈ c.pool, t.req.1 = key → ∀ v, Resolves workFn t v → (attempt t).expiry ≤ c.now := by
  have hrun : thenClaim (fun c a => redisEffectless c a && fnInTime c a)
      (setThrows (.answered ()) 0) =
        some (0, [⟨"k", some 0, lockTtl, [true]⟩, ⟨"k", none, lockTtl, []⟩],
          [⟨"k", some 0, lockTtl, [true]⟩, ⟨"k", some 0, lockTtl, []⟩]) := by
    decide
  obtain ⟨c, c', hr, hok, hs, hnow, hstart, t, ht, hkey, hdone, hexp⟩ := of_thenClaim hrun
  intro h
  have hle := h c c' 1 (.answered ()) "k" (hr.mono fun c a hok => by simpa using hok)
    (by simpa using hok) hs hstart t ht hkey _ hdone
  rw [hexp, hnow] at hle
  exact absurd hle (by decide)

end Flashkart
