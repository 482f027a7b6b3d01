import Flashkart.Attempt

/-!
# Flashkart.Agree

What the callers of one key see together, when Redis answers every call, nobody is at work when its
claim runs out, and the run ends before the first result could.

* `Timely`        — then the entry of every attempt that has claimed the key and not deleted it is
  alive, so there is one such attempt at most (`kept_unique`).
* `callers_agree` — executions do not overlap, one of them resolves, nobody runs `fn` after it, and
  every caller gets that result, the error of its own `fn`, or a timeout.
-/

namespace Flashkart

open Async Logic Attempt

variable {S : Sig} {T J X W P Env : Type}

/-- Whoever is at work ends before its claim does, and the run before a result that was stored at
its start at time `n`. -/
def inTime (n : Nat) (c : IdemConfig S T X J W) : IdemAct X P Env → Bool
  | .tick d => c.now + d < n + resultTtl &&
      c.pool.all fun t => !(attempt t).atWork || c.now + d < (attempt t).expiry
  | _ => true

/-- What the theorem below asks of every step. -/
def Prompt (n : Nat) (c : IdemConfig S T X J W) (a : IdemAct X P Env) : Prop :=
  redisAnswers c a = true ∧ inTime n c a = true

/-- By the step from `c` to `c'` thread `i` deletes the entry of `key`. -/
def Frees (c c' : IdemConfig S T X J W) (i : Nat) (key : String) : Prop :=
  ∃ u u', c.pool[i]? = some u ∧ c'.pool[i]? = some u' ∧ u.req.1 = key ∧
    (attempt u).deleted = false ∧ (attempt u').deleted = true

namespace Attempt

/-! ## No entry runs out -/

structure Timely (n now : Nat) (a : Attempt S X J) : Prop where
  held : ∀ σ j, a.stored = some (σ, j) → n ≤ σ
  closed : a.stored.isSome = true → a.ended = true
  ends : a.ended = true → a.stored.isSome = true ∨ a.deleted = true
  work : a.atWork = true → now < a.claimed.getD 0 + lockTtl

variable {n now now' : Nat} {a : Attempt S X J}

theorem Timely.expiry_eq (h : Timely n now a) (hwork : a.atWork = true) :
    a.expiry = a.claimed.getD 0 + lockTtl := by
  simp only [atWork, Bool.and_eq_true, Bool.not_eq_true'] at hwork
  cases hs : a.stored with
  | none => simp only [expiry, hs]
  | some x =>
    have hended := h.closed (by rw [hs]; rfl)
    rw [hwork.2] at hended
    cases hended

/-- The entry of an attempt is alive as long as it has not deleted it. -/
theorem Timely.alive (h : Timely n now a) (hnow : now < n + resultTtl) (hk : a.kept = true) :
    now < a.expiry := by
  simp only [kept, Bool.and_eq_true, Bool.not_eq_true'] at hk
  cases hs : a.stored with
  | some x =>
    obtain ⟨σ, j⟩ := x
    have hσ := h.held σ j hs
    simp only [expiry, hs]
    omega
  | none =>
    have hwork : a.atWork = true := by
      cases hended : a.ended with
      | false => simp [atWork, hk.1, hended]
      | true =>
        rcases h.ends hended with hstored | hdel
        · rw [hs] at hstored
          cases hstored
        · rw [hk.2] at hdel
          cases hdel
    rw [h.expiry_eq hwork]
    exact h.work hwork

theorem Timely.tick (h : Timely n now a) (ht : a.atWork = true → now' < a.expiry) :
    Timely n now' a :=
  ⟨h.held, h.closed, h.ends, fun hwork => by rw [← h.expiry_eq hwork]; exact ht hwork⟩

/-- An answered call of the attempt's own. -/
theorem Timely.kvPost {o : KvOp (Cell J)} {v : o.Ret} (h : Timely n now a) (hn : n ≤ now) :
    Timely n now (kvPost now o (.ok v) a) := by
  cases o with
  | setNx k c ex =>
    cases v with
    | false => exact h
    | true =>
      refine ⟨h.held, h.closed, h.ends, fun _ => ?_⟩
      show now < now + lockTtl
      have : 0 < lockTtl := by decide
      omega
  | set k c ex =>
    cases c with
    | pending => exact ⟨h.held, h.closed, h.ends, h.work⟩
    | result j =>
      refine ⟨?_, (fun _ => rfl), (fun _ => .inl rfl), fun hwork => ?_⟩
      · intro σ j' hs
        cases hs
        exact hn
      · simp [Attempt.kvPost, atWork] at hwork
  | del k =>
    refine ⟨h.held, (fun _ => rfl), (fun _ => .inr rfl), fun hwork => ?_⟩
    simp [Attempt.kvPost, atWork] at hwork
  | get k =>
    rcases v with _ | (_ | j)
    · exact h
    · exact h
    · exact ⟨h.held, h.closed, h.ends, h.work⟩
  | _ => exact h

variable {json : Json (StoredResult T) J} {fn : X → Prog S Err (StoredResult T)}
  {fnStore : Store S W P} {fnEnv : Nat → Env → W → Option W} {w₀ : W}
  {c c' : IdemConfig S T X J W} {t u : IdemThread S T X J}

theorem timely (h : (idemSystem json fn fnStore fnEnv).Reachable (Prompt n)
    (.init n (fun _ => none, w₀)) c) :
    (n ≤ c.now ∧ c.now < n + resultTtl) ∧ ∀ t ∈ c.pool, Timely n c.now (attempt t) := by
  refine h.invariant (I := fun c => (n ≤ c.now ∧ c.now < n + resultTtl) ∧
    ∀ t ∈ c.pool, Timely n c.now (attempt t)) ⟨⟨le_rfl, ?_⟩, ?_⟩ ?_
  · have : 0 < resultTtl := by decide
    show n < n + resultTtl
    omega
  · exact fun t ht => by cases ht
  intro c a c' _ ⟨hnow, ih⟩ ⟨hanswers, hintime⟩ hs
  cases a with
  | arrive r =>
    simp only [System.step, Option.map_eq_some_iff] at hs
    obtain ⟨w, _, rfl⟩ := hs
    refine ⟨hnow, fun t ht => ?_⟩
    rcases List.mem_append.mp ht with ht | ht
    · exact ih t ht
    · rw [List.mem_singleton.mp ht]
      exact ⟨(fun _ _ hs => by cases hs), (fun hs => by cases hs), (fun he => by cases he),
        fun hw => by cases hw⟩
  | call i f =>
    obtain ⟨m, r, o, k, tr, out, w, hp, hx, rfl⟩ := System.callStep_eq_some hs
    refine ⟨hnow, fun t ht => ?_⟩
    rcases List.mem_or_eq_of_mem_set ht with ht | rfl
    · exact ih t ht
    · have hold := ih _ (List.mem_of_getElem? hp)
      cases o with
      | inr o => exact ⟨hold.held, hold.closed, hold.ends, hold.work⟩
      | inl o =>
        have hf : f.isAnswered = true := by
          simpa [redisAnswers, System.next_eq hp rfl] using hanswers
        obtain ⟨hx, -⟩ := Store.exec_sum_inl (f := kvStore) (g := fnStore) (o := o) hx
        rcases Store.exec_cases hx with ⟨p, v, rfl, -, rfl⟩ | ⟨e, rfl, -, -⟩ | ⟨e, p, v, rfl, -, -⟩
        · exact hold.kvPost hnow.1
        · cases hf
        · cases hf
  | tick d =>
    cases hs
    simp only [inTime, Bool.and_eq_true, decide_eq_true_eq, List.all_eq_true, Bool.or_eq_true,
      Bool.not_eq_true'] at hintime
    refine ⟨⟨by show n ≤ c.now + d; omega, hintime.1⟩, fun t ht => (ih t ht).tick fun hwork => ?_⟩
    refine (hintime.2 t ht).resolve_left ?_
    rw [hwork]
    exact Bool.noConfusion
  | env e =>
    simp only [System.step, Option.map_eq_some_iff] at hs
    obtain ⟨w, _, rfl⟩ := hs
    exact ⟨hnow, ih⟩

theorem Good.kept {kv : Kv (Cell J)} (h : Good json fn kv now a) (hwork : a.atWork = true) :
    a.kept = true := by
  simp only [atWork, Bool.and_eq_true, Bool.not_eq_true'] at hwork
  cases hdel : a.deleted with
  | false => simp [Attempt.kept, hwork.1, hdel]
  | true =>
    have hended := (h.gaveUp hdel).1
    rw [hwork.2] at hended
    cases hended

theorem entry_alive
    (h : (idemSystem json fn fnStore fnEnv).Reachable (Prompt n) (.init n (fun _ => none, w₀)) c)
    (ht : t ∈ c.pool) (hgood : Good json fn c.world.1 c.now (attempt t))
    (hk : (attempt t).kept = true) : c.world.1.live c.now (idemKey (attempt t).key) =
      some ⟨(attempt t).cell, (attempt t).expiry, (attempt t).id⟩ := by
  obtain ⟨⟨-, hnow⟩, htimely⟩ := timely h
  have halive := (htimely t ht).alive hnow hk
  rcases hgood.entry hk with hentry | ⟨-, hle⟩
  · exact Kv.live_eq_some.mpr ⟨hentry, halive⟩
  · omega

theorem prompt_outline (json : Json (StoredResult T) J) (fn : X → Prog S Err (StoredResult T))
    (fnStore : Store S W P) (fnEnv : Nat → Env → W → Option W) (n : Nat) (w₀ : W) :
    (idemSystem json fn fnStore fnEnv).Outline (Prompt n) (.init n (fun _ => none, w₀))
      (Attempt.logic true json fn fnStore) first fun _ r => Outcome json fn true r := by
  refine Attempt.outline fun c i f t o k hr hok ht hp hinv => ?_
  cases o with
  | inr o => trivial
  | inl o =>
    have hf : f.isAnswered = true := by
      simpa [redisAnswers, System.next_eq ht hp] using hok.1
    refine ⟨?_, (fun _ => hf), fun _ => ⟨?_, (fun hs => by cases hs)⟩⟩
    · rintro e p rfl
      cases hf
    · rintro key v ex rfl hlive b hb hkey
      -- a claim that is at work would still be there
      obtain ⟨u, hu, rfl⟩ := (System.mem_worth fun _ => rfl).mp hb
      have hu := List.mem_of_mem_eraseIdx hu
      have hgood : Good json fn c.world.1 c.now (attempt u) :=
        Inv.bag hinv |>.each _ ((System.mem_worth fun _ => rfl).mpr ⟨u, hu, rfl⟩)
      by_contra hwork
      have hlives := entry_alive hr hu hgood (hgood.kept (Bool.eq_true_of_not_eq_false hwork))
      have hkey : idemKey (attempt u).key = key := hkey
      rw [hkey, hlive] at hlives
      cases hlives

/-! ## What the callers see -/

theorem good_attempt
    (h : (idemSystem json fn fnStore fnEnv).Reachable (Prompt n) (.init n (fun _ => none, w₀)) c)
    (ht : t ∈ c.pool) : Good json fn c.world.1 c.now (attempt t) := by
  obtain ⟨hinv, -⟩ := (prompt_outline json fn fnStore fnEnv n w₀).adequate h
  exact Inv.bag hinv |>.each _ ((System.mem_worth fun _ => rfl).mpr ⟨t, ht, rfl⟩)

/-- At most one attempt has claimed a key and not deleted it. -/
theorem kept_unique
    (h : (idemSystem json fn fnStore fnEnv).Reachable (Prompt n) (.init n (fun _ => none, w₀)) c)
    (ht : t ∈ c.pool) (hu : u ∈ c.pool) (hkey : t.req.1 = u.req.1)
    (hkt : (attempt t).kept = true) (hku : (attempt u).kept = true) : t = u := by
  obtain ⟨⟨-, hnow⟩, htimely⟩ := timely h
  obtain ⟨hinv, -⟩ := (prompt_outline json fn fnStore fnEnv n w₀).adequate h
  obtain ⟨i, hi⟩ := List.mem_iff_getElem?.mp ht
  obtain ⟨j, hj⟩ := List.mem_iff_getElem?.mp hu
  by_cases hij : i = j
  · rw [hij] at hi
    exact Option.some.inj (hi.symm.trans hj)
  -- the entry of the earlier one would have run out by the later claim
  have hno : ∀ x ∈ c.pool, ∀ y ∈ c.pool, (attempt x).kept = true →
      ¬(attempt x).Before (attempt y) := by
    rintro x hx y hy hk ⟨-, κ, hκ, hle⟩
    have halive := (htimely x hx).alive hnow hk
    have hpast := (good_attempt h hy).past κ hκ
    omega
  have hapart : Apart (attempt t) (attempt u) :=
    System.worth_apart (fun _ => rfl) (Inv.bag hinv).pair hi hj hij
  have hkeys : (attempt t).key = (attempt u).key := by
    rw [(attempt_eq t).2.1, (attempt_eq u).2.1, hkey]
  exact absurd (hapart.2 hkeys hkt hku) (not_or.mpr ⟨hno t ht u hu hkt, hno u hu t ht hku⟩)

/-- A result that a caller has stored or seen is that of an execution for its key. -/
theorem resolves_of_stored
    (h : (idemSystem json fn fnStore fnEnv).Reachable (Prompt n) (.init n (fun _ => none, w₀)) c)
    (hu : u ∈ c.pool) {σ : Nat} {j : J} (hs : (attempt u).stored = some (σ, j)) :
    ∃ w, Resolves fn u w ∧ j = json.stringify w := by
  obtain ⟨hclaimed, w, hruns, hj⟩ := (good_attempt h hu).stores σ j hs
  obtain ⟨-, -, harg, hown⟩ := attempt_eq u
  rw [harg, hown] at hruns
  exact ⟨w, ⟨hclaimed, hruns⟩, hj⟩

end Attempt

open Attempt

variable {json : Json (StoredResult T) J} {fn : X → Prog S Err (StoredResult T)}
  {fnStore : Store S W P} {fnEnv : Nat → Env → W → Option W} {n : Nat} {w₀ : W}
  {c c' : IdemConfig S T X J W} {t u : IdemThread S T X J}

/-- How the callers of `key` stand to each other. A replayed answer is the result after a round trip
through JSON; for a JSON value the two are the same. -/
structure Agree (json : Json (StoredResult T) J) (fn : X → Prog S Err (StoredResult T))
    (key : String) (pool : List (IdemThread S T X J)) : Prop where
  apart : ∀ t ∈ pool, ∀ u ∈ pool, t.req.1 = key → u.req.1 = key → (attempt t).atWork = true →
    (attempt u).atWork = true → t = u
  once : ∀ t ∈ pool, ∀ u ∈ pool, t.req.1 = key → u.req.1 = key → ∀ v w, Resolves fn t v →
    Resolves fn u w → t = u ∧ v = w
  returns : ∀ t ∈ pool, t.req.1 = key → ∀ x, t.prog.result = some (.ok x) →
    ∃ u ∈ pool, u.req.1 = key ∧ ∃ w, Resolves fn u w ∧ (x.replayed = false ↔ t = u) ∧
      x.value = if x.replayed then json.parse (json.stringify w) else w
  rethrows : ∀ t ∈ pool, t.req.1 = key → ∀ e, Throws fn t e → ∀ r, t.prog.result = some r →
    r = .error e ∧ (attempt t).deleted = true
  others : ∀ t ∈ pool, t.req.1 = key → ∀ e, t.prog.result = some (.error e) →
    (∀ e', ¬Throws fn t e') → e = waitTimeout
  one : (∀ t ∈ pool, t.req.1 = key → t.prog.result ≠ none) →
    (∃ t ∈ pool, t.req.1 = key ∧ ∃ x, t.prog.result = some (.ok x)) →
    ∃! t, t ∈ pool ∧ t.req.1 = key ∧ ∃ v, t.prog.result = some (.ok ⟨false, v⟩)

section Callers

variable (h : (idemSystem json fn fnStore fnEnv).Reachable (Prompt n) (.init n (fun _ => none, w₀)) c)
include h

theorem outcome (ht : t ∈ c.pool) {r : Except Err (IdemResult (StoredResult T))}
    (hr : t.prog.result = some r) : Outcome json fn true t.req r (attempt t) :=
  (prompt_outline json fn fnStore fnEnv n w₀).ended h ht hr

theorem resolves_of_ran (ht : t ∈ c.pool) {v : StoredResult T}
    (hr : t.prog.result = some (.ok ⟨false, v⟩)) : Resolves fn t v := by
  obtain ⟨hclaimed, hruns, -⟩ := outcome h ht hr
  rw [(attempt_eq t).2.2.2] at hruns
  exact ⟨hclaimed, hruns⟩

theorem throws_of_error (ht : t ∈ c.pool) {e : Err} (hr : t.prog.result = some (.error e)) :
    (Throws fn t e ∧ (attempt t).deleted = true) ∨
      ((attempt t).claimed = none ∧ e = waitTimeout) := by
  rcases outcome h ht hr with hs | ⟨hclaimed, hdel, hruns⟩ | hwait
  · cases hs
  · rw [(attempt_eq t).2.2.2] at hruns
    exact .inl ⟨⟨hclaimed, hruns⟩, hdel⟩
  · exact .inr hwait

/-- A call whose `fn` has resolved returns its result. -/
theorem result_of_resolves (ht : t ∈ c.pool) {v : StoredResult T} (hv : Resolves fn t v)
    {r : Except Err (IdemResult (StoredResult T))} (hr : t.prog.result = some r) :
    r = .ok ⟨false, v⟩ := by
  rcases r with e | ⟨replayed, w⟩
  · rcases throws_of_error h ht hr with ⟨hthrows, -⟩ | ⟨hnone, -⟩
    · exact absurd hthrows.2 hv.2.not_throw
    · exact absurd hv.1 (by simp [hnone])
  · cases replayed with
    | false =>
      have hsame := (resolves_of_ran h ht hr).2.det hv.2
      rw [Prog.ret.inj hsame]
    | true =>
      obtain ⟨hnone, -⟩ := outcome h ht hr
      exact absurd hv.1 (by simp [hnone])

theorem resolves_unique (ht : t ∈ c.pool) (hu : u ∈ c.pool) (hkey : t.req.1 = u.req.1)
    {v w : StoredResult T} (hv : Resolves fn t v) (hw : Resolves fn u w) : t = u ∧ v = w := by
  obtain rfl := kept_unique h ht hu hkey ((good_attempt h ht).kept_of_resolves hv)
    ((good_attempt h hu).kept_of_resolves hw)
  exact ⟨rfl, Prog.ret.inj (hv.2.det hw.2)⟩

/-- What a call that returns carries. -/
theorem returns_resolved (ht : t ∈ c.pool) {x : IdemResult (StoredResult T)}
    (hr : t.prog.result = some (.ok x)) :
    ∃ u ∈ c.pool, u.req.1 = t.req.1 ∧ ∃ w, Resolves fn u w ∧ (x.replayed = false ↔ t = u) ∧
      x.value = if x.replayed then json.parse (json.stringify w) else w := by
  obtain ⟨replayed, v⟩ := x
  cases replayed with
  | false => exact ⟨t, ht, rfl, v, resolves_of_ran h ht hr, by simp, rfl⟩
  | true =>
    obtain ⟨hnone, j, hseen, rfl⟩ := outcome h ht hr
    -- the result that it saw is the one of some caller
    obtain ⟨hinv, -⟩ := (prompt_outline json fn fnStore fnEnv n w₀).adequate h
    obtain ⟨b, hb, hbkey, σ, hs⟩ :=
      Inv.seen hinv _ ((System.mem_worth fun _ => rfl).mpr ⟨t, ht, rfl⟩) j hseen
    obtain ⟨u, hu, rfl⟩ := (System.mem_worth fun _ => rfl).mp hb
    obtain ⟨w, hw, rfl⟩ := resolves_of_stored h hu hs
    have hkey : u.req.1 = t.req.1 := by
      rw [← (attempt_eq u).2.1, ← (attempt_eq t).2.1]
      exact hbkey
    refine ⟨u, hu, hkey, w, hw, ?_, rfl⟩
    constructor
    · exact fun hf => by cases hf
    · rintro rfl
      exact absurd hw.1 (by simp [hnone])

theorem agree (key : String) : Agree json fn key c.pool where
  apart := by
    intro t ht u hu htk huk hwt hwu
    exact kept_unique h ht hu (htk.trans huk.symm) ((good_attempt h ht).kept hwt)
      ((good_attempt h hu).kept hwu)
  once := fun t ht u hu htk huk v w => resolves_unique h ht hu (htk.trans huk.symm)
  returns := by
    rintro t ht rfl x hr
    exact returns_resolved h ht hr
  rethrows := by
    intro t ht _ e he r hr
    rcases r with e' | ⟨replayed, v⟩
    · rcases throws_of_error h ht hr with ⟨hthrows, hdel⟩ | ⟨hnone, -⟩
      · rw [Prog.throw.inj (hthrows.2.det he.2)]
        exact ⟨rfl, hdel⟩
      · exact absurd he.1 (by simp [hnone])
    · cases replayed with
      | false => exact absurd he.2 (resolves_of_ran h ht hr).2.not_throw
      | true =>
        obtain ⟨hnone, -⟩ := outcome h ht hr
        exact absurd he.1 (by simp [hnone])
  others := by
    intro t ht _ e hr hno
    rcases throws_of_error h ht hr with ⟨hthrows, -⟩ | ⟨-, hwait⟩
    · exact absurd hthrows (hno e)
    · exact hwait
  one := by
    rintro hended ⟨t, ht, rfl, x, hr⟩
    obtain ⟨u, hu, hkey, w, hw, -, -⟩ := returns_resolved h ht hr
    obtain ⟨r, hru⟩ := Option.ne_none_iff_exists'.mp (hended u hu hkey)
    obtain rfl := result_of_resolves h hu hw hru
    refine ⟨u, ⟨hu, hkey, w, hru⟩, ?_⟩
    rintro t' ⟨ht', hkey', v, hr'⟩
    exact (resolves_unique h ht' hu (hkey'.trans hkey.symm) (resolves_of_ran h ht' hr') hw).1

/-- The `DEL` of a caller leaves its key absent. -/
theorem absent_of_frees {i : Nat} {f : Fate Err P} {key : String}
    (hok : Prompt n c (.call i f : IdemAct X P Env))
    (hs : (idemSystem json fn fnStore fnEnv).step c (.call i f) = some c')
    (hfrees : Frees c c' i key) : c'.world.1 (idemKey key) = none := by
  obtain ⟨u, u', hu, hu', hkey, hkept, hdel⟩ := hfrees
  obtain ⟨t, o, ht, ho, hg⟩ :=
    (prompt_outline json fn fnStore fnEnv n w₀).guaranteed h hok hs
  obtain rfl := Option.some.inj (ht.symm.trans hu)
  obtain ⟨m, r, o', k, tr, out, w, hp, hx, rfl⟩ := System.callStep_eq_some hs
  obtain rfl := Option.some.inj (hp.symm.trans hu)
  obtain rfl := Option.some.inj ho
  have hlt := (List.getElem?_eq_some_iff.mp hp).1
  obtain rfl := Option.some.inj ((List.getElem?_set_self hlt).symm.trans hu')
  cases o' with
  | inr o =>
    have hold : (attempt ⟨m, r, .call (.inr o) k, tr⟩).deleted = true := hdel
    rw [hkept] at hold
    cases hold
  | inl o =>
    have hpost : (kvPost c.now o out (attempt ⟨m, r, .call (.inl o) k, tr⟩)).deleted = true := hdel
    have hother : (kvPost c.now o out (attempt ⟨m, r, .call (.inl o) k, tr⟩)).deleted =
        (attempt ⟨m, r, .call (.inl o) k, tr⟩).deleted → False := by
      intro heq
      rw [heq, hkept] at hpost
      cases hpost
    obtain ⟨hx, -⟩ := Store.exec_sum_inl (f := kvStore) (g := fnStore) (o := o) hx
    cases o with
    | del rkey =>
      have hrkey : rkey = idemKey key := by
        rw [hg _ rfl rkey rfl, ← hkey]
        exact congrArg idemKey (attempt_eq _).2.1
      rcases Store.exec_cases hx with ⟨p, v, rfl, hdel, -⟩ | ⟨e, -, -, rfl⟩ | ⟨e, p, v, -, -, rfl⟩
      · obtain ⟨-, hw⟩ := Prod.mk.inj (Option.some.inj hdel)
        show w.1 (idemKey key) = none
        rw [← hw, hrkey]
        exact Function.update_self ..
      · exact (hother rfl).elim
      · exact (hother rfl).elim
    | setNx rkey v ex => exact (hother (by rcases out with e | (_ | _) <;> rfl)).elim
    | set rkey v ex => exact (hother (by cases v <;> cases out <;> rfl)).elim
    | get rkey => exact (hother (by rcases out with e | (_ | _ | _) <;> rfl)).elim
    | _ => exact (hother rfl).elim

/-- A caller that finds its key free runs `fn`. -/
theorem starts_of_absent {i : Nat} {f : Fate Err P} (hf : f.isAnswered = true)
    (hu : c.pool[i]? = some u) (hnew : u.trace = []) (hfree : c.world.1 (idemKey u.req.1) = none)
    (hs : (idemSystem json fn fnStore fnEnv).step c (.call i f) = some c') :
    Starts c c' i u.req.1 := by
  have hmem := List.mem_of_getElem? hu
  obtain ⟨m, r, o, k, tr, out, w, hp, hx, rfl⟩ := System.callStep_eq_some hs
  obtain rfl := Option.some.inj (hp.symm.trans hu)
  obtain rfl : tr = [] := hnew
  have hprog := h.prog_eq rfl hmem rfl
  have hlt := (List.getElem?_eq_some_iff.mp hp).1
  refine ⟨_, _, hp, List.getElem?_set_self hlt, rfl, rfl, ?_⟩
  have ho : o = .inl (.setNx (idemKey r.1) .pending LOCK_TTL_SECONDS) := by
    have hnext := congrArg Prog.next hprog
    exact Option.some.inj hnext
  subst ho
  obtain ⟨hx, -⟩ := Store.exec_sum_inl (f := kvStore) (g := fnStore)
    (o := KvOp.setNx (idemKey r.1) (Cell.pending : Cell J) LOCK_TTL_SECONDS) hx
  have hlive : c.world.1.live c.now (idemKey r.1) = none := by simp [Kv.live, hfree]
  rcases Store.exec_cases hx with ⟨p, v, rfl, hset, rfl⟩ | ⟨e, rfl, -, -⟩ | ⟨e, p, v, rfl, -, -⟩
  · simp only [kvStore, hlive] at hset
    obtain ⟨rfl, -⟩ := Prod.mk.inj (Option.some.inj hset)
    rfl
  · cases hf
  · cases hf

end Callers

/-- **Callers agree.** In every run in which Redis answers, nobody is at work when its claim runs
out and no stored result runs out: the callers of a key stand to each other as `Agree` says; no
execution starts after one has resolved; and a caller whose `fn` threw leaves the key absent, so
that a caller that comes then runs `fn`. -/
theorem callers_agree
    (h : (idemSystem json fn fnStore fnEnv).Reachable (Prompt n) (.init n (fun _ => none, w₀)) c)
    (key : String) : Agree json fn key c.pool ∧
      ∀ i f c', Prompt n c (.call i f : IdemAct X P Env) →
        (idemSystem json fn fnStore fnEnv).step c (.call i f) = some c' →
        (Starts c c' i key → ∀ t ∈ c.pool, t.req.1 = key → ∀ v, ¬Resolves fn t v) ∧
        (Frees c c' i key → c'.world.1 (idemKey key) = none ∧
          ∀ j u f' c'', c'.pool[j]? = some u → u.req.1 = key → u.trace = [] →
            Prompt n c' (.call j f' : IdemAct X P Env) →
            (idemSystem json fn fnStore fnEnv).step c' (.call j f') = some c'' →
            Starts c' c'' j key) := by
  refine ⟨agree h key, fun i f c' hok hs => ⟨fun hstart t ht hkey v hv => ?_, fun hfrees => ?_⟩⟩
  · have hexp := expired_of_starts (prompt_outline json fn fnStore fnEnv n w₀) h hok hs hstart ht
      hkey hv
    obtain ⟨⟨-, hnow⟩, htimely⟩ := timely h
    have halive := (htimely t ht).alive hnow ((good_attempt h ht).kept_of_resolves hv)
    omega
  · have habsent := absent_of_frees h hok hs hfrees
    refine ⟨habsent, ?_⟩
    rintro j u f' c'' hu rfl hnew hok' hs'
    have h' := System.Reachable.step h hok hs
    refine starts_of_absent h' ?_ hu hnew habsent hs'
    -- the call is one that Redis answers
    have hnext : c'.next j = some (.inl (.setNx (idemKey u.req.1) .pending LOCK_TTL_SECONDS)) := by
      have hprog := h'.prog_eq rfl (List.mem_of_getElem? hu) hnew
      simp only [Config.next, hu, Option.bind_some, hprog]
      rfl
    simpa [redisAnswers, hnext] using hok'.1

/-- Three callers: the `fn` of the first throws, the third runs it again, and the second, which had
found the claim of the first, gets the result of the third. -/
theorem callers_agree_after_error :
    ∃ c, workSystem.Reachable (Prompt 0) (.init 0 (fun _ => none, ())) c ∧
      c.pool.map (fun t => (t.prog.result.map Except.toOption).map (·.map (·.replayed))) =
        [some none, some (some true), some (some false)] ∧
      Agree ⟨id, id⟩ workFn "k" c.pool := by
  have hrun : (workSystem.run (fun c a => redisAnswers c a && inTime 0 c a)
      (.init 0 (fun _ => none, ())) (.arrive ("k", ()) :: .arrive ("k", ()) :: workCalls 0 1 ++
        workCalls 1 5 ++ .call 0 (.failed (.error "out of stock")) :: workCalls 0 1 ++
        .arrive ("k", ()) :: workCalls 2 3 ++ .tick POLL_INTERVAL_MS :: workCalls 1 3)).map
      (fun c => c.pool.map fun t =>
        (t.prog.result.map Except.toOption).map (·.map (·.replayed))) =
      some [some none, some (some true), some (some false)] := by decide
  obtain ⟨c, hc, hs⟩ := Option.map_eq_some_iff.mp hrun
  have hr : workSystem.Reachable (Prompt 0) (.init 0 (fun _ => none, ())) c :=
    (System.Reachable.of_run hc).mono fun c a hok => by simpa [Prompt] using hok
  exact ⟨c, hr, hs, (callers_agree hr "k").1⟩

end Flashkart
