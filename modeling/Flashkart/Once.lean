import Flashkart.Idempotency

/-!
# Flashkart.Once

How often `fn` runs under one idempotency key. The claim of a key is a lock that expires after
`LOCK_TTL_SECONDS`, and neither the `SET` of the result nor the `DEL` of a failed run looks whether
the claim is still the caller's own.

* `ran_once`       — as long as no claim is taken over from a caller that is still at work, any
  two executions that succeed are a result's whole time to live apart, and nobody touches what
  another caller wrote.
* `ran_twice`      — an execution that outlives its claim.
-/

namespace Flashkart

open Async Logic

variable {S : Sig} {T J X W P Env : Type}

/-- Callers of `withIdempotency`, each with a key and an argument of `fn`. What `fn` does to the
world, and how long it takes, is left open. -/
def idemSystem (json : Json (StoredResult T) J) (fn : X → Prog S Err (StoredResult T))
    (fnStore : Store S W P) (fnEnv : Nat → Env → W → Option W) :
    System ((kvSig (Cell J)).sum S) Err (String × X) (IdemResult (StoredResult T))
      (Kv (Cell J) × W) P Env where
  store := kvStore.sum fnStore
  prog := fun r => withIdempotency json r.1 (fn r.2)
  accept := fun _ _ _ w => some w
  env := fun now e w => (fnEnv now e w.2).map fun v => (w.1, v)

/-- The time to live of a stored result, in milliseconds. -/
def resultTtl : Nat := RESULT_TTL_SECONDS * 1000

/-- What a caller has done to its key. -/
structure Claimant where
  id : Nat
  key : String
  claimed : Option Nat
  stored : Option Nat
  released : Bool

namespace Claimant

/-- Between its claim and the `SET` or `DEL` that ends it. -/
def running (a : Claimant) : Bool := a.claimed.isSome && a.stored.isNone && !a.released

/-- Has claimed the key, and not given it up. -/
def kept (a : Claimant) : Bool := a.claimed.isSome && !a.released

/-- `b` claimed the key when the time to live of the result of `a` had passed. -/
def Before (a b : Claimant) : Prop :=
  ∃ σ κ, a.stored = some σ ∧ b.claimed = some κ ∧ σ + resultTtl ≤ κ

theorem not_before {a b : Claimant} {σ κ : Nat} (ha : a.stored = some σ)
    (hb : b.claimed = some κ) (hlt : κ < σ + resultTtl) : ¬a.Before b := by
  intro ⟨σ', κ', hσ, hκ, hle⟩
  have h1 : σ' = σ := Option.some.inj (hσ.symm.trans ha)
  have h2 : κ' = κ := Option.some.inj (hκ.symm.trans hb)
  omega

def first (id : Nat) (r : String × X) : Claimant := ⟨id, r.1, none, none, false⟩

def kvPost (time : Nat) : (o : KvOp (Cell J)) → Except Err o.Ret → Claimant → Claimant
  | .setNx .., .ok true, a => { a with claimed := some time }
  | .set .., .ok _, a => { a with stored := some time }
  | .del _, .ok _, a => { a with released := true }
  | _, _, a => a

def post : Event ((kvSig (Cell J)).sum S) Err → Claimant → Claimant
  | ⟨time, .inl o, out⟩, a => kvPost time o out a
  | ⟨_, .inr _, _⟩, a => a

end Claimant

namespace Once

open Claimant

/-- A caller at work has its claim under the key, expired or not; a result is there until its time
to live has passed. -/
structure Inv (kv : Kv (Cell J)) (now : Nat) (m : Multiset Claimant) : Prop where
  ids : (m.map (·.id)).Nodup
  past : ∀ a ∈ m, ∀ κ, a.claimed = some κ → κ ≤ now
  holds : ∀ a ∈ m, a.running = true → ∃ ex, kv (idemKey a.key) = some ⟨.pending, ex, a.id⟩
  stays : ∀ a ∈ m, ∀ σ, a.stored = some σ → σ + resultTtl ≤ now ∨
    ∃ j, kv (idemKey a.key) = some ⟨.result j, σ + resultTtl, a.id⟩
  done : ∀ a ∈ m, a.stored.isSome = true → a.kept = true
  apart : ∀ a ∈ m, ∀ b ∈ m, a.id ≠ b.id → a.key = b.key → a.kept = true → b.kept = true →
    a.Before b ∨ b.Before a

variable {kv kv' : Kv (Cell J)} {now now' : Nat} {a a' : Claimant} {m g : Multiset Claimant}

theorem Inv.later (h : Inv kv now m) (hle : now ≤ now') : Inv kv now' m := by
  refine ⟨h.ids, fun a ha κ hκ => ?_, h.holds, fun a ha σ hσ => ?_, h.done, h.apart⟩
  · have := h.past a ha κ hκ
    omega
  · rcases h.stays a ha σ hσ with hle' | hentry
    · exact .inl (by omega)
    · exact .inr hentry

theorem Inv.arrive (h : Inv kv now m) (hnew : ∀ b ∈ m, b.id ≠ a.id) (hc : a.claimed = none)
    (hs : a.stored = none) : Inv kv now ({a} + m) := by
  rw [Multiset.singleton_add]
  constructor
  · rw [Multiset.map_cons, Multiset.nodup_cons, Multiset.mem_map]
    exact ⟨fun ⟨b, hb, hid⟩ => hnew b hb hid, h.ids⟩
  · intro b hb κ hκ
    rcases Multiset.mem_cons.mp hb with rfl | hb
    · rw [hc] at hκ
      cases hκ
    · exact h.past b hb κ hκ
  · intro b hb hrun
    rcases Multiset.mem_cons.mp hb with rfl | hb
    · simp [running, hc] at hrun
    · exact h.holds b hb hrun
  · intro b hb σ hσ
    rcases Multiset.mem_cons.mp hb with rfl | hb
    · rw [hs] at hσ
      cases hσ
    · exact h.stays b hb σ hσ
  · intro b hb hsome
    rcases Multiset.mem_cons.mp hb with rfl | hb
    · rw [hs] at hsome
      cases hsome
    · exact h.done b hb hsome
  · intro b hb d hd hne hkey hkb hkd
    rcases Multiset.mem_cons.mp hb with rfl | hb
    · simp [kept, hc] at hkb
    · rcases Multiset.mem_cons.mp hd with rfl | hd
      · simp [kept, hc] at hkd
      · exact h.apart b hb d hd hne hkey hkb hkd

/-- A step of one caller: what is to be shown of it, and of the others towards it. -/
theorem Inv.step (h : Inv kv now ({a} + g)) (hid : a'.id = a.id) (hkey : a'.key = a.key)
    (hpast : ∀ κ, a'.claimed = some κ → κ ≤ now)
    (hholds : a'.running = true → ∃ ex, kv' (idemKey a.key) = some ⟨.pending, ex, a.id⟩)
    (hstays : ∀ σ, a'.stored = some σ → σ + resultTtl ≤ now ∨
      ∃ j, kv' (idemKey a.key) = some ⟨.result j, σ + resultTtl, a.id⟩)
    (hdone : a'.stored.isSome = true → a'.kept = true)
    (hsame : ∀ k, k ≠ idemKey a.key → kv' k = kv k)
    (hothers : ∀ b ∈ g, idemKey b.key = idemKey a.key → b.id ≠ a.id →
      kv' (idemKey a.key) = kv (idemKey a.key) ∨
        (b.running = false ∧ ∀ σ, b.stored = some σ → σ + resultTtl ≤ now))
    (hapart : ∀ b ∈ g, b.id ≠ a.id → b.key = a.key → a'.kept = true → b.kept = true →
      a'.Before b ∨ b.Before a') : Inv kv' now ({a'} + g) := by
  rw [Multiset.singleton_add] at h ⊢
  have hids := h.ids
  rw [Multiset.map_cons, Multiset.nodup_cons, Multiset.mem_map] at hids
  have hne : ∀ b ∈ g, b.id ≠ a.id := fun b hb heq => hids.1 ⟨b, hb, heq⟩
  have hin : ∀ b ∈ g, b ∈ a ::ₘ g := fun b hb => Multiset.mem_cons_of_mem hb
  constructor
  · have hids' := h.ids
    rw [Multiset.map_cons] at hids' ⊢
    rw [hid]
    exact hids'
  · intro b hb κ hκ
    rcases Multiset.mem_cons.mp hb with rfl | hb
    · exact hpast κ hκ
    · exact h.past b (hin b hb) κ hκ
  · intro b hb hrun
    rcases Multiset.mem_cons.mp hb with rfl | hb
    · rw [hid, hkey]
      exact hholds hrun
    · by_cases hk : idemKey b.key = idemKey a.key
      · rcases hothers b hb hk (hne b hb) with heq | ⟨hstop, -⟩
        · rw [hk, heq, ← hk]
          exact h.holds b (hin b hb) hrun
        · rw [hstop] at hrun
          cases hrun
      · rw [hsame _ hk]
        exact h.holds b (hin b hb) hrun
  · intro b hb σ hσ
    rcases Multiset.mem_cons.mp hb with rfl | hb
    · rw [hid, hkey]
      exact hstays σ hσ
    · by_cases hk : idemKey b.key = idemKey a.key
      · rcases hothers b hb hk (hne b hb) with heq | ⟨-, hover⟩
        · rw [hk, heq, ← hk]
          exact h.stays b (hin b hb) σ hσ
        · exact .inl (hover σ hσ)
      · rw [hsame _ hk]
        exact h.stays b (hin b hb) σ hσ
  · intro b hb hsome
    rcases Multiset.mem_cons.mp hb with rfl | hb
    · exact hdone hsome
    · exact h.done b (hin b hb) hsome
  · intro b hb d hd hbd hkbd hkb hkd
    rcases Multiset.mem_cons.mp hb with rfl | hb'
    · rcases Multiset.mem_cons.mp hd with rfl | hd'
      · exact absurd rfl hbd
      · exact hapart d hd' (hne d hd') (hkbd.symm.trans hkey) hkb hkd
    · rcases Multiset.mem_cons.mp hd with rfl | hd'
      · exact (hapart b hb' (hne b hb') (hkbd.trans hkey) hkd hkb).symm
      · exact h.apart b (hin b hb') d (hin d hd') hbd hkbd hkb hkd

/-- While a caller is at work, no other one is, and no result is there. -/
theorem Inv.alone (h : Inv kv now ({a} + g)) (ha : a.running = true) :
    ∀ b ∈ g, idemKey b.key = idemKey a.key → b.id ≠ a.id →
      b.running = false ∧ ∀ σ, b.stored = some σ → σ + resultTtl ≤ now := by
  intro b hb hk hne
  rw [Multiset.singleton_add] at h
  obtain ⟨ex, hentry⟩ := h.holds a (Multiset.mem_cons_self a g) ha
  constructor
  · by_contra hrun
    obtain ⟨ex', hentry'⟩ := h.holds b (Multiset.mem_cons_of_mem hb) (by simpa using hrun)
    rw [hk, hentry] at hentry'
    have hwriter := congrArg Entry.writer (Option.some.inj hentry')
    exact hne hwriter.symm
  · intro σ hσ
    rcases h.stays b (Multiset.mem_cons_of_mem hb) σ hσ with hover | ⟨j, hentry'⟩
    · exact hover
    · rw [hk, hentry] at hentry'
      cases hentry'

/-- The key is free, and nobody is at work for it. -/
theorem Inv.claim (h : Inv kv now ({a} + g)) (hfree : kv.live now (idemKey a.key) = none)
    (hnobody : ∀ b ∈ g, idemKey b.key = idemKey a.key → b.running = false)
    (hs : a.stored = none) {ex : Nat} :
    Inv (kv.put (idemKey a.key) ⟨.pending, ex, a.id⟩) now ({{ a with claimed := some now }} + g) := by
  have hover : ∀ b ∈ g, idemKey b.key = idemKey a.key → ∀ σ, b.stored = some σ →
      σ + resultTtl ≤ now := by
    intro b hb hk σ hσ
    have hmem : b ∈ ({a} + g : Multiset Claimant) := by
      rw [Multiset.singleton_add]
      exact Multiset.mem_cons_of_mem hb
    rcases h.stays b hmem σ hσ with hover | ⟨j, hentry⟩
    · exact hover
    · rw [hk] at hentry
      by_contra hlt
      have := Kv.live_eq_some.mpr ⟨hentry, Nat.lt_of_not_le hlt⟩
      rw [hfree] at this
      cases this
  refine h.step (show ({ a with claimed := some now } : Claimant).id = a.id from rfl) rfl
    ?_ ?_ ?_ ?_ ?_ ?_ ?_
  · intro κ hκ
    cases hκ
    exact le_rfl
  · exact fun _ => ⟨ex, Function.update_self ..⟩
  · intro σ hσ
    change a.stored = some σ at hσ
    rw [hs] at hσ
    cases hσ
  · intro hsome
    change a.stored.isSome = true at hsome
    rw [hs] at hsome
    cases hsome
  · exact fun k hk => Function.update_of_ne hk _ _
  · exact fun b hb hk _ => .inr ⟨hnobody b hb hk, hover b hb hk⟩
  · intro b hb _ hkey _ hkb
    have hrun := hnobody b hb (congrArg idemKey hkey)
    have hstored : b.stored.isSome = true := by
      simp only [running, kept, Bool.and_eq_true, Bool.not_eq_true'] at hrun hkb
      rw [hkb.1, hkb.2] at hrun
      simpa [Option.isSome_iff_ne_none] using hrun
    obtain ⟨σ, hσ⟩ := Option.isSome_iff_exists.mp hstored
    exact .inr ⟨σ, now, hσ, rfl, hover b hb (congrArg idemKey hkey) σ hσ⟩

/-- The caller stores its result over its own claim. -/
theorem Inv.store (h : Inv kv now ({a} + g)) (ha : a.running = true) {j : J} :
    Inv (kv.put (idemKey a.key) ⟨.result j, now + resultTtl, a.id⟩) now
      ({{ a with stored := some now }} + g) := by
  have hin : a ∈ ({a} + g : Multiset Claimant) := by simp
  have hparts := ha
  simp only [running, Bool.and_eq_true, Bool.not_eq_true', Option.isNone_iff_eq_none] at hparts
  obtain ⟨⟨hclaimed, hstored⟩, hreleased⟩ := hparts
  refine h.step (show ({ a with stored := some now } : Claimant).id = a.id from rfl) rfl
    ?_ ?_ ?_ ?_ ?_ ?_ ?_
  · exact h.past a hin
  · intro hrun
    simp [running] at hrun
  · intro σ hσ
    cases hσ
    exact .inr ⟨j, Function.update_self ..⟩
  · intro _
    simp [kept, hclaimed, hreleased]
  · exact fun k hk => Function.update_of_ne hk _ _
  · exact fun b hb hk hne => .inr (h.alone ha b hb hk hne)
  · intro b hb hne hkey _ hkb
    have hka : a.kept = true := by simp [kept, hclaimed, hreleased]
    have hb' : b ∈ ({a} + g : Multiset Claimant) := Multiset.mem_add.mpr (.inr hb)
    rcases h.apart b hb' a hin hne hkey hkb hka with hba | ⟨σ, κ, hσ, -⟩
    · exact .inr hba
    · rw [hstored] at hσ
      cases hσ

/-- The caller gives its own claim up. -/
theorem Inv.release (h : Inv kv now ({a} + g)) (ha : a.running = true) :
    Inv (kv.erase (idemKey a.key)) now ({{ a with released := true }} + g) := by
  have hparts := ha
  simp only [running, Bool.and_eq_true, Bool.not_eq_true', Option.isNone_iff_eq_none] at hparts
  refine h.step (show ({ a with released := true } : Claimant).id = a.id from rfl) rfl
    ?_ ?_ ?_ ?_ ?_ ?_ ?_
  · exact h.past a (by simp)
  · intro hrun
    simp [running] at hrun
  · intro σ hσ
    change a.stored = some σ at hσ
    rw [hparts.1.2] at hσ
    cases hσ
  · intro hsome
    change a.stored.isSome = true at hsome
    rw [hparts.1.2] at hsome
    cases hsome
  · exact fun k hk => Function.update_of_ne hk _ _
  · exact fun b hb hk hne => .inr (h.alone ha b hb hk hne)
  · intro b hb _ _ hka _
    simp [kept] at hka

/-! ## Calls -/

/-- Redis answers, and a free key is claimed only when nobody is at work for it. -/
def guard (_ : Nat) (_ : Claimant) (g : Multiset Claimant)
    (s : Shared ((kvSig (Cell J)).sum S) Err (Kv (Cell J) × W)) :
    ((kvSig (Cell J)).sum S).Op → Fate Err P → Prop
  | .inl o, f => f.isAnswered = true ∧ ∀ key v ex, o = .setNx key v ex →
      s.world.1.live s.now key = none → ∀ b ∈ g, idemKey b.key = key → b.running = false
  | .inr _, _ => True

/-- What another caller wrote stays, and only a caller at work stores a result. -/
def guarantee (i : Nat) (a : Claimant) (s : Shared ((kvSig (Cell J)).sum S) Err (Kv (Cell J) × W))
    (o : ((kvSig (Cell J)).sum S).Op) (w : Kv (Cell J) × W) : Prop :=
  (∀ k e, s.world.1.live s.now k = some e → e.writer ≠ i → w.1 k = some e) ∧
    ∀ k v ex, o = .inl (.set k v ex) → a.running = true

def logic (fnStore : Store S W P) :
    Logic ((kvSig (Cell J)).sum S) Err (Kv (Cell J) × W) P Claimant (Multiset Claimant) where
  store := kvStore.sum fnStore
  guard := guard
  inv := fun s m => Inv s.world.1 s.now m
  post := post
  val := fun a => {a}
  guarantee := guarantee

variable {fnStore : Store S W P} {i : Nat} {key : String}

theorem call_fn (o : S.Op) : (logic (J := J) fnStore).Neutral (.inr o) := by
  intro i a s g f out w hinv hg hx
  have hw : w.1 = s.world.1 := (Store.exec_sum_inr (f := kvStore) (g := fnStore) hx).2
  refine ⟨?_, ⟨?_, fun k v ex he => by cases he⟩, rfl⟩
  · show Inv w.1 s.now _
    rw [hw]
    exact hinv
  · intro k e he _
    rw [hw]
    exact (Kv.live_eq_some.mp he).1

/-- What is to be shown of a call of the wrapper's own. -/
theorem call_own {o : KvOp (Cell J)} {R : Except Err o.Ret → Claimant → Prop}
    (h : ∀ (kv kv' : Kv (Cell J)) (now : Nat) (g : Multiset Claimant) (p : P) (r : o.Ret),
      Inv kv now ({a} + g) → kvStore now i o p kv = some (r, kv') →
      (∀ k v ex, o = .setNx k v ex → kv.live now k = none →
        ∀ b ∈ g, idemKey b.key = k → b.running = false) →
      Inv kv' now ({kvPost now o (.ok r) a} + g) ∧
        (∀ k e, kv.live now k = some e → e.writer ≠ i → kv' k = some e) ∧
        R (.ok r) (kvPost now o (.ok r) a))
    (hset : ∀ k v ex, o = .set k v ex → a.running = true) :
    (logic fnStore).Call i a (.inl o) R := by
  intro s g f out w hinv hg hx
  obtain ⟨hf, hfree⟩ := hg
  obtain ⟨hx, -⟩ := Store.exec_sum_inl (f := kvStore) (g := fnStore) (o := o) hx
  cases f with
  | answered p =>
    obtain ⟨⟨r, v⟩, hs, heq⟩ := Option.map_eq_some_iff.mp hx
    obtain ⟨rfl, rfl⟩ := Prod.mk.inj heq
    obtain ⟨h1, h2, h3⟩ := h s.world.1 w.1 s.now g p r hinv hs hfree
    exact ⟨h1, ⟨h2, fun k v ex ho => hset k v ex (Sum.inl.inj ho)⟩, h3⟩
  | _ => cases hf

theorem call_read {o : KvOp (Cell J)} (ho : o.writes = false) :
    (logic fnStore).Call i a (.inl o) fun _ a' => a' = a := by
  refine call_own (fun kv kv' now g p r hinv hs _ => ?_) ?_
  · have hpost : kvPost now o (.ok r) a = a := by
      cases o <;> first | rfl | cases ho
    obtain rfl := kvStore_reads ho hs
    rw [hpost]
    exact ⟨hinv, fun k e he _ => (Kv.live_eq_some.mp he).1, rfl⟩
  · intro k v ex heq
    rw [heq] at ho
    cases ho

/-- The caller `i` with the key. -/
def Caller (i : Nat) (key : String) (a : Claimant) : Prop := a.id = i ∧ a.key = key

theorem call_claim (ha : Caller i key a) (hs : a.stored = none) (hr : a.released = false) :
    (logic (J := J) fnStore).Call i a (.inl (.setNx (idemKey key) .pending LOCK_TTL_SECONDS))
      (Ends (fun won a' => Caller i key a' ∧ (won = true → a'.running = true))
        fun _ => False) := by
  obtain ⟨rfl, rfl⟩ := ha
  refine call_own (fun kv kv' now g p r hinv hx hfree => ?_) fun k v ex he => by cases he
  simp only [kvStore] at hx
  split at hx
  · cases hx
    exact ⟨hinv, fun k e he _ => (Kv.live_eq_some.mp he).1, ⟨rfl, rfl⟩, (fun he => by cases he)⟩
  · rename_i hlive
    cases hx
    refine ⟨hinv.claim hlive (hfree _ _ _ rfl hlive) hs, ?_, ⟨rfl, rfl⟩, fun _ => ?_⟩
    · intro k e he _
      have hk : k ≠ idemKey a.key := by
        rintro rfl
        rw [hlive] at he
        cases he
      rw [Kv.put, Function.update_of_ne hk]
      exact (Kv.live_eq_some.mp he).1
    · simp [kvPost, running, hs, hr]

/-- The entry of another caller is not where a caller at work writes. -/
theorem other_key (h : Inv kv now ({a} + g)) (ha : a.running = true) {k : String}
    {e : Entry (Cell J)} (he : kv.live now k = some e) (hne : e.writer ≠ a.id) :
    k ≠ idemKey a.key ∧ kv k = some e := by
  have hentry := (Kv.live_eq_some.mp he).1
  refine ⟨?_, hentry⟩
  rintro rfl
  obtain ⟨ex, hown⟩ := h.holds a (by simp) ha
  rw [hown] at hentry
  exact hne (congrArg Entry.writer (Option.some.inj hentry)).symm

theorem call_store (ha : Caller i key a) (hrun : a.running = true) {j : J} :
    (logic fnStore).Call i a (.inl (.set (idemKey key) (.result j) RESULT_TTL_SECONDS))
      (Ends (fun _ _ => True) fun _ => False) := by
  obtain ⟨rfl, rfl⟩ := ha
  refine call_own (fun kv kv' now g p r hinv hx _ => ?_) fun _ _ _ _ => hrun
  cases hx
  refine ⟨hinv.store hrun, fun k e he hne => ?_, trivial⟩
  obtain ⟨hk, hentry⟩ := other_key hinv hrun he hne
  rw [Kv.put, Function.update_of_ne hk]
  exact hentry

theorem call_release (ha : Caller i key a) (hrun : a.running = true) :
    (logic (J := J) fnStore).Call i a (.inl (.del (idemKey key))) fun _ _ => True := by
  obtain ⟨rfl, rfl⟩ := ha
  refine call_own (fun kv kv' now g p r hinv hx _ => ?_) fun k v ex he => by cases he
  cases hx
  refine ⟨hinv.release hrun, fun k e he hne => ?_, trivial⟩
  obtain ⟨hk, hentry⟩ := other_key hinv hrun he hne
  rw [Kv.erase, Function.update_of_ne hk]
  exact hentry

theorem safe_withIdempotency (json : Json (StoredResult T) J) (fn : Prog S Err (StoredResult T))
    (ha : Caller i key a) (hs : a.stored = none) (hr : a.released = false) :
    (logic fnStore).Safe i (withIdempotency json key fn) a fun _ _ => True := by
  refine .inl_op (call_claim ha hs hr) ?_ fun e a' h => h.elim
  rintro won a' ⟨ha', hrun⟩
  cases won with
  | true =>
    have hfn : (fn.inr : IdemProg J S _).Calls (logic (J := J) fnStore).Neutral :=
      Prog.calls_inr (Prog.calls_all fn fun o => call_fn o)
    refine safe_tryCatch.mpr (safe_bind.mpr ((safe_of_neutral hfn).mono ?_))
    rintro out a'' rfl
    cases out with
    | ok v => exact .inl_op (call_store ha' (hrun rfl)) (fun _ _ _ => trivial) fun _ _ h => h.elim
    | error e =>
      refine .inl_op (call_release ha' (hrun rfl)) ?_ fun _ _ _ => trivial
      exact fun _ _ _ => trivial
  | false =>
    refine .inl_op (call_read rfl) ?_ fun _ _ _ => trivial
    rintro now a'' rfl
    refine (safe_of_calls (I := fun _ => True) ?_ trivial).mono fun _ _ _ => trivial
    refine (calls_poll json _ _ _).mono fun o ho b _ => ?_
    cases o with
    | inl k => exact (call_read ho).mono fun _ _ _ => trivial
    | inr o => exact ho.elim

end Once

/-- What a caller of the system has done to its key so far. -/
def claimant (t : Thread ((kvSig (Cell J)).sum S) Err (String × X)
    (IdemResult (StoredResult T))) : Claimant :=
  t.account Claimant.post Claimant.first

/-- Every Redis call is answered. -/
def redisAnswers (c : Config ((kvSig (Cell J)).sum S) Err (String × X)
    (IdemResult (StoredResult T)) (Kv (Cell J) × W)) : Act Err (String × X) P Env → Bool
  | .call i f =>
    match c.next i with
    | some (.inl _) => f.isAnswered
    | _ => true
  | _ => true

/-- No claim is taken over from a caller that is still between its own claim and the `SET` or
`DEL` that ends it. -/
def keepsClaims (c : Config ((kvSig (Cell J)).sum S) Err (String × X)
    (IdemResult (StoredResult T)) (Kv (Cell J) × W)) : Act Err (String × X) P Env → Bool
  | .call i _ =>
    match c.next i with
    | some (.inl (.setNx k _ _)) => (c.world.1.live c.now k).isSome ||
        (c.pool.eraseIdx i).all fun u => !(idemKey u.req.1 == k && (claimant u).running)
    | _ => true
  | _ => true

/-- `fn` has run to a good end: its result is stored, or is about to be. -/
def Completed (t : Thread ((kvSig (Cell J)).sum S) Err (String × X)
    (IdemResult (StoredResult T))) : Prop :=
  (claimant t).stored.isSome ∨ ∃ k v ex, t.prog.next = some (.inl (.set k v ex))

/-- Of two good executions under one key, one claimed it when the time to live of the other's
result had passed. -/
def RanOnce (pool : List (Thread ((kvSig (Cell J)).sum S) Err (String × X)
    (IdemResult (StoredResult T)))) : Prop :=
  ∀ t ∈ pool, ∀ u ∈ pool, t.id ≠ u.id → t.req.1 = u.req.1 → Completed t → Completed u →
    (claimant t).Before (claimant u) ∨ (claimant u).Before (claimant t)

namespace Once

open Claimant

theorem account_id (tr : List (Event ((kvSig (Cell J)).sum S) Err)) (a : Claimant) :
    (tr.foldr Claimant.post a).id = a.id ∧ (tr.foldr Claimant.post a).key = a.key := by
  induction tr with
  | nil => exact ⟨rfl, rfl⟩
  | cons e tr ih =>
    have hpost : ∀ b : Claimant, (Claimant.post e b).id = b.id ∧
        (Claimant.post e b).key = b.key := by
      intro b
      obtain ⟨time, op, out⟩ := e
      cases op with
      | inr o => exact ⟨rfl, rfl⟩
      | inl o =>
        cases o with
        | setNx k v ex => rcases out with e | (_ | _) <;> exact ⟨rfl, rfl⟩
        | set k v ex => cases out <;> exact ⟨rfl, rfl⟩
        | del k => cases out <;> exact ⟨rfl, rfl⟩
        | _ => exact ⟨rfl, rfl⟩
    rw [List.foldr_cons, (hpost _).1, (hpost _).2]
    exact ih

theorem outline (json : Json (StoredResult T) J) (fn : X → Prog S Err (StoredResult T))
    (fnStore : Store S W P) (fnEnv : Nat → Env → W → Option W) (n : Nat) (w : W) :
    (idemSystem json fn fnStore fnEnv).Outline
      (fun c a => redisAnswers c a = true ∧ keepsClaims c a = true)
      (.init n (fun _ => none, w)) (logic fnStore) first fun _ _ _ _ => True where
  store := rfl
  start := ⟨rfl, by constructor <;> simp⟩
  arrive := by
    intro c r w' hr _ hacc hinv
    cases hacc
    refine ⟨?_, safe_withIdempotency (a := first c.pool.length r) json (fn r.2) ⟨rfl, rfl⟩ rfl rfl⟩
    apply Inv.arrive hinv _ rfl rfl
    intro b hb
    obtain ⟨t, ht, rfl⟩ := (System.mem_worth fun _ => rfl).mp hb
    obtain ⟨j, hj⟩ := List.mem_iff_getElem?.mp ht
    have hid := hr.id_eq rfl j t hj
    have hlt := (List.getElem?_eq_some_iff.mp hj).1
    have haccount : (t.account Claimant.post first).id = t.id := (account_id _ _).1
    show (t.account Claimant.post first).id ≠ c.pool.length
    omega
  tick := fun s g d h => Inv.later h (Nat.le_add_right _ _)
  env := by
    intro c g e w' _ he hinv
    obtain ⟨v, _, rfl⟩ := Option.map_eq_some_iff.mp he
    exact hinv
  guard := by
    intro c i f t o k hr hok ht hp _
    obtain ⟨hanswers, hclaims⟩ := hok
    have hnext := System.next_eq ht hp
    cases o with
    | inr o => trivial
    | inl o =>
      refine ⟨by simpa [redisAnswers, hnext] using hanswers, ?_⟩
      rintro key v ex rfl hlive b hb hbk
      obtain ⟨u, hu, hub⟩ := (System.mem_worth fun _ => rfl).mp hb
      have hclaimant : claimant u = b := hub
      have hkey : (claimant u).key = u.req.1 := (account_id _ _).2
      have hothers : ∀ x ∈ c.pool.eraseIdx i,
          ¬idemKey x.req.1 = key ∨ (claimant x).running = false := by
        simpa [keepsClaims, hnext, hlive] using hclaims
      rw [← hclaimant] at hbk ⊢
      exact (hothers u hu).resolve_left fun hne => hne (by rw [← hkey]; exact hbk)

variable {json : Json (StoredResult T) J} {fn : X → Prog S Err (StoredResult T)}
  {fnStore : Store S W P} {fnEnv : Nat → Env → W → Option W} {n : Nat} {w₀ : W}
  {c : Config ((kvSig (Cell J)).sum S) Err (String × X) (IdemResult (StoredResult T))
    (Kv (Cell J) × W)}
  {t u : Thread ((kvSig (Cell J)).sum S) Err (String × X) (IdemResult (StoredResult T))}

/-- A caller that has run `fn` to a good end has claimed the key and not given it up. -/
theorem completed_kept [Inhabited P]
    (h : (idemSystem json fn fnStore fnEnv).Reachable
      (fun c a => redisAnswers c a = true ∧ keepsClaims c a = true)
      (.init n (fun _ => none, w₀)) c) (ht : t ∈ c.pool) (hdone : Completed t) :
    (claimant t).kept = true := by
  have hout := outline json fn fnStore fnEnv n w₀
  obtain ⟨hinv, hsafe⟩ := hout.adequate h
  rcases hdone with hstored | ⟨k, v, ex, hnext⟩
  · have hmem : claimant t ∈ System.worth (logic fnStore) first c.pool :=
      (System.mem_worth fun _ => rfl).mpr ⟨t, ht, rfl⟩
    exact Inv.done hinv _ hmem hstored
  · -- the `SET` it is about to make is one that only a caller at work makes
    obtain ⟨i, hi⟩ := List.mem_iff_getElem?.mp ht
    have hrun : (claimant t).running = true := by
      cases hp : t.prog with
      | ret r => rw [hp] at hnext; cases hnext
      | throw e => rw [hp] at hnext; cases hnext
      | call o kont =>
        rw [hp] at hnext
        cases hnext
        have hc := System.next_eq hi hp
        have hok : redisAnswers c (.call i (.answered (default : P)) : Act _ _ P Env) = true ∧
            keepsClaims c (.call i (.answered (default : P)) : Act _ _ P Env) = true := by
          simp [redisAnswers, keepsClaims, hc, Fate.isAnswered]
        exact (hout.pool.next h hok hinv (hsafe t ht) hi hp rfl).2.1.2 k v ex rfl
    simp only [running, Bool.and_eq_true] at hrun
    simp only [kept, Bool.and_eq_true]
    exact ⟨hrun.1.1, hrun.2⟩

end Once

/-- **At most one effect.** In every run in which Redis answers and no claim is taken over from a
caller at work, good executions under one key are a result's time to live apart, and nobody
touches what another caller wrote. -/
theorem ran_once [Inhabited P] {json : Json (StoredResult T) J}
    {fn : X → Prog S Err (StoredResult T)} {fnStore : Store S W P}
    {fnEnv : Nat → Env → W → Option W} {n : Nat} {w₀ : W}
    {c : Config ((kvSig (Cell J)).sum S) Err (String × X) (IdemResult (StoredResult T))
      (Kv (Cell J) × W)}
    (h : (idemSystem json fn fnStore fnEnv).Reachable
      (fun c a => redisAnswers c a = true ∧ keepsClaims c a = true)
      (.init n (fun _ => none, w₀)) c) :
    RanOnce c.pool ∧ ∀ a c', redisAnswers c a = true ∧ keepsClaims c a = true →
      (idemSystem json fn fnStore fnEnv).step c a = some c' →
      ∀ k e, c.world.1.live c.now k = some e → (∀ f, a ≠ .call e.writer f) →
        c'.world.1 k = some e := by
  have hout := Once.outline json fn fnStore fnEnv n w₀
  constructor
  · intro t ht u hu hne hkey htdone hudone
    obtain ⟨hinv, -⟩ := hout.adequate h
    have hmem : ∀ x ∈ c.pool, claimant x ∈ System.worth (Once.logic fnStore) Claimant.first c.pool :=
      fun x hx => (System.mem_worth fun _ => rfl).mpr ⟨x, hx, rfl⟩
    have hids : ∀ x : Thread ((kvSig (Cell J)).sum S) Err (String × X) (IdemResult (StoredResult T)),
        (claimant x).id = x.id ∧ (claimant x).key = x.req.1 := fun x => Once.account_id _ _
    apply Once.Inv.apart hinv _ (hmem t ht) _ (hmem u hu)
    · rw [(hids t).1, (hids u).1]
      exact hne
    · rw [(hids t).2, (hids u).2]
      exact hkey
    · exact Once.completed_kept h ht htdone
    · exact Once.completed_kept h hu hudone
  · intro a c' hok hs k e he hne
    have hentry := (Kv.live_eq_some.mp he).1
    cases a with
    | arrive r =>
      simp only [System.step, Option.map_eq_some_iff] at hs
      obtain ⟨w, hw, rfl⟩ := hs
      cases hw
      exact hentry
    | call i f =>
      obtain ⟨t, o, ht, -, hg, -⟩ := hout.guaranteed h hok hs
      refine hg k e he fun hwriter => hne f ?_
      rw [hwriter, h.id_eq rfl i t ht]
    | tick d => cases hs; exact hentry
    | env x =>
      simp only [System.step, Option.map_eq_some_iff] at hs
      obtain ⟨w, hw, rfl⟩ := hs
      obtain ⟨v, -, rfl⟩ := Option.map_eq_some_iff.mp hw
      exact hentry

/-! Callers whose `fn` makes one call and answers 201. -/

abbrev workSig : Sig := ⟨Unit, fun _ => Unit⟩

def workFn (_ : Unit) : Prog workSig Err (StoredResult Unit) := do
  @Prog.op workSig Err ()
  return ⟨201, ()⟩

def workSystem : System ((kvSig (Cell (StoredResult Unit))).sum workSig) Err (String × Unit)
    (IdemResult (StoredResult Unit)) (Kv (Cell (StoredResult Unit)) × Unit) Unit Empty :=
  idemSystem ⟨id, id⟩ workFn (fun _ _ _ _ w => some ((), w)) fun _ _ => some

def workCalls (i n : Nat) : List (Act Err (String × Unit) Unit Empty) :=
  List.replicate n (.call i (.answered ()))

/-- A duplicate is replayed; a day later the key runs `fn` again. -/
theorem ran_once_replayed :
    ∃ c, workSystem.Reachable (fun c a => redisAnswers c a = true ∧ keepsClaims c a = true)
        (.init 0 (fun _ => none, ())) c ∧
      c.pool.map (fun t => (t.prog.result.bind Except.toOption).map (·.replayed)) =
        [some false, some true, some false] ∧
      RanOnce c.pool := by
  have hrun : (workSystem.run (fun c a => redisAnswers c a && keepsClaims c a)
      (.init 0 (fun _ => none, ())) (.arrive ("k", ()) :: workCalls 0 3 ++
        .arrive ("k", ()) :: workCalls 1 4 ++ .tick resultTtl ::
        .arrive ("k", ()) :: workCalls 2 3)).map (fun c =>
          c.pool.map (fun t => (t.prog.result.bind Except.toOption).map (·.replayed))) =
      some [some false, some true, some false] := by decide
  obtain ⟨c, hc, hs⟩ := Option.map_eq_some_iff.mp hrun
  have hr : workSystem.Reachable (fun c a => redisAnswers c a = true ∧ keepsClaims c a = true) _ c :=
    (System.Reachable.of_run hc).mono fun c a hok => by simpa using hok
  exact ⟨c, hr, hs, (ran_once hr).1⟩

/-- The first execution is still at work when its claim expires. The second claims the key, and both
store a result. -/
theorem ran_twice :
    ¬∀ c, workSystem.Reachable (fun c a => redisAnswers c a = true)
      (.init 0 (fun _ => none, ())) c → RanOnce c.pool := by
  have hrun : (workSystem.run redisAnswers (.init 0 (fun _ => none, ()))
      (.arrive ("k", ()) :: .arrive ("k", ()) :: workCalls 0 1 ++
        .tick (LOCK_TTL_SECONDS * 1000) :: workCalls 1 3 ++ workCalls 0 2)).map (fun c =>
          c.pool.map fun t => (t.id, t.req.1, (claimant t).claimed, (claimant t).stored)) =
      some [(0, "k", some 0, some 30000), (1, "k", some 30000, some 30000)] := by decide
  obtain ⟨c, hc, hs⟩ := Option.map_eq_some_iff.mp hrun
  obtain ⟨t, rest, hpool, ht, hs⟩ := List.map_eq_cons_iff.mp hs
  obtain ⟨u, rest', rfl, hu, -⟩ := List.map_eq_cons_iff.mp hs
  simp only [Prod.mk.injEq] at ht hu
  obtain ⟨htid, htkey, htclaimed, htstored⟩ := ht
  obtain ⟨huid, hukey, huclaimed, hustored⟩ := hu
  intro h
  have honce := h c (.of_run hc) t (by simp [hpool]) u (by simp [hpool]) (by omega)
    (by rw [htkey, hukey]) (.inl (by simp [htstored])) (.inl (by simp [hustored]))
  have hlt : 30000 < 30000 + resultTtl := Nat.lt_add_of_pos_right (by decide)
  rcases honce with hbefore | hbefore
  · exact Claimant.not_before htstored huclaimed hlt hbefore
  · exact Claimant.not_before hustored htclaimed (Nat.zero_lt_of_lt hlt) hbefore

end Flashkart
