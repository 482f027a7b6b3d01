import Flashkart.Once
import Flashkart.Async.Replay
import Flashkart.Async.Typestate

/-!
# Flashkart.Attempt

A call of `withIdempotency` as its Redis calls show it, when these may throw. An attempt that has
claimed its key leaves an entry there until it deletes it or the entry expires: its claim, or, once
the `SET` went through, its result (`Good`). Two attempts whose entries both stay are a time to
live apart (`Apart`).

`Reopen` and `Agree` read their theorems off this invariant.
-/

namespace Flashkart

open Async Logic

variable {S : Sig} {T J X W P Env : Type}

/-- The time to live of a claim, in milliseconds. -/
def lockTtl : Nat := LOCK_TTL_SECONDS * 1000

/-- `own` are the calls `fn` has made, latest first; `ended` says that the `SET` went through or the
`DEL` was made; `seen` is what polling found. -/
structure Attempt (S : Sig) (X J : Type) where
  id : Nat
  key : String
  arg : X
  claimed : Option Nat
  own : List (Event S Err)
  resolved : Bool
  stored : Option (Nat × J)
  deleted : Bool
  ended : Bool
  seen : Option J

namespace Attempt

def first (id : Nat) (r : String × X) : Attempt S X J :=
  ⟨id, r.1, r.2, none, [], false, none, false, false, none⟩

def kvPost (time : Nat) : (o : KvOp (Cell J)) → Except Err o.Ret → Attempt S X J → Attempt S X J
  | .setNx .., .ok true, a => { a with claimed := some time }
  | .set _ (.result j) _, .ok _, a =>
    { a with resolved := true, stored := some (time, j), ended := true }
  | .set .., _, a => { a with resolved := true }
  | .del _, .ok _, a => { a with deleted := true, ended := true }
  | .del _, .error _, a => { a with ended := true }
  | .get _, .ok (some (.result j)), a => { a with seen := some j }
  | _, _, a => a

def post : Event ((kvSig (Cell J)).sum S) Err → Attempt S X J → Attempt S X J
  | ⟨time, .inl o, out⟩, a => kvPost time o out a
  | ⟨time, .inr o, out⟩, a => { a with own := ⟨time, o, out⟩ :: a.own }

/-- Between its claim and the `SET` or `DEL` that ends it. -/
def atWork (a : Attempt S X J) : Bool := a.claimed.isSome && !a.ended

/-- Has claimed the key, and not deleted its entry. -/
def kept (a : Attempt S X J) : Bool := a.claimed.isSome && !a.deleted

def cell (a : Attempt S X J) : Cell J :=
  match a.stored with
  | some (_, j) => .result j
  | none => .pending

/-- When its entry runs out. -/
def expiry (a : Attempt S X J) : Nat :=
  match a.stored with
  | some (σ, _) => σ + resultTtl
  | none => a.claimed.getD 0 + lockTtl

/-- `b` claimed the key when the entry of `a` had run out. -/
def Before (a b : Attempt S X J) : Prop :=
  a.ended = true ∧ ∃ κ, b.claimed = some κ ∧ a.expiry ≤ κ

/-- At work on `fn`, of which the calls `own` have been made. -/
def working (id : Nat) (r : String × X) (κ : Nat) (own : List (Event S Err)) : Attempt S X J :=
  { (first id r : Attempt S X J) with claimed := some κ, own := own }

/-! ## The invariant -/

structure Good (json : Json (StoredResult T) J) (fn : X → Prog S Err (StoredResult T))
    (kv : Kv (Cell J)) (now : Nat) (a : Attempt S X J) : Prop where
  past : ∀ κ, a.claimed = some κ → κ ≤ now
  entry : a.kept = true → kv (idemKey a.key) = some ⟨a.cell, a.expiry, a.id⟩ ∨
    (a.ended = true ∧ a.expiry ≤ now)
  stores : ∀ σ j, a.stored = some (σ, j) →
    a.claimed.isSome = true ∧ ∃ v, Runs (fn a.arg) a.own (.ret v) ∧ j = json.stringify v
  gaveUp : a.deleted = true → a.ended = true ∧ ∃ e, Runs (fn a.arg) a.own (.throw e)

def Apart (a b : Attempt S X J) : Prop :=
  a.id ≠ b.id ∧ (a.key = b.key → a.kept = true → b.kept = true → a.Before b ∨ b.Before a)

instance : Std.Symm (Apart (S := S) (X := X) (J := J)) where
  symm := fun _ _ h => ⟨h.1.symm, fun hk ha hb => (h.2 hk.symm hb ha).symm⟩

/-- A result under a key, or seen there, is one that an attempt of that key has stored. -/
structure Inv (json : Json (StoredResult T) J) (fn : X → Prog S Err (StoredResult T))
    (kv : Kv (Cell J)) (now : Nat) (m : Multiset (Attempt S X J)) : Prop where
  bag : Bag (Good json fn kv now) Apart m
  known : ∀ k e j, kv k = some e → e.value = .result j →
    ∃ b ∈ m, idemKey b.key = k ∧ ∃ σ, b.stored = some (σ, j)
  seen : ∀ a ∈ m, ∀ j, a.seen = some j → ∃ b ∈ m, b.key = a.key ∧ ∃ σ, b.stored = some (σ, j)

theorem idemKey_inj {a b : String} : idemKey a = idemKey b ↔ a = b := by
  simp [idemKey]

variable {json : Json (StoredResult T) J} {fn : X → Prog S Err (StoredResult T)}
  {kv kv' : Kv (Cell J)} {now now' : Nat} {a a' b : Attempt S X J} {m g : Multiset (Attempt S X J)}

theorem Good.later (h : Good json fn kv now a) (hle : now ≤ now') : Good json fn kv now' a := by
  refine ⟨fun κ hκ => ?_, fun hk => ?_, h.stores, h.gaveUp⟩
  · have := h.past κ hκ
    omega
  · rcases h.entry hk with hentry | ⟨hended, hexp⟩
    · exact .inl hentry
    · exact .inr ⟨hended, by omega⟩

theorem Inv.later (h : Inv json fn kv now m) (hle : now ≤ now') : Inv json fn kv now' m :=
  ⟨⟨fun a ha => (h.bag.each a ha).later hle, h.bag.pair⟩, h.known, h.seen⟩

/-- A write under a key whose entry is nobody else's any more. -/
theorem Good.write (h : Good json fn kv now b) {key : String}
    (hsame : ∀ k, k ≠ idemKey key → kv' k = kv k)
    (hended : b.key = key → b.kept = true → b.ended = true ∧ b.expiry ≤ now) :
    Good json fn kv' now b := by
  refine ⟨h.past, fun hk => ?_, h.stores, h.gaveUp⟩
  by_cases hkey : b.key = key
  · exact .inr (hended hkey hk)
  · rw [hsame _ fun heq => hkey (idemKey_inj.mp heq)]
    exact h.entry hk

/-- While an attempt is at work, no other entry of its key is left. -/
theorem Apart.expired (h : Apart a b) (ha : Good json fn kv now a) (hwork : a.atWork = true)
    (hdel : a.deleted = false) (hkey : b.key = a.key) (hb : b.kept = true) :
    b.ended = true ∧ b.expiry ≤ now := by
  simp only [atWork, Bool.and_eq_true, Bool.not_eq_true'] at hwork
  have hkept : a.kept = true := by simp [kept, hwork.1, hdel]
  rcases h.2 hkey.symm hkept hb with ⟨hended, -⟩ | ⟨hended, κ, hκ, hle⟩
  · rw [hwork.2] at hended
    cases hended
  · exact ⟨hended, hle.trans (ha.past κ hκ)⟩

theorem Inv.arrive (h : Inv json fn kv now m) {i : Nat} {r : String × X}
    (hnew : ∀ b ∈ m, b.id ≠ i) : Inv json fn kv now ({first i r} + m) := by
  have hmem : ∀ b ∈ m, b ∈ ({first i r} + m : Multiset (Attempt S X J)) :=
    fun b hb => Multiset.mem_add.mpr (.inr hb)
  refine ⟨Bag.singleton_add.mpr ⟨⟨?_, ?_, ?_, ?_⟩, ?_, h.bag⟩, ?_, ?_⟩
  · intro κ hκ
    cases hκ
  · intro hk
    cases hk
  · intro σ j hs
    cases hs
  · intro hd
    cases hd
  · exact fun b hb => ⟨(hnew b hb).symm, fun _ hk => by cases hk⟩
  · intro k e j he hj
    obtain ⟨b, hb, hrest⟩ := h.known k e j he hj
    exact ⟨b, hmem b hb, hrest⟩
  · intro a ha j hj
    rcases Multiset.mem_add.mp ha with ha | ha
    · rw [Multiset.mem_singleton.mp ha] at hj
      cases hj
    · obtain ⟨b, hb, hrest⟩ := h.seen a ha j hj
      exact ⟨b, hmem b hb, hrest⟩

/-- A step of one attempt: the bag, and where the results it adds or sees come from. -/
theorem Inv.step (h : Inv json fn kv now ({a} + g)) (hbag : Bag (Good json fn kv' now) Apart ({a'} + g))
    (hkey : a'.key = a.key) (hstored : ∀ x, a.stored = some x → a'.stored = some x)
    (hknown : ∀ k e j, kv' k = some e → e.value = .result j →
      kv k = some e ∨ (k = idemKey a.key ∧ ∃ σ, a'.stored = some (σ, j)))
    (hseen : ∀ j, a'.seen = some j → a.seen = some j ∨
      ∃ e, kv (idemKey a.key) = some e ∧ e.value = .result j) : Inv json fn kv' now ({a'} + g) := by
  have hin : a' ∈ ({a'} + g : Multiset (Attempt S X J)) := by simp
  -- whoever had stored a result still has
  have hstill : ∀ b ∈ ({a} + g : Multiset (Attempt S X J)), ∀ σ j, b.stored = some (σ, j) →
      ∃ b' ∈ ({a'} + g : Multiset (Attempt S X J)), b'.key = b.key ∧
        ∃ σ, b'.stored = some (σ, j) := by
    intro b hb σ j hσ
    rcases Multiset.mem_add.mp hb with hb | hb
    · rw [Multiset.mem_singleton.mp hb] at hσ ⊢
      exact ⟨a', hin, hkey, σ, hstored _ hσ⟩
    · exact ⟨b, Multiset.mem_add.mpr (.inr hb), rfl, σ, hσ⟩
  refine ⟨hbag, fun k e j he hj => ?_, fun b hb j hj => ?_⟩
  · rcases hknown k e j he hj with he | ⟨rfl, σ, hσ⟩
    · obtain ⟨b, hb, hk, σ, hσ⟩ := h.known k e j he hj
      obtain ⟨b', hb', hk', hrest⟩ := hstill b hb σ j hσ
      exact ⟨b', hb', by rw [hk', hk], hrest⟩
    · exact ⟨a', hin, by rw [hkey], σ, hσ⟩
  · rcases Multiset.mem_add.mp hb with hb | hb
    · rw [Multiset.mem_singleton.mp hb] at hj ⊢
      rw [hkey]
      rcases hseen j hj with hj | ⟨e, he, hej⟩
      · obtain ⟨b', hb', hk, σ, hσ⟩ := h.seen a (by simp) j hj
        obtain ⟨b'', hb'', hk', hrest⟩ := hstill b' hb' σ j hσ
        exact ⟨b'', hb'', hk'.trans hk, hrest⟩
      · obtain ⟨b', hb', hk, σ, hσ⟩ := h.known _ e j he hej
        obtain ⟨b'', hb'', hk', hrest⟩ := hstill b' hb' σ j hσ
        exact ⟨b'', hb'', hk'.trans (idemKey_inj.mp hk), hrest⟩
    · obtain ⟨b', hb', hk, σ, hσ⟩ := h.seen b (Multiset.mem_add.mpr (.inr hb)) j hj
      obtain ⟨b'', hb'', hk', hrest⟩ := hstill b' hb' σ j hσ
      exact ⟨b'', hb'', hk'.trans hk, hrest⟩

/-! ## Calls -/

/-- Redis calls fail without effect, and not at all if `strict`; a free key is claimed only when
nobody is at work for it; nobody whose `fn` has resolved deletes the key (no condition if
`strict`: no `SET` fails then). -/
def guard (strict : Bool) (_ : Nat) (a : Attempt S X J) (g : Multiset (Attempt S X J))
    (s : Shared ((kvSig (Cell J)).sum S) Err (Kv (Cell J) × W)) :
    ((kvSig (Cell J)).sum S).Op → Fate Err P → Prop
  | .inl o, f => (∀ e p, f ≠ .lost e p) ∧ (strict = true → f.isAnswered = true) ∧
      (f.isAnswered = true → (∀ key v ex, o = .setNx key v ex →
          s.world.1.live s.now key = none → ∀ b ∈ g, idemKey b.key = key → b.atWork = false) ∧
        (strict = false → ∀ key, o = .del key → a.resolved = false))
  | .inr _, _ => True

def logic (strict : Bool) (json : Json (StoredResult T) J)
    (fn : X → Prog S Err (StoredResult T)) (fnStore : Store S W P) :
    Logic ((kvSig (Cell J)).sum S) Err (Kv (Cell J) × W) P (Attempt S X J)
      (Multiset (Attempt S X J)) where
  store := kvStore.sum fnStore
  guard := guard strict
  inv := fun s m => Inv json fn s.world.1 s.now m
  post := post
  val := fun a => {a}
  guarantee := fun _ a _ o _ => ∀ o', o = .inl o' → ∀ k, o'.key? = some k → k = idemKey a.key

variable {strict : Bool} {fnStore : Store S W P} {i : Nat} {r : String × X}

/-- What is to be shown of a Redis call, when it is answered and when it throws. -/
theorem call_own {o : KvOp (Cell J)} {R : Except Err o.Ret → Attempt S X J → Prop}
    (hans : ∀ (kv kv' : Kv (Cell J)) (now : Nat) (g : Multiset (Attempt S X J)) (p : P)
      (v : o.Ret), Inv json fn kv now ({a} + g) → kvStore now i o p kv = some (v, kv') →
      (∀ key v ex, o = .setNx key v ex → kv.live now key = none →
        ∀ b ∈ g, idemKey b.key = key → b.atWork = false) →
      (strict = false → ∀ key, o = .del key → a.resolved = false) →
      Inv json fn kv' now ({kvPost now o (.ok v) a} + g) ∧ R (.ok v) (kvPost now o (.ok v) a))
    (herr : ∀ (kv : Kv (Cell J)) (now : Nat) (g : Multiset (Attempt S X J)) (e : Err),
      strict = false → Inv json fn kv now ({a} + g) →
      Inv json fn kv now ({kvPost now o (.error e) a} + g) ∧ R (.error e) (kvPost now o (.error e) a))
    (hkey : ∀ k, o.key? = some k → k = idemKey a.key) :
    (logic strict json fn fnStore).Call i a (.inl o) R := by
  intro s g f out w hinv hg hx
  obtain ⟨hlost, hstrict, hfree⟩ := hg
  obtain ⟨hx, -⟩ := Store.exec_sum_inl (f := kvStore) (g := fnStore) (o := o) hx
  have hown : ∀ o', (Sum.inl o : KvOp (Cell J) ⊕ S.Op) = .inl o' → ∀ k, o'.key? = some k →
      k = idemKey a.key := fun o' ho => Sum.inl.inj ho ▸ hkey
  cases f with
  | answered p =>
    obtain ⟨⟨v, kv⟩, hs, heq⟩ := Option.map_eq_some_iff.mp hx
    obtain ⟨rfl, rfl⟩ := Prod.mk.inj heq
    obtain ⟨hclaim, hdel⟩ := hfree rfl
    obtain ⟨h1, h2⟩ := hans s.world.1 w.1 s.now g p v hinv hs hclaim hdel
    exact ⟨h1, hown, h2⟩
  | failed e =>
    obtain ⟨rfl, hw⟩ := Prod.mk.inj (Option.some.inj hx)
    have hno : strict = false := by
      cases strict with
      | false => rfl
      | true => cases hstrict rfl
    obtain ⟨h1, h2⟩ := herr s.world.1 s.now g e hno hinv
    refine ⟨?_, hown, h2⟩
    show Inv json fn w.1 s.now _
    rw [← hw]
    exact h1
  | lost e p => exact absurd rfl (hlost e p)

/-- A call that changes no key, made by an attempt that has nothing to lose by it. -/
theorem Inv.keep (h : Inv json fn kv now ({a} + g)) (hgood : Good json fn kv now a → Good json fn kv now a')
    (hid : a'.id = a.id) (hkey : a'.key = a.key) (hkept : a'.kept = a.kept)
    (hbefore : ∀ b : Attempt S X J, a.Before b ∨ b.Before a → a'.Before b ∨ b.Before a')
    (hstored : a'.stored = a.stored) (hseen : ∀ j, a'.seen = some j → a.seen = some j ∨
      ∃ e, kv (idemKey a.key) = some e ∧ e.value = .result j) :
    Inv json fn kv now ({a'} + g) := by
  refine h.step (h.bag.step (hgood (h.bag.each a (by simp))) fun b _ hb hab => ⟨hb, ?_⟩) hkey
    (fun x hx => hstored.trans hx) (fun k e j he _ => .inl he) hseen
  refine ⟨hid ▸ hab.1, fun hk ha' hb' => hbefore b ?_⟩
  exact hab.2 (hkey ▸ hk) (hkept ▸ ha') hb'

theorem call_claim : (logic strict json fn fnStore).Call i (first i r)
    (.inl (.setNx (idemKey r.1) .pending LOCK_TTL_SECONDS))
      (Ends (fun (won : Bool) a => if won = true then ∃ κ, a = working i r κ [] else a = first i r)
        fun a => strict = false ∧ a = first i r) := by
  refine call_own (fun kv kv' now g p v hinv hx hfree _ => ?_)
    (fun kv now g e hno hinv => ⟨hinv, hno, rfl⟩) fun k he => (Option.some.inj he).symm
  simp only [kvStore] at hx
  split at hx
  · cases hx
    exact ⟨hinv, rfl⟩
  · rename_i hlive
    cases hx
    -- whoever claimed the key before is at work no more, and its entry has run out
    have hover : ∀ b ∈ g, Good json fn kv now b → b.key = r.1 → b.kept = true →
        b.ended = true ∧ b.expiry ≤ now := by
      intro b hb hgood hkey hkept
      have hrest := hfree _ _ _ rfl hlive b hb (congrArg idemKey hkey)
      have hended : b.ended = true := by
        simp only [kept, Bool.and_eq_true] at hkept
        simpa [atWork, hkept.1] using hrest
      refine ⟨hended, ?_⟩
      rcases hgood.entry hkept with hentry | ⟨-, hle⟩
      · by_contra hlt
        rw [hkey] at hentry
        rw [Kv.live_eq_some.mpr ⟨hentry, Nat.lt_of_not_le hlt⟩] at hlive
        cases hlive
      · exact hle
    refine ⟨hinv.step (hinv.bag.step ⟨?_, ?_, ?_, ?_⟩ fun b hb hgood hab => ?_) rfl ?_ ?_ ?_,
      now, rfl⟩
    · intro κ hκ
      cases hκ
      exact le_rfl
    · exact fun _ => .inl (Function.update_self ..)
    · intro σ j hs
      cases hs
    · intro hd
      cases hd
    · refine ⟨hgood.write (fun k hk => Function.update_of_ne hk _ _) (hover b hb hgood),
        hab.1, fun hkey _ hkept => .inr ?_⟩
      obtain ⟨hended, hle⟩ := hover b hb hgood hkey.symm hkept
      exact ⟨hended, now, rfl, hle⟩
    · exact fun x hx => by cases hx
    · intro k e j he hj
      rcases Kv.put_eq_some.mp he with ⟨-, rfl⟩ | ⟨-, he⟩
      · cases hj
      · exact .inl he
    · exact fun j hj => by cases hj

/-- The `SET` of a result over the attempt's own claim. -/
theorem call_store {κ : Nat} {own : List (Event S Err)} {v : StoredResult T}
    (hruns : Runs (fn r.2) own (.ret v)) :
    (logic strict json fn fnStore).Call i (working i r κ own)
      (.inl (.set (idemKey r.1) (.result (json.stringify v)) RESULT_TTL_SECONDS))
      (Ends (fun _ a => ∃ σ, a =
          { (working i r κ own : Attempt S X J) with
            resolved := true, stored := some (σ, json.stringify v), ended := true })
        fun a => strict = false ∧ a = { (working i r κ own : Attempt S X J) with resolved := true }) := by
  refine call_own (fun kv kv' now g p v hinv hx _ _ => ?_) (fun kv now g e hno hinv => ?_)
    fun k he => (Option.some.inj he).symm
  · cases hx
    have hgood := hinv.bag.each (working i r κ own) (by simp)
    refine ⟨hinv.step (hinv.bag.step ⟨hgood.past, ?_, ?_, ?_⟩ fun b hb hb' hab => ?_) rfl ?_ ?_ ?_,
      now, rfl⟩
    · exact fun _ => .inl (Function.update_self ..)
    · intro σ j hs
      cases hs
      exact ⟨rfl, _, hruns, rfl⟩
    · intro hd
      cases hd
    · have hexp := hab.expired hgood rfl rfl
      refine ⟨hb'.write (fun k hk => Function.update_of_ne hk _ _) hexp, hab.1,
        fun hkey _ hkept => .inr ?_⟩
      rcases hab.2 hkey rfl hkept with ⟨hended, -⟩ | hbefore
      · cases hended
      · exact hbefore
    · exact fun x hx => by cases hx
    · intro k e j' he hj
      rcases Kv.put_eq_some.mp he with ⟨rfl, rfl⟩ | ⟨-, he⟩
      · cases hj
        exact .inr ⟨rfl, now, rfl⟩
      · exact .inl he
    · exact fun j hj => by cases hj
  · refine ⟨hinv.keep (fun h => ⟨h.past, h.entry, h.stores, h.gaveUp⟩) rfl rfl rfl (fun b h => h)
      rfl fun j hj => .inl hj, hno, rfl⟩

/-- The `DEL` after `fn` threw, or after its result could not be stored. -/
theorem call_release {κ : Nat} {own : List (Event S Err)} (resolved : Bool)
    (hend : (resolved = true ∧ strict = false) ∨ ∃ e, Runs (fn r.2) own (.throw e)) :
    (logic strict json fn fnStore).Call i
      { (working i r κ own : Attempt S X J) with resolved := resolved }
      (.inl (.del (idemKey r.1))) fun out a =>
        (∀ e, out = .error e → strict = false) ∧ a.claimed = some κ ∧ a.own = own ∧
          (∀ u, out = .ok u → a.deleted = true) := by
  refine call_own (fun kv kv' now g p v hinv hx _ hdel => ?_) (fun kv now g e hno hinv => ?_)
    fun k he => (Option.some.inj he).symm
  · cases hx
    have hgood := hinv.bag.each _ (Multiset.mem_add.mpr (.inl (Multiset.mem_singleton_self _)))
    refine ⟨hinv.step (hinv.bag.step ⟨hgood.past, ?_, ?_, ?_⟩ fun b hb hb' hab => ?_) rfl ?_ ?_ ?_,
      (fun e he => by cases he), rfl, rfl, fun _ _ => rfl⟩
    · intro hk
      cases hk
    · intro σ j hs
      cases hs
    · refine fun _ => ⟨rfl, hend.resolve_left fun ⟨hres, hno⟩ => ?_⟩
      have hfalse : resolved = false := hdel hno _ rfl
      rw [hres] at hfalse
      cases hfalse
    · have hexp := hab.expired hgood rfl rfl
      refine ⟨hb'.write (fun k hk => Function.update_of_ne hk _ _) hexp, hab.1, ?_⟩
      intro _ hk
      cases hk
    · exact fun x hx => hx
    · exact fun k e j he _ => .inl (Kv.erase_eq_some.mp he).2
    · exact fun j hj => by cases hj
  · -- the claim stays until it runs out
    refine ⟨hinv.keep (fun h => ⟨h.past, fun hk => ?_, ?_, ?_⟩) rfl rfl rfl (fun b hb => ?_) rfl
      (fun j hj => .inl hj), (fun _ _ => hno), rfl, rfl, fun u hu => by cases hu⟩
    · rcases h.entry hk with hentry | ⟨hended, -⟩
      · exact .inl hentry
      · cases hended
    · intro σ j hs
      cases hs
    · intro hd
      cases hd
    · rcases hb with ⟨hended, -⟩ | hbefore
      · cases hended
      · exact .inr hbefore

/-- A call that reads; a caller that waits may see a result by it. -/
theorem call_read {o : KvOp (Cell J)} (ho : o.writes = false)
    (hkey : ∀ k, o.key? = some k → k = idemKey a.key) :
    (logic strict json fn fnStore).Call i a (.inl o) fun out a' =>
      (∀ e, out = .error e → strict = false) ∧ ∃ time, a' = kvPost time o out a := by
  have hstay : ∀ time out, ∃ seen, kvPost time o out a = { a with seen := seen } := by
    intro time out
    cases o with
    | get k => rcases out with e | (_ | _ | j) <;> exact ⟨_, rfl⟩
    | dateNow => exact ⟨_, rfl⟩
    | sleepUntil t => exact ⟨_, rfl⟩
    | _ => cases ho
  have hkeep : ∀ {kv : Kv (Cell J)} {now : Nat} {g : Multiset (Attempt S X J)} {out},
      (∀ j, (kvPost now o out a).seen = some j → a.seen = some j ∨
        ∃ e, kv (idemKey a.key) = some e ∧ e.value = .result j) →
      Inv json fn kv now ({a} + g) → Inv json fn kv now ({kvPost now o out a} + g) := by
    intro kv now g out hseen hinv
    obtain ⟨seen, ha'⟩ := hstay now out
    rw [ha'] at hseen ⊢
    exact hinv.keep (fun h => ⟨h.past, h.entry, h.stores, h.gaveUp⟩) rfl rfl rfl (fun b h => h) rfl hseen
  refine call_own (fun kv kv' now g p v hinv hx _ _ => ?_) (fun kv now g e hno hinv => ?_) hkey
  · obtain rfl := kvStore_reads ho hx
    refine ⟨hkeep (fun j hj => ?_) hinv, (fun e he => by cases he), now, rfl⟩
    cases o with
    | get k =>
      obtain rfl := hkey k rfl
      cases hx
      cases hlive : kv'.live now (idemKey a.key) with
      | none => rw [hlive] at hj; exact .inl hj
      | some e =>
        rw [hlive] at hj
        obtain ⟨c, ex, writer⟩ := e
        cases c with
        | pending => exact .inl hj
        | result j' =>
          cases hj
          exact .inr ⟨_, (Kv.live_eq_some.mp hlive).1, rfl⟩
    | dateNow => exact .inl hj
    | sleepUntil t => exact .inl hj
    | _ => cases ho
  · refine ⟨hkeep (fun j hj => ?_) hinv, fun _ _ => hno, now, rfl⟩
    cases o <;> first | exact .inl hj | cases ho

/-- A call of `fn` touches no key. -/
theorem call_fn {κ : Nat} {own : List (Event S Err)} {o : S.Op}
    {k : Except Err (S.Ret o) → Prog S Err (StoredResult T)}
    (hruns : Runs (fn r.2) own (.call o k)) :
    (logic strict json fn fnStore).Call i (working i r κ own) (.inr o) fun out a =>
      ∃ own', a = working i r κ own' ∧ Runs (fn r.2) own' (k out) := by
  intro s g f out w hinv hg hx
  have hw : w.1 = s.world.1 := (Store.exec_sum_inr (f := kvStore) (g := fnStore) hx).2
  have hnext : Runs (fn r.2) (⟨s.now, o, out⟩ :: own) (k out) := Runs.call (S := S) s.now out hruns
  refine ⟨?_, (fun o' he => by cases he), ⟨s.now, o, out⟩ :: own, rfl, hnext⟩
  show Inv json fn w.1 s.now ({working i r κ (⟨s.now, o, out⟩ :: own)} + g)
  rw [hw]
  exact hinv.keep (fun h => ⟨h.past, h.entry, (fun _ _ hs => by cases hs), fun hd => by cases hd⟩) rfl rfl rfl (fun b h => h)
    rfl fun j hj => .inl hj

/-! ## The wrapper -/

theorem safe_fn {κ : Nat} {own : List (Event S Err)} {p : Prog S Err (StoredResult T)}
    (hruns : Runs (fn r.2) own p) :
    (logic strict json fn fnStore).Safe i p.inr (working i r κ own) fun out a =>
      ∃ own', a = working i r κ own' ∧ Runs (fn r.2) own' (.ofExcept out) := by
  induction p generalizing own with
  | ret v => exact ⟨own, rfl, hruns⟩
  | throw e => exact ⟨own, rfl, hruns⟩
  | call o k ih =>
    refine (call_fn hruns).mono ?_
    rintro out a ⟨own', rfl, hruns'⟩
    exact ih out hruns'

/-- How a call of the wrapper ends: with the result of its own `fn`, stored; with one that it
found; with the error of its own `fn`, the claim deleted; or with a timeout. -/
def Outcome (json : Json (StoredResult T) J) (fn : X → Prog S Err (StoredResult T)) (strict : Bool)
    (r : String × X) : Except Err (IdemResult (StoredResult T)) → Attempt S X J → Prop
  | .ok ⟨false, v⟩, a => a.claimed.isSome = true ∧ Runs (fn r.2) a.own (.ret v) ∧
      ∃ σ, a.stored = some (σ, json.stringify v)
  | .ok ⟨true, v⟩, a => a.claimed = none ∧ ∃ j, a.seen = some j ∧ v = json.parse j
  | .error e, a => strict = false ∨
      (a.claimed.isSome = true ∧ a.deleted = true ∧ Runs (fn r.2) a.own (.throw e)) ∨
      (a.claimed = none ∧ e = waitTimeout)

theorem safe_poll (json : Json (StoredResult T) J) (deadline n : Nat) {seen : Option J} :
    (logic strict json fn fnStore).Safe i (poll json (idemKey r.1) deadline n)
      { (first i r : Attempt S X J) with seen := seen } (Outcome json fn strict r) := by
  induction n generalizing seen with
  | zero => exact .inr (.inr ⟨rfl, rfl⟩)
  | succ n ih =>
    refine .inl_op (call_read rfl (fun k he => by cases he)) ?_ fun e a h => .inl (h.1 e rfl)
    rintro now a ⟨-, _, rfl⟩
    split
    · refine .inl_op (call_read rfl (fun k he => (Option.some.inj he).symm)) ?_
        fun e a h => .inl (h.1 e rfl)
      rintro existing a ⟨-, _, rfl⟩
      have hsleep : ∀ seen', (logic strict json fn fnStore).Safe i
          (Idem.sleep POLL_INTERVAL_MS >>= fun _ => poll json (idemKey r.1) deadline n)
          { (first i r : Attempt S X J) with seen := seen' } (Outcome json fn strict r) := by
        intro seen'
        refine safe_bind.mpr (.inl_op (call_read rfl (fun k he => by cases he)) ?_
          fun e a h => .inl (h.1 e rfl))
        rintro t a ⟨-, _, rfl⟩
        refine (call_read rfl (fun k he => by cases he)).mono ?_
        rintro (e | u) a ⟨hno, _, rfl⟩
        · exact .inl (hno e rfl)
        · exact ih
      rcases existing with _ | (_ | j)
      · exact hsleep seen
      · exact hsleep seen
      · exact ⟨rfl, j, rfl, rfl⟩
    · exact .inr (.inr ⟨rfl, rfl⟩)

theorem safe_withIdempotency (json : Json (StoredResult T) J) :
    (logic strict json fn fnStore).Safe i (withIdempotency json r.1 (fn r.2)) (first i r)
      (Outcome json fn strict r) := by
  refine .inl_op call_claim ?_ fun e a h => .inl h.1
  intro won a ha
  cases won with
  | false =>
    obtain rfl : a = first i r := ha
    refine .inl_op (call_read rfl (fun k he => by cases he)) ?_ fun e a h => .inl (h.1 e rfl)
    rintro now a ⟨-, _, rfl⟩
    exact safe_poll json _ _
  | true =>
    obtain ⟨κ, rfl⟩ : ∃ κ, a = working i r κ [] := ha
    refine safe_tryCatch.mpr (safe_bind.mpr ((safe_fn .start).mono ?_))
    rintro (e | v) a ⟨own, rfl, hruns⟩
    · -- `fn` threw
      refine .inl_op (call_release false (.inr ⟨e, hruns⟩)) ?_ ?_
      · rintro u a ⟨-, hclaimed, hown, hdel⟩
        exact .inr (.inl ⟨by rw [hclaimed]; rfl, hdel u rfl, hown ▸ hruns⟩)
      · exact fun e' a h => .inl (h.1 e' rfl)
    · refine .inl_op (call_store hruns) ?_ ?_
      · rintro u a ⟨σ, rfl⟩
        exact ⟨rfl, hruns, σ, rfl⟩
      · rintro e a ⟨hno, rfl⟩
        refine .inl_op (call_release true (.inl ⟨rfl, hno⟩)) ?_ ?_
        · exact fun u a _ => .inl hno
        · exact fun e' a _ => .inl hno

end Attempt

/-! ## Runs -/

abbrev IdemThread (S : Sig) (T X J : Type) : Type :=
  Thread ((kvSig (Cell J)).sum S) Err (String × X) (IdemResult (StoredResult T))

abbrev IdemConfig (S : Sig) (T X J W : Type) : Type :=
  Config ((kvSig (Cell J)).sum S) Err (String × X) (IdemResult (StoredResult T)) (Kv (Cell J) × W)

abbrev IdemAct (X P Env : Type) : Type := Act Err (String × X) P Env

/-- What a caller's Redis calls have shown of it so far. -/
def attempt (t : IdemThread S T X J) : Attempt S X J := t.account Attempt.post Attempt.first

/-- The calls that `fn` itself has made, latest first. -/
def ownCalls (tr : List (Event ((kvSig (Cell J)).sum S) Err)) : List (Event S Err) :=
  tr.filterMap fun
    | ⟨time, .inr o, out⟩ => some ⟨time, o, out⟩
    | _ => none

/-- `fn` has run for this caller and resolved with `v`. -/
def Resolves (fn : X → Prog S Err (StoredResult T)) (t : IdemThread S T X J) (v : StoredResult T) :
    Prop :=
  (attempt t).claimed.isSome = true ∧ Runs (fn t.req.2) (ownCalls t.trace) (.ret v)

/-- `fn` has run for this caller and thrown `e`. -/
def Throws (fn : X → Prog S Err (StoredResult T)) (t : IdemThread S T X J) (e : Err) : Prop :=
  (attempt t).claimed.isSome = true ∧ Runs (fn t.req.2) (ownCalls t.trace) (.throw e)

/-- By the step from `c` to `c'` thread `i` claims `key`, so that `fn` runs for it. -/
def Starts (c c' : IdemConfig S T X J W) (i : Nat) (key : String) : Prop :=
  ∃ u u', c.pool[i]? = some u ∧ c'.pool[i]? = some u' ∧ u.req.1 = key ∧
    (attempt u).claimed = none ∧ (attempt u').claimed.isSome = true

namespace Attempt

theorem account_eq (tr : List (Event ((kvSig (Cell J)).sum S) Err)) (a : Attempt S X J) :
    (tr.foldr post a).id = a.id ∧ (tr.foldr post a).key = a.key ∧
      (tr.foldr post a).arg = a.arg ∧ (tr.foldr post a).own = ownCalls tr ++ a.own := by
  induction tr with
  | nil => exact ⟨rfl, rfl, rfl, rfl⟩
  | cons e tr ih =>
    obtain ⟨hid, hkey, harg, hown⟩ := ih
    obtain ⟨time, op, out⟩ := e
    have hkv : ∀ (o : KvOp (Cell J)) (out : Except Err o.Ret) (b : Attempt S X J),
        (kvPost time o out b).id = b.id ∧ (kvPost time o out b).key = b.key ∧
          (kvPost time o out b).arg = b.arg ∧ (kvPost time o out b).own = b.own := by
      intro o out b
      cases o with
      | setNx k v ex => rcases out with e | (_ | _) <;> exact ⟨rfl, rfl, rfl, rfl⟩
      | set k v ex => cases v <;> cases out <;> exact ⟨rfl, rfl, rfl, rfl⟩
      | get k => rcases out with e | (_ | _ | _) <;> exact ⟨rfl, rfl, rfl, rfl⟩
      | del k => cases out <;> exact ⟨rfl, rfl, rfl, rfl⟩
      | _ => exact ⟨rfl, rfl, rfl, rfl⟩
    cases op with
    | inl o =>
      obtain ⟨h1, h2, h3, h4⟩ := hkv o out (tr.foldr post a)
      exact ⟨h1.trans hid, h2.trans hkey, h3.trans harg, h4.trans hown⟩
    | inr o => exact ⟨hid, hkey, harg, congrArg (_ :: ·) hown⟩

theorem attempt_eq (t : IdemThread S T X J) : (attempt t).id = t.id ∧ (attempt t).key = t.req.1 ∧
    (attempt t).arg = t.req.2 ∧ (attempt t).own = ownCalls t.trace := by
  obtain ⟨h1, h2, h3, h4⟩ := account_eq t.trace (first t.id t.req)
  exact ⟨h1, h2, h3, h4.trans (List.append_nil _)⟩

variable {json : Json (StoredResult T) J} {fn : X → Prog S Err (StoredResult T)}
  {fnStore : Store S W P} {fnEnv : Nat → Env → W → Option W} {n : Nat} {w₀ : W} {strict : Bool}
  {ok : System.Guard ((kvSig (Cell J)).sum S) Err (String × X) (IdemResult (StoredResult T))
    (Kv (Cell J) × W) P Env}
  {c c' : IdemConfig S T X J W} {t u : IdemThread S T X J}

/-- The callers of the system together, from what a run lets its calls do. -/
theorem outline
    (hguard : ∀ c i f t o k,
      (idemSystem json fn fnStore fnEnv).Reachable ok (.init n (fun _ => none, w₀)) c →
      ok c (.call i f) → c.pool[i]? = some t → t.prog = .call o k →
      Inv json fn c.world.1 c.now (System.worth (logic strict json fn fnStore) first c.pool) →
      guard strict t.id (attempt t)
        (System.worth (logic strict json fn fnStore) first (c.pool.eraseIdx i)) c.toShared o f) :
    (idemSystem json fn fnStore fnEnv).Outline ok (.init n (fun _ => none, w₀))
      (logic strict json fn fnStore) first fun _ r => Outcome json fn strict r where
  store := rfl
  start := by
    refine ⟨rfl, Bag.zero, fun k e j he => ?_, fun a ha => ?_⟩
    · cases he
    · exact absurd ha (Multiset.notMem_zero a)
  arrive := by
    intro c r w' hr _ hacc hinv
    cases hacc
    refine ⟨Inv.arrive hinv fun b hb => ?_, safe_withIdempotency json⟩
    obtain ⟨t, ht, rfl⟩ := (System.mem_worth fun _ => rfl).mp hb
    obtain ⟨j, hj⟩ := List.mem_iff_getElem?.mp ht
    have hid := hr.id_eq rfl j t hj
    have hlt := (List.getElem?_eq_some_iff.mp hj).1
    have haccount : (attempt t).id = t.id := (attempt_eq t).1
    show (attempt t).id ≠ c.pool.length
    omega
  tick := fun s g d h => Inv.later h (Nat.le_add_right _ _)
  env := by
    intro c g e w' _ he hinv
    obtain ⟨v, _, rfl⟩ := Option.map_eq_some_iff.mp he
    exact hinv
  guard := hguard

/-- The call that starts an execution is a `SET NX` that finds no live entry. -/
theorem starts_setNx {i : Nat} {f : Fate Err P} {key : String}
    (hs : (idemSystem json fn fnStore fnEnv).step c (.call i f) = some c')
    (hstart : Starts c c' i key) :
    ∃ u, c.pool[i]? = some u ∧ u.req.1 = key ∧ (attempt u).claimed = none ∧
      ∃ rkey v ex k, u.prog = .call (.inl (.setNx rkey v ex)) k ∧ f.isAnswered = true ∧
        c.world.1.live c.now rkey = none := by
  obtain ⟨u, u', hu, hu', hkey, hnone, hsome⟩ := hstart
  obtain ⟨m, r, o, k, tr, out, w, hp, hx, rfl⟩ := System.callStep_eq_some hs
  obtain rfl := Option.some.inj (hp.symm.trans hu)
  have hlt := (List.getElem?_eq_some_iff.mp hp).1
  obtain rfl := Option.some.inj ((List.getElem?_set_self hlt).symm.trans hu')
  cases o with
  | inr o =>
    have hold : (attempt ⟨m, r, .call (.inr o) k, tr⟩).claimed.isSome = true := hsome
    rw [hnone] at hold
    cases hold
  | inl o =>
    refine ⟨_, hp, hkey, hnone, ?_⟩
    have hpost : (kvPost c.now o out (attempt ⟨m, r, .call (.inl o) k, tr⟩)).claimed.isSome := hsome
    obtain ⟨hx, -⟩ := Store.exec_sum_inl (f := kvStore) (g := fnStore) (o := o) hx
    have hother : (kvPost c.now o out (attempt ⟨m, r, .call (.inl o) k, tr⟩)).claimed =
        (attempt ⟨m, r, .call (.inl o) k, tr⟩).claimed → False := by
      intro heq
      rw [heq, hnone] at hpost
      cases hpost
    cases o with
    | setNx rkey v ex =>
      refine ⟨rkey, v, ex, k, rfl, ?_⟩
      rcases out with e | (_ | _)
      · exact (hother rfl).elim
      · exact (hother rfl).elim
      · rcases Store.exec_cases hx with ⟨p, a, rfl, h, hout⟩ | ⟨e, -, -, hout⟩ | ⟨e, p, a, -, -, hout⟩
        · cases hout
          simp only [kvStore] at h
          split at h
          · cases h
          · rename_i hlive
            exact ⟨rfl, hlive⟩
        · cases hout
        · cases hout
    | set rkey v ex => exact (hother (by cases v <;> cases out <;> rfl)).elim
    | get rkey => exact (hother (by rcases out with e | (_ | _ | _) <;> rfl)).elim
    | del rkey => exact (hother (by cases out <;> rfl)).elim
    | _ => exact (hother rfl).elim

/-- Only an attempt whose `fn` threw deletes its entry. -/
theorem Good.kept_of_resolves {kv : Kv (Cell J)} {now : Nat} (h : Good json fn kv now (attempt t))
    {v : StoredResult T} (hv : Resolves fn t v) : (attempt t).kept = true := by
  cases hdel : (attempt t).deleted with
  | false => simp [kept, hv.1, hdel]
  | true =>
    obtain ⟨-, e, he⟩ := h.gaveUp hdel
    obtain ⟨-, -, harg, hown⟩ := attempt_eq t
    rw [harg, hown] at he
    exact absurd he hv.2.not_throw

/-- When an execution starts, the entry of every execution that has resolved has run out. -/
theorem expired_of_starts {i : Nat} {f : Fate Err P} {key : String}
    (O : (idemSystem json fn fnStore fnEnv).Outline ok (.init n (fun _ => none, w₀))
      (logic strict json fn fnStore) first fun _ r => Outcome json fn strict r)
    (h : (idemSystem json fn fnStore fnEnv).Reachable ok (.init n (fun _ => none, w₀)) c)
    (hok : ok c (.call i f)) (hs : (idemSystem json fn fnStore fnEnv).step c (.call i f) = some c')
    (hstart : Starts c c' i key) (ht : t ∈ c.pool) (hkey : t.req.1 = key)
    {v : StoredResult T} (hv : Resolves fn t v) : (attempt t).expiry ≤ c.now := by
  obtain ⟨u, hu, hukey, hnone, rkey, v', ex, k, hp, hf, hlive⟩ := starts_setNx hs hstart
  obtain ⟨hinv, -⟩ := O.adequate h
  obtain ⟨hid, htkey, -, -⟩ := attempt_eq t
  -- the key is that of `t`
  have hrkey : rkey = idemKey (attempt t).key := by
    obtain ⟨u', o, hu', ho, hg⟩ := O.guaranteed h hok hs
    obtain rfl := Option.some.inj (hu'.symm.trans hu)
    rw [hp] at ho
    cases ho
    rw [hg _ rfl _ rfl, htkey, hkey, ← hukey]
    exact congrArg idemKey (attempt_eq u').2.1
  have hmem : attempt t ∈ System.worth (logic strict json fn fnStore) first c.pool :=
    (System.mem_worth fun _ => rfl).mpr ⟨t, ht, rfl⟩
  have hgood := Inv.bag hinv |>.each _ hmem
  have hkept := hgood.kept_of_resolves hv
  rcases hgood.entry hkept with hentry | ⟨-, hle⟩
  · by_contra hlt
    rw [hrkey, Kv.live_eq_some.mpr ⟨hentry, Nat.lt_of_not_le hlt⟩] at hlive
    cases hlive
  · exact hle

end Attempt

end Flashkart
