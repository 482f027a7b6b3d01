import Flashkart.Shop.Rules

/-!
# Shop.FailedBuy

What a buy that ends in an error has done. `doPurchase` takes the stock first and then reads the
catalog and inserts the order; unlike `reserve` it gives nothing back when one of these throws.

* `Effect` — what a thread has done to the counters, and the orders it has created.
* `failed_buy_costs_nothing` — if no call that a buy waits for fails after its decrement, a failed
  buy has changed no counter and created no order, and every counter is lower only by the
  quantities of orders that exist.
* `failed_buy_leaks` — a catalog read that fails after the decrement costs one unit.
-/

namespace Flashkart

open Async Logic

/-- `took` is set by the first script call that subtracts; `primed` is what the thread's `SET NX`
put on a counter. -/
structure Effect where
  buy : Bool
  took : Bool
  net : String → Int
  primed : String → Int
  created : List (ObjectId × Nat)

namespace Effect

def start (r : ShopReq) : Effect where
  buy := match r with
    | .postBuy _ => true
    | _ => false
  took := false
  net := 0
  primed := 0
  created := []

def post : (o : ShopOp) → Except Err o.Ret → Effect → Effect
  | .buyStock k qty, .ok r, l =>
    if 0 ≤ r then { l with took := true, net := l.net + Pi.single k (-(qty : Int)) } else l
  | .incrby k n, .ok _, l => { l with net := l.net + Pi.single k (n : Int) }
  | .setStockNx k v, .ok set, l =>
    if set then { l with primed := l.primed + Pi.single k (v : Int) } else l
  | .orderCreate o, .ok id, l => { l with created := (id, o.quantity) :: l.created }
  | _, _, l => l

theorem post_error (o : ShopOp) (e : Err) (l : Effect) : post o (.error e) l = l := by
  cases o <;> rfl

/-- The calls a buy waits for between its decrement and its answer. -/
def awaited : apiSig.Op → Bool
  | .inr (.productFindById _) => true
  | .inr (.orderCreate _) => true
  | .inl (.set ..) => true
  | _ => false

/-- Calls fail without effect if they fail, and none that a buy waits for fails once the buy has
taken its units. -/
def spares (l : Effect) (o : apiSig.Op) : Fate Err Pick → Bool
  | .answered _ => true
  | .failed _ => !(l.buy && l.took && awaited o)
  | .lost _ _ => false

abbrev Total : Type := (String → Int) × (ObjectId × Nat → Nat)

def val (l : Effect) : Total := (l.net + l.primed, fun x => l.created.count x)

/-- Every counter is what the threads have done to it, and every order a thread has created is
there. -/
structure Inv (w : Shop) (g : Total) : Prop where
  counters : ∀ k, (w.stock k).getD 0 = g.1 k
  orders : ∀ x, g.2 x ≤ (w.orders.map fun d => (d.id, d.quantity)).count x

def logic : ShopLogic Effect Total :=
  shopLogic (fun _ l _ _ o f => spares l o f = true) Inv post val

variable {i : Nat} {l : Effect}

theorem Inv.setStock {w : Shop} {g g' : Total} (h : Inv w g) {k : String} {v : Int}
    (h1 : g'.1 = g.1 + Pi.single k (v - (w.stock k).getD 0)) (h2 : g'.2 = g.2) :
    Inv { w with stock := Function.update w.stock k (some v) } g' := by
  refine ⟨?_, fun x => h2 ▸ h.orders x⟩
  intro k'
  dsimp only
  rw [h1, Pi.add_apply]
  by_cases hk : k' = k
  · subst hk
    have := h.counters k'
    rw [Function.update_self, Pi.single_eq_same, Option.getD_some]
    omega
  · rw [Function.update_of_ne hk, Pi.single_eq_of_ne hk, add_zero]
    exact h.counters k'

theorem Inv.congr {w w' : Shop} {g : Total} (h : Inv w g) (hs : w'.stock = w.stock)
    (ho : w'.orders.map (fun d => (d.id, d.quantity)) =
      w.orders.map fun d => (d.id, d.quantity)) : Inv w' g := by
  refine ⟨?_, ?_⟩
  · rw [hs]; exact h.counters
  · rw [ho]; exact h.orders

/-- A call keeps the invariant whatever it is: the account follows the counters. -/
theorem inv_answered {now : Nat} {o : ShopOp} {q : Pick} {w w' : Shop} {a : o.Ret} {g : Total}
    (h : Inv w (val l + g)) (hx : shopStore now i o q w = some (a, w')) :
    Inv w' (val (post o (.ok a) l) + g) := by
  cases o with
  | buyStock k qty =>
    simp only [shopStore, Option.some.injEq, Prod.mk.injEq] at hx
    obtain ⟨rfl, rfl⟩ := hx
    rcases BUY_LUA_cases w.stock k qty with
      ⟨-, hlua⟩ | ⟨n, -, -, hlua⟩ | ⟨n, hn, hle, hlua⟩ <;> rw [hlua]
    · exact h
    · exact h
    · have h0 : 0 ≤ n - qty := by omega
      have hpost : post (.buyStock k qty) (.ok (n - qty)) l =
          { l with took := true, net := l.net + Pi.single k (-(qty : Int)) } := if_pos h0
      rw [hpost]
      refine h.setStock ?_ rfl
      rw [hn, Option.getD_some]
      have : n - qty - n = -(qty : Int) := by omega
      rw [this]
      simp only [val, Prod.fst_add]
      abel
  | setStockNx k v =>
    simp only [shopStore] at hx
    split at hx
    · cases hx; exact h
    · rename_i hnone
      cases hx
      refine h.setStock ?_ rfl
      rw [hnone, Option.getD_none, sub_zero]
      simp only [val, post, if_true, Prod.fst_add]
      abel
  | incrby k n =>
    cases hx
    refine h.setStock ?_ rfl
    rw [add_sub_cancel_left]
    simp only [val, post, Prod.fst_add]
    abel
  | orderCreate o =>
    simp only [shopStore] at hx
    split at hx
    · cases hx
    · split at hx
      · cases hx
      · cases hx
        refine ⟨h.counters, ?_⟩
        intro x
        have := h.orders x
        simp only [val, post, Prod.snd_add, Pi.add_apply, List.map_append, List.count_append,
          List.map_cons, List.map_nil, List.count_cons, List.count_nil] at this ⊢
        omega
  | orderSave id n =>
    cases hx
    refine h.congr rfl ?_
    rw [List.map_map]
    refine List.map_congr_left fun d _ => ?_
    simp only [Function.comp_apply]
    split <;> rfl
  | orderFindOneAndUpdate id src dst reason =>
    obtain ⟨⟨r, docs⟩, hr, hx⟩ := Option.map_eq_some_iff.mp hx
    cases hx
    refine h.congr rfl ?_
    rcases Collection.findOneAndUpdate_cases hr with ⟨d, hd, -, rfl, rfl⟩ | ⟨rfl, rfl, -⟩
    · exact Collection.map_set_of_eq hd rfl
    · rfl
  | _ =>
    have hsame := shopStore_same hx
    exact h.congr (hsame.stock (fun he => by cases he)) (by rw [hsame.orders (fun he => by cases he)])

theorem call_any (o : ShopOp) :
    ShopCall logic i l o fun out l' =>
      l' = post o out l ∧ ∀ e, out = .error e → (l.buy && l.took && awaited (.inr o)) = false := by
  refine shop_call fun now w g f out w' hinv hg hx => ?_
  rcases Store.exec_cases hx with ⟨q, a, -, h, rfl⟩ | ⟨e, rfl, rfl, rfl⟩ | ⟨e, q, a, rfl, -, -⟩
  · exact ⟨inv_answered hinv h, rfl, fun e he => by cases he⟩
  · rw [post_error]
    refine ⟨hinv, rfl, fun _ _ => ?_⟩
    rw [← Bool.not_eq_true']
    exact hg
  · cases hg

/-! ## Buys -/

/-- A buy that has taken nothing. -/
def Idle (l : Effect) : Prop := l.buy = true ∧ l.took = false ∧ l.net = 0 ∧ l.created = []

/-- A buy with `qty` units of the counter `key`, for which it has created `orders`. -/
def Bought (key : String) (qty : Nat) (orders : List (ObjectId × Nat)) (l : Effect) : Prop :=
  l.buy = true ∧ l.took = true ∧ l.net = Pi.single key (-(qty : Int)) ∧ l.created = orders

variable {pid : String} {qty : Nat}

theorem call_buyStock (hl : l.Idle) :
    ShopCall logic i l (.buyStock (stockKey pid) qty)
      (Ends (fun r => if r = -2 ∨ r = -1 then Idle else Bought (stockKey pid) qty []) Idle) := by
  refine shop_call fun now w g f out w' hinv hg hx => ?_
  rcases Store.exec_cases hx with ⟨q, a, -, h, rfl⟩ | ⟨e, rfl, rfl, rfl⟩ | ⟨e, q, a, rfl, -, -⟩
  · refine ⟨inv_answered hinv h, ?_⟩
    simp only [shopStore, Option.some.injEq, Prod.mk.injEq] at h
    obtain ⟨rfl, -⟩ := h
    rcases BUY_LUA_cases w.stock (stockKey pid) qty with
      ⟨-, hlua⟩ | ⟨n, -, -, hlua⟩ | ⟨n, -, hle, hlua⟩ <;> rw [hlua]
    · exact hl
    · exact hl
    · have h0 : 0 ≤ n - qty := by omega
      have hne : ¬(n - qty = -2 ∨ n - qty = -1) := by omega
      have hpost : post (.buyStock (stockKey pid) qty) (.ok (n - qty)) l =
          { l with took := true, net := l.net + Pi.single (stockKey pid) (-(qty : Int)) } :=
        if_pos h0
      obtain ⟨hbuy, -, hnet, hcreated⟩ := hl
      rw [hpost, hnet, zero_add, ends_ok, if_neg hne]
      exact ⟨hbuy, rfl, rfl, hcreated⟩
  · exact ⟨hinv, hl⟩
  · cases hg

/-- A call that is none of those the account follows. -/
theorem call_idle {o : ShopOp} {I : Effect → Prop} (hpost : ∀ out l, post o out l = l) (hl : I l) :
    ShopCall logic i l o fun _ => I := by
  refine (call_any o).mono ?_
  rintro out l' ⟨rfl, -⟩
  exact (hpost out l).symm ▸ hl

theorem safe_purchase (hl : l.Idle) :
    logic.Safe i (purchase pid qty).inr l
      (Ends (Took (Bought (stockKey pid) qty []) Idle) fun l' => l'.Idle ∨ l'.Idle) := by
  refine Flashkart.safe_purchase (D := fun _ => True) hl (fun l hl => call_buyStock hl)
    (fun l hl => ?_) (fun l d hl _ => ?_) fun r i l => ?_
  · exact (call_idle (fun _ _ => rfl) hl).mono fun out l' h => ⟨h, fun _ _ => trivial⟩
  · refine (call_any _).mono ?_
    rintro (e | set) l' ⟨rfl, -⟩
    · exact hl
    · cases set <;> exact hl
  · exact call_idle (fun _ _ => rfl) rfl

theorem safe_doPurchase (hl : l.Idle) (uid : ObjectId) :
    logic.Safe i (doPurchase uid pid qty).inr l
      (Ends (Served pid qty fun l' => ∃ oid, l'.Bought (stockKey pid) qty [(oid, qty)])
        fun l' => l'.Idle ∨ l'.Idle ∨ False) := by
  refine Flashkart.safe_doPurchase (safe_purchase hl) (fun l hl => ?_)
    (fun l price total hl => ?_) fun oid i l => ?_
  · refine (call_any _).mono ?_
    rintro (e | d) l' ⟨rfl, herr⟩
    · have := herr e rfl
      simp [hl.1, hl.2.1, awaited] at this
    · exact hl
  · refine (call_any _).mono ?_
    rintro (e | oid) l' ⟨rfl, herr⟩
    · have := herr e rfl
      simp [hl.1, hl.2.1, awaited] at this
    · obtain ⟨hbuy, htook, hnet, hcreated⟩ := hl
      exact ⟨oid, hbuy, htook, hnet, by simp only [post, hcreated]⟩
  · exact call_idle (fun _ _ => rfl) rfl

/-- The `SET` of a buy that has taken units does not fail. -/
theorem call_set {key : String} {v : Cell (StoredResult Body)} {ex : Nat} (hbuy : l.buy = true)
    (htook : l.took = true) :
    logic.Call i l (.inl (.set key v ex)) fun out l' => l' = l ∧ ∀ e, out = .error e → False := by
  refine Logic.call_of (fun _ _ _ _ _ => trivial) fun s g f out w' hinv hg hx => ?_
  have hw := exec_inl (o := .set key v ex) hx
  refine ⟨?_, rfl, ?_⟩
  · show Inv w'.2 (val l + g)
    rw [hw]
    exact hinv
  · rintro e rfl
    rcases Store.exec_cases hx with ⟨q, a, -, -, ho⟩ | ⟨e, rfl, -, -⟩ | ⟨e, q, a, rfl, -, -⟩
    · cases ho
    · have : spares l (.inl (.set key v ex)) (.failed e) = true := hg
      simp [spares, hbuy, htook, awaited] at this
    · cases hg

theorem safe_postBuy (hl : l.Idle) (req : BuyRequest) :
    logic.Safe i (ShopRes.response <$> postBuy req) l
      (Ends (fun _ l' => l'.Idle ∨ ∃ q oid, l'.Bought (stockKey req.id) q [(oid, q)]) Idle) := by
  rw [Prog.map_eq, postBuy]
  refine safe_bind.mpr ((Flashkart.safe_moneyRoute (K := logic) (F := fun _ => False) hl
    (fun k => neutral_kv k) (fun q _ => safe_doPurchase hl req.userId) ?_).mono ?_)
  · rintro key v q l' ⟨oid, hbuy, htook, -⟩
    exact call_set hbuy htook
  · rintro (e | r) l' h
    · rcases h with h | (h | h) | h
      · exact h
      · exact h
      · exact h.elim
      · exact h.elim
    · rcases h with ⟨-, h⟩ | ⟨-, -, -, -, oid, h⟩
      · exact .inl h
      · exact .inr ⟨_, oid, h⟩

theorem safe_any {α : Type} (m : ApiProg α) : logic.Safe i m l fun _ _ => True := by
  induction m generalizing l with
  | ret a => trivial
  | throw e => trivial
  | call o k ih =>
    cases o with
    | inl o => exact (neutral_kv o i l).mono fun out l' _ => ih out
    | inr o => exact (call_any o).mono fun out l' _ => ih out

/-- What is known of the account of a request that has ended. -/
def Done : ShopReq → Except Err ShopRes → Effect → Prop
  | .postBuy req =>
    Ends (fun _ l => l.Idle ∨ ∃ q oid, l.Bought (stockKey req.id) q [(oid, q)]) Idle
  | _ => fun _ _ => True

theorem safe_request (r : ShopReq) : logic.Safe i (shopProg r) (start r) (Done r) := by
  cases r with
  | postBuy req => exact safe_postBuy ⟨rfl, rfl, rfl, rfl⟩ req
  | _ => exact safe_any _

end Effect

/-- What a thread has done, by its calls so far. -/
def effect (t : ShopThread) : Effect := t.account (shopPost Effect.post) fun _ r => .start r

/-- The calls of a run that fail do so without effect, and no buy that has taken its units sees
a call fail that it waits for. -/
def sparing (c : ShopConfig) : ShopAct → Bool
  | .call i f => (c.pool[i]?).all fun t => t.prog.next.all fun o => (effect t).spares o f
  | _ => true

namespace Effect

theorem outline (n : Nat) (catalog : ObjectId → Option ProductDoc) :
    shopSystem.Outline (fun c a => sparing c a = true) (freshShop n catalog) logic
      (fun _ r => start r) fun _ r out l => Done r out l where
  store := rfl
  start := ⟨rfl, fun _ => rfl, fun _ => Nat.zero_le _⟩
  arrive := by
    intro c r w' _ _ hacc hinv
    refine ⟨?_, safe_request r⟩
    have h0 : logic.val (start r) = 0 := by
      refine Prod.ext (add_zero _) (funext fun x => ?_)
      rfl
    rw [h0, zero_add]
    have hsame := (accept_same hacc).2
    exact Inv.congr hinv (hsame.stock (fun he => by cases he)) (by rw [hsame.orders (fun he => by cases he)])
  tick := fun _ _ _ h => h
  env := by
    intro c g e w' _ he hinv
    obtain ⟨s, hs, rfl⟩ := Option.map_eq_some_iff.mp he
    obtain ⟨hsame, -⟩ := surroundings_same hs
    exact Inv.congr hinv hsame.stock (by rw [hsame.orders])
  guard := by
    intro c j f t o k _ hok ht hp _
    have hspares : (effect t).spares o f = true := by
      simpa [sparing, ht, hp, Prog.next] using hok
    exact hspares

/-- The parts of a sum of totals. -/
theorem sum_total {α : Type} (f : α → Total) (ts : List α) :
    (∀ k, (ts.map f).sum.1 k = (ts.map fun t => (f t).1 k).sum) ∧
      ∀ x, (ts.map f).sum.2 x = (ts.map fun t => (f t).2 x).sum := by
  induction ts with
  | nil => exact ⟨fun _ => rfl, fun _ => rfl⟩
  | cons t ts ih =>
    obtain ⟨ih1, ih2⟩ := ih
    simp only [List.map_cons, List.sum_cons, Prod.fst_add, Prod.snd_add, Pi.add_apply]
    refine ⟨?_, ?_⟩
    · intro k
      rw [ih1 k]
    · intro x
      rw [ih2 x]

end Effect

/-- The units a thread's orders hold of the counter `key`, all its orders being under `pid`. -/
def orderedOn (key pid : String) (l : Effect) : Nat :=
  if key = stockKey pid then (l.created.map (·.2)).sum else 0

/-- **A failed buy costs no stock**, as long as no call it waits for fails once it has taken its
units: it has changed no counter and created no order. A buy that ended well has lowered its
counter by the orders it created, these orders exist, and a counter is what was put on it and what
the requests have done to it since. -/
theorem failed_buy_costs_nothing {n : Nat} {catalog : ObjectId → Option ProductDoc}
    {c : ShopConfig}
    (h : shopSystem.Reachable (fun c a => sparing c a = true) (freshShop n catalog) c) :
    (∀ t ∈ c.pool, ∀ req e, t.req = .postBuy req → t.prog.result = some (.error e) →
        (effect t).net = 0 ∧ (effect t).created = []) ∧
      (∀ t ∈ c.pool, ∀ req, t.req = .postBuy req → t.prog.result ≠ none →
        ∀ k, (effect t).net k = -(orderedOn k req.id (effect t) : Int)) ∧
      (∀ t ∈ c.pool, ∀ x ∈ (effect t).created,
        ∃ d ∈ c.world.2.orders, d.id = x.1 ∧ d.quantity = x.2) ∧
      ∀ k, (c.world.2.stock k).getD 0 =
        (c.pool.map fun t => (effect t).primed k + (effect t).net k).sum := by
  have O := Effect.outline n catalog
  obtain ⟨hinv, -⟩ := O.adequate h
  obtain ⟨hcounters, horders⟩ := Effect.sum_total (fun t : ShopThread => (effect t).val) c.pool
  have hdone : ∀ t ∈ c.pool, ∀ r, t.prog.result = some r → Effect.Done t.req r (effect t) :=
    fun t ht r hr => O.ended h ht hr
  refine ⟨?_, ?_, ?_, ?_⟩
  · intro t ht req e hreq hres
    have hd := hdone t ht _ hres
    rw [hreq] at hd
    exact ⟨hd.2.2.1, hd.2.2.2⟩
  · intro t ht req hreq hres k
    obtain ⟨r, hr⟩ := Option.ne_none_iff_exists'.mp hres
    have hd := hdone t ht _ hr
    rw [hreq] at hd
    have hidle : (effect t).Idle → (effect t).net k = -(orderedOn k req.id (effect t) : Int) := by
      intro hi
      simp [orderedOn, hi.2.2.1, hi.2.2.2]
    cases r with
    | error e => exact hidle hd
    | ok res =>
      rcases hd with hd | ⟨q, oid, hd⟩
      · exact hidle hd
      · rw [hd.2.2.1, orderedOn, hd.2.2.2]
        by_cases hk : k = stockKey req.id
        · simp [hk]
        · simp [hk]
  · intro t ht x hx
    have hle := hinv.orders x
    have hsum : (System.worth Effect.logic (fun _ r => .start r) c.pool).2 x =
        (c.pool.map fun t => (effect t).created.count x).sum := horders x
    have hone : 1 ≤ (effect t).created.count x := List.count_pos_iff.mpr hx
    have hmem : (effect t).created.count x ≤ (c.pool.map fun t => (effect t).created.count x).sum :=
      List.single_le_sum (fun _ _ => Nat.zero_le _) _ (List.mem_map_of_mem ht)
    have hpos : 0 < (c.world.2.orders.map fun d => (d.id, d.quantity)).count x := by omega
    obtain ⟨d, hd, heq⟩ := List.mem_map.mp (List.count_pos_iff.mp hpos)
    exact ⟨d, hd, by rw [← heq], by rw [← heq]⟩
  · intro k
    rw [hinv.counters k]
    have hsum : (System.worth Effect.logic (fun _ r => .start r) c.pool).1 k =
        (c.pool.map fun t => (effect t).net k + (effect t).primed k).sum := hcounters k
    rw [hsum]
    refine congrArg List.sum (List.map_congr_left fun t _ => ?_)
    rw [add_comm]

/-- A buy of one unit of `idA`. -/
def oneBuy : ShopReq := .postBuy ⟨idB, idA.toString, .missing, none⟩

theorem failed_buy_costs_nothing_soldOut :
    ∃ c, shopSystem.Reachable (fun c a => sparing c a = true) (freshShop 0 (oneProduct 0)) c ∧
      ∃ t ∈ c.pool, t.prog.result = some (.error (.app (soldOut "sold out"))) ∧
        (effect t).net = 0 ∧ (effect t).created = [] := by
  have hrun : (shopSystem.run sparing (freshShop 0 (oneProduct 0))
      (.arrive oneBuy :: callsOf 0 4 idB)).map (fun c =>
        c.pool.map fun t => (t.req, t.prog.result)) =
      some [(oneBuy, some (.error (.app (soldOut "sold out"))))] := by decide
  obtain ⟨c, hc, hs⟩ := Option.map_eq_some_iff.mp hrun
  obtain ⟨t, ts, hpool, ht, -⟩ := List.map_eq_cons_iff.mp hs
  obtain ⟨hreq, hres⟩ := Prod.mk.inj ht
  have hmem : t ∈ c.pool := by
    rw [hpool]
    exact List.mem_cons_self
  have hr := System.Reachable.of_run hc
  exact ⟨c, hr, t, hmem, hres, (failed_buy_costs_nothing hr).1 t hmem _ _ hreq hres⟩

/-- The catalog read after the decrement fails: the buy ends in an error, one unit is gone, and
there is no order. -/
theorem failed_buy_leaks :
    ¬∀ (n : Nat) (catalog : ObjectId → Option ProductDoc) (c : ShopConfig),
      shopSystem.Reachable (fun c a => effectless c a = true) (freshShop n catalog) c →
      ∀ t ∈ c.pool, ∀ req e, t.req = .postBuy req → t.prog.result = some (.error e) →
        (effect t).net = 0 ∧ (effect t).created = [] := by
  have hrun : (shopSystem.run effectless (freshShop 0 (oneProduct 1))
      (.arrive oneBuy :: callsOf 0 5 idB ++ [.call 0 (.failed (.error "connection closed"))])).map
        (fun c => c.pool.map fun t =>
          ((t.req, t.prog.result), (effect t).net (stockKey idA.toString))) =
      some [((oneBuy, some (.error (.error "connection closed"))), -1)] := by decide
  obtain ⟨c, hc, hs⟩ := Option.map_eq_some_iff.mp hrun
  obtain ⟨t, ts, hpool, ht, -⟩ := List.map_eq_cons_iff.mp hs
  obtain ⟨hreq, hnet⟩ := Prod.mk.inj ht
  obtain ⟨hreq, hres⟩ := Prod.mk.inj hreq
  have hmem : t ∈ c.pool := by
    rw [hpool]
    exact List.mem_cons_self
  intro h
  have := (h 0 _ c (.of_run hc) t hmem _ _ hreq hres).1
  rw [this] at hnet
  cases hnet

end Flashkart
