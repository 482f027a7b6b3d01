import Flashkart.Shop.Rules

/-!
# Shop.Oversell

How many units of a product the two money endpoints can sell. The counter key is built from the
path string, while the catalog is asked for the id that string casts to, so every spelling of an
id has a counter of its own, and each one is primed with the whole stock.

* `sold_le_stock` — as long as one counter of the product is created, no run oversells.
* `oversold`      — two spellings of one id, each with a counter, sell one unit twice.
-/

namespace Flashkart

open Async Logic

/-- The product whose counter lies under `key`. -/
def stockKeyProduct (key : String) : Option ObjectId :=
  if key.toList.take 6 = "stock:".toList then castObjectId (String.ofList (key.toList.drop 6))
  else none

@[simp] theorem stockKeyProduct_stockKey (s : String) :
    stockKeyProduct (stockKey s) = castObjectId s := by
  have hl : (stockKey s).toList = "stock:".toList ++ s.toList := by simp [stockKey]
  have h6 : "stock:".toList.length = 6 := by decide
  rw [stockKeyProduct, hl, ← h6, List.take_left, List.drop_left, if_pos rfl,
    String.ofList_toList]

/-- The units of `p` in the answer a request ended with, unless that answer was replayed. -/
def soldUnits (p : ObjectId) : Option (Except Err ShopRes) → Nat
  | some (.ok (.response r)) =>
    if r.replay ≠ some true ∧ castObjectId r.body.productId = some p then r.body.quantity else 0
  | _ => 0

def sold (p : ObjectId) (c : ShopConfig) : Nat :=
  (c.pool.map fun t => soldUnits p t.prog.result).sum

/-- No refund of `p`, and its catalog document stays as it is. -/
def noRefund (p : ObjectId) (c : ShopConfig) : ShopAct → Bool
  | .call i f =>
    match c.next i with
    | some (.inr (.incrby k _)) => !f.effective || stockKeyProduct k != some p
    | _ => true
  | .env (.catalog id _) => id != p
  | _ => true

/-- Of the counters of `p`, only the one of the spelling `w` is created. -/
def oneCounter (p : ObjectId) (w : String) (c : ShopConfig) : ShopAct → Bool
  | .call i f =>
    match c.next i with
    | some (.inr (.setStockNx k _)) =>
      !f.effective || stockKeyProduct k != some p || k == stockKey w
    | _ => true
  | _ => true

namespace Oversell

/-- The units of `p` a thread has taken. -/
def taken (p : ObjectId) : (o : ShopOp) → Except Err o.Ret → Nat → Nat
  | .buyStock k qty, .ok r, n => if stockKeyProduct k = some p ∧ 0 ≤ r then n + qty else n
  | _, _, n => n

def callGuard (p : ObjectId) (w : String) : apiSig.Op → Fate Err Pick → Prop
  | .inr (.incrby k _), f => f.effective = true → stockKeyProduct k ≠ some p
  | .inr (.setStockNx k _), f => f.effective = true → stockKeyProduct k = some p → k = stockKey w
  | _, _ => True

/-- What is left on the counter and what has been taken stay within the stock. -/
structure Inv (doc : ProductDoc) (p : ObjectId) (w : String) (s : Shop) (g : Nat) : Prop where
  catalog : s.products p = some doc
  others : ∀ k, stockKeyProduct k = some p → k ≠ stockKey w → s.stock k = none
  unprimed : s.stock (stockKey w) = none → g = 0
  primed : ∀ n, s.stock (stockKey w) = some n → 0 ≤ n ∧ n + g ≤ doc.stock

def logic (doc : ProductDoc) (p : ObjectId) (w : String) : ShopLogic Nat Nat :=
  shopLogic (fun _ _ _ _ o f => callGuard p w o f) (Inv doc p w) (taken p) id

variable {doc : ProductDoc} {p : ObjectId} {w : String} {i l : Nat}

/-- The invariant depends on the counters of `p` only. -/
theorem Inv.congr {s s' : Shop} {g : Nat} (hw : castObjectId w = some p) (h : Inv doc p w s g)
    (hp : s'.products p = s.products p)
    (hs : ∀ k, stockKeyProduct k = some p → s'.stock k = s.stock k) : Inv doc p w s' g := by
  have hkey : s'.stock (stockKey w) = s.stock (stockKey w) := hs _ (by simpa using hw)
  refine ⟨hp.trans h.catalog, ?_, ?_, ?_⟩
  · intro k hk hne
    rw [hs k hk]
    exact h.others k hk hne
  · rw [hkey]; exact h.unprimed
  · rw [hkey]; exact h.primed

theorem Inv.update {s : Shop} {g : Nat} (hw : castObjectId w = some p) (h : Inv doc p w s g)
    {k : String} (hk : stockKeyProduct k ≠ some p) (v : Option Int) :
    Inv doc p w { s with stock := Function.update s.stock k v } g := by
  refine h.congr hw rfl fun k' hk' => Function.update_of_ne ?_ _ _
  rintro rfl
  exact hk hk'

theorem neutral (hw : castObjectId w = some p) {o : ShopOp} (ho : o.takesStock = false) :
    (logic doc p w).Neutral (.inr o) := by
  by_cases hs : o.writes = .stock
  · -- only `INCRBY` is left, and it is not one of `p`
    cases o with
    | incrby k n =>
      intro i l
      refine shop_call fun now s g f out s' hinv hg hx => ⟨?_, rfl⟩
      rcases Store.exec_effect hx with ⟨hf, q, a, h, -⟩ | ⟨-, rfl, -⟩
      · cases h
        exact hinv.update hw (hg hf) _
      · exact hinv
    | buyStock k n => cases ho
    | setStockNx k n => cases ho
    | _ => cases hs
  · refine neutral_shop (fun s s' g hsame hinv => ?_) fun out l => ?_
    · exact hinv.congr hw (by rw [hsame.products]) fun k _ => by rw [hsame.stock hs]
    · cases o with
      | buyStock k n => cases ho
      | _ => rfl

/-- The units a buy under the path string `pid` takes of `p`. -/
def units (p : ObjectId) (pid : String) (qty : Nat) : Nat :=
  if castObjectId pid = some p then qty else 0

theorem call_buyStock (hw : castObjectId w = some p) (pid : String) (qty : Nat) :
    ShopCall (logic doc p w) i l (.buyStock (stockKey pid) qty)
      (Ends (fun r l' => if r = -2 ∨ r = -1 then l' = l else l' = l + units p pid qty)
        fun _ => True) := by
  refine shop_call fun now s g f out s' hinv hg hx => ?_
  have htaken : ∀ r : Int, taken p (.buyStock (stockKey pid) qty) (.ok r) l =
      if castObjectId pid = some p ∧ 0 ≤ r then l + qty else l := by
    intro r
    simp only [taken, stockKeyProduct_stockKey]
  have hsame : Inv doc p w s (l + g) := hinv
  rcases Store.exec_effect hx with ⟨-, q, a, h, hout⟩ | ⟨-, rfl, e, rfl⟩
  · simp only [shopStore, Option.some.injEq, Prod.mk.injEq] at h
    obtain ⟨rfl, rfl⟩ := h
    rcases BUY_LUA_cases s.stock (stockKey pid) qty with
      ⟨-, hlua⟩ | ⟨n, -, -, hlua⟩ | ⟨n, hn, hle, hlua⟩ <;> rw [hlua] at hout ⊢
    · cases out with
      | error e => exact ⟨hsame, trivial⟩
      | ok r =>
        obtain rfl : r = -2 := hout r rfl
        rw [htaken, if_neg (by omega)]
        exact ⟨hsame, rfl⟩
    · cases out with
      | error e => exact ⟨hsame, trivial⟩
      | ok r =>
        obtain rfl : r = -1 := hout r rfl
        rw [htaken, if_neg (by omega)]
        exact ⟨hsame, rfl⟩
    · have hne : ¬(n - qty = -2 ∨ n - qty = -1) := by omega
      by_cases hp : castObjectId pid = some p
      · -- a counter of `p` that exists is the one of `w`
        have hkey : stockKey pid = stockKey w := by
          by_contra hne
          have := hinv.others (stockKey pid) (by simpa using hp) hne
          rw [this] at hn
          cases hn
        obtain ⟨h0, hS⟩ := hinv.primed n (hkey ▸ hn)
        have hnew : ∀ l', l' ≤ l + qty → Inv doc p w
            { s with stock := Function.update s.stock (stockKey pid) (some (n - qty)) }
            (l' + g) := by
          intro l' hl'
          rw [hkey]
          refine ⟨hinv.catalog, ?_, by simp, ?_⟩
          · intro k hk hne
            dsimp only
            rw [Function.update_of_ne hne]
            exact hinv.others k hk hne
          · intro m hm
            dsimp only at hm
            rw [Function.update_self] at hm
            cases hm
            have hS' : n + (l + g : Nat) ≤ doc.stock := hS
            push_cast at hS' ⊢
            omega
        cases out with
        | error e => exact ⟨hnew l (by omega), trivial⟩
        | ok r =>
          obtain rfl : r = n - qty := hout r rfl
          rw [htaken, if_pos ⟨hp, by omega⟩]
          refine ⟨hnew (l + qty) le_rfl, ?_⟩
          rw [ends_ok, if_neg hne, units, if_pos hp]
      · have hnew := hsame.update hw (k := stockKey pid) (by simpa using hp) (some (n - qty))
        cases out with
        | error e => exact ⟨hnew, trivial⟩
        | ok r =>
          obtain rfl : r = n - qty := hout r rfl
          rw [htaken, if_neg fun h => hp h.1]
          refine ⟨hnew, ?_⟩
          rw [ends_ok, if_neg hne, units, if_neg hp]
          rfl
  · exact ⟨hsame, trivial⟩

theorem call_productFindById (pid : String) :
    ShopCall (logic doc p w) i l (.productFindById pid) fun out l' =>
      l' = l ∧ ∀ d, out = .ok (some d) → castObjectId pid = some p → d = doc := by
  refine shop_call fun now s g f out s' hinv hg hx => ?_
  rcases Store.exec_effect hx with ⟨-, q, a, h, hout⟩ | ⟨-, rfl, e, rfl⟩
  · obtain ⟨r, hr, h⟩ := Option.map_eq_some_iff.mp h
    cases h
    refine ⟨hinv, rfl, ?_⟩
    intro d hd hp
    rw [findByIdString, hp, Option.map_some, Option.some.injEq, hinv.catalog] at hr
    have hdoc : some d = some doc := (hout _ hd).trans hr.symm
    cases hdoc; rfl
  · exact ⟨hinv, rfl, fun d hd => by cases hd⟩

theorem call_setStockNx (hw : castObjectId w = some p) {pid : String} {v : Nat}
    (hv : castObjectId pid = some p → v = doc.stock) :
    ShopCall (logic doc p w) i l (.setStockNx (stockKey pid) v) fun _ l' => l' = l := by
  refine shop_call fun now s g f out s' hinv hg hx => ⟨?_, rfl⟩
  have hsame : Inv doc p w s (l + g) := hinv
  rcases Store.exec_effect hx with ⟨hf, q, a, h, -⟩ | ⟨-, rfl, -⟩
  · simp only [shopStore] at h
    split at h
    · cases h; exact hsame
    · rename_i hnone
      cases h
      by_cases hp : castObjectId pid = some p
      · have hkey : stockKey pid = stockKey w := hg hf (by simpa using hp)
        rw [hkey] at hnone ⊢
        have h0 : l + g = 0 := hinv.unprimed hnone
        refine ⟨hinv.catalog, ?_, by simp, ?_⟩
        · intro k hk hne
          dsimp only
          rw [Function.update_of_ne hne]
          exact hinv.others k hk hne
        · intro n hn
          dsimp only at hn
          rw [Function.update_self] at hn
          cases hn
          have := hv hp
          show (0 : Int) ≤ v ∧ v + ((l + g : Nat) : Int) ≤ doc.stock
          omega
      · exact hsame.update hw (by simpa using hp) _
  · exact hsame

/-! ## Requests -/

/-- A purchase that succeeds under the path string `pid` leaves its units in the account. -/
theorem safe_purchase (hw : castObjectId w = some p) (pid : String) (qty : Nat) :
    (logic doc p w).Safe i (purchase pid qty).inr l
      (Ends (Took (units p pid qty ≤ ·) fun _ => True) fun _ => True ∨ True) := by
  refine Flashkart.safe_purchase (D := fun d => castObjectId pid = some p → d = doc) trivial
    (fun l _ => (call_buyStock hw pid qty).mono ?_) (fun l _ => ?_) ?_ fun r => neutral hw rfl
  · intro out l' h
    refine h.mono ?_ id
    intro r hr
    split
    · trivial
    · rename_i h2
      rw [if_neg h2] at hr
      omega
  · exact (call_productFindById pid).mono fun out l' h => ⟨trivial, h.2⟩
  · intro l d _ hd
    exact (call_setStockNx hw fun hp => by rw [hd hp]).mono fun _ _ _ => trivial

theorem safe_reserve (hw : castObjectId w = some p) (pid : String) (qty : Nat)
    (uid : Option String) :
    (logic doc p w).Safe i (reserve pid qty uid).inr l
      (Ends (Held (units p pid qty ≤ ·) fun _ => True) fun _ => True ∨ True ∨ True) := by
  refine Flashkart.safe_reserve (safe_purchase hw pid qty) ?_ ?_ (fun r => neutral hw rfl) ?_
  · exact fun l' h => neutral_keeps (neutral hw rfl) h trivial
  · exact fun l' q u t h _ => neutral_keeps (neutral hw rfl) h h
  · exact fun l' h => (neutral hw rfl i l').mono fun _ _ _ => trivial

theorem safe_doPurchase (hw : castObjectId w = some p) (uid : ObjectId) (pid : String) (qty : Nat) :
    (logic doc p w).Safe i (doPurchase uid pid qty).inr l
      (Ends (Served pid qty (units p pid qty ≤ ·)) fun _ => True ∨ True ∨ True) := by
  refine Flashkart.safe_doPurchase (safe_purchase hw pid qty) ?_ ?_ fun _ => neutral hw rfl
  · exact fun l' h => neutral_keeps (neutral hw rfl) h trivial
  · exact fun l' price total h => neutral_keeps (neutral hw rfl) h trivial

theorem safe_moneyRoute {scope : String} {req : BuyRequest}
    {work : ObjectId → String → Nat → ShopProg (StoredResult Body)} {E : Nat → Prop}
    (hwork : ∀ q, (logic doc p w).Safe i (work req.userId req.id q).inr l
      (Ends (Served req.id q (units p req.id q ≤ ·)) fun l' => True ∨ E l')) :
    (logic doc p w).Safe i (ShopRes.response <$> moneyRoute scope work req) l fun out l' =>
      soldUnits p (some out) ≤ l' := by
  rw [Prog.map_eq]
  refine safe_bind.mpr ((Flashkart.safe_moneyRoute (K := logic doc p w) (F := fun _ => True)
    trivial (fun k => neutral_kv k) (fun q _ => hwork q) ?_).mono ?_)
  · intro key v q l' _
    refine (neutral_kv _ i l').mono ?_
    rintro out l'' rfl
    exact ⟨rfl, fun _ _ => trivial⟩
  · rintro (e | r) l' h
    · exact Nat.zero_le _
    · show (if r.replay ≠ some true ∧ castObjectId r.body.productId = some p then _ else _) ≤ _
      rcases h with ⟨hrep, -⟩ | ⟨hrep, -, hpid, -, hC⟩
      · rw [if_neg fun h => h.1 hrep]
        exact Nat.zero_le _
      · dsimp only at hpid
        rw [hpid]
        unfold units at hC
        by_cases hp : castObjectId req.id = some p
        · rw [if_pos ⟨hrep, hp⟩]
          rwa [if_pos hp] at hC
        · rw [if_neg fun h => hp h.2]
          exact Nat.zero_le _

theorem safe_request (hw : castObjectId w = some p) (r : ShopReq) :
    (logic doc p w).Safe i (shopProg r) l fun out l' => soldUnits p (some out) ≤ l' := by
  cases hr : r.purchases with
  | true =>
    cases r with
    | postBuy req => exact safe_moneyRoute fun q => safe_doPurchase hw _ _ _
    | postReserve req => exact safe_moneyRoute fun q => safe_doReserve (safe_reserve hw _ _ _)
    | reserve pid qty uid =>
      refine safe_bind.mpr ((safe_reserve hw pid qty uid).mono ?_)
      rintro (e | a) l' _ <;> exact Nat.zero_le _
    | _ => cases hr
  | false =>
    refine (safe_of_may hr fun o ho => neutral hw (not_takesStock_of_may hr ho)).mono ?_
    rintro out l' ⟨rfl, hout⟩
    unfold soldUnits
    split
    · rename_i r heq
      cases heq
      exact absurd rfl (hout r)
    · exact Nat.zero_le _

theorem guard_of_allowed {c : ShopConfig} {j : Nat} {f : Fate Err Pick} {o : apiSig.Op}
    (hnext : c.next j = some o) (h : noRefund p c (.call j f) = true)
    (h1 : oneCounter p w c (.call j f) = true) : callGuard p w o f := by
  unfold callGuard
  split
  · rename_i k n f
    simp only [noRefund, hnext] at h
    intro hf hk
    simp [hf, hk] at h
  · rename_i k v f
    simp only [oneCounter, hnext] at h1
    intro hf hk
    simpa [hf, hk] using h1
  · trivial

theorem outline {n : Nat} {catalog : ObjectId → Option ProductDoc} (hdoc : catalog p = some doc)
    (hw : castObjectId w = some p) :
    shopSystem.Outline (fun c a => noRefund p c a = true ∧ oneCounter p w c a = true)
      (freshShop n catalog) (logic doc p w) (fun _ _ => 0)
      fun _ _ out l => soldUnits p (some out) ≤ l where
  store := rfl
  start := by
    refine ⟨rfl, hdoc, fun _ _ _ => rfl, fun _ => rfl, ?_⟩
    intro n hn
    cases hn
  arrive := by
    intro c r w' _ _ hacc hinv
    refine ⟨?_, safe_request hw r⟩
    have hsame := (accept_same hacc).2
    have : Inv doc p w w'.2 (System.worth (logic doc p w) (fun _ _ => 0) c.pool) :=
      Inv.congr hw hinv (by rw [hsame.products]) fun k _ => by rw [hsame.stock nofun]
    simpa [logic, shopLogic] using this
  tick := fun _ _ _ h => h
  env := by
    intro c g e w' hok he hinv
    obtain ⟨s, hs, rfl⟩ := Option.map_eq_some_iff.mp he
    obtain ⟨hsame, hprod⟩ := surroundings_same hs
    refine Inv.congr hw hinv (hprod p ?_) fun k _ => by rw [hsame.stock]
    rintro d rfl
    simp [noRefund] at hok
  guard := by
    intro c j f t o k _ hok ht hp _
    exact guard_of_allowed (System.next_eq ht hp) hok.1 hok.2

end Oversell

/-- As long as no second counter of `p` is created, the answers of the money endpoints do not add
up to more than the catalog's stock. -/
theorem sold_le_stock {now : Nat} {catalog : ObjectId → Option ProductDoc} {p : ObjectId}
    {doc : ProductDoc} {w : String} {c : ShopConfig} (hdoc : catalog p = some doc)
    (hw : castObjectId w = some p)
    (h : shopSystem.Reachable (fun c a => noRefund p c a = true ∧ oneCounter p w c a = true)
      (freshShop now catalog) c) :
    sold p c ≤ doc.stock := by
  have O := Oversell.outline (n := now) hdoc hw
  obtain ⟨hinv, -⟩ := O.adequate h
  -- each answer is covered by its thread's account
  have hle : sold p c ≤ System.worth (Oversell.logic doc p w) (fun _ _ => 0) c.pool := by
    refine List.sum_le_sum fun t ht => ?_
    cases hr : t.prog.result with
    | none => exact Nat.zero_le _
    | some out => exact O.ended h ht hr
  cases hs : c.world.2.stock (stockKey w) with
  | none =>
    have := hinv.unprimed hs
    omega
  | some n =>
    obtain ⟨h0, hS⟩ := hinv.primed n hs
    omega

/-- A buy of one unit by the user `idB`, who spells the product `id`. -/
def buyOne (id : String) : ShopAct := .arrive (.postBuy ⟨idB, id, .missing, none⟩)

theorem sold_le_stock_one :
    ∃ c, shopSystem.Reachable
      (fun c a => noRefund idA c a = true ∧ oneCounter idA idA.toString c a = true)
      (freshShop 0 (oneProduct 1)) c ∧ sold idA c = 1 ∧ sold idA c ≤ 1 := by
  have hrun : (shopSystem.run (fun c a => noRefund idA c a && oneCounter idA idA.toString c a)
      (freshShop 0 (oneProduct 1)) (buyOne idA.toString :: callsOf 0 8 idB)).map (sold idA) =
        some 1 := by decide
  obtain ⟨c, hc, hs⟩ := Option.map_eq_some_iff.mp hrun
  have hr : shopSystem.Reachable
      (fun c a => noRefund idA c a = true ∧ oneCounter idA idA.toString c a = true)
      (freshShop 0 (oneProduct 1)) c :=
    (System.Reachable.of_run hc).mono fun c a h => by simpa using h
  exact ⟨c, hr, hs, sold_le_stock rfl (castObjectId_toString idA) hr⟩

/-- A run of money requests whose calls are all answered, with no refund of `p`. -/
def salesOnly (p : ObjectId) (c : ShopConfig) (a : ShopAct) : Bool :=
  noRefund p c a &&
    match a with
    | .arrive (.postBuy _) | .arrive (.postReserve _) => true
    | .arrive _ => false
    | .call _ (.answered _) => true
    | .call _ _ => false
    | _ => true

/-- Two buyers spell one id in lower and in upper case: each spelling has a counter, and the one
unit in stock is sold to both. -/
theorem oversold :
    ¬∀ (n : Nat) (catalog : ObjectId → Option ProductDoc) (p : ObjectId) (doc : ProductDoc)
      (c : ShopConfig), catalog p = some doc →
      shopSystem.Reachable (fun c a => salesOnly p c a = true) (freshShop n catalog) c →
      sold p c ≤ doc.stock := by
  have hrun : (shopSystem.run (salesOnly idA) (freshShop 0 (oneProduct 1))
      (buyOne "aaaaaaaaaaaaaaaaaaaaaaaa" :: callsOf 0 8 idB ++
        buyOne "AAAAAAAAAAAAAAAAAAAAAAAA" :: callsOf 1 8 idC)).map (sold idA) = some 2 := by
    decide
  obtain ⟨c, hc, hs⟩ := Option.map_eq_some_iff.mp hrun
  intro h
  have := h 0 (oneProduct 1) idA ⟨idA, 100, 1, true⟩ c rfl (.of_run hc)
  rw [hs] at this
  exact absurd this (by decide)

end Flashkart
