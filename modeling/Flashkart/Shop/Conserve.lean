import Flashkart.Shop.Ledger
import Flashkart.Shop.Undo

/-!
# Shop.Conserve

No unit of stock is lost or invented, whatever the requests of the api, the sweepers and the
deliveries of the worker do to each other. One lemma for each call says which entry of the ledger
it makes and that the books still balance; the programs are then safe one call after the other.
-/

namespace Flashkart

open Async Logic

/-- The store calls are answered. Only the insert of a reservation may fail, without effect, and
the payment gateway may decline. -/
def steady (o : apiSig.Op) : Fate Err Pick → Bool
  | .answered _ => true
  | .failed _ =>
    match o with
    | .inr (.reservationCreate _) => true
    | .inr (.chargePayment ..) => true
    | _ => false
  | .lost _ _ => false

def mayFail : ShopOp → Bool
  | .reservationCreate _ => true
  | .chargePayment .. => true
  | _ => false

theorem exec_steady {now i : Nat} {o : ShopOp} {f : Fate Err Pick} {w w' : Shop}
    {out : Except Err o.Ret} (hf : steady (.inr o) f = true)
    (h : shopStore.exec now i o f w = some (out, w')) :
    (∃ q a, shopStore now i o q w = some (a, w') ∧ out = .ok a) ∨
      (mayFail o = true ∧ w' = w ∧ ∃ e, out = .error e) := by
  rcases Store.exec_cases h with ⟨q, a, -, h, ho⟩ | ⟨e, rfl, rfl, ho⟩ | ⟨e, q, a, rfl, -, -⟩
  · exact .inl ⟨q, a, h, ho⟩
  · refine .inr ⟨?_, rfl, e, ho⟩
    cases o with
    | reservationCreate r => rfl
    | chargePayment oid n => rfl
    | _ => cases hf
  · cases hf

theorem exec_answered {now i : Nat} {o : ShopOp} {f : Fate Err Pick} {w w' : Shop}
    {out : Except Err o.Ret} (hf : steady (.inr o) f = true) (ho : mayFail o = false)
    (h : shopStore.exec now i o f w = some (out, w')) :
    ∃ q a, shopStore now i o q w = some (a, w') ∧ out = .ok a := by
  rcases exec_steady hf h with h | ⟨hm, -⟩
  · exact h
  · rw [ho] at hm; cases hm

namespace Conserve

def logic (doc : ProductDoc) (p : ObjectId) : ShopLogic Ledger Tally :=
  shopLogic (fun _ _ _ _ o f => steady o f = true) (Books doc p) Ledger.post
    (Ledger.val (stockKey p.toString))

variable {doc : ProductDoc} {p : ObjectId} {i : Nat} {l : Ledger}

/-- The spelling `pid`, if it is one of `p`, is the canonical one. -/
def Canonical (p : ObjectId) (pid : String) : Prop := castObjectId pid = some p → pid = p.toString

theorem Canonical.eq_iff {pid : String} (h : Canonical p pid) {p' : ObjectId}
    (hc : castObjectId pid = some p') : stockKey pid = stockKey p.toString ↔ p' = p := by
  rw [stockKey_inj]
  constructor
  · rintro rfl
    rw [castObjectId_toString] at hc
    exact (Option.some.inj hc).symm
  · rintro rfl
    exact h hc

/-- The calls that no entry of the ledger and no line of the books depends on. -/
def neutralOp : ShopOp → Bool
  | .buyStock .. | .setStockNx .. | .incrby .. => false
  | .orderCreate _ | .orderSave .. | .orderFindOneAndUpdate .. => false
  | .reservationCreate _ | .reservationFindOneAndUpdate .. => false
  | _ => true

theorem neutral {o : ShopOp} (h : neutralOp o = true) : (logic doc p).Neutral (.inr o) := by
  refine neutral_shop (fun w w' g hsame hinv => ?_) fun out l => ?_
  · refine hinv.congr (by rw [hsame.products]) ?_ ?_ ?_
    · rw [hsame.stock (by cases o <;> first | (cases h; done) | (intro he; cases he))]
    · exact hsame.reservations (by cases o <;> first | (cases h; done) | (intro he; cases he))
    · exact hsame.orders (by cases o <;> first | (cases h; done) | (intro he; cases he))
  · cases o <;> first | rfl | cases h

/-! ## Calls on the counter -/

theorem call_buyStock (hl : l.carry = .nothing) (pid : String) (qty : Nat) :
    ShopCall (logic doc p) i l (.buyStock (stockKey pid) qty)
      (Ends (fun r l' => if r = -2 ∨ r = -1 then l' = l else l' = l.take (stockKey pid) qty)
        fun _ => False) := by
  refine shop_call fun now w g f out w' hinv hg hx => ?_
  obtain ⟨q, a, h, rfl⟩ := exec_answered hg rfl hx
  simp only [shopStore, Option.some.injEq, Prod.mk.injEq] at h
  obtain ⟨rfl, rfl⟩ := h
  rcases BUY_LUA_cases w.stock (stockKey pid) qty with
    ⟨-, hlua⟩ | ⟨n, -, -, hlua⟩ | ⟨n, hn, hle, hlua⟩ <;> rw [hlua]
  · exact ⟨hinv, rfl⟩
  · exact ⟨hinv, rfl⟩
  · have h0 : 0 ≤ n - qty := by omega
    have hpost : Ledger.post (.buyStock (stockKey pid) qty) (.ok (n - qty)) l =
        l.take (stockKey pid) qty := if_pos h0
    have hne : ¬(n - qty = -2 ∨ n - qty = -1) := by omega
    rw [hpost]
    refine ⟨?_, ?_⟩
    · by_cases hkey : stockKey pid = stockKey p.toString
      · rw [hkey] at hn ⊢
        refine hinv.move hn ?_ ?_
        · simp [Ledger.val, Ledger.take, Carry.units, hl]
          omega
        · intro r
          simp [Ledger.val, Ledger.take, Carry.owes, hl]
      · have hval : (Ledger.val (stockKey p.toString) (l.take (stockKey pid) qty)) =
            Ledger.val (stockKey p.toString) l := by
          simp [Ledger.val, Ledger.take, Carry.units, Carry.count, Carry.owes, hl, hkey]
        rw [hval]
        exact hinv.congr rfl (Function.update_of_ne (Ne.symm hkey) _ _) rfl rfl
    · rw [ends_ok, if_neg hne]

theorem call_productFindById (pid : String) :
    ShopCall (logic doc p) i l (.productFindById pid) fun out l' =>
      l' = l ∧ ∀ d, out = .ok (some d) → castObjectId pid = some p → d = doc := by
  refine shop_call fun now w g f out w' hinv hg hx => ?_
  obtain ⟨q, a, h, rfl⟩ := exec_answered hg rfl hx
  obtain ⟨r, hr, h⟩ := Option.map_eq_some_iff.mp h
  cases h
  refine ⟨hinv, rfl, ?_⟩
  intro d hd hp
  rw [findByIdString, hp, Option.map_some, Option.some.injEq, hinv.catalog] at hr
  have hdoc : some d = some doc := (Except.ok.inj hd).symm.trans hr.symm
  cases hdoc; rfl

theorem call_setStockNx {pid : String} {v : Nat} (hv : castObjectId pid = some p → v = doc.stock) :
    ShopCall (logic doc p) i l (.setStockNx (stockKey pid) v) fun _ l' => l' = l := by
  refine shop_call fun now w g f out w' hinv hg hx => ⟨?_, rfl⟩
  obtain ⟨q, a, h, rfl⟩ := exec_answered hg rfl hx
  simp only [shopStore] at h
  split at h
  · cases h; exact hinv
  · rename_i hnone
    cases h
    by_cases hkey : stockKey pid = stockKey p.toString
    · rw [hkey] at hnone ⊢
      have hpid : pid = p.toString := stockKey_inj.mp hkey
      rw [hv (by rw [hpid, castObjectId_toString])]
      exact hinv.prime hnone
    · exact hinv.congr rfl (Function.update_of_ne (Ne.symm hkey) _ _) rfl rfl

theorem call_incrby {k : String} {n : Nat}
    (hl : l.carry = .taken k n ∨ ∃ r, l.carry = .undone r k n) :
    ShopCall (logic doc p) i l (.incrby k n)
      (Ends (fun _ l' => l' = l.giveBack) fun _ => False) := by
  refine shop_call fun now w g f out w' hinv hg hx => ?_
  obtain ⟨q, a, h, rfl⟩ := exec_answered hg rfl hx
  cases h
  refine ⟨?_, rfl⟩
  show Books doc p _ (Ledger.val (stockKey p.toString) l.giveBack + g)
  have howes : ∀ r, l.giveBack.carry.owes r + l.giveBack.refunds.count r =
      l.carry.owes r + l.refunds.count r := by
    intro r
    rcases hl with hl | ⟨r', hl⟩
    · simp [Ledger.giveBack, hl, Carry.refund, Carry.owes]
    · simp only [Ledger.giveBack, hl, Carry.refund, Carry.owes, List.singleton_append,
        List.count_cons, beq_iff_eq]
      omega
  by_cases hkey : k = stockKey p.toString
  · -- the counter exists, since this thread holds units of it
    have hcount : 0 < l.carry.count k := by
      rcases hl with hl | ⟨r, hl⟩ <;> simp [hl, Carry.count]
    have hunits : l.carry.units k = n := by
      rcases hl with hl | ⟨r, hl⟩ <;> simp [hl, Carry.units]
    subst hkey
    cases hs : w.stock (stockKey p.toString) with
    | none =>
      have := (hinv.unprimed hs).1
      simp only [Ledger.val, Prod.snd_add, Prod.fst_add] at this
      omega
    | some m =>
      rw [Option.getD_some]
      refine hinv.move hs ?_ ?_
      · have h0 : l.giveBack.carry.units (stockKey p.toString) = 0 := rfl
        simp only [Ledger.val, Prod.fst_add, hunits, h0]
        push_cast
        ring
      · intro r
        have := howes r
        simp only [Ledger.val, Prod.snd_add, Prod.fst_add, Pi.add_apply]
        omega
  · have hcount : l.carry.count (stockKey p.toString) = 0 := by
      rcases hl with hl | ⟨r, hl⟩ <;> simp [hl, Carry.count, hkey]
    have hunits : l.carry.units (stockKey p.toString) = 0 := by
      rcases hl with hl | ⟨r, hl⟩ <;> simp [hl, Carry.units, hkey]
    have h0 : l.giveBack.carry.units (stockKey p.toString) = 0 := rfl
    have h1 : l.giveBack.carry.count (stockKey p.toString) = 0 := rfl
    have hsame : Books doc p w (Ledger.val (stockKey p.toString) l.giveBack + g) := by
      refine hinv.settle ?_ ?_ ?_
      · simp only [Ledger.val, Prod.fst_add, hunits, h0]
      · simp only [Ledger.val, Prod.snd_add, Prod.fst_add, hcount, h1]
      · intro r
        have := howes r
        simp only [Ledger.val, Prod.snd_add, Prod.fst_add, Pi.add_apply]
        omega
    exact hsame.congr rfl (Function.update_of_ne (Ne.symm hkey) _ _) rfl rfl

/-! ## Calls on the records -/

theorem call_orderCreate {pid : String} {qty : Nat} (hl : l.carry = .taken (stockKey pid) qty)
    (hcanon : Canonical p pid) (uid : ObjectId) (price total : Nat) :
    ShopCall (logic doc p) i l (.orderCreate ⟨uid, pid, qty, price, total, .pending⟩)
      (Ends (fun _ l' => l' = l.place) fun _ => False) := by
  refine shop_call fun now w g f out w' hinv hg hx => ?_
  obtain ⟨q, a, h, rfl⟩ := exec_answered hg rfl hx
  refine ⟨?_, rfl⟩
  simp only [shopStore] at h
  split at h
  · cases h
  · rename_i p' hp'
    split at h
    · cases h
    · rename_i hfresh
      cases h
      have hkey := hcanon.eq_iff hp'
      show Books doc p _ (Ledger.val (stockKey p.toString) l.place + g)
      refine Books.addOrder hinv (fun h => hfresh (.inr h)) (fun he => by cases he) ?_ ?_ ?_ ?_
      · simp only [Ledger.val, Ledger.place, hl, Carry.units, Prod.fst_add, hkey]
        omega
      · rintro rfl
        simp only [Ledger.val, hl, Carry.count, Prod.snd_add, Prod.fst_add, hkey]
        simp
      · simp only [Ledger.val, Ledger.place, Carry.count, Prod.snd_add, Prod.fst_add]
        omega
      · intro r
        simp [Ledger.val, Ledger.place, hl, Carry.owes]

theorem call_reservationCreate {pid : String} {qty : Nat} {p' : ObjectId}
    (hl : l.carry = .taken (stockKey pid) qty) (hcanon : Canonical p pid)
    (hp' : castObjectId pid = some p') (uid : Option ObjectId) (t : Nat) :
    ShopCall (logic doc p) i l (.reservationCreate ⟨p', uid, qty, .held, t⟩)
      (Ends (fun _ l' => l' = l.place) fun l' => l' = l) := by
  refine shop_call fun now w g f out w' hinv hg hx => ?_
  rcases exec_steady hg hx with ⟨q, a, h, rfl⟩ | ⟨-, rfl, e, rfl⟩
  · refine ⟨?_, rfl⟩
    simp only [shopStore] at h
    split at h
    · cases h
    · rename_i hfresh
      cases h
      have hkey := hcanon.eq_iff hp'
      show Books doc p _ (Ledger.val (stockKey p.toString) l.place + g)
      refine Books.addReservation hinv (fun h => hfresh (.inr h)) rfl ?_ ?_ ?_ ?_
      · simp only [Ledger.val, Ledger.place, hl, Carry.units, Prod.fst_add, hkey]
        omega
      · rintro rfl
        simp only [Ledger.val, hl, Carry.count, Prod.snd_add, Prod.fst_add, hkey]
        simp
      · simp only [Ledger.val, Ledger.place, Carry.count, Prod.snd_add, Prod.fst_add]
        omega
      · intro r
        simp [Ledger.val, Ledger.place, hl, Carry.owes]
  · exact ⟨hinv, rfl⟩

theorem call_orderSave (oid : ObjectId) (n : Nat) :
    ShopCall (logic doc p) i l (.orderSave oid n)
      (Ends (fun _ l' => l' = l) fun _ => False) := by
  refine shop_call fun now w g f out w' hinv hg hx => ?_
  obtain ⟨q, a, h, rfl⟩ := exec_answered hg rfl hx
  cases h
  refine ⟨Books.mapOrders hinv fun d => ?_, rfl⟩
  split <;> exact ⟨rfl, rfl, rfl, rfl⟩

/-- A pending order is failed: its units come into this thread's hands. -/
theorem call_failOrder (hl : l.carry = .nothing) (oid : String) (reason : Option String) :
    ShopCall (logic doc p) i l (.orderFindOneAndUpdate oid .pending .failed reason)
      (Ends (fun r l' => match r with
        | none => l' = l
        | some d => l' = l.undo (.order d.id) d.productId d.quantity) fun _ => False) := by
  refine shop_call fun now w g f out w' hinv hg hx => ?_
  obtain ⟨q, a, h, rfl⟩ := exec_answered hg rfl hx
  obtain ⟨⟨r, docs⟩, hr, h⟩ := Option.map_eq_some_iff.mp h
  cases h
  rcases Collection.findOneAndUpdate_cases hr with ⟨d, hd, hm, rfl, rfl⟩ | ⟨rfl, rfl, -⟩
  · have hst : d.status = .pending := by
      simp only [orderMatches, Bool.and_eq_true, beq_iff_eq] at hm
      simpa using hm.2
    refine ⟨?_, rfl⟩
    show Books doc p _ (Ledger.val (stockKey p.toString)
      (l.undo (.order d.id) d.productId d.quantity) + g)
    refine Books.setOrder hinv hd rfl rfl ?_ ?_ ?_
    · simp only [Ledger.val, Ledger.undo, hl, Carry.units, Prod.fst_add, Books.orderUnits, hst,
        stockKey_inj, ObjectId.toString_inj]
      simp
      omega
    · intro hne
      simp [Ledger.val, Ledger.undo, hl, Carry.count, hne]
    · intro r
      simp only [Ledger.val, Ledger.undo, hl, Carry.owes, Prod.snd_add, Prod.fst_add,
        Pi.add_apply, Books.orderUndone, hst]
      simp
      omega
  · exact ⟨hinv, rfl⟩

/-- The other steps of an order move no units. -/
theorem call_advanceOrder {src dst : OrderStatus} (hsrc : src ≠ .failed) (hdst : dst ≠ .failed)
    (oid : String) (reason : Option String) :
    ShopCall (logic doc p) i l (.orderFindOneAndUpdate oid src dst reason)
      (Ends (fun _ l' => l' = l) fun _ => False) := by
  refine shop_call fun now w g f out w' hinv hg hx => ?_
  obtain ⟨q, a, h, rfl⟩ := exec_answered hg rfl hx
  obtain ⟨⟨r, docs⟩, hr, h⟩ := Option.map_eq_some_iff.mp h
  cases h
  have hpost : Ledger.post (.orderFindOneAndUpdate oid src dst reason) (.ok r) l = l := by
    cases r with
    | none => rfl
    | some d => exact if_neg hdst
  rw [hpost]
  refine ⟨?_, rfl⟩
  rcases Collection.findOneAndUpdate_cases hr with ⟨d, hd, hm, rfl, rfl⟩ | ⟨rfl, rfl, -⟩
  · have hst : d.status = src := by
      simp only [orderMatches, Bool.and_eq_true, beq_iff_eq] at hm
      simpa using hm.2
    refine Books.setOrder hinv hd rfl rfl ?_ (fun _ => rfl) ?_
    · simp [Books.orderUnits, hst, hsrc, hdst]
    · intro r
      simp [Books.orderUndone, hst, hsrc, hdst]
  · exact hinv

theorem neutral_advanceOrder {src dst : OrderStatus} (hsrc : src ≠ .failed) (hdst : dst ≠ .failed)
    (oid : String) (reason : Option String) :
    (logic doc p).Neutral (.inr (.orderFindOneAndUpdate oid src dst reason)) := by
  intro i l
  refine (call_advanceOrder hsrc hdst oid reason).mono ?_
  rintro (e | r) l' h
  · exact h.elim
  · exact h

/-- A held reservation expires or is released: its units come into this thread's hands. -/
theorem call_undoReservation (hl : l.carry = .nothing) {f : ReservationFilter}
    (hf : f.status = .held) {dst : ReservationStatus} (hdst : dst = .expired ∨ dst = .released) :
    ShopCall (logic doc p) i l (.reservationFindOneAndUpdate f dst)
      (Ends (fun r l' => match r with
        | none => l' = l
        | some d => l' = l.undo (.reservation d.id) d.productId d.quantity) fun _ => False) := by
  refine shop_call fun now w g x out w' hinv hg hx => ?_
  obtain ⟨q, a, h, rfl⟩ := exec_answered hg rfl hx
  obtain ⟨⟨r, docs⟩, hr, h⟩ := Option.map_eq_some_iff.mp h
  cases h
  rcases Collection.findOneAndUpdate_cases hr with ⟨d, hd, hm, rfl, rfl⟩ | ⟨rfl, rfl, -⟩
  · have hst : d.status = .held := by
      simp only [ReservationFilter.matches, Bool.and_eq_true, beq_iff_eq] at hm
      rw [hm.1.2, hf]
    have hpost : Ledger.post (.reservationFindOneAndUpdate f dst)
        (.ok (some { d with status := dst })) l =
          l.undo (.reservation d.id) d.productId d.quantity := if_pos hdst
    have hgone : ¬(dst = .held ∨ dst = .confirmed) := by
      rcases hdst with rfl | rfl <;> decide
    rw [hpost]
    refine ⟨?_, rfl⟩
    refine Books.setReservation hinv hd rfl rfl ?_ ?_ ?_
    · simp only [Ledger.val, Ledger.undo, hl, Carry.units, Prod.fst_add,
        Books.reservationUnits, hst, stockKey_inj, ObjectId.toString_inj]
      simp [hgone]
      omega
    · intro hne
      simp [Ledger.val, Ledger.undo, hl, Carry.count, hne]
    · intro r
      simp only [Ledger.val, Ledger.undo, hl, Carry.owes, Prod.snd_add, Prod.fst_add,
        Pi.add_apply, Books.reservationUndone, hst]
      simp [hdst]
      omega
  · exact ⟨hinv, rfl⟩

/-- A confirmed reservation keeps its units. -/
theorem neutral_confirm {f : ReservationFilter} (hf : f.status = .held) :
    (logic doc p).Neutral (.inr (.reservationFindOneAndUpdate f .confirmed)) := by
  intro i l
  refine shop_call fun now w g x out w' hinv hg hx => ?_
  obtain ⟨q, a, h, rfl⟩ := exec_answered hg rfl hx
  obtain ⟨⟨r, docs⟩, hr, h⟩ := Option.map_eq_some_iff.mp h
  cases h
  have hpost : Ledger.post (.reservationFindOneAndUpdate f .confirmed) (.ok r) l = l := by
    cases r with
    | none => rfl
    | some d => simp [Ledger.post]
  rw [hpost]
  refine ⟨?_, rfl⟩
  rcases Collection.findOneAndUpdate_cases hr with ⟨d, hd, hm, rfl, rfl⟩ | ⟨rfl, rfl, -⟩
  · have hst : d.status = .held := by
      simp only [ReservationFilter.matches, Bool.and_eq_true, beq_iff_eq] at hm
      rw [hm.1.2, hf]
    refine Books.setReservation hinv hd rfl rfl ?_ (fun _ => rfl) ?_
    · simp [Books.reservationUnits, hst]
    · intro r
      simp [Books.reservationUndone, hst]
  · exact hinv

/-! ## Programs

A thread starts with nothing in its hands, and has nothing in its hands when it ends. -/

theorem safe_neutral {α : Type} {m : ShopProg α} (hl : l.carry = .nothing)
    (h : m.Calls fun o => (logic doc p).Neutral (.inr o)) :
    (logic doc p).Safe i m.inr l fun _ l' => l'.carry = .nothing := by
  refine (safe_inr_of_neutral h).mono ?_
  rintro out l' rfl
  exact hl

theorem safe_purchase (hl : l.carry = .nothing) (pid : String) (qty : Nat) :
    (logic doc p).Safe i (purchase pid qty).inr l
      (Ends (Took (fun l' => l'.carry = .taken (stockKey pid) qty) fun l' => l'.carry = .nothing)
        fun l' => l'.carry = .nothing ∨ False) := by
  refine Flashkart.safe_purchase (D := fun d => castObjectId pid = some p → d = doc) hl
    (fun l hl => (call_buyStock hl pid qty).mono ?_) (fun l hl => ?_) ?_ fun r => neutral rfl
  · intro out l' h
    refine h.mono ?_ id
    intro r hr
    split
    · rename_i h2
      rw [if_pos h2] at hr
      exact hr ▸ hl
    · rename_i h2
      rw [if_neg h2] at hr
      rw [hr]
      rfl
  · exact (call_productFindById pid).mono fun out l' h => ⟨h.1 ▸ hl, h.2⟩
  · intro l d hl hd
    exact (call_setStockNx fun hp => by rw [hd hp]).mono fun _ l' h => h ▸ hl

theorem safe_reserve (hl : l.carry = .nothing) {pid : String} (hcanon : Canonical p pid)
    (qty : Nat) (uid : Option String) :
    (logic doc p).Safe i (reserve pid qty uid).inr l
      (Ends (Held (fun l' => l'.carry = .nothing) fun l' => l'.carry = .nothing)
        fun l' => l'.carry = .nothing ∨ False ∨ l'.carry = .nothing) := by
  refine Flashkart.safe_reserve (safe_purchase hl pid qty) ?_ ?_ (fun r => neutral rfl) ?_
  · intro l' h
    refine shop_call fun now w g f out w' hinv hg hx => ?_
    obtain ⟨q, a, h', rfl⟩ := exec_answered hg rfl hx
    cases h'
    exact ⟨hinv, h⟩
  · intro l' p' uid t h hp'
    refine (call_reservationCreate h hcanon hp' uid t).mono ?_
    intro out l'' h'
    refine h'.mono ?_ ?_
    · rintro a rfl; rfl
    · rintro rfl; exact h
  · intro l' h
    refine (call_incrby (.inl h)).mono ?_
    rintro (e | a) l'' h'
    · exact h'.elim
    · obtain rfl : l'' = l'.giveBack := h'
      rfl

theorem safe_doPurchase (hl : l.carry = .nothing) {pid : String} (hcanon : Canonical p pid)
    (uid : ObjectId) (qty : Nat) :
    (logic doc p).Safe i (doPurchase uid pid qty).inr l
      (Ends (Served pid qty fun l' => l'.carry = .nothing)
        fun l' => l'.carry = .nothing ∨ False ∨ False) := by
  refine Flashkart.safe_doPurchase (safe_purchase hl pid qty) ?_ ?_ fun _ => neutral rfl
  · intro l' h
    refine shop_call fun now w g f out w' hinv hg hx => ?_
    obtain ⟨q, a, h', rfl⟩ := exec_answered hg rfl hx
    obtain ⟨r, -, h'⟩ := Option.map_eq_some_iff.mp h'
    cases h'
    exact ⟨hinv, h⟩
  · intro l' price total h
    refine (call_orderCreate h hcanon uid price total).mono ?_
    intro out l'' h'
    refine h'.mono ?_ id
    rintro a rfl; rfl

theorem safe_moneyRoute {scope : String} {req : BuyRequest} (hl : l.carry = .nothing)
    {work : ObjectId → String → Nat → ShopProg (StoredResult Body)} {E : Ledger → Prop}
    (hE : ∀ l', E l' → l'.carry = .nothing)
    (hwork : ∀ q, (logic doc p).Safe i (work req.userId req.id q).inr l
      (Ends (Served req.id q fun l' => l'.carry = .nothing)
        fun l' => l'.carry = .nothing ∨ E l')) :
    (logic doc p).Safe i (ShopRes.response <$> moneyRoute scope work req) l fun _ l' =>
      l'.carry = .nothing := by
  rw [Prog.map_eq]
  refine safe_bind.mpr ((Flashkart.safe_moneyRoute (K := logic doc p)
    (I := fun l' => l'.carry = .nothing) (C := fun _ l' => l'.carry = .nothing)
    (F := fun l' => l'.carry = .nothing) hl (fun k => neutral_kv k) (fun q _ => hwork q) ?_).mono
      ?_)
  · intro key v q l' h
    refine (neutral_kv _ i l').mono ?_
    rintro out l'' rfl
    exact ⟨rfl, fun _ _ => h⟩
  · rintro (e | r) l' h
    · rcases h with h | h | h
      · exact h
      · exact hE l' h
      · exact h
    · rcases h with ⟨-, h⟩ | ⟨-, -, -, -, h⟩
      · exact h
      · exact h

theorem undoes : Undoes (logic doc p) i (fun l => l.carry = .nothing)
    fun key units l => ∃ r, l.carry = .undone r key units where
  reservation := by
    intro l f dst hl hf hdst
    refine (call_undoReservation hl hf hdst).mono ?_
    rintro (e | _ | d) l' h
    · exact h.elim
    · obtain rfl : l' = l := h
      exact hl
    · obtain rfl : l' = l.undo (.reservation d.id) d.productId d.quantity := h
      exact ⟨_, rfl⟩
  order := by
    intro l id reason hl
    refine (call_failOrder hl id reason).mono ?_
    rintro (e | _ | d) l' h
    · exact h.elim
    · obtain rfl : l' = l := h
      exact hl
    · obtain rfl : l' = l.undo (.order d.id) d.productId d.quantity := h
      exact ⟨_, rfl⟩
  giveBack := by
    rintro l key units ⟨r, hl⟩
    refine (call_incrby (.inr ⟨r, hl⟩)).mono ?_
    rintro (e | v) l' h
    · exact h.elim
    · obtain rfl : l' = l.giveBack := h
      rfl
  besides := by
    intro o l ho hl
    cases o <;> first | exact (neutral rfl).keeps hl | cases ho
  handles := by
    intro q oid o l ho hl
    cases o with
    | orderFindOneAndUpdate id src dst reason =>
      simp only [handlerMay, Bool.and_eq_true, decide_eq_true_eq] at ho
      have hstage := ho.2
      cases q <;> cases hstage <;>
        exact (neutral_advanceOrder (by decide) (by decide) id reason).keeps hl
    | orderSave id n =>
      refine (call_orderSave id n).mono ?_
      rintro (e | u) l' h
      · exact h.elim
      · exact h ▸ hl
    | _ => first | exact (neutral rfl).keeps hl | cases ho

theorem safe_map {α : Type} {m : ShopProg α} {f : α → ShopRes}
    (h : (logic doc p).Safe i m.inr l fun _ l' => l'.carry = .nothing) :
    (logic doc p).Safe i (f <$> m.inr) l fun _ l' => l'.carry = .nothing := by
  rw [Prog.map_eq]
  refine safe_bind.mpr (h.mono ?_)
  rintro (e | a) l' h' <;> exact h'

theorem safe_request (hl : l.carry = .nothing) {r : ShopReq}
    (hr : ∀ pid, r.productId = some pid → Canonical p pid) :
    (logic doc p).Safe i (shopProg r) l fun _ l' => l'.carry = .nothing := by
  cases r with
  | postBuy req =>
    exact safe_moneyRoute hl (fun l' h => h.elim False.elim False.elim) fun q =>
      safe_doPurchase hl (hr _ rfl) _ q
  | postReserve req =>
    refine safe_moneyRoute hl (E := fun l' => False ∨ l'.carry = .nothing)
      (fun l' h => h.resolve_left id) fun q => safe_doReserve (safe_reserve hl (hr _ rfl) q _)
  | reserve pid qty uid =>
    refine safe_map ((safe_reserve hl (hr _ rfl) qty uid).mono ?_)
    rintro (e | a) l' h
    · rcases h with h | h | h
      · exact h
      · exact h.elim
      · exact h
    · cases a <;> exact h
  | confirm id =>
    refine safe_map (safe_neutral hl ((calls_confirm id).mono fun o ho => ?_))
    cases o with
    | reservationFindOneAndUpdate f dst =>
      simp only [ShopReq.may, Bool.and_eq_true, decide_eq_true_eq] at ho
      rw [ho.2]
      exact neutral_confirm ho.1
    | _ => first | exact neutral rfl | cases ho
  | _ => exact undoes.request rfl hl

end Conserve

/-- Ids of `p` come in canonical spelling, its catalog document stays as it is, and the store
calls are `steady`. -/
def conserving (p : ObjectId) (c : ShopConfig) : ShopAct → Bool
  | .arrive r => r.productId.all fun pid => castObjectId pid != some p || pid == p.toString
  | .call i f => (c.next i).all fun o => steady o f
  | .env (.catalog id _) => id != p
  | _ => true

/-- What a thread has done to the stock, by its calls so far. -/
def ledger (t : ShopThread) : Ledger := t.account (shopPost Ledger.post) fun _ _ => .empty

/-- How often a record's units have been given back. -/
def refunds (r : Record) (c : ShopConfig) : Nat :=
  (c.pool.map fun t => (ledger t).refunds.count r).sum

namespace Conserve

variable {doc : ProductDoc} {p : ObjectId} {n : Nat} {catalog : ObjectId → Option ProductDoc}

theorem outline (hdoc : catalog p = some doc) :
    shopSystem.Outline (fun c a => conserving p c a = true) (freshShop n catalog) (logic doc p)
      (fun _ _ => .empty) fun _ _ _ l => l.carry = .nothing where
  store := rfl
  start := by
    refine ⟨rfl, hdoc, ?_, ?_, ?_, List.nodup_nil, List.nodup_nil⟩
    · simp [freshShop, Config.init, Shop.liveStock, Shop.fresh, Shop.heldUnits,
        Shop.orderedUnits]
    · intro _
      exact ⟨rfl, by simp [freshShop, Config.init, Shop.fresh],
        by simp [freshShop, Config.init, Shop.fresh]⟩
    · intro r
      cases r <;> simp [freshShop, Config.init, Shop.fresh, Shop.undone]
  arrive := by
    intro c r w' _ hok hacc hinv
    have hcanon : ∀ pid, r.productId = some pid → Canonical p pid := by
      intro pid hpid hp
      simpa [conserving, hpid, hp] using hok
    refine ⟨?_, safe_request rfl hcanon⟩
    have hsame := (accept_same hacc).2
    have hval : (logic doc p).val Ledger.empty + System.worth (logic doc p) (fun _ _ => .empty)
        c.pool = System.worth (logic doc p) (fun _ _ => .empty) c.pool := by
      have h0 : (logic doc p).val Ledger.empty = 0 := by
        simp [logic, shopLogic, Ledger.val, Ledger.empty, Carry.units, Carry.count, Carry.owes]
        rfl
      rw [h0, zero_add]
    rw [hval]
    exact Books.congr hinv (by rw [hsame.products]) (by rw [hsame.stock (fun he => by cases he)])
      (hsame.reservations (fun he => by cases he)) (hsame.orders (fun he => by cases he))
  tick := fun _ _ _ h => h
  env := by
    intro c g e w' hok he hinv
    obtain ⟨s, hs, rfl⟩ := Option.map_eq_some_iff.mp he
    obtain ⟨hsame, hprod⟩ := surroundings_same hs
    refine Books.congr hinv (hprod p ?_) (by rw [hsame.stock]) hsame.reservations hsame.orders
    rintro d rfl
    simp [conserving] at hok
  guard := by
    intro c j f t o k _ hok ht hp _
    have hsteady : steady o f = true := by simpa [conserving, System.next_eq ht hp] using hok
    exact hsteady

end Conserve

end Flashkart
