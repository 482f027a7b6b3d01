import Flashkart.Shop.Ledger
import Flashkart.Shop.Undo

/-!
# Shop.Refund

What becomes of an undone record when store calls fail. Each of the four operations flips a status
in Mongo and then adds the units to a counter in Redis, and nothing looks at the record again once
its status has changed.

* `refunded_once`     — as long as the `INCRBY` after a flip goes through, every undone record is
  credited exactly once, whatever else throws.
* `refund_lost`       — an `INCRBY` that throws once. No later sweep makes up for it.
-/

namespace Flashkart

open Async Logic

/-- An `INCRBY` made, or to be made, for an undone record. -/
structure Credit where
  record : Record
  key : String
  units : Nat
  deriving DecidableEq

/-- What one thread owes and what it has credited. -/
structure Refunder where
  owed : Option Credit
  credits : List Credit

def ReservationDoc.credit (d : ReservationDoc) : Credit := ⟨.reservation d.id, d.stockKey, d.quantity⟩

def OrderDoc.credit (d : OrderDoc) : Credit := ⟨.order d.id, d.stockKey, d.quantity⟩

/-- An `INCRBY` is for the record that the thread has undone last and not credited yet. -/
def Refunder.credit (l : Refunder) (key : String) (n : Nat) : Refunder :=
  ⟨none, (l.owed.map fun e => Credit.mk e.record key n).toList ++ l.credits⟩

def Refunder.post : (o : ShopOp) → Except Err o.Ret → Refunder → Refunder
  | .reservationFindOneAndUpdate _ dst, .ok (some d), l =>
    if dst = .expired ∨ dst = .released then { l with owed := some d.credit } else l
  | .orderFindOneAndUpdate _ _ dst _, .ok (some d), l =>
    if dst = .failed then { l with owed := some d.credit } else l
  | .incrby k n, .ok _, l => l.credit k n
  | _, _, l => l

def Refunder.val (l : Refunder) : Multiset Credit := (l.owed.toList ++ l.credits : List Credit)

/-- The credit that is due for a record, if it is an undone one. -/
def ReservationDoc.due (d : ReservationDoc) : Multiset Credit :=
  if d.status = .expired ∨ d.status = .released then {d.credit} else 0

def OrderDoc.due (d : OrderDoc) : Multiset Credit := if d.status = .failed then {d.credit} else 0

/-- What has been undone, is either owed by a thread or credited. -/
structure Refunds (w : Shop) (g : Multiset Credit) : Prop where
  due : g = (w.reservations.map (·.due)).sum + (w.orders.map (·.due)).sum
  orderIds : (w.orders.map (·.id)).Nodup
  reservationIds : (w.reservations.map (·.id)).Nodup

namespace Refunds

variable {w w' : Shop} {g g' : Multiset Credit} {j : Nat}

theorem congr (h : Refunds w g) (hr : w'.reservations = w.reservations)
    (ho : w'.orders = w.orders) : Refunds w' g := by
  refine ⟨?_, ho ▸ h.orderIds, hr ▸ h.reservationIds⟩
  rw [hr, ho]
  exact h.due

theorem addReservation {d : ReservationDoc} (h : Refunds w g)
    (hfresh : d.id ∉ w.reservations.map (·.id)) (hd : d.due = 0) :
    Refunds { w with reservations := w.reservations ++ [d] } g := by
  refine ⟨?_, h.orderIds, Collection.nodup_concat h.reservationIds hfresh⟩
  rw [h.due]
  simp [hd]

theorem addOrder {d : OrderDoc} (h : Refunds w g) (hfresh : d.id ∉ w.orders.map (·.id))
    (hd : d.due = 0) : Refunds { w with orders := w.orders ++ [d] } g := by
  refine ⟨?_, Collection.nodup_concat h.orderIds hfresh, h.reservationIds⟩
  rw [h.due]
  simp [hd]

theorem setReservation {d d' : ReservationDoc} (h : Refunds w g)
    (hd : w.reservations[j]? = some d) (hid : d'.id = d.id) (hg : g + d'.due = g' + d.due) :
    Refunds { w with reservations := w.reservations.set j d' } g' := by
  refine ⟨?_, h.orderIds, ?_⟩
  · have hsum := Collection.sum_set (fun e : ReservationDoc => e.due) d' hd
    refine add_right_cancel (b := d.due) (hg.symm.trans ?_)
    rw [h.due, add_right_comm, ← hsum, add_right_comm]
  · have hids : (w.reservations.set j d').map (·.id) = w.reservations.map (·.id) :=
      Collection.map_set_of_eq hd hid
    exact hids ▸ h.reservationIds

theorem setOrder {d d' : OrderDoc} (h : Refunds w g) (hd : w.orders[j]? = some d)
    (hid : d'.id = d.id) (hg : g + d'.due = g' + d.due) :
    Refunds { w with orders := w.orders.set j d' } g' := by
  refine ⟨?_, ?_, h.reservationIds⟩
  · have hsum := Collection.sum_set (fun e : OrderDoc => e.due) d' hd
    refine add_right_cancel (b := d.due) (hg.symm.trans ?_)
    rw [h.due, add_assoc, ← hsum, ← add_assoc]
  · have hids : (w.orders.set j d').map (·.id) = w.orders.map (·.id) :=
      Collection.map_set_of_eq hd hid
    exact hids ▸ h.orderIds

theorem mapOrders {f : OrderDoc → OrderDoc} (h : Refunds w g)
    (hf : ∀ d, (f d).id = d.id ∧ (f d).due = d.due) :
    Refunds { w with orders := w.orders.map f } g := by
  have hmap : ∀ {K : Type} (key : OrderDoc → K), (∀ d, key (f d) = key d) →
      (w.orders.map f).map key = w.orders.map key := by
    intro K key hkey
    rw [List.map_map]
    exact List.map_congr_left fun d _ => hkey d
  refine ⟨?_, ?_, h.reservationIds⟩
  · rw [h.due]
    exact congrArg _ (congrArg List.sum (hmap (·.due) fun d => (hf d).2).symm)
  · have hids := hmap (·.id) fun d => (hf d).1
    exact hids ▸ h.orderIds

end Refunds

namespace Refund

/-- Every call that throws throws without effect, and a thread that owes a credit makes it. -/
def guard (l : Refunder) (f : Fate Err Pick) : Prop :=
  (∀ e p, f ≠ .lost e p) ∧ (l.owed.isSome → f.isAnswered = true)

def logic : ShopLogic Refunder (Multiset Credit) :=
  shopLogic (fun _ l _ _ _ f => guard l f) Refunds Refunder.post Refunder.val

def Idle (l : Refunder) : Prop := l.owed = none

def Owes (key : String) (units : Nat) (l : Refunder) : Prop := ∃ r, l.owed = some ⟨r, key, units⟩

variable {i : Nat} {l : Refunder}

theorem exec_guarded {now : Nat} {o : ShopOp} {f : Fate Err Pick} {w w' : Shop}
    {out : Except Err o.Ret} (hf : guard l f) (h : shopStore.exec now i o f w = some (out, w')) :
    (∃ q a, shopStore now i o q w = some (a, w') ∧ out = .ok a) ∨
      (l.owed = none ∧ w' = w ∧ ∃ e, out = .error e) := by
  rcases Store.exec_cases h with ⟨q, a, -, h, ho⟩ | ⟨e, rfl, rfl, ho⟩ | ⟨e, q, a, rfl, -, -⟩
  · exact .inl ⟨q, a, h, ho⟩
  · refine .inr ⟨?_, rfl, e, ho⟩
    cases hl : l.owed with
    | none => rfl
    | some c => cases hf.2 (by rw [hl]; rfl)
  · exact absurd rfl (hf.1 e q)

/-- The calls that neither the records nor the accounts depend on. -/
def neutralOp : ShopOp → Bool
  | .incrby .. | .orderCreate _ | .orderSave .. | .orderFindOneAndUpdate .. => false
  | .reservationCreate _ | .reservationFindOneAndUpdate .. => false
  | _ => true

theorem neutral {o : ShopOp} (h : neutralOp o = true) : logic.Neutral (.inr o) := by
  refine neutral_shop (fun w w' g hsame hinv => ?_) fun out l => ?_
  · refine hinv.congr ?_ ?_
    · exact hsame.reservations (by cases o <;> first | (cases h; done) | (intro he; cases he))
    · exact hsame.orders (by cases o <;> first | (cases h; done) | (intro he; cases he))
  · cases o <;> first | rfl | cases h

/-- A thread that owes nothing credits nothing. -/
theorem credit_idle (hl : Idle l) (key : String) (n : Nat) : l.credit key n = l := by
  obtain ⟨owed, credits⟩ := l
  obtain rfl : owed = none := hl
  rfl

/-- The units in an `INCRBY` of a thread that owes them are those it owes. -/
theorem val_credit {key : String} {n : Nat} (hl : Owes key n l) :
    (l.credit key n).val = l.val := by
  obtain ⟨r, hl⟩ := hl
  simp [Refunder.val, Refunder.credit, hl]

theorem call_incrby {key : String} {n : Nat} (hl : Idle l ∨ Owes key n l) :
    ShopCall logic i l (.incrby key n) fun _ => Idle := by
  refine shop_call fun now w g f out w' hinv hg hx => ?_
  rcases exec_guarded hg hx with ⟨q, a, h, rfl⟩ | ⟨hnone, rfl, e, rfl⟩
  · cases h
    refine ⟨?_, rfl⟩
    have hval : (l.credit key n).val = l.val := by
      rcases hl with hl | hl
      · rw [credit_idle hl]
      · exact val_credit hl
    show Refunds _ ((l.credit key n).val + g)
    rw [hval]
    exact hinv.congr rfl rfl
  · exact ⟨hinv, hnone⟩

theorem call_reservation {f : ReservationFilter} {dst : ReservationStatus} (hl : Idle l)
    (hf : f.status = .held) (hdst : dst = .expired ∨ dst = .released) :
    ShopCall logic i l (.reservationFindOneAndUpdate f dst)
      (Ends (Flipped ReservationDoc.stockKey (·.quantity) Idle Owes) Idle) := by
  refine shop_call fun now w g x out w' hinv hg hx => ?_
  rcases exec_guarded hg hx with ⟨q, a, h, rfl⟩ | ⟨-, rfl, e, rfl⟩
  · obtain ⟨⟨r, docs⟩, hr, h⟩ := Option.map_eq_some_iff.mp h
    cases h
    rcases Collection.findOneAndUpdate_cases hr with ⟨d, hd, hm, rfl, rfl⟩ | ⟨rfl, rfl, -⟩
    · have hst : d.status = .held := by
        simp only [ReservationFilter.matches, Bool.and_eq_true, beq_iff_eq] at hm
        rw [hm.1.2, hf]
      have hpost : Refunder.post (.reservationFindOneAndUpdate f dst)
          (.ok (some { d with status := dst })) l =
            { l with owed := some ({ d with status := dst } : ReservationDoc).credit } :=
        if_pos hdst
      have hdue : ({ d with status := dst } : ReservationDoc).due = {d.credit} := if_pos hdst
      have hnone : d.due = 0 := by simp [ReservationDoc.due, hst]
      rw [hpost]
      refine ⟨hinv.setReservation hd rfl ?_, ⟨_, rfl⟩⟩
      show l.val + g + _ = Refunder.val ⟨some d.credit, l.credits⟩ + g + _
      obtain ⟨owed, credits⟩ := l
      obtain rfl : owed = none := hl
      rw [hdue, hnone, add_zero, Multiset.add_comm _ {d.credit}, ← Multiset.add_assoc]
      rfl
    · exact ⟨hinv, hl⟩
  · exact ⟨hinv, hl⟩

theorem call_order {reason : Option String} (hl : Idle l) (oid : String) :
    ShopCall logic i l (.orderFindOneAndUpdate oid .pending .failed reason)
      (Ends (Flipped OrderDoc.stockKey (·.quantity) Idle Owes) Idle) := by
  refine shop_call fun now w g x out w' hinv hg hx => ?_
  rcases exec_guarded hg hx with ⟨q, a, h, rfl⟩ | ⟨-, rfl, e, rfl⟩
  · obtain ⟨⟨r, docs⟩, hr, h⟩ := Option.map_eq_some_iff.mp h
    cases h
    rcases Collection.findOneAndUpdate_cases hr with ⟨d, hd, hm, rfl, rfl⟩ | ⟨rfl, rfl, -⟩
    · have hst : d.status = .pending := by
        simp only [orderMatches, Bool.and_eq_true, beq_iff_eq] at hm
        simpa using hm.2
      have hnone : d.due = 0 := by simp [OrderDoc.due, hst]
      refine ⟨hinv.setOrder hd rfl ?_, ⟨_, rfl⟩⟩
      show l.val + g + {d.credit} = Refunder.val ⟨some d.credit, l.credits⟩ + g + _
      obtain ⟨owed, credits⟩ := l
      obtain rfl : owed = none := hl
      rw [hnone, add_zero, Multiset.add_comm _ {d.credit}, ← Multiset.add_assoc]
      rfl
    · exact ⟨hinv, hl⟩
  · exact ⟨hinv, hl⟩

/-- An update of the reservations that undoes none. -/
theorem call_confirm {f : ReservationFilter} (hl : Idle l) (hf : f.status = .held) :
    ShopCall logic i l (.reservationFindOneAndUpdate f .confirmed) fun _ => Idle := by
  refine shop_call fun now w g x out w' hinv hg hx => ?_
  rcases exec_guarded hg hx with ⟨q, a, h, rfl⟩ | ⟨-, rfl, e, rfl⟩
  · obtain ⟨⟨r, docs⟩, hr, h⟩ := Option.map_eq_some_iff.mp h
    cases h
    have hpost : Refunder.post (.reservationFindOneAndUpdate f .confirmed) (.ok r) l = l := by
      cases r with
      | none => rfl
      | some d => simp [Refunder.post]
    rw [hpost]
    refine ⟨?_, hl⟩
    rcases Collection.findOneAndUpdate_cases hr with ⟨d, hd, hm, rfl, rfl⟩ | ⟨rfl, rfl, -⟩
    · have hst : d.status = .held := by
        simp only [ReservationFilter.matches, Bool.and_eq_true, beq_iff_eq] at hm
        rw [hm.1.2, hf]
      exact hinv.setReservation hd rfl (by simp [ReservationDoc.due, hst])
    · exact hinv
  · exact ⟨hinv, hl⟩

/-- The other steps of an order fail none. -/
theorem call_advance {src dst : OrderStatus} {reason : Option String} (hl : Idle l)
    (hsrc : src ≠ .failed) (hdst : dst ≠ .failed) (oid : String) :
    ShopCall logic i l (.orderFindOneAndUpdate oid src dst reason) fun _ => Idle := by
  refine shop_call fun now w g x out w' hinv hg hx => ?_
  rcases exec_guarded hg hx with ⟨q, a, h, rfl⟩ | ⟨-, rfl, e, rfl⟩
  · obtain ⟨⟨r, docs⟩, hr, h⟩ := Option.map_eq_some_iff.mp h
    cases h
    have hpost : Refunder.post (.orderFindOneAndUpdate oid src dst reason) (.ok r) l = l := by
      cases r with
      | none => rfl
      | some d => exact if_neg hdst
    rw [hpost]
    refine ⟨?_, hl⟩
    rcases Collection.findOneAndUpdate_cases hr with ⟨d, hd, hm, rfl, rfl⟩ | ⟨rfl, rfl, -⟩
    · have hst : d.status = src := by
        simp only [orderMatches, Bool.and_eq_true, beq_iff_eq] at hm
        simpa using hm.2
      exact hinv.setOrder hd rfl (by simp [OrderDoc.due, hst, hsrc, hdst])
    · exact hinv
  · exact ⟨hinv, hl⟩

theorem call_orderSave (hl : Idle l) (oid : ObjectId) (n : Nat) :
    ShopCall logic i l (.orderSave oid n) fun _ => Idle := by
  refine shop_call fun now w g x out w' hinv hg hx => ?_
  rcases exec_guarded hg hx with ⟨q, a, h, rfl⟩ | ⟨-, rfl, e, rfl⟩
  · cases h
    refine ⟨hinv.mapOrders fun d => ?_, hl⟩
    split <;> exact ⟨rfl, rfl⟩
  · exact ⟨hinv, hl⟩

theorem call_orderCreate {r : OrderInput} (hl : Idle l) (hr : r.status = .pending) :
    ShopCall logic i l (.orderCreate r) fun _ => Idle := by
  refine shop_call fun now w g x out w' hinv hg hx => ?_
  rcases exec_guarded hg hx with ⟨q, a, h, rfl⟩ | ⟨-, rfl, e, rfl⟩
  · refine ⟨?_, hl⟩
    simp only [shopStore] at h
    split at h
    · cases h
    · split at h
      · cases h
      · rename_i hfresh
        cases h
        exact hinv.addOrder (fun hmem => hfresh (.inr hmem)) (by simp [OrderDoc.due, hr])
  · exact ⟨hinv, hl⟩

theorem call_reservationCreate {r : ReservationInput} (hl : Idle l) (hr : r.status = .held) :
    ShopCall logic i l (.reservationCreate r) fun _ => Idle := by
  refine shop_call fun now w g x out w' hinv hg hx => ?_
  rcases exec_guarded hg hx with ⟨q, a, h, rfl⟩ | ⟨-, rfl, e, rfl⟩
  · refine ⟨?_, hl⟩
    simp only [shopStore] at h
    split at h
    · cases h
    · rename_i hfresh
      cases h
      exact hinv.addReservation (fun hmem => hfresh (.inr hmem)) (by simp [ReservationDoc.due, hr])
  · exact ⟨hinv, hl⟩

theorem undoes : Undoes logic i Idle Owes where
  reservation := fun l f dst hl hf hdst => call_reservation hl hf hdst
  order := fun l id reason hl => call_order hl id
  giveBack := fun l k n hl => call_incrby (.inr hl)
  besides := by
    intro o l ho hl
    cases o <;> first | exact (neutral rfl).keeps hl | cases ho
  handles := by
    intro q oid o l ho hl
    cases o with
    | orderSave id n => exact call_orderSave hl id n
    | orderFindOneAndUpdate id src dst reason =>
      simp only [handlerMay, Bool.and_eq_true, decide_eq_true_eq] at ho
      have hstage := ho.2
      cases q <;> cases hstage <;> exact call_advance hl (by decide) (by decide) id
    | _ => first | exact (neutral rfl).keeps hl | cases ho

theorem safe_request (hl : Idle l) (r : ShopReq) :
    logic.Safe i (shopProg r) l fun _ => Idle := by
  have hcalls : ∀ A : ShopOp → Prop, (shopProg r).Calls (OrOwn A) →
      (∀ o, A o → ∀ l, Idle l → ShopCall logic i l o fun _ => Idle) →
      logic.Safe i (shopProg r) l fun _ => Idle := by
    intro A h hA
    refine safe_of_calls (h.mono fun o ho l hl => ?_) hl
    cases o with
    | inl k => exact (neutral_kv k).keeps hl
    | inr o => exact hA o ho l hl
  cases hbuyer : r.purchases with
  | true =>
    refine hcalls _ (calls_buyer hbuyer) fun o ho l hl => ?_
    cases o with
    | orderCreate r => exact call_orderCreate hl (by simpa [ShopOp.buys] using ho)
    | reservationCreate r => exact call_reservationCreate hl (by simpa [ShopOp.buys] using ho)
    | incrby k n => exact call_incrby (.inl hl)
    | _ => first | exact (neutral rfl).keeps hl | cases ho
  | false =>
    cases r with
    | confirm id =>
      refine hcalls _ (calls_shopProg _) fun o ho l hl => ?_
      cases o with
      | reservationFindOneAndUpdate f dst =>
        simp only [ShopReq.may, Bool.and_eq_true, decide_eq_true_eq] at ho
        rw [ho.2]
        exact call_confirm hl ho.1
      | _ => first | exact (neutral rfl).keeps hl | cases ho
    | _ => first | exact undoes.request rfl hl | cases hbuyer

end Refund

/-- What a thread has undone and credited, by its calls so far. -/
def refunder (t : ShopThread) : Refunder := t.account (shopPost Refunder.post) fun _ _ => ⟨none, []⟩

/-- The thread has undone a record and not given its units back. -/
def owes (t : ShopThread) : Bool := (refunder t).owed.isSome

/-- The `INCRBY`s made for a record so far. -/
def creditsOf (r : Record) (c : ShopConfig) : List Credit :=
  (c.pool.flatMap fun t => (refunder t).credits).filter (·.record = r)

/-- A call that throws has no effect, and it is not the `INCRBY` that follows a flip. -/
def refundsLand (c : ShopConfig) : ShopAct → Bool
  | .call _ (.lost ..) => false
  | .call i (.failed _) => (c.pool[i]?).all fun t => !owes t
  | _ => true

namespace Refund

variable {n : Nat} {catalog : ObjectId → Option ProductDoc} {c : ShopConfig}

theorem outline (n : Nat) (catalog : ObjectId → Option ProductDoc) :
    shopSystem.Outline (fun c a => refundsLand c a = true) (freshShop n catalog) logic
      (fun _ _ => ⟨none, []⟩) fun _ _ _ => Idle where
  store := rfl
  start := ⟨rfl, rfl, List.nodup_nil, List.nodup_nil⟩
  arrive := by
    intro c r w' _ _ hacc hinv
    have hsame := (accept_same hacc).2
    refine ⟨?_, safe_request (l := ⟨none, []⟩) rfl r⟩
    have hval : logic.val ⟨none, []⟩ = 0 := rfl
    rw [hval, zero_add]
    exact Refunds.congr hinv (hsame.reservations (fun he => by cases he))
      (hsame.orders (fun he => by cases he))
  tick := fun _ _ _ h => h
  env := by
    intro c g e w' _ he hinv
    obtain ⟨s, hs, rfl⟩ := Option.map_eq_some_iff.mp he
    obtain ⟨hsame, -⟩ := surroundings_same hs
    exact Refunds.congr hinv hsame.reservations hsame.orders
  guard := by
    intro c i f t o k _ hok ht _ _
    cases f with
    | answered p => exact ⟨fun _ _ => nofun, fun _ => rfl⟩
    | failed e =>
      refine ⟨fun _ _ => nofun, fun howed => ?_⟩
      have hfree : owes t = false := by simpa [refundsLand, ht] using hok
      have hsome : owes t = true := howed
      rw [hfree] at hsome
      cases hsome
    | lost e p => cases hok

end Refund

end Flashkart
