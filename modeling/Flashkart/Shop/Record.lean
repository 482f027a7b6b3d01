import Flashkart.Shop.Listing
import Flashkart.Shop.Compensation
import Flashkart.Shop.Progress

/-!
# Shop.Record

The record of an order over its whole life. A buy fixes the customer, the product, the quantity and
the price; after that the worker may count a payment attempt, advance the status, or mark the order
as failed and say why. No order goes away.

* `OrderDoc.Change` — one change of a record.
* `order_change`    — what a call of a run makes of an order.
* `order_record`    — what holds of every record, and what it can become.
-/

namespace Flashkart

open Async

/-! ## Records -/

/-- What the buy fixes. -/
structure Sale where
  id : ObjectId
  userId : ObjectId
  productId : ObjectId
  quantity : Nat
  unitPricePaise : Nat
  totalPaise : Nat
  createdAt : Nat
  deriving DecidableEq

def OrderDoc.sale (d : OrderDoc) : Sale :=
  ⟨d.id, d.userId, d.productId, d.quantity, d.unitPricePaise, d.totalPaise, d.createdAt⟩

inductive OrderDoc.Change : OrderDoc → OrderDoc → Prop
  | attempt (d : OrderDoc) (n : Nat) : Change d { d with paymentAttempts := n }
  | advance {d : OrderDoc} {s : OrderStatus} : d.status.Next s → s ≠ .failed →
      Change d { d with status := s }
  | fail {d : OrderDoc} (reason : String) : d.status = .pending →
      Change d { d with status := .failed, failureReason := some reason }

/-- A record as the buy and the worker leave it by the time `now`. -/
structure OrderDoc.Sound (now : Nat) (d : OrderDoc) : Prop where
  quantity : 1 ≤ d.quantity ∧ d.quantity ≤ 10
  total : d.totalPaise = d.unitPricePaise * d.quantity
  reason : d.failureReason.isSome = true ↔ d.status = .failed
  placed : d.createdAt ≤ now

/-- What a record can be later on. -/
structure OrderDoc.Becomes (d d' : OrderDoc) : Prop where
  sale : d'.sale = d.sale
  status : Relation.ReflTransGen OrderStatus.Next d.status d'.status
  reason : d.failureReason.isSome = true → d'.failureReason = d.failureReason

theorem OrderStatus.Next.not_failed {s s' : OrderStatus} (h : s.Next s') : s ≠ .failed := by
  cases h <;> exact fun he => by cases he

namespace OrderDoc

variable {now : Nat} {d d' d'' : OrderDoc}

theorem Change.sound (h : d.Change d') (hd : d.Sound now) : d'.Sound now := by
  cases h with
  | attempt n => exact ⟨hd.quantity, hd.total, hd.reason, hd.placed⟩
  | advance hnext hne =>
    refine ⟨hd.quantity, hd.total, ?_, hd.placed⟩
    exact ⟨fun hr => absurd (hd.reason.mp hr) hnext.not_failed, fun he => absurd he hne⟩
  | fail reason hpending => exact ⟨hd.quantity, hd.total, ⟨fun _ => rfl, fun _ => rfl⟩, hd.placed⟩

theorem Sound.later (hd : d.Sound now) {now' : Nat} (h : now ≤ now') : d.Sound now' :=
  ⟨hd.quantity, hd.total, hd.reason, hd.placed.trans h⟩

theorem Becomes.refl (d : OrderDoc) : d.Becomes d := ⟨rfl, .refl, fun _ => rfl⟩

theorem Becomes.trans (h : d.Becomes d') (h' : d'.Becomes d'') : d.Becomes d'' where
  sale := h'.sale.trans h.sale
  status := h.status.trans h'.status
  reason := fun hr => by
    have heq := h.reason hr
    rw [h'.reason (heq ▸ hr), heq]

theorem Change.becomes (h : d.Change d') (hd : d.Sound now) : d.Becomes d' := by
  cases h with
  | attempt n => exact ⟨rfl, .refl, fun _ => rfl⟩
  | advance hnext hne => exact ⟨rfl, .single hnext, fun _ => rfl⟩
  | fail reason hpending =>
    refine ⟨rfl, .single (hpending ▸ .fail), fun hr => ?_⟩
    have hfailed := hd.reason.mp hr
    rw [hpending] at hfailed
    cases hfailed

end OrderDoc

/-! ## The calls that write records -/

/-- An order is inserted as a buy computes it; a later change of its status is a step, with a reason
if and only if the order fails. -/
def ShopOp.Records : ShopOp → Prop
  | .orderCreate inp => inp.status = .pending ∧ (1 ≤ inp.quantity ∧ inp.quantity ≤ 10) ∧
      inp.totalPaise = inp.unitPricePaise * inp.quantity
  | .orderFindOneAndUpdate _ src dst reason =>
    src.Next dst ∧ (reason.isSome = true ↔ dst = .failed)
  | _ => True

/-- A call that writes no order. -/
def ShopOp.recordless : ShopOp → Bool
  | .orderCreate _ | .orderFindOneAndUpdate .. => false
  | _ => true

theorem records_of_recordless {o : ShopOp} (h : o.recordless = true) : o.Records := by
  cases o <;> trivial

section Calls

theorem records_doPurchase (uid : ObjectId) (id : String) {qty : Nat} (hqty : 1 ≤ qty ∧ qty ≤ 10) :
    (doPurchase uid id qty).Calls ShopOp.Records := by
  refine Prog.calls_bind ((calls_purchase id qty).mono fun o ho => ?_) fun result => ?_
  · cases o <;> trivial
  · cases result with
    | soldOut => trivial
    | notFound => trivial
    | ok remaining =>
      refine calls_bind_op trivial fun product => calls_bind_op ⟨rfl, hqty, rfl⟩ fun oid => ?_
      refine Prog.calls_bind (Prog.calls_tryCatch ?_ fun _ => trivial) fun _ => trivial
      exact (Prog.calls_op _).mpr trivial

theorem records_postBuy (req : BuyRequest) : (postBuy req).Calls (OrOwn ShopOp.Records) := by
  unfold postBuy moneyRoute
  split
  · split
    · trivial
    · rename_i qty hbody
      have hqty := buyBodySchema_bounds hbody
      split
      · exact Prog.calls_bind (calls_inr_own (records_doPurchase _ _ hqty)) fun _ => trivial
      · split
        · exact Prog.calls_bind (calls_withIdempotency (records_doPurchase _ _ hqty))
            fun _ => trivial
        · trivial
  · trivial

theorem records_advance {oid : String} {src dst : OrderStatus} {enqueue : ShopProg Unit}
    (hnext : src.Next dst) (hne : dst ≠ .failed) (h : enqueue.Calls ShopOp.Records) :
    (advance oid src dst enqueue).Calls ShopOp.Records :=
  calls_advance ⟨hnext, fun he => (by cases he), fun he => absurd he hne⟩ trivial
    (fun _ => trivial) h

theorem records_handler (q : QueueName) (oid : String) :
    (handler q oid).Calls ShopOp.Records := by
  cases q with
  | ordersProcess =>
    refine calls_bind_op trivial fun d => ?_
    cases d with
    | none => trivial
    | some d =>
      dsimp only
      split
      · trivial
      · refine calls_bind_op trivial fun _ => calls_bind_op trivial fun _ => ?_
        exact records_advance .pay (fun he => by cases he) ((Prog.calls_op _).mpr trivial)
  | ordersFulfill =>
    refine calls_bind_op trivial fun d => ?_
    cases d with
    | none => trivial
    | some d =>
      dsimp only
      split
      · trivial
      · exact records_advance .fulfill (fun he => by cases he) ((Prog.calls_op _).mpr trivial)
  | ordersNotify =>
    refine calls_bind_op trivial fun d => ?_
    cases d with
    | none => trivial
    | some d =>
      dsimp only
      split
      · trivial
      · exact records_advance .confirm (fun he => by cases he) trivial

theorem records_compensate (oid reason : String) :
    (compensatePayment oid reason).Calls ShopOp.Records := by
  refine calls_bind_op ⟨.fail, fun _ => rfl, fun _ => rfl⟩ fun d => ?_
  cases d with
  | none => trivial
  | some d =>
    refine calls_bind_op trivial fun _ => calls_bind_op trivial fun _ => ?_
    exact calls_bind_op trivial fun _ => calls_publish trivial fun _ => trivial

theorem records_runJob (job : Nat) (q : QueueName) (oid : String) :
    (runJob job q oid).Calls ShopOp.Records := by
  have hbody : (handler q oid >>= fun _ => (return none : ShopProg (Option Err))).Calls
      ShopOp.Records := Prog.calls_bind (records_handler q oid) fun _ => trivial
  refine Prog.calls_bind (Prog.calls_tryCatch hbody fun _ => trivial) fun threw => ?_
  cases threw with
  | none => exact (Prog.calls_op _).mpr trivial
  | some err =>
    refine calls_bind_op trivial fun n => ?_
    unfold onFailed
    split
    · split
      · trivial
      · exact Prog.calls_tryCatch (records_compensate oid _) fun _ => trivial
    · trivial

theorem records_shopProg (r : ShopReq) : (shopProg r).Calls (OrOwn ShopOp.Records) := by
  have hother : (∀ o, r.may o = true → o.recordless = true) →
      (shopProg r).Calls (OrOwn ShopOp.Records) := by
    refine fun hmay => (calls_shopProg r).mono fun o ho => ?_
    cases o with
    | inl k => trivial
    | inr o => exact records_of_recordless (hmay o ho)
  cases r with
  | postBuy req => exact Prog.calls_bind (records_postBuy req) fun _ => trivial
  | deliver j q oid =>
    exact Prog.calls_bind (calls_inr_own (records_runJob j q oid)) fun _ => trivial
  | compensate oid reason =>
    exact Prog.calls_bind (calls_inr_own (records_compensate oid reason)) fun _ => trivial
  | _ => exact hother fun o ho => by cases o <;> first | rfl | cases ho

end Calls

/-! ## One call -/

section Store

variable {now i : Nat} {op : ShopOp} {w w' : Shop} {o : ObjectId}

/-- What a call leaves of a record. -/
theorem order_change (hn : w.OrderIds) (h : Made now i op w w') (hop : op.Records) {d : OrderDoc}
    (hd : w.order o = some d) : ∃ d', w'.order o = some d' ∧ (d' = d ∨ d.Change d') := by
  rcases h with rfl | ⟨q, a, h⟩
  · exact ⟨d, hd, .inl rfl⟩
  cases op with
  | orderCreate inp =>
    obtain ⟨hnone, d', -, -, -, hw'⟩ := order_orderCreate h
    have hne : o ≠ a := by
      rintro rfl
      rw [hnone] at hd
      cases hd
    exact ⟨d, by rw [hw', Function.update_of_ne hne, hd], .inl rfl⟩
  | orderSave id n =>
    refine ⟨_, by rw [order_orderSave h o, hd, Option.map_some], ?_⟩
    split
    · exact .inr (.attempt d n)
    · exact .inl rfl
  | orderFindOneAndUpdate id src dst reason =>
    rcases order_findOneAndUpdate hn h with ⟨d₁, rfl, -, hsrc, hd₁, hw'⟩ | ⟨-, rfl, -⟩
    · by_cases ho : o = d₁.id
      · rw [ho] at hd
        obtain rfl := Option.some.inj (hd.symm.trans hd₁)
        refine ⟨_, by rw [hw', ho, Function.update_self], .inr ?_⟩
        obtain ⟨hnext, hreason⟩ := hop
        cases reason with
        | none => exact .advance (hsrc ▸ hnext) fun he => by cases hreason.mpr he
        | some reason =>
          obtain rfl := hreason.mp rfl
          cases hnext
          exact .fail reason hsrc
      · exact ⟨d, by rw [hw', Function.update_of_ne ho, hd], .inl rfl⟩
    · exact ⟨d, hd, .inl rfl⟩
  | _ => exact ⟨d, by rw [order_other (fun he => by cases he) h, hd], .inl rfl⟩

/-- A record that was not there before the call. -/
theorem order_placed (hn : w.OrderIds) (h : Made now i op w w') (hop : op.Records)
    (hnone : w.order o = none) {d : OrderDoc} (hd : w'.order o = some d) : d.Sound now := by
  obtain ⟨-, inp, rfl, -⟩ := order_born hn h hnone hd
  rcases h with rfl | ⟨q, a, h⟩
  · rw [hnone] at hd
    cases hd
  simp only [shopStore] at h
  split at h
  · cases h
  · split at h
    · cases h
    · rename_i hfresh
      cases h
      obtain ⟨hpending, hqty, htotal⟩ := hop
      have hnot : q.oid ∉ w.orders.map (·.id) := fun h => hfresh (.inr h)
      rw [Shop.order, Collection.lookup_concat hnot] at hd
      by_cases ho : o = q.oid
      · rw [ho, Function.update_self] at hd
        obtain rfl := Option.some.inj hd
        exact ⟨hqty, htotal, by simp [hpending], le_rfl⟩
      · rw [Function.update_of_ne ho] at hd
        cases hnone.symm.trans hd

end Store

section Runs

variable {ok : System.Guard apiSig Err ShopReq ShopRes (IdemKv × Shop) Pick ShopEnv} {n : Nat}
  {catalog : ObjectId → Option ProductDoc} {c c' : ShopConfig} {o : ObjectId} {d : OrderDoc}

/-- An action of a run leaves the orders as they are, or is a call that is fit to write records. -/
theorem records_step (h : shopSystem.Reachable ok (freshShop n catalog) c) {a : ShopAct}
    (hs : shopSystem.step c a = some c') :
    c.now ≤ c'.now ∧ (c'.world.2.orders = c.world.2.orders ∨
      ∃ i op, op.Records ∧ Made c'.now i op c.world.2 c'.world.2) := by
  cases a with
  | arrive r =>
    obtain ⟨w', hw, rfl⟩ := Option.map_eq_some_iff.mp hs
    exact ⟨le_rfl, .inl ((accept_same hw).2.orders fun he => by cases he)⟩
  | call i f =>
    obtain ⟨id, r, op, k, tr, out, w', hp, hx, rfl⟩ := System.callStep_eq_some hs
    refine ⟨le_rfl, ?_⟩
    rcases call_effect hx with heq | ⟨op, q, a, rfl, h'⟩
    · exact .inl (congrArg Shop.orders heq)
    · have hcalls := h.calls records_shopProg rfl _ (List.mem_of_getElem? hp)
      exact .inr ⟨id, op, hcalls.1, .inr ⟨q, a, h'⟩⟩
  | tick d => cases hs; exact ⟨Nat.le_add_right _ _, .inl rfl⟩
  | env e =>
    obtain ⟨w', hw, rfl⟩ := Option.map_eq_some_iff.mp hs
    obtain ⟨s, he, rfl⟩ := Option.map_eq_some_iff.mp hw
    exact ⟨le_rfl, .inl (surroundings_same he).1.orders⟩

theorem sound_reachable (h : shopSystem.Reachable ok (freshShop n catalog) c) :
    ∀ o d, c.world.2.order o = some d → d.Sound c.now := by
  refine h.invariant (I := fun c => ∀ o d, c.world.2.order o = some d → d.Sound c.now)
    (fun o d hd => by cases hd) ?_
  intro c a c' hr ih _ hs o d' hd'
  obtain ⟨hnow, hsame | ⟨i, op, hop, hmade⟩⟩ := records_step hr hs
  · rw [Shop.order, hsame] at hd'
    exact (ih o d' hd').later hnow
  · have hn := orderIds_reachable hr
    cases hd : c.world.2.order o with
    | none => exact order_placed hn hmade hop hd hd'
    | some d =>
      obtain ⟨d₁, hd₁, hchange⟩ := order_change hn hmade hop hd
      obtain rfl := Option.some.inj (hd₁.symm.trans hd')
      rcases hchange with rfl | hchange
      · exact (ih o _ hd).later hnow
      · exact hchange.sound ((ih o d hd).later hnow)

theorem becomes_reachable (h : shopSystem.Reachable ok (freshShop n catalog) c)
    (h' : shopSystem.Reachable ok c c') (hd : c.world.2.order o = some d) :
    ∃ d', c'.world.2.order o = some d' ∧ d.Becomes d' := by
  induction h' with
  | init => exact ⟨d, hd, .refl d⟩
  | step hr _ hs ih =>
    obtain ⟨d', hd', hbecomes⟩ := ih
    have hreach := h.trans hr
    obtain ⟨-, hsame | ⟨i, op, hop, hmade⟩⟩ := records_step hreach hs
    · exact ⟨d', by rw [Shop.order, hsame]; exact hd', hbecomes⟩
    · obtain ⟨d'', hd'', hchange⟩ := order_change (orderIds_reachable hreach) hmade hop hd'
      refine ⟨d'', hd'', ?_⟩
      rcases hchange with rfl | hchange
      · exact hbecomes
      · exact hbecomes.trans (hchange.becomes (sound_reachable hreach o d' hd'))

/-- **What the buy fixed stays.** In every run a record is sound, and it is there ever after: the
sale is the same, the status has moved along the steps, and a reason stays. -/
theorem order_record (h : shopSystem.Reachable ok (freshShop n catalog) c)
    (h' : shopSystem.Reachable ok c c') (hd : c.world.2.order o = some d) :
    d.Sound c.now ∧ ∃ d', c'.world.2.order o = some d' ∧ d.Becomes d' :=
  ⟨sound_reachable h o d hd, becomes_reachable h h' hd⟩

end Runs

/-- An order that is placed, and then paid. -/
theorem order_record_paid :
    ∃ c c' d d', shopSystem.Reachable (fun _ _ => True) (freshShop 0 (oneProduct 1)) c ∧
      shopSystem.Reachable (fun _ _ => True) c c' ∧ c.world.2.order idB = some d ∧
      d.status = .pending ∧ c'.world.2.order idB = some d' ∧ d'.status = .paid ∧
      d.Sound c.now ∧ d.Becomes d' := by
  have hplaced : (shopSystem.run (fun _ _ => true) (freshShop 0 (oneProduct 1)) orderPlaced).map
      (fun c => (c.world.2.status idB, (shopSystem.run (fun _ _ => true) c
        (.arrive (.deliver 0 .ordersProcess idB.toString) :: callsOf 1 8 idB)).map
          fun c' => c'.world.2.status idB)) = some (some .pending, some (some .paid)) := by decide
  obtain ⟨c, hc, hs⟩ := Option.map_eq_some_iff.mp hplaced
  obtain ⟨hpending, hpaid⟩ := Prod.mk.inj hs
  obtain ⟨c', hc', hs'⟩ := Option.map_eq_some_iff.mp hpaid
  obtain ⟨d, hd, hstatus⟩ := Option.map_eq_some_iff.mp hpending
  obtain ⟨d', hd', hstatus'⟩ := Option.map_eq_some_iff.mp hs'
  have hr : shopSystem.Reachable (fun _ _ => True) _ c :=
    (System.Reachable.of_run hc).mono fun _ _ _ => trivial
  have hr' : shopSystem.Reachable (fun _ _ => True) c c' :=
    (System.Reachable.of_run hc').mono fun _ _ _ => trivial
  obtain ⟨hsound, d'', hd'', hbecomes⟩ := order_record hr hr' hd
  obtain rfl := Option.some.inj (hd''.symm.trans hd')
  exact ⟨c, c', d, _, hr, hr', hd, hstatus, hd', hstatus', hsound, hbecomes⟩

end Flashkart
