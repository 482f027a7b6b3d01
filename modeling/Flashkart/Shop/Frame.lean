import Flashkart.Shop.System
import Flashkart.Async.Logic

/-!
# Shop.Frame

Which part of the stores a call can change, and which calls the handlers make. Both kinds of fact
let a proof about one part pass over everything that does not touch it.
-/

namespace Flashkart

open Async

inductive Part where
  | nothing
  | stock
  | orders
  | reservations
  | jobs
  | stockChannel
  | outbox
  | orderChannel
  | charges
  | ticking
  deriving DecidableEq

/-- The one part a call may write. -/
def ShopOp.writes : ShopOp → Part
  | .buyStock .. | .setStockNx .. | .incrby .. => .stock
  | .orderCreate _ | .orderSave .. | .orderFindOneAndUpdate .. => .orders
  | .reservationCreate _ | .reservationFindOneAndUpdate .. => .reservations
  | .addJob .. | .moveToCompleted _ | .moveToFailed _ => .jobs
  | .publishStock _ => .stockChannel
  | .publishStockUpdate .. => .outbox
  | .publishOrder _ => .orderChannel
  | .chargePayment .. => .charges
  | .enterTick _ | .leaveTick _ => .ticking
  | .getStock _ | .dateNow | .productFindById _ | .orderFindById _ | .reservationFindById _ =>
    .nothing

/-- `w'` differs from `w` in `part` at most. -/
structure SameExcept (part : Part) (w w' : Shop) : Prop where
  products : w'.products = w.products
  stock : part ≠ .stock → w'.stock = w.stock
  orders : part ≠ .orders → w'.orders = w.orders
  reservations : part ≠ .reservations → w'.reservations = w.reservations
  jobs : part ≠ .jobs → w'.jobs = w.jobs
  stockChannel : part ≠ .stockChannel → w'.stockChannel = w.stockChannel
  outbox : part ≠ .outbox → w'.outbox = w.outbox
  orderChannel : part ≠ .orderChannel → w'.orderChannel = w.orderChannel
  charges : part ≠ .charges → w'.charges = w.charges

theorem SameExcept.refl (part : Part) (w : Shop) : SameExcept part w w := by
  constructor <;> intros <;> rfl

theorem shopStore_same {now i : Nat} {o : ShopOp} {p : Pick} {w w' : Shop} {a : o.Ret}
    (h : shopStore now i o p w = some (a, w')) : SameExcept o.writes w w' := by
  cases o <;> simp only [shopStore, Option.map_eq_some_iff] at h <;>
    first
    | (obtain ⟨_, _, h⟩ := h; cases h; constructor <;> intros <;> first | rfl | contradiction)
    | ((try split at h) <;> (try split at h) <;> cases h <;> constructor <;> intros <;>
        first | rfl | contradiction)

/-- A call on the shop's stores is one of `shopStore`, and leaves the idempotency keys alone. -/
theorem exec_inr {now i : Nat} {o : ShopOp} {f : Fate Err Pick} {w w' : IdemKv × Shop}
    {out : Except Err o.Ret}
    (h : shopSystem.store.exec now i (.inr o) f w = some (out, w')) :
    shopStore.exec now i o f w.2 = some (out, w'.2) ∧ w'.1 = w.1 :=
  Store.exec_sum_inr h

theorem exec_same {now i : Nat} {o : ShopOp} {f : Fate Err Pick} {w w' : Shop}
    {out : Except Err o.Ret} (h : shopStore.exec now i o f w = some (out, w')) :
    SameExcept o.writes w w' := by
  rcases Store.exec_cases h with ⟨p, a, -, h, -⟩ | ⟨e, -, rfl, -⟩ | ⟨e, p, a, -, h, -⟩
  · exact shopStore_same h
  · exact .refl _ _
  · exact shopStore_same h

theorem exec_inl {now i : Nat} {o : KvOp (Cell (StoredResult Body))} {f : Fate Err Pick}
    {w w' : IdemKv × Shop} {out : Except Err o.Ret}
    (h : shopSystem.store.exec now i (.inl o) f w = some (out, w')) : w'.2 = w.2 :=
  (Store.exec_sum_inl (f := kvStore) (g := shopStore) h).2

/-- An arrival takes the lock of a job at most. -/
theorem accept_same {i : Nat} {r : ShopReq} {w w' : IdemKv × Shop}
    (h : shopAccept i r w = some w') : w'.1 = w.1 ∧ SameExcept .jobs w.2 w'.2 := by
  cases r with
  | deliver j q oid =>
    obtain ⟨s, hs, h⟩ := Option.map_eq_some_iff.mp h
    cases h
    simp only [Shop.lockJob] at hs
    split at hs
    · split at hs
      · cases hs
        exact ⟨rfl, by constructor <;> intros <;> first | rfl | contradiction⟩
      · cases hs
    · cases hs
  | _ => cases h; exact ⟨rfl, .refl _ _⟩

/-- What the surroundings leave as it is. -/
structure SameRecords (w w' : Shop) : Prop where
  stock : w'.stock = w.stock
  orders : w'.orders = w.orders
  reservations : w'.reservations = w.reservations
  orderChannel : w'.orderChannel = w.orderChannel
  charges : w'.charges = w.charges

theorem surroundings_same {e : ShopEnv} {w w' : Shop} (h : w.surroundings e = some w') :
    SameRecords w w' ∧ ∀ p, (∀ doc, e ≠ .catalog p doc) → w'.products p = w.products p := by
  cases e with
  | flush j =>
    obtain ⟨ev, _, h⟩ := Option.map_eq_some_iff.mp h
    cases h
    exact ⟨⟨rfl, rfl, rfl, rfl, rfl⟩, fun _ _ => rfl⟩
  | catalog id doc =>
    cases h
    refine ⟨⟨rfl, rfl, rfl, rfl, rfl⟩, fun p hp => Function.update_of_ne ?_ _ _⟩
    rintro rfl
    exact hp doc rfl
  | _ => cases h; exact ⟨⟨rfl, rfl, rfl, rfl, rfl⟩, fun _ _ => rfl⟩

/-! ## Which calls a request makes -/

def ShopOp.takesStock : ShopOp → Bool
  | .buyStock .. | .setStockNx .. => true
  | _ => false

/-- The step of an order that a queue's handler makes. -/
def QueueName.stage : QueueName → OrderStatus × OrderStatus
  | .ordersProcess => (.pending, .paid)
  | .ordersFulfill => (.paid, .fulfilled)
  | .ordersNotify => (.fulfilled, .confirmed)

/-- The calls of the handler of a queue, in a job for the order `oid`. -/
def handlerMay (q : QueueName) (oid : String) : ShopOp → Bool
  | .orderFindById _ | .dateNow | .publishOrder _ | .addJob .. => true
  | .orderFindOneAndUpdate id src dst _ => id = oid && (src, dst) = q.stage
  | .orderSave .. | .chargePayment .. => q = .ordersProcess
  | _ => false

/-- The calls of the compensation of a failed payment. -/
def compensationMay : ShopOp → Bool
  | .orderFindOneAndUpdate _ src dst _ => src = .pending && dst = .failed
  | .incrby .. | .dateNow | .publishStock _ | .publishOrder _ => true
  | _ => false

def purchaseMay : ShopOp → Bool
  | .buyStock .. | .setStockNx .. | .productFindById _ | .publishStockUpdate .. => true
  | _ => false

def reserveMay : ShopOp → Bool
  | .dateNow | .reservationCreate _ | .incrby .. => true
  | o => purchaseMay o

/-- The calls a request can make on the shop's stores. -/
def ShopReq.may : ShopReq → ShopOp → Bool
  | .postBuy _, o =>
    match o with
    | .orderCreate r => r.status = .pending
    | .addJob q _ => q = .ordersProcess
    | o => purchaseMay o
  | .postReserve _, o => reserveMay o
  | .reserve .., o => reserveMay o
  | .confirm _, o =>
    match o with
    | .reservationFindOneAndUpdate f dst => f.status = .held && dst = .confirmed
    | .dateNow | .reservationFindById _ => true
    | _ => false
  | .release _, o =>
    match o with
    | .reservationFindOneAndUpdate .. | .reservationFindById _ => true
    | .incrby .. | .publishStockUpdate .. => true
    | _ => false
  | .sweep, o =>
    match o with
    | .dateNow | .reservationFindOneAndUpdate .. | .incrby .. => true
    | _ => false
  | .tick _, o =>
    match o with
    | .dateNow | .reservationFindOneAndUpdate .. | .incrby .. | .publishStock _ => true
    | .enterTick _ | .leaveTick _ => true
    | _ => false
  | .deliver _ q oid, o =>
    match o with
    | .moveToCompleted _ | .moveToFailed _ => true
    | o => handlerMay q oid o || (q = .ordersProcess && compensationMay o)
  | .compensate .., o => compensationMay o

section Calls

variable {A : ShopOp → Prop} {α : Type}

theorem calls_bind_op {o : ShopOp} {f : o.Ret → ShopProg α} (h : A o)
    (hf : ∀ a, (f a).Calls A) : (o.call.bind f).Calls A :=
  Prog.calls_bind ((Prog.calls_op (S := shopSig) o).mpr h) hf

theorem calls_publishStockUpdate {pid : String} {r : Int} {reason : StockEventReason}
    (h : A (.publishStockUpdate pid r reason)) :
    (publishStockUpdate pid r reason).Calls A :=
  Prog.calls_tryCatch ((Prog.calls_op _).mpr h) fun _ => trivial

theorem calls_confirm (id : String) :
    (confirmReservation id).Calls fun o => (ShopReq.confirm id).may o = true := by
  unfold confirmReservation
  split
  · refine calls_bind_op rfl fun now => calls_bind_op rfl fun d => ?_
    cases d with
    | some d => trivial
    | none =>
      refine calls_bind_op rfl fun existing => ?_
      cases existing <;> trivial
  · trivial

theorem calls_release (id : String) :
    (releaseReservation id).Calls fun o => (ShopReq.release id).may o = true := by
  unfold releaseReservation
  split
  · refine calls_bind_op rfl fun d => ?_
    cases d with
    | some d =>
      refine calls_bind_op rfl fun n => ?_
      exact Prog.calls_bind (calls_publishStockUpdate rfl) fun _ => trivial
    | none =>
      refine calls_bind_op rfl fun existing => ?_
      cases existing <;> trivial
  · trivial

theorem calls_sweepLoop (now n reclaimed : Nat) :
    (sweepLoop now n reclaimed).Calls fun o => ShopReq.sweep.may o = true := by
  induction n generalizing reclaimed with
  | zero => trivial
  | succ n ih =>
    refine calls_bind_op rfl fun d => ?_
    cases d with
    | none => trivial
    | some d => exact calls_bind_op rfl fun _ => ih _

theorem calls_sweep :
    sweepExpiredReservations.Calls fun o => ShopReq.sweep.may o = true :=
  calls_bind_op rfl fun now => calls_sweepLoop now _ _

theorem calls_tickLoop (worker now n reclaimed : Nat) :
    (tickLoop now n reclaimed).Calls fun o => (ShopReq.tick worker).may o = true := by
  induction n generalizing reclaimed with
  | zero => trivial
  | succ n ih =>
    refine calls_bind_op rfl fun d => ?_
    cases d with
    | none => trivial
    | some d =>
      exact calls_bind_op rfl fun r => calls_bind_op rfl fun ts => calls_bind_op rfl fun _ => ih _

theorem calls_tick (worker : Nat) :
    (tick worker).Calls fun o => (ShopReq.tick worker).may o = true := by
  refine calls_bind_op rfl fun entered => ?_
  cases entered with
  | false => trivial
  | true =>
    refine Prog.calls_bind (Prog.calls_tryCatch ?_ fun _ => trivial) fun _ => ?_
    · refine calls_bind_op rfl fun now => ?_
      exact Prog.calls_bind (calls_tickLoop worker now _ _) fun _ => trivial
    · exact (Prog.calls_op _).mpr rfl

theorem calls_publish {oid : String} {d : OrderDoc} {status : OrderStatus} (h : A .dateNow)
    (hp : ∀ ev, A (.publishOrder ev)) : (publish oid d status).Calls A :=
  calls_bind_op h fun _ => (Prog.calls_op _).mpr (hp _)

theorem calls_advance {oid : String} {src dst : OrderStatus} {enqueue : ShopProg Unit}
    (hu : A (.orderFindOneAndUpdate oid src dst none)) (h : A .dateNow)
    (hp : ∀ ev, A (.publishOrder ev)) (he : enqueue.Calls A) :
    (advance oid src dst enqueue).Calls A := by
  refine calls_bind_op hu fun d => ?_
  cases d with
  | none => trivial
  | some d => exact Prog.calls_bind (calls_publish h hp) fun _ => he

theorem calls_compensate (oid reason : String) :
    (compensatePayment oid reason).Calls fun o => compensationMay o = true := by
  refine calls_bind_op rfl fun d => ?_
  cases d with
  | none => trivial
  | some d =>
    refine calls_bind_op rfl fun r => calls_bind_op rfl fun ts => ?_
    exact calls_bind_op rfl fun _ => calls_publish rfl fun _ => rfl

theorem calls_handler (q : QueueName) (oid : String) :
    (handler q oid).Calls fun o => handlerMay q oid o = true := by
  have hcas : ∀ {src dst : OrderStatus}, (src, dst) = q.stage →
      handlerMay q oid (.orderFindOneAndUpdate oid src dst none) = true := by
    intro src dst h
    simp [handlerMay, h]
  cases q with
  | ordersProcess =>
    refine calls_bind_op rfl fun d => ?_
    cases d with
    | none => trivial
    | some d =>
      dsimp only
      split
      · trivial
      · refine calls_bind_op rfl fun _ => calls_bind_op rfl fun _ => ?_
        exact calls_advance (hcas rfl) rfl (fun _ => rfl) ((Prog.calls_op _).mpr rfl)
  | ordersFulfill =>
    refine calls_bind_op rfl fun d => ?_
    cases d with
    | none => trivial
    | some d =>
      dsimp only
      split
      · trivial
      · exact calls_advance (hcas rfl) rfl (fun _ => rfl) ((Prog.calls_op _).mpr rfl)
  | ordersNotify =>
    refine calls_bind_op rfl fun d => ?_
    cases d with
    | none => trivial
    | some d =>
      dsimp only
      split
      · trivial
      · exact calls_advance (hcas rfl) rfl (fun _ => rfl) trivial

/-- The calls of a delivery are those of its handler and the queue's, and the compensation's. -/
theorem calls_runJob_of {job : Nat} {q : QueueName} {oid : String} (hhandler : (handler q oid).Calls A)
    (hdone : A (.moveToCompleted job)) (hfailed : A (.moveToFailed job))
    (hback : q = .ordersProcess → ∀ o, compensationMay o = true → A o) :
    (runJob job q oid).Calls A := by
  have hbody : (handler q oid >>= fun _ => (return none : ShopProg (Option Err))).Calls A :=
    Prog.calls_bind hhandler fun _ => trivial
  refine Prog.calls_bind (Prog.calls_tryCatch hbody fun _ => trivial) fun threw => ?_
  cases threw with
  | none => exact (Prog.calls_op _).mpr hdone
  | some err =>
    refine calls_bind_op hfailed fun n => ?_
    unfold onFailed
    split
    · split
      · trivial
      · exact Prog.calls_tryCatch ((calls_compensate oid _).mono (hback rfl)) fun _ => trivial
    · trivial

theorem calls_runJob (job : Nat) (q : QueueName) (oid : String) :
    (runJob job q oid).Calls fun o => (ShopReq.deliver job q oid).may o = true := by
  refine calls_runJob_of ((calls_handler q oid).mono fun o ho => ?_) rfl rfl fun hq o ho => ?_
  · cases o <;> first | rfl | (simp only [ShopReq.may, ho, Bool.true_or])
  · cases o <;> first | rfl | (simp only [ShopReq.may, ho, hq, Bool.or_true, decide_true,
      Bool.true_and])

theorem calls_purchase (pid : String) (qty : Nat) :
    (purchase pid qty).Calls fun o => purchaseMay o = true := by
  have hend : ∀ r, (purchaseResult pid r).Calls fun o => purchaseMay o = true := by
    intro r
    unfold purchaseResult
    split
    · trivial
    · split
      · trivial
      · exact Prog.calls_bind (calls_publishStockUpdate rfl) fun _ => trivial
  refine calls_bind_op rfl fun r => ?_
  split
  · refine Prog.calls_bind (calls_bind_op rfl fun d => ?_) fun found => ?_
    · cases d with
      | none => trivial
      | some d =>
        dsimp only
        split
        · exact calls_bind_op rfl fun _ => trivial
        · trivial
    · split
      · exact calls_bind_op rfl hend
      · trivial
  · exact hend r

theorem calls_newObjectId (s : String) : (newObjectId s).Calls A := by
  unfold newObjectId
  cases castObjectId s <;> trivial

/-- The calls of `reserve` are those of its `purchase`, the insert of a held reservation, and the
`INCRBY` that gives the units back when the insert fails. -/
theorem calls_reserve_of {pid : String} {qty : Nat} (uid : Option String)
    (hpurchase : ∀ o, purchaseMay o = true → A o) (hnow : A .dateNow)
    (hcreate : ∀ p u t, A (.reservationCreate ⟨p, u, qty, .held, t⟩))
    (hback : A (.incrby (stockKey pid) qty)) : (reserve pid qty uid).Calls A := by
  refine Prog.calls_bind ((calls_purchase pid qty).mono hpurchase) fun result => ?_
  cases result with
  | soldOut => trivial
  | notFound => trivial
  | ok remaining =>
    refine calls_bind_op hnow fun now => Prog.calls_tryCatch ?_ fun err => ?_
    · refine Prog.calls_bind (Prog.calls_bind (calls_newObjectId pid) fun p => ?_) fun id => ?_
      · cases uid with
        | none => exact (Prog.calls_op _).mpr (hcreate _ _ _)
        | some u =>
          refine Prog.calls_bind (Prog.calls_bind (calls_newObjectId u) fun _ => trivial)
            fun u' => ?_
          exact (Prog.calls_op _).mpr (hcreate _ _ _)
      · refine Prog.calls_bind (calls_publishStockUpdate (hpurchase _ rfl)) fun _ => ?_
        trivial
    · exact calls_bind_op hback fun _ => trivial

theorem calls_reserve (pid : String) (qty : Nat) (uid : Option String) :
    (reserve pid qty uid).Calls fun o => reserveMay o = true := by
  refine calls_reserve_of uid (fun o ho => ?_) rfl (fun _ _ _ => rfl) rfl
  cases o <;> first | rfl | cases ho

theorem calls_doPurchase (r : BuyRequest) (uid : ObjectId) (pid : String) (qty : Nat) :
    (doPurchase uid pid qty).Calls fun o => (ShopReq.postBuy r).may o = true := by
  have hA : ∀ o, purchaseMay o = true → (ShopReq.postBuy r).may o = true := by
    intro o ho
    cases o <;> first | rfl | cases ho
  refine Prog.calls_bind ((calls_purchase pid qty).mono hA) fun result => ?_
  cases result with
  | soldOut => trivial
  | notFound => trivial
  | ok remaining =>
    refine calls_bind_op rfl fun product => calls_bind_op rfl fun oid => ?_
    refine Prog.calls_bind (Prog.calls_tryCatch ?_ fun _ => trivial) fun _ => trivial
    exact (Prog.calls_op _).mpr rfl

theorem calls_doReserve (r : BuyRequest) (uid : ObjectId) (pid : String) (qty : Nat) :
    (doReserve uid pid qty).Calls fun o => (ShopReq.postReserve r).may o = true := by
  refine Prog.calls_bind (calls_reserve pid qty _) fun result => ?_
  cases result <;> trivial

theorem calls_inr_own {m : ShopProg α} (h : m.Calls A) : (m.inr : ApiProg α).Calls (OrOwn A) :=
  Prog.calls_inr (T := shopSig) (A := OrOwn A) h

theorem calls_moneyRoute {scope : String}
    {work : ObjectId → String → Nat → ShopProg (StoredResult Body)} {req : BuyRequest}
    (h : ∀ q, (work req.userId req.id q).Calls A) :
    (moneyRoute scope work req).Calls (OrOwn A) := by
  unfold moneyRoute
  split
  · split
    · trivial
    · split
      · exact Prog.calls_bind (calls_inr_own (h _)) fun _ => trivial
      · split
        · exact Prog.calls_bind (calls_withIdempotency (h _)) fun _ => trivial
        · trivial
  · trivial

end Calls

/-- Every request keeps to its row of the table. -/
theorem calls_shopProg (r : ShopReq) : (shopProg r).Calls (OrOwn fun o => r.may o = true) := by
  have lift : ∀ {α : Type} {p : ShopProg α} {f : α → ShopRes},
      (p.Calls fun o => r.may o = true) →
      (f <$> p.inr : ApiProg ShopRes).Calls (OrOwn fun o => r.may o = true) :=
    fun hp => Prog.calls_bind (calls_inr_own hp) fun _ => trivial
  cases r with
  | postBuy req => exact Prog.calls_bind (calls_moneyRoute (calls_doPurchase req _ _)) fun _ => trivial
  | postReserve req =>
    exact Prog.calls_bind (calls_moneyRoute (calls_doReserve req _ _)) fun _ => trivial
  | reserve pid qty uid => exact lift (calls_reserve pid qty uid)
  | confirm id => exact lift (calls_confirm id)
  | release id => exact lift (calls_release id)
  | sweep => exact lift calls_sweep
  | tick n => exact lift (calls_tick n)
  | deliver j q oid => exact lift (calls_runJob j q oid)
  | compensate oid reason => exact lift (calls_compensate oid reason)

/-- The requests that start with `purchase`. -/
def ShopReq.purchases : ShopReq → Bool
  | .postBuy _ | .postReserve _ | .reserve .. => true
  | _ => false

/-- The answer of every other request is none of the money endpoints'. -/
theorem shopProg_eq {r : ShopReq} (h : r.purchases = false) :
    ∃ (α : Type) (p : ShopProg α) (f : α → ShopRes), shopProg r = f <$> p.inr ∧
      (p.Calls fun o => r.may o = true) ∧ ∀ a resp, f a ≠ .response resp := by
  cases r with
  | postBuy r => cases h
  | postReserve r => cases h
  | reserve pid qty uid => cases h
  | confirm id => exact ⟨_, _, _, rfl, calls_confirm id, fun _ _ => nofun⟩
  | release id => exact ⟨_, _, _, rfl, calls_release id, fun _ _ => nofun⟩
  | sweep => exact ⟨_, _, _, rfl, calls_sweep, fun _ _ => nofun⟩
  | tick n => exact ⟨_, _, _, rfl, calls_tick n, fun _ _ => nofun⟩
  | deliver j q oid => exact ⟨_, _, _, rfl, calls_runJob j q oid, fun _ _ => nofun⟩
  | compensate oid reason => exact ⟨_, _, _, rfl, calls_compensate oid reason, fun _ _ => nofun⟩

/-- The calls of a request that starts with `purchase`: the documents it inserts are new, so
pending or held. -/
def ShopOp.buys : ShopOp → Bool
  | .orderCreate r => r.status = .pending
  | .reservationCreate r => r.status = .held
  | .dateNow | .incrby .. | .addJob .. => true
  | o => purchaseMay o

theorem calls_buyer {r : ShopReq} (hr : r.purchases = true) :
    (shopProg r).Calls (OrOwn fun o : ShopOp => o.buys = true) := by
  have hreserve : ∀ pid qty uid, (reserve pid qty uid).Calls fun o : ShopOp => o.buys = true := by
    intro pid qty uid
    refine calls_reserve_of uid (fun o ho => ?_) rfl (fun _ _ _ => rfl) rfl
    cases o <;> first | rfl | cases ho
  cases r with
  | postBuy req =>
    refine (calls_shopProg (.postBuy req)).mono fun o ho => ?_
    cases o with
    | inl k => trivial
    | inr o => cases o <;> first | rfl | exact ho | (exfalso; cases ho)
  | postReserve req =>
    refine Prog.calls_bind (calls_moneyRoute fun q => ?_) fun _ => trivial
    refine Prog.calls_bind (hreserve _ _ _) fun result => ?_
    cases result <;> trivial
  | reserve pid qty uid => exact Prog.calls_bind (calls_inr_own (hreserve _ _ _)) fun _ => trivial
  | _ => cases hr

theorem not_takesStock_of_may {r : ShopReq} (h : r.purchases = false) {o : ShopOp}
    (ho : r.may o = true) : o.takesStock = false := by
  cases o with
  | buyStock k n =>
    cases r <;> first | (cases h; done) | simp [ShopReq.may, handlerMay, compensationMay] at ho
  | setStockNx k n =>
    cases r <;> first | (cases h; done) | simp [ShopReq.may, handlerMay, compensationMay] at ho
  | _ => rfl

end Flashkart
