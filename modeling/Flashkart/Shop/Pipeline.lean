import Flashkart.Shop.Inventory

/-!
# Shop.Pipeline

The worker: the handlers of the three queues, the compensation of a failed payment, and the
reservation sweeper.

`runJob` is one delivery of a job as BullMQ runs it: the handler, then `moveToCompleted` or, after
a throw, `moveToFailed` and the `failed` event with the attempts made so far. A delivery that has
lost the lock of its job settles nothing and emits nothing.
-/

namespace Flashkart

open Async

def publish (orderId : String) (order : OrderDoc) (status : OrderStatus) : ShopProg Unit := do
  let ts ← ShopOp.dateNow.call
  (ShopOp.publishOrder ⟨orderId, order.userId.toString, status, ts⟩).call

/-- The compare-and-set `{ _id, status: src } → { status: dst }`, and what follows when it
matched: the event, then the job of the next stage. -/
def advance (orderId : String) (src dst : OrderStatus) (enqueue : ShopProg Unit) :
    ShopProg Unit := do
  let updated ← (ShopOp.orderFindOneAndUpdate orderId src dst none).call
  match updated with
  | none => return ()
  | some order =>
    publish orderId order dst
    enqueue

def processHandler (orderId : String) : ShopProg Unit := do
  let order ← (ShopOp.orderFindById orderId).call
  match order with
  | none => .throw (.error ("order " ++ orderId ++ " not found"))
  | some order =>
    if order.status ≠ .pending then return ()
    else
      (ShopOp.orderSave order.id (order.paymentAttempts + 1)).call
      (ShopOp.chargePayment orderId order.totalPaise).call
      advance orderId .pending .paid (ShopOp.addJob .ordersFulfill orderId).call

def fulfillHandler (orderId : String) : ShopProg Unit := do
  let order ← (ShopOp.orderFindById orderId).call
  match order with
  | none => .throw (.error ("order " ++ orderId ++ " not found"))
  | some order =>
    if order.status ≠ .paid then return ()
    else advance orderId .paid .fulfilled (ShopOp.addJob .ordersNotify orderId).call

def notifyHandler (orderId : String) : ShopProg Unit := do
  let order ← (ShopOp.orderFindById orderId).call
  match order with
  | none => .throw (.error ("order " ++ orderId ++ " not found"))
  | some order =>
    if order.status ≠ .fulfilled then return ()
    else advance orderId .fulfilled .confirmed (return ())

def compensatePayment (orderId reason : String) : ShopProg Unit := do
  let order ← (ShopOp.orderFindOneAndUpdate orderId .pending .failed (some reason)).call
  match order with
  | none => return ()
  | some order =>
    let newRemaining ←
      (ShopOp.incrby (stockKey order.productId.toString) order.quantity).call
    let ts ← ShopOp.dateNow.call
    (ShopOp.publishStock ⟨order.productId.toString, newRemaining, .release, ts⟩).call
    publish orderId order .failed

def handler : QueueName → String → ShopProg Unit
  | .ordersProcess => processHandler
  | .ordersFulfill => fulfillHandler
  | .ordersNotify => notifyHandler

/-- The `failed` listeners: only the process worker has one. -/
def onFailed (queue : QueueName) (orderId : String) (attemptsMade : Option Nat) (err : Err) :
    ShopProg Unit :=
  match queue, attemptsMade with
  | .ordersProcess, some n =>
    if n < JOB_ATTEMPTS then return ()
    else (compensatePayment orderId err.message).tryCatch fun _ => .ret ()
  | _, _ => return ()

def runJob (job : Nat) (queue : QueueName) (orderId : String) : ShopProg Unit := do
  let threw ← Prog.tryCatch
    (do
      handler queue orderId
      return none)
    fun err => return some err
  match threw with
  | none => (ShopOp.moveToCompleted job).call
  | some err =>
    let attemptsMade ← (ShopOp.moveToFailed job).call
    onFailed queue orderId attemptsMade err

/-- What the queue makes of the way a handler ended. -/
def settleJob (job : Nat) (queue : QueueName) (orderId : String) : Option Err → ShopProg Unit
  | none => (ShopOp.moveToCompleted job).call
  | some err => do
    let attemptsMade ← (ShopOp.moveToFailed job).call
    onFailed queue orderId attemptsMade err

theorem runJob_eq (job : Nat) (queue : QueueName) (orderId : String) :
    runJob job queue orderId =
      ((handler queue orderId >>= fun _ => return none).tryCatch fun err => return some err).bind
        (settleJob job queue orderId) := by
  refine congrArg (Prog.bind _) (funext fun threw => ?_)
  cases threw with
  | none => rfl
  | some err => rfl

/-! ## The sweeper -/

/-- The loop of one tick, with `n` rounds left. -/
def tickLoop (now : Nat) : (n reclaimed : Nat) → ShopProg Nat
  | 0, reclaimed => return reclaimed
  | n + 1, reclaimed => do
    let doc ← (ShopOp.reservationFindOneAndUpdate ⟨none, .held, .lte now⟩ .expired).call
    match doc with
    | none => return reclaimed
    | some d =>
      let productId := d.productId.toString
      let newRemaining ← (ShopOp.incrby (stockKey productId) d.quantity).call
      let ts ← ShopOp.dateNow.call
      (ShopOp.publishStock ⟨productId, newRemaining, .sweepExpired, ts⟩).call
      tickLoop now n (reclaimed + 1)

/-- One tick of worker process `worker`: nothing while an earlier one is still in flight. -/
def tick (worker : Nat) : ShopProg Unit := do
  let entered ← (ShopOp.enterTick worker).call
  if entered then
    Prog.tryCatch
      (do
        let now ← ShopOp.dateNow.call
        let _ ← tickLoop now MAX_PER_TICK 0
        return ())
      fun _ => return ()
    (ShopOp.leaveTick worker).call
  else return ()

end Flashkart
