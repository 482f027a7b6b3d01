import Flashkart.Basic
import Flashkart.Async.Collection
import Flashkart.Async.Run

/-!
# Shop.Store

The stores the api and the worker share, and every call they make on them: the Redis counters and
channels, the Mongo collections, the BullMQ queues, the payment gateway, the clock.

One constructor of `ShopOp` is one command of the source, atomic at its store. `shopStore` says
what it answers and changes. The Lua script `BUY_LUA` is one command. A call may also fail or lose
its answer (`Fate`); that is not said here but by `Store.exec`.
-/

namespace Flashkart

open Async

/-! ## Documents, jobs and events -/

structure ProductDoc where
  id : ObjectId
  pricePaise : Nat
  stock : Nat
  active : Bool
  deriving DecidableEq

inductive OrderStatus where
  | pending
  | paid
  | fulfilled
  | confirmed
  | failed
  deriving DecidableEq

structure OrderDoc where
  id : ObjectId
  userId : ObjectId
  productId : ObjectId
  quantity : Nat
  unitPricePaise : Nat
  totalPaise : Nat
  status : OrderStatus
  paymentAttempts : Nat
  failureReason : Option String
  createdAt : Nat
  deriving DecidableEq

inductive ReservationStatus where
  | held
  | confirmed
  | expired
  | released
  deriving DecidableEq

structure ReservationDoc where
  id : ObjectId
  productId : ObjectId
  userId : Option ObjectId
  quantity : Nat
  status : ReservationStatus
  expiresAt : Nat
  deriving DecidableEq

inductive QueueName where
  | ordersProcess
  | ordersFulfill
  | ordersNotify
  deriving DecidableEq

/-- Where BullMQ has a job. An active job is locked by the delivery that holds it. -/
inductive JobState where
  | waiting
  | active (lock : Nat)
  | delayed
  | completed
  | failed
  deriving DecidableEq

structure Job where
  queue : QueueName
  orderId : String
  state : JobState
  attemptsMade : Nat
  deriving DecidableEq

inductive StockEventReason where
  | purchase
  | reserve
  | release
  | sweepExpired
  deriving DecidableEq

structure StockEvent where
  productId : String
  remaining : Int
  reason : StockEventReason
  ts : Nat
  deriving DecidableEq

structure OrderEvent where
  orderId : String
  userId : String
  status : OrderStatus
  ts : Nat
  deriving DecidableEq

def JOB_ATTEMPTS : Nat := 3

def stockKey (productId : String) : String := "stock:" ++ productId

theorem stockKey_injective {a b : String} (h : stockKey a = stockKey b) : a = b := by
  simpa [stockKey] using h

@[simp] theorem stockKey_inj {a b : String} : stockKey a = stockKey b ↔ a = b :=
  ⟨stockKey_injective, fun h => h ▸ rfl⟩

/-! ## Calls -/

structure OrderInput where
  userId : ObjectId
  productId : String
  quantity : Nat
  unitPricePaise : Nat
  totalPaise : Nat
  status : OrderStatus

structure ReservationInput where
  productId : ObjectId
  userId : Option ObjectId
  quantity : Nat
  status : ReservationStatus
  expiresAt : Nat

/-- The condition an update puts on `expiresAt`. -/
inductive ExpiryTest where
  | any
  | gt (t : Nat)
  | lte (t : Nat)

structure ReservationFilter where
  id : Option String
  status : ReservationStatus
  expiresAt : ExpiryTest

inductive ShopOp where
  | buyStock (key : String) (qty : Nat)
  | getStock (key : String)
  | setStockNx (key : String) (value : Nat)
  | incrby (key : String) (n : Nat)
  | publishStockUpdate (productId : String) (remaining : Int) (reason : StockEventReason)
  | publishStock (ev : StockEvent)
  | publishOrder (ev : OrderEvent)
  | dateNow
  | productFindById (id : String)
  | orderCreate (o : OrderInput)
  | orderFindById (id : String)
  | orderSave (id : ObjectId) (paymentAttempts : Nat)
  | orderFindOneAndUpdate (id : String) (src dst : OrderStatus) (reason : Option String)
  | reservationCreate (r : ReservationInput)
  | reservationFindById (id : String)
  | reservationFindOneAndUpdate (f : ReservationFilter) (dst : ReservationStatus)
  | addJob (queue : QueueName) (orderId : String)
  | chargePayment (orderId : String) (totalPaise : Nat)
  | enterTick (worker : Nat)
  | leaveTick (worker : Nat)
  | moveToCompleted (job : Nat)
  | moveToFailed (job : Nat)

abbrev ShopOp.Ret : ShopOp → Type
  | .buyStock .. => Int
  | .getStock _ => Option Int
  | .setStockNx .. => Bool
  | .incrby .. => Int
  | .publishStockUpdate .. => Unit
  | .publishStock _ => Unit
  | .publishOrder _ => Unit
  | .dateNow => Nat
  | .productFindById _ => Option ProductDoc
  | .orderCreate _ => ObjectId
  | .orderFindById _ => Option OrderDoc
  | .orderSave .. => Unit
  | .orderFindOneAndUpdate .. => Option OrderDoc
  | .reservationCreate _ => ObjectId
  | .reservationFindById _ => Option ReservationDoc
  | .reservationFindOneAndUpdate .. => Option ReservationDoc
  | .addJob .. => Unit
  | .chargePayment .. => Unit
  | .enterTick _ => Bool
  | .leaveTick _ => Unit
  | .moveToCompleted _ => Unit
  | .moveToFailed _ => Option Nat

abbrev shopSig : Sig := ⟨ShopOp, ShopOp.Ret⟩

abbrev ShopProg (α : Type) : Type := Prog shopSig Err α

def ShopOp.call (o : ShopOp) : ShopProg o.Ret := @Prog.op shopSig Err o

/-! ## The stores -/

/-- `outbox` holds the events of fire-and-forget publishes that Redis has not executed yet, and
`ticking` the `inflight` flag of each worker process. -/
structure Shop where
  products : ObjectId → Option ProductDoc
  stock : String → Option Int
  orders : List OrderDoc
  reservations : List ReservationDoc
  jobs : List Job
  stockChannel : List StockEvent
  outbox : List StockEvent
  orderChannel : List OrderEvent
  charges : List String
  ticking : Nat → Bool

/-- What a store is free to choose: a matching document, and a fresh id. -/
structure Pick where
  idx : Nat
  oid : ObjectId

def ExpiryTest.holds : ExpiryTest → Nat → Bool
  | .any, _ => true
  | .gt t, e => t < e
  | .lte t, e => e ≤ t

def ReservationFilter.matches (f : ReservationFilter) (d : ReservationDoc) : Bool :=
  (f.id.all fun s => castObjectId s == some d.id) && d.status == f.status &&
    f.expiresAt.holds d.expiresAt

/-- The predicate `{ _id: id, status: src }` of the pipeline's updates. -/
def orderMatches (id : String) (src : OrderStatus) (d : OrderDoc) : Bool :=
  castObjectId id == some d.id && d.status == src

def Job.add (queue : QueueName) (orderId : String) : Job := ⟨queue, orderId, .waiting, 0⟩

/-- The lock holder's job ends well. -/
def Job.complete (lock : Nat) (j : Job) : Job :=
  if j.state = .active lock then { j with state := .completed } else j

/-- The lock holder's job has thrown: it is due for retry until its attempts are used up. -/
def Job.fail (lock : Nat) (j : Job) : Job :=
  if j.state = .active lock then
    { j with
      attemptsMade := j.attemptsMade + 1
      state := if j.attemptsMade + 1 < JOB_ATTEMPTS then .delayed else .failed }
  else j

/-- `BUY_LUA`: check and subtract. `-2` when the key is missing, `-1` when it holds too little. -/
def BUY_LUA (stock : String → Option Int) (key : String) (qty : Nat) :
    Int × (String → Option Int) :=
  match stock key with
  | none => (-2, stock)
  | some n =>
    if n < qty then (-1, stock)
    else (n - qty, Function.update stock key (some (n - qty)))

theorem BUY_LUA_cases (stock : String → Option Int) (key : String) (qty : Nat) :
    (stock key = none ∧ BUY_LUA stock key qty = (-2, stock)) ∨
      (∃ n : Int, stock key = some n ∧ n < qty ∧ BUY_LUA stock key qty = (-1, stock)) ∨
      ∃ n : Int, stock key = some n ∧ qty ≤ n ∧
        BUY_LUA stock key qty = (n - qty, Function.update stock key (some (n - qty))) := by
  unfold BUY_LUA
  cases hk : stock key with
  | none => exact .inl ⟨rfl, rfl⟩
  | some n =>
    by_cases hn : n < qty
    · exact .inr (.inl ⟨n, rfl, hn, if_pos hn⟩)
    · exact .inr (.inr ⟨n, rfl, by omega, if_neg hn⟩)

/-- A query by a string that is no id throws, so it has no answer. -/
def findByIdString {D : Type} (id : String) (find : ObjectId → Option D) : Option (Option D) :=
  (castObjectId id).map find

def shopStore : Store shopSig Shop Pick
  | _, _, .buyStock key qty, _, w =>
    let r := BUY_LUA w.stock key qty
    some (r.1, { w with stock := r.2 })
  | _, _, .getStock key, _, w => some (w.stock key, w)
  | _, _, .setStockNx key v, _, w =>
    match w.stock key with
    | some _ => some (false, w)
    | none => some (true, { w with stock := Function.update w.stock key (some (v : Int)) })
  | _, _, .incrby key n, _, w =>
    let v : Int := (w.stock key).getD 0 + n
    some (v, { w with stock := Function.update w.stock key (some v) })
  | now, _, .publishStockUpdate pid r reason, _, w =>
    some ((), { w with outbox := w.outbox ++ [⟨pid, r, reason, now⟩] })
  | _, _, .publishStock ev, _, w => some ((), { w with stockChannel := w.stockChannel ++ [ev] })
  | _, _, .publishOrder ev, _, w => some ((), { w with orderChannel := w.orderChannel ++ [ev] })
  | now, _, .dateNow, _, w => some (now, w)
  | _, _, .productFindById id, _, w => (findByIdString id w.products).map fun r => (r, w)
  | now, _, .orderCreate o, p, w =>
    match castObjectId o.productId with
    | none => none
    | some pid =>
      if o.quantity < 1 ∨ p.oid ∈ w.orders.map (·.id) then none
      else some (p.oid, { w with
        orders := w.orders ++ [⟨p.oid, o.userId, pid, o.quantity, o.unitPricePaise,
          o.totalPaise, o.status, 0, none, now⟩] })
  | _, _, .orderFindById id, _, w =>
    (findByIdString id fun oid => w.orders.find? (·.id = oid)).map fun r => (r, w)
  | _, _, .orderSave id n, _, w =>
    some ((), { w with
      orders := w.orders.map fun d => if d.id = id then { d with paymentAttempts := n } else d })
  | _, _, .orderFindOneAndUpdate id src dst reason, p, w =>
    (Collection.findOneAndUpdate w.orders (orderMatches id src)
      (fun d => { d with status := dst, failureReason := reason.or d.failureReason }) p.idx).map
      fun r => (r.1, { w with orders := r.2 })
  | _, _, .reservationCreate r, p, w =>
    if r.quantity < 1 ∨ p.oid ∈ w.reservations.map (·.id) then none
    else some (p.oid, { w with
      reservations := w.reservations ++
        [⟨p.oid, r.productId, r.userId, r.quantity, r.status, r.expiresAt⟩] })
  | _, _, .reservationFindById id, _, w =>
    (findByIdString id fun oid => w.reservations.find? (·.id = oid)).map fun r => (r, w)
  | _, _, .reservationFindOneAndUpdate f dst, p, w =>
    (Collection.findOneAndUpdate w.reservations f.matches (fun d => { d with status := dst })
      p.idx).map fun r => (r.1, { w with reservations := r.2 })
  | _, _, .addJob q oid, _, w => some ((), { w with jobs := w.jobs ++ [Job.add q oid] })
  | _, _, .chargePayment oid _, _, w => some ((), { w with charges := w.charges ++ [oid] })
  | _, _, .enterTick n, _, w =>
    if w.ticking n then some (false, w)
    else some (true, { w with ticking := Function.update w.ticking n true })
  | _, _, .leaveTick n, _, w => some ((), { w with ticking := Function.update w.ticking n false })
  | _, i, .moveToCompleted j, _, w =>
    some ((), { w with jobs := w.jobs.modify j (Job.complete i) })
  | _, i, .moveToFailed j, _, w =>
    match w.jobs[j]? with
    | some job =>
      if job.state = .active i then
        some (some (job.attemptsMade + 1), { w with jobs := w.jobs.modify j (Job.fail i) })
      else some (none, w)
    | none => some (none, w)

end Flashkart
