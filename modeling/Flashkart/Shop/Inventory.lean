import Flashkart.Shop.Store

/-!
# Shop.Inventory

The inventory engine of the api: live stock, `purchase`, and the reservation flow. The worker's
copy of the sweep loop is `tick`, in `Shop.Pipeline`.
-/

namespace Flashkart

open Async

def RESERVATION_TTL_MS : Nat := 90000

/-- Number of documents one sweep or tick looks at, at most. -/
def MAX_PER_TICK : Nat := 100

/-- `void publishStockUpdate(…)`: the caller does not wait, and errors are swallowed. -/
def publishStockUpdate (productId : String) (remaining : Int) (reason : StockEventReason) :
    ShopProg Unit :=
  (ShopOp.publishStockUpdate productId remaining reason).call.tryCatch fun _ => .ret ()

def getLiveStock (productId : String) : ShopProg (Option Int) := do
  let fromRedis ← (ShopOp.getStock (stockKey productId)).call
  match fromRedis with
  | some n => return some n
  | none =>
    let product ← (ShopOp.productFindById productId).call
    return product.map fun p => (p.stock : Int)

def primeFromMongo (productId : String) : ShopProg Bool := do
  let product ← (ShopOp.productFindById productId).call
  match product with
  | none => return false
  | some product =>
    if product.active then
      let _ ← (ShopOp.setStockNx (stockKey productId) product.stock).call
      return true
    else return false

inductive PurchaseResult where
  | ok (remaining : Int)
  | soldOut
  | notFound
  deriving DecidableEq

/-- The end of `purchase`, from the answer of the last script call on. -/
def purchaseResult (productId : String) (result : Int) : ShopProg PurchaseResult :=
  if result = -2 then return .notFound
  else if result = -1 then return .soldOut
  else do
    publishStockUpdate productId result .purchase
    return .ok result

def purchase (productId : String) (qty : Nat) : ShopProg PurchaseResult := do
  let result ← (ShopOp.buyStock (stockKey productId) qty).call
  if result = -2 then
    let found ← primeFromMongo productId
    if found then
      let result ← (ShopOp.buyStock (stockKey productId) qty).call
      purchaseResult productId result
    else return .notFound
  else purchaseResult productId result

/-! ## Reservation flow -/

inductive ReserveResult where
  | held (reservationId : String) (expiresAt : Nat) (remaining : Int)
  | soldOut
  | notFound
  deriving DecidableEq

/-- `new mongoose.Types.ObjectId(s)`. -/
def newObjectId (s : String) : ShopProg ObjectId :=
  match castObjectId s with
  | some o => .ret o
  | none => .throw (.error "input must be a 24 character hex string")

/-- The insert inside `reserve`'s `try` block. -/
def createReservation (productId : String) (qty : Nat) (userId : Option String) (expiresAt : Nat) :
    ShopProg ObjectId := do
  let pid ← newObjectId productId
  let uid ← match userId with
    | some u => some <$> newObjectId u
    | none => pure none
  (ShopOp.reservationCreate ⟨pid, uid, qty, .held, expiresAt⟩).call

def reserve (productId : String) (qty : Nat) (userId : Option String) : ShopProg ReserveResult := do
  let purchased ← purchase productId qty
  match purchased with
  | .soldOut => return .soldOut
  | .notFound => return .notFound
  | .ok remaining =>
    let now ← ShopOp.dateNow.call
    let expiresAt := now + RESERVATION_TTL_MS
    Prog.tryCatch
      (do
        let id ← createReservation productId qty userId expiresAt
        publishStockUpdate productId remaining .reserve
        return .held id.toString expiresAt remaining)
      fun err => do
        -- the stock was taken but the record did not land: give it back
        let _ ← (ShopOp.incrby (stockKey productId) qty).call
        .throw err

inductive ConfirmResult where
  | confirmed (productId : String) (quantity : Nat)
  | expired
  | notFound
  deriving DecidableEq

def confirmReservation (reservationId : String) : ShopProg ConfirmResult :=
  if isValidObjectId reservationId then do
    let now ← ShopOp.dateNow.call
    let updated ← (ShopOp.reservationFindOneAndUpdate ⟨some reservationId, .held, .gt now⟩
      .confirmed).call
    match updated with
    | some d => return .confirmed d.productId.toString d.quantity
    | none =>
      let existing ← (ShopOp.reservationFindById reservationId).call
      match existing with
      | none => return .notFound
      | some _ => return .expired
  else return .notFound

inductive ReleaseResult where
  | released (productId : String) (quantity : Nat)
  | notHoldable
  | notFound
  deriving DecidableEq

def releaseReservation (reservationId : String) : ShopProg ReleaseResult :=
  if isValidObjectId reservationId then do
    let updated ← (ShopOp.reservationFindOneAndUpdate ⟨some reservationId, .held, .any⟩
      .released).call
    match updated with
    | none =>
      let existing ← (ShopOp.reservationFindById reservationId).call
      match existing with
      | none => return .notFound
      | some _ => return .notHoldable
    | some d =>
      let newRemaining ← (ShopOp.incrby (stockKey d.productId.toString) d.quantity).call
      publishStockUpdate d.productId.toString newRemaining .release
      return .released d.productId.toString d.quantity
  else return .notFound

/-- The loop of `sweepExpiredReservations`, with `n` rounds left. -/
def sweepLoop (now : Nat) : (n reclaimed : Nat) → ShopProg Nat
  | 0, reclaimed => return reclaimed
  | n + 1, reclaimed => do
    let doc ← (ShopOp.reservationFindOneAndUpdate ⟨none, .held, .lte now⟩ .expired).call
    match doc with
    | none => return reclaimed
    | some d =>
      let _ ← (ShopOp.incrby (stockKey d.productId.toString) d.quantity).call
      sweepLoop now n (reclaimed + 1)

def sweepExpiredReservations : ShopProg Nat := do
  let now ← ShopOp.dateNow.call
  sweepLoop now MAX_PER_TICK 0

end Flashkart
