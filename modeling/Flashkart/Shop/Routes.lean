import Flashkart.Idempotency
import Flashkart.Shop.Inventory

/-!
# Shop.Routes

`POST /products/:id/buy` and `POST /products/:id/reserve`, from the point where `requireAuth` and
the limiter have let the request through. The two handlers differ in the scope of their
idempotency key and in the work they wrap: `moneyRoute` is what they share.
-/

namespace Flashkart

open Async

/-- The `quantity` of a body after `z.coerce.number()`: a number or `NaN`, or not there at all. -/
inductive BodyQuantity where
  | notObject
  | missing
  | notNumber
  | number (q : Rat)
  deriving DecidableEq

def buyBodySchema : BodyQuantity → Option Nat
  | .notObject => none
  | .missing => some 1
  | .notNumber => none
  | .number q => if q.den = 1 ∧ 0 < q.num ∧ q.num ≤ 10 then some q.num.toNat else none

theorem buyBodySchema_bounds {b : BodyQuantity} {q : Nat} (h : buyBodySchema b = some q) :
    1 ≤ q ∧ q ≤ 10 := by
  cases b with
  | notObject => cases h
  | missing => cases h; omega
  | notNumber => cases h
  | number r =>
    simp only [buyBodySchema] at h
    split at h
    · rename_i hr; cases h; omega
    · cases h

/-- `/^[a-zA-Z0-9_-]{8,128}$/` -/
def IDEM_KEY_RE (s : String) : Bool :=
  8 ≤ s.toList.length && s.toList.length ≤ 128 &&
    s.toList.all fun c => c.isAlphanum || c == '_' || c == '-'

structure BuyRequest where
  userId : ObjectId
  id : String
  body : BodyQuantity
  rawKey : Option String
  deriving DecidableEq

/-- The JSON bodies of the two endpoints, whose `status` is `"pending"` and `"held"`. -/
inductive Body where
  | order (orderId productId : String) (quantity : Nat) (remaining : Int)
  | reservation (reservationId productId : String) (quantity expiresAt : Nat) (remaining : Int)
  deriving DecidableEq

def Body.productId : Body → String
  | .order _ productId _ _ => productId
  | .reservation _ productId _ _ _ => productId

def Body.quantity : Body → Nat
  | .order _ _ quantity _ => quantity
  | .reservation _ _ quantity _ _ => quantity

/-- An answer, with its `Idempotent-Replay` header if it has one. -/
structure Response where
  status : Nat
  replay : Option Bool
  body : Body
  deriving DecidableEq

/-- These bodies hold strings and integers only, so their JSON text gives them back. -/
def bodyJson : Json (StoredResult Body) (StoredResult Body) := ⟨id, id⟩

abbrev ApiProg (α : Type) : Type := IdemProg (StoredResult Body) shopSig α

def doPurchase (userId : ObjectId) (id : String) (quantity : Nat) :
    ShopProg (StoredResult Body) := do
  let result ← purchase id quantity
  match result with
  | .notFound => .throw (.app (notFound "product not found"))
  | .soldOut => .throw (.app (soldOut "sold out"))
  | .ok remaining =>
    let product ← (ShopOp.productFindById id).call
    let unitPricePaise := (product.map (·.pricePaise)).getD 0
    let orderId ← (ShopOp.orderCreate
      ⟨userId, id, quantity, unitPricePaise, unitPricePaise * quantity, .pending⟩).call
    -- an enqueue that fails is logged, and the order stays pending
    (ShopOp.addJob .ordersProcess orderId.toString).call.tryCatch fun _ => .ret ()
    return ⟨201, .order orderId.toString id quantity remaining⟩

def doReserve (userId : ObjectId) (id : String) (quantity : Nat) :
    ShopProg (StoredResult Body) := do
  let result ← reserve id quantity (some userId.toString)
  match result with
  | .notFound => .throw (.app (notFound "product not found"))
  | .soldOut => .throw (.app (soldOut "sold out"))
  | .held reservationId expiresAt remaining =>
    return ⟨201, .reservation reservationId id quantity expiresAt remaining⟩

def moneyRoute (scope : String) (work : ObjectId → String → Nat → ShopProg (StoredResult Body))
    (req : BuyRequest) : ApiProg Response :=
  if isValidObjectId req.id then
    match buyBodySchema req.body with
    | none => .throw (.app (badRequest "invalid quantity"))
    | some quantity =>
      match req.rawKey with
      | none => do
        let r ← (work req.userId req.id quantity).inr
        return ⟨r.status, none, r.body⟩
      | some rawKey =>
        if IDEM_KEY_RE rawKey then do
          let key := scope ++ ":" ++ req.userId.toString ++ ":" ++ req.id ++ ":" ++ rawKey
          let r ← withIdempotency bodyJson key (work req.userId req.id quantity)
          return ⟨r.value.status, some r.replayed, r.value.body⟩
        else .throw (.app (badRequest "invalid Idempotency-Key"))
  else .throw (.app (badRequest "invalid product id"))

def postBuy (req : BuyRequest) : ApiProg Response := moneyRoute "buy" doPurchase req

def postReserve (req : BuyRequest) : ApiProg Response := moneyRoute "reserve" doReserve req

end Flashkart
