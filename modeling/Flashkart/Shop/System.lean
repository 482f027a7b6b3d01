import Flashkart.Shop.Pipeline
import Flashkart.Shop.Routes

/-!
# Shop.System

The whole shop as one system of threads: every request of the api, every sweep and tick, every
delivery of a job, over the idempotency store and the shop's stores. A run is any interleaving of
their calls, each of which may be answered, fail, or lose its answer; the statements about runs
restrict that by a guard where they say so.
-/

namespace Flashkart

open Async

inductive ShopReq where
  | postBuy (r : BuyRequest)
  | postReserve (r : BuyRequest)
  | reserve (productId : String) (qty : Nat) (userId : Option String)
  | confirm (reservationId : String)
  | release (reservationId : String)
  | sweep
  | tick (worker : Nat)
  | deliver (job : Nat) (queue : QueueName) (orderId : String)
  | compensate (orderId reason : String)
  deriving DecidableEq

/-- The path string or argument by which a request names a product. -/
def ShopReq.productId : ShopReq → Option String
  | .postBuy r | .postReserve r => some r.id
  | .reserve productId _ _ => some productId
  | _ => none

inductive ShopRes where
  | response (r : Response)
  | reserved (r : ReserveResult)
  | confirmed (r : ConfirmResult)
  | released (r : ReleaseResult)
  | swept (reclaimed : Nat)
  | done
  deriving DecidableEq

/-- `flush` and `drop` end a fire-and-forget publish. `promote` ends a retry's backoff, `redeliver`
makes a job wait again whatever became of it: its lock was lost, or it is delivered twice. -/
inductive ShopEnv where
  | flush (j : Nat)
  | drop (j : Nat)
  | promote (job : Nat)
  | redeliver (job : Nat)
  | catalog (id : ObjectId) (doc : Option ProductDoc)

abbrev IdemKv : Type := Kv (Cell (StoredResult Body))

abbrev apiSig : Sig := (kvSig (Cell (StoredResult Body))).sum shopSig

def shopProg : ShopReq → ApiProg ShopRes
  | .postBuy r => .response <$> postBuy r
  | .postReserve r => .response <$> postReserve r
  | .reserve pid qty uid => .reserved <$> (reserve pid qty uid).inr
  | .confirm id => .confirmed <$> (confirmReservation id).inr
  | .release id => .released <$> (releaseReservation id).inr
  | .sweep => .swept <$> sweepExpiredReservations.inr
  | .tick n => (fun _ => .done) <$> (tick n).inr
  | .deliver j q oid => (fun _ => .done) <$> (runJob j q oid).inr
  | .compensate oid reason => (fun _ => .done) <$> (compensatePayment oid reason).inr

/-- A delivery takes the lock of a job that is waiting. -/
def Shop.lockJob (w : Shop) (lock job : Nat) (queue : QueueName) (orderId : String) :
    Option Shop :=
  match w.jobs[job]? with
  | some d =>
    if d.queue = queue ∧ d.orderId = orderId ∧ d.state = .waiting then
      some { w with jobs := w.jobs.modify job fun d => { d with state := .active lock } }
    else none
  | none => none

def shopAccept (i : Nat) : ShopReq → IdemKv × Shop → Option (IdemKv × Shop)
  | .deliver j q oid, w => (w.2.lockJob i j q oid).map fun s => (w.1, s)
  | _, w => some w

def Shop.surroundings (w : Shop) : ShopEnv → Option Shop
  | .flush j =>
    (w.outbox[j]?).map fun ev =>
      { w with outbox := w.outbox.eraseIdx j, stockChannel := w.stockChannel ++ [ev] }
  | .drop j => some { w with outbox := w.outbox.eraseIdx j }
  | .promote j =>
    some { w with jobs := w.jobs.modify j fun d =>
      if d.state = .delayed then { d with state := .waiting } else d }
  | .redeliver j => some { w with jobs := w.jobs.modify j fun d => { d with state := .waiting } }
  | .catalog id doc => some { w with products := Function.update w.products id doc }

def shopSystem : System apiSig Err ShopReq ShopRes (IdemKv × Shop) Pick ShopEnv where
  store := kvStore.sum shopStore
  prog := shopProg
  accept := fun _ i r w => shopAccept i r w
  env := fun _ e w => (w.2.surroundings e).map fun s => (w.1, s)

abbrev ShopConfig : Type := Config apiSig Err ShopReq ShopRes (IdemKv × Shop)
abbrev ShopThread : Type := Thread apiSig Err ShopReq ShopRes
abbrev ShopAct : Type := Act Err ShopReq Pick ShopEnv

/-- Calls fail without effect, if they fail. -/
def effectless (_ : ShopConfig) : ShopAct → Bool
  | .call _ (.lost ..) => false
  | _ => true

/-- A catalog, and nothing else yet: no counter, record, job, event or idempotency entry. -/
def Shop.fresh (catalog : ObjectId → Option ProductDoc) : Shop where
  products := catalog
  stock := fun _ => none
  orders := []
  reservations := []
  jobs := []
  stockChannel := []
  outbox := []
  orderChannel := []
  charges := []
  ticking := fun _ => false

def freshShop (now : Nat) (catalog : ObjectId → Option ProductDoc) : ShopConfig :=
  .init now (fun _ => none, .fresh catalog)

/-! A catalog of one product, and ids for the runs on it. -/

def hexId (c : Char) (h : c ∈ lowerHexDigits) : ObjectId where
  hex := String.ofList (List.replicate 24 c)
  wf := by
    rw [String.toList_ofList]
    exact ⟨List.length_replicate, fun d hd => (List.eq_of_mem_replicate hd) ▸ h⟩

def idA : ObjectId := hexId 'a' (by decide)
def idB : ObjectId := hexId 'b' (by decide)
def idC : ObjectId := hexId 'c' (by decide)

def oneProduct (stock : Nat) : ObjectId → Option ProductDoc := fun id =>
  if id = idA then some ⟨idA, 100, stock, true⟩ else none

/-- Thread `i` makes its next `n` calls, and each is answered; new documents get the id `oid`. -/
def callsOf (i n : Nat) (oid : ObjectId) : List ShopAct :=
  List.replicate n (.call i (.answered ⟨0, oid⟩))

/-- A buy of one unit that creates the order `idB` and its job. -/
def orderPlaced : List ShopAct :=
  .arrive (.postBuy ⟨idC, idA.toString, .missing, none⟩) :: callsOf 0 8 idB

end Flashkart
