import Flashkart.Async.Serial
import Flashkart.Shop.System

/-!
# Shop.Checkout

The routes by which a user sees and moves checkouts: `/reservations/:id` with `confirm` and
`release`, `/orders/:id` and `/orders/mine`, from the point where `requireAuth` has let the request
through.
-/

namespace Flashkart

open Async

inductive CheckoutReq where
  | getReservation (id : String)
  | confirm (id : String)
  | release (id : String)
  | getOrder (id : String)
  | mine
  deriving DecidableEq

/-- The JSON bodies of the answers, whose `status` is `"confirmed"`, `"already_terminal"` and
`"released"` where they have one. -/
inductive CheckoutRes where
  | reservation (doc : ReservationDoc)
  | confirmed (reservationId productId : String) (quantity : Nat)
  | alreadyTerminal
  | released (reservationId productId : String) (quantity : Nat)
  | order (doc : OrderDoc)
  | orders (docs : List OrderDoc)
  deriving DecidableEq

/-- Only the owner can view a reservation; one without an owner, anybody. -/
def ensureOwner (id : String) (userId : ObjectId) : ShopProg ReservationDoc := do
  let doc ← (ShopOp.reservationFindById id).call
  match doc with
  | none => .throw (.app (notFound "reservation not found"))
  | some doc =>
    if doc.userId.any fun u => u.toString ≠ userId.toString then
      .throw (.app (forbidden "not your reservation"))
    else return doc

def getReservation (userId : ObjectId) (id : String) : ShopProg CheckoutRes :=
  if isValidObjectId id then do
    let doc ← ensureOwner id userId
    return .reservation doc
  else .throw (.app (badRequest "invalid reservation id"))

def postConfirm (userId : ObjectId) (id : String) : ShopProg CheckoutRes :=
  if isValidObjectId id then do
    let _ ← ensureOwner id userId
    let result ← confirmReservation id
    match result with
    | .notFound => .throw (.app (notFound "reservation not found"))
    | .expired => .throw (.app reservationExpired)
    | .confirmed productId quantity => return .confirmed id productId quantity
  else .throw (.app (badRequest "invalid reservation id"))

def postRelease (userId : ObjectId) (id : String) : ShopProg CheckoutRes :=
  if isValidObjectId id then do
    let _ ← ensureOwner id userId
    let result ← releaseReservation id
    match result with
    | .notFound => .throw (.app (notFound "reservation not found"))
    | .notHoldable => return .alreadyTerminal
    | .released productId quantity => return .released id productId quantity
  else .throw (.app (badRequest "invalid reservation id"))

def getOrder (userId : ObjectId) (id : String) : ShopProg CheckoutRes :=
  if isValidObjectId id then do
    let order ← (ShopOp.orderFindById id).call
    match order with
    | none => .throw (.app (notFound "order not found"))
    | some order =>
      if order.userId.toString ≠ userId.toString then .throw (.app (forbidden "not your order"))
      else return .order order
  else .throw (.app (badRequest "invalid order id"))

/-- `find({ userId }).sort({ createdAt: -1 }).limit(50)`, when Mongo puts the matching documents in
the order `sorted`: it is free to order those of one time. -/
def ordersMine (userId : ObjectId) (sorted : List OrderDoc) (w : Shop) : Option CheckoutRes :=
  if sorted.isPerm (w.orders.filter fun d => d.userId = userId) ∧
      sorted.Pairwise fun a b => b.createdAt ≤ a.createdAt then
    some (.orders (sorted.take 50))
  else none

/-- The request of user `userId`, alone with the stores, ends with `r`. -/
def Serves (userId : ObjectId) : CheckoutReq → Nat × Shop → Except Err CheckoutRes → Nat × Shop → Prop
  | .getReservation id, x, r, x' => Exec shopStore.timed 0 0 (getReservation userId id) x r x'
  | .confirm id, x, r, x' => Exec shopStore.timed 0 0 (postConfirm userId id) x r x'
  | .release id, x, r, x' => Exec shopStore.timed 0 0 (postRelease userId id) x r x'
  | .getOrder id, x, r, x' => Exec shopStore.timed 0 0 (getOrder userId id) x r x'
  | .mine, x, r, x' => x'.2 = x.2 ∧ x.1 ≤ x'.1 ∧
      ∃ sorted res, ordersMine userId sorted x.2 = some res ∧ r = .ok res

/-- The status and the body that are sent. -/
def checkoutResponse : Except Err CheckoutRes → Nat × (ErrorCode × String ⊕ CheckoutRes)
  | .ok res => (200, .inr res)
  | .error e => ((errorMiddleware e).1, .inl (errorMiddleware e).2)

/-! ## Collections with a key -/

/-- No two documents of a collection have the same `_id`. -/
structure Shop.Keyed (w : Shop) : Prop where
  reservations : (w.reservations.map (·.id)).Nodup
  orders : (w.orders.map (·.id)).Nodup

/-- The reservation `o` gets the status `s`. -/
def mark (o : ObjectId) (s : ReservationStatus) (docs : List ReservationDoc) : List ReservationDoc :=
  docs.map fun d => if d.id = o then { d with status := s } else d

section Keyed

variable {docs : List ReservationDoc} {d : ReservationDoc} {o : ObjectId} {s : ReservationStatus}

theorem mark_self (hn : (docs.map (·.id)).Nodup) (hd : d ∈ docs) : mark d.id d.status docs = docs := by
  have hself : ∀ e ∈ docs, (if e.id = d.id then { e with status := d.status } else e) = e := by
    intro e he
    split
    · rename_i heq
      rw [Collection.eq_of_key_eq hn he hd heq]
    · rfl
  exact (List.map_congr_left hself).trans (List.map_id docs)

theorem set_eq_mark (hn : (docs.map (·.id)).Nodup) {j : Nat} (hd : docs[j]? = some d) :
    docs.set j { d with status := s } = mark d.id s docs := by
  refine List.ext_getElem? fun m => ?_
  rw [mark, List.getElem?_map]
  by_cases hjm : j = m
  · subst hjm
    rw [List.getElem?_set_self (List.getElem?_eq_some_iff.mp hd).1, hd, Option.map_some, if_pos rfl]
  · rw [List.getElem?_set_ne hjm]
    cases he : docs[m]? with
    | none => rfl
    | some e =>
      rw [Option.map_some, if_neg]
      intro heq
      obtain rfl := Collection.eq_of_key_eq hn (List.mem_of_getElem? he) (List.mem_of_getElem? hd) heq
      have hlt := (List.getElem?_eq_some_iff.mp hd).1
      exact hjm ((List.getElem?_inj hlt (hn.of_map _)).mp (hd.trans he.symm))

theorem filter_mark {p : ReservationDoc → Bool} (hp : ∀ d s, p { d with status := s } = p d) :
    (mark o s docs).filter p = mark o s (docs.filter p) := by
  rw [mark, List.filter_map, mark]
  congr 1
  refine List.filter_congr fun d _ => ?_
  simp only [Function.comp_apply]
  split
  · exact hp d s
  · rfl

end Keyed

/-! ## The owner's document -/

/-- What `ensureOwner` makes of the reservation `o`. -/
def Shop.owned (w : Shop) (userId o : ObjectId) : Except Err ReservationDoc :=
  match w.reservations.find? fun d => d.id = o with
  | none => .error (.app (notFound "reservation not found"))
  | some doc =>
    if doc.userId.any fun u => u.toString ≠ userId.toString then
      .error (.app (forbidden "not your reservation"))
    else .ok doc

variable {w w' : Shop} {x x' : Nat × Shop} {B o : ObjectId} {id : String} {d : ReservationDoc}
  {α β : Type} {t : Nat}

theorem findById_eq (ho : castObjectId id = some o) (p : Pick) (now i : Nat) (w : Shop) :
    shopStore now i (.reservationFindById id) p w =
      some (w.reservations.find? fun d => d.id = o, w) := by
  simp only [shopStore, findByIdString, ho]
  rfl

theorem ensureOwner_iff (ho : castObjectId id = some o) {r : Except Err ReservationDoc} :
    Exec shopStore.timed 0 0 (ensureOwner id B) x r x' ↔
      r = x.2.owned B o ∧ x'.2 = x.2 ∧ x.1 ≤ x'.1 := by
  unfold Shop.owned
  refine Exec.timed_op_iff.trans ⟨?_, ?_⟩
  · rintro ⟨d, p, doc, w₁, hfind, h⟩
    rw [findById_eq ho] at hfind
    obtain ⟨hdoc, rfl⟩ := Prod.mk.inj (Option.some.inj hfind)
    rw [hdoc]
    cases doc with
    | none =>
      obtain ⟨rfl, rfl⟩ := Exec.throw_iff.mp h
      exact ⟨rfl, rfl, Nat.le_add_right ..⟩
    | some doc =>
      dsimp only at h ⊢
      split at h
      · rename_i hforeign
        obtain ⟨rfl, rfl⟩ := Exec.throw_iff.mp h
        exact ⟨(if_pos hforeign).symm, rfl, Nat.le_add_right ..⟩
      · rename_i hown
        obtain ⟨rfl, rfl⟩ := Exec.ret_iff.mp h
        exact ⟨(if_neg hown).symm, rfl, Nat.le_add_right ..⟩
  · rintro ⟨rfl, hw, ht⟩
    refine ⟨x'.1 - x.1, ⟨0, idA⟩, _, _, findById_eq ho .., ?_⟩
    have hx' : (x.1 + (x'.1 - x.1), x.2) = x' := by rw [Nat.add_sub_cancel' ht, ← hw]
    rw [hx']
    cases x.2.reservations.find? fun d => d.id = o with
    | none => exact .throw
    | some doc =>
      dsimp only
      split
      · exact .throw
      · exact .ret

/-- A route that asks for the owner first. -/
theorem owner_bind_iff (ho : castObjectId id = some o) {f : ReservationDoc → ShopProg α}
    {r : Except Err α} :
    Exec shopStore.timed 0 0 ((ensureOwner id B).bind f) x r x' ↔
      (∃ d t, x.2.owned B o = .ok d ∧ x.1 ≤ t ∧ Exec shopStore.timed 0 0 (f d) (t, x.2) r x') ∨
        ∃ e, x.2.owned B o = .error e ∧ r = .error e ∧ x'.2 = x.2 ∧ x.1 ≤ x'.1 := by
  refine Exec.bind_iff.trans (or_congr ?_ ?_)
  · constructor
    · rintro ⟨d, y, hown, h⟩
      obtain ⟨hd, hw, ht⟩ := (ensureOwner_iff ho).mp hown
      exact ⟨d, y.1, hd.symm, ht, hw ▸ h⟩
    · rintro ⟨d, t, hd, ht, h⟩
      exact ⟨d, (t, x.2), (ensureOwner_iff ho).mpr ⟨hd.symm, rfl, ht⟩, h⟩
  · constructor
    · rintro ⟨e, hown, rfl⟩
      obtain ⟨he, hw, ht⟩ := (ensureOwner_iff ho).mp hown
      exact ⟨e, he.symm, rfl, hw, ht⟩
    · rintro ⟨e, he, rfl, hw, ht⟩
      exact ⟨e, (ensureOwner_iff ho).mpr ⟨he.symm, hw, ht⟩, rfl⟩

/-! ## The two moves -/

theorem matches_id_iff (ho : castObjectId id = some o) {src : ReservationStatus} {test : ExpiryTest}
    (e : ReservationDoc) : ReservationFilter.matches ⟨some id, src, test⟩ e = true ↔
      e.id = o ∧ e.status = src ∧ test.holds e.expiresAt = true := by
  simp only [ReservationFilter.matches, Option.all_some, ho, Bool.and_eq_true, beq_iff_eq,
    Option.some.injEq, and_assoc]
  exact and_congr_left' eq_comm

/-- The update of one reservation by its id. -/
theorem update_iff {src dst : ReservationStatus} {test : ExpiryTest} (hw : w.Keyed)
    (ho : castObjectId id = some o) (hd : w.reservations.find? (fun d => d.id = o) = some d)
    {r : Option ReservationDoc} {i n : Nat} :
    (∃ p, shopStore n i (.reservationFindOneAndUpdate ⟨some id, src, test⟩ dst) p w =
        some (r, w')) ↔
      if d.status = src ∧ test.holds d.expiresAt = true then
        r = some { d with status := dst } ∧
          w' = { w with reservations := mark o dst w.reservations }
      else r = none ∧ w' = w := by
  have hmem := List.mem_of_find?_eq_some hd
  have hid : d.id = o := by simpa using List.find?_some hd
  have hmatch : ∀ e, ReservationFilter.matches ⟨some id, src, test⟩ e = true ↔
      e.id = o ∧ e.status = src ∧ test.holds e.expiresAt = true := matches_id_iff ho
  -- no other document has the id
  have honly : ∀ e ∈ w.reservations, ReservationFilter.matches ⟨some id, src, test⟩ e = true → e = d :=
    fun e he h => Collection.eq_of_key_eq hw.reservations he hmem (((hmatch e).mp h).1.trans hid.symm)
  constructor
  · rintro ⟨p, h⟩
    obtain ⟨⟨r', docs⟩, hupdate, heq⟩ := Option.map_eq_some_iff.mp h
    cases heq
    rcases Collection.findOneAndUpdate_cases hupdate with ⟨e, he, hm, rfl, rfl⟩ | ⟨rfl, rfl, hnone⟩
    · obtain rfl := honly e (List.mem_of_getElem? he) hm
      rw [if_pos ((hmatch e).mp hm).2]
      subst hid
      exact ⟨rfl, by rw [set_eq_mark hw.reservations he]⟩
    · rw [if_neg]
      · exact ⟨rfl, rfl⟩
      · intro hcond
        have hm := (hmatch d).mpr ⟨hid, hcond⟩
        rw [hnone d hmem] at hm
        cases hm
  · intro h
    obtain ⟨j, hj⟩ := List.getElem?_of_mem hmem
    split at h
    · rename_i hcond
      obtain ⟨rfl, rfl⟩ := h
      refine ⟨⟨j, o⟩, ?_⟩
      have hm := (hmatch d).mpr ⟨hid, hcond⟩
      subst hid
      simp only [shopStore, Collection.findOneAndUpdate, hj, hm, if_true, Option.map_some,
        set_eq_mark hw.reservations hj]
    · rename_i hcond
      obtain ⟨rfl, rfl⟩ := h
      refine ⟨⟨j, o⟩, ?_⟩
      have hm : ¬ReservationFilter.matches ⟨some id, src, test⟩ d = true :=
        fun hm => hcond ((hmatch d).mp hm).2
      have hany : ¬w'.reservations.any (ReservationFilter.matches ⟨some id, src, test⟩) = true := by
        intro hany
        obtain ⟨e, he, hme⟩ := List.any_eq_true.mp hany
        exact hm (honly e he hme ▸ hme)
      simp only [shopStore, Collection.findOneAndUpdate, hj, if_neg hm, if_neg hany]
      rfl

/-- What a request makes of a reservation of its user's at time `t`: the answer, and the status it
leaves. -/
def CheckoutReq.act (t : Nat) (d : ReservationDoc) :
    CheckoutReq → Except Err CheckoutRes × ReservationStatus
  | .confirm id =>
    if d.status = .held ∧ t < d.expiresAt then
      (.ok (.confirmed id d.productId.toString d.quantity), .confirmed)
    else (.error (.app reservationExpired), d.status)
  | .release id =>
    if d.status = .held then (.ok (.released id d.productId.toString d.quantity), .released)
    else (.ok .alreadyTerminal, d.status)
  | _ => (.ok (.reservation d), d.status)

theorem mark_same (hw : w.Keyed) (hd : w.reservations.find? (fun d => d.id = o) = some d) :
    mark o d.status w.reservations = w.reservations := by
  have hid : d.id = o := by simpa using List.find?_some hd
  subst hid
  exact mark_self hw.reservations (List.mem_of_find?_eq_some hd)

theorem valid_of_cast (ho : castObjectId id = some o) : isValidObjectId id = true := by
  rw [← castObjectId_isSome, ho]
  rfl

/-- The reservations and the orders of a shop. -/
def Shop.records (w : Shop) : List ReservationDoc × List OrderDoc := (w.reservations, w.orders)

theorem confirm_iff (hw : x.2.Keyed) (ho : castObjectId id = some o)
    (hd : x.2.reservations.find? (fun d => d.id = o) = some d) {r : Except Err ConfirmResult}
    {s : List ReservationDoc × List OrderDoc} :
    (∃ x', Exec shopStore.timed 0 0 (confirmReservation id) x r x' ∧ x'.2.records = s) ↔
      if d.status = .held ∧ x.1 < d.expiresAt then
        r = .ok (.confirmed d.productId.toString d.quantity) ∧
          s = (mark o .confirmed x.2.reservations, x.2.orders)
      else r = .ok .expired ∧ s = x.2.records := by
  have hcond : (d.status = .held ∧ (ExpiryTest.gt x.1).holds d.expiresAt = true) ↔
      (d.status = .held ∧ x.1 < d.expiresAt) := by simp [ExpiryTest.holds]
  rw [confirmReservation, if_pos (valid_of_cast ho)]
  constructor
  · rintro ⟨x', h, rfl⟩
    obtain ⟨d₁, p, now, w₁, htime, h⟩ := Exec.timed_op_iff.mp h
    cases htime
    obtain ⟨d₂, p, updated, w₂, hup, hrest⟩ := Exec.timed_op_iff.mp h
    have hupdated := (update_iff hw ho hd).mp ⟨p, hup⟩
    simp only [hcond] at hupdated
    split at hupdated
    · rename_i hc
      obtain ⟨rfl, rfl⟩ := hupdated
      obtain ⟨rfl, rfl⟩ := Exec.ret_iff.mp hrest
      rw [if_pos hc]
      exact ⟨rfl, rfl⟩
    · rename_i hc
      obtain ⟨rfl, rfl⟩ := hupdated
      obtain ⟨d₃, p, existing, w₃, hfind, hrest⟩ := Exec.timed_op_iff.mp hrest
      rw [findById_eq ho] at hfind
      cases hfind
      rw [hd] at hrest
      obtain ⟨rfl, rfl⟩ := Exec.ret_iff.mp hrest
      rw [if_neg hc]
      exact ⟨rfl, rfl⟩
  · intro h
    split at h
    · rename_i hc
      obtain ⟨rfl, rfl⟩ := h
      obtain ⟨p, hup⟩ := (update_iff (i := 0) (n := x.1 + 0) hw ho hd).mpr
        (by rw [if_pos (hcond.mpr hc)]; exact ⟨rfl, rfl⟩)
      exact ⟨_, Exec.timed_op_iff.mpr ⟨0, p, x.1, x.2, rfl,
        Exec.timed_op_iff.mpr ⟨0, p, _, _, hup, .ret⟩⟩, rfl⟩
    · rename_i hc
      obtain ⟨rfl, rfl⟩ := h
      obtain ⟨p, hup⟩ := (update_iff (i := 0) (n := x.1 + 0) hw ho hd).mpr
        (by rw [if_neg (mt hcond.mp hc)]; exact ⟨rfl, rfl⟩)
      refine ⟨(x.1 + 0 + 0 + 0, x.2), Exec.timed_op_iff.mpr ⟨0, p, x.1, x.2, rfl,
        Exec.timed_op_iff.mpr ⟨0, p, _, _, hup, ?_⟩⟩, rfl⟩
      refine Exec.timed_op_iff.mpr ⟨0, p, _, _, findById_eq ho .., ?_⟩
      rw [hd]
      exact .ret

theorem publish_exec (x : Nat × Shop) (productId : String) (remaining : Int)
    (reason : StockEventReason) :
    Exec shopStore.timed 0 0 (publishStockUpdate productId remaining reason) x (.ok ())
      (x.1 + 0, { x.2 with outbox := x.2.outbox ++ [⟨productId, remaining, reason, x.1⟩] }) :=
  Exec.tryCatch_iff.mpr (.inl ⟨(), Exec.timed_call_iff.mpr ⟨0, ⟨0, idA⟩, (), _, rfl, rfl, rfl⟩, rfl⟩)

theorem publish_records {productId : String} {remaining : Int} {reason : StockEventReason}
    {r : Except Err Unit}
    (h : Exec shopStore.timed 0 0 (publishStockUpdate productId remaining reason) x r x') :
    r = .ok () ∧ x'.2.records = x.2.records := by
  rcases Exec.tryCatch_iff.mp h with ⟨u, hcall, rfl⟩ | ⟨e, y, hcall, -⟩
  · obtain ⟨d, p, u, w₁, hx, -, rfl⟩ := Exec.timed_call_iff.mp hcall
    cases hx
    exact ⟨rfl, rfl⟩
  · obtain ⟨d, p, u, w₁, hx, hr, -⟩ := Exec.timed_call_iff.mp hcall
    cases hr

/-- A program with one outcome, and what a route makes of it. -/
theorem bind_end {p : ShopProg α} {k : α → ShopProg β} {a : α} {s : Except Err β}
    {ρ₀ : List ReservationDoc × List OrderDoc}
    (hp : ∀ r ρ, (∃ x', Exec shopStore.timed 0 0 p x r x' ∧ x'.2.records = ρ) ↔
      r = .ok a ∧ ρ = ρ₀) (hk : k a = .ofExcept s) (r : Except Err β)
    (ρ : List ReservationDoc × List OrderDoc) :
    (∃ x', Exec shopStore.timed 0 0 (p.bind k) x r x' ∧ x'.2.records = ρ) ↔ r = s ∧ ρ = ρ₀ := by
  constructor
  · rintro ⟨x', h, rfl⟩
    rcases Exec.bind_iff.mp h with ⟨b, y, hb, hrest⟩ | ⟨e, he, -⟩
    · obtain ⟨hba, hy⟩ := (hp _ _).mp ⟨y, hb, rfl⟩
      obtain rfl := Except.ok.inj hba
      rw [hk] at hrest
      obtain ⟨rfl, rfl⟩ := Exec.ofExcept_iff.mp hrest
      exact ⟨rfl, hy⟩
    · cases ((hp _ _).mp ⟨x', he, rfl⟩).1
  · rintro ⟨rfl, rfl⟩
    obtain ⟨y, hy, hρ⟩ := (hp _ _).mpr ⟨rfl, rfl⟩
    refine ⟨y, Exec.bind_iff.mpr (.inl ⟨a, y, hy, ?_⟩), hρ⟩
    rw [hk]
    exact Exec.ofExcept_iff.mpr ⟨rfl, rfl⟩

theorem release_iff (hw : x.2.Keyed) (ho : castObjectId id = some o)
    (hd : x.2.reservations.find? (fun d => d.id = o) = some d) {r : Except Err ReleaseResult}
    {s : List ReservationDoc × List OrderDoc} :
    (∃ x', Exec shopStore.timed 0 0 (releaseReservation id) x r x' ∧ x'.2.records = s) ↔
      if d.status = .held then
        r = .ok (.released d.productId.toString d.quantity) ∧
          s = (mark o .released x.2.reservations, x.2.orders)
      else r = .ok .notHoldable ∧ s = x.2.records := by
  have hcond : (d.status = .held ∧ ExpiryTest.any.holds d.expiresAt = true) ↔ d.status = .held := by
    simp [ExpiryTest.holds]
  rw [releaseReservation, if_pos (valid_of_cast ho)]
  constructor
  · rintro ⟨x', h, rfl⟩
    obtain ⟨d₁, p, updated, w₁, hup, hrest⟩ := Exec.timed_op_iff.mp h
    have hupdated := (update_iff hw ho hd).mp ⟨p, hup⟩
    simp only [hcond] at hupdated
    split at hupdated
    · rename_i hc
      obtain ⟨rfl, rfl⟩ := hupdated
      obtain ⟨d₂, p, n, w₂, hincr, hrest⟩ := Exec.timed_op_iff.mp hrest
      cases hincr
      rw [if_pos hc]
      rcases Exec.bind_iff.mp hrest with ⟨u, y, hpub, hret⟩ | ⟨e, hpub, -⟩
      · obtain ⟨rfl, rfl⟩ := Exec.ret_iff.mp hret
        exact ⟨rfl, (publish_records hpub).2⟩
      · cases (publish_records hpub).1
    · rename_i hc
      obtain ⟨rfl, rfl⟩ := hupdated
      obtain ⟨d₃, p, existing, w₃, hfind, hrest⟩ := Exec.timed_op_iff.mp hrest
      rw [findById_eq ho] at hfind
      cases hfind
      rw [hd] at hrest
      obtain ⟨rfl, rfl⟩ := Exec.ret_iff.mp hrest
      rw [if_neg hc]
      exact ⟨rfl, rfl⟩
  · intro h
    split at h
    · rename_i hc
      obtain ⟨rfl, rfl⟩ := h
      obtain ⟨p, hup⟩ := (update_iff (i := 0) (n := x.1) hw ho hd).mpr
        (by rw [if_pos (hcond.mpr hc)]; exact ⟨rfl, rfl⟩)
      have hpublished := fun y n => publish_exec y d.productId.toString n .release
      exact ⟨_, Exec.timed_op_iff.mpr ⟨0, p, _, _, hup, Exec.timed_op_iff.mpr ⟨0, p, _, _, rfl,
        Exec.bind_iff.mpr (.inl ⟨(), _, hpublished _ _, .ret⟩)⟩⟩, rfl⟩
    · rename_i hc
      obtain ⟨rfl, rfl⟩ := h
      obtain ⟨p, hup⟩ := (update_iff (i := 0) (n := x.1) hw ho hd).mpr
        (by rw [if_neg (mt hcond.mp hc)]; exact ⟨rfl, rfl⟩)
      refine ⟨(x.1 + 0 + 0, x.2), Exec.timed_op_iff.mpr ⟨0, p, _, _, hup, ?_⟩, rfl⟩
      refine Exec.timed_op_iff.mpr ⟨0, p, _, _, findById_eq ho .., ?_⟩
      rw [hd]
      exact .ret

end Flashkart
