import Flashkart.Shop.Rules

/-!
# Shop.Ledger

Where the units of one product are: on the counter, in a record, or in the hands of a thread.

* `Carry`   — what a thread has in its hands: units it took and has not put into a record yet, or
  units of a record it has undone and not given back yet.
* `Ledger`  — a thread's account: its `Carry`, and the records it has refunded.
* `Books`   — the invariant. All units together are the catalog's stock, and each undone record
  is owed by one thread or has been refunded once.
-/

namespace Flashkart

open Async Logic

/-- A record whose units go back to the counter when it is undone. -/
inductive Record where
  | order (id : ObjectId)
  | reservation (id : ObjectId)
  deriving DecidableEq

inductive Carry where
  | nothing
  | taken (key : String) (qty : Nat)
  | undone (r : Record) (key : String) (qty : Nat)

structure Ledger where
  carry : Carry
  refunds : List Record

def Carry.refund : Carry → List Record
  | .undone r _ _ => [r]
  | _ => []

def Ledger.empty : Ledger := ⟨.nothing, []⟩

def Ledger.take (l : Ledger) (key : String) (qty : Nat) : Ledger :=
  { l with carry := .taken key qty }

def Ledger.undo (l : Ledger) (r : Record) (p : ObjectId) (qty : Nat) : Ledger :=
  { l with carry := .undone r (stockKey p.toString) qty }

/-- The units in hand have been put into a record. -/
def Ledger.place (l : Ledger) : Ledger := { l with carry := .nothing }

/-- The units in hand have been given back. -/
def Ledger.giveBack (l : Ledger) : Ledger := ⟨.nothing, l.carry.refund ++ l.refunds⟩

def Ledger.post : (o : ShopOp) → Except Err o.Ret → Ledger → Ledger
  | .buyStock k qty, .ok r, l => if 0 ≤ r then l.take k qty else l
  | .orderCreate _, .ok _, l => l.place
  | .reservationCreate _, .ok _, l => l.place
  | .reservationFindOneAndUpdate _ dst, .ok (some d), l =>
    if dst = .expired ∨ dst = .released then l.undo (.reservation d.id) d.productId d.quantity
    else l
  | .orderFindOneAndUpdate _ _ dst _, .ok (some d), l =>
    if dst = .failed then l.undo (.order d.id) d.productId d.quantity else l
  | .incrby _ _, .ok _, l => l.giveBack
  | _, _, l => l

/-! ## What the accounts are worth -/

def Carry.units (key : String) : Carry → Nat
  | .nothing => 0
  | .taken k qty => if k = key then qty else 0
  | .undone _ k qty => if k = key then qty else 0

/-- 1 for a thread with units of the counter `key` in its hands, be they none. -/
def Carry.count (key : String) : Carry → Nat
  | .nothing => 0
  | .taken k _ => if k = key then 1 else 0
  | .undone _ k _ => if k = key then 1 else 0

def Carry.owes (r : Record) : Carry → Nat
  | .undone r' _ _ => if r' = r then 1 else 0
  | _ => 0

/-- Units in transit, threads that hold some, refunds owed, and refunds made. -/
abbrev Tally : Type := Nat × Nat × (Record → Nat) × (Record → Nat)

def Ledger.val (key : String) (l : Ledger) : Tally :=
  (l.carry.units key, l.carry.count key, fun r => l.carry.owes r, fun r => l.refunds.count r)

/-- The units of `p` in reservations that still hold them. -/
def Shop.heldUnits (p : ObjectId) (w : Shop) : Nat :=
  (w.reservations.map fun d =>
    if d.productId = p ∧ (d.status = .held ∨ d.status = .confirmed) then d.quantity else 0).sum

/-- The units of `p` in orders that have not failed. -/
def Shop.orderedUnits (p : ObjectId) (w : Shop) : Nat :=
  (w.orders.map fun d => if d.productId = p ∧ d.status ≠ .failed then d.quantity else 0).sum

/-- The live counter of `p`: the catalog's stock as long as it is not primed. -/
def Shop.liveStock (p : ObjectId) (doc : ProductDoc) (w : Shop) : Int :=
  (w.stock (stockKey p.toString)).getD doc.stock

/-- How often a record has been undone. -/
def Shop.undone (w : Shop) : Record → Nat
  | .order id => (w.orders.map fun d => if d.id = id ∧ d.status = .failed then 1 else 0).sum
  | .reservation id =>
    (w.reservations.map fun d =>
      if d.id = id ∧ (d.status = .expired ∨ d.status = .released) then 1 else 0).sum

structure Books (doc : ProductDoc) (p : ObjectId) (w : Shop) (g : Tally) : Prop where
  catalog : w.products p = some doc
  total : w.liveStock p doc + w.heldUnits p + w.orderedUnits p + g.1 = doc.stock
  unprimed : w.stock (stockKey p.toString) = none →
    g.2.1 = 0 ∧ (∀ d ∈ w.reservations, d.productId ≠ p) ∧ ∀ d ∈ w.orders, d.productId ≠ p
  owed : ∀ r, g.2.2.1 r + g.2.2.2 r = w.undone r
  orderIds : (w.orders.map (·.id)).Nodup
  reservationIds : (w.reservations.map (·.id)).Nodup

namespace Books

variable {doc : ProductDoc} {p : ObjectId} {w w' : Shop} {g g' : Tally} {l : Ledger} {n : Int}

/-- Nothing happened to this product's counter, to the records or to the accounts. -/
theorem congr (h : Books doc p w g) (hp : w'.products p = w.products p)
    (hs : w'.stock (stockKey p.toString) = w.stock (stockKey p.toString))
    (hr : w'.reservations = w.reservations) (ho : w'.orders = w.orders) : Books doc p w' g := by
  have hheld : w'.heldUnits p = w.heldUnits p := by simp only [Shop.heldUnits, hr]
  have hord : w'.orderedUnits p = w.orderedUnits p := by simp only [Shop.orderedUnits, ho]
  have hund : ∀ r, w'.undone r = w.undone r := by
    intro r
    cases r <;> simp only [Shop.undone, hr, ho]
  refine ⟨hp.trans h.catalog, ?_, ?_, ?_, ho ▸ h.orderIds, hr ▸ h.reservationIds⟩
  · rw [Shop.liveStock, hs, hheld, hord]
    exact h.total
  · rw [hs, hr, ho]
    exact h.unprimed
  · intro r
    rw [hund]
    exact h.owed r

/-- A refund that is made is no longer owed. -/
theorem settle (h : Books doc p w g) (hu : g'.1 = g.1) (hc : g'.2.1 = g.2.1)
    (hr : ∀ r, g'.2.2.1 r + g'.2.2.2 r = g.2.2.1 r + g.2.2.2 r) : Books doc p w g' := by
  refine ⟨h.catalog, ?_, ?_, ?_, h.orderIds, h.reservationIds⟩
  · rw [hu]; exact h.total
  · rw [hc]; exact h.unprimed
  · intro r
    rw [hr r]
    exact h.owed r

/-- The counter takes its first value. -/
theorem prime (h : Books doc p w g) (hs : w.stock (stockKey p.toString) = none) :
    Books doc p
      { w with stock := Function.update w.stock (stockKey p.toString) (some (doc.stock : Int)) }
      g := by
  refine ⟨h.catalog, ?_, ?_, h.owed, h.orderIds, h.reservationIds⟩
  · have := h.total
    rw [Shop.liveStock, hs] at this
    rw [Shop.liveStock]
    dsimp only
    rw [Function.update_self]
    exact this
  · intro hnone
    dsimp only at hnone
    rw [Function.update_self] at hnone
    cases hnone

/-- The counter moves by what the units in transit move the other way. -/
theorem move {m : Int} (h : Books doc p w g) (hs : w.stock (stockKey p.toString) = some n)
    (hu : n + g.1 = m + g'.1) (hr : ∀ r, g'.2.2.1 r + g'.2.2.2 r = g.2.2.1 r + g.2.2.2 r) :
    Books doc p { w with stock := Function.update w.stock (stockKey p.toString) (some m) } g' := by
  refine ⟨h.catalog, ?_, ?_, ?_, h.orderIds, h.reservationIds⟩
  · have := h.total
    rw [Shop.liveStock, hs, Option.getD_some] at this
    rw [Shop.liveStock]
    dsimp only
    rw [Function.update_self, Option.getD_some]
    show m + w.heldUnits p + w.orderedUnits p + g'.1 = doc.stock
    omega
  · intro hnone
    dsimp only at hnone
    rw [Function.update_self] at hnone
    cases hnone
  · intro r
    rw [hr r]
    exact h.owed r

/-! A new record, and a record that changes its status. -/

theorem addOrder {d : OrderDoc} (h : Books doc p w g) (hfresh : d.id ∉ w.orders.map (·.id))
    (hs : d.status ≠ .failed) (hu : g.1 = g'.1 + if d.productId = p then d.quantity else 0)
    (hp : d.productId = p → 0 < g.2.1) (hc : g'.2.1 ≤ g.2.1)
    (hr : ∀ r, g'.2.2.1 r + g'.2.2.2 r = g.2.2.1 r + g.2.2.2 r) :
    Books doc p { w with orders := w.orders ++ [d] } g' := by
  refine ⟨h.catalog, ?_, ?_, ?_, ?_, h.reservationIds⟩
  · have hord : Shop.orderedUnits p { w with orders := w.orders ++ [d] } =
        w.orderedUnits p + if d.productId = p then d.quantity else 0 := by
      simp [Shop.orderedUnits, hs]
    have := h.total
    show w.liveStock p doc + w.heldUnits p +
      (Shop.orderedUnits p { w with orders := w.orders ++ [d] } : Nat) + g'.1 = doc.stock
    omega
  · intro hnone
    obtain ⟨h0, hres, hord⟩ := h.unprimed hnone
    refine ⟨by omega, hres, ?_⟩
    intro e he
    rcases List.mem_append.mp he with he | he
    · exact hord e he
    · rw [List.mem_singleton.mp he]
      intro hd
      have := hp hd
      omega
  · intro r
    rw [hr r, h.owed r]
    cases r with
    | order id => simp [Shop.undone, hs]
    | reservation id => rfl
  · exact Collection.nodup_concat h.orderIds hfresh

theorem addReservation {d : ReservationDoc} (h : Books doc p w g)
    (hfresh : d.id ∉ w.reservations.map (·.id)) (hs : d.status = .held)
    (hu : g.1 = g'.1 + if d.productId = p then d.quantity else 0)
    (hp : d.productId = p → 0 < g.2.1) (hc : g'.2.1 ≤ g.2.1)
    (hr : ∀ r, g'.2.2.1 r + g'.2.2.2 r = g.2.2.1 r + g.2.2.2 r) :
    Books doc p { w with reservations := w.reservations ++ [d] } g' := by
  refine ⟨h.catalog, ?_, ?_, ?_, h.orderIds, ?_⟩
  · have hheld : Shop.heldUnits p { w with reservations := w.reservations ++ [d] } =
        w.heldUnits p + if d.productId = p then d.quantity else 0 := by
      simp [Shop.heldUnits, hs]
    have := h.total
    show w.liveStock p doc +
      (Shop.heldUnits p { w with reservations := w.reservations ++ [d] } : Nat) +
        w.orderedUnits p + g'.1 = doc.stock
    omega
  · intro hnone
    obtain ⟨h0, hres, hord⟩ := h.unprimed hnone
    refine ⟨by omega, ?_, hord⟩
    intro e he
    rcases List.mem_append.mp he with he | he
    · exact hres e he
    · rw [List.mem_singleton.mp he]
      intro hd
      have := hp hd
      omega
  · intro r
    rw [hr r, h.owed r]
    cases r with
    | order id => rfl
    | reservation id => simp [Shop.undone, hs]
  · exact Collection.nodup_concat h.reservationIds hfresh

/-- What one order counts for: units it binds, and whether it has been undone. -/
def orderUnits (p : ObjectId) (d : OrderDoc) : Nat :=
  if d.productId = p ∧ d.status ≠ .failed then d.quantity else 0

def orderUndone (d : OrderDoc) (r : Record) : Nat :=
  if .order d.id = r ∧ d.status = .failed then 1 else 0

theorem setOrder {j : Nat} {d d' : OrderDoc} (h : Books doc p w g) (hd : w.orders[j]? = some d)
    (hid : d'.id = d.id) (hpid : d'.productId = d.productId)
    (hu : g.1 + orderUnits p d = g'.1 + orderUnits p d') (hc : d.productId ≠ p → g'.2.1 = g.2.1)
    (hr : ∀ r, g'.2.2.1 r + g'.2.2.2 r + orderUndone d r =
      g.2.2.1 r + g.2.2.2 r + orderUndone d' r) :
    Books doc p { w with orders := w.orders.set j d' } g' := by
  have hmem := List.mem_of_getElem? hd
  refine ⟨h.catalog, ?_, ?_, ?_, ?_, h.reservationIds⟩
  · have hsum : Shop.orderedUnits p { w with orders := w.orders.set j d' } + orderUnits p d =
        w.orderedUnits p + orderUnits p d' := Collection.sum_set (orderUnits p) d' hd
    have := h.total
    show w.liveStock p doc + w.heldUnits p +
      (Shop.orderedUnits p { w with orders := w.orders.set j d' } : Nat) + g'.1 = doc.stock
    omega
  · intro hnone
    obtain ⟨h0, hres, hord⟩ := h.unprimed hnone
    have hne := hord d hmem
    refine ⟨by rw [hc hne]; exact h0, hres, ?_⟩
    intro e he
    rcases List.mem_or_eq_of_mem_set he with he | rfl
    · exact hord e he
    · rw [hpid]; exact hne
  · intro r
    have := hr r
    have howed := h.owed r
    cases r with
    | reservation id =>
      simp only [orderUndone, reduceCtorEq, false_and, if_false, Nat.add_zero] at this
      rw [this, howed]
      rfl
    | order id =>
      have hsum := Collection.sum_set (fun e : OrderDoc => orderUndone e (.order id)) d' hd
      simp only [orderUndone, Record.order.injEq] at hsum this
      simp only [Shop.undone] at howed ⊢
      omega
  · show ((w.orders.set j d').map (·.id)).Nodup
    have hids : (w.orders.set j d').map (·.id) = w.orders.map (·.id) :=
      Collection.map_set_of_eq hd hid
    rw [hids]
    exact h.orderIds

/-- Updates of fields the books do not look at. -/
theorem mapOrders (h : Books doc p w g) {f : OrderDoc → OrderDoc}
    (hf : ∀ d, (f d).id = d.id ∧ (f d).productId = d.productId ∧ (f d).quantity = d.quantity ∧
      (f d).status = d.status) :
    Books doc p { w with orders := w.orders.map f } g := by
  have hsum : ∀ (v : OrderDoc → Nat), (∀ d, v (f d) = v d) →
      ((w.orders.map f).map v).sum = (w.orders.map v).sum := by
    intro v hv
    rw [List.map_map]
    exact congrArg List.sum (List.map_congr_left fun d _ => hv d)
  refine ⟨h.catalog, ?_, ?_, ?_, ?_, h.reservationIds⟩
  · have hord : Shop.orderedUnits p { w with orders := w.orders.map f } = w.orderedUnits p :=
      hsum _ fun d => by rw [(hf d).2.1, (hf d).2.2.1, (hf d).2.2.2]
    have := h.total
    rw [hord]
    exact this
  · intro hnone
    obtain ⟨h0, hres, hord⟩ := h.unprimed hnone
    refine ⟨h0, hres, ?_⟩
    intro e he
    obtain ⟨d, hd, rfl⟩ := List.mem_map.mp he
    rw [(hf d).2.1]
    exact hord d hd
  · intro r
    rw [h.owed r]
    cases r with
    | order id => exact (hsum _ fun d => by rw [(hf d).1, (hf d).2.2.2]).symm
    | reservation id => rfl
  · show ((w.orders.map f).map (·.id)).Nodup
    have hids : (w.orders.map f).map (·.id) = w.orders.map (·.id) := by
      rw [List.map_map]
      exact List.map_congr_left fun d _ => (hf d).1
    rw [hids]
    exact h.orderIds

def reservationUnits (p : ObjectId) (d : ReservationDoc) : Nat :=
  if d.productId = p ∧ (d.status = .held ∨ d.status = .confirmed) then d.quantity else 0

def reservationUndone (d : ReservationDoc) (r : Record) : Nat :=
  if .reservation d.id = r ∧ (d.status = .expired ∨ d.status = .released) then 1 else 0

theorem setReservation {j : Nat} {d d' : ReservationDoc} (h : Books doc p w g)
    (hd : w.reservations[j]? = some d) (hid : d'.id = d.id) (hpid : d'.productId = d.productId)
    (hu : g.1 + reservationUnits p d = g'.1 + reservationUnits p d')
    (hc : d.productId ≠ p → g'.2.1 = g.2.1)
    (hr : ∀ r, g'.2.2.1 r + g'.2.2.2 r + reservationUndone d r =
      g.2.2.1 r + g.2.2.2 r + reservationUndone d' r) :
    Books doc p { w with reservations := w.reservations.set j d' } g' := by
  have hmem := List.mem_of_getElem? hd
  refine ⟨h.catalog, ?_, ?_, ?_, h.orderIds, ?_⟩
  · have hsum : Shop.heldUnits p { w with reservations := w.reservations.set j d' } +
        reservationUnits p d = w.heldUnits p + reservationUnits p d' :=
      Collection.sum_set (reservationUnits p) d' hd
    have := h.total
    show w.liveStock p doc +
      (Shop.heldUnits p { w with reservations := w.reservations.set j d' } : Nat) +
        w.orderedUnits p + g'.1 = doc.stock
    omega
  · intro hnone
    obtain ⟨h0, hres, hord⟩ := h.unprimed hnone
    have hne := hres d hmem
    refine ⟨by rw [hc hne]; exact h0, ?_, hord⟩
    intro e he
    rcases List.mem_or_eq_of_mem_set he with he | rfl
    · exact hres e he
    · rw [hpid]; exact hne
  · intro r
    have := hr r
    have howed := h.owed r
    cases r with
    | order id =>
      simp only [reservationUndone, reduceCtorEq, false_and, if_false, Nat.add_zero] at this
      rw [this, howed]
      rfl
    | reservation id =>
      have hsum := Collection.sum_set
        (fun e : ReservationDoc => reservationUndone e (.reservation id)) d' hd
      simp only [reservationUndone, Record.reservation.injEq] at hsum this
      simp only [Shop.undone] at howed ⊢
      omega
  · show ((w.reservations.set j d').map (·.id)).Nodup
    have hids : (w.reservations.set j d').map (·.id) = w.reservations.map (·.id) :=
      Collection.map_set_of_eq hd hid
    rw [hids]
    exact h.reservationIds

end Books

end Flashkart
