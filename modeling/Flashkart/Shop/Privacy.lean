import Flashkart.Shop.Checkout

/-!
# Shop.Privacy

What a user learns of other users' checkouts. Two shops look the same to a user when they agree on
what is the user's own, and on reservations without an owner (`view`). The answer to a request and
what it does to this view depend on the view and on what `ensureOwner` makes of the id
(`observes_owned`), and that is where other users come in: an id of theirs is answered with 403, one
that is nobody's with 404.
-/

namespace Flashkart

open Async

/-- What user `B` may see of the reservations and orders. -/
def view (B : ObjectId) (ρ : List ReservationDoc × List OrderDoc) :
    List ReservationDoc × List OrderDoc :=
  (ρ.1.filter fun d => d.userId.all fun u => u = B, ρ.2.filter fun d => d.userId = B)

/-- The request of `B`, made at time `t`, can be answered with `resp` and leave `B` the view `v`. -/
def Observes (B : ObjectId) (req : CheckoutReq) (t : Nat) (w : Shop)
    (resp : Nat × (ErrorCode × String ⊕ CheckoutRes)) (v : List ReservationDoc × List OrderDoc) :
    Prop :=
  ∃ r x', Serves B req (t, w) r x' ∧ resp = checkoutResponse r ∧ v = view B x'.2.records

/-- The request names a record of another user. -/
def CheckoutReq.foreign (B : ObjectId) (w : Shop) : CheckoutReq → Bool
  | .getReservation id | .confirm id | .release id =>
    w.reservations.any fun d => castObjectId id = some d.id ∧ ¬d.userId.all fun u => u = B
  | .getOrder id => w.orders.any fun d => castObjectId id = some d.id ∧ d.userId ≠ B
  | .mine => false

variable {w w' : Shop} {x x' : Nat × Shop} {B o : ObjectId} {id : String} {d : ReservationDoc}
  {t : Nat} {req : CheckoutReq} {ρ : List ReservationDoc × List OrderDoc}

theorem owned_ok (h : w.owned B o = .ok d) : w.reservations.find? (fun d => d.id = o) = some d := by
  unfold Shop.owned at h
  split at h
  · cases h
  · split at h
    · cases h
    · rename_i hfind _
      cases h
      exact hfind

/-- The requests about one reservation. -/
def CheckoutReq.reservationId : CheckoutReq → Option String
  | .getReservation id | .confirm id | .release id => some id
  | _ => none

theorem serves_owned (hw : w.Keyed) (hid : req.reservationId = some id)
    (ho : castObjectId id = some o) {r : Except Err CheckoutRes} :
    (∃ x', Serves B req (t, w) r x' ∧ x'.2.records = ρ) ↔
      (∃ d τ, w.owned B o = .ok d ∧ t ≤ τ ∧ r = (req.act τ d).1 ∧
          ρ = (mark o (req.act τ d).2 w.reservations, w.orders)) ∨
        ∃ e, w.owned B o = .error e ∧ r = .error e ∧ ρ = w.records := by
  -- the refusals of `ensureOwner` are the same everywhere
  have hroute : ∀ {f : ReservationDoc → ShopProg CheckoutRes},
      (∀ d τ r ρ, w.owned B o = .ok d →
        ((∃ x', Exec shopStore.timed 0 0 (f d) (τ, w) r x' ∧ x'.2.records = ρ) ↔
          r = (req.act τ d).1 ∧ ρ = (mark o (req.act τ d).2 w.reservations, w.orders))) →
      ((∃ x', Exec shopStore.timed 0 0 ((ensureOwner id B).bind f) (t, w) r x' ∧
          x'.2.records = ρ) ↔
        (∃ d τ, w.owned B o = .ok d ∧ t ≤ τ ∧ r = (req.act τ d).1 ∧
            ρ = (mark o (req.act τ d).2 w.reservations, w.orders)) ∨
          ∃ e, w.owned B o = .error e ∧ r = .error e ∧ ρ = w.records) := by
    intro f hf
    constructor
    · rintro ⟨x', h, rfl⟩
      rcases (owner_bind_iff ho).mp h with ⟨d, τ, hd, hτ, hrest⟩ | ⟨e, he, rfl, hx', -⟩
      · exact .inl ⟨d, τ, hd, hτ, (hf d τ r _ hd).mp ⟨x', hrest, rfl⟩⟩
      · exact .inr ⟨e, he, rfl, by rw [hx']⟩
    · rintro (⟨d, τ, hd, hτ, hr, hρ⟩ | ⟨e, he, rfl, rfl⟩)
      · obtain ⟨x', hrest, hx'⟩ := (hf d τ r ρ hd).mpr ⟨hr, hρ⟩
        exact ⟨x', (owner_bind_iff ho).mpr (.inl ⟨d, τ, hd, hτ, hrest⟩), hx'⟩
      · exact ⟨(t, w), (owner_bind_iff ho).mpr (.inr ⟨e, he, rfl, rfl, le_rfl⟩), rfl⟩
  have hvalid := valid_of_cast ho
  cases req with
  | getReservation id' =>
    obtain rfl := Option.some.inj hid
    simp only [Serves, getReservation, if_pos hvalid]
    refine hroute fun d τ r ρ hd => ?_
    have hsame : mark o d.status w.reservations = w.reservations := mark_same hw (owned_ok hd)
    constructor
    · rintro ⟨x', h, rfl⟩
      obtain ⟨rfl, rfl⟩ := Exec.ret_iff.mp h
      exact ⟨rfl, by simp only [CheckoutReq.act, hsame]; rfl⟩
    · rintro ⟨rfl, rfl⟩
      exact ⟨(τ, w), .ret, by simp only [CheckoutReq.act, hsame]; rfl⟩
  | confirm id' =>
    obtain rfl := Option.some.inj hid
    simp only [Serves, postConfirm, if_pos hvalid]
    refine hroute fun d τ r ρ hd => ?_
    have hsame : mark o d.status w.reservations = w.reservations := mark_same hw (owned_ok hd)
    have hconfirm := fun r s => confirm_iff (x := (τ, w)) (s := s) (r := r) hw ho (owned_ok hd)
    by_cases hc : d.status = .held ∧ τ < d.expiresAt
    · simp only [CheckoutReq.act, if_pos hc] at hconfirm ⊢
      exact bind_end hconfirm rfl r ρ
    · simp only [CheckoutReq.act, if_neg hc, hsame] at hconfirm ⊢
      exact bind_end (s := .error (.app reservationExpired)) hconfirm rfl r ρ
  | release id' =>
    obtain rfl := Option.some.inj hid
    simp only [Serves, postRelease, if_pos hvalid]
    refine hroute fun d τ r ρ hd => ?_
    have hsame : mark o d.status w.reservations = w.reservations := mark_same hw (owned_ok hd)
    have hrelease := fun r s => release_iff (x := (τ, w)) (s := s) (r := r) hw ho (owned_ok hd)
    by_cases hc : d.status = .held
    · simp only [CheckoutReq.act, if_pos hc] at hrelease ⊢
      exact bind_end hrelease rfl r ρ
    · simp only [CheckoutReq.act, if_neg hc, hsame] at hrelease ⊢
      exact bind_end hrelease rfl r ρ
  | getOrder id' => cases hid
  | mine => cases hid

theorem view_mark (s : ReservationStatus) (w : Shop) :
    view B (mark o s w.reservations, w.orders) =
      (mark o s (view B w.records).1, (view B w.records).2) := by
  simp only [view, Shop.records]
  rw [filter_mark fun _ _ => rfl]

theorem observes_owned (hw : w.Keyed) (hid : req.reservationId = some id)
    (ho : castObjectId id = some o) {resp : Nat × (ErrorCode × String ⊕ CheckoutRes)}
    {v : List ReservationDoc × List OrderDoc} :
    Observes B req t w resp v ↔
      (∃ d τ, w.owned B o = .ok d ∧ t ≤ τ ∧ resp = checkoutResponse (req.act τ d).1 ∧
          v = (mark o (req.act τ d).2 (view B w.records).1, (view B w.records).2)) ∨
        ∃ e, w.owned B o = .error e ∧ resp = checkoutResponse (.error e) ∧ v = view B w.records := by
  constructor
  · rintro ⟨r, x', h, rfl, rfl⟩
    rcases (serves_owned hw hid ho).mp ⟨x', h, rfl⟩ with ⟨d, τ, hd, hτ, rfl, hρ⟩ | ⟨e, he, rfl, hρ⟩
    · exact .inl ⟨d, τ, hd, hτ, rfl, by rw [hρ, view_mark]⟩
    · exact .inr ⟨e, he, rfl, by rw [hρ]⟩
  · rintro (⟨d, τ, hd, hτ, rfl, rfl⟩ | ⟨e, he, rfl, rfl⟩)
    · obtain ⟨x', h, hρ⟩ := (serves_owned hw hid ho).mpr (.inl ⟨d, τ, hd, hτ, rfl, rfl⟩)
      exact ⟨_, x', h, rfl, by rw [hρ, view_mark]⟩
    · obtain ⟨x', h, hρ⟩ := (serves_owned hw hid ho).mpr (.inr ⟨e, he, rfl, rfl⟩)
      exact ⟨_, x', h, rfl, by rw [hρ]⟩

/-! ## What a check of the owner depends on -/

/-- What `B` sees of the reservation `o`, and of the order `o`. -/
def Shop.reservationSight (w : Shop) (B o : ObjectId) : Option (Option ReservationDoc) :=
  Collection.sight (·.id) (fun d => d.userId.all fun u => u = B) w.reservations o

def Shop.orderSight (w : Shop) (B o : ObjectId) : Option (Option OrderDoc) :=
  Collection.sight (·.id) (fun d => d.userId = B) w.orders o

theorem owned_eq (w : Shop) (B o : ObjectId) : w.owned B o =
    match w.reservationSight B o with
    | none => .error (.app (notFound "reservation not found"))
    | some none => .error (.app (forbidden "not your reservation"))
    | some (some d) => .ok d := by
  unfold Shop.owned Shop.reservationSight Collection.sight Collection.lookup
  cases w.reservations.find? fun d => d.id = o with
  | none => rfl
  | some d =>
    have hforeign : (d.userId.any fun u => u.toString ≠ B.toString) = true ↔
        ¬(d.userId.all fun u => u = B) = true := by
      cases d.userId <;> simp
    by_cases hmine : (d.userId.all fun u => u = B) = true
    · simp only [Option.map_some, if_pos hmine, if_neg (mt hforeign.mp (not_not.mpr hmine))]
    · simp only [Option.map_some, if_neg hmine, if_pos (hforeign.mpr hmine)]

/-- What `GET /orders/:id` answers. -/
def Shop.orderFor (w : Shop) (B o : ObjectId) : Except Err CheckoutRes :=
  match w.orderSight B o with
  | none => .error (.app (notFound "order not found"))
  | some none => .error (.app (forbidden "not your order"))
  | some (some d) => .ok (.order d)

theorem getOrder_iff (ho : castObjectId id = some o) {r : Except Err CheckoutRes} :
    Exec shopStore.timed 0 0 (getOrder B id) x r x' ↔
      r = x.2.orderFor B o ∧ x'.2 = x.2 ∧ x.1 ≤ x'.1 := by
  have hfind : ∀ (now : Nat) (p : Pick), shopStore now 0 (.orderFindById id) p x.2 =
      some (x.2.orders.find? fun d => d.id = o, x.2) := by
    intro now p
    simp only [shopStore, findByIdString, ho]
    rfl
  have hmissing : (x.2.orders.find? fun d => d.id = o) = none →
      x.2.orderFor B o = .error (.app (notFound "order not found")) := by
    intro hnone
    unfold Shop.orderFor Shop.orderSight Collection.sight Collection.lookup
    rw [hnone]
    rfl
  have hfound : ∀ order, (x.2.orders.find? fun d => d.id = o) = some order →
      x.2.orderFor B o =
        if order.userId.toString ≠ B.toString then .error (.app (forbidden "not your order"))
        else .ok (.order order) := by
    intro order hsome
    unfold Shop.orderFor Shop.orderSight Collection.sight Collection.lookup
    rw [hsome]
    by_cases hd : order.userId = B <;> simp [hd]
  rw [getOrder, if_pos (valid_of_cast ho)]
  refine Exec.timed_op_iff.trans ⟨?_, ?_⟩
  · rintro ⟨d, p, order, w₁, hx, h⟩
    rw [hfind] at hx
    obtain ⟨horder, rfl⟩ := Prod.mk.inj (Option.some.inj hx)
    cases order with
    | none =>
      rw [hmissing horder]
      obtain ⟨rfl, rfl⟩ := Exec.throw_iff.mp h
      exact ⟨rfl, rfl, Nat.le_add_right ..⟩
    | some order =>
      rw [hfound order horder]
      dsimp only at h
      split at h
      · rename_i hne
        obtain ⟨rfl, rfl⟩ := Exec.throw_iff.mp h
        exact ⟨(if_pos hne).symm, rfl, Nat.le_add_right ..⟩
      · rename_i heq
        obtain ⟨rfl, rfl⟩ := Exec.ret_iff.mp h
        exact ⟨(if_neg heq).symm, rfl, Nat.le_add_right ..⟩
  · rintro ⟨rfl, hw, ht⟩
    refine ⟨x'.1 - x.1, ⟨0, idA⟩, _, _, hfind .., ?_⟩
    have hx' : (x.1 + (x'.1 - x.1), x.2) = x' := by rw [Nat.add_sub_cancel' ht, ← hw]
    rw [hx']
    cases horder : x.2.orders.find? fun d => d.id = o with
    | none =>
      rw [hmissing horder]
      exact .throw
    | some order =>
      rw [hfound order horder]
      dsimp only
      split
      · exact .throw
      · exact .ret

variable {resp : Nat × (ErrorCode × String ⊕ CheckoutRes)}
  {v : List ReservationDoc × List OrderDoc}

theorem observes_order (ho : castObjectId id = some o) :
    Observes B (.getOrder id) t w resp v ↔
      resp = checkoutResponse (w.orderFor B o) ∧ v = view B w.records := by
  constructor
  · rintro ⟨r, x', h, rfl, rfl⟩
    obtain ⟨rfl, hx', -⟩ := (getOrder_iff ho).mp h
    exact ⟨rfl, by rw [hx']⟩
  · rintro ⟨rfl, rfl⟩
    exact ⟨_, (t, w), (getOrder_iff ho).mpr ⟨rfl, rfl, le_rfl⟩, rfl, rfl⟩

theorem observes_mine :
    Observes B .mine t w resp v ↔
      (∃ sorted res, ordersMine B sorted w = some res ∧ resp = checkoutResponse (.ok res)) ∧
        v = view B w.records := by
  constructor
  · rintro ⟨r, x', ⟨hx', -, sorted, res, hres, rfl⟩, rfl, rfl⟩
    exact ⟨⟨sorted, res, hres, rfl⟩, by rw [hx']⟩
  · rintro ⟨⟨sorted, res, hres, rfl⟩, rfl⟩
    exact ⟨_, (t, w), ⟨rfl, le_rfl, sorted, res, hres, rfl⟩, rfl, rfl⟩

/-- A string that is no id. -/
theorem observes_invalid (hreq : req ≠ .mine)
    (hid : ∀ id, req.reservationId = some id ∨ req = .getOrder id → castObjectId id = none) :
    ∃ e, ∀ w resp v, Observes B req t w resp v ↔
      resp = checkoutResponse (.error e) ∧ v = view B w.records := by
  have hinvalid : ∀ {id}, castObjectId id = none → ¬isValidObjectId id = true := by
    intro id h
    rw [← castObjectId_isSome, h]
    simp
  have hthrow : ∀ (e : Err) (w : Shop) resp v,
      (∃ r x', Exec shopStore.timed 0 0 (.throw e : ShopProg CheckoutRes) (t, w) r x' ∧
        resp = checkoutResponse r ∧ v = view B x'.2.records) ↔
      resp = checkoutResponse (.error e) ∧ v = view B w.records := by
    intro e w resp v
    constructor
    · rintro ⟨r, x', h, rfl, rfl⟩
      obtain ⟨rfl, rfl⟩ := Exec.throw_iff.mp h
      exact ⟨rfl, rfl⟩
    · rintro ⟨rfl, rfl⟩
      exact ⟨_, (t, w), .throw, rfl, rfl⟩
  cases req with
  | getReservation id =>
    have hno := hinvalid (hid id (.inl rfl))
    simp only [Observes, Serves, getReservation, if_neg hno]
    exact ⟨_, hthrow _⟩
  | confirm id =>
    have hno := hinvalid (hid id (.inl rfl))
    simp only [Observes, Serves, postConfirm, if_neg hno]
    exact ⟨_, hthrow _⟩
  | release id =>
    have hno := hinvalid (hid id (.inl rfl))
    simp only [Observes, Serves, postRelease, if_neg hno]
    exact ⟨_, hthrow _⟩
  | getOrder id =>
    have hno := hinvalid (hid id (.inr rfl))
    simp only [Observes, Serves, getOrder, if_neg hno]
    exact ⟨_, hthrow _⟩
  | mine => exact absurd rfl hreq

/-! ## Two shops -/

theorem foreign_reservation (hw : w.Keyed) (hid : req.reservationId = some id)
    (ho : castObjectId id = some o) :
    req.foreign B w = true ↔ w.reservationSight B o = some none := by
  rw [Shop.reservationSight, Collection.sight_hidden hw.reservations]
  cases req with
  | getReservation id' | confirm id' | release id' =>
    obtain rfl := Option.some.inj hid
    simp only [CheckoutReq.foreign, ho, List.any_eq_true, Option.some.injEq, decide_eq_true_eq,
      Bool.not_eq_true, @eq_comm _ o]
  | getOrder id' => cases hid
  | mine => cases hid

theorem foreign_order (hw : w.Keyed) (ho : castObjectId id = some o) :
    (CheckoutReq.getOrder id).foreign B w = true ↔ w.orderSight B o = some none := by
  rw [Shop.orderSight, Collection.sight_hidden hw.orders]
  simp only [CheckoutReq.foreign, ho, List.any_eq_true, Option.some.injEq, decide_eq_true_eq,
    decide_eq_false_iff_not, @eq_comm _ o, ne_eq]

/-- A request that is answered is not answered with 403. -/
theorem act_ne_forbidden (req : CheckoutReq) (τ : Nat) (d : ReservationDoc) (msg : String) :
    checkoutResponse (req.act τ d).1 ≠ checkoutResponse (.error (.app (forbidden msg))) := by
  intro h
  have hstatus := congrArg Prod.fst h
  cases req with
  | confirm id | release id =>
    simp only [CheckoutReq.act] at hstatus
    split at hstatus <;> cases hstatus
  | _ => cases hstatus

/-- Whoever can be told of a foreign reservation in one shop, and sees no difference, is told in the
other. -/
theorem sight_of_observes (hw : w.Keyed) (hw' : w'.Keyed) (hid : req.reservationId = some id)
    (ho : castObjectId id = some o)
    (h : ∀ t resp v, Observes B req t w resp v → Observes B req t w' resp v)
    (hs : w.reservationSight B o = some none) : w'.reservationSight B o = some none := by
  have howned : w.owned B o = .error (.app (forbidden "not your reservation")) := by
    rw [owned_eq, hs]
  have hseen := h 0 _ _ ((observes_owned hw hid ho).mpr (.inr ⟨_, howned, rfl, rfl⟩))
  rcases (observes_owned hw' hid ho).mp hseen with ⟨d, τ, -, -, hresp, -⟩ | ⟨e, he, hresp, -⟩
  · exact absurd hresp.symm (act_ne_forbidden req τ d _)
  · rw [owned_eq] at he
    split at he
    · cases he
      cases hresp
    · assumption
    · cases he

theorem orderSight_of_observes (ho : castObjectId id = some o)
    (h : ∀ t resp v, Observes B (.getOrder id) t w resp v → Observes B (.getOrder id) t w' resp v)
    (hs : w.orderSight B o = some none) : w'.orderSight B o = some none := by
  obtain ⟨hresp, -⟩ := (observes_order ho).mp (h 0 _ _ ((observes_order ho).mpr ⟨rfl, rfl⟩))
  rw [Shop.orderFor, hs, Shop.orderFor] at hresp
  rcases hs' : w'.orderSight B o with _ | (_ | d)
  · rw [hs'] at hresp
    cases hresp
  · rfl
  · rw [hs'] at hresp
    cases hresp

/-- **What a user learns of others.** When two shops differ for user `B` in records of other users
alone, a request of `B` has the same answers in both, and the same effect on `B`'s records, just when
the id it names is another user's in both or in neither. -/
theorem unobservable_iff (hw : w.Keyed) (hw' : w'.Keyed)
    (hview : view B w.records = view B w'.records) (req : CheckoutReq) :
    (∀ t resp v, Observes B req t w resp v ↔ Observes B req t w' resp v) ↔
      req.foreign B w = req.foreign B w' := by
  have hreservation : ∀ {id o}, req.reservationId = some id → castObjectId id = some o →
      ((∀ t resp v, Observes B req t w resp v ↔ Observes B req t w' resp v) ↔
        req.foreign B w = req.foreign B w') := by
    intro id o hid ho
    rw [Bool.eq_iff_iff, foreign_reservation hw hid ho, foreign_reservation hw' hid ho]
    constructor
    · intro h
      exact ⟨sight_of_observes hw hw' hid ho fun t resp v => (h t resp v).mp,
        sight_of_observes hw' hw hid ho fun t resp v => (h t resp v).mpr⟩
    · intro h t resp v
      have hsame : w.reservationSight B o = w'.reservationSight B o :=
        Collection.sight_congr hw.reservations hw'.reservations (congrArg Prod.fst hview) h
      rw [observes_owned hw hid ho, observes_owned hw' hid ho, owned_eq, owned_eq, hsame, hview]
  have hinvalid : req ≠ .mine →
      (∀ id, req.reservationId = some id ∨ req = .getOrder id → castObjectId id = none) →
      ∀ t resp v, Observes B req t w resp v ↔ Observes B req t w' resp v := by
    intro hne hid t resp v
    obtain ⟨e, he⟩ := observes_invalid (B := B) (t := t) hne hid
    rw [he, he, hview]
  cases req with
  | getReservation id | confirm id | release id =>
    cases ho : castObjectId id with
    | some o => exact hreservation rfl ho
    | none =>
      refine iff_of_true (hinvalid (fun h => by cases h) fun id' h => ?_) ?_
      · rcases h with h | h
        · rw [← Option.some.inj h, ho]
        · cases h
      · have hnone : ∀ w : Shop, (w.reservations.any fun d =>
            castObjectId id = some d.id ∧ ¬d.userId.all fun u => u = B) = false :=
          fun w => List.any_eq_false.mpr fun d _ => by simp [ho]
        exact (hnone w).trans (hnone w').symm
  | getOrder id =>
    cases ho : castObjectId id with
    | some o =>
      rw [Bool.eq_iff_iff, foreign_order hw ho, foreign_order hw' ho]
      constructor
      · intro h
        exact ⟨orderSight_of_observes ho fun t resp v => (h t resp v).mp,
          orderSight_of_observes ho fun t resp v => (h t resp v).mpr⟩
      · intro h t resp v
        have hsame : w.orderSight B o = w'.orderSight B o :=
          Collection.sight_congr hw.orders hw'.orders (congrArg Prod.snd hview) h
        rw [observes_order ho, observes_order ho, Shop.orderFor, Shop.orderFor, hsame, hview]
    | none =>
      refine iff_of_true (hinvalid (fun h => by cases h) fun id' h => ?_) ?_
      · rcases h with h | h
        · cases h
        · cases h
          exact ho
      · have hnone : ∀ w : Shop, (w.orders.any fun d =>
            castObjectId id = some d.id ∧ d.userId ≠ B) = false :=
          fun w => List.any_eq_false.mpr fun d _ => by simp [ho]
        exact (hnone w).trans (hnone w').symm
  | mine =>
    refine iff_of_true (fun t resp v => ?_) rfl
    have hmine : w.orders.filter (fun d => d.userId = B) = w'.orders.filter (fun d => d.userId = B) :=
      congrArg Prod.snd hview
    rw [observes_mine, observes_mine, hview]
    simp only [ordersMine, hmine]

/-- A shop with one held reservation, of user `idC`. -/
def oneReservation : Shop :=
  { Shop.fresh (oneProduct 5) with reservations := [⟨idB, idA, some idC, 1, .held, 90000⟩] }

theorem keyed_oneReservation : oneReservation.Keyed where
  reservations := List.nodup_singleton _
  orders := List.nodup_nil

/-- The same reservation, released. -/
def oneReleased : Shop :=
  { oneReservation with reservations := [⟨idB, idA, some idC, 1, .released, 90000⟩] }

theorem keyed_oneReleased : oneReleased.Keyed where
  reservations := List.nodup_singleton _
  orders := List.nodup_nil

theorem unobservable_released : oneReservation.records ≠ oneReleased.records ∧ ∀ t resp v,
    Observes idA (.getReservation idB.toString) t oneReservation resp v ↔
      Observes idA (.getReservation idB.toString) t oneReleased resp v :=
  ⟨by decide, (unobservable_iff keyed_oneReservation keyed_oneReleased (by decide)
    (.getReservation idB.toString)).mpr (by decide)⟩

/-- User `idA` asks for an id under which user `idC` has a reservation in one shop, and nobody in the
other: 403, or 404. -/
theorem foreign_id_observed :
    ¬∀ (B : ObjectId) (w w' : Shop), w.Keyed → w'.Keyed →
      w' = { w with reservations := w'.reservations, orders := w'.orders } →
      view B w.records = view B w'.records → ∀ req t resp v,
        Observes B req t w resp v ↔ Observes B req t w' resp v := by
  intro h
  have hempty : (Shop.fresh (oneProduct 5)).Keyed := ⟨List.nodup_nil, List.nodup_nil⟩
  have hsame := h idA oneReservation (.fresh (oneProduct 5)) keyed_oneReservation hempty rfl
    (by decide) (.getReservation idB.toString)
  have hforeign : oneReservation.reservationSight idA idB = some none := by decide
  have hleak := sight_of_observes keyed_oneReservation hempty rfl (castObjectId_toString idB)
    (fun t resp v => (hsame t resp v).mp) hforeign
  cases hleak

end Flashkart
