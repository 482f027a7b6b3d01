import Flashkart.Shop.Record

/-!
# Shop.Told

What the order events say. An event goes to the room of the user it names, so it has to name the
owner of the order; and the page shows the status it carries, so the order has to have come to it.

* `events_true` — in every run every event on the channel names the owner of its order and a status
  the order has reached.
-/

namespace Flashkart

open Async Logic

/-- The order that `oid` denotes belongs to `user` and has come to the status `s`. -/
def Shop.Reached (w : Shop) (oid : String) (user : ObjectId) (s : OrderStatus) : Prop :=
  ∃ o d, castObjectId oid = some o ∧ w.order o = some d ∧ d.userId = user ∧
    Relation.ReflTransGen OrderStatus.Next s d.status

namespace Told

/-- The account of a request: the order it has moved last, with its owner and the new status, and
the time it has read last. -/
structure Teller where
  moved : Option (String × ObjectId × OrderStatus)
  read : Nat

def post : (op : ShopOp) → Except Err op.Ret → Teller → Teller
  | .orderFindOneAndUpdate id _ dst _, .ok (some d), l =>
    { l with moved := some (id, d.userId, dst) }
  | .dateNow, .ok ts, l => { l with read := ts }
  | _, _, l => l

/-- An event says what the request has just done. -/
def ready (l : Teller) : apiSig.Op → Prop
  | .inr (.publishOrder ev) => ev.ts = l.read ∧
      ∃ user : ObjectId, l.moved = some (ev.orderId, user, ev.status) ∧ ev.userId = user.toString
  | _ => True

variable {l : Teller}

abbrev Tells {α : Type} (p : ShopProg α) (l : Teller) : Prop :=
  Follows (fun l (op : shopSig.Op) => ready l (.inr op)) (fun e => post e.op e.out) p l
    fun _ _ => True

theorem tells_of_calls {α : Type} {p : ShopProg α}
    (h : p.Calls fun op : ShopOp => ∀ ev, op ≠ .publishOrder ev) : Tells p l := by
  refine Follows.of_calls (h.mono fun op hop l => ?_)
  cases op with
  | publishOrder ev => exact absurd rfl (hop ev)
  | _ => trivial

theorem tells_publish {oid : String} {d : OrderDoc} {s : OrderStatus}
    (hl : l.moved = some (oid, d.userId, s)) : Tells (publish oid d s) l := by
  rw [publish]
  refine follows_bind.mpr (follows_op.mpr ⟨trivial, fun _ out => ?_⟩)
  cases out with
  | error e => trivial
  | ok ts => exact follows_op.mpr ⟨⟨rfl, d.userId, hl, rfl⟩, fun _ _ => trivial⟩

theorem tells_advance {oid : String} {src dst : OrderStatus} {enqueue : ShopProg Unit}
    (h : ∀ l', Tells enqueue l') : Tells (advance oid src dst enqueue) l := by
  rw [advance]
  refine follows_bind.mpr (follows_op.mpr ⟨trivial, fun _ out => ?_⟩)
  rcases out with e | (_ | d)
  · trivial
  · trivial
  · dsimp only
    refine follows_bind.mpr ((tells_publish (d := d) rfl).mono ?_)
    rintro (e | u) l' -
    · trivial
    · exact h l'

theorem tells_handler (q : QueueName) (oid : String) : Tells (handler q oid) l := by
  have hadd : ∀ queue l', Tells (ShopOp.addJob queue oid).call l' := fun queue l' =>
    tells_of_calls ((Prog.calls_op _).mpr fun ev he => by cases he)
  have hstep : ∀ {op : ShopOp} {f : op.Ret → ShopProg Unit} {l : Teller},
      (∀ ev, op ≠ .publishOrder ev) → (∀ a l', Tells (f a) l') → Tells (op.call.bind f) l := by
    intro op f l hop hf
    refine follows_bind.mpr ((tells_of_calls (p := op.call) ((Prog.calls_op _).mpr hop)).mono ?_)
    rintro (e | a) l' -
    · trivial
    · exact hf a l'
  cases q with
  | ordersProcess =>
    refine hstep (fun ev he => by cases he) fun order l' => ?_
    cases order with
    | none => trivial
    | some d =>
      dsimp only
      split
      · trivial
      · refine hstep (fun ev he => by cases he) fun _ l' => ?_
        exact hstep (fun ev he => by cases he) fun _ l' => tells_advance (hadd _)
  | ordersFulfill =>
    refine hstep (fun ev he => by cases he) fun order l' => ?_
    cases order with
    | none => trivial
    | some d =>
      dsimp only
      split
      · trivial
      · exact tells_advance (hadd _)
  | ordersNotify =>
    refine hstep (fun ev he => by cases he) fun order l' => ?_
    cases order with
    | none => trivial
    | some d =>
      dsimp only
      split
      · trivial
      · exact tells_advance fun _ => trivial

theorem tells_compensate (oid reason : String) : Tells (compensatePayment oid reason) l := by
  rw [compensatePayment]
  refine follows_bind.mpr (follows_op.mpr ⟨trivial, fun _ out => ?_⟩)
  rcases out with e | (_ | d)
  · trivial
  · trivial
  · -- what follows keeps the order that was moved
    refine follows_bind.mpr (follows_op.mpr ⟨trivial, fun _ out => ?_⟩)
    cases out with
    | error e => trivial
    | ok remaining =>
      refine follows_bind.mpr (follows_op.mpr ⟨trivial, fun _ out => ?_⟩)
      cases out with
      | error e => trivial
      | ok ts =>
        refine follows_bind.mpr (follows_op.mpr ⟨trivial, fun _ out => ?_⟩)
        cases out with
        | error e => trivial
        | ok u => exact tells_publish rfl

theorem tells_runJob (job : Nat) (q : QueueName) (oid : String) : Tells (runJob job q oid) l := by
  rw [runJob_eq]
  refine follows_bind.mpr (follows_tryCatch.mpr (follows_bind.mpr ((tells_handler q oid).mono ?_)))
  rintro (err | u) l₁ -
  · refine follows_bind.mpr (follows_op.mpr ⟨trivial, fun _ out => ?_⟩)
    cases out with
    | error e => trivial
    | ok attemptsMade =>
      dsimp only
      unfold onFailed
      split
      · split
        · trivial
        · refine follows_tryCatch.mpr ((tells_compensate _ _).mono ?_)
          rintro (e | u) l' - <;> trivial
      · trivial
  · exact tells_of_calls (p := (ShopOp.moveToCompleted job).call)
      ((Prog.calls_op _).mpr fun ev he => by cases he)

theorem follows_request (r : ShopReq) :
    Follows ready (shopPost post) (shopProg r) l fun _ _ => True := by
  by_cases hjob : ∃ j q oid, r = .deliver j q oid
  · obtain ⟨j, q, oid, rfl⟩ := hjob
    refine follows_bind.mpr (follows_inr.mpr ((tells_runJob j q oid).mono ?_))
    rintro (e | u) l' - <;> trivial
  by_cases hcomp : ∃ oid reason, r = .compensate oid reason
  · obtain ⟨oid, reason, rfl⟩ := hcomp
    refine follows_bind.mpr (follows_inr.mpr ((tells_compensate oid reason).mono ?_))
    rintro (e | u) l' - <;> trivial
  refine Follows.of_calls ((calls_shopProg r).mono ?_)
  rintro (k | op) hop l
  · trivial
  · cases op with
    | publishOrder ev =>
      cases r with
      | deliver j q oid => exact absurd ⟨j, q, oid, rfl⟩ hjob
      | compensate oid reason => exact absurd ⟨oid, reason, rfl⟩ hcomp
      | _ => cases hop
    | _ => trivial

/-- The account of a thread. -/
def teller (t : ShopThread) : Teller := t.account (shopPost post) fun _ _ => ⟨none, 0⟩

end Told

section Runs

variable {ok : System.Guard apiSig Err ShopReq ShopRes (IdemKv × Shop) Pick ShopEnv} {n : Nat}
  {catalog : ObjectId → Option ProductDoc} {c c' : ShopConfig}

/-- What an order has reached stays reached. -/
theorem reached_later (h : shopSystem.Reachable ok (freshShop n catalog) c)
    (h' : shopSystem.Reachable ok c c') {oid : String} {user : ObjectId} {s : OrderStatus}
    (hr : c.world.2.Reached oid user s) : c'.world.2.Reached oid user s := by
  obtain ⟨o, d, ho, hd, huser, hs⟩ := hr
  obtain ⟨d', hd', hbecomes⟩ := becomes_reachable h h' hd
  refine ⟨o, d', ho, hd', ?_, hs.trans hbecomes.status⟩
  rw [← huser]
  exact congrArg Sale.userId hbecomes.sale

/-- What a request has moved has come to where the request has moved it, and the time it has read
is past. -/
structure Told.Teller.Honest (l : Told.Teller) (now : Nat) (w : Shop) : Prop where
  moved : ∀ oid user s, l.moved = some (oid, user, s) → w.Reached oid user s
  read : l.read ≤ now

theorem Told.Teller.Honest.later {l : Told.Teller} (hl : l.Honest c.now c.world.2)
    (h : shopSystem.Reachable ok (freshShop n catalog) c) (h' : shopSystem.Reachable ok c c') :
    l.Honest c'.now c'.world.2 :=
  ⟨fun oid user s hm => reached_later h h' (hl.moved oid user s hm), hl.read.trans h'.later.1⟩

/-- A call keeps its thread honest. -/
theorem Told.honest_call {now i : Nat} {op : ShopOp} {f : Fate Err Pick} {w w' : Shop}
    {out : Except Err op.Ret} {l : Told.Teller} (hn : w.OrderIds) (hl : l.Honest now w')
    (hx : shopStore.exec now i op f w = some (out, w')) : (Told.post op out l).Honest now w' := by
  cases op with
  | orderFindOneAndUpdate id src dst reason =>
    rcases out with e | (_ | d)
    · exact hl
    · exact hl
    · refine ⟨fun oid user s hm => ?_, hl.read⟩
      cases hm
      rcases Store.exec_cases hx with ⟨q, a, -, hs, ha⟩ | ⟨e, -, -, he⟩ | ⟨e, q, a, -, -, he⟩
      · obtain rfl := Except.ok.inj ha
        rcases order_findOneAndUpdate hn hs with ⟨d₀, hd, hid, -, -, hw'⟩ | ⟨hnone, -, -⟩
        · cases hd
          exact ⟨d₀.id, _, hid, by rw [hw', Function.update_self], rfl, .refl⟩
        · cases hnone
      · cases he
      · cases he
  | dateNow =>
    cases out with
    | error e => exact hl
    | ok ts =>
      rcases Store.exec_cases hx with ⟨q, a, -, hs, ha⟩ | ⟨e, -, -, he⟩ | ⟨e, q, a, -, -, he⟩
      · cases hs
        cases ha
        exact ⟨hl.moved, le_rfl⟩
      · cases he
      · cases he
  | _ => exact hl

/-- An event that is on the channel after a call was there, or was published by it. -/
theorem event_store {now i : Nat} {op : ShopOp} {q : Pick} {w w' : Shop} {a : op.Ret}
    (h : shopStore now i op q w = some (a, w')) {ev : OrderEvent} (hev : ev ∈ w'.orderChannel) :
    ev ∈ w.orderChannel ∨ op = .publishOrder ev := by
  by_cases hop : ∃ ev', op = .publishOrder ev'
  · obtain ⟨ev', rfl⟩ := hop
    cases h
    rcases List.mem_append.mp hev with hev | hev
    · exact .inl hev
    · rw [List.mem_singleton.mp hev]
      exact .inr rfl
  · have hpart : op.writes ≠ .orderChannel := by
      cases op with
      | publishOrder ev' => exact absurd ⟨ev', rfl⟩ hop
      | _ => exact fun he => by cases he
    exact .inl ((shopStore_same h).orderChannel hpart ▸ hev)

theorem told_reachable (h : shopSystem.Reachable ok (freshShop n catalog) c) :
    (∀ t ∈ c.pool, (Told.teller t).Honest c.now c.world.2) ∧
      ∀ ev ∈ c.world.2.orderChannel, ev.ts ≤ c.now ∧
        ∃ user : ObjectId, ev.userId = user.toString ∧
          c.world.2.Reached ev.orderId user ev.status := by
  refine h.invariant (I := fun c => (∀ t ∈ c.pool, (Told.teller t).Honest c.now c.world.2) ∧
    ∀ ev ∈ c.world.2.orderChannel, ev.ts ≤ c.now ∧ ∃ user : ObjectId,
      ev.userId = user.toString ∧ c.world.2.Reached ev.orderId user ev.status)
    ⟨fun t ht => (by cases ht), fun ev hev => (by cases hev)⟩ ?_
  rintro c a c' hr ⟨hpool, hevents⟩ hok hs
  have hone : shopSystem.Reachable ok c c' := .step .init hok hs
  -- what was so before the step
  have hold : ∀ ev, ev ∈ c.world.2.orderChannel → ev.ts ≤ c'.now ∧ ∃ user : ObjectId,
      ev.userId = user.toString ∧ c'.world.2.Reached ev.orderId user ev.status := by
    intro ev hev
    obtain ⟨hts, user, huser, hreached⟩ := hevents ev hev
    exact ⟨hts.trans hone.later.1, user, huser, reached_later hr hone hreached⟩
  have hkept : ∀ t ∈ c.pool, (Told.teller t).Honest c'.now c'.world.2 := fun t ht =>
    (hpool t ht).later hr hone
  cases a with
  | arrive r =>
    obtain ⟨w', hw, rfl⟩ := Option.map_eq_some_iff.mp hs
    refine ⟨fun t ht => ?_, fun ev hev => hold ev ?_⟩
    · rcases List.mem_append.mp ht with ht | ht
      · exact hkept t ht
      · rw [List.mem_singleton.mp ht]
        exact ⟨fun oid user s hm => (by cases hm), Nat.zero_le _⟩
    · exact (accept_same hw).2.orderChannel (fun he => by cases he) ▸ hev
  | call i f =>
    obtain ⟨id, r, op, k, tr, out, w', hp, hx, rfl⟩ := System.callStep_eq_some hs
    have hmem := List.mem_of_getElem? hp
    have hfollows : Follows Told.ready (shopPost Told.post) (.call op k)
        (Told.teller ⟨id, r, .call op k, tr⟩) fun _ _ => True :=
      hr.follows rfl (fun _ r => Told.follows_request r) _ hmem
    have hcaller := hkept _ hmem
    refine ⟨fun t ht => ?_, fun ev hev => ?_⟩
    · rcases List.mem_or_eq_of_mem_set ht with ht | rfl
      · exact hkept t ht
      · cases op with
        | inl k => exact ⟨hcaller.moved, hcaller.read⟩
        | inr op =>
          exact Told.honest_call (orderIds_reachable hr) hcaller (exec_inr (o := op) hx).1
    · rcases call_effect hx with heq | ⟨op, q, a, rfl, h'⟩
      · exact hold ev (congrArg Shop.orderChannel heq ▸ hev)
      · rcases event_store h' hev with hev | rfl
        · exact hold ev hev
        · obtain ⟨hts, user, hmoved, huser⟩ := hfollows.1
          exact ⟨hts ▸ hcaller.read, user, huser, hcaller.moved _ _ _ hmoved⟩
  | tick d => cases hs; exact ⟨hkept, hold⟩
  | env e =>
    obtain ⟨w', hw, rfl⟩ := Option.map_eq_some_iff.mp hs
    obtain ⟨s, he, rfl⟩ := Option.map_eq_some_iff.mp hw
    exact ⟨hkept, fun ev hev => hold ev ((surroundings_same he).1.orderChannel ▸ hev)⟩

/-- **The events are true.** In every run, whatever fails, an event on the channel is of an order
that is there, names its owner, carries a status the order has come to, and is not of the future. -/
theorem events_true (h : shopSystem.Reachable ok (freshShop n catalog) c) {ev : OrderEvent}
    (hev : ev ∈ c.world.2.orderChannel) :
    ∃ o d, castObjectId ev.orderId = some o ∧ c.world.2.order o = some d ∧
      ev.userId = d.userId.toString ∧ Relation.ReflTransGen OrderStatus.Next ev.status d.status ∧
      ev.ts ≤ c.now := by
  obtain ⟨hts, user, huser, o, d, ho, hd, rfl, hs⟩ := (told_reachable h).2 ev hev
  exact ⟨o, d, ho, hd, huser, hs, hts⟩

end Runs

/-- An order is paid and fulfilled: the event of the payment is still true. -/
theorem events_true_fulfilled :
    ∃ c ev d, shopSystem.Reachable (fun _ _ => True) (freshShop 0 (oneProduct 1)) c ∧
      ev ∈ c.world.2.orderChannel ∧ ev.status = .paid ∧ c.world.2.order idB = some d ∧
      d.status = .fulfilled ∧ ev.userId = d.userId.toString ∧
      Relation.ReflTransGen OrderStatus.Next ev.status d.status := by
  have hrun : (shopSystem.run (fun _ _ => true) (freshShop 0 (oneProduct 1)) (orderPlaced ++
      .arrive (.deliver 0 .ordersProcess idB.toString) :: callsOf 1 8 idB ++
      .arrive (.deliver 1 .ordersFulfill idB.toString) :: callsOf 2 6 idB)).map (fun c =>
        (c.world.2.status idB, c.world.2.orderChannel)) =
      some (some .fulfilled, [⟨idB.toString, idC.toString, .paid, 0⟩,
        ⟨idB.toString, idC.toString, .fulfilled, 0⟩]) := by decide
  obtain ⟨c, hc, hs⟩ := Option.map_eq_some_iff.mp hrun
  obtain ⟨hstatus, hevents⟩ := Prod.mk.inj hs
  have hr : shopSystem.Reachable (fun _ _ => True) _ c :=
    (System.Reachable.of_run hc).mono fun _ _ _ => trivial
  have hev : (⟨idB.toString, idC.toString, .paid, 0⟩ : OrderEvent) ∈ c.world.2.orderChannel := by
    rw [hevents]
    exact List.mem_cons_self ..
  obtain ⟨o, d, ho, hd, huser, hreached, -⟩ := events_true hr hev
  obtain rfl : idB = o := Option.some.inj ((castObjectId_toString idB).symm.trans ho)
  have hfulfilled : some d.status = some .fulfilled := by
    rw [← hstatus, status_eq, hd, Option.map_some]
  exact ⟨c, _, d, hr, hev, rfl, hd, Option.some.inj hfulfilled, huser, hreached⟩

end Flashkart
