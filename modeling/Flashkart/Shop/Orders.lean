import Flashkart.Shop.Rules

/-!
# Shop.Orders

The orders as a map from ids to documents, and to their statuses, and what each call does to these
maps: an insert adds a new id, a save sets the payment attempts, a compare-and-set moves one status,
and nothing else changes them.
-/

namespace Flashkart

open Async

def Shop.order (w : Shop) (o : ObjectId) : Option OrderDoc := Collection.lookup (·.id) w.orders o

def Shop.status (w : Shop) (o : ObjectId) : Option OrderStatus :=
  (Collection.lookup (·.id) w.orders o).map (·.status)

/-- No two orders have one id. -/
def Shop.OrderIds (w : Shop) : Prop := (w.orders.map (·.id)).Nodup

/-- The calls that can change the map. -/
def ShopOp.movesOrders : ShopOp → Bool
  | .orderCreate _ | .orderFindOneAndUpdate .. => true
  | _ => false

section Store

variable {now i : Nat} {q : Pick} {w w' : Shop}

theorem orderIds_store {o : ShopOp} {a : o.Ret} (hn : w.OrderIds)
    (h : shopStore now i o q w = some (a, w')) : w'.OrderIds := by
  unfold Shop.OrderIds at hn ⊢
  cases o with
  | orderCreate inp =>
    simp only [shopStore] at h
    split at h
    · cases h
    · split at h
      · cases h
      · rename_i hfresh
        cases h
        exact Collection.nodup_concat hn fun h => hfresh (.inr h)
  | orderSave id n =>
    cases h
    have hids : (w.orders.map fun d => if d.id = id then { d with paymentAttempts := n } else d).map
        (·.id) = w.orders.map (·.id) := by
      rw [List.map_map]
      refine List.map_congr_left fun d _ => ?_
      simp only [Function.comp_apply]
      split <;> rfl
    rw [hids]
    exact hn
  | orderFindOneAndUpdate id src dst reason =>
    obtain ⟨⟨r, docs⟩, hr, h⟩ := Option.map_eq_some_iff.mp h
    cases h
    rcases Collection.findOneAndUpdate_cases hr with ⟨d, hd, -, rfl, rfl⟩ | ⟨rfl, rfl, -⟩
    · have hids : (w.orders.set q.idx { d with
          status := dst, failureReason := reason.or d.failureReason }).map (·.id) =
            w.orders.map (·.id) := Collection.map_set_of_eq hd rfl
      rw [hids]
      exact hn
    · exact hn
  | _ =>
    rw [(shopStore_same h).orders (fun he => by cases he)]
    exact hn

theorem order_eq_some (hn : w.OrderIds) {o : ObjectId} {d : OrderDoc} :
    w.order o = some d ↔ d ∈ w.orders ∧ d.id = o := Collection.lookup_eq_some hn

theorem status_eq (o : ObjectId) : w.status o = (w.order o).map (·.status) := rfl

theorem order_other {o : ShopOp} {a : o.Ret} (ho : o.writes ≠ .orders)
    (h : shopStore now i o q w = some (a, w')) : w'.order = w.order := by
  funext k
  rw [Shop.order, (shopStore_same h).orders ho, Shop.order]

theorem order_orderSave {id : ObjectId} {n : Nat}
    (h : shopStore now i (.orderSave id n) q w = some ((), w')) (k : ObjectId) :
    w'.order k = (w.order k).map fun d => if d.id = id then { d with paymentAttempts := n } else d := by
  cases h
  exact Collection.lookup_map fun d => by split <;> rfl

/-- An insert brings in an id that was not there. -/
theorem order_orderCreate {inp : OrderInput} {id : ObjectId}
    (h : shopStore now i (.orderCreate inp) q w = some (id, w')) :
    w.order id = none ∧ ∃ d : OrderDoc, d.id = id ∧ d.status = inp.status ∧ d.paymentAttempts = 0 ∧
      w'.order = Function.update w.order id (some d) := by
  simp only [shopStore] at h
  split at h
  · cases h
  · split at h
    · cases h
    · rename_i hfresh
      cases h
      have hnot : q.oid ∉ w.orders.map (·.id) := fun h => hfresh (.inr h)
      exact ⟨Collection.lookup_eq_none.mpr hnot, _, rfl, rfl, rfl, Collection.lookup_concat hnot⟩

/-- A compare-and-set: the order `id` denotes was in `src` and is changed to what is answered, or it
was not in `src` and nothing changed. -/
theorem order_findOneAndUpdate {id : String} {src dst : OrderStatus} {reason : Option String}
    {r : Option OrderDoc} (hn : w.OrderIds)
    (h : shopStore now i (.orderFindOneAndUpdate id src dst reason) q w = some (r, w')) :
    (∃ d, r = some { d with status := dst, failureReason := reason.or d.failureReason } ∧
        castObjectId id = some d.id ∧ d.status = src ∧ w.order d.id = some d ∧
        w'.order = Function.update w.order d.id r) ∨
      (r = none ∧ w' = w ∧ ∀ o, castObjectId id = some o → w.status o ≠ some src) := by
  obtain ⟨⟨r, docs⟩, hr, h⟩ := Option.map_eq_some_iff.mp h
  cases h
  rcases Collection.findOneAndUpdate_cases hr with ⟨d, hd, hm, rfl, rfl⟩ | ⟨rfl, rfl, hm⟩
  · simp only [orderMatches, Bool.and_eq_true, beq_iff_eq] at hm
    refine .inl ⟨d, rfl, hm.1, hm.2, (order_eq_some hn).mpr ⟨List.mem_of_getElem? hd, rfl⟩, ?_⟩
    exact Collection.lookup_set hn hd rfl
  · refine .inr ⟨rfl, rfl, ?_⟩
    intro o ho hs
    obtain ⟨d, hd, hsrc⟩ := Option.map_eq_some_iff.mp hs
    obtain ⟨hmem, rfl⟩ := (order_eq_some hn).mp hd
    have := hm d hmem
    simp [orderMatches, ho, hsrc] at this

theorem status_other {o : ShopOp} {a : o.Ret} (ho : o.movesOrders = false)
    (h : shopStore now i o q w = some (a, w')) : w'.status = w.status := by
  funext k
  cases o with
  | orderCreate inp => cases ho
  | orderFindOneAndUpdate id src dst reason => cases ho
  | orderSave id n =>
    rw [status_eq, order_orderSave h, Option.map_map, status_eq]
    refine congrArg (fun f => Option.map f _) (funext fun d => ?_)
    simp only [Function.comp_apply]
    split <;> rfl
  | _ => rw [status_eq, order_other (fun he => by cases he) h, status_eq]

theorem status_orderCreate {inp : OrderInput} {id : ObjectId}
    (h : shopStore now i (.orderCreate inp) q w = some (id, w')) :
    w.status id = none ∧ w'.status = Function.update w.status id (some inp.status) := by
  obtain ⟨hnone, d, -, hd, -, hw'⟩ := order_orderCreate h
  refine ⟨by rw [status_eq, hnone, Option.map_none], funext fun k => ?_⟩
  rw [status_eq, hw']
  by_cases hk : k = id
  · rw [hk, Function.update_self, Function.update_self, Option.map_some, hd]
  · rw [Function.update_of_ne hk, Function.update_of_ne hk, status_eq]

theorem status_findOneAndUpdate {id : String} {src dst : OrderStatus} {reason : Option String}
    {r : Option OrderDoc} (hn : w.OrderIds)
    (h : shopStore now i (.orderFindOneAndUpdate id src dst reason) q w = some (r, w')) :
    (∃ d, r = some d ∧ castObjectId id = some d.id ∧ w.status d.id = some src ∧
        w'.status = Function.update w.status d.id (some dst)) ∨
      (r = none ∧ w'.status = w.status ∧
        ∀ o, castObjectId id = some o → w.status o ≠ some src) := by
  rcases order_findOneAndUpdate hn h with ⟨d, rfl, hid, hsrc, hd, hw'⟩ | ⟨rfl, rfl, hne⟩
  · refine .inl ⟨_, rfl, hid, by rw [status_eq, hd, Option.map_some, hsrc], funext fun k => ?_⟩
    rw [status_eq, hw']
    by_cases hk : k = d.id
    · rw [hk, Function.update_self, Function.update_self, Option.map_some]
    · rw [Function.update_of_ne hk, Function.update_of_ne hk, status_eq]
  · exact .inr ⟨rfl, rfl, hne⟩

/-- The same of the call as a whole, seen from one order: it did not move that order, or it did. -/
theorem status_update {id : String} {src dst : OrderStatus} {reason : Option String}
    {f : Fate Err Pick} {out : Except Err (Option OrderDoc)} (hn : w.OrderIds)
    (hx : shopStore.exec now i (.orderFindOneAndUpdate id src dst reason) f w = some (out, w'))
    (o : ObjectId) :
    (w'.status o = w.status o ∧ (castObjectId id = some o →
        (∀ d, out ≠ .ok (some d)) ∧ (f.effective = true → w.status o ≠ some src))) ∨
      (castObjectId id = some o ∧ f.effective = true ∧ out ≠ .ok none ∧ w.status o = some src ∧
        w'.status o = some dst) := by
  rcases Store.exec_effect hx with ⟨hf, q, a, h, hout⟩ | ⟨hf, rfl, e, rfl⟩
  · rcases status_findOneAndUpdate hn h with ⟨d, rfl, hid, hsrc, hstatus⟩ | ⟨rfl, hstatus, hne⟩
    · by_cases hd : o = d.id
      · subst hd
        refine .inr ⟨hid, hf, fun ho => ?_, hsrc, by rw [hstatus, Function.update_self]⟩
        have := hout _ ho
        cases this
      · refine .inl ⟨by rw [hstatus, Function.update_of_ne hd], fun ho => ?_⟩
        rw [ho] at hid
        exact absurd (Option.some.inj hid) hd
    · refine .inl ⟨by rw [hstatus], fun ho => ⟨fun d hd => ?_, fun _ => hne o ho⟩⟩
      have := hout _ hd
      cases this
  · exact .inl ⟨rfl, fun _ => ⟨fun d he => (by cases he), fun h => by rw [hf] at h; cases h⟩⟩

/-- An order that is read is there. -/
theorem order_findById {id : String} {r : Option OrderDoc} (hn : w.OrderIds)
    (h : shopStore now i (.orderFindById id) q w = some (r, w')) {d : OrderDoc} (hr : r = some d) :
    castObjectId id = some d.id ∧ w.order d.id = some d := by
  obtain ⟨r', hf, h⟩ := Option.map_eq_some_iff.mp h
  cases h
  obtain ⟨o, ho, hf⟩ := Option.map_eq_some_iff.mp hf
  have hl : Collection.lookup (·.id) w.orders o = some d := hf.trans hr
  obtain ⟨hmem, rfl⟩ := (Collection.lookup_eq_some hn).mp hl
  exact ⟨ho, hl⟩

theorem status_findById {id : String} {r : Option OrderDoc} (hn : w.OrderIds)
    (h : shopStore now i (.orderFindById id) q w = some (r, w')) {d : OrderDoc} (hr : r = some d) :
    castObjectId id = some d.id ∧ w.status d.id = some d.status := by
  obtain ⟨hid, hd⟩ := order_findById hn h hr
  exact ⟨hid, by rw [status_eq, hd, Option.map_some]⟩

end Store

section Reachable

variable {ok : System.Guard apiSig Err ShopReq ShopRes (IdemKv × Shop) Pick ShopEnv} {n : Nat}
  {catalog : ObjectId → Option ProductDoc} {c : ShopConfig}

/-- What the stores, arrivals and the surroundings all keep holds in every run. -/
theorem shop_invariant {I : Shop → Prop}
    (h : shopSystem.Reachable ok (freshShop n catalog) c) (h0 : I (.fresh catalog))
    (hstore : ∀ now i o q w a w', I w → shopStore now i o q w = some (a, w') → I w')
    (haccept : ∀ w w', I w → SameExcept .jobs w w' → I w')
    (henv : ∀ e w w', I w → w.surroundings e = some w' → I w') : I c.world.2 := by
  refine h.invariant (I := fun c => I c.world.2) h0 ?_
  intro c a c' _ hI _ hs
  cases a with
  | arrive r =>
    obtain ⟨w', hw, rfl⟩ := Option.map_eq_some_iff.mp hs
    exact haccept _ _ hI (accept_same hw).2
  | call j f =>
    obtain ⟨id, r, o, k, tr, out, w', -, hx, rfl⟩ := System.callStep_eq_some hs
    cases o with
    | inl o =>
      show I w'.2
      rw [exec_inl (o := o) hx]
      exact hI
    | inr o =>
      rcases Store.exec_effect (exec_inr (o := o) hx).1 with ⟨-, q, a, h, -⟩ | ⟨-, h, -⟩
      · exact hstore _ _ _ _ _ _ _ hI h
      · show I w'.2
        rw [h]
        exact hI
  | tick d => cases hs; exact hI
  | env e =>
    obtain ⟨w', hw, rfl⟩ := Option.map_eq_some_iff.mp hs
    obtain ⟨s, he, rfl⟩ := Option.map_eq_some_iff.mp hw
    exact henv _ _ _ hI he

theorem orderIds_reachable (h : shopSystem.Reachable ok (freshShop n catalog) c) :
    c.world.2.OrderIds := by
  refine shop_invariant h List.nodup_nil (fun _ _ _ _ _ _ _ hn hx => orderIds_store hn hx) ?_ ?_
  · intro w w' hn hsame
    rw [Shop.OrderIds, hsame.orders (fun he => by cases he)]
    exact hn
  · intro e w w' hn he
    rw [Shop.OrderIds, (surroundings_same he).1.orders]
    exact hn

end Reachable

end Flashkart
