import Flashkart.Shop.Jobs

/-!
# Shop.Progress

How the status of an order moves. It starts as pending, and every later change is a step of
`OrderStatus.Next`: the handlers and the compensation move orders by compare-and-sets only, and a
handler runs for a job that was added.

* `progress_step` — one action of a run.
* `no_return`     — a status that an order has left does not come back, so each step is made at
  most once.
-/

namespace Flashkart

open Async

inductive OrderStatus.Next : OrderStatus → OrderStatus → Prop
  | pay : Next .pending .paid
  | fulfill : Next .paid .fulfilled
  | confirm : Next .fulfilled .confirmed
  | fail : Next .pending .failed

/-- How the status of an order may change; `none` is an order that does not exist. -/
inductive Progress : Option OrderStatus → Option OrderStatus → Prop
  | same (s : Option OrderStatus) : Progress s s
  | create : Progress none (some .pending)
  | move {s s' : OrderStatus} : s.Next s' → Progress (some s) (some s')

/-- How far an order has come. -/
def progressRank : Option OrderStatus → Nat
  | none => 0
  | some .pending => 1
  | some .paid | some .failed => 2
  | some .fulfilled => 3
  | some .confirmed => 4

theorem Progress.rank {s s' : Option OrderStatus} (h : Progress s s') :
    s' = s ∨ progressRank s < progressRank s' := by
  cases h with
  | same => exact .inl rfl
  | create => exact .inr (by decide)
  | move h => cases h <;> exact .inr (by decide)

/-- What lets a call move an order: a new one is pending, a move is a step, and one that does not
start from pending is made for a job that was added. -/
def Shop.Justifies (w : Shop) : ShopOp → Prop
  | .orderCreate inp => inp.status = .pending
  | .orderFindOneAndUpdate id src dst _ =>
    src.Next dst ∧ (src = .pending ∨ ∃ q, (q, id) ∈ w.jobKeys ∧ q.stage = (src, dst))
  | _ => True

theorem stage_next {q : QueueName} {src dst : OrderStatus} (h : (src, dst) = q.stage) :
    src.Next dst := by
  cases q <;> cases h <;> constructor

/-- Who moves an order: the handler of a stage in a job for it, or the compensation. -/
theorem may_update {r : ShopReq} {id : String} {src dst : OrderStatus} {reason : Option String}
    (h : r.may (.orderFindOneAndUpdate id src dst reason) = true) :
    (∃ j q, r = .deliver j q id ∧ (src, dst) = q.stage) ∨ (src = .pending ∧ dst = .failed) := by
  cases r with
  | deliver j q oid =>
    simp only [ShopReq.may, handlerMay, compensationMay, Bool.or_eq_true, Bool.and_eq_true,
      decide_eq_true_eq] at h
    rcases h with ⟨rfl, hstage⟩ | ⟨-, hfail⟩
    · exact .inl ⟨j, q, rfl, hstage⟩
    · exact .inr hfail
  | compensate oid reason' =>
    simp only [ShopReq.may, compensationMay, Bool.and_eq_true, decide_eq_true_eq] at h
    exact .inr h
  | _ => cases h

theorem justifies_of_may {w : Shop} {r : ShopReq} {op : ShopOp}
    (hadd : ∀ j queue oid, r = .deliver j queue oid → (queue, oid) ∈ w.jobKeys)
    (h : r.may op = true) : w.Justifies op := by
  cases op with
  | orderCreate inp =>
    cases r with
    | postBuy req =>
      have hp : inp.status = .pending := of_decide_eq_true h
      exact hp
    | deliver j q oid => cases q <;> cases h
    | _ => cases h
  | orderFindOneAndUpdate id src dst reason =>
    rcases may_update h with ⟨j, q, rfl, hstage⟩ | ⟨rfl, rfl⟩
    · exact ⟨stage_next hstage, .inr ⟨q, hadd j q id rfl, hstage.symm⟩⟩
    · exact ⟨.fail, .inl rfl⟩
  | _ => trivial

theorem progress_store {now i : Nat} {op : ShopOp} {q : Pick} {w w' : Shop} {a : op.Ret}
    (hn : w.OrderIds) (hj : w.Justifies op) (h : shopStore now i op q w = some (a, w'))
    (o : ObjectId) : Progress (w.status o) (w'.status o) := by
  by_cases hm : op.movesOrders = true
  · cases op with
    | orderCreate inp =>
      obtain ⟨hnone, hstatus⟩ := status_orderCreate h
      rw [hstatus]
      by_cases ho : o = a
      · subst ho
        rw [Function.update_self, hnone, show inp.status = .pending from hj]
        exact .create
      · rw [Function.update_of_ne ho]
        exact .same _
    | orderFindOneAndUpdate id src dst reason =>
      rcases status_findOneAndUpdate hn h with ⟨d, -, -, hsrc, hstatus⟩ | ⟨-, hstatus, -⟩
      · rw [hstatus]
        by_cases ho : o = d.id
        · subst ho
          rw [Function.update_self, hsrc]
          exact .move hj.1
        · rw [Function.update_of_ne ho]
          exact .same _
      · rw [hstatus]
        exact .same _
    | _ => cases hm
  · rw [status_other (by simpa using hm) h]
    exact .same _

section Runs

variable {ok ok' : System.Guard apiSig Err ShopReq ShopRes (IdemKv × Shop) Pick ShopEnv} {n : Nat}
  {catalog : ObjectId → Option ProductDoc} {c c' : ShopConfig}

/-- Every call a thread of a run is about to make is justified. -/
theorem justified (h : shopSystem.Reachable ok (freshShop n catalog) c) {t : ShopThread}
    (ht : t ∈ c.pool) {op : ShopOp} {k : Except Err op.Ret → ApiProg ShopRes}
    (hp : t.prog = .call (.inr op) k) : c.world.2.Justifies op := by
  have hcalls := h.calls calls_shopProg rfl t ht
  rw [hp] at hcalls
  exact justifies_of_may (delivered_added h t ht) hcalls.1

theorem progress_step (h : shopSystem.Reachable ok (freshShop n catalog) c) {a : ShopAct}
    (hs : shopSystem.step c a = some c') (o : ObjectId) :
    Progress (c.world.2.status o) (c'.world.2.status o) := by
  cases a with
  | arrive r =>
    obtain ⟨w', hw, rfl⟩ := Option.map_eq_some_iff.mp hs
    have hsame : w'.2.status o = c.world.2.status o := by
      rw [Shop.status, (accept_same hw).2.orders (fun he => by cases he), Shop.status]
    show Progress _ (w'.2.status o)
    rw [hsame]
    exact .same _
  | call i f =>
    obtain ⟨id, r, op, k, tr, out, w', hp, hx, rfl⟩ := System.callStep_eq_some hs
    show Progress _ (w'.2.status o)
    rcases call_effect hx with heq | ⟨op, q, a, rfl, h'⟩
    · rw [heq]
      exact .same _
    · have hj := justified h (List.mem_of_getElem? hp) rfl
      exact progress_store (orderIds_reachable h) hj h' o
  | tick d => cases hs; exact .same _
  | env e =>
    obtain ⟨w', hw, rfl⟩ := Option.map_eq_some_iff.mp hs
    obtain ⟨s, he, rfl⟩ := Option.map_eq_some_iff.mp hw
    have hsame : s.status o = c.world.2.status o := by
      rw [Shop.status, (surroundings_same he).1.orders, Shop.status]
    show Progress _ (s.status o)
    rw [hsame]
    exact .same _

theorem rank_le (h : shopSystem.Reachable ok (freshShop n catalog) c)
    (h' : shopSystem.Reachable ok c c') (o : ObjectId) :
    progressRank (c.world.2.status o) ≤ progressRank (c'.world.2.status o) := by
  induction h' with
  | init => exact le_rfl
  | step hr _ hs ih =>
    rcases (progress_step (h.trans hr) hs o).rank with heq | hlt
    · rw [heq]; exact ih
    · omega

/-- What the order has left does not come back. -/
theorem no_return (h : shopSystem.Reachable ok (freshShop n catalog) c) {a : ShopAct}
    (hok : ok c a) (hs : shopSystem.step c a = some c') {o : ObjectId}
    (hmove : c'.world.2.status o ≠ c.world.2.status o) {d : ShopConfig}
    (hd : shopSystem.Reachable ok c' d) : d.world.2.status o ≠ c.world.2.status o := by
  have hle := rank_le (.step h hok hs) hd o
  intro heq
  rcases (progress_step h hs o).rank with hsame | hlt
  · exact hmove hsame
  · rw [heq] at hle
    omega

end Runs

end Flashkart
