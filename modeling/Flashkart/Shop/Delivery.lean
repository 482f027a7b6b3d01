import Flashkart.Shop.Jobs
import Flashkart.Shop.Undo
import Flashkart.Async.Typestate

/-!
# Shop.Delivery

What an attempt of a process job does, whatever its calls answer. Its `Stage` is read off its calls:
it looks the order up, saves one more attempt, charges, moves the order to paid; it settles its job;
and after the third failure it moves the order to failed and gives its units back.

* `follows_deliver` — an attempt makes each of these calls at its stage only, and when it ends it
  owes nothing more than an answer has told it.
-/

namespace Flashkart

open Async

/-- Where an attempt is. `found d`: it has read the pending order `d`. `passed`: it has seen that the
order is pending no more. `spent`: it was the third one to fail. `owing d`: it has moved `d` to
failed. -/
inductive Delivery.Stage where
  | opened
  | found (d : OrderDoc)
  | charging
  | passed
  | spent
  | owing (d : OrderDoc)
  | repaid (d : OrderDoc)
  | closed

structure Delivery where
  job : Nat
  orderId : String
  stage : Delivery.Stage

namespace Delivery

def Stage.move : (op : ShopOp) → Except Err op.Ret → Stage → Stage
  | .orderFindById _, .ok (some d), .opened => if d.status = .pending then .found d else .passed
  | .orderSave .., _, _ => .charging
  | .orderFindOneAndUpdate _ .pending .paid _, .ok _, _ => .passed
  | .orderFindOneAndUpdate _ .pending .failed _, .ok (some d), _ => .owing d
  | .orderFindOneAndUpdate _ .pending .failed _, _, _ => .closed
  | .incrby .., .ok _, .owing d => .repaid d
  | .incrby .., _, _ => .closed
  | .moveToCompleted _, _, _ => .closed
  | .moveToFailed _, .ok (some n), _ => if n < JOB_ATTEMPTS then .closed else .spent
  | .moveToFailed _, _, _ => .closed
  | _, _, s => s

/-- Until it settles its job. -/
def Stage.unsettled : Stage → Bool
  | .opened | .found _ | .charging | .passed => true
  | _ => false

/-- Still to fail the order, or to give its units back. -/
def Stage.indebted : Stage → Bool
  | .spent | .owing _ => true
  | _ => false

/-- The account of a thread: where it is, if it attempts a process job or compensates. -/
def first (_ : Nat) : ShopReq → Option Delivery
  | .deliver j .ordersProcess oid => some ⟨j, oid, .opened⟩
  | .compensate oid _ => some ⟨0, oid, .spent⟩
  | _ => none

def post (op : ShopOp) (out : Except Err op.Ret) (l : Option Delivery) : Option Delivery :=
  l.map fun a => { a with stage := a.stage.move op out }

/-- The calls an attempt makes, and at which stage. -/
def Ready (a : Delivery) : ShopOp → Prop
  | .orderFindById id => id = a.orderId
  | .orderSave id n => ∃ d, a.stage = .found d ∧ id = d.id ∧ n = d.paymentAttempts + 1
  | .orderFindOneAndUpdate id src dst _ => id = a.orderId ∧ src = .pending ∧
      ((dst = .paid ∧ a.stage = .charging) ∨ (dst = .failed ∧ a.stage = .spent))
  | .incrby key n => ∃ d, a.stage = .owing d ∧ key = d.stockKey ∧ n = d.quantity
  | .moveToCompleted j => j = a.job ∧ a.stage = .passed
  | .moveToFailed j => j = a.job ∧ a.stage.unsettled = true
  | .orderCreate _ => False
  | _ => True

/-- What every other request may do to orders. -/
def besides : ShopOp → Bool
  | .orderSave .. => false
  | .orderFindOneAndUpdate _ src dst _ =>
    (src, dst) = QueueName.ordersFulfill.stage || (src, dst) = QueueName.ordersNotify.stage
  | .orderCreate inp => inp.status = .pending
  | _ => true

def ready : Option Delivery → apiSig.Op → Prop
  | _, .inl _ => True
  | some a, .inr op => a.Ready op
  | none, .inr op => besides op = true

/-- Follows the stages, as a program over the shop's stores. -/
abbrev Keeps {α : Type} (p : ShopProg α) (a : Delivery)
    (Q : Except Err α → Option Delivery → Prop) : Prop :=
  Follows (fun l (op : shopSig.Op) => ready l (.inr op)) (fun e => post e.op e.out) p (some a) Q

variable {α : Type} {a : Delivery} {j : Nat} {oid : String} {s : Stage}
  {Q : Except Err α → Option Delivery → Prop}

/-- One call, and what follows. -/
theorem keeps_call {op : ShopOp} {f : op.Ret → ShopProg α} (hready : a.Ready op)
    (hok : ∀ v, Keeps (f v) { a with stage := a.stage.move op (.ok v) } Q)
    (herr : ∀ e, Q (.error e) (some { a with stage := a.stage.move op (.error e) })) :
    Keeps (op.call.bind f) a Q := by
  refine follows_bind.mpr (follows_op.mpr ⟨hready, fun time out => ?_⟩)
  cases out with
  | error e => exact herr e
  | ok v => exact hok v

/-- The calls that no stage depends on. -/
def quiet : ShopOp → Bool
  | .dateNow | .publishOrder _ | .publishStock _ | .addJob .. | .chargePayment .. => true
  | _ => false

theorem keeps_quiet {p : ShopProg α} (h : p.Calls fun op => quiet op = true) :
    Keeps p a fun _ l => l = some a := by
  refine Follows.of_fixed (h.mono fun op hop => ?_)
  cases op <;> first | exact ⟨trivial, fun _ _ => rfl⟩ | cases hop

/-- How a handler ends: it returns when the order is pending no more. -/
def Handled (j : Nat) (oid : String) (out : Except Err α) (l : Option Delivery) : Prop :=
  ∃ s : Stage, s.unsettled = true ∧ l = some ⟨j, oid, s⟩ ∧ ((∃ v, out = .ok v) → s = .passed)

theorem handled_error {e : Err} (hs : s.unsettled = true) :
    Handled j oid (.error e : Except Err α) (some ⟨j, oid, s⟩) :=
  ⟨s, hs, rfl, fun ⟨v, hv⟩ => by cases hv⟩

theorem keeps_processHandler : Keeps (processHandler oid) ⟨j, oid, .opened⟩ (Handled j oid) := by
  rw [processHandler]
  refine keeps_call rfl (fun order => ?_) fun e => handled_error rfl
  cases order with
  | none => exact handled_error rfl
  | some d =>
    by_cases hd : d.status = .pending
    · have hmove : Stage.move (.orderFindById oid) (.ok (some d)) .opened = .found d := if_pos hd
      simp only [hmove, hd, ne_eq, not_true, if_false]
      refine keeps_call ⟨d, rfl, rfl, rfl⟩ (fun _ => ?_) fun e => handled_error rfl
      refine keeps_call trivial (fun _ => ?_) fun e => handled_error rfl
      rw [advance]
      refine keeps_call ⟨rfl, rfl, .inl ⟨rfl, rfl⟩⟩ (fun updated => ?_) fun e => handled_error rfl
      cases updated with
      | none => exact ⟨.passed, rfl, rfl, fun _ => rfl⟩
      | some d =>
        refine (keeps_quiet (Prog.calls_bind (calls_publish rfl fun _ => rfl) fun _ => ?_)).mono ?_
        · exact (Prog.calls_op _).mpr rfl
        · exact fun out l hl => ⟨.passed, rfl, hl, fun _ => rfl⟩
    · have hmove : Stage.move (.orderFindById oid) (.ok (some d)) .opened = .passed := if_neg hd
      simp only [hmove, hd, ne_eq, not_false_eq_true, if_true]
      exact ⟨.passed, rfl, rfl, fun _ => rfl⟩

/-- Nothing is left to do. -/
def Done {β : Type} (_ : Except Err β) (l : Option Delivery) : Prop :=
  ∀ a, l = some a → a.stage.indebted = false

theorem done_some {β : Type} {out : Except Err β} (hs : a.stage.indebted = false) :
    Done out (some a) := fun _ hb => Option.some.inj hb ▸ hs

theorem keeps_compensate (reason : String) :
    Keeps (compensatePayment oid reason) ⟨j, oid, .spent⟩ Done := by
  rw [compensatePayment]
  refine keeps_call ⟨rfl, rfl, .inr ⟨rfl, rfl⟩⟩ (fun order => ?_) fun e => done_some rfl
  cases order with
  | none => exact done_some rfl
  | some d =>
    refine keeps_call ⟨d, rfl, rfl, rfl⟩ (fun n => ?_) fun e => done_some rfl
    refine (keeps_quiet (calls_bind_op rfl fun ts => calls_bind_op rfl fun _ => ?_)).mono ?_
    · exact calls_publish rfl fun _ => rfl
    · rintro out l rfl
      exact done_some rfl

theorem keeps_runJob (job : Nat) :
    Keeps (runJob job .ordersProcess oid) ⟨job, oid, .opened⟩ Done := by
  rw [runJob_eq]
  refine follows_bind.mpr (follows_tryCatch.mpr (follows_bind.mpr (keeps_processHandler.mono ?_)))
  rintro (e | u) l ⟨s, hs, rfl, hpassed⟩
  · -- the attempt threw
    refine keeps_call ⟨rfl, hs⟩ (fun n => ?_) fun _ => done_some rfl
    cases n with
    | none => exact done_some rfl
    | some n =>
      by_cases hn : n < JOB_ATTEMPTS
      · have hmove : s.move (.moveToFailed job) (.ok (some n)) = .closed := if_pos hn
        simp only [hmove, onFailed, hn, if_true]
        exact done_some rfl
      · have hmove : s.move (.moveToFailed job) (.ok (some n)) = .spent := if_neg hn
        simp only [hmove, onFailed, hn, if_false]
        refine follows_tryCatch.mpr ((keeps_compensate _).mono ?_)
        rintro (e | u) l hl <;> exact hl
  · obtain rfl := hpassed ⟨u, rfl⟩
    have hready : Ready ⟨job, oid, .passed⟩ (.moveToCompleted job) := ⟨rfl, rfl⟩
    have hlast : Keeps (ShopOp.moveToCompleted job).call ⟨job, oid, .passed⟩ Done :=
      follows_op.mpr ⟨hready, fun time out => done_some (by cases out <;> rfl)⟩
    exact hlast

/-! ## Requests -/

theorem besides_of_may {r : ShopReq} (h0 : first 0 r = none) {op : ShopOp} (h : r.may op = true) :
    besides op = true := by
  cases op with
  | orderSave id n =>
    cases r with
    | deliver j q oid =>
      cases q with
      | ordersProcess => cases h0
      | _ => cases h
    | compensate oid reason => cases h0
    | _ => cases h
  | orderCreate inp =>
    cases r with
    | postBuy req => exact h
    | deliver j q oid => cases q <;> cases h
    | _ => cases h
  | orderFindOneAndUpdate id src dst reason =>
    cases r with
    | deliver j q oid =>
      cases q with
      | ordersProcess => cases h0
      | ordersFulfill =>
        simp only [ShopReq.may, handlerMay, reduceCtorEq, decide_false, Bool.false_and,
          Bool.or_false, Bool.and_eq_true] at h
        simp [besides, h.2]
      | ordersNotify =>
        simp only [ShopReq.may, handlerMay, reduceCtorEq, decide_false, Bool.false_and,
          Bool.or_false, Bool.and_eq_true] at h
        simp [besides, h.2]
    | compensate oid reason' => cases h0
    | _ => cases h
  | _ => rfl

theorem follows_request (i : Nat) (r : ShopReq) :
    Follows ready (shopPost post) (shopProg r) (first i r) Done := by
  have lift : ∀ {α : Type} {p : ShopProg α} {f : α → ShopRes} {a : Delivery}, Keeps p a Done →
      Follows ready (shopPost post) (f <$> p.inr : ApiProg ShopRes) (some a) Done := by
    intro α p f a h
    refine follows_bind.mpr ((follows_inr.mpr h).mono ?_)
    rintro (e | v) l hl <;> exact hl
  have hother : first 0 r = none → Follows ready (shopPost post) (shopProg r) none Done := by
    intro h0
    refine (Follows.of_fixed ((calls_shopProg r).mono ?_)).mono fun _ l hl a ha => ?_
    · rintro (k | op) hop
      · exact ⟨trivial, fun _ _ => rfl⟩
      · exact ⟨besides_of_may h0 hop, fun _ _ => rfl⟩
    · rw [hl] at ha
      cases ha
  cases r with
  | deliver j q oid =>
    cases q with
    | ordersProcess => exact lift (keeps_runJob j)
    | _ => exact hother rfl
  | compensate oid reason => exact lift (keeps_compensate reason)
  | _ => exact hother rfl

/-! ## Threads -/

theorem account_none {t : ShopThread} (h : first t.id t.req = none) :
    t.account (shopPost post) first = none := by
  rw [Thread.account, h]
  generalize t.trace = tr
  induction tr with
  | nil => rfl
  | cons e tr ih =>
    obtain ⟨time, op, out⟩ := e
    rw [List.foldr_cons, ih]
    cases op <;> rfl

theorem account_some {t : ShopThread} {b : Delivery} (h : first t.id t.req = some b) :
    ∃ s, t.account (shopPost post) first = some { b with stage := s } := by
  rw [Thread.account, h]
  generalize t.trace = tr
  induction tr with
  | nil => exact ⟨b.stage, rfl⟩
  | cons e tr ih =>
    obtain ⟨time, op, out⟩ := e
    obtain ⟨s, hs⟩ := ih
    rw [List.foldr_cons, hs]
    cases op with
    | inl k => exact ⟨s, rfl⟩
    | inr op => exact ⟨s.move op out, rfl⟩

/-- At a stage before it settles its job, it has not done so. -/
theorem unsettled_back (l : Option Delivery) (op : apiSig.Op) (time : Nat)
    (out : Except Err (apiSig.Ret op)) (hready : ready l op)
    (h : ∃ a, shopPost post ⟨time, op, out⟩ l = some a ∧ a.stage.unsettled = true) :
    (∃ a, l = some a ∧ a.stage.unsettled = true) ∧ settles op = false := by
  obtain ⟨a', hl', hstage⟩ := h
  cases op with
  | inl k => exact ⟨⟨a', hl', hstage⟩, rfl⟩
  | inr op =>
    obtain ⟨a, rfl, rfl⟩ := Option.map_eq_some_iff.mp hl'
    obtain ⟨job, oid, s⟩ := a
    have hkept : s.move op out = s →
        ∃ a, some (⟨job, oid, s⟩ : Delivery) = some a ∧ a.stage.unsettled = true :=
      fun he => ⟨_, rfl, he ▸ hstage⟩
    cases op with
    | orderFindById id =>
      cases s with
      | opened => exact ⟨⟨_, rfl, rfl⟩, rfl⟩
      | _ => rcases out with e | (_ | d) <;> exact ⟨hkept rfl, rfl⟩
    | orderSave id n =>
      obtain ⟨d, rfl, -, -⟩ := hready
      exact ⟨⟨_, rfl, rfl⟩, rfl⟩
    | orderFindOneAndUpdate id src dst reason =>
      obtain ⟨-, rfl, ⟨rfl, rfl⟩ | ⟨rfl, rfl⟩⟩ := hready
      · exact ⟨⟨_, rfl, rfl⟩, rfl⟩
      · rcases out with e | (_ | d) <;> cases hstage
    | incrby key n =>
      obtain ⟨d, rfl, -, -⟩ := hready
      rcases out with e | r <;> cases hstage
    | moveToCompleted j => cases hstage
    | moveToFailed j =>
      rcases out with e | (_ | n)
      · cases hstage
      · cases hstage
      · simp only [Stage.move] at hstage
        split at hstage <;> cases hstage
    | orderCreate inp => exact absurd hready id
    | _ => exact ⟨hkept rfl, rfl⟩

end Delivery
end Flashkart
