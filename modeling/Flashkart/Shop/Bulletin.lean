import Flashkart.Shop.Announce
import Flashkart.Shop.Chain
import Flashkart.Shop.Told

/-!
# Shop.Bulletin

The order events when all is done. `Shop.Announce` shows that no event is out of its order, and
`Shop.Told` that each is true; here it is that none is missing. A handler that has moved an order
owes it an event, and pays it if no call of its fails in between.

* `Herald`        — the order of a request, and the status it has moved it to and not announced.
* `announces`     — what has to go well.
* `all_announced` — when all requests have ended, every step of every order has been announced.
-/

namespace Flashkart

open Async

/-- The order that a request is about, if it moves one. -/
def ShopReq.order : ShopReq → String
  | .deliver _ _ oid | .compensate oid _ => oid
  | _ => ""

structure Herald where
  order : String
  owed : Option OrderStatus

namespace Herald

def post : (op : ShopOp) → Except Err op.Ret → Herald → Herald
  | .orderFindOneAndUpdate _ _ dst _, .ok (some _), l => { l with owed := some dst }
  | .publishOrder _, .ok _, l => { l with owed := none }
  | _, .ok _, l => l
  | _, .error _, l => { l with owed := none }

/-- An event is of the request's order and says what is owed, and then the order can move on. -/
def ready (l : Herald) : apiSig.Op → Prop
  | .inr (.orderFindOneAndUpdate id ..) => id = l.order ∧ l.owed = none
  | .inr (.publishOrder ev) => ev.orderId = l.order ∧ l.owed = some ev.status
  | _ => True

variable {l : Herald} {oid : String}

abbrev Brings {α : Type} (p : ShopProg α) (l : Herald) (Q : Except Err α → Herald → Prop) : Prop :=
  Follows (fun l (op : shopSig.Op) => ready l (.inr op)) (fun e => post e.op e.out) p l Q

/-- Nothing is owed. -/
def Done (oid : String) {α : Type} (_ : Except Err α) (l : Herald) : Prop :=
  l.order = oid ∧ l.owed = none

/-- The calls that neither move an order nor publish an order event. -/
def silent : ShopOp → Bool
  | .orderFindOneAndUpdate .. | .publishOrder _ => false
  | _ => true

theorem post_ok {op : ShopOp} {a : op.Ret} (hop : silent op = true) : post op (.ok a) l = l := by
  cases op with
  | orderFindOneAndUpdate id src dst reason => cases hop
  | publishOrder ev => cases hop
  | _ => rfl

/-- Whoever fails owes nothing any more. -/
theorem post_error {op : ShopOp} {e : Err} : post op (.error e) l = { l with owed := none } := by
  cases op <;> rfl

theorem post_order {op : ShopOp} {out : Except Err op.Ret} : (post op out l).order = l.order := by
  cases out with
  | error e => rw [post_error]
  | ok a =>
    cases op with
    | orderFindOneAndUpdate id src dst reason => cases a <;> rfl
    | _ => rfl

theorem post_fixed {op : ShopOp} {out : Except Err op.Ret} (hop : silent op = true)
    (hl : l.owed = none) : post op out l = l := by
  cases out with
  | ok a => exact post_ok hop
  | error e =>
    rw [post_error]
    exact congrArg (Herald.mk l.order) hl.symm

theorem brings_silent {α : Type} {p : ShopProg α} (h : p.Calls fun op => silent op = true)
    (hl : l.order = oid ∧ l.owed = none) : Brings p l (Done oid) := by
  refine (Follows.of_fixed (h.mono fun op hop => ?_)).mono fun out l' heq => heq ▸ hl
  refine ⟨?_, fun time out => post_fixed hop hl.2⟩
  cases op with
  | orderFindOneAndUpdate id src dst reason => cases hop
  | publishOrder ev => cases hop
  | _ => trivial

/-- A silent call, whatever is owed. -/
theorem brings_step {α : Type} {op : ShopOp} {f : op.Ret → ShopProg α} (hop : silent op = true)
    (hl : l.order = oid) (h : ∀ a, Brings (f a) l (Done oid)) :
    Brings (op.call.bind f) l (Done oid) := by
  have hready : ready l (.inr op) := by
    cases op with
    | orderFindOneAndUpdate id src dst reason => cases hop
    | publishOrder ev => cases hop
    | _ => trivial
  refine follows_bind.mpr (follows_op.mpr ⟨hready, fun _ out => ?_⟩)
  cases out with
  | error e => exact ⟨post_order.trans hl, congrArg owed post_error⟩
  | ok a =>
    show Brings (f a) (post op (.ok a) l) (Done oid)
    rw [post_ok hop]
    exact h a

theorem brings_publish {d : OrderDoc} {s : OrderStatus} (hl : l.order = oid ∧ l.owed = some s) :
    Brings (publish oid d s) l (Done oid) := by
  refine brings_step rfl hl.1 fun ts => follows_op.mpr ⟨⟨hl.1.symm, hl.2⟩, fun _ out => ?_⟩
  cases out with
  | error e => exact ⟨post_order.trans hl.1, congrArg owed post_error⟩
  | ok u => exact ⟨hl.1, rfl⟩

/-- An update, and what follows for the order that it has moved. -/
theorem brings_update {α : Type} {src dst : OrderStatus} {reason : Option String}
    {f : Option OrderDoc → ShopProg α} (hl : l.order = oid ∧ l.owed = none)
    (hnone : Brings (f none) l (Done oid))
    (hsome : ∀ d l', l'.order = oid ∧ l'.owed = some dst → Brings (f (some d)) l' (Done oid)) :
    Brings ((ShopOp.orderFindOneAndUpdate oid src dst reason).call.bind f) l (Done oid) := by
  refine follows_bind.mpr (follows_op.mpr ⟨⟨hl.1.symm, hl.2⟩, fun _ out => ?_⟩)
  rcases out with e | (_ | d)
  · exact ⟨post_order.trans hl.1, congrArg owed post_error⟩
  · exact hnone
  · exact hsome d _ ⟨hl.1, rfl⟩

theorem brings_advance {src dst : OrderStatus} {enqueue : ShopProg Unit}
    (h : enqueue.Calls fun op => silent op = true) (hl : l.order = oid ∧ l.owed = none) :
    Brings (advance oid src dst enqueue) l (Done oid) := by
  refine brings_update hl hl fun d l' hl' => ?_
  refine follows_bind.mpr ((brings_publish hl').mono ?_)
  rintro (e | u) l₁ hl₁
  · exact hl₁
  · exact brings_silent h hl₁

theorem brings_handler (q : QueueName) (hl : l.order = oid ∧ l.owed = none) :
    Brings (handler q oid) l (Done oid) := by
  cases q with
  | ordersProcess =>
    refine brings_step rfl hl.1 fun order => ?_
    cases order with
    | none => exact hl
    | some d =>
      dsimp only
      split
      · exact hl
      · refine brings_step rfl hl.1 fun _ => brings_step rfl hl.1 fun _ => ?_
        exact brings_advance ((Prog.calls_op _).mpr rfl) hl
  | ordersFulfill =>
    refine brings_step rfl hl.1 fun order => ?_
    cases order with
    | none => exact hl
    | some d =>
      dsimp only
      split
      · exact hl
      · exact brings_advance ((Prog.calls_op _).mpr rfl) hl
  | ordersNotify =>
    refine brings_step rfl hl.1 fun order => ?_
    cases order with
    | none => exact hl
    | some d =>
      dsimp only
      split
      · exact hl
      · exact brings_advance (by trivial) hl

theorem brings_compensate (reason : String) (hl : l.order = oid ∧ l.owed = none) :
    Brings (compensatePayment oid reason) l (Done oid) := by
  refine brings_update hl hl fun d l' hl' => ?_
  refine brings_step rfl hl'.1 fun _ => brings_step rfl hl'.1 fun _ => ?_
  exact brings_step rfl hl'.1 fun _ => brings_publish hl'

theorem brings_runJob (job : Nat) (q : QueueName) (hl : l.order = oid ∧ l.owed = none) :
    Brings (runJob job q oid) l (Done oid) := by
  rw [runJob_eq]
  refine follows_bind.mpr (follows_tryCatch.mpr (follows_bind.mpr ((brings_handler q hl).mono ?_)))
  rintro (err | u) l₁ hl₁
  · refine brings_step rfl hl₁.1 fun attemptsMade => ?_
    unfold onFailed
    split
    · split
      · exact hl₁
      · refine follows_tryCatch.mpr ((brings_compensate _ hl₁).mono ?_)
        rintro (e | u) l₂ hl₂
        · exact hl₂
        · exact hl₂
    · exact hl₁
  · exact brings_silent ((Prog.calls_op _).mpr rfl) hl₁

theorem silent_of_may {r : ShopReq} (hjob : ∀ j q oid, r ≠ .deliver j q oid)
    (hcomp : ∀ oid reason, r ≠ .compensate oid reason) {op : ShopOp} (h : r.may op = true) :
    silent op = true := by
  cases r with
  | deliver j q oid => exact absurd rfl (hjob j q oid)
  | compensate oid reason => exact absurd rfl (hcomp oid reason)
  | _ => cases op <;> first | rfl | cases h

theorem follows_request (r : ShopReq) :
    Follows ready (shopPost post) (shopProg r) ⟨r.order, none⟩ (Done r.order) := by
  by_cases hjob : ∃ j q oid, r = .deliver j q oid
  · obtain ⟨j, q, oid, rfl⟩ := hjob
    have hrun := brings_runJob (l := ⟨oid, none⟩) j q ⟨rfl, rfl⟩
    refine follows_bind.mpr (follows_inr.mpr (hrun.mono ?_))
    rintro (e | u) l hl
    · exact hl
    · exact hl
  by_cases hcomp : ∃ oid reason, r = .compensate oid reason
  · obtain ⟨oid, reason, rfl⟩ := hcomp
    have hrun := brings_compensate (l := ⟨oid, none⟩) reason ⟨rfl, rfl⟩
    refine follows_bind.mpr (follows_inr.mpr (hrun.mono ?_))
    rintro (e | u) l hl
    · exact hl
    · exact hl
  refine (Follows.of_fixed ((calls_shopProg r).mono ?_)).mono fun out l heq => heq ▸ ⟨rfl, rfl⟩
  rintro (k | op) hop
  · exact ⟨trivial, fun _ _ => rfl⟩
  · have hsilent := silent_of_may (fun j q oid h => hjob ⟨j, q, oid, h⟩)
      (fun oid reason h => hcomp ⟨oid, reason, h⟩) hop
    refine ⟨?_, fun _ _ => post_fixed hsilent rfl⟩
    cases op with
    | orderFindOneAndUpdate id src dst reason => cases hsilent
    | publishOrder ev => cases hsilent
    | _ => trivial

end Herald

/-- What a thread owes. -/
def herald (t : ShopThread) : Herald :=
  t.account (shopPost Herald.post) fun _ r => ⟨r.order, none⟩

/-- No answer of an update of an order is lost, and no call of a request that owes an event
fails. -/
def announces (c : ShopConfig) : ShopAct → Bool
  | .call i (.failed _) => (c.pool[i]?).all fun t => (herald t).owed.isNone
  | .call i (.lost ..) => (c.pool[i]?).all fun t => (herald t).owed.isNone &&
    match t.prog.next with
    | some (.inr (.orderFindOneAndUpdate ..)) => false
    | _ => true
  | _ => true

/-! ## One call -/

section Call

variable {now i : Nat} {op : ShopOp} {f : Fate Err Pick} {w w' : Shop} {out : Except Err op.Ret}
  {l : Herald} {o : ObjectId}

/-- The request owes the order its event. -/
def Herald.Owes (l : Herald) (o : ObjectId) : Prop := l.owed ≠ none ∧ castObjectId l.order = some o

/-- What the call of a request leaves of the announcements of an order: all is announced, or it owes
an event, or nothing has changed and it owes the order nothing. -/
theorem told_call (hn : w.OrderIds) (hj : w.Justifies op) (hready : Herald.ready l (.inr op))
    (hpaid : f.isAnswered = true ∨ l.owed = none)
    (hkept : ∀ id src dst reason, op = .orderFindOneAndUpdate id src dst reason →
      ∀ e q, f ≠ .lost e q)
    (hbehind : w.announced o <+: milestones (w.status o))
    (howes : ∀ s, l.owed = some s → castObjectId l.order = some o →
      w.status o = some s ∧ w.announced o ++ [s] = milestones (some s))
    (hx : shopStore.exec now i op f w = some (out, w')) :
    w'.announced o = milestones (w'.status o) ∨ (Herald.post op out l).Owes o ∨
      (w'.announced o = w.announced o ∧ w'.status o = w.status o ∧ ¬l.Owes o) := by
  have hok : l.owed ≠ none → ∃ a, out = .ok a := by
    intro hne
    cases f with
    | failed e => exact absurd (hpaid.resolve_left (fun h => by cases h)) hne
    | lost e q => exact absurd (hpaid.resolve_left (fun h => by cases h)) hne
    | answered q =>
      obtain ⟨⟨a, v⟩, -, hx⟩ := Option.map_eq_some_iff.mp hx
      cases hx
      exact ⟨a, rfl⟩
  -- a call that is silent, and does not touch the order
  have hsame : Herald.silent op = true → w'.announced o = w.announced o →
      w'.status o = w.status o → w'.announced o = milestones (w'.status o) ∨
        (Herald.post op out l).Owes o ∨
          (w'.announced o = w.announced o ∧ w'.status o = w.status o ∧ ¬l.Owes o) := by
    intro hsilent hann hstatus
    by_cases hl : l.Owes o
    · obtain ⟨a, rfl⟩ := hok hl.1
      exact .inr (.inl (by rw [Herald.post_ok hsilent]; exact hl))
    · exact .inr (.inr ⟨hann, hstatus, hl⟩)
  have hchannel : op.writes ≠ .orderChannel → w'.announced o = w.announced o := fun hw => by
    rw [Shop.announced, (exec_same hx).orderChannel hw, Shop.announced]
  cases op with
  | orderFindOneAndUpdate id src dst reason =>
    obtain ⟨rfl, hnone⟩ := hready
    have hann := hchannel fun he => by cases he
    rcases status_update hn hx o with ⟨hstatus, -⟩ | ⟨hid, hf, hne, -, -⟩
    · exact .inr (.inr ⟨hann, hstatus, fun hl => hl.1 hnone⟩)
    · refine .inr (.inl ?_)
      obtain ⟨d, rfl⟩ : ∃ d, out = .ok (some d) := by
        cases f with
        | failed e => cases hf
        | lost e q => exact absurd rfl (hkept _ _ _ _ rfl e q)
        | answered q =>
          obtain ⟨⟨a, v⟩, -, hx⟩ := Option.map_eq_some_iff.mp hx
          cases hx
          cases a with
          | none => exact absurd rfl hne
          | some d => exact ⟨d, rfl⟩
      exact ⟨(fun he => by cases he), hid⟩
  | publishOrder ev =>
    obtain ⟨hid, hev⟩ := hready
    have hstatus : w'.status o = w.status o := by
      rw [Shop.status, (exec_same hx).orders (fun he => by cases he), Shop.status]
    have hne : l.owed ≠ none := by
      rw [hev]
      exact fun he => by cases he
    obtain ⟨u, rfl⟩ := hok hne
    have hs : w' = { w with orderChannel := w.orderChannel ++ [ev] } := by
      rcases Store.exec_cases hx with ⟨q, a, -, hs, -⟩ | ⟨e, -, -, he⟩ | ⟨e, q, a, -, -, he⟩
      · cases hs
        rfl
      · cases he
      · cases he
    subst hs
    by_cases ho : castObjectId ev.orderId = some o
    · obtain ⟨hs, hall⟩ := howes _ hev (hid ▸ ho)
      refine .inl ?_
      rw [announced_publish, if_pos ho, hall, hstatus, hs]
    · refine .inr (.inr ⟨announced_publish.trans (if_neg ho), hstatus, fun hl => ho ?_⟩)
      rw [hid]
      exact hl.2
  | orderCreate inp =>
    have hann := hchannel fun he => by cases he
    rcases Store.exec_effect hx with ⟨-, q, a, hs, -⟩ | ⟨-, rfl, -⟩
    · obtain ⟨hnone, hstatus⟩ := status_orderCreate hs
      by_cases ho : o = a
      · subst ho
        rw [hnone] at hbehind
        have hpending : inp.status = .pending := hj
        refine .inl ?_
        rw [hann, hstatus, Function.update_self, hpending]
        exact List.prefix_nil.mp hbehind
      · exact hsame rfl hann (by rw [hstatus, Function.update_of_ne ho])
    · exact hsame rfl rfl rfl
  | _ =>
    refine hsame rfl (hchannel fun he => by cases he) ?_
    rcases Store.exec_effect hx with ⟨-, q, a, hs, -⟩ | ⟨-, rfl, -⟩
    · rw [status_other rfl hs]
    · rfl

end Call

/-! ## Runs -/

/-- The account that `Shop.Announce` keeps of the thread. -/
def announcePhase (o : ObjectId) (t : ShopThread) : Announce.Phase :=
  t.account (shopPost (Announce.post o)) fun _ _ => .idle

theorem phase_post {op : ShopOp} {out : Except Err op.Ret} {l : Herald} {p : Announce.Phase}
    {o : ObjectId} (hready : Herald.ready l (.inr op))
    (h : castObjectId l.order = some o → ∀ s, l.owed = some s → p = .toPublish s)
    (ho : castObjectId (Herald.post op out l).order = some o) {s : OrderStatus}
    (hs : (Herald.post op out l).owed = some s) : Announce.post o op out p = .toPublish s := by
  rw [Herald.post_order] at ho
  cases out with
  | error e =>
    rw [Herald.post_error] at hs
    cases hs
  | ok a =>
    cases op with
    | orderFindOneAndUpdate id src dst reason =>
      obtain ⟨rfl, hnone⟩ := hready
      cases a with
      | none =>
        have hs : l.owed = some s := hs
        rw [hnone] at hs
        cases hs
      | some d =>
        obtain rfl := Option.some.inj hs
        exact if_pos ho
    | publishOrder ev => cases hs
    | _ => exact h ho s hs

section Runs

variable {ok : System.Guard apiSig Err ShopReq ShopRes (IdemKv × Shop) Pick ShopEnv} {n : Nat}
  {catalog : ObjectId → Option ProductDoc} {c c' : ShopConfig} {o : ObjectId} {s : OrderStatus}

/-- What is owed is what is still to be published. -/
theorem phase_of_owed (h : shopSystem.Reachable ok (freshShop n catalog) c) :
    ∀ t ∈ c.pool, castObjectId (herald t).order = some o → ∀ s, (herald t).owed = some s →
      announcePhase o t = .toPublish s := by
  refine h.invariant (I := fun c => ∀ t ∈ c.pool, castObjectId (herald t).order = some o →
    ∀ s, (herald t).owed = some s → announcePhase o t = .toPublish s) (fun t ht => by cases ht) ?_
  intro c a c' hr ih _ hs t ht
  cases a with
  | arrive r =>
    obtain ⟨w', -, rfl⟩ := Option.map_eq_some_iff.mp hs
    rcases List.mem_append.mp ht with ht | ht
    · exact ih t ht
    · rw [List.mem_singleton.mp ht]
      exact fun _ s he => by cases he
  | call i f =>
    obtain ⟨id, r, op, k, tr, out, w', hp, -, rfl⟩ := System.callStep_eq_some hs
    have hmem := List.mem_of_getElem? hp
    rcases List.mem_or_eq_of_mem_set ht with ht | rfl
    · exact ih t ht
    · have hfollows : Follows Herald.ready (shopPost Herald.post) (.call op k)
          (herald ⟨id, r, .call op k, tr⟩) (Herald.Done r.order) :=
        hr.follows rfl (fun _ r => Herald.follows_request r) _ hmem
      cases op with
      | inl key =>
        have hold := ih _ hmem
        exact fun ho s hs => hold ho s hs
      | inr op => exact fun ho s hs => phase_post hfollows.1 (ih _ hmem) ho hs
  | tick d => cases hs; exact ih t ht
  | env e =>
    obtain ⟨w', -, rfl⟩ := Option.map_eq_some_iff.mp hs
    exact ih t ht

/-- Who owes an order its event is the only one, and no other is missing. -/
theorem missing_one (h : shopSystem.Reachable ok (freshShop n catalog) c) {t : ShopThread}
    (ht : t ∈ c.pool) (ho : castObjectId (herald t).order = some o)
    (hs : (herald t).owed = some s) : c.world.2.status o = some s ∧
      c.world.2.announced o ++ [s] = milestones (some s) := by
  obtain ⟨i, hi⟩ := List.getElem?_of_mem ht
  have hinv : Announce.Inv o c.world.2
      (System.worth (Announce.logic o) (fun _ _ => .idle) c.pool) :=
    ((Announce.outline ok n catalog o).adequate h).1
  have hphase := phase_of_owed h t ht ho s hs
  have hone : 1 ≤ System.worth (Announce.logic o) (fun _ _ => .idle) c.pool (.toPublish s) := by
    have hval : (Announce.logic o).val (announcePhase o t) (.toPublish s) = 1 := by
      rw [hphase]
      exact Pi.single_eq_same _ _
    rw [System.worth_split hi]
    show 1 ≤ (Announce.logic o).val (announcePhase o t) (.toPublish s) + _
    rw [hval]
    exact Nat.le_add_right _ _
  exact (hinv.publishing s hone).2

/-- A step that has no order announced less than before. -/
theorem told_step (h : shopSystem.Reachable ok (freshShop n catalog) c)
    (ih : ∀ o, c.world.2.announced o = milestones (c.world.2.status o) ∨
      ∃ t ∈ c.pool, (herald t).Owes o) {a : ShopAct} (hok : announces c a = true)
    (hs : shopSystem.step c a = some c') (o : ObjectId) :
    c'.world.2.announced o = milestones (c'.world.2.status o) ∨
      ∃ t ∈ c'.pool, (herald t).Owes o := by
  have hstill : c'.world.2.orders = c.world.2.orders →
      c'.world.2.orderChannel = c.world.2.orderChannel →
      (∀ t ∈ c.pool, (herald t).Owes o → ∃ t ∈ c'.pool, (herald t).Owes o) →
      c'.world.2.announced o = milestones (c'.world.2.status o) ∨
        ∃ t ∈ c'.pool, (herald t).Owes o := by
    intro horders hchannel hpool
    rcases ih o with hall | ⟨t, ht, howes⟩
    · left
      rw [Shop.announced, hchannel, Shop.status, horders]
      exact hall
    · exact .inr (hpool t ht howes)
  cases a with
  | arrive r =>
    obtain ⟨w', hw, rfl⟩ := Option.map_eq_some_iff.mp hs
    have hsame := (accept_same hw).2
    exact hstill (hsame.orders fun he => by cases he) (hsame.orderChannel fun he => by cases he)
      fun t ht howes => ⟨t, List.mem_append_left _ ht, howes⟩
  | call i f =>
    obtain ⟨id, r, op, k, tr, out, w', hp, hx, rfl⟩ := System.callStep_eq_some hs
    have hmem := List.mem_of_getElem? hp
    have hlt := (List.getElem?_eq_some_iff.mp hp).1
    have hnew : ⟨id, r, k out, ⟨c.now, op, out⟩ :: tr⟩ ∈
        c.pool.set i ⟨id, r, k out, ⟨c.now, op, out⟩ :: tr⟩ :=
      List.mem_of_getElem? (List.getElem?_set_self hlt)
    -- everybody but the caller is still there
    have hothers : ¬(herald ⟨id, r, .call op k, tr⟩).Owes o → ∀ t ∈ c.pool, (herald t).Owes o →
        ∃ t ∈ c.pool.set i ⟨id, r, k out, ⟨c.now, op, out⟩ :: tr⟩, (herald t).Owes o := by
      intro hnot t ht howes
      obtain ⟨m, hm⟩ := List.getElem?_of_mem ht
      have him : i ≠ m := by
        rintro rfl
        obtain rfl := Option.some.inj (hp.symm.trans hm)
        exact hnot howes
      exact ⟨t, List.mem_of_getElem? (by rw [List.getElem?_set_ne him, hm]), howes⟩
    cases op with
    | inl key =>
      have hsame : w'.2 = c.world.2 := exec_inl (o := key) hx
      refine hstill (congrArg Shop.orders hsame) (congrArg Shop.orderChannel hsame) ?_
      intro t ht howes
      by_cases hcaller : (herald ⟨id, r, .call (.inl key) k, tr⟩).Owes o
      · exact ⟨_, hnew, hcaller⟩
      · exact hothers hcaller t ht howes
    | inr op =>
      have hfollows : Follows Herald.ready (shopPost Herald.post) (.call (.inr op) k)
          (herald ⟨id, r, .call (.inr op) k, tr⟩) (Herald.Done r.order) :=
        h.follows rfl (fun _ r => Herald.follows_request r) _ hmem
      have hinv : Announce.Inv o c.world.2 _ := ((Announce.outline ok n catalog o).adequate h).1
      have hpaid : f.isAnswered = true ∨ (herald ⟨id, r, .call (.inr op) k, tr⟩).owed = none := by
        cases f with
        | answered q => exact .inl rfl
        | failed e =>
          simp only [announces, hp, Option.all_some] at hok
          exact .inr (Option.isNone_iff_eq_none.mp hok)
        | lost e q =>
          simp only [announces, hp, Option.all_some, Bool.and_eq_true] at hok
          exact .inr (Option.isNone_iff_eq_none.mp hok.1)
      have hkept : ∀ id' src dst reason, op = .orderFindOneAndUpdate id' src dst reason →
          ∀ e q, f ≠ .lost e q := by
        rintro id' src dst reason rfl e q rfl
        simp [announces, hp, Prog.next] at hok
      rcases told_call (orderIds_reachable h) (justified h hmem rfl) hfollows.1 hpaid hkept
        hinv.behind (fun s hs ho => missing_one h hmem ho hs) (exec_inr (o := op) hx).1 with
        hall | howes | ⟨hann, hstatus, hnot⟩
      · exact .inl hall
      · exact .inr ⟨_, hnew, howes⟩
      · rcases ih o with hall | ⟨t, ht, howes⟩
        · exact .inl (hann.trans (hall.trans (congrArg milestones hstatus.symm)))
        · exact .inr (hothers hnot t ht howes)
  | tick d => cases hs; exact ih o
  | env e =>
    obtain ⟨w', hw, rfl⟩ := Option.map_eq_some_iff.mp hs
    obtain ⟨s, he, rfl⟩ := Option.map_eq_some_iff.mp hw
    have hsame := (surroundings_same he).1
    exact hstill hsame.orders hsame.orderChannel fun t ht howes => ⟨t, ht, howes⟩

/-- What is not announced is owed, in every state. -/
theorem announced_or_owed
    (h : shopSystem.Reachable (fun c a => announces c a = true) (freshShop n catalog) c) :
    ∀ o, c.world.2.announced o = milestones (c.world.2.status o) ∨
      ∃ t ∈ c.pool, (herald t).Owes o := by
  induction h with
  | init => exact fun o => .inl rfl
  | step hr hok hs ih => exact fun o => told_step hr ih hok hs o

/-- When all requests have ended nothing is owed. -/
theorem not_owed (h : shopSystem.Reachable ok (freshShop n catalog) c) (hquiet : c.Quiet) :
    ∀ t ∈ c.pool, ¬(herald t).Owes o := by
  rintro t ht ⟨hne, -⟩
  have hfollows := h.follows rfl (fun _ r => Herald.follows_request r) t ht
  cases hp : t.prog with
  | ret a => rw [hp] at hfollows; exact hne hfollows.2
  | throw e => rw [hp] at hfollows; exact hne hfollows.2
  | call op k => exact hquiet t ht (by rw [hp]; rfl)

/-- **All is announced.** In a run in which no answer of an update of an order is lost, and no call
fails between an update and its event, every step of every order has been announced once all
requests have ended; whatever else fails, and however often a job is delivered. -/
theorem all_announced
    (h : shopSystem.Reachable (fun c a => announces c a = true) (freshShop n catalog) c)
    (hquiet : c.Quiet) (o : ObjectId) :
    c.world.2.announced o = milestones (c.world.2.status o) :=
  (announced_or_owed h o).resolve_right fun ⟨t, ht, howes⟩ => not_owed h hquiet t ht howes

end Runs

/-! ## Whose events -/

theorem herald_order (t : ShopThread) : (herald t).order = t.req.order := by
  obtain ⟨id, r, p, tr⟩ := t
  induction tr with
  | nil => rfl
  | cons e tr ih =>
    obtain ⟨time, op | op, out⟩ := e
    · exact ih
    · exact Herald.post_order.trans ih

/-- What is compensated is the order of a job: the job that has failed for good. -/
def ofJobs (c : ShopConfig) : ShopAct → Bool
  | .arrive (.compensate oid _) => c.world.2.jobKeys.any fun key => key.2 = oid
  | _ => true

section Runs

variable {ok : System.Guard apiSig Err ShopReq ShopRes (IdemKv × Shop) Pick ShopEnv} {n : Nat}
  {catalog : ObjectId → Option ProductDoc} {c c' : ShopConfig}

theorem jobKeys_step {a : ShopAct} (h : shopSystem.step c a = some c') :
    c.world.2.jobKeys <+: c'.world.2.jobKeys := by
  cases a with
  | arrive r =>
    obtain ⟨w', hw, rfl⟩ := Option.map_eq_some_iff.mp h
    exact (jobKeys_accept hw).1 ▸ List.prefix_rfl
  | call i f =>
    obtain ⟨id, r, op, k, tr, out, w', -, hx, rfl⟩ := System.callStep_eq_some h
    rcases call_effect hx with heq | ⟨op, q, a, -, hs⟩
    · exact heq ▸ List.prefix_rfl
    · exact jobKeys_store hs
  | tick d => cases h; exact List.prefix_rfl
  | env e =>
    obtain ⟨w', hw, rfl⟩ := Option.map_eq_some_iff.mp h
    obtain ⟨s, he, rfl⟩ := Option.map_eq_some_iff.mp hw
    exact jobKeys_surroundings he ▸ List.prefix_rfl

/-- An event has its order's id from the request that has published it. -/
theorem event_from (h : shopSystem.Reachable ok (freshShop n catalog) c) :
    ∀ ev ∈ c.world.2.orderChannel, ∃ t ∈ c.pool, ev.orderId = t.req.order := by
  refine h.invariant (I := fun c => ∀ ev ∈ c.world.2.orderChannel, ∃ t ∈ c.pool,
    ev.orderId = t.req.order) (fun ev hev => by cases hev) ?_
  intro c a c' hr ih hok hs ev hev
  have hold : ev ∈ c.world.2.orderChannel → ∃ t ∈ c'.pool, ev.orderId = t.req.order := by
    intro hev
    obtain ⟨t, ht, horder⟩ := ih ev hev
    obtain ⟨i, hi⟩ := List.getElem?_of_mem ht
    obtain ⟨t', ht', hreq, -⟩ := ((System.Reachable.step .init hok hs).later.2 i).1 t hi
    exact ⟨t', List.mem_of_getElem? ht', hreq ▸ horder⟩
  cases a with
  | arrive r =>
    refine hold ?_
    obtain ⟨w', hw, rfl⟩ := Option.map_eq_some_iff.mp hs
    exact (accept_same hw).2.orderChannel (fun he => by cases he) ▸ hev
  | call i f =>
    obtain ⟨id, r, op, k, tr, out, w', hp, hx, rfl⟩ := System.callStep_eq_some hs
    rcases call_effect hx with heq | ⟨op, q, a, rfl, h'⟩
    · exact hold (congrArg Shop.orderChannel heq ▸ hev)
    · rcases event_store h' hev with hev | rfl
      · exact hold hev
      · have hmem := List.mem_of_getElem? hp
        have hfollows : Follows Herald.ready (shopPost Herald.post) (.call _ k) (herald _)
            (Herald.Done r.order) := hr.follows rfl (fun _ r => Herald.follows_request r) _ hmem
        have hlt := (List.getElem?_eq_some_iff.mp hp).1
        exact ⟨_, List.mem_of_getElem? (List.getElem?_set_self hlt),
          hfollows.1.1.trans (herald_order _)⟩
  | tick d =>
    refine hold ?_
    cases hs
    exact hev
  | env e =>
    refine hold ?_
    obtain ⟨w', hw, rfl⟩ := Option.map_eq_some_iff.mp hs
    obtain ⟨s, he, rfl⟩ := Option.map_eq_some_iff.mp hw
    exact (surroundings_same he).1.orderChannel ▸ hev

theorem compensated_added
    (h : shopSystem.Reachable (fun c a => ofJobs c a = true) (freshShop n catalog) c) :
    ∀ t ∈ c.pool, ∀ oid reason, t.req = .compensate oid reason →
      ∃ q, (q, oid) ∈ c.world.2.jobKeys := by
  have harrived := h.arrived (K := fun r w => ∀ oid reason, r = .compensate oid reason →
    ∃ q, (q, oid) ∈ w.2.jobKeys) rfl ?_ ?_
  · exact fun t ht oid reason hreq => harrived t ht oid reason hreq
  · rintro c r c' hok hs oid reason rfl
    obtain ⟨key, hkey, hoid⟩ := List.any_eq_true.mp hok
    obtain rfl := of_decide_eq_true hoid
    exact ⟨key.1, (jobKeys_step hs).subset hkey⟩
  · intro c a c' r _ hs hr oid reason hreq
    obtain ⟨q, hq⟩ := hr oid reason hreq
    exact ⟨q, (jobKeys_step hs).subset hq⟩

/-- The event of an order spells its id as the page has it. -/
theorem event_canonical
    (h : shopSystem.Reachable (fun c a => ofJobs c a = true) (freshShop n catalog) c) :
    ∀ ev ∈ c.world.2.orderChannel, ∃ o : ObjectId, ev.orderId = o.toString := by
  intro ev hev
  have hcanonical := ((Chain.outline _ n catalog idA).adequate h).1.canonical
  obtain ⟨t, ht, horder⟩ := event_from h ev hev
  obtain ⟨-, user, -, o, d, ho, -⟩ := (told_reachable h).2 ev hev
  cases hreq : t.req with
  | deliver j q oid =>
    rw [hreq] at horder
    exact horder ▸ hcanonical q oid (delivered_added h t ht j q oid hreq)
  | compensate oid reason =>
    rw [hreq] at horder
    obtain ⟨q, hq⟩ := compensated_added h t ht oid reason hreq
    exact horder ▸ hcanonical q oid hq
  | _ =>
    rw [hreq] at horder
    rw [horder] at ho
    cases ho

end Runs

/-- The first delivery of the job fails, and the second pays: the one event is there. -/
theorem all_announced_paid :
    ∃ c, shopSystem.Reachable (fun c a => announces c a = true) (freshShop 0 (oneProduct 1)) c ∧
      c.Quiet ∧ c.world.2.status idB = some .paid ∧ c.world.2.announced idB = [.paid] := by
  have hrun : (shopSystem.run announces (freshShop 0 (oneProduct 1)) (orderPlaced ++
      .arrive (.deliver 0 .ordersProcess idB.toString) :: .call 1 (.failed (.error "lost")) ::
      callsOf 1 1 idB ++ .env (.promote 0) ::
      .arrive (.deliver 0 .ordersProcess idB.toString) :: callsOf 2 8 idB)).map (fun c =>
        (c.world.2.status idB, c.pool.all fun t => t.prog.result.isSome)) =
      some (some .paid, true) := by decide
  obtain ⟨c, hc, hs⟩ := Option.map_eq_some_iff.mp hrun
  obtain ⟨hstatus, hended⟩ := Prod.mk.inj hs
  have hr := System.Reachable.of_run hc
  have hquiet : c.Quiet := fun t ht =>
    Option.isSome_iff_ne_none.mp (List.all_eq_true.mp hended t ht)
  have hall := all_announced hr hquiet idB
  rw [hstatus] at hall
  exact ⟨c, hr, hquiet, hstatus, hall⟩

end Flashkart
