import Flashkart.Shop.Listing
import Flashkart.Shop.Progress

/-!
# Shop.Chain

The jobs of an order, over all three queues. A buy adds the process job, and a handler that has
moved the order adds the job of the stage after it. No queue knows of the others, and a job may be
delivered any number of times: what makes it one job a stage is that the order moves once.

* `jobs_in_stages` — in every run, whatever fails, the jobs of an order are those of the stages it
  has opened, each once and in their order, with no gap.
-/

namespace Flashkart

open Async Logic

/-- The queues of the jobs of an order, in the order they were added. -/
def Shop.jobsOf (w : Shop) (o : ObjectId) : List QueueName :=
  (w.jobKeys.filter fun key => castObjectId key.2 = some o).map (·.1)

/-- The queue of the stage that starts from a status. -/
def OrderStatus.opens : OrderStatus → Option QueueName
  | .pending => some .ordersProcess
  | .paid => some .ordersFulfill
  | .fulfilled => some .ordersNotify
  | .confirmed | .failed => none

/-- The stages an order has come to, by its status. -/
def stages : Option OrderStatus → List QueueName
  | none => []
  | some .pending | some .failed => [.ordersProcess]
  | some .paid => [.ordersProcess, .ordersFulfill]
  | some .fulfilled | some .confirmed => [.ordersProcess, .ordersFulfill, .ordersNotify]

theorem stages_initial (s : Option OrderStatus) :
    stages s <+: [.ordersProcess, .ordersFulfill, .ordersNotify] := by
  cases s with
  | none => exact List.nil_prefix
  | some s => cases s <;> simp [stages]

theorem stages_next {s s' : OrderStatus} (h : s.Next s') :
    stages (some s') = stages (some s) ++ s'.opens.toList := by
  cases h <;> rfl

/-- A stage is the last one that the status it starts from has opened. -/
theorem stages_stage {q : QueueName} {src dst : OrderStatus} (h : q.stage = (src, dst)) :
    ∃ before, stages (some src) = before ++ [q] ∧ q ∉ before := by
  cases q <;> cases h
  · exact ⟨[], rfl, by decide⟩
  · exact ⟨[.ordersProcess], rfl, by decide⟩
  · exact ⟨[.ordersProcess, .ordersFulfill], rfl, by decide⟩

section Jobs

variable {w w' : Shop} {o : ObjectId}

theorem jobsOf_congr (h : w'.jobKeys = w.jobKeys) : w'.jobsOf o = w.jobsOf o := by
  rw [Shop.jobsOf, h, Shop.jobsOf]

theorem jobsOf_add {q : QueueName} {p : ObjectId}
    (h : w'.jobKeys = w.jobKeys ++ [(q, p.toString)]) :
    w'.jobsOf o = if p = o then w.jobsOf o ++ [q] else w.jobsOf o := by
  rw [Shop.jobsOf, h, List.filter_append, List.map_append, Shop.jobsOf]
  by_cases hp : p = o
  · simp [hp]
  · simp [hp]

theorem mem_jobsOf {q : QueueName} {oid : String} (h : (q, oid) ∈ w.jobKeys)
    (hid : castObjectId oid = some o) : q ∈ w.jobsOf o :=
  List.mem_map.mpr ⟨(q, oid), List.mem_filter.mpr ⟨h, by simpa using hid⟩, rfl⟩

end Jobs

namespace Chain

/-! ## What the requests do

The account of a request is the job that is due: it has created or moved an order, and not added
the job of the stage that this opens. -/

def post : (op : ShopOp) → Except Err op.Ret → Option (QueueName × ObjectId) →
    Option (QueueName × ObjectId)
  | .orderCreate _, .ok id, _ => some (.ordersProcess, id)
  | .orderFindOneAndUpdate id _ dst _, .ok (some _), _ =>
    dst.opens.bind fun q => (castObjectId id).map fun o => (q, o)
  | .addJob .., _, _ => none
  | _, _, l => l

/-- A job is added when it is due, under the id in its canonical spelling. -/
def ready (l : Option (QueueName × ObjectId)) : apiSig.Op → Prop
  | .inr (.addJob q oid) => ∃ o, l = some (q, o) ∧ oid = o.toString
  | _ => True

/-- The calls that the account does not depend on. -/
def passes : ShopOp → Bool
  | .orderCreate _ | .orderFindOneAndUpdate .. | .addJob .. => false
  | _ => true

variable {o : ObjectId} {l : Option (QueueName × ObjectId)}

theorem fixed_of_passes {op : ShopOp} (h : passes op = true) (l : Option (QueueName × ObjectId)) :
    ready l (.inr op) ∧ ∀ out, post op out l = l := by
  cases op <;> first | exact ⟨trivial, fun _ => rfl⟩ | cases h

/-- The automaton of the requests, as it sees the shop's calls. -/
abbrev Keeps {α : Type} (p : ShopProg α) (l : Option (QueueName × ObjectId)) : Prop :=
  Follows (fun l (op : shopSig.Op) => ready l (.inr op)) (fun e => post e.op e.out) p l
    fun _ _ => True

theorem keeps_of_calls {α : Type} {p : ShopProg α}
    (h : p.Calls fun op : ShopOp => ∀ q oid, op ≠ .addJob q oid) : Keeps p l := by
  refine Follows.of_calls (h.mono fun op hop l => ?_)
  cases op with
  | addJob q oid => exact absurd rfl (hop q oid)
  | _ => trivial

theorem keeps_addJob {q : QueueName} : Keeps (ShopOp.addJob q o.toString).call (some (q, o)) :=
  follows_op.mpr ⟨⟨o, rfl, rfl⟩, fun _ _ => trivial⟩

theorem keeps_doPurchase (uid : ObjectId) (id : String) (qty : Nat) :
    Keeps (doPurchase uid id qty) l := by
  have hpurchase : Keeps (purchase id qty) l := by
    refine keeps_of_calls ((calls_purchase id qty).mono ?_)
    rintro op hop q oid rfl
    cases hop
  exact follows_doPurchase_of (K := fun _ => True) (hpurchase.mono fun _ _ _ _ _ => trivial)
    (fun _ _ => trivial) (fun _ _ _ _ => trivial) (fun _ _ _ oid => ⟨oid, rfl, rfl⟩)

theorem keeps_advance {src dst : OrderStatus} {enqueue : ShopProg Unit}
    (h : Keeps enqueue (dst.opens.map fun q => (q, o))) :
    Keeps (advance o.toString src dst enqueue) l := by
  rw [advance]
  refine follows_bind.mpr (follows_op.mpr ⟨trivial, fun _ out => ?_⟩)
  rcases out with e | (_ | d)
  · trivial
  · trivial
  · have hdue : post (.orderFindOneAndUpdate o.toString src dst none) (.ok (some d)) l =
        dst.opens.map fun q => (q, o) := by
      rw [post, castObjectId_toString]
      cases dst <;> rfl
    dsimp only
    rw [hdue]
    refine follows_bind.mpr ((Follows.of_fixed (calls_publish ?_ fun ev => ?_)).mono ?_)
    · exact ⟨trivial, fun _ _ => rfl⟩
    · exact ⟨trivial, fun _ _ => rfl⟩
    · rintro (e | u) l' rfl
      · trivial
      · exact h

theorem keeps_handler (q : QueueName) (o : ObjectId) : Keeps (handler q o.toString) l := by
  cases q with
  | ordersProcess =>
    refine follows_bind.mpr (follows_op.mpr ⟨trivial, fun _ out => ?_⟩)
    rcases out with e | (_ | d)
    · trivial
    · trivial
    · dsimp only
      split
      · trivial
      · refine follows_bind.mpr (follows_op.mpr ⟨trivial, fun _ out => ?_⟩)
        cases out with
        | error e => trivial
        | ok u =>
          refine follows_bind.mpr (follows_op.mpr ⟨trivial, fun _ out => ?_⟩)
          cases out with
          | error e => trivial
          | ok u => exact keeps_advance keeps_addJob
  | ordersFulfill =>
    refine follows_bind.mpr (follows_op.mpr ⟨trivial, fun _ out => ?_⟩)
    rcases out with e | (_ | d)
    · trivial
    · trivial
    · dsimp only
      split
      · trivial
      · exact keeps_advance keeps_addJob
  | ordersNotify =>
    refine follows_bind.mpr (follows_op.mpr ⟨trivial, fun _ out => ?_⟩)
    rcases out with e | (_ | d)
    · trivial
    · trivial
    · dsimp only
      split
      · trivial
      · exact keeps_advance trivial

theorem keeps_runJob (job : Nat) (q : QueueName) (o : ObjectId) :
    Keeps (runJob job q o.toString) l := by
  have hback : ∀ (reason : String) l', Keeps (compensatePayment o.toString reason) l' := by
    refine fun reason l' => keeps_of_calls ((calls_compensate _ reason).mono ?_)
    rintro op hop queue oid rfl
    cases hop
  rw [runJob_eq]
  refine follows_bind.mpr (follows_tryCatch.mpr (follows_bind.mpr ((keeps_handler q o).mono ?_)))
  rintro (err | u) l₁ -
  · refine follows_bind.mpr (follows_op.mpr ⟨trivial, fun _ out => ?_⟩)
    cases out with
    | error e => trivial
    | ok attemptsMade =>
      dsimp only
      unfold onFailed
      split
      · split
        · trivial
        · refine follows_tryCatch.mpr ((hback _ _).mono ?_)
          rintro (e | u) l' - <;> trivial
      · trivial
  · exact keeps_of_calls (p := (ShopOp.moveToCompleted job).call)
      ((Prog.calls_op _).mpr fun q oid he => by cases he)

theorem not_addJob_of_may {r : ShopReq} (hbuy : ∀ req, r ≠ .postBuy req)
    (hdeliver : ∀ j q oid, r ≠ .deliver j q oid) {op : ShopOp} (h : r.may op = true)
    (q : QueueName) (oid : String) : op ≠ .addJob q oid := by
  rintro rfl
  cases r with
  | postBuy req => exact hbuy _ rfl
  | deliver j q oid => exact hdeliver _ _ _ rfl
  | _ => cases h

/-- A request keeps to the automaton; of a delivery this needs the order's canonical id. -/
theorem follows_request (r : ShopReq)
    (hdeliver : ∀ j q oid, r = .deliver j q oid → ∃ o : ObjectId, oid = o.toString) :
    Follows ready (shopPost post) (shopProg r) l fun _ _ => True := by
  by_cases hbuy : ∃ req, r = .postBuy req
  · obtain ⟨req, rfl⟩ := hbuy
    obtain ⟨qty, hwraps⟩ := wraps_postBuy req
    exact hwraps.follows (fun l k => ⟨trivial, fun _ _ => rfl⟩) (keeps_doPurchase _ _ _)
  by_cases hjob : ∃ j q oid, r = .deliver j q oid
  · obtain ⟨j, q, oid, rfl⟩ := hjob
    obtain ⟨o, rfl⟩ := hdeliver j q oid rfl
    refine follows_bind.mpr (follows_inr.mpr ((keeps_runJob j q o).mono ?_))
    rintro (e | u) l' - <;> trivial
  · refine Follows.of_calls ((calls_shopProg r).mono ?_)
    rintro (k | op) hop l
    · trivial
    · have hother := not_addJob_of_may (fun req h => hbuy ⟨req, h⟩)
        (fun j q oid h => hjob ⟨j, q, oid, h⟩) hop
      cases op with
      | addJob q oid => exact absurd rfl (hother q oid)
      | _ => trivial

/-! ## The jobs of one order -/

def val (o : ObjectId) (l : Option (QueueName × ObjectId)) : QueueName → Nat :=
  fun q => if l = some (q, o) then 1 else 0

/-- With `g q` requests that still have to add the job of the stage `q`. -/
structure Inv (o : ObjectId) (w : Shop) (g : QueueName → Nat) : Prop where
  behind : w.jobsOf o <+: stages (w.status o)
  due : ∀ q, 1 ≤ g q → g q = 1 ∧ w.jobsOf o ++ [q] = stages (w.status o)
  canonical : ∀ q oid, (q, oid) ∈ w.jobKeys → ∃ p : ObjectId, oid = p.toString

/-- A new order is pending, and one that moves goes the step of a stage whose job was added, or
fails. -/
def Directed (w : Shop) : apiSig.Op → Prop
  | .inr (.orderCreate inp) => inp.status = .pending
  | .inr (.orderFindOneAndUpdate id src dst _) =>
    (∃ q, (q, id) ∈ w.jobKeys ∧ q.stage = (src, dst)) ∨ (src = .pending ∧ dst = .failed)
  | _ => True

def logic (o : ObjectId) : ShopLogic (Option (QueueName × ObjectId)) (QueueName → Nat) :=
  shopLogic (fun _ _ _ w op _ => w.OrderIds ∧ Directed w op) (Inv o) post (val o)

variable {i : Nat} {w w' : Shop} {g g' : QueueName → Nat}

theorem Inv.step (h : Inv o w g) (hkeys : w'.jobKeys = w.jobKeys)
    (hstages : stages (w'.status o) = stages (w.status o)) (hg : ∀ q, g' q ≤ g q) :
    Inv o w' g' where
  behind := by rw [jobsOf_congr hkeys, hstages]; exact h.behind
  due := fun q hpos => by
    obtain ⟨hone, hall⟩ := h.due q (hpos.trans (hg q))
    have := hg q
    exact ⟨by omega, by rw [jobsOf_congr hkeys, hstages, hall]⟩
  canonical := by rw [hkeys]; exact h.canonical

/-- When the job of the stage that an order is at was added, no job is due. -/
theorem Inv.settled (h : Inv o w g) {q : QueueName} {id : String} {src dst : OrderStatus}
    (hq : (q, id) ∈ w.jobKeys) (hid : castObjectId id = some o) (hstage : q.stage = (src, dst))
    (hs : w.status o = some src) : w.jobsOf o = stages (some src) ∧ ∀ q', g q' = 0 := by
  obtain ⟨before, hstages, hnew⟩ := stages_stage hstage
  have hbehind := h.behind
  rw [hs, hstages] at hbehind
  have hall : w.jobsOf o = stages (some src) := by
    rcases List.prefix_concat_iff.mp hbehind with heq | hbefore
    · rw [heq, hstages]
    · exact absurd (hbefore.subset (mem_jobsOf hq hid)) hnew
  refine ⟨hall, fun q' => ?_⟩
  by_contra hne
  obtain ⟨-, hdue⟩ := h.due q' (by omega)
  rw [hs, hall] at hdue
  simp at hdue

/-- An order is there, or has moved, and the stage this opens is due at most. -/
theorem Inv.opened (h : Inv o w g) {s : OrderStatus} (hall : w.jobsOf o = stages (w.status o))
    (hkeys : w'.jobKeys = w.jobKeys)
    (hstages : stages (w'.status o) = stages (w.status o) ++ s.opens.toList)
    (hg : ∀ q, 1 ≤ g' q → s.opens = some q ∧ g' q = 1) : Inv o w' g' where
  behind := by
    rw [jobsOf_congr hkeys, hall, hstages]
    exact List.prefix_append _ _
  due := fun q hpos => by
    obtain ⟨hq, hone⟩ := hg q hpos
    refine ⟨hone, ?_⟩
    rw [jobsOf_congr hkeys, hall, hstages, hq, Option.toList_some]
  canonical := by rw [hkeys]; exact h.canonical

theorem call_passes {op : ShopOp} (h : passes op = true) : (logic o).Neutral (.inr op) := by
  intro i l
  refine shop_call fun now w g f out w' hinv hg hx => ?_
  rw [(fixed_of_passes h l).2 out]
  refine ⟨?_, rfl⟩
  rcases Store.exec_effect hx with ⟨-, q, a, hs, -⟩ | ⟨-, rfl, -⟩
  · have hm : op.movesOrders = false := by cases op <;> first | rfl | cases h
    have hstatus := congrFun (status_other hm hs) o
    refine hinv.step (jobKeys_other ?_ hs) (by rw [hstatus]) fun _ => le_rfl
    rintro queue oid rfl
    cases h
  · exact hinv

theorem call_orderCreate {inp : OrderInput} :
    ShopCall (logic o) i l (.orderCreate inp) fun _ _ => True := by
  refine shop_call fun now w g f out w' hinv hg hx => ⟨?_, trivial⟩
  obtain ⟨hn, hpending⟩ : w.OrderIds ∧ inp.status = .pending := hg
  have h : Inv o w (val o l + g) := hinv
  rcases Store.exec_effect hx with ⟨-, q, a, hs, hout⟩ | ⟨-, rfl, e, rfl⟩
  · obtain ⟨hnone, hw'⟩ := status_orderCreate hs
    have hkeys : w'.jobKeys = w.jobKeys := jobKeys_other (fun _ _ he => by cases he) hs
    by_cases ha : a = o
    · -- the order was not there, so it has no job and none was due
      subst ha
      have hbehind := h.behind
      rw [hnone] at hbehind
      have hnojob := List.prefix_nil.mp hbehind
      have hzero : ∀ q, (val a l + g) q = 0 := by
        intro q
        by_contra hne
        obtain ⟨-, hdue⟩ := h.due q (by omega)
        rw [hnone, hnojob] at hdue
        cases hdue
      refine h.opened (s := .pending) (by rw [hnojob, hnone]; rfl) hkeys ?_ fun q hpos => ?_
      · rw [hw', Function.update_self, hnone, hpending]
        rfl
      · have hz := hzero q
        simp only [Pi.add_apply, Nat.add_eq_zero_iff] at hz hpos ⊢
        cases out with
        | error e =>
          have hpos : 1 ≤ val a l q + g q := hpos
          omega
        | ok b =>
          obtain rfl := hout b rfl
          have hpos : 1 ≤ val b (some (.ordersProcess, b)) q + g q := hpos
          show _ ∧ val b (some (.ordersProcess, b)) q + g q = 1
          simp only [val, Option.some.injEq, Prod.mk.injEq, and_true] at hpos ⊢
          split at hpos
          · rename_i hq
            subst hq
            exact ⟨rfl, by rw [if_pos rfl]; omega⟩
          · omega
    · have hstatus : w'.status o = w.status o := by rw [hw', Function.update_of_ne (Ne.symm ha)]
      refine h.step hkeys (by rw [hstatus]) fun q => ?_
      cases out with
      | error e => exact le_rfl
      | ok b =>
        obtain rfl := hout b rfl
        have hval : val o (some (.ordersProcess, b)) q = 0 := if_neg fun he => ha (by cases he; rfl)
        show val o (some (.ordersProcess, b)) q + g q ≤ val o l q + g q
        omega
  · exact h

theorem call_update {id : String} {src dst : OrderStatus} {reason : Option String} :
    ShopCall (logic o) i l (.orderFindOneAndUpdate id src dst reason) fun _ _ => True := by
  refine shop_call fun now w g f out w' hinv hg hx => ⟨?_, trivial⟩
  obtain ⟨hn, hdirected⟩ : w.OrderIds ∧
    ((∃ q, (q, id) ∈ w.jobKeys ∧ q.stage = (src, dst)) ∨ (src = .pending ∧ dst = .failed)) := hg
  have h : Inv o w (val o l + g) := hinv
  have hkeys : w'.jobKeys = w.jobKeys := by
    rw [Shop.jobKeys, (exec_same hx).jobs (fun he => by cases he), Shop.jobKeys]
  -- what is due afterwards, of the order `o`
  have hpost : post (.orderFindOneAndUpdate id src dst reason) out l = l ∨
      ∃ d, out = .ok (some d) ∧ post (.orderFindOneAndUpdate id src dst reason) out l =
        dst.opens.bind fun q => (castObjectId id).map fun o => (q, o) := by
    rcases out with e | (_ | d)
    · exact .inl rfl
    · exact .inl rfl
    · exact .inr ⟨d, rfl, rfl⟩
  rcases status_update hn hx o with ⟨hstatus, hnot⟩ | ⟨hid, -, -, hs, hs'⟩
  · refine h.step hkeys (by rw [hstatus]) fun q => ?_
    rcases hpost with heq | ⟨d, rfl, heq⟩
    · rw [heq]
    · -- another order has moved
      have hval : val o (dst.opens.bind fun q => (castObjectId id).map fun o => (q, o)) q = 0 := by
        refine if_neg fun he => ?_
        obtain ⟨q', -, he⟩ := Option.bind_eq_some_iff.mp he
        obtain ⟨p, hp, he⟩ := Option.map_eq_some_iff.mp he
        cases he
        exact (hnot hp).1 d rfl
      rw [heq]
      simp only [Pi.add_apply, hval]
      omega
  · rcases hdirected with ⟨q, hq, hstage⟩ | ⟨rfl, rfl⟩
    · obtain ⟨hall, hzero⟩ := h.settled hq hid hstage hs
      have hnext : stages (w'.status o) = stages (w.status o) ++ dst.opens.toList := by
        rw [hs, hs', stages_next (stage_next hstage.symm)]
      refine h.opened (s := dst) (by rw [hall, hs]) hkeys hnext fun q hpos => ?_
      have hz := hzero q
      simp only [Pi.add_apply, Nat.add_eq_zero_iff] at hz hpos ⊢
      rcases hpost with heq | ⟨d, rfl, heq⟩
      · rw [heq] at hpos
        omega
      · rw [heq, hid] at hpos ⊢
        cases hopens : dst.opens with
        | none =>
          simp [hopens, val, hz.2] at hpos
        | some q' =>
          simp only [hopens, Option.bind_some, Option.map_some, val, Option.some.injEq,
            Prod.mk.injEq, and_true] at hpos ⊢
          split at hpos
          · rename_i hq'
            exact ⟨hq', by rw [if_pos hq']; omega⟩
          · omega
    · refine h.step hkeys (by rw [hs, hs']; rfl) fun q => ?_
      rcases hpost with heq | ⟨d, rfl, heq⟩
      · rw [heq]
      · rw [heq]
        show 0 + g q ≤ val o l q + g q
        omega

theorem call_addJob {q : QueueName} {p : ObjectId} :
    ShopCall (logic o) i (some (q, p)) (.addJob q p.toString) fun _ _ => True := by
  refine shop_call fun now w g f out w' hinv hg hx => ⟨?_, trivial⟩
  have h : Inv o w (val o (some (q, p)) + g) := hinv
  show Inv o w' (0 + g)
  rw [zero_add]
  rcases Store.exec_effect hx with ⟨-, _, a, hs, -⟩ | ⟨-, rfl, -⟩
  · have hadd := jobKeys_addJob hs
    have hstatus : w'.status o = w.status o := by rw [status_other rfl hs]
    have hcanonical : ∀ q oid, (q, oid) ∈ w'.jobKeys → ∃ p : ObjectId, oid = p.toString := by
      intro q' oid hmem
      rw [hadd, List.mem_append, List.mem_singleton] at hmem
      rcases hmem with hmem | hmem
      · exact h.canonical q' oid hmem
      · cases hmem
        exact ⟨p, rfl⟩
    have hjobs := jobsOf_add (o := o) hadd
    by_cases hp : p = o
    · subst hp
      rw [if_pos rfl] at hjobs
      have hval : val p (some (q, p)) q = 1 := if_pos rfl
      obtain ⟨hone, hall⟩ := h.due q (by rw [Pi.add_apply, hval]; omega)
      rw [Pi.add_apply, hval] at hone
      refine ⟨by rw [hjobs, hall, hstatus], fun q' hpos => ?_, hcanonical⟩
      -- it was the only one that was due
      obtain ⟨-, hall'⟩ := h.due q' (by rw [Pi.add_apply]; omega)
      rw [← hall, List.append_cancel_left_eq, List.singleton_inj] at hall'
      subst hall'
      omega
    · rw [if_neg hp] at hjobs
      refine ⟨by rw [hjobs, hstatus]; exact h.behind, fun q' hpos => ?_, hcanonical⟩
      obtain ⟨hone, hall⟩ := h.due q' (by rw [Pi.add_apply]; omega)
      rw [Pi.add_apply] at hone
      exact ⟨by omega, by rw [hjobs, hall, hstatus]⟩
  · refine h.step rfl rfl fun q' => ?_
    rw [Pi.add_apply]
    omega

theorem call_ready {op : apiSig.Op} (h : ready l op) : (logic o).Call i l op fun _ _ => True := by
  cases op with
  | inl k => exact (neutral_kv k).keeps trivial
  | inr op =>
    by_cases hpasses : passes op = true
    · exact (call_passes hpasses).keeps trivial
    · cases op with
      | orderCreate inp => exact call_orderCreate
      | orderFindOneAndUpdate id src dst reason => exact call_update
      | addJob q oid =>
        obtain ⟨p, rfl, rfl⟩ := h
        exact call_addJob
      | _ => exact absurd rfl hpasses

theorem directed_of_may {r : ShopReq} {op : apiSig.Op} (h : OrOwn (fun o => r.may o = true) op)
    (hadd : ∀ j queue oid, r = .deliver j queue oid → (queue, oid) ∈ w.jobKeys) :
    Directed w op := by
  cases op with
  | inl k => trivial
  | inr op =>
    cases op with
    | orderCreate inp =>
      have hj := justifies_of_may hadd h
      exact hj
    | orderFindOneAndUpdate id src dst reason =>
      rcases may_update h with ⟨j, q, rfl, hstage⟩ | hfail
      · exact .inl ⟨q, hadd j q id rfl, hstage.symm⟩
      · exact .inr hfail
    | _ => trivial

theorem outline (ok : System.Guard apiSig Err ShopReq ShopRes (IdemKv × Shop) Pick ShopEnv)
    (n : Nat) (catalog : ObjectId → Option ProductDoc) (o : ObjectId) :
    shopSystem.Outline ok (freshShop n catalog) (logic o) (fun _ _ => none)
      fun _ _ _ _ => True where
  store := rfl
  start := ⟨rfl, List.prefix_rfl, fun q hpos => (by cases hpos), fun q oid h => (by cases h)⟩
  arrive := by
    intro c r w' _ _ hacc hinv
    have h : Inv o c.world.2 (System.worth (logic o) (fun _ _ => none) c.pool) := hinv
    obtain ⟨hkeys, hadded⟩ := jobKeys_accept hacc
    refine ⟨?_, (follows_request r fun j q oid hr => ?_).safe fun l o => call_ready⟩
    · have hstatus : w'.2.status o = c.world.2.status o := by
        rw [Shop.status, (accept_same hacc).2.orders (fun he => by cases he), Shop.status]
      refine h.step hkeys (by rw [hstatus]) fun q => ?_
      show 0 + _ ≤ _
      omega
    · exact h.canonical q oid (List.mem_of_getElem? (hadded j q oid hr))
  tick := fun _ _ _ h => h
  env := by
    intro c g e w' _ he hinv
    obtain ⟨s, hs, rfl⟩ := Option.map_eq_some_iff.mp he
    have hstatus : s.status o = c.world.2.status o := by
      rw [Shop.status, (surroundings_same hs).1.orders, Shop.status]
    have h : Inv o c.world.2 g := hinv
    exact h.step (jobKeys_surroundings hs) (by rw [hstatus]) fun _ => le_rfl
  guard := by
    intro c j f t op k hr _ ht hp _
    have hmem := List.mem_of_getElem? ht
    have hcalls := hr.calls calls_shopProg rfl t hmem
    rw [hp] at hcalls
    exact ⟨orderIds_reachable hr, directed_of_may hcalls.1 (delivered_added hr t hmem)⟩

end Chain

section Runs

variable {ok : System.Guard apiSig Err ShopReq ShopRes (IdemKv × Shop) Pick ShopEnv} {n : Nat}
  {catalog : ObjectId → Option ProductDoc} {c : ShopConfig}

/-- **One job a stage.** In every run the jobs of an order are the first of the stages it has
opened, each once and in their order; and whatever is delivered is for an order that is there. -/
theorem jobs_in_stages (h : shopSystem.Reachable ok (freshShop n catalog) c) :
    (∀ o, c.world.2.jobsOf o <+: stages (c.world.2.status o) ∧
      c.world.2.jobsOf o <+: [.ordersProcess, .ordersFulfill, .ordersNotify]) ∧
    ∀ t ∈ c.pool, ∀ j queue oid, t.req = .deliver j queue oid →
      ∃ o d, oid = o.toString ∧ c.world.2.order o = some d ∧
        queue ∈ stages (some d.status) := by
  have hinv := fun o => ((Chain.outline ok n catalog o).adequate h).1
  refine ⟨fun o => ⟨(hinv o).behind, (hinv o).behind.trans (stages_initial _)⟩, ?_⟩
  intro t ht j queue oid hreq
  have hadded := delivered_added h t ht j queue oid hreq
  obtain ⟨o, rfl⟩ := (hinv idA).canonical queue oid hadded
  have hopened := (hinv o).behind.subset (mem_jobsOf hadded (castObjectId_toString o))
  cases hs : c.world.2.status o with
  | none =>
    rw [hs] at hopened
    cases hopened
  | some s =>
    obtain ⟨d, hd, rfl⟩ := Option.map_eq_some_iff.mp hs
    exact ⟨o, d, rfl, hd, hs ▸ hopened⟩

end Runs

/-- An order that is fulfilled, its process job delivered twice. -/
theorem jobs_in_stages_twice :
    ∃ c, shopSystem.Reachable (fun _ _ => True) (freshShop 0 (oneProduct 1)) c ∧
      c.world.2.status idB = some .fulfilled ∧
      c.world.2.jobsOf idB = [.ordersProcess, .ordersFulfill, .ordersNotify] ∧
      c.world.2.jobsOf idB <+: stages (c.world.2.status idB) := by
  have hrun : (shopSystem.run (fun _ _ => true) (freshShop 0 (oneProduct 1)) (orderPlaced ++
      .arrive (.deliver 0 .ordersProcess idB.toString) :: callsOf 1 8 idB ++
      .env (.redeliver 0) :: .arrive (.deliver 0 .ordersProcess idB.toString) ::
        callsOf 2 2 idB ++
      .arrive (.deliver 1 .ordersFulfill idB.toString) :: callsOf 3 6 idB)).map (fun c =>
        (c.world.2.status idB, c.world.2.jobsOf idB)) =
      some (some .fulfilled, [.ordersProcess, .ordersFulfill, .ordersNotify]) := by decide
  obtain ⟨c, hc, hs⟩ := Option.map_eq_some_iff.mp hrun
  obtain ⟨hstatus, hjobs⟩ := Prod.mk.inj hs
  have hr : shopSystem.Reachable (fun _ _ => True) _ c :=
    (System.Reachable.of_run hc).mono fun _ _ _ => trivial
  exact ⟨c, hr, hstatus, hjobs, ((jobs_in_stages hr).1 idB).1⟩

end Flashkart
