import Flashkart.Shop.Listing

/-!
# Shop.Enqueue

The process job of an order. The request that has created an order adds the job for it, once, and
nothing else adds to that queue.

* `one_job`   — an order has at most one process job.
* `job_order` — a process job is for an order that exists.
-/

namespace Flashkart

open Async Logic

/-- Job `j` is in the process queue and for the order `o`. -/
def Shop.JobOf (w : Shop) (o : ObjectId) (j : Nat) : Prop :=
  ∃ oid, w.jobKeys[j]? = some (.ordersProcess, oid) ∧ castObjectId oid = some o

namespace Enqueue

/-! ## What the requests do

The account of a request is the order it has created last and not added a job for. -/

def post : (op : ShopOp) → Except Err op.Ret → Option ObjectId → Option ObjectId
  | .orderCreate _, .ok id, _ => some id
  | .addJob .ordersProcess _, _, _ => none
  | _, _, l => l

/-- A process job is for that order, under the id in its canonical spelling. -/
def ready (l : Option ObjectId) : apiSig.Op → Prop
  | .inr (.addJob .ordersProcess oid) => ∃ id, l = some id ∧ oid = id.toString
  | _ => True

/-- The calls that the account does not depend on. -/
def passes : ShopOp → Bool
  | .orderCreate _ | .addJob .ordersProcess _ => false
  | _ => true

theorem fixed_of_passes {op : ShopOp} (h : passes op = true) (l : Option ObjectId) :
    ready l (.inr op) ∧ ∀ out, post op out l = l := by
  cases op with
  | addJob queue oid =>
    cases queue with
    | ordersProcess => cases h
    | _ => exact ⟨trivial, fun _ => rfl⟩
  | orderCreate inp => cases h
  | _ => exact ⟨trivial, fun _ => rfl⟩

theorem follows_doPurchase (uid : ObjectId) (id : String) (qty : Nat) (l : Option ObjectId) :
    Follows (fun l (o : shopSig.Op) => ready l (.inr o)) (fun e => post e.op e.out)
      (doPurchase uid id qty) l fun _ _ => True := by
  have hpurchase : (purchase id qty).Calls fun o => ready l (.inr o) ∧
      ∀ (_ : Nat) (out : Except Err o.Ret), post o out l = l := by
    refine (calls_purchase id qty).mono fun o ho => ?_
    have hpasses : passes o = true := by cases o <;> first | rfl | cases ho
    exact ⟨(fixed_of_passes hpasses l).1, fun _ => (fixed_of_passes hpasses l).2⟩
  exact follows_doPurchase_of (K := fun _ => True)
    ((Follows.of_fixed hpurchase).mono fun _ _ _ _ _ => trivial) (fun _ _ => trivial)
    (fun _ _ _ _ => trivial) (fun _ _ _ oid => ⟨oid, rfl, rfl⟩)

/-- The next stages are other queues. -/
theorem calls_handler (q : QueueName) (oid : String) :
    (handler q oid).Calls fun o => passes o = true := by
  cases q with
  | ordersProcess =>
    refine calls_bind_op rfl fun d => ?_
    cases d with
    | none => trivial
    | some d =>
      dsimp only
      split
      · trivial
      · refine calls_bind_op rfl fun _ => calls_bind_op rfl fun _ => ?_
        exact calls_advance rfl rfl (fun _ => rfl) ((Prog.calls_op _).mpr rfl)
  | ordersFulfill =>
    refine calls_bind_op rfl fun d => ?_
    cases d with
    | none => trivial
    | some d =>
      dsimp only
      split
      · trivial
      · exact calls_advance rfl rfl (fun _ => rfl) ((Prog.calls_op _).mpr rfl)
  | ordersNotify =>
    refine calls_bind_op rfl fun d => ?_
    cases d with
    | none => trivial
    | some d =>
      dsimp only
      split
      · trivial
      · exact calls_advance rfl rfl (fun _ => rfl) trivial

theorem passes_of_may {r : ShopReq} (hbuy : ∀ req, r ≠ .postBuy req)
    (hdeliver : ∀ j q oid, r ≠ .deliver j q oid) {op : ShopOp} (h : r.may op = true) :
    passes op = true := by
  cases op with
  | addJob queue oid =>
    cases r with
    | postBuy req => exact absurd rfl (hbuy _)
    | deliver j q oid => exact absurd rfl (hdeliver _ _ _)
    | _ => cases h
  | orderCreate inp =>
    cases r with
    | postBuy req => exact absurd rfl (hbuy _)
    | deliver j q oid => exact absurd rfl (hdeliver _ _ _)
    | _ => cases h
  | _ => rfl

theorem follows_request (r : ShopReq) (l : Option ObjectId) :
    Follows ready (shopPost post) (shopProg r) l fun _ _ => True := by
  have hown : ∀ l k, ready l (.inl k) ∧ ∀ time out, shopPost post ⟨time, .inl k, out⟩ l = l :=
    fun l k => ⟨trivial, fun _ _ => rfl⟩
  have hpasses : (shopProg r).Calls (OrOwn fun o => passes o = true) →
      Follows ready (shopPost post) (shopProg r) l fun _ _ => True := by
    refine fun h => (Follows.of_fixed (h.mono ?_)).mono fun _ _ _ => trivial
    rintro (k | op) hop
    · exact hown l k
    · exact ⟨(fixed_of_passes hop l).1, fun _ => (fixed_of_passes hop l).2⟩
  by_cases hbuy : ∃ req, r = .postBuy req
  · obtain ⟨req, rfl⟩ := hbuy
    obtain ⟨qty, hwraps⟩ := wraps_postBuy req
    exact hwraps.follows hown (follows_doPurchase _ _ _ l)
  by_cases hdeliver : ∃ j q oid, r = .deliver j q oid
  · obtain ⟨j, q, oid, rfl⟩ := hdeliver
    refine hpasses (Prog.calls_bind (calls_inr_own ?_) fun _ => trivial)
    refine calls_runJob_of (calls_handler q oid) rfl rfl fun _ op hop => ?_
    cases op <;> first | rfl | cases hop
  · refine hpasses ((calls_shopProg r).mono ?_)
    rintro (k | op) hop
    · trivial
    · exact passes_of_may (fun req h => hbuy ⟨req, h⟩) (fun j q oid h => hdeliver ⟨j, q, oid, h⟩) hop

/-! ## The jobs of one order -/

def val (o : ObjectId) (l : Option ObjectId) : Nat := if l = some o then 1 else 0

/-- With `g` requests that still have to add the job of `o`. -/
structure Inv (o : ObjectId) (w : Shop) (g : Nat) : Prop where
  one : ∀ j k, w.JobOf o j → w.JobOf o k → j = k
  due : g ≤ 1 ∧ (1 ≤ g → ∀ j, ¬w.JobOf o j)
  created : w.status o = none → g = 0 ∧ ∀ j, ¬w.JobOf o j

def logic (o : ObjectId) : ShopLogic (Option ObjectId) Nat :=
  shopLogic (fun _ _ _ w _ _ => w.OrderIds) (Inv o) post (val o)

variable {o : ObjectId} {i : Nat} {l : Option ObjectId} {w w' : Shop} {g g' : Nat}

theorem Inv.step (h : Inv o w g) (hjobs : ∀ j, w'.JobOf o j → w.JobOf o j)
    (hstatus : w'.status o = none → w.status o = none) (hg : g' ≤ g) : Inv o w' g' where
  one := fun j k hj hk => h.one j k (hjobs j hj) (hjobs k hk)
  due := ⟨hg.trans h.due.1, fun hpos j hj => h.due.2 (hpos.trans hg) j (hjobs j hj)⟩
  created := fun hnone =>
    ⟨Nat.le_zero.mp (hg.trans (h.created (hstatus hnone)).1.le),
      fun j hj => (h.created (hstatus hnone)).2 j (hjobs j hj)⟩

theorem JobOf.congr (h : w'.jobKeys = w.jobKeys) {j : Nat} : w'.JobOf o j ↔ w.JobOf o j := by
  rw [Shop.JobOf, h, Shop.JobOf]

/-- The jobs of `o` after one more was added. -/
theorem jobOf_add {key : QueueName × String} (h : w'.jobKeys = w.jobKeys ++ [key]) {j : Nat}
    (hj : w'.JobOf o j) :
    w.JobOf o j ∨ (j = w.jobKeys.length ∧ key.1 = .ordersProcess ∧ castObjectId key.2 = some o) := by
  obtain ⟨oid, hkey, hid⟩ := hj
  rw [h, List.getElem?_append] at hkey
  split at hkey
  · exact .inl ⟨oid, hkey, hid⟩
  · rename_i hge
    obtain ⟨hlt, heq⟩ := List.getElem?_eq_some_iff.mp hkey
    simp only [List.length_cons, List.length_nil] at hlt
    refine .inr ⟨by omega, ?_⟩
    simp only [List.getElem_singleton] at heq
    rw [heq]
    exact ⟨rfl, hid⟩

theorem exists_store {now : Nat} {op : ShopOp} {q : Pick} {a : op.Ret} (hn : w.OrderIds)
    (h : shopStore now i op q w = some (a, w')) (hnone : w'.status o = none) :
    w.status o = none := by
  by_cases hm : op.movesOrders = true
  · cases op with
    | orderCreate inp =>
      obtain ⟨-, hw'⟩ := status_orderCreate h
      rw [hw'] at hnone
      by_cases ho : o = a
      · rw [ho, Function.update_self] at hnone
        cases hnone
      · rwa [Function.update_of_ne ho] at hnone
    | orderFindOneAndUpdate id src dst reason =>
      rcases status_findOneAndUpdate hn h with ⟨d, -, -, -, hw'⟩ | ⟨-, hw', -⟩
      · rw [hw'] at hnone
        by_cases ho : o = d.id
        · rw [ho, Function.update_self] at hnone
          cases hnone
        · rwa [Function.update_of_ne ho] at hnone
      · rwa [hw'] at hnone
    | _ => cases hm
  · rwa [status_other (by simpa using hm) h] at hnone

/-- A call that neither creates an order nor adds a process job. -/
theorem call_passes {op : ShopOp} (h : passes op = true) : (logic o).Neutral (.inr op) := by
  intro i l
  refine shop_call fun now w g f out w' hinv hn hx => ?_
  rw [(fixed_of_passes h l).2 out]
  refine ⟨?_, rfl⟩
  rcases Store.exec_effect hx with ⟨-, q, a, hs, -⟩ | ⟨-, rfl, -⟩
  · refine hinv.step (fun j hj => ?_) (exists_store hn hs) le_rfl
    by_cases hop : ∃ queue oid, op = .addJob queue oid
    · obtain ⟨queue, oid, rfl⟩ := hop
      rcases jobOf_add (jobKeys_addJob hs) hj with hj | ⟨-, hq, -⟩
      · exact hj
      · obtain rfl : queue = .ordersProcess := hq
        cases h
    · exact (JobOf.congr (jobKeys_other (fun queue oid he => hop ⟨queue, oid, he⟩) hs)).mp hj
  · exact hinv

theorem call_orderCreate {inp : OrderInput} :
    ShopCall (logic o) i l (.orderCreate inp) fun _ _ => True := by
  refine shop_call fun now w g f out w' hinv hn hx => ⟨?_, trivial⟩
  have h : Inv o w (val o l + g) := hinv
  rcases Store.exec_effect hx with ⟨-, q, a, hs, hout⟩ | ⟨-, rfl, e, rfl⟩
  · obtain ⟨hnone, hw'⟩ := status_orderCreate hs
    have hjobs : ∀ j, w'.JobOf o j → w.JobOf o j := fun j =>
      (JobOf.congr (jobKeys_other (fun _ _ he => by cases he) hs)).mp
    cases out with
    | error e => exact h.step hjobs (exists_store hn hs) le_rfl
    | ok b =>
      obtain rfl := hout b rfl
      show Inv o w' (val o (some b) + g)
      by_cases hb : b = o
      · -- `o` was not there, so nothing is due for it but what this request will add
        subst hb
        obtain ⟨hzero, hnojob⟩ := h.created hnone
        have hval : val b (some b) + g = 1 := by
          rw [val, if_pos rfl]
          omega
        rw [hval]
        refine ⟨fun j k hj => absurd (hjobs j hj) (hnojob j),
          ⟨le_rfl, fun _ j hj => hnojob j (hjobs j hj)⟩, fun hw => ?_⟩
        rw [hw', Function.update_self] at hw
        cases hw
      · have hval : val o (some b) = 0 := if_neg fun he => hb (Option.some.inj he)
        rw [hval]
        exact h.step hjobs (exists_store hn hs) (by omega)
  · exact h

theorem call_addJob {id : ObjectId} :
    ShopCall (logic o) i (some id) (.addJob .ordersProcess id.toString) fun _ _ => True := by
  refine shop_call fun now w g f out w' hinv hn hx => ⟨?_, trivial⟩
  have h : Inv o w (val o (some id) + g) := hinv
  show Inv o w' (0 + g)
  rw [Nat.zero_add]
  rcases Store.exec_effect hx with ⟨-, q, a, hs, -⟩ | ⟨-, rfl, -⟩
  · have hadd := jobKeys_addJob hs
    by_cases hid : id = o
    · subst hid
      have hval : val id (some id) = 1 := if_pos rfl
      rw [hval] at h
      -- it is the first one
      have hnojob := h.due.2 (by omega)
      have hlast : ∀ j, w'.JobOf id j → j = w.jobKeys.length := fun j hj =>
        ((jobOf_add hadd hj).resolve_left (hnojob j)).1
      refine ⟨fun j k hj hk => (hlast j hj).trans (hlast k hk).symm, ⟨?_, fun hpos => ?_⟩,
        fun hw => ?_⟩
      · have := h.due.1
        omega
      · have := h.due.1
        omega
      · have := (h.created (exists_store hn hs hw)).1
        omega
    · refine h.step (fun j hj => ?_) (exists_store hn hs) (by omega)
      rcases jobOf_add hadd hj with hj | ⟨-, -, ho⟩
      · exact hj
      · rw [castObjectId_toString] at ho
        exact absurd (Option.some.inj ho) hid
  · exact h.step (fun _ hj => hj) (fun h => h) (by omega)

theorem call_ready {op : apiSig.Op} (h : ready l op) : (logic o).Call i l op fun _ _ => True := by
  cases op with
  | inl k => exact (neutral_kv k).keeps trivial
  | inr op =>
    by_cases hpasses : passes op = true
    · exact (call_passes hpasses).keeps trivial
    · cases op with
      | orderCreate inp => exact call_orderCreate
      | addJob queue oid =>
        cases queue with
        | ordersProcess =>
          obtain ⟨id, rfl, rfl⟩ := h
          exact call_addJob
        | _ => exact absurd rfl hpasses
      | _ => exact absurd rfl hpasses

theorem outline {ok : System.Guard apiSig Err ShopReq ShopRes (IdemKv × Shop) Pick ShopEnv} (n : Nat)
    (catalog : ObjectId → Option ProductDoc) (o : ObjectId) :
    shopSystem.Outline ok (freshShop n catalog) (logic o) (fun _ _ => none) fun _ _ _ _ => True where
  store := rfl
  start := by
    have hnojob : ∀ j, ¬(Shop.fresh catalog).JobOf o j := by
      rintro j ⟨oid, hkey, -⟩
      cases hkey
    exact ⟨rfl, fun j k hj => absurd hj (hnojob j), ⟨Nat.zero_le _, fun _ => hnojob⟩,
      fun _ => ⟨rfl, hnojob⟩⟩
  arrive := by
    intro c r w' _ _ hacc hinv
    refine ⟨?_, (follows_request r none).safe fun l o => call_ready⟩
    have hstatus : w'.2.status o = c.world.2.status o := by
      rw [Shop.status, (accept_same hacc).2.orders (fun he => by cases he), Shop.status]
    have h : Inv o c.world.2 (System.worth (logic o) (fun _ _ => none) c.pool) := hinv
    have hjobs := fun j => (JobOf.congr (o := o) (jobKeys_accept hacc).1 (j := j)).mp
    exact h.step hjobs (fun hw => hstatus ▸ hw) (Nat.zero_add _).le
  tick := fun _ _ _ h => h
  env := by
    intro c g e w' _ he hinv
    obtain ⟨s, hs, rfl⟩ := Option.map_eq_some_iff.mp he
    have hstatus : s.status o = c.world.2.status o := by
      rw [Shop.status, (surroundings_same hs).1.orders, Shop.status]
    have h : Inv o c.world.2 g := hinv
    exact h.step (fun j => (JobOf.congr (jobKeys_surroundings hs)).mp) (fun hw => hstatus ▸ hw) le_rfl
  guard := fun _ _ _ _ _ _ hr _ _ _ _ => orderIds_reachable hr

end Enqueue

section Reachable

variable {ok : System.Guard apiSig Err ShopReq ShopRes (IdemKv × Shop) Pick ShopEnv} {n : Nat}
  {catalog : ObjectId → Option ProductDoc} {c : ShopConfig} {o : ObjectId} {j k : Nat}

theorem one_job (h : shopSystem.Reachable ok (freshShop n catalog) c) (hj : c.world.2.JobOf o j)
    (hk : c.world.2.JobOf o k) : j = k :=
  ((Enqueue.outline n catalog o).adequate h).1.one j k hj hk

theorem job_order (h : shopSystem.Reachable ok (freshShop n catalog) c) (hj : c.world.2.JobOf o j) :
    c.world.2.status o ≠ none :=
  fun hnone => (((Enqueue.outline n catalog o).adequate h).1.created hnone).2 j hj

end Reachable

end Flashkart
