import Flashkart.Shop.Attempts
import Flashkart.Shop.Delivery
import Flashkart.Shop.Enqueue

/-!
# Shop.Compensation

The refund of an order whose payment failed for good, over whole runs. Two guards decide it: the
listener looks at the attempts that were made, and the update looks for a pending order.

* `failuresSettled` — BullMQ retries a process job only after an attempt threw, and tells the
  listener so; the compensation's update and its `INCRBY` are answered.
* `Compensation.Inv` — an order has been given back, or is about to be, just when it has failed; a
  job that has ended well has moved its order on; of a job that has failed, the order has moved on
  or an attempt is about to fail it.
-/

namespace Flashkart

open Async Logic

/-- The calls that settle the failure of an attempt. -/
def ShopOp.settlesFailure : ShopOp → Bool
  | .moveToFailed _ | .incrby .. => true
  | .orderFindOneAndUpdate _ src dst _ => src = .pending && dst = .failed
  | _ => false

def failuresSettled (c : ShopConfig) : ShopAct → Bool
  | .arrive (.compensate ..) => false
  | .call i f => f.isAnswered || (c.pool[i]?).all fun t =>
    match t.req, t.prog.next with
    | .deliver _ .ordersProcess _, some (.inr op) => !op.settlesFailure
    | _, _ => true
  | a => retriesOnly .ordersProcess c a

/-- The order is pending no more. -/
def Shop.Passed (w : Shop) (o : ObjectId) : Prop := ∃ s, w.status o = some s ∧ s ≠ .pending

/-- Job `j` is in the process queue for `o`, and in this state. -/
def Shop.JobIn (w : Shop) (o : ObjectId) (j : Nat) (s : JobState) : Prop :=
  ∃ d, w.jobs[j]? = some d ∧ d.queue = .ordersProcess ∧ castObjectId d.orderId = some o ∧ d.state = s

/-- What an order takes from its counter. -/
def OrderDoc.units (d : OrderDoc) : String × Nat := (d.stockKey, d.quantity)

/-- A call has had its effect on the stores, or none. -/
def Made (now i : Nat) (op : ShopOp) (w w' : Shop) : Prop :=
  w' = w ∨ ∃ q a, shopStore now i op q w = some (a, w')

section Store

variable {now i : Nat} {op : ShopOp} {w w' : Shop} {o : ObjectId} {j : Nat} {s : JobState}

theorem made_exec {f : Fate Err Pick} {out : Except Err op.Ret}
    (hx : shopStore.exec now i op f w = some (out, w')) : Made now i op w w' := by
  rcases Store.exec_effect hx with ⟨-, q, a, h, -⟩ | ⟨-, rfl, -⟩
  · exact .inr ⟨q, a, h⟩
  · exact .inl rfl

/-! ### The order -/

/-- What a call leaves of an order that is there. -/
theorem order_kept (hn : w.OrderIds) (h : Made now i op w w') {d : OrderDoc}
    (hd : w.order o = some d) :
    ∃ d', w'.order o = some d' ∧ d'.units = d.units ∧
      ((∀ n, op ≠ .orderSave o n) → d'.paymentAttempts = d.paymentAttempts) ∧
      (d'.status = d.status ∨ ∃ id src dst reason,
        op = .orderFindOneAndUpdate id src dst reason ∧ castObjectId id = some o ∧
          d.status = src ∧ d'.status = dst) := by
  have hid : d.id = o := ((order_eq_some hn).mp hd).2
  rcases h with rfl | ⟨q, a, h⟩
  · exact ⟨d, hd, rfl, fun _ => rfl, .inl rfl⟩
  cases op with
  | orderCreate inp =>
    obtain ⟨hnone, d', -, -, -, hw'⟩ := order_orderCreate h
    have hne : o ≠ a := by
      rintro rfl
      rw [hnone] at hd
      cases hd
    exact ⟨d, by rw [hw', Function.update_of_ne hne, hd], rfl, fun _ => rfl, .inl rfl⟩
  | orderSave id n =>
    have hw' := order_orderSave h o
    rw [hd, Option.map_some] at hw'
    by_cases hsame : d.id = id
    · rw [if_pos hsame] at hw'
      exact ⟨_, hw', rfl, fun hne => absurd (by rw [← hsame, hid]) (hne n), .inl rfl⟩
    · rw [if_neg hsame] at hw'
      exact ⟨d, hw', rfl, fun _ => rfl, .inl rfl⟩
  | orderFindOneAndUpdate id src dst reason =>
    rcases order_findOneAndUpdate hn h with ⟨d₁, rfl, hcast, hsrc, hd₁, hw'⟩ | ⟨-, rfl, -⟩
    · by_cases ho : o = d₁.id
      · rw [ho] at hd
        obtain rfl := Option.some.inj (hd.symm.trans hd₁)
        refine ⟨{ d with status := dst, failureReason := reason.or d.failureReason },
          by rw [hw', ho, Function.update_self], rfl, fun _ => rfl, .inr ?_⟩
        exact ⟨id, src, dst, reason, rfl, ho ▸ hcast, hsrc, rfl⟩
      · exact ⟨d, by rw [hw', Function.update_of_ne ho, hd], rfl, fun _ => rfl, .inl rfl⟩
    · exact ⟨d, hd, rfl, fun _ => rfl, .inl rfl⟩
  | _ => exact ⟨d, by rw [order_other (fun he => by cases he) h, hd], rfl, fun _ => rfl, .inl rfl⟩

/-- An order that was not there before the call was inserted by it. -/
theorem order_born (hn : w.OrderIds) (h : Made now i op w w') (hnone : w.order o = none)
    {d : OrderDoc} (hd : w'.order o = some d) :
    d.paymentAttempts = 0 ∧ ∃ inp, op = .orderCreate inp ∧ d.status = inp.status := by
  rcases h with rfl | ⟨q, a, h⟩
  · rw [hnone] at hd
    cases hd
  cases op with
  | orderCreate inp =>
    obtain ⟨-, d', -, hstatus, hattempts, hw'⟩ := order_orderCreate h
    rw [hw'] at hd
    by_cases ho : o = a
    · rw [ho, Function.update_self] at hd
      obtain rfl := Option.some.inj hd
      exact ⟨hattempts, inp, rfl, hstatus⟩
    · rw [Function.update_of_ne ho, hnone] at hd
      cases hd
  | orderSave id n =>
    rw [order_orderSave h, hnone] at hd
    cases hd
  | orderFindOneAndUpdate id src dst reason =>
    rcases order_findOneAndUpdate hn h with ⟨d₁, rfl, -, -, hd₁, hw'⟩ | ⟨-, rfl, -⟩
    · have hne : o ≠ d₁.id := by
        rintro rfl
        rw [hnone] at hd₁
        cases hd₁
      rw [hw', Function.update_of_ne hne, hnone] at hd
      cases hd
    · rw [hnone] at hd
      cases hd
  | _ =>
    rw [order_other (fun he => by cases he) h, hnone] at hd
    cases hd

/-! ### Its job -/

/-- A job that is not active under the caller stays as it is. -/
theorem jobs_kept (h : Made now i op w w') {d : Job} (hd : w.jobs[j]? = some d)
    (hne : d.state ≠ .active i) : w'.jobs[j]? = some d := by
  have hmodify : ∀ (k : Nat) (f : Job → Job), f d = d → (w.jobs.modify k f)[j]? = some d := by
    intro k f hf
    rw [List.getElem?_modify, hd, Option.map_eq_map, Option.map_some]
    by_cases hk : k = j
    · rw [if_pos hk, hf]
    · rw [if_neg hk]
  rcases h with rfl | ⟨q, a, h⟩
  · exact hd
  cases op with
  | addJob queue oid =>
    cases h
    rw [List.getElem?_append_left (List.getElem?_eq_some_iff.mp hd).1, hd]
  | moveToCompleted k => cases h; exact hmodify _ _ (if_neg hne)
  | moveToFailed k =>
    simp only [shopStore] at h
    split at h
    · split at h
      · cases h; exact hmodify _ _ (if_neg hne)
      · cases h; exact hd
    · cases h; exact hd
  | _ => rw [(shopStore_same h).jobs (fun he => by cases he), hd]

theorem jobIn_kept (h : Made now i op w w') (hs : s ≠ .active i) (hj : w.JobIn o j s) :
    w'.JobIn o j s := by
  obtain ⟨d, hd, hq, hid, rfl⟩ := hj
  exact ⟨d, jobs_kept h hd hs, hq, hid, rfl⟩

/-- How a job ends: the delivery that has it settles it. -/
theorem jobIn_ended (h : Made now i op w w') (hs : s = .completed ∨ s = .failed)
    (hj : w'.JobIn o j s) :
    w.JobIn o j s ∨ (w.JobIn o j (.active i) ∧
      ((s = .completed ∧ op = .moveToCompleted j) ∨ (s = .failed ∧ op = .moveToFailed j))) := by
  rcases h with rfl | ⟨q, a, h⟩
  · exact .inl hj
  obtain ⟨d, hd, hq, hid, rfl⟩ := hj
  cases op with
  | addJob queue oid =>
    cases h
    rw [List.getElem?_append] at hd
    split at hd
    · exact .inl ⟨d, hd, hq, hid, rfl⟩
    · obtain ⟨hlt, rfl⟩ := List.getElem?_eq_some_iff.mp hd
      simp only [List.length_cons, List.length_nil] at hlt
      simp [Job.add] at hs
  | moveToCompleted k =>
    cases h
    rcases job_modify hd with ⟨-, hd⟩ | ⟨rfl, d₀, hd₀, rfl⟩
    · exact .inl ⟨d, hd, hq, hid, rfl⟩
    · by_cases ha : d₀.state = .active i
      · rw [Job.complete, if_pos ha] at hq hid ⊢
        exact .inr ⟨⟨d₀, hd₀, hq, hid, ha⟩, .inl ⟨rfl, rfl⟩⟩
      · rw [Job.complete, if_neg ha] at hq hid ⊢
        exact .inl ⟨d₀, hd₀, hq, hid, rfl⟩
  | moveToFailed k =>
    simp only [shopStore] at h
    split at h
    · rename_i d₁ hd₁
      split at h
      · rename_i ha
        cases h
        rcases job_modify hd with ⟨-, hd⟩ | ⟨rfl, d₀, hd₀, rfl⟩
        · exact .inl ⟨d, hd, hq, hid, rfl⟩
        · obtain rfl := Option.some.inj (hd₀.symm.trans hd₁)
          rw [Job.fail, if_pos ha] at hq hid hs ⊢
          refine .inr ⟨⟨d₀, hd₀, hq, hid, ha⟩, .inr ⟨?_, rfl⟩⟩
          dsimp only at hs ⊢
          split at hs
          · rcases hs with hs | hs <;> cases hs
          · rename_i hlast
            rw [if_neg hlast]
      · cases h; exact .inl ⟨d, hd, hq, hid, rfl⟩
    · cases h; exact .inl ⟨d, hd, hq, hid, rfl⟩
  | _ =>
    rw [(shopStore_same h).jobs (fun he => by cases he)] at hd
    exact .inl ⟨d, hd, hq, hid, rfl⟩

/-- The listener hears of the attempt that makes a job fail for good. -/
theorem told_of_last {r : Option Nat} {q : Pick}
    (h : shopStore now i (.moveToFailed j) q w = some (r, w')) (hj : w.JobIn o j (.active i))
    (hj' : w'.JobIn o j .failed) : ∃ n, r = some n ∧ JOB_ATTEMPTS ≤ n := by
  obtain ⟨d, hd, -, -, ha⟩ := hj
  obtain ⟨d', hd', -, -, hfailed⟩ := hj'
  simp only [shopStore, hd, ha, if_true] at h
  obtain ⟨rfl, rfl⟩ := Prod.mk.inj (Option.some.inj h)
  rcases job_modify hd' with ⟨hne, -⟩ | ⟨-, d₀, hd₀, rfl⟩
  · exact absurd rfl hne
  · obtain rfl := Option.some.inj (hd.symm.trans hd₀)
    rw [Job.fail, if_pos ha] at hfailed
    dsimp only at hfailed
    split at hfailed
    · cases hfailed
    · rename_i hlast
      exact ⟨_, rfl, Nat.le_of_not_lt hlast⟩

/-- After the last attempt the job has failed. -/
theorem failed_of_told {n : Nat} {oid : String} {q : Pick}
    (h : shopStore now i (.moveToFailed j) q w = some (some n, w')) (hn : JOB_ATTEMPTS ≤ n)
    (hkey : w.jobKeys[j]? = some (.ordersProcess, oid)) (hid : castObjectId oid = some o) :
    w'.JobIn o j .failed := by
  rw [Shop.jobKeys, List.getElem?_map, Option.map_eq_some_iff] at hkey
  obtain ⟨d, hd, hkey⟩ := hkey
  obtain ⟨hq, hoid⟩ := Prod.mk.inj hkey
  simp only [shopStore, hd] at h
  split at h
  · rename_i ha
    obtain ⟨hmade, rfl⟩ := Prod.mk.inj (Option.some.inj h)
    refine ⟨d.fail i, ?_, ?_⟩
    · show (w.jobs.modify j _)[j]? = _
      rw [List.getElem?_modify, hd, Option.map_eq_map, Option.map_some, if_pos rfl]
    · have hlast : ¬d.attemptsMade + 1 < JOB_ATTEMPTS := by
        rw [Option.some.inj hmade]
        exact Nat.not_lt.mpr hn
      rw [Job.fail, if_pos ha, if_neg hlast]
      exact ⟨hq, hoid ▸ hid, rfl⟩
  · obtain ⟨hnone, -⟩ := Prod.mk.inj (Option.some.inj h)
    cases hnone

/-! ### What besides calls can do to it -/

theorem jobIn_accept {n : Nat} {r : ShopReq} {w w' : IdemKv × Shop} (h : shopAccept n r w = some w') :
    (w.2.JobIn o j .failed → w'.2.JobIn o j .failed) ∧
      (s = .completed ∨ s = .failed → w'.2.JobIn o j s → w.2.JobIn o j s) := by
  constructor
  · rintro ⟨d, hd, hq, hid, hs⟩
    refine ⟨d, ?_, hq, hid, hs⟩
    cases r with
    | deliver k queue oid =>
      obtain ⟨v, hv, h⟩ := Option.map_eq_some_iff.mp h
      cases h
      simp only [Shop.lockJob] at hv
      split at hv
      · rename_i d₁ hd₁
        split at hv
        · rename_i hfree
          cases hv
          have hne : k ≠ j := by
            rintro rfl
            obtain rfl := Option.some.inj (hd.symm.trans hd₁)
            rw [hs] at hfree
            cases hfree.2.2
          exact (List.getElem?_modify_ne _ _ hne).trans hd
        · cases hv
      · cases hv
    | _ => cases h; exact hd
  · rintro hs ⟨d, hd, hq, hid, rfl⟩
    cases job_accept h hd with
    | same hd₀ _ => exact ⟨d, hd₀, hq, hid, rfl⟩
    | taken hd₀ hw => simp at hs

theorem jobIn_surroundings {c : ShopConfig} {e : ShopEnv}
    (hok : retriesOnly .ordersProcess c (.env e) = true) (h : c.world.2.surroundings e = some w') :
    (c.world.2.JobIn o j .failed → w'.JobIn o j .failed) ∧
      (s = .completed ∨ s = .failed → w'.JobIn o j s → c.world.2.JobIn o j s) := by
  constructor
  · rintro ⟨d, hd, hq, hid, hs⟩
    refine ⟨d, ?_, hq, hid, hs⟩
    cases e with
    | flush k =>
      obtain ⟨ev, _, h⟩ := Option.map_eq_some_iff.mp h
      cases h
      exact hd
    | promote k =>
      cases h
      rw [List.getElem?_modify, hd, Option.map_eq_map, Option.map_some]
      by_cases hk : k = j
      · rw [if_pos hk, if_neg (by rw [hs]; exact fun he => by cases he)]
      · rw [if_neg hk]
    | redeliver k =>
      cases h
      have hne : k ≠ j := by
        rintro rfl
        simp [retriesOnly, hd, hq, Job.queued, hs] at hok
      exact (List.getElem?_modify_ne _ _ hne).trans hd
    | _ => cases h; exact hd
  · rintro hs ⟨d, hd, hq, hid, rfl⟩
    have hstep : JobStep c.world.2 0 j (.env e) d := job_surroundings h hd
    cases hstep with
    | same hd₀ _ => exact ⟨d, hd₀, hq, hid, rfl⟩
    | again hd₀ _ => simp at hs

end Store

namespace Compensation

/-- The attempt is one of a job for `o`. -/
def For (o : ObjectId) (a : Delivery) : Prop := castObjectId a.orderId = some o

/-- It gives the units of `o` back, or has. -/
def gives (o : ObjectId) (a : Delivery) : Bool :=
  castObjectId a.orderId = some o &&
    match a.stage with
    | .owing _ | .repaid _ => true
    | _ => false

/-- What holds of the stores while an attempt is at its stage. -/
def Good (o : ObjectId) (w : Shop) (a : Delivery) : Prop :=
  match a.stage with
  | .found d => castObjectId a.orderId = some d.id ∧
      (d.id = o → (w.order o).map (·.paymentAttempts) = some d.paymentAttempts)
  | .passed => For o a → w.Passed o
  | .spent => For o a → ∃ j, w.JobIn o j .failed
  | .owing d | .repaid d => For o a → (w.order o).map (·.units) = some d.units
  | _ => True

def failedBit (s : Option OrderStatus) : Nat := if s = some .failed then 1 else 0

structure Inv (o : ObjectId) (w : Shop) (m : Multiset Delivery) : Prop where
  each : ∀ a ∈ m, Good o w a
  balance : m.countP (fun a => gives o a = true) = failedBit (w.status o)
  failed : w.status o = some .failed → ∃ j, w.JobIn o j .failed
  completed : ∀ j, w.JobIn o j .completed → w.Passed o
  expired : ∀ j, w.JobIn o j .failed → w.Passed o ∨ ∃ a ∈ m, For o a ∧ a.stage = .spent

def val (l : Option Delivery) : Multiset Delivery := (l.toList : List Delivery)

theorem mem_val {l : Option Delivery} {a : Delivery} : a ∈ val l ↔ l = some a := by
  simp [val]

/-- What is known of the stores, the other attempts and the fate of a call before it is made: an
attempt is at a process job of its order, which exists; an active job is in the hands of its lock;
of two attempts for one order, one is over; the calls that settle a failure are answered. -/
structure Assumed (o : ObjectId) (i : Nat) (l : Option Delivery) (g : Multiset Delivery) (w : Shop)
    (op : apiSig.Op) (f : Fate Err Pick) : Prop where
  orderIds : w.OrderIds
  key : ∀ a, l = some a → w.jobKeys[a.job]? = some (.ordersProcess, a.orderId)
  order : ∀ a, l = some a → For o a → w.status o ≠ none
  holder : ∀ j, w.JobIn o j (.active i) → ∃ a, l = some a ∧ For o a
  alone : ∀ a, l = some a → a.stage.unsettled = true → For o a →
    ∀ b ∈ g, b.stage.unsettled = true → ¬For o b
  answered : ∀ op', op = .inr op' → l.isSome → op'.settlesFailure = true → f.isAnswered = true

def logic (o : ObjectId) : ShopLogic (Option Delivery) (Multiset Delivery) :=
  shopLogic (Assumed o) (Inv o) Delivery.post val

/-! ## What a step leaves of the invariant -/

/-- What is said of the stores above, and not lost. -/
structure Stays (o : ObjectId) (w w' : Shop) : Prop where
  passed : w.Passed o → w'.Passed o
  job : ∀ j, w.JobIn o j .failed → w'.JobIn o j .failed
  units : ∀ x, (w.order o).map (·.units) = some x → (w'.order o).map (·.units) = some x

variable {o : ObjectId} {i : Nat} {l l' : Option Delivery} {a : Delivery} {w w' : Shop}
  {g : Multiset Delivery}

theorem Stays.refl (w : Shop) : Stays o w w := ⟨fun h => h, fun _ h => h, fun _ h => h⟩

theorem Good.stays (h : Good o w a) (hs : Stays o w w') (hn : ∀ d, a.stage = .found d → d.id = o →
    ∀ n, (w.order o).map (·.paymentAttempts) = some n →
      (w'.order o).map (·.paymentAttempts) = some n) : Good o w' a := by
  unfold Good at h ⊢
  split at h
  · rename_i d hd
    exact ⟨h.1, fun hid => hn d hd hid _ (h.2 hid)⟩
  · exact fun hfor => hs.passed (h hfor)
  · intro hfor
    obtain ⟨j, hj⟩ := h hfor
    exact ⟨j, hs.job j hj⟩
  · exact fun hfor => hs.units _ (h hfor)
  · exact fun hfor => hs.units _ (h hfor)
  · trivial

/-- One attempt goes from `l` to `l'`: what is to be shown of it, and of the stores. -/
theorem Inv.step (h : Inv o w (val l + g)) (hs : Stays o w w')
    (hn : ∀ b ∈ g, ∀ d, b.stage = .found d → d.id = o →
      ∀ n, (w.order o).map (·.paymentAttempts) = some n →
        (w'.order o).map (·.paymentAttempts) = some n)
    (hgood : ∀ a, l' = some a → Good o w' a)
    (hbalance : (val l').countP (fun a => gives o a = true) + failedBit (w.status o) =
      (val l).countP (fun a => gives o a = true) + failedBit (w'.status o))
    (hfailed : w'.status o = some .failed → w.status o = some .failed ∨ ∃ j, w'.JobIn o j .failed)
    (hcompleted : ∀ j, w'.JobIn o j .completed → w.JobIn o j .completed ∨ w'.Passed o)
    (hexpired : ∀ j, w'.JobIn o j .failed →
      w.JobIn o j .failed ∨ w'.Passed o ∨ ∃ a, l' = some a ∧ For o a ∧ a.stage = .spent)
    (hspent : ∀ a, l = some a → For o a → a.stage = .spent →
      w'.Passed o ∨ ∃ a', l' = some a' ∧ For o a' ∧ a'.stage = .spent) :
    Inv o w' (val l' + g) where
  each := by
    intro b hb
    rcases Multiset.mem_add.mp hb with hb | hb
    · exact hgood b (mem_val.mp hb)
    · exact (h.each b (Multiset.mem_add.mpr (.inr hb))).stays hs (hn b hb)
  balance := by
    have hold := h.balance
    rw [Multiset.countP_add] at hold ⊢
    omega
  failed := by
    intro hw
    rcases hfailed hw with hw | hj
    · obtain ⟨j, hj⟩ := h.failed hw
      exact ⟨j, hs.job j hj⟩
    · exact hj
  completed := by
    intro j hj
    rcases hcompleted j hj with hj | hw
    · exact hs.passed (h.completed j hj)
    · exact hw
  expired := by
    intro j hj
    have hspent' : (∃ a', l' = some a' ∧ For o a' ∧ a'.stage = .spent) →
        ∃ a ∈ val l' + g, For o a ∧ a.stage = .spent := by
      rintro ⟨a', hl', hrest⟩
      exact ⟨a', Multiset.mem_add.mpr (.inl (mem_val.mpr hl')), hrest⟩
    rcases hexpired j hj with hj | hw | ha
    · rcases h.expired j hj with hw | ⟨a, ha, hfor, hstage⟩
      · exact .inl (hs.passed hw)
      · rcases Multiset.mem_add.mp ha with ha | ha
        · exact (hspent a (mem_val.mp ha) hfor hstage).imp_right hspent'
        · exact .inr ⟨a, Multiset.mem_add.mpr (.inr ha), hfor, hstage⟩
    · exact .inl hw
    · exact .inr (hspent' ha)

/-- What is to be shown of a call, from what it may do to the order and to its job. -/
theorem Inv.made {now : Nat} {op : ShopOp} (h : Inv o w (val l + g)) (hn : w.OrderIds)
    (hmade : Made now i op w w')
    (hdst : ∀ id src dst reason, op = .orderFindOneAndUpdate id src dst reason → dst ≠ .pending)
    (hsave : ∀ b ∈ g, ∀ d n, b.stage = .found d → d.id = o → op ≠ .orderSave o n)
    (hgood : Stays o w w' → ∀ a, l' = some a → Good o w' a)
    (hbalance : (val l').countP (fun a => gives o a = true) + failedBit (w.status o) =
      (val l).countP (fun a => gives o a = true) + failedBit (w'.status o))
    (hfailed : w'.status o = some .failed → w.status o = some .failed ∨ ∃ j, w'.JobIn o j .failed)
    (hcompleted : ∀ j, w.JobIn o j (.active i) → op = .moveToCompleted j → w'.Passed o)
    (hexpired : ∀ j, w.JobIn o j (.active i) → op = .moveToFailed j → w'.JobIn o j .failed →
      ∃ a, l' = some a ∧ For o a ∧ a.stage = .spent)
    (hspent : ∀ a, l = some a → For o a → a.stage = .spent →
      w'.Passed o ∨ ∃ a', l' = some a' ∧ For o a' ∧ a'.stage = .spent) :
    Inv o w' (val l' + g) := by
  have hstays : Stays o w w' := by
    refine ⟨?_, fun j => jobIn_kept hmade (fun he => by cases he), ?_⟩
    · rintro ⟨s, hs, hne⟩
      obtain ⟨d, hd, rfl⟩ := Option.map_eq_some_iff.mp ((status_eq o).symm.trans hs)
      obtain ⟨d', hd', -, -, hstatus⟩ := order_kept hn hmade hd
      refine ⟨d'.status, by rw [status_eq, hd', Option.map_some], ?_⟩
      rcases hstatus with heq | ⟨id, src, dst, reason, rfl, -, -, heq⟩
      · rwa [heq]
      · rw [heq]
        exact hdst _ _ _ _ rfl
    · intro x hx
      obtain ⟨d, hd, rfl⟩ := Option.map_eq_some_iff.mp hx
      obtain ⟨d', hd', hunits, -⟩ := order_kept hn hmade hd
      rw [hd', Option.map_some, hunits]
  refine h.step hstays ?_ (hgood hstays) hbalance hfailed ?_ ?_ hspent
  · intro b hb d hstage hid n hattempts
    obtain ⟨d₀, hd₀, rfl⟩ := Option.map_eq_some_iff.mp hattempts
    obtain ⟨d', hd', -, hsame, -⟩ := order_kept hn hmade hd₀
    rw [hd', Option.map_some, hsame fun n => hsave b hb d n hstage hid]
  · intro j hj
    rcases jobIn_ended hmade (.inl rfl) hj with hj | ⟨hactive, ⟨-, hop⟩ | ⟨he, -⟩⟩
    · exact .inl hj
    · exact .inr (hcompleted j hactive hop)
    · cases he
  · intro j hj
    rcases jobIn_ended hmade (.inr rfl) hj with hj' | ⟨hactive, ⟨he, -⟩ | ⟨-, hop⟩⟩
    · exact .inl hj'
    · cases he
    · exact .inr (.inr (hexpired j hactive hop hj))

/-- A call that neither fails an order nor settles a job of `o`, and leaves the account as it is. -/
theorem Inv.calm {now : Nat} {op : ShopOp} (h : Inv o w (val l + g)) (hn : w.OrderIds)
    (hmade : Made now i op w w')
    (hdst : ∀ id src dst reason, op = .orderFindOneAndUpdate id src dst reason → dst ≠ .pending)
    (hsave : ∀ n, op ≠ .orderSave o n)
    (hfailed : w'.status o = some .failed ↔ w.status o = some .failed)
    (hends : ∀ j, w.JobIn o j (.active i) → op ≠ .moveToCompleted j ∧ op ≠ .moveToFailed j) :
    Inv o w' (val l + g) := by
  have hbit : failedBit (w'.status o) = failedBit (w.status o) := by
    by_cases hw : w.status o = some .failed
    · rw [failedBit, failedBit, if_pos hw, if_pos (hfailed.mpr hw)]
    · rw [failedBit, failedBit, if_neg hw, if_neg (hw ∘ hfailed.mp)]
  refine h.made hn hmade hdst (fun _ _ _ n _ _ => hsave n) ?_ (by rw [hbit])
    (fun hw => .inl (hfailed.mp hw)) (fun j hj hop => absurd hop (hends j hj).1)
    (fun j hj hop => absurd hop (hends j hj).2) (fun a hl hfor hstage => .inr ⟨a, hl, hfor, hstage⟩)
  intro hstays a hl
  refine (h.each a (Multiset.mem_add.mpr (.inl (mem_val.mpr hl)))).stays hstays ?_
  intro d _ _ n hattempts
  obtain ⟨d₀, hd₀, rfl⟩ := Option.map_eq_some_iff.mp hattempts
  obtain ⟨d', hd', -, hsame, -⟩ := order_kept hn hmade hd₀
  rw [hd', Option.map_some, hsame hsave]

/-- When a call leaves an order failed just if it was. -/
theorem failed_made {now : Nat} {op : ShopOp} (hn : w.OrderIds) (hmade : Made now i op w w')
    (hup : ∀ id src dst reason, op = .orderFindOneAndUpdate id src dst reason →
      castObjectId id = some o → w.status o = some src → src ≠ .failed ∧ dst ≠ .failed)
    (hcreate : ∀ inp, op = .orderCreate inp → inp.status = .pending) :
    w'.status o = some .failed ↔ w.status o = some .failed := by
  cases hd : w.order o with
  | some d =>
    have hstatus : w.status o = some d.status := by rw [status_eq, hd, Option.map_some]
    obtain ⟨d', hd', -, -, hsame⟩ := order_kept hn hmade hd
    rw [status_eq, hd', hstatus, Option.map_some]
    rcases hsame with heq | ⟨id, src, dst, reason, hop, hid, hsrc, hdst⟩
    · rw [heq]
    · obtain ⟨h1, h2⟩ := hup id src dst reason hop hid (by rw [hstatus, hsrc])
      rw [hsrc, hdst]
      exact ⟨fun he => absurd (Option.some.inj he) h2, fun he => absurd (Option.some.inj he) h1⟩
  | none =>
    have hnone : w.status o = none := by rw [status_eq, hd, Option.map_none]
    rw [hnone]
    constructor
    · intro hw
      obtain ⟨d', hd', hfailed⟩ := Option.map_eq_some_iff.mp ((status_eq o).symm.trans hw)
      obtain ⟨-, inp, hop, hpending⟩ := order_born hn hmade hd hd'
      rw [hpending, hcreate inp hop] at hfailed
      cases hfailed
    · intro hw
      cases hw

/-! ## One call -/

theorem gives_of_not (h : ¬For o a) : gives o a = false := by
  simp only [gives, Bool.and_eq_false_imp, decide_eq_true_eq]
  exact fun hfor => absurd hfor h

theorem countP_val {a : Delivery} :
    (val (some a)).countP (fun a => gives o a = true) = if gives o a = true then 1 else 0 := by
  simp only [val, Option.toList_some, Multiset.coe_countP, List.countP_singleton, decide_eq_true_eq]

/-- What besides attempts at process jobs is done to the order. -/
theorem call_besides {op : ShopOp} (h : Delivery.besides op = true) :
    ShopCall (logic o) i none op fun _ _ => True := by
  refine shop_call fun now w g f out w' hinv hg hx => ⟨?_, trivial⟩
  have hmade := made_exec hx
  have hstage : ∀ id src dst reason, op = .orderFindOneAndUpdate id src dst reason →
      src ≠ .failed ∧ dst ≠ .failed ∧ dst ≠ .pending := by
    rintro id src dst reason rfl
    simp only [Delivery.besides, QueueName.stage, Bool.or_eq_true, decide_eq_true_eq, Prod.mk.injEq] at h
    rcases h with ⟨rfl, rfl⟩ | ⟨rfl, rfl⟩ <;> simp
  refine Inv.calm (l := none) hinv hg.orderIds hmade (fun id src dst reason he => (hstage _ _ _ _ he).2.2)
    ?_ (failed_made hg.orderIds hmade ?_ ?_) ?_
  · rintro n rfl
    cases h
  · exact fun id src dst reason he _ _ => ⟨(hstage _ _ _ _ he).1, (hstage _ _ _ _ he).2.1⟩
  · rintro inp rfl
    exact of_decide_eq_true h
  · intro j hj
    obtain ⟨a, hl, -⟩ := hg.holder j hj
    cases hl

/-- The calls of an attempt that move nothing. -/
def idle : ShopOp → Bool
  | .orderFindById _ | .orderSave .. | .orderFindOneAndUpdate .. | .incrby .. | .moveToCompleted _
  | .moveToFailed _ | .orderCreate _ => false
  | _ => true

theorem call_idle {op : ShopOp} (h : idle op = true) :
    ShopCall (logic o) i (some a) op fun _ _ => True := by
  refine shop_call fun now w g f out w' hinv hg hx => ⟨?_, trivial⟩
  have hsame : Delivery.post op out (some a) = some a := by
    cases op <;> first | rfl | cases h
  rw [hsame]
  have hmade := made_exec hx
  refine Inv.calm hinv hg.orderIds hmade ?_ ?_ (failed_made hg.orderIds hmade ?_ ?_) ?_
  · rintro id src dst reason rfl
    cases h
  · rintro n rfl
    cases h
  · rintro id src dst reason rfl
    cases h
  · rintro inp rfl
    cases h
  · intro j _
    constructor <;> rintro rfl <;> cases h

/-- It reads the order. -/
theorem call_find : ShopCall (logic o) i (some a) (.orderFindById a.orderId) fun _ _ => True := by
  refine shop_call fun now w g f out w' hinv hg hx => ⟨?_, trivial⟩
  have h : Inv o w (val (some a) + g) := hinv
  have hread : w' = w := by
    rcases Store.exec_effect hx with ⟨-, q, r, hs, -⟩ | ⟨-, rfl, -⟩
    · obtain ⟨r', -, hs⟩ := Option.map_eq_some_iff.mp hs
      cases hs
      rfl
    · rfl
  subst hread
  rcases out with e | (_ | d)
  · exact h
  · exact h
  obtain ⟨job, oid, stage⟩ := a
  cases stage with
  | opened =>
    have hd : castObjectId oid = some d.id ∧ w'.order d.id = some d := by
      rcases Store.exec_effect hx with ⟨-, q, r, hs, hout⟩ | ⟨-, -, e, he⟩
      · obtain rfl := hout _ rfl
        exact order_findById hg.orderIds hs rfl
      · cases he
    have hmove : ∀ s : Delivery.Stage, Good o w' ⟨job, oid, s⟩ → gives o ⟨job, oid, s⟩ = false →
        Inv o w' (val (some ⟨job, oid, s⟩) + g) := by
      intro s hgood hgives
      have hbefore : gives o ⟨job, oid, .opened⟩ = false := by simp [gives]
      refine h.step (.refl w') (fun _ _ _ _ _ _ hn => hn) (fun a ha => ?_) ?_ .inl
        (fun j => .inl) (fun j => .inl) (fun a ha _ hstage => ?_)
      · obtain rfl := Option.some.inj ha
        exact hgood
      · rw [countP_val, countP_val, hgives, hbefore]
      · obtain rfl := Option.some.inj ha
        cases hstage
    show Inv o w' (val (some ⟨job, oid, if d.status = .pending then .found d else .passed⟩) + g)
    by_cases hpending : d.status = .pending
    · rw [if_pos hpending]
      refine hmove _ ⟨hd.1, ?_⟩ (by simp [gives])
      rintro rfl
      rw [hd.2, Option.map_some]
    · rw [if_neg hpending]
      refine hmove _ ?_ (by simp [gives])
      intro hfor
      obtain rfl : d.id = o := Option.some.inj (hd.1.symm.trans hfor)
      exact ⟨d.status, by rw [status_eq, hd.2, Option.map_some], hpending⟩
  | _ => exact h

/-- It saves the order with one more attempt. -/
theorem call_save {d : OrderDoc} (hstage : a.stage = .found d) :
    ShopCall (logic o) i (some a) (.orderSave d.id (d.paymentAttempts + 1)) fun _ _ => True := by
  refine shop_call fun now w g f out w' hinv hg hx => ⟨?_, trivial⟩
  have h : Inv o w (val (some a) + g) := hinv
  show Inv o w' (val (some { a with stage := .charging }) + g)
  have hmade := made_exec hx
  have hstatus : w'.status o = w.status o := by
    rcases hmade with rfl | ⟨q, r, hs⟩
    · rfl
    · rw [status_other rfl hs]
  have hgood : Good o w a := h.each a (Multiset.mem_add.mpr (.inl (mem_val.mpr rfl)))
  simp only [Good, hstage] at hgood
  refine h.made hg.orderIds hmade (fun _ _ _ _ he => by cases he) ?_ (fun _ b hb => ?_) ?_ ?_
    (fun _ _ he => by cases he) (fun _ _ he => by cases he) (fun b hb _ hspent => ?_)
  · -- no other attempt for the order has it read
    rintro b hb d' n hb' rfl he
    have hd : d.id = d'.id := (ShopOp.orderSave.inj he).1
    have hgood' : Good d'.id w b := h.each b (Multiset.mem_add.mpr (.inr hb))
    simp only [Good, hb'] at hgood'
    refine hg.alone a rfl ?_ (hgood.1.trans (congrArg _ hd)) b hb ?_ hgood'.1
    · rw [hstage]; rfl
    · rw [hb']; rfl
  · obtain rfl := Option.some.inj hb
    trivial
  · rw [countP_val, countP_val, hstatus]
    simp [gives, hstage]
  · exact fun hw => .inl (hstatus ▸ hw)
  · obtain rfl := Option.some.inj hb
    rw [hstage] at hspent
    cases hspent

/-- It moves the order to paid. -/
theorem call_pay {reason : Option String} (hstage : a.stage = .charging) :
    ShopCall (logic o) i (some a) (.orderFindOneAndUpdate a.orderId .pending .paid reason)
      fun _ _ => True := by
  refine shop_call fun now w g f out w' hinv hg hx => ⟨?_, trivial⟩
  have h : Inv o w (val (some a) + g) := hinv
  have hmade := made_exec hx
  have hfailed : w'.status o = some .failed ↔ w.status o = some .failed := by
    refine failed_made hg.orderIds hmade ?_ (fun _ he => by cases he)
    intro id src dst reason he _ _
    cases he
    exact ⟨(fun he => by cases he), fun he => by cases he⟩
  have hdst : ∀ id src dst reason', ShopOp.orderFindOneAndUpdate a.orderId .pending .paid reason =
      .orderFindOneAndUpdate id src dst reason' → dst ≠ .pending := by
    intro id src dst reason' he
    cases he
    exact fun he => by cases he
  cases out with
  | error e =>
    exact h.calm hg.orderIds hmade hdst (fun _ he => by cases he) hfailed
      fun _ _ => ⟨(fun he => by cases he), fun he => by cases he⟩
  | ok r =>
    show Inv o w' (val (some { a with stage := .passed }) + g)
    refine h.made hg.orderIds hmade hdst (fun _ _ _ _ _ _ he => by cases he) (fun _ b hb => ?_) ?_
      (fun hw => .inl (hfailed.mp hw)) (fun _ _ he => by cases he) (fun _ _ he => by cases he)
      (fun b hb _ hspent => ?_)
    · -- after an answer the order is pending no more
      obtain rfl := Option.some.inj hb
      intro hfor
      rcases status_update hg.orderIds hx o with ⟨hsame, hno⟩ | ⟨-, -, -, -, hpaid⟩
      · have hsome : w.status o ≠ none := hg.order a rfl hfor
        obtain ⟨s, hs⟩ := Option.ne_none_iff_exists'.mp hsome
        refine ⟨s, hsame.trans hs, ?_⟩
        rintro rfl
        refine (hno hfor).2 ?_ hs
        cases f with
        | answered q => rfl
        | failed e => cases hx
        | lost e q =>
          obtain ⟨⟨r', v⟩, -, hx⟩ := Option.map_eq_some_iff.mp hx
          cases hx
      · exact ⟨_, hpaid, fun he => by cases he⟩
    · rw [countP_val, countP_val]
      by_cases hw : w.status o = some .failed
      · simp [gives, hstage, failedBit, hw, hfailed.mpr hw]
      · simp [gives, hstage, failedBit, hw, mt hfailed.mp hw]
    · obtain rfl := Option.some.inj hb
      rw [hstage] at hspent
      cases hspent

theorem answered_exec {now : Nat} {op : ShopOp} {f : Fate Err Pick} {out : Except Err op.Ret}
    (hf : f.isAnswered = true) (hx : shopStore.exec now i op f w = some (out, w')) :
    ∃ q r, shopStore now i op q w = some (r, w') ∧ out = .ok r := by
  cases f with
  | answered q =>
    obtain ⟨⟨r, v⟩, hs, hx⟩ := Option.map_eq_some_iff.mp hx
    cases hx
    exact ⟨q, r, hs, rfl⟩
  | _ => cases hf

/-- It moves the order to failed. -/
theorem call_fail {reason : Option String} (hstage : a.stage = .spent) :
    ShopCall (logic o) i (some a) (.orderFindOneAndUpdate a.orderId .pending .failed reason)
      fun _ _ => True := by
  refine shop_call fun now w g f out w' hinv hg hx => ⟨?_, trivial⟩
  have h : Inv o w (val (some a) + g) := hinv
  have hmade := made_exec hx
  have hspent : Good o w a := h.each a (Multiset.mem_add.mpr (.inl (mem_val.mpr rfl)))
  simp only [Good, hstage] at hspent
  have hgives : gives o a = false := by simp [gives, hstage]
  have hdst : ∀ id src dst reason', ShopOp.orderFindOneAndUpdate a.orderId .pending .failed reason =
      .orderFindOneAndUpdate id src dst reason' → dst ≠ .pending := by
    intro id src dst reason' he
    cases he
    exact fun he => by cases he
  obtain ⟨q, r, hs, rfl⟩ := answered_exec (hg.answered _ rfl rfl rfl) hx
  -- what is left to show, of the stage that the answer leads to
  have hnext : ∀ s : Delivery.Stage, Good o w' { a with stage := s } →
      (if gives o { a with stage := s } = true then 1 else 0) + failedBit (w.status o) =
        failedBit (w'.status o) →
      (For o a → w'.Passed o) → (For o a ∨ (w'.status o = some .failed → w.status o = some .failed)) →
      Inv o w' (val (some { a with stage := s }) + g) := by
    intro s hgood hbalance hpassed hfailed
    refine h.made hg.orderIds hmade hdst (fun _ _ _ _ _ _ he => by cases he) (fun _ b hb => ?_) ?_
      (fun hw => ?_) (fun _ _ he => by cases he) (fun _ _ he => by cases he)
      (fun b hb hfor _ => .inl (hpassed (Option.some.inj hb ▸ hfor)))
    · obtain rfl := Option.some.inj hb
      exact hgood
    · rw [countP_val, countP_val, hgives, hbalance]
      simp
    · rcases hfailed with hfor | hsame
      · obtain ⟨j, hj⟩ := hspent hfor
        exact .inr ⟨j, jobIn_kept hmade (fun he => by cases he) hj⟩
      · exact .inl (hsame hw)
  rcases order_findOneAndUpdate hg.orderIds hs with ⟨d, rfl, hid, hsrc, hd, hw'⟩ | ⟨rfl, rfl, hne⟩
  · -- the order with that id was pending
    have hdoc : w'.order d.id =
        some { d with status := .failed, failureReason := reason.or d.failureReason } := by
      rw [hw', Function.update_self]
    show Inv o w' (val (some { a with
      stage := .owing { d with status := .failed, failureReason := reason.or d.failureReason } }) + g)
    by_cases hfor : For o a
    · obtain rfl : d.id = o := Option.some.inj (hid.symm.trans hfor)
      refine hnext _ (fun _ => by rw [hdoc]; rfl) ?_ (fun _ => ?_) (.inl hfor)
      · have hbefore : w.status d.id = some d.status := by rw [status_eq, hd, Option.map_some]
        have hafter : w'.status d.id = some .failed := by rw [status_eq, hdoc, Option.map_some]
        have hyes : gives d.id { a with stage := .owing { d with
            status := .failed, failureReason := reason.or d.failureReason } } = true := by
          simpa [gives, For] using hfor
        rw [if_pos hyes, hbefore, hafter, hsrc]
        rfl
      · exact ⟨.failed, by rw [status_eq, hdoc, Option.map_some], fun he => by cases he⟩
    · have hne : o ≠ d.id := fun he => hfor (he ▸ hid)
      have hsame : w'.status o = w.status o := by
        rw [status_eq, hw', Function.update_of_ne hne, status_eq]
      refine hnext _ (fun hfor' => absurd hfor' hfor) ?_ (fun hfor' => absurd hfor' hfor) (.inr ?_)
      · have hno : ∀ s : Delivery.Stage, gives o { a with stage := s } = false :=
          fun s => gives_of_not hfor
        rw [hno, hsame]
        simp
      · rw [hsame]
        exact fun hw => hw
  · -- there was no such order
    show Inv o w' (val (some { a with stage := .closed }) + g)
    refine hnext _ trivial ?_ (fun hfor => ?_) (.inr fun hw => hw)
    · simp [gives]
    · obtain ⟨s, hs⟩ := Option.ne_none_iff_exists'.mp (hg.order a rfl hfor)
      exact ⟨s, hs, fun he => hne o hfor (he ▸ hs)⟩

/-- It gives the units back. -/
theorem call_giveBack {d : OrderDoc} (hstage : a.stage = .owing d) :
    ShopCall (logic o) i (some a) (.incrby d.stockKey d.quantity) fun _ _ => True := by
  refine shop_call fun now w g f out w' hinv hg hx => ⟨?_, trivial⟩
  have h : Inv o w (val (some a) + g) := hinv
  obtain ⟨job, oid, stage⟩ := a
  obtain rfl : stage = .owing d := hstage
  have hmade := made_exec hx
  have howing : Good o w ⟨job, oid, .owing d⟩ :=
    h.each _ (Multiset.mem_add.mpr (.inl (mem_val.mpr rfl)))
  have hfailed : w'.status o = some .failed ↔ w.status o = some .failed :=
    failed_made hg.orderIds hmade (fun _ _ _ _ he => by cases he) (fun _ he => by cases he)
  obtain ⟨q, r, hs, rfl⟩ := answered_exec (hg.answered _ rfl rfl rfl) hx
  show Inv o w' (val (some ⟨job, oid, .repaid d⟩) + g)
  refine h.made hg.orderIds hmade (fun _ _ _ _ he => by cases he) (fun _ _ _ _ _ _ he => by cases he)
    (fun hstays b hb => ?_) ?_ (fun hw => .inl (hfailed.mp hw)) (fun _ _ he => by cases he)
    (fun _ _ he => by cases he) (fun b hb _ hspent => ?_)
  · obtain rfl := Option.some.inj hb
    exact fun hfor => hstays.units _ (howing hfor)
  · rw [countP_val, countP_val, status_other rfl hs]
    rfl
  · obtain rfl := Option.some.inj hb
    cases hspent

/-- It completes its job. -/
theorem call_complete (hstage : a.stage = .passed) :
    ShopCall (logic o) i (some a) (.moveToCompleted a.job) fun _ _ => True := by
  refine shop_call fun now w g f out w' hinv hg hx => ⟨?_, trivial⟩
  have h : Inv o w (val (some a) + g) := hinv
  have hmade := made_exec hx
  have hpassed : Good o w a := h.each a (Multiset.mem_add.mpr (.inl (mem_val.mpr rfl)))
  simp only [Good, hstage] at hpassed
  have hsame : w'.status o = w.status o := by
    rcases hmade with rfl | ⟨q, r, hs⟩
    · rfl
    · rw [status_other rfl hs]
  show Inv o w' (val (some { a with stage := .closed }) + g)
  refine h.made hg.orderIds hmade (fun _ _ _ _ he => by cases he) (fun _ _ _ _ _ _ he => by cases he)
    (fun _ b hb => ?_) ?_ (fun hw => .inl (hsame ▸ hw)) (fun j hj _ => ?_)
    (fun _ _ he => by cases he) (fun b hb _ hspent => ?_)
  · obtain rfl := Option.some.inj hb
    trivial
  · rw [countP_val, countP_val, hsame]
    simp [gives, hstage]
  · obtain ⟨b, hb, hfor⟩ := hg.holder j hj
    obtain rfl := Option.some.inj hb
    rw [Shop.Passed, hsame]
    exact hpassed hfor
  · obtain rfl := Option.some.inj hb
    rw [hstage] at hspent
    cases hspent

/-- It threw, and is told how often its job has. -/
theorem call_threw (hstage : a.stage.unsettled = true) :
    ShopCall (logic o) i (some a) (.moveToFailed a.job) fun _ _ => True := by
  refine shop_call fun now w g f out w' hinv hg hx => ⟨?_, trivial⟩
  have h : Inv o w (val (some a) + g) := hinv
  have hmade := made_exec hx
  obtain ⟨q, r, hs, rfl⟩ := answered_exec (hg.answered _ rfl rfl rfl) hx
  have hsame : w'.status o = w.status o := by rw [status_other rfl hs]
  have hnot : gives o a = false ∧ a.stage ≠ .spent := by
    cases hs : a.stage with
    | owing d => rw [hs] at hstage; cases hstage
    | repaid d => rw [hs] at hstage; cases hstage
    | spent => rw [hs] at hstage; cases hstage
    | _ => exact ⟨by simp [gives, hs], fun he => by cases he⟩
  obtain ⟨s, hmove, hgood, hlast⟩ : ∃ s : Delivery.Stage,
      a.stage.move (.moveToFailed a.job) (.ok r) = s ∧
      (s = .closed ∨ (s = .spent ∧ (For o a → ∃ j, w'.JobIn o j .failed))) ∧
      ∀ j, w.JobIn o j (.active i) → j = a.job → w'.JobIn o j .failed → s = .spent := by
    cases r with
    | none =>
      refine ⟨.closed, rfl, .inl rfl, fun j hj he hfailed => ?_⟩
      subst he
      obtain ⟨n, hn, -⟩ := told_of_last hs hj hfailed
      cases hn
    | some n =>
      by_cases hn : n < JOB_ATTEMPTS
      · refine ⟨.closed, if_pos hn, .inl rfl, fun j hj he hfailed => ?_⟩
        subst he
        obtain ⟨n', hn', hge⟩ := told_of_last hs hj hfailed
        obtain rfl := Option.some.inj hn'
        exact absurd hn (Nat.not_lt.mpr hge)
      · refine ⟨.spent, if_neg hn, .inr ⟨rfl, fun hfor => ?_⟩, fun _ _ _ _ => rfl⟩
        exact ⟨a.job, failed_of_told hs (Nat.le_of_not_lt hn) (hg.key a rfl) hfor⟩
  have hpost : Delivery.post (.moveToFailed a.job) (.ok r) (some a) = some { a with stage := s } := by
    rw [Delivery.post, Option.map_some, hmove]
  rw [hpost]
  have hgives : gives o { a with stage := s } = false := by
    rcases hgood with rfl | ⟨rfl, -⟩ <;> simp [gives]
  refine h.made hg.orderIds hmade (fun _ _ _ _ he => by cases he) (fun _ _ _ _ _ _ he => by cases he)
    (fun _ b hb => ?_) ?_ (fun hw => .inl (hsame ▸ hw)) (fun _ _ he => by cases he)
    (fun j hj hop hfailed => ?_) (fun b hb _ hspent => ?_)
  · obtain rfl := Option.some.inj hb
    rcases hgood with rfl | ⟨rfl, hjob⟩
    · trivial
    · exact hjob
  · rw [countP_val, countP_val, hsame, hgives, hnot.1]
  · obtain ⟨b, hb, hfor⟩ := hg.holder j hj
    obtain rfl := Option.some.inj hb
    exact ⟨_, rfl, hfor, hlast j hj (ShopOp.moveToFailed.inj hop).symm hfailed⟩
  · obtain rfl := Option.some.inj hb
    exact absurd hspent hnot.2

theorem call_ready {op : apiSig.Op} (h : Delivery.ready l op) :
    (logic o).Call i l op fun _ _ => True := by
  cases op with
  | inl k => exact (neutral_kv k).keeps trivial
  | inr op =>
    cases l with
    | none => exact call_besides h
    | some a =>
      cases op with
      | orderFindById id =>
        obtain rfl : id = a.orderId := h
        exact call_find
      | orderSave id n =>
        obtain ⟨d, hstage, rfl, rfl⟩ := h
        exact call_save hstage
      | orderFindOneAndUpdate id src dst reason =>
        obtain ⟨rfl, rfl, ⟨rfl, hstage⟩ | ⟨rfl, hstage⟩⟩ := h
        · exact call_pay hstage
        · exact call_fail hstage
      | incrby key n =>
        obtain ⟨d, hstage, rfl, rfl⟩ := h
        exact call_giveBack hstage
      | moveToCompleted j =>
        obtain ⟨rfl, hstage⟩ := h
        exact call_complete hstage
      | moveToFailed j =>
        obtain ⟨rfl, hstage⟩ := h
        exact call_threw hstage
      | orderCreate inp => exact absurd h id
      | _ => exact call_idle rfl

/-! ## Runs -/

/-- A step that is no call: jobs do not end in it, and a thread with account `l'` may join. -/
theorem Inv.around {m : Multiset Delivery} (h : Inv o w m) (horders : w'.orders = w.orders)
    (hkept : ∀ j, w.JobIn o j .failed → w'.JobIn o j .failed)
    (hended : ∀ j s, s = .completed ∨ s = .failed → w'.JobIn o j s → w.JobIn o j s)
    (hl' : ∀ a, l' = some a → a.stage = .opened) : Inv o w' (val l' + m) := by
  have horder : w'.order o = w.order o := by rw [Shop.order, horders, Shop.order]
  have hstatus : w'.status o = w.status o := by rw [status_eq, horder, status_eq]
  have hzero : (val l').countP (fun a => gives o a = true) = 0 := by
    rw [Multiset.countP_eq_zero]
    intro a ha
    simp [gives, hl' a (mem_val.mp ha)]
  refine Inv.step (l := none) ((zero_add m).symm ▸ h) ⟨?_, hkept, fun x hx => by rw [horder, hx]⟩
    (fun b _ d _ _ k hk => by rw [horder, hk]) (fun a ha => ?_) ?_ (fun hw => .inl (hstatus ▸ hw))
    (fun j hj => .inl (hended j _ (.inl rfl) hj)) (fun j hj => .inl (hended j _ (.inr rfl) hj))
    (fun a ha => by cases ha)
  · rintro ⟨s, hs, hne⟩
    exact ⟨s, by rw [hstatus, hs], hne⟩
  · simp only [Good, hl' a ha]
  · rw [hzero, hstatus]
    rfl

theorem retries_of_settled {c : ShopConfig} {act : ShopAct} (h : failuresSettled c act = true) :
    retriesOnly .ordersProcess c act = true := by
  cases act with
  | arrive r => rfl
  | call j f => rfl
  | _ => exact h

section Runs

variable {n : Nat} {catalog : ObjectId → Option ProductDoc} {c : ShopConfig} {t : ShopThread}

/-- The account of a thread. -/
abbrev account (t : ShopThread) : Option Delivery :=
  t.account (shopPost Delivery.post) Delivery.first

theorem no_compensate
    (h : shopSystem.Reachable (fun c a => failuresSettled c a = true) (freshShop n catalog) c)
    (ht : t ∈ c.pool) (oid reason : String) : t.req ≠ .compensate oid reason := by
  have hnone : ShopReq.compensate oid reason ∉ c.pool.map (·.req) := by
    refine h.invariant (I := fun c => ShopReq.compensate oid reason ∉ c.pool.map (·.req))
      (fun hmem => by cases hmem) ?_
    intro c a c' _ ih hok hs hmem
    rcases step_reqs hs with ⟨r, rfl, hreqs⟩ | ⟨-, hreqs⟩
    · rw [hreqs, List.mem_append, List.mem_singleton] at hmem
      rcases hmem with hmem | rfl
      · exact ih hmem
      · cases hok
    · exact ih (hreqs ▸ hmem)
  exact fun he => hnone (he ▸ List.mem_map_of_mem ht)

theorem account_deliver {j : Nat} {oid : String} (hreq : t.req = .deliver j .ordersProcess oid) :
    ∃ s, account t = some ⟨j, oid, s⟩ :=
  Delivery.account_some (b := ⟨j, oid, .opened⟩) (by rw [hreq]; rfl)

theorem req_of_account
    (h : shopSystem.Reachable (fun c a => failuresSettled c a = true) (freshShop n catalog) c)
    (ht : t ∈ c.pool) (ha : account t = some a) : t.req = .deliver a.job .ordersProcess a.orderId := by
  by_cases hreq : ∃ j oid, t.req = .deliver j .ordersProcess oid
  · obtain ⟨j, oid, hreq⟩ := hreq
    obtain ⟨s, hs⟩ := account_deliver hreq
    obtain rfl := Option.some.inj (hs.symm.trans ha)
    exact hreq
  · have hnone : Delivery.first t.id t.req = none := by
      cases hr : t.req with
      | deliver j q oid =>
        cases q with
        | ordersProcess => exact absurd ⟨j, oid, hr⟩ hreq
        | _ => rfl
      | compensate oid reason => exact absurd hr (no_compensate h ht oid reason)
      | _ => rfl
    rw [account, Delivery.account_none hnone] at ha
    cases ha

theorem key_of_account
    (h : shopSystem.Reachable (fun c a => failuresSettled c a = true) (freshShop n catalog) c)
    (ht : t ∈ c.pool) (ha : account t = some a) :
    c.world.2.jobKeys[a.job]? = some (.ordersProcess, a.orderId) :=
  delivered_at h t ht _ _ _ (req_of_account h ht ha)

/-- An attempt that has not settled its job has it. -/
theorem locked_of_account
    (h : shopSystem.Reachable (fun c a => failuresSettled c a = true) (freshShop n catalog) c)
    (ht : c.pool[i]? = some t) (ha : account t = some a) (hstage : a.stage.unsettled = true) :
    c.world.2.Locked a.job .ordersProcess a.orderId i := by
  have hmem := List.mem_of_getElem? ht
  refine lock_held_in (fun _ _ hok => keepsLocksIn_of_retries (retries_of_settled hok)) h i t ht _ _
    (req_of_account h hmem ha) ?_
  exact h.trace_of_state (I := fun l => ∃ a : Delivery, l = some a ∧ a.stage.unsettled = true)
    (A := fun op => settles op = false) rfl Delivery.follows_request Delivery.unsettled_back t hmem
    ⟨a, ha, hstage⟩

/-- Of two attempts for one order, one has settled its job. -/
theorem alone_of_accounts
    (h : shopSystem.Reachable (fun c a => failuresSettled c a = true) (freshShop n catalog) c)
    {j : Nat} {u : ShopThread} {b : Delivery} (ht : c.pool[i]? = some t) (hu : c.pool[j]? = some u)
    (hne : j ≠ i) (ha : account t = some a) (hb : account u = some b) (hfor : For o a)
    (hstage : a.stage.unsettled = true) (hstage' : b.stage.unsettled = true) : ¬For o b := by
  intro hfor'
  obtain ⟨m, hm⟩ := locked_of_account h ht ha hstage
  obtain ⟨m', hm'⟩ := locked_of_account h hu hb hstage'
  have hsame : a.job = b.job := one_job h
    ⟨a.orderId, key_of_account h (List.mem_of_getElem? ht) ha, hfor⟩
    ⟨b.orderId, key_of_account h (List.mem_of_getElem? hu) hb, hfor'⟩
  rw [← hsame, hm] at hm'
  have hlock := congrArg Job.state (Option.some.inj hm')
  exact hne (JobState.active.inj hlock).symm

theorem assumed
    (h : shopSystem.Reachable (fun c a => failuresSettled c a = true) (freshShop n catalog) c)
    {f : Fate Err Pick} {op : apiSig.Op} (hok : failuresSettled c (.call i f) = true)
    (ht : c.pool[i]? = some t) (hop : t.prog.next = some op) (o : ObjectId) :
    Assumed o t.id (account t)
      (System.worth (logic o) Delivery.first (c.pool.eraseIdx i)) c.world.2 op f := by
  have hmem := List.mem_of_getElem? ht
  have hid : t.id = i := h.id_eq rfl i t ht
  refine ⟨orderIds_reachable h, fun a ha => key_of_account h hmem ha, fun a ha hfor => ?_,
    fun j hj => ?_, fun a ha hstage hfor b hb hstage' => ?_, fun op' he hsome hsettles => ?_⟩
  · exact job_order h ⟨a.orderId, key_of_account h hmem ha, hfor⟩
  · obtain ⟨d, hd, hq, hoid, hactive⟩ := hj
    obtain ⟨u, hu, hreq⟩ := attempt_of h hd hactive
    rw [hid, ht] at hu
    obtain rfl := Option.some.inj hu
    rw [hq] at hreq
    obtain ⟨s, hs⟩ := account_deliver hreq
    exact ⟨_, hs, hoid⟩
  · obtain ⟨u, hu, hb⟩ := System.mem_worth_of.mp hb
    obtain ⟨k, hne, hk⟩ := List.mem_eraseIdx_iff_getElem?.mp hu
    exact alone_of_accounts h ht hk hne ha (mem_val.mp hb) hfor hstage hstage'
  · subst he
    obtain ⟨a, ha⟩ := Option.isSome_iff_exists.mp hsome
    simpa [failuresSettled, ht, req_of_account h hmem ha, hop, hsettles] using hok

theorem outline (n : Nat) (catalog : ObjectId → Option ProductDoc) (o : ObjectId) :
    shopSystem.Outline (fun c a => failuresSettled c a = true) (freshShop n catalog) (logic o)
      Delivery.first fun _ _ => Delivery.Done where
  store := rfl
  start := by
    have hnojob : ∀ j s, ¬(Shop.fresh catalog).JobIn o j s := by
      rintro j s ⟨d, hd, -⟩
      cases hd
    exact ⟨rfl, fun a ha => absurd ha (Multiset.notMem_zero a), rfl, (fun he => by cases he),
      fun j hj => absurd hj (hnojob _ _), fun j hj => absurd hj (hnojob _ _)⟩
  arrive := by
    intro c r w' hr hok hacc hinv
    refine ⟨?_, (Delivery.follows_request _ r).safe fun l op => call_ready⟩
    have horders := (accept_same hacc).2.orders (fun he => by cases he)
    refine Inv.around hinv horders (fun j => (jobIn_accept (s := .failed) hacc).1)
      (fun j s hs => (jobIn_accept hacc).2 hs) ?_
    cases r with
    | deliver j q oid =>
      cases q with
      | ordersProcess => exact fun a ha => Option.some.inj ha ▸ rfl
      | _ => exact fun a ha => by cases ha
    | compensate oid reason => cases hok
    | _ => exact fun a ha => by cases ha
  tick := fun _ _ _ h => h
  env := by
    intro c g e w' hok he hinv
    obtain ⟨w, hs, rfl⟩ := Option.map_eq_some_iff.mp he
    have hjobs := fun j s => jobIn_surroundings (o := o) (j := j) (s := s) (retries_of_settled hok) hs
    have h : Inv o w (val none + g) := Inv.around hinv (surroundings_same hs).1.orders
      (fun j => (hjobs j .failed).1) (fun j s => (hjobs j s).2) (fun a ha => by cases ha)
    rwa [show val none + g = g from zero_add g] at h
  guard := by
    intro c i f t op k hr hok ht hp hinv
    exact assumed hr hok ht (by rw [hp]; rfl) o

end Runs

end Compensation
end Flashkart
