import Flashkart.Shop.Orders

/-!
# Shop.Charge

How often an order is charged. The handler of the process queue reads the status, charges, and
then moves the order from pending to paid; these are three calls, and nothing holds the order in
between.

* `charged_once`  — if an order is only charged while it is pending and nobody else has an open
  charge of it, and an open charge is neither dropped nor overtaken by the compensation, then it
  is charged at most once, once if it was paid and never if it failed.
* `charged_twice` — the retry after an update that failed charges again.
-/

namespace Flashkart

open Async Logic

/-- The successful charges of an order. -/
def Shop.chargesOf (o : ObjectId) (w : Shop) : Nat :=
  w.charges.countP fun s => castObjectId s = some o

/-- 1 for an order that has been paid. -/
def paidBit : Option OrderStatus → Nat
  | some .paid | some .fulfilled | some .confirmed => 1
  | _ => 0

namespace Charge

/-- The open charges of a thread: charges of `o` after which it has not yet tried to move `o` to
paid. -/
def post (o : ObjectId) : (op : ShopOp) → Except Err op.Ret → Nat → Nat
  | .chargePayment oid _, .ok _, l => if castObjectId oid = some o then l + 1 else l
  | .orderFindOneAndUpdate oid .pending .paid _, _, l => if castObjectId oid = some o then 0 else l
  | _, _, l => l

/-- With `l` open charges of its own and `g` of all others, the thread may make this call. -/
def allowed (o : ObjectId) (l g : Nat) (w : Shop) : ShopOp → Fate Err Pick → Bool
  | .chargePayment oid _, f =>
    castObjectId oid != some o ||
      match f with
      | .answered _ => l + g == 0 && w.status o == some .pending
      | .failed _ => true
      | .lost _ _ => false
  | .orderFindOneAndUpdate oid .pending .paid _, f =>
    castObjectId oid != some o || f.effective || l == 0
  | .orderFindOneAndUpdate oid .pending .failed _, f =>
    castObjectId oid != some o || !f.effective || l + g == 0
  | _, _ => true

/-- Every charge is an open one or has made the order a paid one. -/
structure Inv (o : ObjectId) (w : Shop) (g : Nat) : Prop where
  charges : w.chargesOf o = g + paidBit (w.status o)
  one : g ≤ 1
  pending : 1 ≤ g → w.status o = some .pending

def guard (o : ObjectId) (_ : Nat) (l g : Nat) (w : Shop) (op : apiSig.Op) (f : Fate Err Pick) :
    Prop :=
  w.OrderIds ∧ ∀ op', op = .inr op' → allowed o l g w op' f = true

def logic (o : ObjectId) : ShopLogic Nat Nat := shopLogic (guard o) (Inv o) (post o) id

variable {o : ObjectId} {i l : Nat}

theorem Inv.congr {w w' : Shop} {g : Nat} (h : Inv o w g) (hs : w'.status o = w.status o)
    (hc : w'.chargesOf o = w.chargesOf o) : Inv o w' g := by
  refine ⟨?_, h.one, ?_⟩
  · rw [hs, hc]; exact h.charges
  · rw [hs]; exact h.pending

/-- The calls that neither charge nor move an order. -/
theorem neutral {op : ShopOp} (hm : op.movesOrders = false) (hc : op.writes ≠ .charges) :
    (logic o).Neutral (.inr op) := by
  intro i l
  refine shop_call fun now w g f out w' hinv hg hx => ?_
  have hpost : post o op out l = l := by
    cases op with
    | chargePayment oid n => exact absurd rfl hc
    | orderFindOneAndUpdate id src dst reason => cases hm
    | _ => rfl
  rw [hpost]
  refine ⟨?_, rfl⟩
  rcases Store.exec_effect hx with ⟨-, q, a, h, -⟩ | ⟨-, rfl, -⟩
  · refine hinv.congr (by rw [status_other hm h]) ?_
    rw [Shop.chargesOf, (shopStore_same h).charges hc, Shop.chargesOf]
  · exact hinv

theorem neutral_orderCreate {inp : OrderInput} (hp : inp.status = .pending) :
    (logic o).Neutral (.inr (.orderCreate inp)) := by
  intro i l
  refine shop_call fun now w g f out w' hinv hg hx => ⟨?_, rfl⟩
  have hsame : Inv o w (l + g) := hinv
  rcases Store.exec_effect hx with ⟨-, q, a, h, -⟩ | ⟨-, rfl, -⟩
  · have hcharges : w'.chargesOf o = w.chargesOf o := by
      rw [Shop.chargesOf, (shopStore_same h).charges (fun he => by cases he), Shop.chargesOf]
    obtain ⟨hnone, hstatus⟩ := status_orderCreate h
    by_cases hid : o = a
    · subst hid
      have hzero : ¬1 ≤ l + g := fun h1 => by
        have := hsame.pending h1
        rw [hnone] at this
        cases this
      refine ⟨?_, hsame.one, fun h1 => absurd h1 hzero⟩
      have := hsame.charges
      rw [hnone] at this
      rw [hcharges, hstatus, Function.update_self, hp]
      exact this
    · exact hsame.congr (by rw [hstatus, Function.update_of_ne hid]) hcharges
  · exact hsame

/-- What an update does to the books of `o`: nothing, or it moved `o`. -/
theorem update_cases {now : Nat} {f : Fate Err Pick} {w w' : Shop} {oid : String}
    {src dst : OrderStatus} {reason : Option String} {out : Except Err (Option OrderDoc)}
    (hn : w.OrderIds)
    (hx : shopStore.exec now i (.orderFindOneAndUpdate oid src dst reason) f w = some (out, w')) :
    w'.chargesOf o = w.chargesOf o ∧
      ((w'.status o = w.status o ∧
          (castObjectId oid = some o → f.effective = true → w.status o ≠ some src)) ∨
        (castObjectId oid = some o ∧ f.effective = true ∧ w.status o = some src ∧
          w'.status o = some dst)) := by
  have hcharges : w'.chargesOf o = w.chargesOf o := by
    rw [Shop.chargesOf, (exec_same hx).charges (fun he => by cases he), Shop.chargesOf]
  refine ⟨hcharges, ?_⟩
  rcases status_update hn hx o with ⟨hsame, hne⟩ | ⟨hid, hf, -, hs, hs'⟩
  · exact .inl ⟨hsame, fun ho => (hne ho).2⟩
  · exact .inr ⟨hid, hf, hs, hs'⟩

/-- The steps of an order that has been paid. -/
theorem neutral_stage {oid : String} {src dst : OrderStatus} {reason : Option String}
    (hsrc : src ≠ .pending) (hbit : paidBit (some dst) = paidBit (some src)) :
    (logic o).Neutral (.inr (.orderFindOneAndUpdate oid src dst reason)) := by
  intro i l
  refine shop_call fun now w g f out w' hinv hg hx => ?_
  have hpost : post o (.orderFindOneAndUpdate oid src dst reason) out l = l := by
    cases src <;> first | rfl | exact absurd rfl hsrc
  rw [hpost]
  refine ⟨?_, rfl⟩
  obtain ⟨hcharges, ⟨hsame, -⟩ | ⟨-, -, hs, hs'⟩⟩ := update_cases (o := o) hg.1 hx
  · exact hinv.congr hsame hcharges
  · have hzero : ¬1 ≤ l + g := fun h1 => by
      have := hinv.pending h1
      rw [hs] at this
      exact hsrc (Option.some.inj this)
    refine ⟨?_, hinv.one, fun h1 => absurd h1 hzero⟩
    rw [hcharges, hs', hbit, ← hs]
    exact hinv.charges

/-- The compensation finds no open charge. -/
theorem neutral_fail {oid : String} {reason : Option String} :
    (logic o).Neutral (.inr (.orderFindOneAndUpdate oid .pending .failed reason)) := by
  intro i l
  refine shop_call fun now w g f out w' hinv hg hx => ⟨?_, rfl⟩
  have hsame' : Inv o w (l + g) := hinv
  obtain ⟨hcharges, ⟨hsame, -⟩ | ⟨hid, hf, hs, hs'⟩⟩ := update_cases (o := o) hg.1 hx
  · exact hsame'.congr hsame hcharges
  · have hzero : l + g = 0 := by
      have := hg.2 _ rfl
      simpa [allowed, hid, hf] using this
    show Inv o w' (l + g)
    refine ⟨?_, hsame'.one, fun h1 => by omega⟩
    have := hsame'.charges
    rw [hs] at this
    rw [hcharges, hs']
    exact this

/-- The open charges a thread has after the charge in the job `oid`. -/
def due (o : ObjectId) (oid : String) : Nat := if castObjectId oid = some o then 1 else 0

theorem call_charge {oid : String} {n : Nat} (hl : l = 0) :
    ShopCall (logic o) i l (.chargePayment oid n)
      (Ends (fun _ l' => l' = due o oid) fun l' => l' = 0) := by
  subst hl
  refine shop_call fun now w g f out w' hinv hg hx => ?_
  have hallowed := hg.2 _ rfl
  have hsame : Inv o w (0 + g) := hinv
  rcases Store.exec_cases hx with ⟨q, a, rfl, h, rfl⟩ | ⟨e, rfl, rfl, rfl⟩ | ⟨e, q, a, rfl, h, rfl⟩
  · cases h
    by_cases hid : castObjectId oid = some o
    · have hopen : g = 0 ∧ w.status o = some .pending := by
        simpa [allowed, hid] using hallowed
      have hpost : post o (.chargePayment oid n) (.ok ()) 0 = 1 := if_pos hid
      rw [hpost]
      refine ⟨?_, (if_pos hid).symm⟩
      show Inv o { w with charges := w.charges ++ [oid] } (1 + g)
      refine ⟨?_, by omega, fun _ => hopen.2⟩
      have := hsame.charges
      have hcount : Shop.chargesOf o { w with charges := w.charges ++ [oid] } =
          w.chargesOf o + 1 := by simp [Shop.chargesOf, hid]
      rw [hcount, this]
      show 0 + g + paidBit (w.status o) + 1 = 1 + g + paidBit (w.status o)
      omega
    · have hpost : post o (.chargePayment oid n) (.ok ()) 0 = 0 := if_neg hid
      rw [hpost]
      refine ⟨hsame.congr rfl ?_, (if_neg hid).symm⟩
      simp [Shop.chargesOf, hid]
  · exact ⟨hsame, rfl⟩
  · have hid : castObjectId oid ≠ some o := by
      intro hid
      simp [allowed, hid] at hallowed
    cases h
    refine ⟨hsame.congr rfl ?_, rfl⟩
    simp [Shop.chargesOf, hid]

/-- The update that follows the charge closes it: the order was pending, and is paid now. -/
theorem call_pay {oid : String} {reason : Option String} (hl : l = due o oid) :
    ShopCall (logic o) i l (.orderFindOneAndUpdate oid .pending .paid reason)
      fun _ l' => l' = 0 := by
  subst hl
  refine shop_call fun now w g f out w' hinv hg hx => ?_
  have hpost : post o (.orderFindOneAndUpdate oid .pending .paid reason) out (due o oid) = 0 := by
    unfold due
    by_cases hid : castObjectId oid = some o <;> simp [post, hid]
  rw [hpost]
  refine ⟨?_, rfl⟩
  have hsame' : Inv o w (due o oid + g) := hinv
  show Inv o w' (0 + g)
  rw [Nat.zero_add]
  obtain ⟨hcharges, ⟨hsame, hne⟩ | ⟨hid, hf, hs, hs'⟩⟩ := update_cases (o := o) hg.1 hx
  · by_cases hid : castObjectId oid = some o
    · -- the order is pending, so the update can only have failed without effect
      have hdue : due o oid = 1 := if_pos hid
      have hpending := hsame'.pending (by omega)
      have hf : f.effective = true := by
        have := hg.2 _ rfl
        simpa [allowed, hid, hdue] using this
      exact absurd hpending (hne hid hf)
    · have hdue : due o oid = 0 := if_neg hid
      rw [hdue, Nat.zero_add] at hsame'
      exact hsame'.congr hsame hcharges
  · have hdue : due o oid = 1 := if_pos hid
    have hone := hsame'.one
    have hc := hsame'.charges
    rw [hdue] at hone hc
    refine ⟨?_, by omega, fun h1 => by omega⟩
    rw [hcharges, hc, hs, hs']
    show 1 + g + 0 = g + 1
    omega

/-! ## Requests -/

/-- The calls of every request but the deliveries of the process queue. -/
def quiet : ShopOp → Bool
  | .chargePayment .. => false
  | .orderCreate r => r.status = .pending
  | .orderFindOneAndUpdate _ src dst _ =>
    (src, dst) = QueueName.ordersFulfill.stage || (src, dst) = QueueName.ordersNotify.stage ||
      (src = .pending && dst = .failed)
  | _ => true

theorem neutral_of_quiet {op : ShopOp} (h : quiet op = true) : (logic o).Neutral (.inr op) := by
  cases op with
  | chargePayment oid n => cases h
  | orderCreate r => exact neutral_orderCreate (of_decide_eq_true h)
  | orderFindOneAndUpdate id src dst reason =>
    simp only [quiet, Bool.or_eq_true, Bool.and_eq_true, decide_eq_true_eq] at h
    rcases h with (h | h) | ⟨rfl, rfl⟩
    · cases h; exact neutral_stage (fun he => by cases he) rfl
    · cases h; exact neutral_stage (fun he => by cases he) rfl
    · exact neutral_fail
  | _ => exact neutral rfl (fun he => by cases he)

theorem quiet_of_may {r : ShopReq} (hr : ∀ j oid, r ≠ .deliver j .ordersProcess oid) {op : ShopOp}
    (h : r.may op = true) : quiet op = true := by
  cases op with
  | chargePayment oid n =>
    cases r with
    | deliver j q oid' => cases q <;> first | exact absurd rfl (hr _ _) | cases h
    | _ => cases h
  | orderCreate inp =>
    cases r with
    | postBuy req => exact h
    | deliver j q oid' => cases q <;> cases h
    | _ => cases h
  | orderFindOneAndUpdate id src dst reason =>
    cases r with
    | deliver j q oid' =>
      cases q with
      | ordersProcess => exact absurd rfl (hr _ _)
      | ordersFulfill =>
        simp only [ShopReq.may, handlerMay, reduceCtorEq, decide_false, Bool.false_and,
          Bool.or_false, Bool.and_eq_true] at h
        simp [quiet, h.2]
      | ordersNotify =>
        simp only [ShopReq.may, handlerMay, reduceCtorEq, decide_false, Bool.false_and,
          Bool.or_false, Bool.and_eq_true] at h
        simp [quiet, h.2]
    | compensate oid' reason' =>
      simp only [ShopReq.may, compensationMay] at h
      simp [quiet, h]
    | _ => cases h
  | _ => rfl

theorem safe_quiet {α : Type} {m : ShopProg α} (h : m.Calls fun op => quiet op = true) :
    (logic o).Safe i m.inr l fun _ l' => l' = l :=
  safe_inr_of_neutral (h.mono fun _ hop => neutral_of_quiet hop)

/-- The account of the process handler is 1 between the charge and the update, else 0. -/
theorem safe_processHandler (oid : String) :
    (logic o).Safe i (processHandler oid).inr 0 fun _ l' => l' = 0 := by
  rw [processHandler, Prog.bind_eq, Prog.inr_bind]
  refine .inr_op (neutral_of_quiet rfl i 0) ?_ fun e l' h => h
  rintro order l₁ rfl
  cases order with
  | none => exact rfl
  | some d =>
    dsimp only
    split
    · exact rfl
    · rw [Prog.bind_eq, Prog.inr_bind]
      refine .inr_op (neutral_of_quiet rfl i 0) ?_ fun e l' h => h
      rintro u l₂ rfl
      rw [Prog.bind_eq, Prog.inr_bind]
      refine .inr_op (call_charge rfl) ?_ fun e l' h => h
      intro u l₃ h₃
      rw [advance, Prog.bind_eq, Prog.inr_bind]
      refine .inr_op (call_pay h₃) ?_ fun e l' h => h
      rintro r l₄ rfl
      cases r with
      | none => exact rfl
      | some d =>
        refine safe_quiet (Prog.calls_bind (calls_publish rfl fun _ => rfl) fun _ => ?_)
        exact (Prog.calls_op _).mpr rfl

theorem safe_runProcess (job : Nat) (oid : String) :
    (logic o).Safe i (runJob job .ordersProcess oid).inr 0 fun _ l' => l' = 0 := by
  rw [runJob_eq, Prog.inr_bind, Prog.inr_tryCatch]
  refine safe_bind.mpr (safe_tryCatch.mpr ?_)
  have hafter : ∀ threw, (settleJob job .ordersProcess oid threw).Calls
      fun op => quiet op = true := by
    intro threw
    cases threw with
    | none => exact (Prog.calls_op _).mpr rfl
    | some err =>
      refine calls_bind_op rfl fun n => ?_
      unfold onFailed
      split
      · split
        · trivial
        · refine Prog.calls_tryCatch ((calls_compensate oid _).mono fun op hop => ?_)
            fun _ => trivial
          cases op with
          | orderFindOneAndUpdate id src dst reason =>
            simp only [compensationMay] at hop
            simp [quiet, hop]
          | _ => first | rfl | cases hop
      · trivial
  rw [Prog.bind_eq, Prog.inr_bind]
  refine safe_bind.mpr ((safe_processHandler oid).mono ?_)
  rintro (e | u) l' rfl
  · exact safe_quiet (hafter (some e))
  · exact safe_quiet (hafter none)

theorem safe_request (r : ShopReq) : (logic o).Safe i (shopProg r) 0 fun _ l' => l' = 0 := by
  by_cases hr : ∃ j oid, r = .deliver j .ordersProcess oid
  · obtain ⟨j, oid, rfl⟩ := hr
    refine safe_bind.mpr ((safe_runProcess j oid).mono ?_)
    rintro (e | u) l' rfl <;> exact rfl
  · refine safe_of_neutral ((calls_shopProg r).mono ?_)
    rintro (k | op) hop
    · exact neutral_kv k
    · exact neutral_of_quiet (quiet_of_may (fun j oid h => hr ⟨j, oid, h⟩) hop)

end Charge

/-- The charges of `o` a thread has made and not yet followed by the update. -/
def openCharges (o : ObjectId) (t : ShopThread) : Nat :=
  t.account (shopPost (Charge.post o)) fun _ _ => 0

/-- `o` is charged only while it is pending and no other thread has an open charge of it, and the
gateway keeps its word; the update of a thread with an open charge does not fail without effect;
the compensation fails the order only when no charge of it is open. -/
def chargeSafe (o : ObjectId) (c : ShopConfig) : ShopAct → Bool
  | .call i f => (c.pool[i]?).all fun t =>
    match t.prog.next with
    | some (.inr op) =>
      Charge.allowed o (openCharges o t) ((c.pool.eraseIdx i).map (openCharges o)).sum c.world.2
        op f
    | _ => true
  | _ => true

namespace Charge

theorem outline (n : Nat) (catalog : ObjectId → Option ProductDoc) (o : ObjectId) :
    shopSystem.Outline (fun c a => chargeSafe o c a = true) (freshShop n catalog) (logic o)
      (fun _ _ => 0) fun _ _ _ l => l = 0 where
  store := rfl
  start := ⟨rfl, rfl, Nat.zero_le _, nofun⟩
  arrive := by
    intro c r w' _ _ hacc hinv
    refine ⟨?_, safe_request r⟩
    have hsame := (accept_same hacc).2
    have hstatus : w'.2.status o = c.world.2.status o := by
      rw [Shop.status, hsame.orders (fun he => by cases he), Shop.status]
    have hcharges : w'.2.chargesOf o = c.world.2.chargesOf o := by
      rw [Shop.chargesOf, hsame.charges (fun he => by cases he), Shop.chargesOf]
    show Inv o w'.2 (0 + _)
    rw [Nat.zero_add]
    exact Inv.congr hinv hstatus hcharges
  tick := fun _ _ _ h => h
  env := by
    intro c g e w' _ he hinv
    obtain ⟨s, hs, rfl⟩ := Option.map_eq_some_iff.mp he
    obtain ⟨hsame, -⟩ := surroundings_same hs
    refine Inv.congr hinv ?_ ?_
    · rw [Shop.status, hsame.orders, Shop.status]
    · rw [Shop.chargesOf, hsame.charges, Shop.chargesOf]
  guard := by
    intro c j f t op k hr hok ht hp _
    refine ⟨orderIds_reachable hr, ?_⟩
    rintro op' rfl
    have hallowed : allowed o (openCharges o t)
        ((c.pool.eraseIdx j).map (openCharges o)).sum c.world.2 op' f = true := by
      simpa [chargeSafe, ht, hp, Prog.next] using hok
    exact hallowed

end Charge

/-- **The payment ledger.** In every run that meets the condition, an order is charged at most
once, exactly once when it has been paid, and never when it has failed. -/
theorem charged_once {n : Nat} {catalog : ObjectId → Option ProductDoc} {o : ObjectId}
    {c : ShopConfig}
    (h : shopSystem.Reachable (fun c a => chargeSafe o c a = true) (freshShop n catalog) c) :
    c.world.2.chargesOf o ≤ 1 ∧ ∀ s, c.world.2.status o = some s →
      (s = .paid ∨ s = .fulfilled ∨ s = .confirmed → c.world.2.chargesOf o = 1) ∧
        (s = .failed → c.world.2.chargesOf o = 0) := by
  obtain ⟨hinv, -⟩ := (Charge.outline n catalog o).adequate h
  have hc := hinv.charges
  have hone := hinv.one
  have hnotPending : ∀ s, c.world.2.status o = some s → s ≠ .pending →
      c.world.2.chargesOf o = paidBit (some s) := by
    intro s hs hne
    have hzero : ¬1 ≤ System.worth (Charge.logic o) (fun _ _ => 0) c.pool := fun h1 => by
      have := hinv.pending h1
      rw [hs] at this
      exact hne (Option.some.inj this)
    rw [hs] at hc
    omega
  refine ⟨?_, ?_⟩
  · cases hs : c.world.2.status o with
    | none =>
      rw [hs] at hc
      have : paidBit none = 0 := rfl
      omega
    | some s =>
      by_cases hp : s = .pending
      · rw [hs, hp] at hc
        have : paidBit (some .pending) = 0 := rfl
        omega
      · rw [hnotPending s hs hp]
        cases s <;> decide
  · intro s hs
    refine ⟨?_, ?_⟩
    · rintro (rfl | rfl | rfl) <;> exact hnotPending _ hs (fun he => by cases he)
    · rintro rfl
      exact hnotPending _ hs (fun he => by cases he)

theorem charged_once_paid :
    ∃ c, shopSystem.Reachable (fun c a => chargeSafe idB c a = true) (freshShop 0 (oneProduct 1)) c ∧
      c.world.2.status idB = some .paid ∧ c.world.2.chargesOf idB = 1 := by
  have hrun : (shopSystem.run (chargeSafe idB) (freshShop 0 (oneProduct 1)) (orderPlaced ++
      .arrive (.deliver 0 .ordersProcess idB.toString) :: callsOf 1 4 idB)).map (fun c =>
        c.world.2.status idB) = some (some .paid) := by decide
  obtain ⟨c, hc, hs⟩ := Option.map_eq_some_iff.mp hrun
  have hr := System.Reachable.of_run hc
  exact ⟨c, hr, hs, ((charged_once hr).2 _ hs).1 (.inl rfl)⟩

/-- The gateway either throws without a charge or returns having charged. -/
def gatewayHonest (c : ShopConfig) : ShopAct → Bool
  | .call i (.lost _ _) =>
    match c.next i with
    | some (.inr (.chargePayment ..)) => false
    | _ => true
  | _ => true

/-- The update after the charge fails; the retry finds the order pending and charges it again. -/
theorem charged_twice :
    ¬∀ (n : Nat) (catalog : ObjectId → Option ProductDoc) (o : ObjectId) (c : ShopConfig),
      shopSystem.Reachable (fun c a => gatewayHonest c a = true) (freshShop n catalog) c →
      c.world.2.chargesOf o ≤ 1 := by
  have hrun : (shopSystem.run gatewayHonest (freshShop 0 (oneProduct 1)) (orderPlaced ++
      .arrive (.deliver 0 .ordersProcess idB.toString) :: callsOf 1 3 idB ++
      .call 1 (.failed (.error "not primary")) :: callsOf 1 1 idB ++
      .env (.promote 0) :: .arrive (.deliver 0 .ordersProcess idB.toString) ::
        callsOf 2 3 idB)).map (fun c => c.world.2.chargesOf idB) = some 2 := by decide
  obtain ⟨c, hc, hs⟩ := Option.map_eq_some_iff.mp hrun
  intro h
  have := h 0 _ idB c (.of_run hc)
  omega

end Flashkart
