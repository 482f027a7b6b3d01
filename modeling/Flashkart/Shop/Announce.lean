import Flashkart.Shop.Progress

/-!
# Shop.Announce

The order events. A handler moves the order, then publishes the new status, then adds the job of
the next stage; no lock orders the handlers of one order. What orders its events is that a
stage's job exists only once the event before it is out.

* `announced_in_order` — in every run, whatever fails and however often a job is delivered, the
  events of an order are those of its first steps, each once and in their order.
-/

namespace Flashkart

open Async Logic

/-- The statuses announced for an order, in the order of their events. -/
def Shop.announced (o : ObjectId) (w : Shop) : List OrderStatus :=
  (w.orderChannel.filter fun ev => castObjectId ev.orderId = some o).map (·.status)

/-- The steps an order has made when it has the status. -/
def milestones : Option OrderStatus → List OrderStatus
  | none | some .pending => []
  | some .paid => [.paid]
  | some .fulfilled => [.paid, .fulfilled]
  | some .confirmed => [.paid, .fulfilled, .confirmed]
  | some .failed => [.failed]

theorem milestones_next {s s' : OrderStatus} (h : s.Next s') :
    milestones (some s') = milestones (some s) ++ [s'] := by
  cases h <;> rfl

theorem milestones_chain (s : Option OrderStatus) :
    milestones s <+: [.paid, .fulfilled, .confirmed] ∨ milestones s <+: [.failed] := by
  cases s with
  | none => exact .inl List.nil_prefix
  | some s =>
    cases s <;> simp [milestones]

theorem announced_publish {o : ObjectId} {w : Shop} {ev : OrderEvent} :
    Shop.announced o { w with orderChannel := w.orderChannel ++ [ev] } =
      if castObjectId ev.orderId = some o then w.announced o ++ [ev.status]
      else w.announced o := by
  by_cases h : castObjectId ev.orderId = some o <;> simp [Shop.announced, h]

namespace Announce

/-- Where a thread is between a move of `o` and the job that follows it. -/
inductive Phase where
  | idle
  | toPublish (s : OrderStatus)
  | toEnqueue (s : OrderStatus)
  deriving DecidableEq

def post (o : ObjectId) : (op : ShopOp) → Except Err op.Ret → Phase → Phase
  | .orderFindOneAndUpdate id _ dst _, .ok (some _), l =>
    if castObjectId id = some o then .toPublish dst else l
  | .publishOrder ev, .ok _, l =>
    if castObjectId ev.orderId = some o then .toEnqueue ev.status else l
  | .publishOrder ev, .error _, l => if castObjectId ev.orderId = some o then .idle else l
  | _, _, l => l

/-- A thread counts as one in its phase. -/
def val (l : Phase) : Phase → Nat := Pi.single l 1

/-- `g` counts the threads in each phase. A job is added, and will be, only when the events before
its stage are out. -/
structure Inv (o : ObjectId) (w : Shop) (g : Phase → Nat) : Prop where
  behind : w.announced o <+: milestones (w.status o)
  publishing : ∀ s, 1 ≤ g (.toPublish s) → g (.toPublish s) = 1 ∧ w.status o = some s ∧
    w.announced o ++ [s] = milestones (some s)
  enqueuing : ∀ s, 1 ≤ g (.toEnqueue s) → milestones (some s) <+: w.announced o
  added : ∀ q oid, (q, oid) ∈ w.jobKeys → castObjectId oid = some o →
    milestones (some q.stage.1) <+: w.announced o

def guard (_ : Nat) (_ : Phase) (_ : Phase → Nat) (w : Shop) (op : apiSig.Op)
    (_ : Fate Err Pick) : Prop :=
  w.OrderIds ∧ ∀ op', op = .inr op' → w.Justifies op'

def logic (o : ObjectId) : ShopLogic Phase (Phase → Nat) := shopLogic guard (Inv o) (post o) val

variable {o : ObjectId} {i : Nat} {l : Phase} {w w' : Shop} {g g' : Phase → Nat}

theorem Inv.congr (h : Inv o w g) (hs : w'.status o = w.status o)
    (ha : w'.announced o = w.announced o) (hk : w'.jobKeys = w.jobKeys) : Inv o w' g := by
  constructor
  · rw [hs, ha]; exact h.behind
  · rw [hs, ha]; exact h.publishing
  · rw [ha]; exact h.enqueuing
  · rw [ha, hk]; exact h.added

/-- A thread that drops what it was about to do does no harm. -/
theorem Inv.anti (h : Inv o w g) (hp : ∀ s, g' (.toPublish s) ≤ g (.toPublish s))
    (he : ∀ s, g' (.toEnqueue s) ≤ g (.toEnqueue s)) : Inv o w g' := by
  constructor
  · exact h.behind
  · intro s hs
    have := hp s
    obtain ⟨h1, h2⟩ := h.publishing s (by omega)
    exact ⟨by omega, h2⟩
  · intro s hs
    exact h.enqueuing s (hs.trans (he s))
  · exact h.added

theorem Inv.idle (h : Inv o w (val l + g)) : Inv o w (val .idle + g) := by
  apply h.anti <;> intro s <;> simp [val]

/-- When the order can move, all its events are out and nobody is about to publish one. -/
theorem Inv.settled (h : Inv o w g) {id : String} {src dst : OrderStatus} {reason : Option String}
    (hj : w.Justifies (.orderFindOneAndUpdate id src dst reason)) (hid : castObjectId id = some o)
    (hs : w.status o = some src) :
    w.announced o = milestones (some src) ∧ ∀ s, g (.toPublish s) = 0 := by
  have hall : w.announced o = milestones (some src) := by
    have hbehind := h.behind
    rw [hs] at hbehind
    rcases hj.2 with rfl | ⟨q, hq, hstage⟩
    · exact List.prefix_nil.mp hbehind
    · have hadded := h.added q id hq hid
      rw [hstage] at hadded
      exact hbehind.eq_of_length_le hadded.length_le
  refine ⟨hall, fun s => ?_⟩
  by_contra hne
  obtain ⟨-, hstatus, hnext⟩ := h.publishing s (by omega)
  rw [hs] at hstatus
  cases hstatus
  rw [hall] at hnext
  simp at hnext

/-- The order has moved, and one thread at most is about to say so. -/
theorem Inv.moved (h : Inv o w g) {src dst : OrderStatus} (hnext : src.Next dst)
    (hall : w.announced o = milestones (some src)) (hs' : w'.status o = some dst)
    (ha : w'.announced o = w.announced o) (hk : w'.jobKeys = w.jobKeys)
    (hp : ∀ s, 1 ≤ g' (.toPublish s) → s = dst ∧ g' (.toPublish s) = 1)
    (he : ∀ s, g' (.toEnqueue s) ≤ g (.toEnqueue s)) : Inv o w' g' := by
  constructor
  · rw [hs', ha, hall, milestones_next hnext]
    exact List.prefix_append _ _
  · intro s hpos
    obtain ⟨rfl, h1⟩ := hp s hpos
    refine ⟨h1, hs', ?_⟩
    rw [ha, hall, milestones_next hnext]
  · intro s hpos
    rw [ha]
    exact h.enqueuing s (hpos.trans (he s))
  · rw [ha, hk]
    exact h.added

/-- The thread that was about to say so has published. -/
theorem Inv.published (h : Inv o w (val (.toPublish s) + g)) (hs : w'.status o = w.status o)
    (ha : w'.announced o = w.announced o ++ [s]) (hk : w'.jobKeys = w.jobKeys) :
    Inv o w' (val (.toEnqueue s) + g) := by
  obtain ⟨hone, hstatus, hall⟩ := h.publishing s (by simp [val])
  rw [hall] at ha
  have hgrows : w.announced o <+: w'.announced o := by
    rw [ha, ← hall]
    exact List.prefix_append _ _
  constructor
  · have hsaid : w'.announced o = milestones (w'.status o) := by rw [hs, ha, hstatus]
    exact hsaid ▸ List.prefix_rfl
  · intro s' hpos
    have hpos' : 1 ≤ g (.toPublish s') := by simpa [val] using hpos
    obtain ⟨-, hstatus', -⟩ := h.publishing s' (by simp only [Pi.add_apply]; omega)
    rw [hstatus] at hstatus'
    cases hstatus'
    simp only [Pi.add_apply, val, Pi.single_eq_same] at hone
    omega
  · intro s' hpos
    by_cases hs' : s' = s
    · subst hs'
      exact ha ▸ List.prefix_rfl
    · have hpos' : 1 ≤ g (.toEnqueue s') := by simpa [val, hs'] using hpos
      exact (h.enqueuing s' (by simp only [Pi.add_apply]; omega)).trans hgrows
  · intro q oid hq hid
    rw [hk] at hq
    exact (h.added q oid hq hid).trans hgrows

/-! ## Calls -/

/-- The calls that neither move an order, publish an order event nor add a job of a later stage. -/
def quiet : ShopOp → Bool
  | .orderFindOneAndUpdate .. | .publishOrder _ => false
  | .addJob q _ => q = .ordersProcess
  | _ => true

theorem neutral_addProcess {oid : String} :
    (logic o).Neutral (.inr (.addJob .ordersProcess oid)) := by
  intro i l
  refine shop_call fun now w g f out w' hinv hg hx => ⟨?_, rfl⟩
  have h : Inv o w (val l + g) := hinv
  rcases Store.exec_effect hx with ⟨-, q, a, hx, -⟩ | ⟨-, rfl, -⟩
  · have hstatus : w'.status o = w.status o := by rw [status_other rfl hx]
    have hann : w'.announced o = w.announced o := by
      rw [Shop.announced, (shopStore_same hx).orderChannel (fun he => by cases he), Shop.announced]
    constructor
    · rw [hstatus, hann]; exact h.behind
    · rw [hstatus, hann]; exact h.publishing
    · rw [hann]; exact h.enqueuing
    · intro queue oid' hq hid
      rw [jobKeys_addJob hx, List.mem_append, List.mem_singleton] at hq
      rw [hann]
      rcases hq with hq | hq
      · exact h.added queue oid' hq hid
      · cases hq; exact List.nil_prefix
  · exact h

theorem neutral_orderCreate {inp : OrderInput} :
    (logic o).Neutral (.inr (.orderCreate inp)) := by
  intro i l
  refine shop_call fun now w g f out w' hinv hg hx => ⟨?_, rfl⟩
  have h : Inv o w (val l + g) := hinv
  rcases Store.exec_effect hx with ⟨-, q, a, hx, -⟩ | ⟨-, rfl, -⟩
  · have hsame := shopStore_same hx
    have hann : w'.announced o = w.announced o := by
      rw [Shop.announced, hsame.orderChannel (fun he => by cases he), Shop.announced]
    have hkeys : w'.jobKeys = w.jobKeys := by
      rw [Shop.jobKeys, hsame.jobs (fun he => by cases he), Shop.jobKeys]
    obtain ⟨hnone, hstatus⟩ := status_orderCreate hx
    by_cases hid : o = a
    · subst hid
      -- an order that does not exist yet has no event and nobody at it
      have hbehind := h.behind
      rw [hnone] at hbehind
      show Inv o w' (val l + g)
      constructor
      · rw [hann, List.prefix_nil.mp hbehind]
        exact List.nil_prefix
      · intro s hpos
        have := (h.publishing s hpos).2.1
        rw [hnone] at this
        cases this
      · rw [hann]; exact h.enqueuing
      · rw [hann, hkeys]; exact h.added
    · exact h.congr (by rw [hstatus, Function.update_of_ne hid]) hann hkeys
  · exact h

theorem neutral_of_quiet {op : ShopOp} (hq : quiet op = true) :
    (logic o).Neutral (.inr op) := by
  by_cases hm : op.movesOrders = true
  · cases op with
    | orderCreate inp => exact neutral_orderCreate
    | orderFindOneAndUpdate id src dst reason => cases hq
    | _ => cases hm
  by_cases hadd : ∃ q oid, op = .addJob q oid
  · obtain ⟨q, oid, rfl⟩ := hadd
    obtain rfl := of_decide_eq_true hq
    exact neutral_addProcess
  intro i l
  refine shop_call fun now w g f out w' hinv hg hx => ?_
  have hpost : post o op out l = l := by
    cases op with
    | orderFindOneAndUpdate id src dst reason => cases hq
    | publishOrder ev => cases hq
    | _ => rfl
  rw [hpost]
  refine ⟨?_, rfl⟩
  rcases Store.exec_effect hx with ⟨-, p, a, hx, -⟩ | ⟨-, rfl, -⟩
  · apply hinv.congr
    · rw [status_other (by simpa using hm) hx]
    · have hpart : op.writes ≠ .orderChannel := by
        cases op <;> first | cases hq; done | (intro he; cases he)
      rw [Shop.announced, (shopStore_same hx).orderChannel hpart, Shop.announced]
    · exact jobKeys_other (fun q oid h => hadd ⟨q, oid, h⟩) hx
  · exact hinv

/-- The job or event of the order `oid`, seen from `o`. -/
def At (o : ObjectId) (oid : String) (p l : Phase) : Prop := castObjectId oid = some o → l = p

theorem call_update {id : String} {src dst : OrderStatus} {reason : Option String} :
    ShopCall (logic o) i l (.orderFindOneAndUpdate id src dst reason)
      (Ends (fun r l' => r.isSome → At o id (.toPublish dst) l') fun _ => True) := by
  refine shop_call fun now w g f out w' hinv hg hx => ?_
  have h : Inv o w (val l + g) := hinv
  have hj := hg.2 _ rfl
  have hsame := exec_same hx
  have hann : w'.announced o = w.announced o := by
    rw [Shop.announced, hsame.orderChannel (fun he => by cases he), Shop.announced]
  have hkeys : w'.jobKeys = w.jobKeys := by
    rw [Shop.jobKeys, hsame.jobs (fun he => by cases he), Shop.jobKeys]
  constructor
  · rcases status_update hg.1 hx o with ⟨hstatus, hnot⟩ | ⟨hid, -, -, hs, hs'⟩
    · have hpost : post o (.orderFindOneAndUpdate id src dst reason) out l = l := by
        rcases out with e | (_ | d)
        · rfl
        · rfl
        · exact if_neg fun hid => (hnot hid).1 d rfl
      rw [hpost]
      exact h.congr hstatus hann hkeys
    · obtain ⟨hall, hzero⟩ := h.settled hj hid hs
      have hpost : post o (.orderFindOneAndUpdate id src dst reason) out l = l ∨
          post o (.orderFindOneAndUpdate id src dst reason) out l = .toPublish dst := by
        rcases out with e | (_ | d)
        · exact .inl rfl
        · exact .inl rfl
        · exact .inr (if_pos hid)
      apply h.moved hj.1 hall hs' hann hkeys
      · intro s hpos
        have hz := hzero s
        simp only [Pi.add_apply, Nat.add_eq_zero_iff] at hz hpos ⊢
        rcases hpost with heq | heq
        · rw [heq] at hpos
          omega
        · rw [heq] at hpos ⊢
          by_cases hsd : s = dst
          · subst hsd
            simp [val, hz.2]
          · simp [val, hsd, hz.2] at hpos
      · intro s
        rcases hpost with heq | heq
        · rw [heq]
        · rw [heq]
          simp [val]
  · rcases out with e | (_ | d)
    · trivial
    · exact (fun he => by cases he)
    · exact fun _ hid => if_pos hid

theorem call_publish {ev : OrderEvent} (hl : At o ev.orderId (.toPublish ev.status) l) :
    ShopCall (logic o) i l (.publishOrder ev)
      (Ends (fun _ => At o ev.orderId (.toEnqueue ev.status)) fun _ => True) := by
  refine shop_call fun now w g f out w' hinv hg hx => ?_
  have hsame := exec_same hx
  have hstatus : w'.status o = w.status o := by
    rw [Shop.status, hsame.orders (fun he => by cases he), Shop.status]
  have hkeys : w'.jobKeys = w.jobKeys := by
    rw [Shop.jobKeys, hsame.jobs (fun he => by cases he), Shop.jobKeys]
  by_cases hid : castObjectId ev.orderId = some o
  · obtain rfl := hl hid
    have h : Inv o w (val (.toPublish ev.status) + g) := hinv
    have hpublished : w'.announced o = w.announced o ++ [ev.status] →
        Inv o w' (val (.toEnqueue ev.status) + g) := fun ha => h.published hstatus ha hkeys
    have hgrows : ∀ {q a}, shopStore now i (.publishOrder ev) q w = some (a, w') →
        w'.announced o = w.announced o ++ [ev.status] := by
      intro q a hx
      cases hx
      exact announced_publish.trans (if_pos hid)
    rcases Store.exec_cases hx with ⟨q, a, -, hs, rfl⟩ | ⟨e, -, rfl, rfl⟩ | ⟨e, q, a, -, hs, rfl⟩
    · rw [show post o (.publishOrder ev) (.ok a) _ = .toEnqueue ev.status from if_pos hid]
      exact ⟨hpublished (hgrows hs), fun _ => rfl⟩
    · rw [show post o (.publishOrder ev) (.error e) _ = .idle from if_pos hid]
      exact ⟨h.idle, trivial⟩
    · rw [show post o (.publishOrder ev) (.error e) _ = .idle from if_pos hid]
      exact ⟨(hpublished (hgrows hs)).idle, trivial⟩
  · have hpost : post o (.publishOrder ev) out l = l := by
      cases out <;> exact if_neg hid
    rw [hpost]
    constructor
    · apply hinv.congr hstatus _ hkeys
      rcases Store.exec_effect hx with ⟨-, q, a, hx, -⟩ | ⟨-, rfl, -⟩
      · cases hx
        exact announced_publish.trans (if_neg hid)
      · rfl
    · cases out
      · trivial
      · exact fun h => absurd h hid

theorem call_addJob {q : QueueName} {oid : String} (hl : At o oid (.toEnqueue q.stage.1) l) :
    ShopCall (logic o) i l (.addJob q oid) fun _ _ => True := by
  refine shop_call fun now w g f out w' hinv hg hx => ⟨?_, trivial⟩
  have h : Inv o w (val l + g) := hinv
  show Inv o w' (val l + g)
  rcases Store.exec_effect hx with ⟨-, p, a, hx, -⟩ | ⟨-, rfl, -⟩
  · have hstatus : w'.status o = w.status o := by rw [status_other rfl hx]
    have hann : w'.announced o = w.announced o := by
      rw [Shop.announced, (shopStore_same hx).orderChannel (fun he => by cases he), Shop.announced]
    constructor
    · rw [hstatus, hann]; exact h.behind
    · rw [hstatus, hann]; exact h.publishing
    · rw [hann]; exact h.enqueuing
    · intro queue oid' hq hid
      rw [jobKeys_addJob hx, List.mem_append, List.mem_singleton] at hq
      rw [hann]
      rcases hq with hq | hq
      · exact h.added queue oid' hq hid
      · cases hq
        obtain rfl := hl hid
        exact h.enqueuing _ (by simp [val])
  · exact h

/-! ## Requests -/

/-- Nothing is asked of a program at its end. -/
def Fine {α : Type} (_ : Except Err α) (_ : Phase) : Prop := True

theorem fine_quiet {α : Type} {m : ShopProg α} (h : m.Calls fun op => quiet op = true) :
    (logic o).Safe i m.inr l Fine :=
  (safe_inr_of_neutral (h.mono fun _ hop => neutral_of_quiet hop)).mono fun _ _ _ => trivial

/-- A quiet call, and then whatever is fine from the same phase on. -/
theorem fine_step {α : Type} {op : ShopOp} {f : op.Ret → ShopProg α} (hq : quiet op = true)
    (h : ∀ a, (logic o).Safe i (f a).inr l Fine) :
    (logic o).Safe i (op.call.bind f).inr l Fine := by
  rw [Prog.inr_bind]
  refine .inr_op (neutral_of_quiet hq i l) ?_ fun _ _ _ => trivial
  rintro a l' rfl
  exact h a

theorem safe_publish {oid : String} {d : OrderDoc} {s : OrderStatus}
    (hl : At o oid (.toPublish s) l) :
    (logic o).Safe i (publish oid d s).inr l
      (Ends (fun _ => At o oid (.toEnqueue s)) fun _ => True) := by
  rw [publish, Prog.bind_eq, Prog.inr_bind]
  refine .inr_op (neutral_of_quiet rfl i l) ?_ fun _ _ _ => trivial
  rintro ts l' rfl
  exact safe_inr_op (call_publish hl)

theorem fine_advance {oid : String} {src dst : OrderStatus} {enqueue : ShopProg Unit}
    (h : ∀ l', At o oid (.toEnqueue dst) l' → (logic o).Safe i enqueue.inr l' Fine) :
    (logic o).Safe i (advance oid src dst enqueue).inr l Fine := by
  rw [advance, Prog.bind_eq, Prog.inr_bind]
  refine .inr_op call_update ?_ fun _ _ _ => trivial
  intro r l' hl'
  cases r with
  | none => trivial
  | some d =>
    dsimp only
    rw [Prog.bind_eq, Prog.inr_bind]
    refine safe_bind.mpr ((safe_publish (hl' rfl)).mono ?_)
    rintro (e | u) l'' hl''
    · trivial
    · exact h l'' hl''

theorem fine_handler (q : QueueName) (oid : String) :
    (logic o).Safe i (handler q oid).inr l Fine := by
  have hadd : ∀ (queue : QueueName) l', At o oid (.toEnqueue queue.stage.1) l' →
      (logic o).Safe i (ShopOp.addJob queue oid).call.inr l' Fine :=
    fun queue l' hl' => safe_inr_op ((call_addJob hl').mono fun _ _ _ => trivial)
  cases q with
  | ordersProcess =>
    refine fine_step rfl fun order => ?_
    cases order with
    | none => trivial
    | some d =>
      dsimp only
      split
      · trivial
      · refine fine_step rfl fun _ => fine_step rfl fun _ => ?_
        exact fine_advance (hadd .ordersFulfill)
  | ordersFulfill =>
    refine fine_step rfl fun order => ?_
    cases order with
    | none => trivial
    | some d =>
      dsimp only
      split
      · trivial
      · exact fine_advance (hadd .ordersNotify)
  | ordersNotify =>
    refine fine_step rfl fun order => ?_
    cases order with
    | none => trivial
    | some d =>
      dsimp only
      split
      · trivial
      · exact fine_advance fun _ _ => trivial

theorem fine_compensate (oid reason : String) :
    (logic o).Safe i (compensatePayment oid reason).inr l Fine := by
  rw [compensatePayment, Prog.bind_eq, Prog.inr_bind]
  refine .inr_op call_update ?_ fun _ _ _ => trivial
  intro r l' hl'
  cases r with
  | none => trivial
  | some d =>
    refine fine_step rfl fun _ => fine_step rfl fun _ => fine_step rfl fun _ => ?_
    exact (safe_publish (hl' rfl)).mono fun _ _ _ => trivial

theorem fine_runJob (job : Nat) (q : QueueName) (oid : String) :
    (logic o).Safe i (runJob job q oid).inr l Fine := by
  rw [runJob, Prog.bind_eq, Prog.inr_bind, Prog.inr_tryCatch, Prog.bind_eq, Prog.inr_bind]
  refine safe_bind.mpr (safe_tryCatch.mpr (safe_bind.mpr ((fine_handler q oid).mono ?_)))
  rintro (e | u) l' -
  · refine fine_step rfl fun attemptsMade => ?_
    unfold onFailed
    split
    · split
      · trivial
      · rw [Prog.inr_tryCatch]
        refine safe_tryCatch.mpr ((fine_compensate oid _).mono ?_)
        rintro (e | u) l' - <;> trivial
    · trivial
  · exact fine_quiet ((Prog.calls_op _).mpr rfl)

theorem quiet_of_may {r : ShopReq} (hd : ∀ j q oid, r ≠ .deliver j q oid)
    (hc : ∀ oid reason, r ≠ .compensate oid reason) {op : ShopOp} (h : r.may op = true) :
    quiet op = true := by
  cases op with
  | orderFindOneAndUpdate id src dst reason =>
    cases r with
    | deliver j q oid => exact absurd rfl (hd _ _ _)
    | compensate oid reason => exact absurd rfl (hc _ _)
    | _ => cases h
  | publishOrder ev =>
    cases r with
    | deliver j q oid => exact absurd rfl (hd _ _ _)
    | compensate oid reason => exact absurd rfl (hc _ _)
    | _ => cases h
  | addJob q oid =>
    cases r with
    | postBuy req => exact h
    | deliver j q oid => exact absurd rfl (hd _ _ _)
    | compensate oid reason => exact absurd rfl (hc _ _)
    | _ => cases h
  | _ => rfl

theorem fine_request (r : ShopReq) : (logic o).Safe i (shopProg r) l Fine := by
  by_cases hd : ∃ j q oid, r = .deliver j q oid
  · obtain ⟨j, q, oid, rfl⟩ := hd
    refine safe_bind.mpr ((fine_runJob j q oid).mono ?_)
    rintro (e | u) l' - <;> trivial
  by_cases hc : ∃ oid reason, r = .compensate oid reason
  · obtain ⟨oid, reason, rfl⟩ := hc
    refine safe_bind.mpr ((fine_compensate oid reason).mono ?_)
    rintro (e | u) l' - <;> trivial
  refine (safe_of_neutral ((calls_shopProg r).mono ?_)).mono fun _ _ _ => trivial
  intro op hop
  cases op with
  | inl k => exact neutral_kv k
  | inr op =>
    exact neutral_of_quiet (quiet_of_may (fun j q oid h => hd ⟨j, q, oid, h⟩)
      (fun oid reason h => hc ⟨oid, reason, h⟩) hop)

theorem outline (ok : System.Guard apiSig Err ShopReq ShopRes (IdemKv × Shop) Pick ShopEnv)
    (n : Nat) (catalog : ObjectId → Option ProductDoc) (o : ObjectId) :
    shopSystem.Outline ok (freshShop n catalog) (logic o) (fun _ _ => .idle)
      fun _ _ => Fine where
  store := rfl
  start := ⟨rfl, List.nil_prefix, nofun, nofun, nofun⟩
  arrive := by
    intro c r w' _ _ hacc hinv
    refine ⟨?_, fine_request r⟩
    have hsame := (accept_same hacc).2
    have h : Inv o w'.2 (System.worth (logic o) (fun _ _ => .idle) c.pool) := by
      apply Inv.congr hinv
      · rw [Shop.status, hsame.orders (fun he => by cases he), Shop.status]
      · rw [Shop.announced, hsame.orderChannel (fun he => by cases he), Shop.announced]
      · exact (jobKeys_accept hacc).1
    apply h.anti <;> intro s <;> simp [logic, shopLogic, val]
  tick := fun _ _ _ h => h
  env := by
    intro c g e w' _ he hinv
    obtain ⟨s, hs, rfl⟩ := Option.map_eq_some_iff.mp he
    obtain ⟨hsame, -⟩ := surroundings_same hs
    apply Inv.congr hinv
    · rw [Shop.status, hsame.orders, Shop.status]
    · rw [Shop.announced, hsame.orderChannel, Shop.announced]
    · exact jobKeys_surroundings hs
  guard := by
    intro c j f t op k hr _ ht hp _
    refine ⟨orderIds_reachable hr, ?_⟩
    rintro op rfl
    exact justified hr (List.mem_of_getElem? ht) hp

end Announce

/-- **Announcements.** In every run the events of an order are a prefix of `paid, fulfilled,
confirmed` or of `failed`, and each comes after the step it reports; the order only moves along
its steps, and makes each of them at most once. -/
theorem announced_in_order
    {ok : System.Guard apiSig Err ShopReq ShopRes (IdemKv × Shop) Pick ShopEnv} {n : Nat}
    {catalog : ObjectId → Option ProductDoc} {c : ShopConfig} (o : ObjectId)
    (h : shopSystem.Reachable ok (freshShop n catalog) c) :
    (c.world.2.announced o <+: [.paid, .fulfilled, .confirmed] ∨
        c.world.2.announced o <+: [.failed]) ∧
      c.world.2.announced o <+: milestones (c.world.2.status o) ∧
      ∀ a c', ok c a → shopSystem.step c a = some c' →
        Progress (c.world.2.status o) (c'.world.2.status o) ∧
          (c'.world.2.status o ≠ c.world.2.status o →
            ∀ d, shopSystem.Reachable ok c' d → d.world.2.status o ≠ c.world.2.status o) := by
  obtain ⟨hinv, -⟩ := (Announce.outline ok n catalog o).adequate h
  have hbehind := hinv.behind
  refine ⟨?_, hbehind, fun a c' hok hs => ⟨progress_step h hs o, fun hmove d hd => ?_⟩⟩
  · rcases milestones_chain (c.world.2.status o) with hchain | hchain
    · exact .inl (hbehind.trans hchain)
    · exact .inr (hbehind.trans hchain)
  · exact no_return h hok hs hmove hd

/-- An order that goes all the way, its process job delivered twice. -/
theorem announced_in_order_confirmed :
    ∃ c, shopSystem.Reachable (fun _ _ => True) (freshShop 0 (oneProduct 1)) c ∧
      c.world.2.status idB = some .confirmed ∧
      c.world.2.announced idB = [.paid, .fulfilled, .confirmed] ∧
      c.world.2.announced idB <+: milestones (c.world.2.status idB) := by
  have hrun : (shopSystem.run (fun _ _ => true) (freshShop 0 (oneProduct 1)) (orderPlaced ++
      .arrive (.deliver 0 .ordersProcess idB.toString) :: callsOf 1 8 idB ++
      .env (.redeliver 0) :: .arrive (.deliver 0 .ordersProcess idB.toString) ::
        callsOf 2 2 idB ++
      .arrive (.deliver 1 .ordersFulfill idB.toString) :: callsOf 3 6 idB ++
      .arrive (.deliver 2 .ordersNotify idB.toString) :: callsOf 4 5 idB)).map (fun c =>
        (c.world.2.status idB, c.world.2.announced idB)) =
      some (some .confirmed, [.paid, .fulfilled, .confirmed]) := by decide
  obtain ⟨c, hc, hs⟩ := Option.map_eq_some_iff.mp hrun
  obtain ⟨hstatus, hann⟩ := Prod.mk.injEq .. ▸ hs
  have hr : shopSystem.Reachable (fun _ _ => True) _ c :=
    (System.Reachable.of_run hc).mono fun _ _ _ => trivial
  exact ⟨c, hr, hstatus, hann, (announced_in_order idB hr).2.1⟩

end Flashkart
