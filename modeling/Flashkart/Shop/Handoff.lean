import Flashkart.Shop.Progress

/-!
# Shop.Handoff

The hand-off from one stage to the next. A handler commits the new status first and adds the next
job last; a retry of the handler finds the status moved and returns without a call.

* `handed_on`    — if no call fails between the commit and the enqueue, then an order whose
  process (fulfill) jobs have all ended has a fulfill (notify) job once it is paid (fulfilled).
* `stranded`     — a publish that fails once strands the order: its job completes on the retry,
  and the next job is never added.
-/

namespace Flashkart

open Async Logic

/-- The queue that an order of this status waits for. -/
def OrderStatus.nextQueue : OrderStatus → Option QueueName
  | .paid => some .ordersFulfill
  | .fulfilled => some .ordersNotify
  | _ => none

/-- A job of `o` was added to the queue. -/
def Shop.Added (w : Shop) (o : ObjectId) (q : QueueName) : Prop :=
  ∃ oid, (q, oid) ∈ w.jobKeys ∧ castObjectId oid = some o

/-- When the stage of `q` has moved `o` and no job of `o` is live in `q`, then `o` has a job in
`q'`. -/
def Shop.HandedOn (w : Shop) (o : ObjectId) (q q' : QueueName) : Prop :=
  w.status o = some q.stage.2 →
    (∀ d ∈ w.jobs, d.queue = q → castObjectId d.orderId = some o → d.live = false) → w.Added o q'

namespace Handoff

/-- `handing q`: the delivery has moved `o` and owes it a job in `q`. -/
inductive Phase where
  | idle
  | handing (q : QueueName)
  | settled
  deriving DecidableEq

def Phase.isHanding : Phase → Bool
  | .handing _ => true
  | _ => false

def move (o : ObjectId) : (op : ShopOp) → Except Err op.Ret → Phase → Phase
  | .orderFindOneAndUpdate id _ dst _, .ok (some _), l =>
    if castObjectId id = some o then (dst.nextQueue.map .handing).getD l else l
  | .addJob q oid, _, l => if castObjectId oid = some o ∧ l = .handing q then .idle else l
  | .moveToCompleted _, _, _ | .moveToFailed _, _, _ => .settled
  | _, _, l => l

def post (o : ObjectId) (op : ShopOp) (out : Except Err op.Ret) (l : Phase) : Phase :=
  if l = .settled then .settled else move o op out l

/-- How many deliveries owe a job in the queue. -/
def val : Phase → QueueName → Nat
  | .handing q => Pi.single q 1
  | _ => 0

/-- From the update that moves `o` to the job it owes, no call fails; the enqueue may lose its
answer. -/
def allowed (o : ObjectId) (l : Phase) (w : Shop) : ShopOp → Fate Err Pick → Bool
  | .orderFindOneAndUpdate id src dst _, .lost _ _ =>
    castObjectId id != some o || w.status o != some src || dst.nextQueue.isNone
  | .dateNow, .failed _ | .dateNow, .lost _ _ => !l.isHanding
  | .publishOrder _, .failed _ | .publishOrder _, .lost _ _ => !l.isHanding
  | .addJob .., .failed _ => !l.isHanding
  | _, _ => true

/-- An order that waits for a queue has a job there, or a delivery that owes it one. -/
def Inv (o : ObjectId) (w : Shop) (g : QueueName → Nat) : Prop :=
  ∀ s q, s.nextQueue = some q → w.status o = some s → w.Added o q ∨ 1 ≤ g q

def guard (o : ObjectId) (_ : Nat) (l : Phase) (_ : QueueName → Nat) (w : Shop)
    (op : apiSig.Op) (f : Fate Err Pick) : Prop :=
  w.OrderIds ∧ ∀ op', op = .inr op' → allowed o l w op' f = true

def logic (o : ObjectId) : ShopLogic Phase (QueueName → Nat) :=
  shopLogic (guard o) (Inv o) (post o) val

variable {o : ObjectId} {i : Nat} {l : Phase} {w w' : Shop} {g g' : QueueName → Nat}

theorem added_mono (h : w.jobKeys <+: w'.jobKeys) {q : QueueName} (ha : w.Added o q) :
    w'.Added o q := by
  obtain ⟨oid, hmem, hid⟩ := ha
  exact ⟨oid, h.subset hmem, hid⟩

theorem Inv.step (h : Inv o w g) (hk : w.jobKeys <+: w'.jobKeys)
    (hs : ∀ s q, s.nextQueue = some q → w'.status o = some s → w.status o = some s)
    (hg : ∀ q, g q ≤ g' q) : Inv o w' g' := by
  intro s q hq hstatus
  rcases h s q hq (hs s q hq hstatus) with ha | hpos
  · exact .inl (added_mono hk ha)
  · exact .inr (hpos.trans (hg q))

/-- The calls that do not move an order to a stage that owes it a job. -/
def quiet : ShopOp → Bool
  | .orderCreate inp => inp.status = .pending
  | .orderFindOneAndUpdate _ _ dst _ => dst.nextQueue.isNone
  | _ => true

theorem quiet_status {now : Nat} {op : ShopOp} {p : Pick} {a : op.Ret} (hn : w.OrderIds)
    (hq : quiet op = true) (h : shopStore now i op p w = some (a, w')) (s : OrderStatus)
    (q : QueueName) (hs : s.nextQueue = some q) (hstatus : w'.status o = some s) :
    w.status o = some s := by
  by_cases hm : op.movesOrders = true
  · cases op with
    | orderCreate inp =>
      obtain ⟨hnone, hw'⟩ := status_orderCreate h
      have hp : inp.status = .pending := of_decide_eq_true hq
      rw [hw'] at hstatus
      by_cases ho : o = a
      · subst ho
        rw [Function.update_self, hp] at hstatus
        cases hstatus
        cases hs
      · rw [Function.update_of_ne ho] at hstatus
        exact hstatus
    | orderFindOneAndUpdate id src dst reason =>
      rcases status_findOneAndUpdate hn h with ⟨d, -, -, -, hw'⟩ | ⟨-, hw', -⟩
      · rw [hw'] at hstatus
        by_cases ho : o = d.id
        · subst ho
          rw [Function.update_self] at hstatus
          cases hstatus
          simp [quiet, hs] at hq
        · rw [Function.update_of_ne ho] at hstatus
          exact hstatus
      · rw [hw'] at hstatus
        exact hstatus
    | _ => cases hm
  · rw [status_other (by simpa using hm) h] at hstatus
    exact hstatus

/-- What a quiet call does to a thread that owes nothing. -/
theorem post_quiet {op : ShopOp} {out : Except Err op.Ret} (hq : quiet op = true)
    (hl : l.isHanding = false) :
    (post o op out l).isHanding = false ∧ (settles (.inr op) = false → post o op out l = l) := by
  unfold post
  split
  · rename_i hset
    exact ⟨rfl, fun _ => hset.symm⟩
  · have hnot : ∀ q, l ≠ .handing q := by
      intro q h
      rw [h] at hl
      cases hl
    cases op with
    | orderFindOneAndUpdate id src dst reason =>
      have hnone : dst.nextQueue = none := by simpa [quiet] using hq
      have hsame : move o (.orderFindOneAndUpdate id src dst reason) out l = l := by
        rcases out with e | (_ | d)
        · rfl
        · rfl
        · simp [move, hnone]
      rw [hsame]
      exact ⟨hl, fun _ => rfl⟩
    | addJob q oid =>
      have hsame : move o (.addJob q oid) out l = l := if_neg fun h => hnot q h.2
      rw [hsame]
      exact ⟨hl, fun _ => rfl⟩
    | moveToCompleted j => exact ⟨rfl, (fun he => by cases he)⟩
    | moveToFailed j => exact ⟨rfl, (fun he => by cases he)⟩
    | _ => exact ⟨hl, fun _ => rfl⟩

theorem val_of_not (hl : l.isHanding = false) : val l = 0 := by
  cases l with
  | handing q => cases hl
  | _ => rfl

theorem handing_of_val {q : QueueName} (h : 1 ≤ val l q) : l = .handing q := by
  cases l with
  | handing q' =>
    by_cases hq : q = q'
    · rw [hq]
    · simp [val, hq] at h
  | _ => simp [val] at h

theorem call_quiet {op : ShopOp} (hq : quiet op = true) (hl : l.isHanding = false) :
    ShopCall (logic o) i l op fun _ l' =>
      l'.isHanding = false ∧ (settles (.inr op) = false → l' = l) := by
  refine shop_call fun now w g f out w' hinv hg hx => ⟨?_, post_quiet hq hl⟩
  have h : Inv o w (val l + g) := hinv
  rw [val_of_not (post_quiet hq hl).1, ← val_of_not hl]
  rcases Store.exec_effect hx with ⟨-, p, a, hs, -⟩ | ⟨-, rfl, -⟩
  · exact h.step (jobKeys_store hs) (quiet_status hg.1 hq hs) fun _ => le_rfl
  · exact h

/-- What a delivery of `oid` owes `o`. -/
def due (o : ObjectId) (oid : String) (q : QueueName) : Phase :=
  if castObjectId oid = some o then .handing q else .idle

theorem call_update {id : String} {src dst : OrderStatus} {reason : Option String}
    {q : QueueName} (hq : dst.nextQueue = some q) :
    ShopCall (logic o) i .idle (.orderFindOneAndUpdate id src dst reason)
      (Ends (fun r l' => l' = if r.isSome then due o id q else .idle) fun l' => l' = .idle) := by
  refine shop_call fun now w g f out w' hinv hg hx => ?_
  have h : Inv o w (0 + g) := hinv
  have hkeys : w'.jobKeys = w.jobKeys := by
    rw [Shop.jobKeys, (exec_same hx).jobs (fun he => by cases he), Shop.jobKeys]
  rcases status_update hg.1 hx o with ⟨hstatus, hnot⟩ | ⟨hid, hf, hsome, hs, hs'⟩
  · have hpost : post o (.orderFindOneAndUpdate id src dst reason) out .idle = .idle := by
      rcases out with e | (_ | d)
      · rfl
      · rfl
      · exact if_neg fun hid => (hnot hid).1 d rfl
    rw [hpost]
    constructor
    · apply h.step (hkeys ▸ List.prefix_rfl)
      · intro s q _ hw
        rw [← hstatus, hw]
      · exact fun _ => le_rfl
    · rcases out with e | (_ | d)
      · rfl
      · rfl
      · have hid : castObjectId id ≠ some o := fun hid => (hnot hid).1 d rfl
        simp [due, hid]
  · -- the answer of an update that moved `o` is not lost
    have hallowed := hg.2 _ rfl
    obtain ⟨d, rfl⟩ : ∃ d, out = .ok (some d) := by
      cases f with
      | failed e => cases hf
      | lost e p => simp [allowed, hid, hs, hq] at hallowed
      | answered p =>
        obtain ⟨⟨a, v⟩, -, hx⟩ := Option.map_eq_some_iff.mp hx
        cases hx
        cases a with
        | none => exact absurd rfl hsome
        | some d => exact ⟨d, rfl⟩
    have hpost : post o (.orderFindOneAndUpdate id src dst reason) (.ok (some d)) .idle =
        .handing q := by
      simp [post, move, hid, hq]
    rw [hpost]
    constructor
    · intro s q' hq' hstatus
      rw [hs'] at hstatus
      cases hstatus
      rw [hq] at hq'
      cases hq'
      exact .inr (by simp [val])
    · simp [due, hid]

/-- A call between the move and the enqueue that changes neither orders nor jobs. -/
theorem call_between {oid : String} {q : QueueName} {op : ShopOp}
    (hop : op = .dateNow ∨ ∃ ev, op = .publishOrder ev) (hl : l = due o oid q) :
    ShopCall (logic o) i l op (Ends (fun _ l' => l' = due o oid q) fun l' => l' = .idle) := by
  subst hl
  have hquiet : quiet op = true := by
    rcases hop with rfl | ⟨ev, rfl⟩ <;> rfl
  have hopen : settles (.inr op) = false := by
    rcases hop with rfl | ⟨ev, rfl⟩ <;> rfl
  by_cases hid : castObjectId oid = some o
  · have hdue : due o oid q = .handing q := if_pos hid
    rw [hdue]
    refine shop_call fun now w g f out w' hinv hg hx => ?_
    have hpost : post o op out (.handing q) = .handing q := by
      rcases hop with rfl | ⟨ev, rfl⟩ <;> rfl
    rw [hpost]
    have hallowed := hg.2 _ rfl
    obtain ⟨p, rfl⟩ : ∃ p, f = .answered p := by
      cases f with
      | answered p => exact ⟨p, rfl⟩
      | failed e => rcases hop with rfl | ⟨ev, rfl⟩ <;> simp [allowed, Phase.isHanding] at hallowed
      | lost e p => rcases hop with rfl | ⟨ev, rfl⟩ <;> simp [allowed, Phase.isHanding] at hallowed
    obtain ⟨⟨a, v⟩, hs, hx⟩ := Option.map_eq_some_iff.mp hx
    cases hx
    have h : Inv o w (val (.handing q) + g) := hinv
    exact ⟨h.step (jobKeys_store hs) (quiet_status hg.1 hquiet hs) fun _ => le_rfl, rfl⟩
  · have hdue : due o oid q = .idle := if_neg hid
    rw [hdue]
    refine (call_quiet hquiet rfl).mono ?_
    rintro (e | a) l' ⟨-, h⟩ <;> exact h hopen

theorem call_enqueue {oid : String} {q : QueueName} (hl : l = due o oid q) :
    ShopCall (logic o) i l (.addJob q oid) fun _ l' => l' = .idle := by
  subst hl
  by_cases hid : castObjectId oid = some o
  · have hdue : due o oid q = .handing q := if_pos hid
    rw [hdue]
    refine shop_call fun now w g f out w' hinv hg hx => ?_
    have hpost : post o (.addJob q oid) out (.handing q) = .idle := by
      simp [post, move, hid]
    rw [hpost]
    refine ⟨?_, rfl⟩
    have h : Inv o w (val (.handing q) + g) := hinv
    have hallowed := hg.2 _ rfl
    rcases Store.exec_effect hx with ⟨-, p, a, hs, -⟩ | ⟨hf, -, -⟩
    · intro s q' hq' hstatus
      rw [status_other rfl hs] at hstatus
      by_cases hqq : q' = q
      · subst hqq
        refine .inl ⟨oid, ?_, hid⟩
        rw [jobKeys_addJob hs]
        simp
      · rcases h s q' hq' hstatus with ha | hpos
        · exact .inl (added_mono (jobKeys_store hs) ha)
        · simp only [val, Pi.add_apply, Pi.single_eq_of_ne hqq] at hpos
          exact .inr hpos
    · cases f with
      | failed e => simp [allowed, Phase.isHanding] at hallowed
      | _ => cases hf
  · have hdue : due o oid q = .idle := if_neg hid
    rw [hdue]
    exact (call_quiet rfl rfl).mono fun _ _ h => h.2 rfl

/-! ## Requests -/

def Free {α : Type} (_ : Except Err α) (l : Phase) : Prop := l.isHanding = false

def Idle {α : Type} (_ : Except Err α) (l : Phase) : Prop := l = .idle

theorem free_quiet {α : Type} {m : ShopProg α} (h : m.Calls fun op => quiet op = true)
    (hl : l.isHanding = false) : (logic o).Safe i m.inr l Free := by
  refine safe_of_calls (I := fun l : Phase => l.isHanding = false) (Prog.calls_inr (h.mono ?_)) hl
  intro op hop l hl
  exact (call_quiet hop hl).mono fun _ _ h => h.1

theorem idle_step {α : Type} {op : ShopOp} {f : op.Ret → ShopProg α} (hq : quiet op = true)
    (hopen : settles (.inr op) = false) (h : ∀ a, (logic o).Safe i (f a).inr .idle Idle) :
    (logic o).Safe i (op.call.bind f).inr .idle Idle := by
  rw [Prog.inr_bind]
  refine .inr_op (call_quiet hq rfl) ?_ fun e l' h => h.2 hopen
  intro a l' h'
  rw [h'.2 hopen]
  exact h a

theorem idle_advance {oid : String} {src dst : OrderStatus} {q : QueueName}
    (hq : dst.nextQueue = some q) :
    (logic o).Safe i (advance oid src dst (ShopOp.addJob q oid).call).inr .idle Idle := by
  rw [advance, Prog.bind_eq, Prog.inr_bind]
  refine .inr_op (call_update hq) ?_ fun e l' h => h
  intro r l₁ h₁
  cases r with
  | none => exact h₁
  | some d =>
    dsimp only
    rw [publish, Prog.bind_eq, Prog.bind_eq, Prog.inr_bind, Prog.inr_bind]
    refine safe_bind.mpr (.inr_op (call_between (.inl rfl) h₁) ?_ fun e l' h => h)
    intro ts l₂ h₂
    refine safe_inr_op ((call_between (.inr ⟨_, rfl⟩) h₂).mono ?_)
    intro out l₃ h₃
    cases out with
    | error e => exact h₃
    | ok u => exact safe_inr_op (call_enqueue h₃)

theorem idle_handler (q : QueueName) (oid : String) :
    (logic o).Safe i (handler q oid).inr .idle Idle := by
  cases q with
  | ordersProcess =>
    refine idle_step rfl rfl fun order => ?_
    cases order with
    | none => rfl
    | some d =>
      dsimp only
      split
      · rfl
      · refine idle_step rfl rfl fun _ => idle_step rfl rfl fun _ => ?_
        exact idle_advance rfl
  | ordersFulfill =>
    refine idle_step rfl rfl fun order => ?_
    cases order with
    | none => rfl
    | some d =>
      dsimp only
      split
      · rfl
      · exact idle_advance rfl
  | ordersNotify =>
    refine idle_step rfl rfl fun order => ?_
    cases order with
    | none => rfl
    | some d =>
      dsimp only
      split
      · rfl
      · refine idle_step rfl rfl fun r => ?_
        cases r with
        | none => rfl
        | some d =>
          dsimp only
          rw [publish, Prog.bind_eq, Prog.bind_eq, Prog.inr_bind, Prog.inr_bind]
          refine safe_bind.mpr (.inr_op (call_quiet rfl rfl) ?_ fun e l' h => h.2 rfl)
          intro ts l₁ h₁
          rw [h₁.2 rfl]
          refine safe_inr_op ((call_quiet rfl rfl).mono ?_)
          intro out l₂ h₂
          cases out <;> exact h₂.2 rfl

theorem free_runJob (job : Nat) (q : QueueName) (oid : String) :
    (logic o).Safe i (runJob job q oid).inr .idle Free := by
  rw [runJob, Prog.bind_eq, Prog.inr_bind, Prog.inr_tryCatch, Prog.bind_eq, Prog.inr_bind]
  refine safe_bind.mpr (safe_tryCatch.mpr (safe_bind.mpr ((idle_handler q oid).mono ?_)))
  intro out l' hl'
  subst hl'
  cases out with
  | ok u => exact free_quiet ((Prog.calls_op _).mpr rfl) rfl
  | error e =>
    refine free_quiet (calls_bind_op rfl fun attemptsMade => ?_) rfl
    unfold onFailed
    split
    · split
      · trivial
      · refine Prog.calls_tryCatch ((calls_compensate oid _).mono ?_) fun _ => trivial
        intro op hop
        cases op with
        | orderFindOneAndUpdate id src dst reason =>
          simp only [compensationMay, Bool.and_eq_true, decide_eq_true_eq] at hop
          simp [quiet, hop.2, OrderStatus.nextQueue]
        | _ => first | rfl | cases hop
    · trivial

theorem quiet_of_may {r : ShopReq} (hd : ∀ j q oid, r ≠ .deliver j q oid) {op : ShopOp}
    (h : r.may op = true) : quiet op = true := by
  cases op with
  | orderCreate inp =>
    cases r with
    | postBuy req => exact h
    | deliver j q oid => exact absurd rfl (hd _ _ _)
    | _ => cases h
  | orderFindOneAndUpdate id src dst reason =>
    cases r with
    | deliver j q oid => exact absurd rfl (hd _ _ _)
    | compensate oid reason' =>
      simp only [ShopReq.may, compensationMay, Bool.and_eq_true, decide_eq_true_eq] at h
      simp [quiet, h.2, OrderStatus.nextQueue]
    | _ => cases h
  | _ => rfl

theorem free_request (r : ShopReq) : (logic o).Safe i (shopProg r) .idle Free := by
  by_cases hd : ∃ j q oid, r = .deliver j q oid
  · obtain ⟨j, q, oid, rfl⟩ := hd
    refine safe_bind.mpr ((free_runJob j q oid).mono ?_)
    intro out l' hl'
    cases out <;> exact hl'
  · refine safe_of_calls (I := fun l : Phase => l.isHanding = false) ((calls_shopProg r).mono ?_) rfl
    intro op hop l hl
    cases op with
    | inl k => exact (neutral_kv k).keeps hl
    | inr op =>
      exact (call_quiet (quiet_of_may (fun j q oid h => hd ⟨j, q, oid, h⟩) hop) hl).mono
        fun _ _ h => h.1

/-! ## What a phase says about a trace -/

theorem open_of_phase {tr : List (Event apiSig Err)}
    (h : tr.foldr (shopPost (post o)) .idle ≠ .settled) : ∀ e ∈ tr, settles e.op = false := by
  induction tr with
  | nil => intro e he; cases he
  | cons e tr ih =>
    obtain ⟨time, op, out⟩ := e
    rw [List.foldr_cons] at h
    intro e' he'
    cases op with
    | inl k =>
      rcases List.mem_cons.mp he' with rfl | he'
      · rfl
      · exact ih h e' he'
    | inr op =>
      have hprev : tr.foldr (shopPost (post o)) .idle ≠ .settled := by
        intro hprev
        rw [hprev] at h
        exact h rfl
      rcases List.mem_cons.mp he' with rfl | he'
      · cases op with
        | moveToCompleted j => simp [shopPost, post, move] at h
        | moveToFailed j => simp [shopPost, post, move] at h
        | _ => rfl
      · exact ih hprev e' he'

theorem moved_of_phase {tr : List (Event apiSig Err)} {q : QueueName}
    (h : tr.foldr (shopPost (post o)) .idle = .handing q) :
    ∃ e ∈ tr, ∃ id src dst reason, e.op = .inr (.orderFindOneAndUpdate id src dst reason) ∧
      castObjectId id = some o ∧ dst.nextQueue = some q := by
  induction tr with
  | nil => cases h
  | cons e tr ih =>
    obtain ⟨time, op, out⟩ := e
    rw [List.foldr_cons] at h
    have hold : tr.foldr (shopPost (post o)) .idle = .handing q →
        ∃ e' ∈ ⟨time, op, out⟩ :: tr, ∃ id src dst reason,
          e'.op = .inr (.orderFindOneAndUpdate id src dst reason) ∧
            castObjectId id = some o ∧ dst.nextQueue = some q := by
      intro hprev
      obtain ⟨e', he', hmoved⟩ := ih hprev
      exact ⟨e', List.mem_cons_of_mem _ he', hmoved⟩
    cases op with
    | inl k => exact hold h
    | inr op =>
      simp only [shopPost, post] at h
      split at h
      · cases h
      · cases op with
        | orderFindOneAndUpdate id src dst reason =>
          rcases out with e | (_ | d)
          · exact hold h
          · exact hold h
          · simp only [move] at h
            split at h
            · rename_i hid
              cases hq : dst.nextQueue with
              | none => rw [hq] at h; exact hold h
              | some q' =>
                rw [hq] at h
                cases h
                exact ⟨_, List.mem_cons_self .., id, src, dst, reason, rfl, hid, hq⟩
            · exact hold h
        | addJob q' oid =>
          simp only [move] at h
          split at h
          · cases h
          · exact hold h
        | moveToCompleted j => cases h
        | moveToFailed j => cases h
        | _ => exact hold h

end Handoff

/-- A delivery that has moved `o` makes its calls up to the enqueue without a failure, and BullMQ
takes no job from a delivery that is at it. -/
def handoffSafe (o : ObjectId) (c : ShopConfig) : ShopAct → Bool
  | .call i f => (c.pool[i]?).all fun t =>
    match t.prog.next with
    | some (.inr op) =>
      Handoff.allowed o (t.account (shopPost (Handoff.post o)) fun _ _ => .idle) c.world.2 op f
    | _ => true
  | a => keepsLocks c a

namespace Handoff

theorem keepsLocks_of_safe {o : ObjectId} {c : ShopConfig} {a : ShopAct}
    (h : handoffSafe o c a = true) : keepsLocks c a = true := by
  cases a with
  | call i f => rfl
  | _ => exact h

theorem outline (n : Nat) (catalog : ObjectId → Option ProductDoc) (o : ObjectId) :
    shopSystem.Outline (fun c a => handoffSafe o c a = true) (freshShop n catalog) (logic o)
      (fun _ _ => .idle) fun _ _ => Free where
  store := rfl
  start := ⟨rfl, nofun⟩
  arrive := by
    intro c r w' _ _ hacc hinv
    refine ⟨?_, free_request r⟩
    have hstatus : w'.2.status o = c.world.2.status o := by
      rw [Shop.status, (accept_same hacc).2.orders (fun he => by cases he), Shop.status]
    have h : Inv o c.world.2 (System.worth (logic o) (fun _ _ => .idle) c.pool) := hinv
    apply h.step
    · have hsame := (jobKeys_accept hacc).1
      exact hsame ▸ List.prefix_rfl
    · intro s q _ hw
      rw [← hstatus, hw]
    · intro q
      simp [logic, shopLogic, val]
  tick := fun _ _ _ h => h
  env := by
    intro c g e w' _ he hinv
    obtain ⟨s, hs, rfl⟩ := Option.map_eq_some_iff.mp he
    have hstatus : s.status o = c.world.2.status o := by
      rw [Shop.status, (surroundings_same hs).1.orders, Shop.status]
    have h : Inv o c.world.2 g := hinv
    apply h.step
    · have hsame := jobKeys_surroundings hs
      exact hsame ▸ List.prefix_rfl
    · intro st q _ hw
      rw [← hstatus, hw]
    · exact fun _ => le_rfl
  guard := by
    intro c j f t op k hr hok ht hp _
    refine ⟨orderIds_reachable hr, ?_⟩
    rintro op' rfl
    have hallowed : allowed o (t.account (shopPost (post o)) fun _ _ => .idle) c.world.2 op' f =
        true := by simpa [handoffSafe, ht, hp, Prog.next] using hok
    exact hallowed

variable {n : Nat} {catalog : ObjectId → Option ProductDoc} {o : ObjectId} {c : ShopConfig}

theorem stage_unique {a b q : QueueName} (ha : a.stage.2.nextQueue = some q)
    (hb : b.stage.2.nextQueue = some q) : a = b := by
  cases a <;> cases ha <;> cases b <;> cases hb <;> rfl

/-- A delivery that owes `o` a job is at a live job of the stage that has moved `o`. -/
theorem live_of_handing
    (h : shopSystem.Reachable (fun c a => handoffSafe o c a = true) (freshShop n catalog) c)
    {t : ShopThread} (ht : t ∈ c.pool) {q : QueueName}
    (hphase : t.account (shopPost (post o)) (fun _ _ => .idle) = .handing q) :
    ∃ queue, queue.stage.2.nextQueue = some q ∧
      ∃ d ∈ c.world.2.jobs, d.queue = queue ∧ castObjectId d.orderId = some o ∧ d.live = true := by
  obtain ⟨e, he, id, src, dst, reason, hop, hid, hq⟩ := moved_of_phase hphase
  have hmay : t.req.may (.orderFindOneAndUpdate id src dst reason) = true := by
    have := h.traces calls_shopProg rfl t ht e he
    rw [hop] at this
    exact this
  obtain ⟨j, queue, hreq, hstage⟩ | ⟨-, rfl⟩ := may_update hmay
  swap
  · cases hq
  refine ⟨queue, by rw [← hstage]; exact hq, ?_⟩
  obtain ⟨i, hi⟩ := List.mem_iff_getElem?.mp ht
  have hopen : ∀ e ∈ t.trace, settles e.op = false := by
    apply open_of_phase (o := o)
    have heq : t.trace.foldr (shopPost (post o)) .idle = .handing q := hphase
    rw [heq]
    intro he; cases he
  obtain ⟨made, hjob⟩ := lock_held (fun _ _ => keepsLocks_of_safe) h i t hi j queue id hreq hopen
  exact ⟨_, List.mem_of_getElem? hjob, rfl, hid, rfl⟩

end Handoff

/-- **No lost hand-off.** In every run that meets the condition, an order whose jobs of one stage
have all ended has a job of the next one. -/
theorem handed_on {n : Nat} {catalog : ObjectId → Option ProductDoc} {o : ObjectId}
    {c : ShopConfig}
    (h : shopSystem.Reachable (fun c a => handoffSafe o c a = true) (freshShop n catalog) c) :
    c.world.2.HandedOn o .ordersProcess .ordersFulfill ∧
      c.world.2.HandedOn o .ordersFulfill .ordersNotify := by
  obtain ⟨hinv, -⟩ := (Handoff.outline n catalog o).adequate h
  have hall : ∀ queue q, queue.stage.2.nextQueue = some q → c.world.2.HandedOn o queue q := by
    intro queue q hq hstatus hdead
    rcases hinv _ q hq hstatus with hadded | hpos
    · exact hadded
    · obtain ⟨t, ht, hpos⟩ := Collection.exists_of_sum_apply_pos hpos
      obtain ⟨queue', hq', d, hd, rfl, hid, hlive⟩ :=
        Handoff.live_of_handing h ht (Handoff.handing_of_val hpos)
      obtain rfl := Handoff.stage_unique hq' hq
      rw [hdead d hd rfl hid] at hlive
      cases hlive
  exact ⟨hall _ _ rfl, hall _ _ rfl⟩

/-- The first attempt fails before the update; the retry moves the order and hands it on. -/
theorem handed_on_paid :
    ∃ c, shopSystem.Reachable (fun c a => handoffSafe idB c a = true)
        (freshShop 0 (oneProduct 1)) c ∧
      c.world.2.status idB = some .paid ∧
      c.world.2.jobs.map (fun d => (d.queue, d.live)) =
        [(.ordersProcess, false), (.ordersFulfill, true)] ∧
      c.world.2.HandedOn idB .ordersProcess .ordersFulfill := by
  have hrun : (shopSystem.run (handoffSafe idB) (freshShop 0 (oneProduct 1)) (orderPlaced ++
      .arrive (.deliver 0 .ordersProcess idB.toString) :: callsOf 1 3 idB ++
      .call 1 (.failed (.error "not primary")) :: callsOf 1 1 idB ++
      .env (.promote 0) :: .arrive (.deliver 0 .ordersProcess idB.toString) ::
        callsOf 2 8 idB)).map (fun c =>
        (c.world.2.status idB, c.world.2.jobs.map fun d => (d.queue, d.live))) =
      some (some .paid, [(.ordersProcess, false), (.ordersFulfill, true)]) := by decide
  obtain ⟨c, hc, hs⟩ := Option.map_eq_some_iff.mp hrun
  obtain ⟨hstatus, hjobs⟩ := Prod.mk.injEq .. ▸ hs
  have hr := System.Reachable.of_run hc
  exact ⟨c, hr, hstatus, hjobs, (handed_on hr).1⟩

/-- The publish fails once. The retry finds the order paid and completes the job. -/
theorem stranded :
    ¬∀ (n : Nat) (catalog : ObjectId → Option ProductDoc) (o : ObjectId) (c : ShopConfig),
      shopSystem.Reachable (fun c a => keepsLocks c a = true) (freshShop n catalog) c →
      c.world.2.HandedOn o .ordersProcess .ordersFulfill := by
  have hrun : (shopSystem.run keepsLocks (freshShop 0 (oneProduct 1)) (orderPlaced ++
      .arrive (.deliver 0 .ordersProcess idB.toString) :: callsOf 1 5 idB ++
      .call 1 (.failed (.error "redis blip")) :: callsOf 1 1 idB ++
      .env (.promote 0) :: .arrive (.deliver 0 .ordersProcess idB.toString) ::
        callsOf 2 2 idB)).map (fun c =>
        (c.world.2.status idB, c.world.2.jobs.map fun d => (d.queue, d.live))) =
      some (some .paid, [(.ordersProcess, false)]) := by decide
  obtain ⟨c, hc, hs⟩ := Option.map_eq_some_iff.mp hrun
  obtain ⟨hstatus, hjobs⟩ := Prod.mk.injEq .. ▸ hs
  have hkeys : ∀ d ∈ c.world.2.jobs, d.queue = .ordersProcess ∧ d.live = false := by
    intro d hd
    have hmem : (d.queue, d.live) ∈ c.world.2.jobs.map fun d => (d.queue, d.live) :=
      List.mem_map_of_mem hd
    rw [hjobs, List.mem_singleton, Prod.mk.injEq] at hmem
    exact hmem
  intro h
  obtain ⟨oid, hmem, -⟩ := h 0 _ idB c (.of_run hc) hstatus fun d hd _ _ => (hkeys d hd).2
  obtain ⟨d, hd, hkey⟩ := List.mem_map.mp hmem
  rw [Prod.mk.injEq, (hkeys d hd).1] at hkey
  cases hkey.1

end Flashkart
