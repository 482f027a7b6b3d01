import Flashkart.Shop.Rules

/-!
# Shop.Undo

Proof rules for the requests that undo a record and give its units back: the release of a
reservation, the sweep of the api, the tick of the worker, and the compensation of a payment that
failed for good.

All of them do the same two calls: the update that flips the record's status, then the `INCRBY` of
its units. `Undoes` is what a logic has to know of these two and of the calls around them;
`Undoes.request` is the rule for a whole request.
-/

namespace Flashkart

open Async Logic

variable {L G : Type} [AddCommMonoid G]

/-- The calls that these requests make beside the two. -/
def ShopOp.besides : ShopOp → Bool
  | .dateNow | .reservationFindById _ | .publishStockUpdate .. | .publishStock _
  | .publishOrder _ | .enterTick _ | .leaveTick _ | .moveToCompleted _ | .moveToFailed _ => true
  | _ => false

/-- What a flip that answered `r` leaves behind: nothing undone, or units to be given back. -/
def Flipped {D : Type} (key : D → String) (units : D → Nat) (I : L → Prop)
    (U : String → Nat → L → Prop) : Option D → L → Prop
  | none => I
  | some d => U (key d) (units d)

def ReservationDoc.stockKey (d : ReservationDoc) : String := Flashkart.stockKey d.productId.toString
def OrderDoc.stockKey (d : OrderDoc) : String := Flashkart.stockKey d.productId.toString

/-- `I` holds of a thread that owes nothing, `U k n` of one that has to give back `n` units of the
counter `k`. -/
structure Undoes (K : ShopLogic L G) (i : Nat) (I : L → Prop) (U : String → Nat → L → Prop) :
    Prop where
  reservation : ∀ l f dst, I l → f.status = .held → dst = .expired ∨ dst = .released →
    ShopCall K i l (.reservationFindOneAndUpdate f dst)
      (Ends (Flipped ReservationDoc.stockKey (·.quantity) I U) I)
  order : ∀ l id reason, I l → ShopCall K i l (.orderFindOneAndUpdate id .pending .failed reason)
    (Ends (Flipped OrderDoc.stockKey (·.quantity) I U) I)
  giveBack : ∀ l k n, U k n l → ShopCall K i l (.incrby k n) fun _ => I
  besides : ∀ o l, o.besides = true → I l → ShopCall K i l o fun _ => I
  handles : ∀ q oid o l, handlerMay q oid o = true → I l → ShopCall K i l o fun _ => I

namespace Undoes

variable {K : ShopLogic L G} {i : Nat} {I : L → Prop} {U : String → Nat → L → Prop} {l : L}

theorem safe_besides (h : Undoes K i I U) {α : Type} {m : ShopProg α}
    (hm : m.Calls fun o : ShopOp => o.besides = true) (hl : I l) : K.Safe i m.inr l fun _ => I := by
  have hcalls : m.Calls fun o : ShopOp => ∀ l, I l → ShopCall K i l o fun _ => I :=
    hm.mono fun o ho l hl => h.besides o l ho hl
  exact safe_of_calls (Prog.calls_inr hcalls) hl

theorem safe_release (h : Undoes K i I U) (hl : I l) (id : String) :
    K.Safe i (releaseReservation id).inr l fun _ => I := by
  unfold releaseReservation
  split
  · rw [Prog.bind_eq, Prog.inr_bind]
    refine .inr_op (h.reservation l _ _ hl rfl (.inr rfl)) ?_ fun e l' h => h
    rintro (_ | d) l₁ h₁
    · refine h.safe_besides (calls_bind_op rfl fun existing => ?_) h₁
      cases existing <;> trivial
    · dsimp only
      rw [Prog.bind_eq, Prog.inr_bind]
      refine .inr_op (h.giveBack l₁ _ _ h₁) ?_ fun e l' h => h
      intro v l₂ h₂
      refine h.safe_besides (Prog.calls_bind (calls_publishStockUpdate rfl) fun _ => ?_) h₂
      trivial
  · exact hl

theorem safe_sweepLoop (h : Undoes K i I U) (now n reclaimed : Nat) (hl : I l) :
    K.Safe i (sweepLoop now n reclaimed).inr l fun _ => I := by
  induction n generalizing l reclaimed with
  | zero => exact hl
  | succ n ih =>
    rw [sweepLoop, Prog.bind_eq, Prog.inr_bind]
    refine .inr_op (h.reservation l _ _ hl rfl (.inl rfl)) ?_ fun e l' h => h
    rintro (_ | d) l₁ h₁
    · exact h₁
    · dsimp only
      rw [Prog.bind_eq, Prog.inr_bind]
      exact .inr_op (h.giveBack l₁ _ _ h₁) (fun v l₂ h₂ => ih _ h₂) fun e l' h => h

theorem safe_sweep (h : Undoes K i I U) (hl : I l) :
    K.Safe i sweepExpiredReservations.inr l fun _ => I := by
  rw [sweepExpiredReservations, Prog.bind_eq, Prog.inr_bind]
  refine .inr_op (h.besides .dateNow l rfl hl) ?_ fun e l' h => h
  exact fun now l' hl' => h.safe_sweepLoop now _ _ hl'

theorem safe_tickLoop (h : Undoes K i I U) (now n reclaimed : Nat) (hl : I l) :
    K.Safe i (tickLoop now n reclaimed).inr l fun _ => I := by
  induction n generalizing l reclaimed with
  | zero => exact hl
  | succ n ih =>
    rw [tickLoop, Prog.bind_eq, Prog.inr_bind]
    refine .inr_op (h.reservation l _ _ hl rfl (.inl rfl)) ?_ fun e l' h => h
    rintro (_ | d) l₁ h₁
    · exact h₁
    · dsimp only
      rw [Prog.bind_eq, Prog.inr_bind]
      refine .inr_op (h.giveBack l₁ _ _ h₁) ?_ fun e l' h => h
      intro v l₂ h₂
      rw [Prog.bind_eq, Prog.inr_bind]
      refine .inr_op (h.besides .dateNow l₂ rfl h₂) ?_ fun e l' h => h
      intro ts l₃ h₃
      rw [Prog.bind_eq, Prog.inr_bind]
      refine .inr_op (h.besides (.publishStock _) l₃ rfl h₃) ?_ fun e l' h => h
      exact fun _ l₄ h₄ => ih _ h₄

theorem safe_tick (h : Undoes K i I U) (hl : I l) (worker : Nat) :
    K.Safe i (tick worker).inr l fun _ => I := by
  rw [tick, Prog.bind_eq, Prog.inr_bind]
  refine .inr_op (h.besides (.enterTick worker) l rfl hl) ?_ fun e l' h => h
  intro entered l₁ h₁
  cases entered with
  | false => exact h₁
  | true =>
    have hleave : ∀ l', I l' →
        K.Safe i (ShopOp.leaveTick worker).call.inr l' fun _ => I := fun l' h' =>
      h.safe_besides ((Prog.calls_op (S := shopSig) _).mpr rfl) h'
    rw [if_pos rfl, Prog.bind_eq, Prog.inr_bind, Prog.inr_tryCatch]
    refine safe_bind.mpr (safe_tryCatch.mpr ?_)
    rw [Prog.bind_eq, Prog.inr_bind]
    refine .inr_op (h.besides .dateNow l₁ rfl h₁) ?_ fun e l' h' => hleave l' h'
    intro now l₂ h₂
    rw [Prog.bind_eq, Prog.inr_bind]
    refine safe_bind.mpr ((h.safe_tickLoop now _ _ h₂).mono ?_)
    rintro (e | n) l₃ h₃
    · exact hleave l₃ h₃
    · exact hleave l₃ h₃

theorem safe_compensate (h : Undoes K i I U) (hl : I l) (oid reason : String) :
    K.Safe i (compensatePayment oid reason).inr l fun _ => I := by
  rw [compensatePayment, Prog.bind_eq, Prog.inr_bind]
  refine .inr_op (h.order l oid _ hl) ?_ fun e l' h => h
  rintro (_ | d) l₁ h₁
  · exact h₁
  · dsimp only
    rw [Prog.bind_eq, Prog.inr_bind]
    refine .inr_op (h.giveBack l₁ _ _ h₁) ?_ fun e l' h => h
    intro v l₂ h₂
    refine h.safe_besides (calls_bind_op rfl fun ts => calls_bind_op rfl fun _ => ?_) h₂
    exact calls_publish rfl fun _ => rfl

/-- The handlers undo nothing; the compensation after the last attempt does. -/
theorem safe_runJob (h : Undoes K i I U) (hl : I l) (job : Nat) (q : QueueName) (oid : String) :
    K.Safe i (runJob job q oid).inr l fun _ => I := by
  have hafter : ∀ threw l', I l' → K.Safe i (settleJob job q oid threw).inr l' fun _ => I := by
    intro threw l' hl'
    cases threw with
    | none => exact h.safe_besides ((Prog.calls_op (S := shopSig) _).mpr rfl) hl'
    | some err =>
      rw [settleJob, Prog.bind_eq, Prog.inr_bind]
      refine .inr_op (h.besides (.moveToFailed job) l' rfl hl') ?_ fun e l' h => h
      intro n l₁ h₁
      unfold onFailed
      split
      · split
        · exact h₁
        · rw [Prog.inr_tryCatch]
          refine safe_tryCatch.mpr ((h.safe_compensate h₁ oid _).mono ?_)
          rintro (e | u) l₂ h₂ <;> exact h₂
      · exact h₁
  have hhandler : (handler q oid >>= fun _ => (return none : ShopProg (Option Err))).Calls
      fun o => handlerMay q oid o = true := Prog.calls_bind (calls_handler q oid) fun _ => trivial
  have hcalls : (handler q oid >>= fun _ => (return none : ShopProg (Option Err))).Calls
      fun o => ∀ l, I l → ShopCall K i l o fun _ => I :=
    hhandler.mono fun o ho l hl => h.handles q oid o l ho hl
  rw [runJob_eq, Prog.inr_bind, Prog.inr_tryCatch]
  refine safe_bind.mpr (safe_tryCatch.mpr ((safe_of_calls (Prog.calls_inr hcalls) hl).mono ?_))
  rintro (e | threw) l₁ h₁
  · exact hafter (some e) l₁ h₁
  · exact hafter threw l₁ h₁

end Undoes

/-- The requests that can undo a record. -/
def ShopReq.undoes : ShopReq → Bool
  | .release _ | .sweep | .tick _ | .deliver .. | .compensate .. => true
  | _ => false

/-- Whatever such a request undoes it gives back before it ends. -/
theorem Undoes.request {K : ShopLogic L G} {i : Nat} {I : L → Prop} {U : String → Nat → L → Prop}
    (h : Undoes K i I U) {r : ShopReq} (hr : r.undoes = true) {l : L} (hl : I l) :
    K.Safe i (shopProg r) l fun _ => I := by
  have lift : ∀ {α : Type} {m : ShopProg α} {f : α → ShopRes},
      (K.Safe i m.inr l fun _ => I) → K.Safe i (f <$> m.inr) l fun _ => I := by
    intro α m f hm
    rw [Prog.map_eq]
    refine safe_bind.mpr (hm.mono ?_)
    rintro (e | a) l' h' <;> exact h'
  cases r with
  | release id => exact lift (h.safe_release hl id)
  | sweep => exact lift (h.safe_sweep hl)
  | tick worker => exact lift (h.safe_tick hl worker)
  | deliver j q oid => exact lift (h.safe_runJob hl j q oid)
  | compensate oid reason => exact lift (h.safe_compensate hl oid reason)
  | _ => cases hr

end Flashkart
