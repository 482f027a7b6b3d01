import Flashkart.Shop.Speaker

/-!
# Shop.Tell

Every request announces what it has changed, one call after the other, but for the units that
`reserve` and the sweep of the api put back: the logic of `Speaker` and its rules, from one call
to a whole request.
-/

namespace Flashkart

open Async Logic

namespace Tell


def logic (pid : String) : ShopLogic Speaker (Multiset Speaker) where
  store := shopSystem.store
  guard := fun _ l g s o f => ∀ op, o = .inr op → op.goesThrough f = true ∧
    ∃ as : List Speaker, (as : Multiset Speaker) = {l} + g ∧ heeds pid s.world.2 as l op = true
  inv := fun s g => Echoes pid s.now s.world.2 g
  post := shopPost (Speaker.post pid)
  val := fun l => {l}

variable {pid : String} {i : Nat} {l : Speaker}

/-! ## Calls -/

theorem speak_call {op : ShopOp} {R : Except Err op.Ret → Speaker → Prop}
    (h : ∀ now w g f out w' (as : List Speaker), Echoes pid now w ({l} + g) →
      op.goesThrough f = true → (as : Multiset Speaker) = {l} + g → heeds pid w as l op = true →
      shopStore.exec now i op f w = some (out, w') →
      Echoes pid now w' ({Speaker.post pid op out l} + g) ∧ R out (Speaker.post pid op out l)) :
    ShopCall (logic pid) i l op R := by
  refine call_of (fun _ _ _ _ _ => trivial) fun s g f out w' hinv hg hx => ?_
  obtain ⟨hthrough, as, has, hheeds⟩ := hg op rfl
  exact h s.now s.world.2 g f out w'.2 as hinv hthrough has hheeds (exec_inr hx).1

/-- The calls that a speaker takes notice of. -/
def heard : ShopOp → Bool
  | .buyStock .. | .incrby .. | .publishStockUpdate .. | .publishStock _ | .dateNow
  | .reservationCreate _ => true
  | _ => false

theorem neutral_of_unheard {op : ShopOp} (hop : heard op = false) :
    (logic pid).Neutral (.inr op) := by
  intro i l
  refine speak_call fun now w g f out w' as h _ _ _ hx => ?_
  have hpost : Speaker.post pid op out l = l := by
    cases op <;> first | rfl | cases hop
  rw [hpost]
  refine ⟨?_, rfl⟩
  have hsame := exec_same hx
  by_cases hnx : ∃ k n, op = .setStockNx k n
  · obtain ⟨k, n, rfl⟩ := hnx
    have hc := hsame.stockChannel (fun he => by cases he)
    have ho := hsame.outbox (fun he => by cases he)
    rcases Store.exec_effect hx with ⟨-, q, a, hx, -⟩ | ⟨-, rfl, -⟩
    · simp only [shopStore] at hx
      split at hx
      · cases hx; exact h
      · rename_i hnone
        cases hx
        by_cases hk : k = stockKey pid
        · subst hk
          exact h.primed hnone rfl rfl
        · exact h.congr (Function.update_of_ne (Ne.symm hk) _ _) rfl rfl
    · exact h
  · have hparts : op.writes ≠ .stock ∧ op.writes ≠ .stockChannel ∧ op.writes ≠ .outbox := by
      cases op <;> first
        | (cases hop; done)
        | exact absurd ⟨_, _, rfl⟩ hnx
        | (refine ⟨?_, ?_, ?_⟩ <;> intro he <;> cases he)
    exact h.congr (congrFun (hsame.stock hparts.1) _) (hsame.stockChannel hparts.2.1)
      (hsame.outbox hparts.2.2)

/-- A request is at rest, but for what it has done to the product `p`. -/
def At (pid p : String) (b : Bool) (t s : Stage) : Speaker → Prop :=
  fun l => l = ⟨b, if p = pid then t else s⟩

theorem call_buyStock {p : String} {qty : Nat} {b : Bool} (hl : l = ⟨b, .quiet⟩) :
    ShopCall (logic pid) i l (.buyStock (stockKey p) qty)
      (Ends (fun r => if r = -2 ∨ r = -1 then (· = ⟨b, .quiet⟩) else At pid p b (.due r) .quiet)
        (· = ⟨b, .quiet⟩)) := by
  subst hl
  refine speak_call fun now w g f out w' as h hthrough _ _ hx => ?_
  rcases Store.exec_cases hx with ⟨q, a, -, hs, rfl⟩ | ⟨e, -, rfl, rfl⟩ | ⟨e, q, a, rfl, -, -⟩
  · have hR : Ends (fun r : Int => if r = -2 ∨ r = -1 then (· = (⟨b, .quiet⟩ : Speaker))
        else At pid p b (.due r) .quiet) (· = ⟨b, .quiet⟩) (.ok a : Except Err Int)
          (Speaker.post pid (.buyStock (stockKey p) qty) (.ok a) ⟨b, .quiet⟩) := by
      simp only [ends_ok, Speaker.post, stockKey_inj]
      by_cases ha : a = -2 ∨ a = -1
      · rw [if_pos ha, if_neg fun h => h.2 ha]
      · rw [if_neg ha]
        by_cases hp : p = pid
        · simp [At, hp, ha]
        · simp [At, hp]
    refine ⟨?_, hR⟩
    simp only [shopStore, Option.some.injEq, Prod.mk.injEq] at hs
    obtain ⟨ha, rfl⟩ := hs
    rcases BUY_LUA_cases w.stock (stockKey p) qty with
      ⟨-, hr⟩ | ⟨m, -, -, hr⟩ | ⟨m, hm, hle, hr⟩
    · rw [hr] at ha ⊢
      subst ha
      simpa [Speaker.post] using h.congr rfl rfl rfl
    · rw [hr] at ha ⊢
      subst ha
      simpa [Speaker.post] using h.congr rfl rfl rfl
    · rw [hr] at ha ⊢
      subst ha
      have hna : ¬(m - (qty : Int) = -2 ∨ m - (qty : Int) = -1) := by omega
      by_cases hp : p = pid
      · subst hp
        refine h.change (Function.update_self ..) rfl rfl ?_ (.inl ?_)
        · simp [Speaker.post, hna]
        · simp [Speaker.post, hna]
      · have hk : stockKey pid ≠ stockKey p := fun he => hp (stockKey_injective he).symm
        have hpost : Speaker.post pid (.buyStock (stockKey p) qty)
            (.ok (m - (qty : Int))) ⟨b, .quiet⟩ = ⟨b, .quiet⟩ := by simp [Speaker.post, hp]
        rw [hpost]
        exact h.congr (Function.update_of_ne hk _ _) rfl rfl
  · exact ⟨h, rfl⟩
  · cases hthrough

/-- Units come back and the new value is announced. -/
theorem call_return {p : String} {m : Nat} {s : Stage} (hl : l = ⟨true, s⟩) :
    ShopCall (logic pid) i l (.incrby (stockKey p) m)
      (Ends (fun n => At pid p true (.due n) s) (· = ⟨true, s⟩)) := by
  subst hl
  refine speak_call fun now w g f out w' as h hthrough _ _ hx => ?_
  rcases Store.exec_cases hx with ⟨q, a, -, hs, rfl⟩ | ⟨e, -, rfl, rfl⟩ | ⟨e, q, a, rfl, -, -⟩
  · by_cases hp : p = pid
    · subst hp
      cases hs
      simp only [Speaker.post, ends_ok, At, if_true]
      exact ⟨h.change (Function.update_self ..) rfl rfl (fun _ _ he => by cases he) (.inl rfl),
        trivial⟩
    · have hk : stockKey pid ≠ stockKey p := fun he => hp (stockKey_injective he).symm
      cases hs
      simp only [Speaker.post, ends_ok, At, hp, stockKey_inj, if_false]
      exact ⟨h.congr (Function.update_of_ne hk _ _) rfl rfl, trivial⟩
  · exact ⟨h, rfl⟩
  · cases hthrough

def Rests (b : Bool) (l : Speaker) : Prop := l.announces = b ∧ l.stage.rests = true

/-- Units come back and nothing is said. -/
theorem call_giveBack {k : String} {m : Nat} (hl : Rests false l) :
    ShopCall (logic pid) i l (.incrby k m) fun _ => Rests false := by
  obtain ⟨b, s⟩ := l
  obtain ⟨rfl, hrest⟩ := hl
  refine speak_call fun now w g f out w' as h hthrough has hheeds hx => ?_
  rcases Store.exec_cases hx with ⟨q, a, -, hs, rfl⟩ | ⟨e, -, rfl, rfl⟩ | ⟨e, q, a, rfl, -, -⟩
  · cases hs
    by_cases hk : k = stockKey pid
    · subst hk
      simp only [heeds, ne_eq, not_true_eq_false, decide_false, Bool.false_or, mayReturn] at hheeds
      by_cases hm : m = 0
      · subst hm
        simp only [Speaker.post, if_true, Bool.false_eq_true, if_false]
        refine ⟨?_, rfl, hrest⟩
        cases hv : w.stock (stockKey pid) with
        | none => exact h.primed hv rfl rfl
        | some v => exact h.congr (by simp [hv]) rfl rfl
      · simp only [hm, decide_false, Bool.false_or] at hheeds
        obtain ⟨v, hv, hunsaid⟩ := (Option.any_eq_true _ _).mp hheeds
        have hdue : v + (m : Int) ∈ due g := by
          refine ((unsaid_iff has).mp hunsaid).resolve_left fun hl => ?_
          rw [hl] at hrest
          cases hrest
        simp only [Speaker.post, if_true, Bool.false_eq_true, hm, if_false]
        refine ⟨h.change ?_ rfl rfl (fun _ _ he => by cases he) (.inr hdue), rfl, rfl⟩
        simp [hv]
    · simp only [Speaker.post, hk, if_false]
      exact ⟨h.congr (Function.update_of_ne (Ne.symm hk) _ _) rfl rfl, rfl, hrest⟩
  · exact ⟨h, rfl, hrest⟩
  · cases hthrough

theorem call_announce {p : String} {n : Int} {reason : StockEventReason} {b : Bool} {s : Stage}
    (hl : At pid p b (.due n) s l) :
    ShopCall (logic pid) i l (.publishStockUpdate p n reason) fun _ => At pid p b (.settled n) s := by
  cases hl
  refine speak_call fun now w g f out w' as h hthrough has hheeds hx => ?_
  rcases Store.exec_cases hx with ⟨q, a, -, hs, rfl⟩ | ⟨e, rfl, -, -⟩ | ⟨e, q, a, rfl, -, -⟩
  · cases hs
    by_cases hp : p = pid
    · subst hp
      simp only [heeds, ne_eq, not_true_eq_false, decide_false, Bool.false_or] at hheeds
      rw [if_pos rfl] at h has ⊢
      simp only [Speaker.post, At, if_true, and_true]
      refine h.stamp has rfl hheeds rfl rfl fun x => ?_
      rw [mem_flight_add, mem_flight_outbox]
      simp [StockEvent.stamp]
    · simp only [Speaker.post, At, hp, if_false, and_true]
      rw [if_neg hp] at h
      exact h.outbox_other hp
  · cases hthrough
  · cases hthrough

/-- The request is about to wait for its publish. -/
theorem call_stamp {p : String} {n : Int} {b : Bool} {s : Stage} (hs : s.rests = true)
    (hl : At pid p b (.due n) s l) :
    ShopCall (logic pid) i l .dateNow
      (Ends (fun ts => At pid p b (.stamped n ts) s) fun _ => False) := by
  cases hl
  refine speak_call fun now w g f out w' as h hthrough has hheeds hx => ?_
  rcases Store.exec_cases hx with ⟨q, a, -, hq, rfl⟩ | ⟨e, rfl, -, -⟩ | ⟨e, q, a, rfl, -, -⟩
  · cases hq
    by_cases hp : p = pid
    · subst hp
      rw [if_pos rfl] at h has hheeds ⊢
      refine ⟨h.stamp has rfl hheeds rfl rfl fun x => ?_, by simp [At, Speaker.post, Stage.stamp]⟩
      rw [mem_flight_add]
      refine or_congr_left ⟨fun he => ?_, fun he => ?_⟩
      · cases he; rfl
      · rw [he]; rfl
    · have hrest : s.stamp now = s := by
        cases s <;> first | rfl | cases hs
      rw [if_neg hp] at h ⊢
      simp only [Speaker.post, hrest, ends_ok, At, if_neg hp, and_true]
      exact h
  · cases hthrough
  · cases hthrough

theorem call_publish {p : String} {n : Int} {ts : Nat} {reason : StockEventReason} {b : Bool}
    {s : Stage} (hl : At pid p b (.stamped n ts) s l) :
    ShopCall (logic pid) i l (.publishStock ⟨p, n, reason, ts⟩) fun _ => At pid p b (.settled n) s := by
  cases hl
  refine speak_call fun now w g f out w' as h hthrough has hheeds hx => ?_
  rcases Store.exec_cases hx with ⟨q, a, -, hs, rfl⟩ | ⟨e, rfl, -, -⟩ | ⟨e, q, a, rfl, -, -⟩
  · cases hs
    by_cases hp : p = pid
    · subst hp
      simp only [heeds, ne_eq, not_true_eq_false, decide_false, Bool.false_or] at hheeds
      rw [if_pos rfl] at h has ⊢
      simp only [Speaker.post, At, if_true, and_true]
      refine h.land has (s := ⟨n, ts⟩) hheeds (mem_flight_add.mpr (.inl rfl)) rfl ?_ ?_ ?_ ?_
      · simp [Shop.landed, Shop.stockEvents, StockEvent.stamp]
      · intro x hx
        rw [mem_flight_add] at hx ⊢
        exact .inr (hx.resolve_left (fun he => by cases he))
      · intro x hx
        rw [mem_flight_add] at hx ⊢
        refine hx.imp (fun he => ?_) .inr
        cases he; rfl
      · intro v hv
        rw [mem_due_add] at hv ⊢
        exact .inr (hv.resolve_left (fun he => by cases he))
    · simp only [Speaker.post, At, hp, if_false, and_true]
      rw [if_neg hp] at h
      exact h.channel_other hp
  · cases hthrough
  · cases hthrough

theorem call_create {p : String} {n : Int} {inp : ReservationInput} {b : Bool}
    (hl : At pid p b (.settled n) .quiet l) :
    ShopCall (logic pid) i l (.reservationCreate inp)
      (Ends (fun _ => At pid p b (.due n) .quiet) (At pid p b (.settled n) .quiet)) := by
  cases hl
  refine speak_call fun now w g f out w' as h hthrough has hheeds hx => ?_
  have hsame := exec_same hx
  have h' : Echoes pid now w' ({⟨b, if p = pid then .settled n else .quiet⟩} + g) :=
    h.congr (congrFun (hsame.stock (fun he => by cases he)) _)
      (hsame.stockChannel (fun he => by cases he)) (hsame.outbox (fun he => by cases he))
  cases out with
  | error e => exact ⟨h', rfl⟩
  | ok a =>
    by_cases hp : p = pid
    · subst hp
      rw [if_pos rfl] at h' ⊢
      refine ⟨h'.renew rfl rfl, ?_⟩
      simp [At, Speaker.post, Stage.renew]
    · rw [if_neg hp] at h' ⊢
      refine ⟨h', ?_⟩
      simp [At, Speaker.post, Stage.renew, hp]

/-- The clock read by a request that owes no announcement. -/
theorem call_clock {b : Bool} (hl : Rests b l) :
    ShopCall (logic pid) i l .dateNow fun _ l' => l' = l := by
  obtain ⟨b, s⟩ := l
  obtain ⟨rfl, hrest⟩ := hl
  refine speak_call fun now w g f out w' as h _ _ _ hx => ?_
  have hpost : Speaker.post pid .dateNow out ⟨b, s⟩ = ⟨b, s⟩ := by
    cases out with
    | error e => rfl
    | ok ts => cases s <;> first | rfl | cases hrest
  have hsame := exec_same hx
  rw [hpost]
  exact ⟨h.congr (congrFun (hsame.stock (fun he => by cases he)) _)
    (hsame.stockChannel (fun he => by cases he)) (hsame.outbox (fun he => by cases he)), rfl⟩

/-! ## Requests -/

theorem At.rests {p : String} {n : Int} {b : Bool} {s : Stage} (hs : s.rests = true)
    (h : At pid p b (.settled n) s l) : Rests b l := by
  cases h
  refine ⟨rfl, ?_⟩
  dsimp only
  split
  · rfl
  · exact hs

/-- The calls after which a request at rest is at rest. -/
def calm : ShopOp → Bool
  | .dateNow => true
  | o => !heard o

theorem call_calm {op : ShopOp} {b : Bool} (hop : calm op = true) (hl : Rests b l) :
    ShopCall (logic pid) i l op fun _ => Rests b := by
  by_cases hd : op = .dateNow
  · subst hd
    exact (call_clock hl).mono fun _ _ heq => heq ▸ hl
  · have hun : heard op = false := by
      cases op <;> first | rfl | exact absurd rfl hd | cases hop
    exact (neutral_of_unheard hun).keeps hl

theorem rests_calm {α : Type} {m : ShopProg α} {b : Bool} (h : m.Calls fun op => calm op = true)
    (hl : Rests b l) : (logic pid).Safe i m.inr l fun _ => Rests b :=
  safe_of_calls (Prog.calls_inr (h.mono fun _ hop _ hl => call_calm hop hl)) hl

/-- A calm call, and then whatever goes on from rest. -/
theorem rests_step {α : Type} {op : ShopOp} {f : op.Ret → ShopProg α} {b : Bool}
    (hop : calm op = true) (hl : Rests b l)
    (h : ∀ a l', Rests b l' → (logic pid).Safe i (f a).inr l' fun _ => Rests b) :
    (logic pid).Safe i (op.call.bind f).inr l fun _ => Rests b := by
  rw [Prog.inr_bind]
  exact .inr_op (call_calm hop hl) h fun _ _ h => h

theorem safe_purchase (p : String) (qty : Nat) (hl : l = ⟨false, .quiet⟩) :
    (logic pid).Safe i (purchase p qty).inr l
      (Ends (TookAt (fun n => At pid p false (.settled n) .quiet) (· = ⟨false, .quiet⟩))
        fun l' => l' = ⟨false, .quiet⟩ ∨ l' = ⟨false, .quiet⟩) := by
  refine safe_purchase_of (D := fun _ => True) (I := (· = ⟨false, .quiet⟩)) hl
    (fun l hl => call_buyStock hl) (fun l hl => ?_) (fun l d hl _ => ?_)
    fun n l hl => call_announce hl
  · exact (neutral_of_unheard rfl i l).mono fun _ _ heq => ⟨heq ▸ hl, fun _ _ => trivial⟩
  · exact (neutral_of_unheard rfl).keeps hl

theorem rests_quiet {b : Bool} (hl : l = ⟨b, .quiet⟩) : Rests b l := hl ▸ ⟨rfl, rfl⟩

theorem safe_reserve (p : String) (qty : Nat) (uid : Option String) (hl : l = ⟨false, .quiet⟩) :
    (logic pid).Safe i (reserve p qty uid).inr l fun _ => Rests false := by
  have hkept : ∀ n l, At pid p false (.settled n) .quiet l → Rests false l :=
    fun n l h => h.rests rfl
  refine (safe_reserve_of (F := Rests false) (D := Rests false)
    (C := fun n => At pid p false (.due n) .quiet) (safe_purchase p qty hl) (fun n l hl => ?_)
    (fun n l p' u t hl _ => call_create hl) (fun n l hl => ?_)
    fun n l hl => call_giveBack (hkept n l hl)).mono ?_
  · refine (call_clock (hkept n l hl)).mono ?_
    rintro (e | ts) l' rfl
    · exact hkept n l' hl
    · exact hl
  · exact (call_announce hl).mono fun _ l' h => hkept n l' h
  · rintro (e | r) l' h
    · rcases h with h | h | h
      · exact rests_quiet h
      · exact rests_quiet h
      · exact h
    · cases r with
      | held => exact h
      | soldOut => exact rests_quiet h
      | notFound => exact rests_quiet h

theorem safe_doPurchase (uid : ObjectId) (p : String) (qty : Nat) (hl : l = ⟨false, .quiet⟩) :
    (logic pid).Safe i (doPurchase uid p qty).inr l
      (Ends (Served p qty (Rests false)) fun l' => l' = ⟨false, .quiet⟩ ∨ Rests false l') := by
  have hpurchase : (logic pid).Safe i (purchase p qty).inr l
      (Ends (Took (Rests false) (· = ⟨false, .quiet⟩))
        fun l' => l' = ⟨false, .quiet⟩ ∨ Rests false l') := by
    refine (safe_purchase p qty hl).mono fun out l' h => ?_
    cases out with
    | error e => exact h.imp_right rests_quiet
    | ok r =>
      cases r with
      | ok n => exact At.rests rfl h
      | soldOut => exact h
      | notFound => exact h
  have hkeeps : ∀ {op : ShopOp}, heard op = false → ∀ l, Rests false l →
      ShopCall (logic pid) i l op (Ends (fun _ => Rests false) (Rests false)) := by
    intro op hop l hl
    exact neutral_keeps (neutral_of_unheard hop) hl hl
  refine (Flashkart.safe_doPurchase hpurchase (hkeeps rfl)
    (fun l price total hl => hkeeps rfl l hl) fun _ => neutral_of_unheard rfl).mono ?_
  rintro (e | r) l' h
  · rcases h with h | h | h
    · exact .inl h
    · exact .inr h
    · exact .inr h
  · exact h

theorem safe_doReserve (uid : ObjectId) (p : String) (qty : Nat) (hl : l = ⟨false, .quiet⟩) :
    (logic pid).Safe i (doReserve uid p qty).inr l
      (Ends (Served p qty (Rests false)) fun l' => l' = ⟨false, .quiet⟩ ∨ Rests false l') := by
  rw [doReserve, Prog.bind_eq, Prog.inr_bind]
  refine safe_bind.mpr ((safe_reserve p qty _ hl).mono ?_)
  rintro (e | r) l' h
  · exact .inr h
  · cases r with
    | held id t r => exact ⟨rfl, rfl, rfl, h⟩
    | soldOut => exact .inr h
    | notFound => exact .inr h

theorem safe_money {scope : String} {req : BuyRequest}
    {work : ObjectId → String → Nat → ShopProg (StoredResult Body)}
    (hwork : ∀ q, (logic pid).Safe i (work req.userId req.id q).inr l
      (Ends (Served req.id q (Rests false)) fun l' => l' = ⟨false, .quiet⟩ ∨ Rests false l'))
    (hl : l = ⟨false, .quiet⟩) :
    (logic pid).Safe i (moneyRoute scope work req) l fun _ => Rests false := by
  have hkv : ∀ k, (logic pid).Neutral (.inl k) := by
    intro k i l
    refine call_of (fun _ _ _ _ _ => trivial) fun s g f out w' h _ hx => ⟨?_, rfl⟩
    show Echoes pid s.now w'.2 _
    rw [exec_inl (o := k) hx]
    exact h
  refine (safe_moneyRoute (I := (· = ⟨false, .quiet⟩)) (E := Rests false) (F := Rests false)
    (C := fun _ => Rests false) hl hkv (fun q _ => hwork q) ?_).mono ?_
  · intro key v q l' hl'
    refine (hkv _ i l').mono ?_
    rintro out l'' rfl
    exact ⟨rfl, fun _ _ => hl'⟩
  · rintro (e | r) l' h
    · rcases h with h | h | h
      · exact rests_quiet h
      · exact h
      · exact h
    · rcases h with ⟨-, h⟩ | ⟨-, h⟩
      · exact rests_quiet h
      · exact h.2.2.2

/-- Units come back and the publish is not waited for. -/
theorem safe_release (id : String) (hl : Rests true l) :
    (logic pid).Safe i (releaseReservation id).inr l fun _ => Rests true := by
  obtain ⟨b, s⟩ := l
  obtain ⟨rfl, hrest⟩ := hl
  unfold releaseReservation
  split
  · refine rests_step rfl ⟨rfl, hrest⟩ fun d l₁ h₁ => ?_
    cases d with
    | none =>
      refine rests_step rfl h₁ fun existing l₂ h₂ => ?_
      cases existing <;> exact h₂
    | some d =>
      obtain ⟨b, s⟩ := l₁
      obtain ⟨rfl, hrest⟩ := h₁
      dsimp only
      rw [Prog.bind_eq, Prog.inr_bind]
      refine .inr_op (call_return rfl) ?_ fun e l' h => h ▸ ⟨rfl, hrest⟩
      intro n l₂ h₂
      rw [Prog.bind_eq, Prog.inr_bind]
      refine safe_bind.mpr ((safe_publishStockUpdate_of (call_announce h₂)).mono ?_)
      rintro out l₃ ⟨h₃, rfl⟩
      exact h₃.rests hrest
  · exact ⟨rfl, hrest⟩

/-- The end of a tick's round and of the compensation: units come back, and the publish is waited
for. -/
theorem rests_return {α : Type} {p : String} {m : Nat} {reason : StockEventReason}
    {f : ShopProg α} (hl : Rests true l)
    (h : ∀ l', Rests true l' → (logic pid).Safe i f.inr l' fun _ => Rests true) :
    (logic pid).Safe i ((ShopOp.incrby (stockKey p) m).call.bind fun n =>
      ShopOp.dateNow.call.bind fun ts =>
        (ShopOp.publishStock ⟨p, n, reason, ts⟩).call.bind fun _ => f).inr l
      fun _ => Rests true := by
  obtain ⟨b, s⟩ := l
  obtain ⟨rfl, hrest⟩ := hl
  rw [Prog.inr_bind]
  refine .inr_op (call_return rfl) ?_ fun e l' h => h ▸ ⟨rfl, hrest⟩
  intro n l₁ h₁
  rw [Prog.inr_bind]
  refine .inr_op (call_stamp hrest h₁) ?_ fun e l' h => h.elim
  intro ts l₂ h₂
  rw [Prog.inr_bind]
  refine .inr_op (call_publish h₂) ?_ fun e l' h => h.rests hrest
  exact fun _ l₃ h₃ => h l₃ (At.rests hrest h₃)

theorem safe_tickLoop (now n reclaimed : Nat) (hl : Rests true l) :
    (logic pid).Safe i (tickLoop now n reclaimed).inr l fun _ => Rests true := by
  induction n generalizing l reclaimed with
  | zero => exact hl
  | succ n ih =>
    refine rests_step rfl hl fun d l₁ h₁ => ?_
    cases d with
    | none => exact h₁
    | some d => exact rests_return h₁ fun l' h' => ih _ h'

theorem safe_tick (worker : Nat) (hl : Rests true l) :
    (logic pid).Safe i (tick worker).inr l fun _ => Rests true := by
  refine rests_step rfl hl fun entered l₁ h₁ => ?_
  cases entered with
  | false => exact h₁
  | true =>
    have hleave : ∀ l', Rests true l' → (logic pid).Safe i
        (ShopOp.leaveTick worker).call.inr l' fun _ => Rests true :=
      fun l' h' => rests_calm ((Prog.calls_op _).mpr rfl) h'
    rw [if_pos rfl, Prog.bind_eq, Prog.inr_bind, Prog.inr_tryCatch]
    refine safe_bind.mpr (safe_tryCatch.mpr ?_)
    rw [Prog.bind_eq, Prog.inr_bind]
    refine .inr_op (call_calm rfl h₁) ?_ fun e l' h' => hleave l' h'
    intro now l₂ h₂
    rw [Prog.bind_eq, Prog.inr_bind]
    refine safe_bind.mpr ((safe_tickLoop now _ _ h₂).mono ?_)
    rintro (e | n) l₃ h₃
    · exact hleave l₃ h₃
    · exact hleave l₃ h₃

theorem safe_compensate (oid reason : String) (hl : Rests true l) :
    (logic pid).Safe i (compensatePayment oid reason).inr l fun _ => Rests true := by
  refine rests_step rfl hl fun d l₁ h₁ => ?_
  cases d with
  | none => exact h₁
  | some d =>
    refine rests_return h₁ fun l' h' => rests_calm ?_ h'
    exact calls_publish rfl fun _ => rfl

theorem safe_sweep (hl : Rests false l) :
    (logic pid).Safe i sweepExpiredReservations.inr l fun _ => Rests false := by
  refine safe_of_calls (Prog.calls_inr (calls_sweep.mono fun op hop l hl => ?_)) hl
  cases op with
  | incrby k m => exact call_giveBack hl
  | dateNow => exact call_calm rfl hl
  | reservationFindOneAndUpdate f dst => exact call_calm rfl hl
  | _ => cases hop

theorem safe_runJob (job : Nat) (q : QueueName) (oid : String) (hl : Rests true l) :
    (logic pid).Safe i (runJob job q oid).inr l fun _ => Rests true := by
  have hhandler : (handler q oid >>= fun _ => (return none : ShopProg (Option Err))).Calls
      fun op => calm op = true := by
    refine Prog.calls_bind ((calls_handler q oid).mono fun op hop => ?_) fun _ => trivial
    cases op <;> first | rfl | cases hop
  have hsettle : ∀ threw l', Rests true l' →
      (logic pid).Safe i (settleJob job q oid threw).inr l' fun _ => Rests true := by
    intro threw l' hl'
    cases threw with
    | none => exact rests_calm ((Prog.calls_op _).mpr rfl) hl'
    | some err =>
      refine rests_step rfl hl' fun n l₁ h₁ => ?_
      unfold onFailed
      split
      · split
        · exact h₁
        · rw [Prog.inr_tryCatch]
          refine safe_tryCatch.mpr ((safe_compensate oid _ h₁).mono ?_)
          rintro (e | u) l₂ h₂ <;> exact h₂
      · exact h₁
  rw [runJob_eq, Prog.inr_bind, Prog.inr_tryCatch]
  refine safe_bind.mpr (safe_tryCatch.mpr ((rests_calm hhandler hl).mono ?_))
  rintro (e | threw) l₁ h₁
  · exact hsettle (some e) l₁ h₁
  · exact hsettle threw l₁ h₁

/-- Every request ends at rest. -/
theorem safe_request (r : ShopReq) :
    (logic pid).Safe i (shopProg r) ⟨r.announces, .quiet⟩ fun _ l' => l'.stage.rests = true := by
  have lift : ∀ {α : Type} {b : Bool} {m : ApiProg α} {f : α → ShopRes} {l : Speaker},
      ((logic pid).Safe i m l fun _ => Rests b) →
      (logic pid).Safe i (f <$> m) l fun _ l' => l'.stage.rests = true := by
    intro α b m f l hm
    rw [Prog.map_eq]
    refine safe_bind.mpr (hm.mono ?_)
    rintro (e | a) l' h' <;> exact h'.2
  cases r with
  | postBuy req => exact lift (safe_money (fun q => safe_doPurchase _ _ q rfl) rfl)
  | postReserve req => exact lift (safe_money (fun q => safe_doReserve _ _ q rfl) rfl)
  | reserve p qty uid => exact lift (safe_reserve p qty uid rfl)
  | confirm id =>
    refine lift (rests_calm ((calls_confirm id).mono fun op hop => ?_) (b := false) ⟨rfl, rfl⟩)
    cases op <;> first | rfl | cases hop
  | release id => exact lift (safe_release id ⟨rfl, rfl⟩)
  | sweep => exact lift (safe_sweep ⟨rfl, rfl⟩)
  | tick worker => exact lift (safe_tick worker ⟨rfl, rfl⟩)
  | deliver j q oid => exact lift (safe_runJob j q oid ⟨rfl, rfl⟩)
  | compensate oid reason => exact lift (safe_compensate oid reason ⟨rfl, rfl⟩)

end Tell

end Flashkart
