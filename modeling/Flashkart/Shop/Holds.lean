import Flashkart.Shop.Answers
import Flashkart.Shop.Listing
import Flashkart.Shop.Compensation

/-!
# Shop.Holds

A hold over its whole life, and its deadline. The deadline is set from a clock reading of the
request that takes the hold; a confirm and a sweep compare it with one of their own. A confirm may
act some time after its reading, so that a hold can be confirmed late, but not by a request that
starts late.

* `Turn`        — how a hold is settled, by a request that has read the clock.
* `hold_record` — what holds of every reservation, and what it can become.
* `late_hold`   — once the deadline has passed and nobody is on the way, no confirm succeeds.
-/

namespace Flashkart

open Async

namespace Holds

/-! ## Clock readings -/

/-- The readings of the clock a request has made. -/
def post : (op : ShopOp) → Except Err op.Ret → List Nat → List Nat
  | .dateNow, .ok now, l => now :: l
  | _, _, l => l

/-- A hold is taken for one lifetime from a reading. It is confirmed if a reading is before the
deadline, and expires if one is not. -/
def ready (l : List Nat) : apiSig.Op → Prop
  | .inr (.reservationCreate r) => r.status = .held ∧
      ∃ now ∈ l, r.expiresAt = now + RESERVATION_TTL_MS
  | .inr (.reservationFindOneAndUpdate f dst) => f.status = .held ∧
      ((dst = .confirmed ∧ ∃ now ∈ l, f.expiresAt = .gt now) ∨
        (dst = .expired ∧ ∃ now ∈ l, f.expiresAt = .lte now) ∨ dst = .released)
  | _ => True

variable {l : List Nat}

abbrev Times {α : Type} (p : ShopProg α) (l : List Nat) : Prop :=
  Follows (fun l (op : shopSig.Op) => ready l (.inr op)) (fun e => post e.op e.out) p l
    fun _ _ => True

/-- The calls that write no reservation. -/
def plain : ShopOp → Bool
  | .reservationCreate _ | .reservationFindOneAndUpdate .. => false
  | _ => true

theorem ready_of_plain {op : ShopOp} (h : plain op = true) : ready l (.inr op) := by
  cases op <;> trivial

theorem times_of_calls {α : Type} {p : ShopProg α} (h : p.Calls fun op => plain op = true) :
    Times p l := Follows.of_calls (h.mono fun _ hop _ => ready_of_plain hop)

theorem times_op {α : Type} {op : ShopOp} {f : op.Ret → ShopProg α} (hop : ready l (.inr op))
    (hf : ∀ a, Times (f a) (post op (.ok a) l)) : Times (op.call.bind f) l := by
  refine follows_bind.mpr (follows_op.mpr ⟨hop, fun _ out => ?_⟩)
  cases out with
  | error e => trivial
  | ok a => exact hf a

theorem times_confirm (id : String) : Times (confirmReservation id) l := by
  unfold confirmReservation
  split
  · refine times_op trivial fun now => ?_
    refine times_op ⟨rfl, .inl ⟨rfl, now, List.mem_cons_self, rfl⟩⟩ fun updated => ?_
    cases updated with
    | some d => trivial
    | none =>
      refine times_op trivial fun existing => ?_
      cases existing <;> trivial
  · trivial

theorem times_release (id : String) : Times (releaseReservation id) l := by
  unfold releaseReservation
  split
  · refine times_op ⟨rfl, .inr (.inr rfl)⟩ fun updated => ?_
    cases updated with
    | some d =>
      refine times_op trivial fun remaining => times_of_calls ?_
      exact Prog.calls_bind (calls_publishStockUpdate rfl) fun _ => trivial
    | none =>
      refine times_op trivial fun existing => ?_
      cases existing <;> trivial
  · trivial

theorem times_sweepLoop {now : Nat} (hnow : now ∈ l) (n reclaimed : Nat) :
    Times (sweepLoop now n reclaimed) l := by
  induction n generalizing reclaimed with
  | zero => trivial
  | succ n ih =>
    refine times_op ⟨rfl, .inr (.inl ⟨rfl, now, hnow, rfl⟩)⟩ fun doc => ?_
    cases doc with
    | none => trivial
    | some d => exact times_op trivial fun _ => ih _

theorem times_tickLoop {now : Nat} (n reclaimed : Nat) (hnow : now ∈ l) :
    Times (tickLoop now n reclaimed) l := by
  induction n generalizing l reclaimed with
  | zero => trivial
  | succ n ih =>
    refine times_op ⟨rfl, .inr (.inl ⟨rfl, now, hnow, rfl⟩)⟩ fun doc => ?_
    cases doc with
    | none => trivial
    | some d =>
      refine times_op trivial fun remaining => times_op trivial fun ts => ?_
      exact times_op trivial fun _ => ih _ (List.mem_cons_of_mem _ hnow)

theorem times_tick (worker : Nat) : Times (tick worker) l := by
  refine times_op trivial fun entered => ?_
  cases entered with
  | false => trivial
  | true =>
    refine follows_bind.mpr (follows_tryCatch.mpr
      (Follows.mono (times_op trivial fun now => ?_) ?_))
    · refine follows_bind.mpr ((times_tickLoop _ _ List.mem_cons_self).mono ?_)
      rintro (e | n) l' - <;> trivial
    · rintro (e | u) l' -
      · exact times_of_calls ((Prog.calls_op _).mpr rfl)
      · exact times_of_calls ((Prog.calls_op _).mpr rfl)

theorem times_createReservation {now : Nat} (hnow : now ∈ l) (pid : String) (qty : Nat)
    (uid : Option String) : Times (createReservation pid qty uid (now + RESERVATION_TTL_MS)) l := by
  have hcreate : ∀ o u, Times (ShopOp.reservationCreate
      ⟨o, u, qty, .held, now + RESERVATION_TTL_MS⟩).call l := fun o u =>
    follows_op.mpr ⟨⟨rfl, now, hnow, rfl⟩, fun _ _ => trivial⟩
  have hid : ∀ {s : String} {f : ObjectId → ShopProg ObjectId}, (∀ o, Times (f o) l) →
      Times ((newObjectId s).bind f) l := by
    intro s f hf
    rw [newObjectId]
    cases castObjectId s with
    | none => trivial
    | some o => exact hf o
  refine hid fun o => ?_
  cases uid with
  | none => exact hcreate o none
  | some u =>
    show Times (((newObjectId u).bind fun u => .ret (some u)).bind fun u => _) l
    rw [Prog.bind_assoc]
    exact hid fun u => hcreate o (some u)

theorem times_reserve (pid : String) (qty : Nat) (uid : Option String) :
    Times (reserve pid qty uid) l := by
  have hpurchase : (purchase pid qty).Calls fun op => plain op = true :=
    (calls_purchase pid qty).mono fun op hop => by cases op <;> first | rfl | cases hop
  refine follows_bind.mpr ((times_of_calls hpurchase).mono ?_)
  rintro (e | result) l' -
  · trivial
  cases result with
  | soldOut => trivial
  | notFound => trivial
  | ok remaining =>
    refine times_op trivial fun now =>
      follows_tryCatch.mpr (Follows.mono (Q := fun _ _ => True) ?_ ?_)
    · refine follows_bind.mpr ((times_createReservation List.mem_cons_self _ _ _).mono ?_)
      rintro (e | o) l' -
      · trivial
      · refine times_of_calls ?_
        exact Prog.calls_bind (calls_publishStockUpdate rfl) fun _ => trivial
    · rintro (e | r) l' -
      · exact times_of_calls (calls_bind_op rfl fun _ => trivial)
      · trivial

theorem times_doReserve (userId : ObjectId) (id : String) (qty : Nat) :
    Times (doReserve userId id qty) l := by
  refine follows_bind.mpr ((times_reserve id qty _).mono ?_)
  rintro (e | result) l' -
  · trivial
  · cases result <;> trivial

theorem wraps_postReserve (r : BuyRequest) :
    ∃ qty, Wraps (doReserve r.userId r.id qty) (shopProg (.postReserve r)) := by
  have hthrow : ∀ err : Err, ∃ qty, Wraps (doReserve r.userId r.id qty)
      (ShopRes.response <$> (.throw err : ApiProg Response)) := fun _ => ⟨0, trivial⟩
  simp only [shopProg, postReserve, moneyRoute]
  split
  · split
    · exact hthrow _
    · rename_i qty _
      split
      · exact ⟨qty, wraps_bind (wraps_bind (wraps_inr _) fun _ _ => trivial) fun _ _ => trivial⟩
      · split
        · exact ⟨qty, wraps_bind (wraps_bind (wraps_withIdempotency _ _ _) fun _ _ => trivial)
            fun _ _ => trivial⟩
        · exact hthrow _
  · exact hthrow _

theorem follows_request (r : ShopReq) :
    Follows ready (shopPost post) (shopProg r) l fun _ _ => True := by
  have hone : ∀ {α : Type} {p : ShopProg α} {res : α → ShopRes}, Times p l →
      Follows ready (shopPost post) (p.inr.bind fun a => .ret (res a)) l fun _ _ => True := by
    intro α p res hp
    refine follows_bind.mpr (follows_inr.mpr (hp.mono ?_))
    rintro (e | a) l' - <;> trivial
  have hplain : (∀ op, r.may op = true → plain op = true) →
      Follows ready (shopPost post) (shopProg r) l fun _ _ => True := by
    refine fun h => Follows.of_calls ((calls_shopProg r).mono fun op hop l => ?_)
    cases op with
    | inl k => trivial
    | inr op => exact ready_of_plain (h op hop)
  cases r with
  | postReserve req =>
    obtain ⟨qty, hwraps⟩ := wraps_postReserve req
    exact hwraps.follows (fun _ _ => ⟨trivial, fun _ _ => rfl⟩) (times_doReserve _ _ qty)
  | reserve pid qty uid => exact hone (times_reserve pid qty uid)
  | confirm id => exact hone (times_confirm id)
  | release id => exact hone (times_release id)
  | sweep => exact hone (times_op trivial fun now => times_sweepLoop List.mem_cons_self _ _)
  | tick worker => exact hone (times_tick worker)
  | postBuy req => exact hplain fun op hop => by cases op <;> first | rfl | cases hop
  | deliver j q oid =>
    refine hplain fun op hop => ?_
    cases op with
    | reservationCreate inp => exact absurd hop (by simp [ShopReq.may, handlerMay, compensationMay])
    | reservationFindOneAndUpdate f dst =>
      exact absurd hop (by simp [ShopReq.may, handlerMay, compensationMay])
    | _ => rfl
  | compensate oid reason => exact hplain fun op hop => by cases op <;> first | rfl | cases hop

/-- The clock readings of a thread. -/
def readings (t : ShopThread) : List Nat := t.account (shopPost post) fun _ _ => []

/-- A reading is the time of the call. -/
theorem read_call {c : ShopConfig} {i now : Nat} {op : apiSig.Op} {f : Fate Err Pick}
    {out : Except Err (apiSig.Ret op)} {w : IdemKv × Shop} {l : List Nat} {τ : Nat}
    (hx : shopSystem.store.exec now i op f c.world = some (out, w))
    (hτ : τ ∈ shopPost post ⟨now, op, out⟩ l) : τ ∈ l ∨ τ = now := by
  cases op with
  | inl k => exact .inl hτ
  | inr op =>
    cases op with
    | dateNow =>
      rcases Store.exec_cases (exec_inr (o := .dateNow) hx).1 with
        ⟨q, a, -, hq, rfl⟩ | ⟨e, -, -, rfl⟩ | ⟨e, q, a, -, -, rfl⟩
      · obtain ⟨rfl, -⟩ := Prod.mk.inj (Option.some.inj hq)
        exact (List.mem_cons.mp hτ).symm
      · exact .inl hτ
      · exact .inl hτ
    | _ => exact .inl hτ

end Holds

/-- How a hold is settled, by a request with the clock readings `l`. -/
inductive Turn (l : List Nat) (d : ReservationDoc) : ReservationDoc → Prop
  | confirm {now : Nat} : now ∈ l → now < d.expiresAt → Turn l d { d with status := .confirmed }
  | expire {now : Nat} : now ∈ l → d.expiresAt ≤ now → Turn l d { d with status := .expired }
  | release : Turn l d { d with status := .released }

/-- What a request with the readings `l` makes of the reservation under one id. -/
inductive Timed (l : List Nat) : Option ReservationDoc → Option ReservationDoc → Prop
  | same (r : Option ReservationDoc) : Timed l r r
  | take {d : ReservationDoc} {now : Nat} : now ∈ l → d.status = .held → 1 ≤ d.quantity →
      d.expiresAt = now + RESERVATION_TTL_MS → Timed l none (some d)
  | settle {d d' : ReservationDoc} : d.status = .held → Turn l d d' → Timed l (some d) (some d')

section Store

variable {l : List Nat} {now i : Nat} {op : ShopOp} {q : Pick} {w w' : Shop}

theorem timed_store {a : op.Ret} (hn : w.ReservationIds) (hready : Holds.ready l (.inr op))
    (h : shopStore now i op q w = some (a, w')) (o : ObjectId) :
    Timed l (w.reservation o) (w'.reservation o) := by
  have hupdate : ∀ {o' : ObjectId} {d : ReservationDoc}, Timed l (w.reservation o') (some d) →
      w'.reservation = Function.update w.reservation o' (some d) →
      Timed l (w.reservation o) (w'.reservation o) := by
    intro o' d hc heq
    rw [heq]
    by_cases ho : o = o'
    · subst ho
      rwa [Function.update_self]
    · rw [Function.update_of_ne ho]
      exact .same _
  cases op with
  | reservationCreate inp =>
    obtain ⟨hheld, τ, hτ, hexpiry⟩ := hready
    simp only [shopStore] at h
    split at h
    · cases h
    · rename_i hfresh
      cases h
      have hnot : q.oid ∉ w.reservations.map (·.id) := fun h => hfresh (.inr h)
      refine hupdate ?_ (Collection.lookup_concat hnot)
      rw [Shop.reservation, Collection.lookup_eq_none.mpr hnot]
      exact .take hτ hheld (Nat.le_of_not_lt fun hlt => hfresh (.inl hlt)) hexpiry
  | reservationFindOneAndUpdate f dst =>
    obtain ⟨hsrc, hdst⟩ := hready
    rcases reservation_update hn h with ⟨d, -, hmatch, hd, heq⟩ | ⟨-, rfl, -⟩
    · refine hupdate ?_ heq
      rw [hd]
      obtain ⟨-, hstatus, htest⟩ := matches_iff.mp hmatch
      refine .settle (hstatus.trans hsrc) ?_
      rcases hdst with ⟨rfl, τ, hτ, hf⟩ | ⟨rfl, τ, hτ, hf⟩ | rfl
      · rw [hf] at htest
        exact .confirm hτ (of_decide_eq_true htest)
      · rw [hf] at htest
        exact .expire hτ (of_decide_eq_true htest)
      · exact .release
    · exact .same _
  | _ =>
    rw [reservation_other (fun he => by cases he) h]
    exact .same _

end Store

/-! ## Runs -/

/-- A reservation as it can be at the time `now`. -/
structure ReservationDoc.Sound (now : Nat) (d : ReservationDoc) : Prop where
  quantity : 1 ≤ d.quantity
  deadline : d.expiresAt ≤ now + RESERVATION_TTL_MS
  expired : d.status = .expired → d.expiresAt ≤ now

theorem ReservationDoc.Sound.later {now now' : Nat} {d : ReservationDoc} (h : d.Sound now)
    (hle : now ≤ now') : d.Sound now' :=
  ⟨h.quantity, h.deadline.trans (Nat.add_le_add_right hle _), fun he => (h.expired he).trans hle⟩

theorem Turn.status {l : List Nat} {d d' : ReservationDoc} (h : Turn l d d') :
    d' = { d with status := d'.status } ∧ d'.status ≠ .held := by
  cases h <;> exact ⟨rfl, fun he => by cases he⟩

theorem Turn.sound {l : List Nat} {now : Nat} {d d' : ReservationDoc} (h : Turn l d d')
    (hl : ∀ τ ∈ l, τ ≤ now) (hd : d.Sound now) : d'.Sound now := by
  cases h with
  | confirm hτ hlt => exact ⟨hd.quantity, hd.deadline, fun he => by cases he⟩
  | expire hτ hle => exact ⟨hd.quantity, hd.deadline, fun _ => hle.trans (hl _ hτ)⟩
  | release => exact ⟨hd.quantity, hd.deadline, fun he => by cases he⟩

namespace Timed

variable {l : List Nat} {now : Nat} {r : Option ReservationDoc} {d d' : ReservationDoc}

theorem kept (h : Timed l (some d) r) :
    ∃ d', r = some d' ∧ d' = { d with status := d'.status } ∧ (d.status ≠ .held → d' = d) := by
  cases h with
  | same => exact ⟨d, rfl, rfl, fun _ => rfl⟩
  | settle hheld hturn => exact ⟨_, rfl, hturn.status.1, fun hne => absurd hheld hne⟩

theorem sound (h : Timed l r (some d)) (hl : ∀ τ ∈ l, τ ≤ now)
    (hr : ∀ d, r = some d → d.Sound now) : d.Sound now := by
  cases h with
  | same => exact hr d rfl
  | take hτ hheld hqty hexpiry =>
    refine ⟨hqty, hexpiry ▸ Nat.add_le_add_right (hl _ hτ) _, fun he => ?_⟩
    rw [hheld] at he
    cases he
  | settle hheld hturn => exact hturn.sound hl (hr _ rfl)

/-- A request that has read no earlier time does not confirm. -/
theorem late (h : Timed l (some d) (some d')) (hl : ∀ τ ∈ l, d.expiresAt ≤ τ)
    (hd : d.status ≠ .confirmed) : d'.status ≠ .confirmed := by
  cases h with
  | same => exact hd
  | settle hheld hturn =>
    cases hturn with
    | confirm hτ hlt => exact absurd hlt (Nat.not_lt_of_le (hl _ hτ))
    | expire hτ hle => exact fun he => by cases he
    | release => exact fun he => by cases he

end Timed

section Runs

variable {ok : System.Guard apiSig Err ShopReq ShopRes (IdemKv × Shop) Pick ShopEnv} {n : Nat}
  {catalog : ObjectId → Option ProductDoc} {c₁ c c' : ShopConfig} {o : ObjectId}
  {d : ReservationDoc}

/-- An action of a run does to the reservations what a thread that runs may do, with the readings it
has made. -/
theorem timed_step (h : shopSystem.Reachable ok (freshShop n catalog) c) {a : ShopAct}
    (hs : shopSystem.step c a = some c') : c'.world.2.reservations = c.world.2.reservations ∨
      c'.now = c.now ∧ ∃ t ∈ c.pool, t.prog.result = none ∧
        ∀ o, Timed (Holds.readings t) (c.world.2.reservation o) (c'.world.2.reservation o) := by
  cases a with
  | arrive r =>
    obtain ⟨w', hw, rfl⟩ := Option.map_eq_some_iff.mp hs
    exact .inl ((accept_same hw).2.reservations fun he => by cases he)
  | call i f =>
    obtain ⟨id, r, op, k, tr, out, w', hp, hx, rfl⟩ := System.callStep_eq_some hs
    rcases call_effect hx with heq | ⟨op, q, a, rfl, h'⟩
    · exact .inl (congrArg Shop.reservations heq)
    · have hmem := List.mem_of_getElem? hp
      have hfollows : Follows Holds.ready (shopPost Holds.post) (.call (.inr op) k)
          (Holds.readings ⟨id, r, .call (.inr op) k, tr⟩) fun _ _ => True :=
        h.follows rfl (fun _ r => Holds.follows_request r) _ hmem
      exact .inr ⟨rfl, _, hmem, rfl, timed_store (reservationIds_reachable h) hfollows.1 h'⟩
  | tick d => cases hs; exact .inl rfl
  | env e =>
    obtain ⟨w', hw, rfl⟩ := Option.map_eq_some_iff.mp hs
    obtain ⟨s, he, rfl⟩ := Option.map_eq_some_iff.mp hw
    exact .inl (surroundings_same he).1.reservations

/-- What is so of the readings of the threads that run is so after a step, if it is so of the time
of the step. -/
theorem readings_step {P : Nat → Prop} {a : ShopAct} (hnow : P c.now)
    (hpool : ∀ t ∈ c.pool, t.prog.result = none → ∀ τ ∈ Holds.readings t, P τ)
    (hs : shopSystem.step c a = some c') :
    ∀ t ∈ c'.pool, t.prog.result = none → ∀ τ ∈ Holds.readings t, P τ := by
  intro t ht hrunning τ hτ
  cases a with
  | arrive r =>
    obtain ⟨w', -, rfl⟩ := Option.map_eq_some_iff.mp hs
    rcases List.mem_append.mp ht with ht | ht
    · exact hpool t ht hrunning τ hτ
    · rw [List.mem_singleton.mp ht] at hτ
      cases hτ
  | call i f =>
    obtain ⟨id, r, op, k, tr, out, w', hp, hx, rfl⟩ := System.callStep_eq_some hs
    rcases List.mem_or_eq_of_mem_set ht with ht | rfl
    · exact hpool t ht hrunning τ hτ
    · rcases Holds.read_call hx hτ with hτ | rfl
      · exact hpool _ (List.mem_of_getElem? hp) rfl τ hτ
      · exact hnow
  | tick d => cases hs; exact hpool t ht hrunning τ hτ
  | env e =>
    obtain ⟨w', -, rfl⟩ := Option.map_eq_some_iff.mp hs
    exact hpool t ht hrunning τ hτ

theorem readings_past (h : shopSystem.Reachable ok (freshShop n catalog) c) :
    ∀ t ∈ c.pool, t.prog.result = none → ∀ τ ∈ Holds.readings t, τ ≤ c.now := by
  refine h.invariant (I := fun c => ∀ t ∈ c.pool, t.prog.result = none →
    ∀ τ ∈ Holds.readings t, τ ≤ c.now) (fun t ht => by cases ht) ?_
  intro c a c' hr ih hok hs
  have hone : shopSystem.Reachable ok c c' := .step .init hok hs
  exact readings_step hone.later.1 (fun t ht hrun τ hτ => (ih t ht hrun τ hτ).trans hone.later.1) hs

theorem sound_hold (h : shopSystem.Reachable ok (freshShop n catalog) c) :
    ∀ o d, c.world.2.reservation o = some d → d.Sound c.now := by
  refine h.invariant (I := fun c => ∀ o d, c.world.2.reservation o = some d → d.Sound c.now)
    (fun o d hd => by cases hd) ?_
  intro c a c' hr ih hok hs o d' hd'
  have hlater := (System.Reachable.step (M := shopSystem) .init hok hs).later.1
  rcases timed_step hr hs with hsame | ⟨hnow, t, ht, hrunning, htimed⟩
  · rw [Shop.reservation, hsame] at hd'
    exact (ih o d' hd').later hlater
  · have hpast := readings_past hr t ht hrunning
    rw [hnow]
    have hone := htimed o
    rw [hd'] at hone
    exact hone.sound hpast fun d hd => ih o d hd

/-- A hold stays, with its terms, and is settled once. -/
theorem kept_hold (h : shopSystem.Reachable ok (freshShop n catalog) c)
    (h' : shopSystem.Reachable ok c c') (hd : c.world.2.reservation o = some d) :
    ∃ d', c'.world.2.reservation o = some d' ∧ d' = { d with status := d'.status } ∧
      (d.status ≠ .held → d' = d) := by
  induction h' with
  | init => exact ⟨d, hd, rfl, fun _ => rfl⟩
  | step hr _ hs ih =>
    obtain ⟨d₁, hd₁, hterms, hsettled⟩ := ih
    rcases timed_step (h.trans hr) hs with hsame | ⟨-, t, -, -, htimed⟩
    · exact ⟨d₁, by rw [Shop.reservation, hsame]; exact hd₁, hterms, hsettled⟩
    · have hone := htimed o
      rw [hd₁] at hone
      obtain ⟨d₂, hd₂, hterms₂, hsettled₂⟩ := hone.kept
      refine ⟨d₂, hd₂, ?_, fun hne => ?_⟩
      · rw [hterms₂, hterms]
      · obtain rfl := hsettled hne
        exact hsettled₂ hne

/-- **The life of a hold.** In every run a reservation has a quantity and a deadline at most one
lifetime away, and it has expired only after that. It is there ever after with the same terms, and
its status does not change once it is settled. -/
theorem hold_record (h : shopSystem.Reachable ok (freshShop n catalog) c)
    (h' : shopSystem.Reachable ok c c') (hd : c.world.2.reservation o = some d) :
    d.Sound c.now ∧ ∃ d', c'.world.2.reservation o = some d' ∧ d'.Sound c'.now ∧
      d' = { d with status := d'.status } ∧ (d.status ≠ .held → d' = d) := by
  obtain ⟨d', hd', hterms, hsettled⟩ := kept_hold h h' hd
  exact ⟨sound_hold h o d hd, d', hd', sound_hold (h.trans h') o d' hd', hterms, hsettled⟩

/-- **No late confirms.** If the deadline of a hold has passed at a moment when no request is being
served, no confirm succeeds from then on. -/
theorem late_hold (h : shopSystem.Reachable ok (freshShop n catalog) c₁) (hquiet : c₁.Quiet)
    (hd : c₁.world.2.reservation o = some d) (hheld : d.status = .held)
    (hlate : d.expiresAt ≤ c₁.now) (h' : shopSystem.Reachable ok c₁ c) :
    ∃ d', c.world.2.reservation o = some d' ∧ d'.expiresAt = d.expiresAt ∧
      d'.status ≠ .confirmed := by
  have hinv : (∀ t ∈ c.pool, t.prog.result = none → ∀ τ ∈ Holds.readings t, c₁.now ≤ τ) ∧
      ∃ d', c.world.2.reservation o = some d' ∧ d'.expiresAt = d.expiresAt ∧
        d'.status ≠ .confirmed := by
    induction h' with
    | init =>
      refine ⟨fun t ht hrunning => absurd hrunning (hquiet t ht), d, hd, rfl, ?_⟩
      rw [hheld]
      exact fun he => by cases he
    | step hr _ hs ih =>
      obtain ⟨hafter, d₁, hd₁, hexpiry, hnot⟩ := ih
      refine ⟨readings_step hr.later.1 hafter hs, ?_⟩
      rcases timed_step (h.trans hr) hs with hsame | ⟨-, t, ht, hrunning, htimed⟩
      · exact ⟨d₁, by rw [Shop.reservation, hsame]; exact hd₁, hexpiry, hnot⟩
      · have hone := htimed o
        rw [hd₁] at hone
        obtain ⟨d₂, hd₂, hterms, -⟩ := hone.kept
        rw [hd₂] at hone
        refine ⟨d₂, hd₂, ?_, hone.late (fun τ hτ => ?_) hnot⟩
        · rw [hterms]
          exact hexpiry
        · rw [hexpiry]
          exact hlate.trans (hafter t ht hrunning τ hτ)
  exact hinv.2

end Runs

/-- A hold is taken, and confirmed a second later. -/
theorem hold_record_confirmed :
    ∃ c c' d d', shopSystem.Reachable (fun _ _ => True) (freshShop 0 (oneProduct 1)) c ∧
      shopSystem.Reachable (fun _ _ => True) c c' ∧ c.world.2.reservation idB = some d ∧
      d.status = .held ∧ d.Sound c.now ∧ c'.world.2.reservation idB = some d' ∧
      d' = { d with status := .confirmed } := by
  have hrun : (shopSystem.run (fun _ _ => true) (freshShop 0 (oneProduct 1)) reserved).map
      (fun c => ((c.world.2.reservation idB).map (·.status), (shopSystem.run (fun _ _ => true) c
        (.tick 1000 :: .arrive (.confirm idB.toString) :: callsOf 1 2 idB)).map
          fun c' => (c'.world.2.reservation idB).map (·.status))) =
      some (some .held, some (some .confirmed)) := by decide
  obtain ⟨c, hc, hs⟩ := Option.map_eq_some_iff.mp hrun
  obtain ⟨hheld, hafter⟩ := Prod.mk.inj hs
  obtain ⟨c', hc', hs'⟩ := Option.map_eq_some_iff.mp hafter
  obtain ⟨d, hd, hstatus⟩ := Option.map_eq_some_iff.mp hheld
  obtain ⟨d₁, hd₁, hstatus₁⟩ := Option.map_eq_some_iff.mp hs'
  have hr : shopSystem.Reachable (fun _ _ => True) _ c :=
    (System.Reachable.of_run hc).mono fun _ _ _ => trivial
  have hr' : shopSystem.Reachable (fun _ _ => True) c c' :=
    (System.Reachable.of_run hc').mono fun _ _ _ => trivial
  obtain ⟨hsound, d', hd', -, hterms, -⟩ := hold_record hr hr' hd
  obtain rfl := Option.some.inj (hd₁.symm.trans hd')
  exact ⟨c, c', d, d₁, hr, hr', hd, hstatus, hsound, hd', hstatus₁ ▸ hterms⟩

/-- A confirm that starts at the deadline. -/
theorem late_hold_confirm :
    ∃ c₁ c d, shopSystem.Reachable (fun _ _ => True) (freshShop 0 (oneProduct 1)) c₁ ∧
      shopSystem.Reachable (fun _ _ => True) c₁ c ∧ c.pool.length = 2 ∧ c.Quiet ∧
      c.world.2.reservation idB = some d ∧ d.status ≠ .confirmed := by
  have hrun : (shopSystem.run (fun _ _ => true) (freshShop 0 (oneProduct 1))
      (reserved ++ [.tick 90000])).map (fun c =>
        (c.now, (c.pool.all fun t => t.prog.result.isSome,
          (c.world.2.reservation idB).map fun d => (d.status, d.expiresAt)),
        (shopSystem.run (fun _ _ => true) c
          (.arrive (.confirm idB.toString) :: callsOf 1 3 idB)).map fun c' =>
            (c'.pool.length, c'.pool.all fun t => t.prog.result.isSome))) =
      some (90000, (true, some (.held, 90000)), some (2, true)) := by decide
  obtain ⟨c₁, hc, hs⟩ := Option.map_eq_some_iff.mp hrun
  obtain ⟨hnow, hs⟩ := Prod.mk.inj hs
  obtain ⟨hs, hafter⟩ := Prod.mk.inj hs
  obtain ⟨hquiet, hs⟩ := Prod.mk.inj hs
  obtain ⟨d, hd, hs⟩ := Option.map_eq_some_iff.mp hs
  obtain ⟨hheld, hexpiry⟩ := Prod.mk.inj hs
  obtain ⟨c, hc', hs'⟩ := Option.map_eq_some_iff.mp hafter
  obtain ⟨hlen, hended⟩ := Prod.mk.inj hs'
  have hrests : ∀ {c : ShopConfig}, (c.pool.all fun t => t.prog.result.isSome) = true → c.Quiet :=
    fun h t ht => Option.ne_none_iff_isSome.mpr (List.all_eq_true.mp h t ht)
  have hr : shopSystem.Reachable (fun _ _ => True) _ c₁ :=
    (System.Reachable.of_run hc).mono fun _ _ _ => trivial
  have hr' : shopSystem.Reachable (fun _ _ => True) c₁ c :=
    (System.Reachable.of_run hc').mono fun _ _ _ => trivial
  obtain ⟨d', hd', -, hnot⟩ :=
    late_hold hr (hrests hquiet) hd hheld (by rw [hexpiry, hnow]) hr'
  exact ⟨c₁, c, d', hr, hr', hlen, hrests hended, hd', hnot⟩

end Flashkart
