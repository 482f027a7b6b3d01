import Flashkart.Async.Replay
import Flashkart.Shop.Jobs

/-!
# Shop.Answers

What the callers of a reservation are told, and what becomes of it. Confirms, releases and sweeps
race for a held reservation by compare-and-sets; a loser reads the document again and answers by
what it finds.

* `Course`        — what one step can do to a reservation: insert it, or move it from held.
* `ShopReq.told`  — the calls behind an answer.
* `answers_agree` — one caller at most is told of a success, and told the truth. A confirm that is
  told `expired` may find the reservation confirmed all the same, by a confirm that read its clock
  in time.
-/

namespace Flashkart

open Async

/-- The reservation under the id `o`. -/
def Shop.reservation (w : Shop) (o : ObjectId) : Option ReservationDoc :=
  Collection.lookup (·.id) w.reservations o

/-- Reservations have distinct ids. -/
def Shop.ReservationIds (w : Shop) : Prop := (w.reservations.map (·.id)).Nodup

section Store

variable {now i : Nat} {q : Pick} {w w' : Shop}

theorem reservation_eq_some (hn : w.ReservationIds) {o : ObjectId} {d : ReservationDoc} :
    w.reservation o = some d ↔ d ∈ w.reservations ∧ d.id = o :=
  Collection.lookup_eq_some hn

theorem reservationIds_store {op : ShopOp} {a : op.Ret} (hn : w.ReservationIds)
    (h : shopStore now i op q w = some (a, w')) : w'.ReservationIds := by
  unfold Shop.ReservationIds at hn ⊢
  cases op with
  | reservationCreate r =>
    simp only [shopStore] at h
    split at h
    · cases h
    · rename_i hfresh
      cases h
      exact Collection.nodup_concat hn fun h => hfresh (.inr h)
  | reservationFindOneAndUpdate f dst =>
    obtain ⟨⟨r, docs⟩, hr, h⟩ := Option.map_eq_some_iff.mp h
    cases h
    rcases Collection.findOneAndUpdate_cases hr with ⟨d, hd, -, -, rfl⟩ | ⟨-, rfl, -⟩
    · have hids : (w.reservations.set q.idx { d with status := dst }).map (·.id) =
          w.reservations.map (·.id) := Collection.map_set_of_eq hd rfl
      show ((w.reservations.set q.idx { d with status := dst }).map (·.id)).Nodup
      rwa [hids]
    · exact hn
  | _ =>
    rw [(shopStore_same h).reservations (fun he => by cases he)]
    exact hn

theorem reservation_create {r : ReservationInput} {o : ObjectId}
    (h : shopStore now i (.reservationCreate r) q w = some (o, w')) :
    w.reservation o = none ∧
      ∃ d, d.status = r.status ∧ w'.reservation = Function.update w.reservation o (some d) := by
  simp only [shopStore] at h
  split at h
  · cases h
  · rename_i hfresh
    cases h
    have hnot : q.oid ∉ w.reservations.map (·.id) := fun h => hfresh (.inr h)
    exact ⟨Collection.lookup_eq_none.mpr hnot, _, rfl, Collection.lookup_concat hnot⟩

/-- A compare-and-set: one matching reservation has the new status now, or none matched and
nothing changed. -/
theorem reservation_update {f : ReservationFilter} {dst : ReservationStatus}
    {r : Option ReservationDoc} (hn : w.ReservationIds)
    (h : shopStore now i (.reservationFindOneAndUpdate f dst) q w = some (r, w')) :
    (∃ d, r = some { d with status := dst } ∧ f.matches d = true ∧
        w.reservation d.id = some d ∧
        w'.reservation = Function.update w.reservation d.id (some { d with status := dst })) ∨
      (r = none ∧ w' = w ∧ ∀ d ∈ w.reservations, f.matches d = false) := by
  obtain ⟨⟨r, docs⟩, hr, h⟩ := Option.map_eq_some_iff.mp h
  cases h
  rcases Collection.findOneAndUpdate_cases hr with ⟨d, hd, hm, rfl, rfl⟩ | ⟨rfl, rfl, hm⟩
  · exact .inl ⟨d, rfl, hm, (reservation_eq_some hn).mpr ⟨List.mem_of_getElem? hd, rfl⟩,
      Collection.lookup_set hn hd rfl⟩
  · exact .inr ⟨rfl, rfl, hm⟩

theorem reservation_other {op : ShopOp} {a : op.Ret} (ho : op.writes ≠ .reservations)
    (h : shopStore now i op q w = some (a, w')) : w'.reservation = w.reservation := by
  funext o
  rw [Shop.reservation, (shopStore_same h).reservations ho, Shop.reservation]

end Store

/-! ## The calls behind an answer -/

/-- A reservation that an update was answered with, and its status. -/
def marked : Event apiSig Err → Option (ObjectId × ReservationStatus)
  | ⟨_, .inr (.reservationFindOneAndUpdate ..), .ok (some d)⟩ => some (d.id, d.status)
  | _ => none

/-- When request `r` has made the calls `tr`, it makes such a call on the reservations. -/
def ShopReq.marking (r : ShopReq) (tr : List (Event apiSig Err)) : apiSig.Op → Prop
  | .inr (.reservationCreate d) => d.status = .held
  | .inr (.reservationFindOneAndUpdate f dst) => f.status = .held ∧
    match r with
    | .confirm id => dst = .confirmed ∧
      ∃ time τ, f = ⟨some id, .held, .gt τ⟩ ∧ tr = [⟨time, .inr .dateNow, .ok τ⟩]
    | .release _ => dst = .released
    | .sweep | .tick _ => dst = .expired
    | _ => False
  | _ => True

/-- What the calls `tr` of request `r` were when it ends with `out`. -/
def ShopReq.told (r : ShopReq) (out : Except Err ShopRes) (tr : List (Event apiSig Err)) : Prop :=
  match r, out with
  | .confirm id, .ok (.confirmed (.confirmed ..)) => ∃ time τ d,
    ⟨time, .inr (.reservationFindOneAndUpdate ⟨some id, .held, .gt τ⟩ .confirmed),
      .ok (some d)⟩ ∈ tr
  | .confirm id, .ok (.confirmed .expired) => ∃ t₁ t₂ t₃ τ e,
    tr = [⟨t₃, .inr (.reservationFindById id), .ok (some e)⟩,
      ⟨t₂, .inr (.reservationFindOneAndUpdate ⟨some id, .held, .gt τ⟩ .confirmed), .ok none⟩,
      ⟨t₁, .inr .dateNow, .ok τ⟩]
  | .release id, .ok (.released (.released ..)) => ∃ time d,
    ⟨time, .inr (.reservationFindOneAndUpdate ⟨some id, .held, .any⟩ .released),
      .ok (some d)⟩ ∈ tr
  | .sweep, .ok (.swept n) => n = (tr.filterMap marked).length
  | _, _ => True

section Programs

variable {tr : List (Event apiSig Err)}

theorem follows_confirm (id : String) :
    Follows (ShopReq.confirm id).marking List.cons (shopProg (.confirm id)) []
      (ShopReq.confirm id).told := by
  simp only [shopProg, confirmReservation]
  split
  · refine follows_bind.mpr ?_
    rw [Prog.bind_eq, Prog.inr_bind]
    refine follows_bind.mpr (follows_inr_op.mpr ⟨trivial, fun t₁ out => ?_⟩)
    cases out with
    | error e => trivial
    | ok τ =>
      dsimp only
      rw [Prog.bind_eq, Prog.inr_bind]
      refine follows_bind.mpr (follows_inr_op.mpr ⟨⟨rfl, rfl, t₁, τ, rfl, rfl⟩, fun t₂ out => ?_⟩)
      rcases out with e | _ | d
      · trivial
      · dsimp only
        rw [Prog.bind_eq, Prog.inr_bind]
        refine follows_bind.mpr (follows_inr_op.mpr ⟨trivial, fun t₃ out => ?_⟩)
        rcases out with e | _ | d
        · trivial
        · trivial
        · exact ⟨t₁, t₂, t₃, τ, d, rfl⟩
      · exact ⟨t₂, τ, d, List.mem_cons_self ..⟩
  · trivial

theorem follows_release (id : String) :
    Follows (ShopReq.release id).marking List.cons (shopProg (.release id)) []
      (ShopReq.release id).told := by
  simp only [shopProg, releaseReservation]
  split
  · refine follows_bind.mpr ?_
    rw [Prog.bind_eq, Prog.inr_bind]
    refine follows_bind.mpr (follows_inr_op.mpr ⟨⟨rfl, rfl⟩, fun t₁ out => ?_⟩)
    rcases out with e | _ | d
    · trivial
    · dsimp only
      rw [Prog.bind_eq, Prog.inr_bind]
      refine follows_bind.mpr (follows_inr_op.mpr ⟨trivial, fun t₂ out => ?_⟩)
      rcases out with e | _ | d <;> trivial
    · dsimp only
      rw [Prog.bind_eq, Prog.inr_bind]
      refine follows_bind.mpr (follows_inr_op.mpr ⟨trivial, fun t₂ out => ?_⟩)
      cases out with
      | error e => trivial
      | ok n =>
        dsimp only
        rw [Prog.bind_eq, Prog.inr_bind, publishStockUpdate, Prog.inr_tryCatch]
        refine follows_bind.mpr (follows_tryCatch.mpr (follows_inr_op.mpr
          ⟨trivial, fun t₃ out => ?_⟩))
        have hmem : ∀ ev ev' : Event apiSig Err, ∀ x, x ∈ [ev, ev', x] :=
          fun ev ev' x => by simp
        cases out with
        | error e => exact ⟨t₁, d, hmem _ _ _⟩
        | ok u => exact ⟨t₁, d, hmem _ _ _⟩
  · trivial

theorem follows_sweepLoop (now n reclaimed : Nat) (tr : List (Event apiSig Err)) :
    Follows ShopReq.sweep.marking List.cons (sweepLoop now n reclaimed).inr tr fun out tr' =>
      ∀ m, out = .ok m →
        m + (tr.filterMap marked).length = reclaimed + (tr'.filterMap marked).length := by
  induction n generalizing reclaimed tr with
  | zero => exact fun m hm => by cases hm; rfl
  | succ n ih =>
    rw [sweepLoop, Prog.bind_eq, Prog.inr_bind]
    refine follows_bind.mpr (follows_inr_op.mpr ⟨⟨rfl, rfl⟩, fun t₁ out => ?_⟩)
    rcases out with e | _ | d
    · exact fun m hm => by cases hm
    · exact fun m hm => by cases hm; rfl
    · dsimp only
      rw [Prog.bind_eq, Prog.inr_bind]
      refine follows_bind.mpr (follows_inr_op.mpr ⟨trivial, fun t₂ out => ?_⟩)
      cases out with
      | error e => exact fun m hm => by cases hm
      | ok v =>
        refine (ih (reclaimed + 1) _).mono fun out tr' h m hm => ?_
        have hm := h m hm
        -- the document just answered is the one that the sweep counts
        simp only [List.filterMap_cons, marked, List.length_cons] at hm
        omega

theorem follows_sweep :
    Follows ShopReq.sweep.marking List.cons (shopProg .sweep) [] ShopReq.sweep.told := by
  refine follows_bind.mpr ?_
  rw [sweepExpiredReservations, Prog.bind_eq, Prog.inr_bind]
  refine follows_bind.mpr (follows_inr_op.mpr ⟨trivial, fun t₁ out => ?_⟩)
  cases out with
  | error e => trivial
  | ok now =>
    refine (follows_sweepLoop now _ _ _).mono fun out tr' h => ?_
    cases out with
    | error e => trivial
    | ok m => exact (Nat.add_zero _).symm.trans ((h m rfl).trans (Nat.zero_add _))

theorem marking_tick (worker : Nat) :
    (tick worker).Calls fun o => ∀ tr, (ShopReq.tick worker).marking tr (.inr o) := by
  have hloop : ∀ now n reclaimed, (tickLoop now n reclaimed).Calls fun o =>
      ∀ tr, (ShopReq.tick worker).marking tr (.inr o) := by
    intro now n
    induction n with
    | zero => exact fun _ => trivial
    | succ n ih =>
      intro reclaimed
      refine calls_bind_op (fun _ => ⟨rfl, rfl⟩) fun d => ?_
      cases d with
      | none => trivial
      | some d =>
        exact calls_bind_op (fun _ => trivial) fun r => calls_bind_op (fun _ => trivial) fun ts =>
          calls_bind_op (fun _ => trivial) fun _ => ih _
  refine calls_bind_op (fun _ => trivial) fun entered => ?_
  cases entered with
  | false => trivial
  | true =>
    refine Prog.calls_bind (Prog.calls_tryCatch ?_ fun _ => trivial) fun _ => ?_
    · refine calls_bind_op (fun _ => trivial) fun now => ?_
      exact Prog.calls_bind (hloop now _ _) fun _ => trivial
    · exact (Prog.calls_op (S := shopSig) _).mpr fun _ => trivial

/-- What every request does to the reservations, and what it answers by. -/
theorem follows_told (r : ShopReq) : Follows r.marking List.cons (shopProg r) [] r.told := by
  have hcalls : ∀ {r : ShopReq}, (∀ out tr, r.told out tr) →
      ((shopProg r).Calls fun o => ∀ tr, r.marking tr o) →
      Follows r.marking List.cons (shopProg r) [] r.told :=
    fun htold h => (Follows.of_calls h).mono fun out tr _ => htold out tr
  have hbuyer : ∀ {r : ShopReq}, r.purchases = true →
      (shopProg r).Calls fun o => ∀ tr, r.marking tr o := by
    intro r hr
    refine (calls_buyer hr).mono fun o ho tr => ?_
    cases o with
    | inl k => trivial
    | inr o =>
      cases o with
      | reservationCreate d => exact of_decide_eq_true (p := d.status = .held) ho
      | reservationFindOneAndUpdate f dst => cases ho
      | _ => trivial
  have hjob : ∀ {r : ShopReq}, (∀ d, r.may (.reservationCreate d) = false) →
      (∀ f dst, r.may (.reservationFindOneAndUpdate f dst) = false) →
      (shopProg r).Calls fun o => ∀ tr, r.marking tr o := by
    intro r hcreate hupdate
    refine (calls_shopProg r).mono fun o ho tr => ?_
    cases o with
    | inl k => trivial
    | inr o =>
      cases o with
      | reservationCreate d => exact absurd ho (by simp [OrOwn, hcreate])
      | reservationFindOneAndUpdate f dst => exact absurd ho (by simp [OrOwn, hupdate])
      | _ => trivial
  cases r with
  | confirm id => exact follows_confirm id
  | release id => exact follows_release id
  | sweep => exact follows_sweep
  | tick worker =>
    exact hcalls (fun _ _ => trivial)
      (Prog.calls_bind (Prog.calls_inr (marking_tick worker)) fun _ => trivial)
  | postBuy req => exact hcalls (fun _ _ => trivial) (hbuyer rfl)
  | postReserve req => exact hcalls (fun _ _ => trivial) (hbuyer rfl)
  | reserve pid qty uid => exact hcalls (fun _ _ => trivial) (hbuyer rfl)
  | deliver j queue oid =>
    exact hcalls (fun _ _ => trivial) (hjob (fun d => by simp [ShopReq.may, handlerMay, compensationMay])
      fun f dst => by simp [ShopReq.may, handlerMay, compensationMay])
  | compensate oid reason =>
    exact hcalls (fun _ _ => trivial) (hjob (fun d => rfl) fun f dst => rfl)

end Programs

/-! ## Runs -/

/-- What one step can do to a reservation: insert it as held, or move it from held. -/
inductive Course : Option ReservationDoc → Option ReservationDoc → Prop
  | same (r : Option ReservationDoc) : Course r r
  | create {d : ReservationDoc} : d.status = .held → Course none (some d)
  | move {d : ReservationDoc} (s : ReservationStatus) :
    d.status = .held → Course (some d) (some { d with status := s })

theorem Course.kept {d : ReservationDoc} {r : Option ReservationDoc} (h : Course (some d) r) :
    ∃ d', r = some d' ∧ d'.expiresAt = d.expiresAt ∧ (d.status ≠ .held → d' = d) := by
  cases h with
  | same => exact ⟨d, rfl, rfl, fun _ => rfl⟩
  | move s hs => exact ⟨_, rfl, rfl, fun hne => absurd hs hne⟩

theorem matches_iff {f : ReservationFilter} {d : ReservationDoc} : f.matches d = true ↔
    (∀ id, f.id = some id → castObjectId id = some d.id) ∧ d.status = f.status ∧
      f.expiresAt.holds d.expiresAt = true := by
  simp only [ReservationFilter.matches, Bool.and_eq_true, beq_iff_eq, Option.all_eq_true, and_assoc]

theorem course_store {r : ShopReq} {tr : List (Event apiSig Err)} {now i : Nat} {op : ShopOp}
    {q : Pick} {w w' : Shop} {a : op.Ret} (hn : w.ReservationIds) (hm : r.marking tr (.inr op))
    (h : shopStore now i op q w = some (a, w')) (o : ObjectId) :
    Course (w.reservation o) (w'.reservation o) := by
  have hupdate : ∀ {o' : ObjectId} {d : ReservationDoc}, Course (w.reservation o') (some d) →
      w'.reservation = Function.update w.reservation o' (some d) →
      Course (w.reservation o) (w'.reservation o) := by
    intro o' d hc heq
    rw [heq]
    by_cases ho : o = o'
    · subst ho
      rwa [Function.update_self]
    · rw [Function.update_of_ne ho]
      exact .same _
  cases op with
  | reservationCreate inp =>
    obtain ⟨hnone, d, hd, heq⟩ := reservation_create h
    refine hupdate ?_ heq
    rw [hnone]
    exact .create (hd.trans hm)
  | reservationFindOneAndUpdate f dst =>
    rcases reservation_update hn h with ⟨d, -, hmatch, hd, heq⟩ | ⟨-, rfl, -⟩
    · refine hupdate ?_ heq
      rw [hd]
      exact .move dst ((matches_iff.mp hmatch).2.1.trans hm.1)
    · exact .same _
  | _ =>
    rw [reservation_other (fun he => by cases he) h]
    exact .same _

/-- An update moves a reservation away from held. -/
theorem dst_ne_held {r : ShopReq} {tr : List (Event apiSig Err)} {f : ReservationFilter}
    {dst : ReservationStatus} (h : r.marking tr (.inr (.reservationFindOneAndUpdate f dst))) :
    dst ≠ .held := by
  obtain ⟨-, h⟩ := h
  rintro rfl
  cases r with
  | confirm id => cases h.1
  | _ => cases h

section Runs

variable {ok : System.Guard apiSig Err ShopReq ShopRes (IdemKv × Shop) Pick ShopEnv} {n : Nat}
  {catalog : ObjectId → Option ProductDoc} {c₀ c c' : ShopConfig} {t : ShopThread} {o : ObjectId}

theorem reservationIds_reachable (h : shopSystem.Reachable ok (freshShop n catalog) c) :
    c.world.2.ReservationIds := by
  refine shop_invariant h List.nodup_nil (fun _ _ _ _ _ _ _ hn hx => reservationIds_store hn hx)
    ?_ ?_
  · intro w w' hn hsame
    rw [Shop.ReservationIds, hsame.reservations (fun he => by cases he)]
    exact hn
  · intro e w w' hn he
    rw [Shop.ReservationIds, (surroundings_same he).1.reservations]
    exact hn

theorem keeps_told (h : shopSystem.Reachable ok (freshShop n catalog) c) (ht : t ∈ c.pool) :
    Follows t.req.marking List.cons t.prog t.trace t.req.told := by
  have hfollows := (h.runs rfl t ht).follows (follows_told t.req)
  rwa [List.foldr_cons_nil] at hfollows

theorem told_of_result (h : shopSystem.Reachable ok (freshShop n catalog) c) (ht : t ∈ c.pool)
    {out : Except Err ShopRes} (hres : t.prog.result = some out) : t.req.told out t.trace := by
  have hfollows := keeps_told h ht
  cases hp : t.prog with
  | ret a => rw [hp] at hres hfollows; cases hres; exact hfollows
  | throw e => rw [hp] at hres hfollows; cases hres; exact hfollows
  | call op k => rw [hp] at hres; cases hres

theorem course_step (h : shopSystem.Reachable ok (freshShop n catalog) c) {a : ShopAct}
    (hs : shopSystem.step c a = some c') (o : ObjectId) :
    Course (c.world.2.reservation o) (c'.world.2.reservation o) := by
  have hsame : ∀ {w : Shop}, w.reservations = c.world.2.reservations →
      Course (c.world.2.reservation o) (w.reservation o) := by
    intro w heq
    rw [Shop.reservation, Shop.reservation, heq]
    exact .same _
  cases a with
  | arrive r =>
    obtain ⟨w', hw, rfl⟩ := Option.map_eq_some_iff.mp hs
    exact hsame ((accept_same hw).2.reservations fun he => by cases he)
  | call i f =>
    obtain ⟨id, r, op, k, tr, out, w', hp, hx, rfl⟩ := System.callStep_eq_some hs
    rcases call_effect hx with heq | ⟨op, q, a, rfl, h'⟩
    · exact hsame (congrArg Shop.reservations heq)
    · exact course_store (reservationIds_reachable h)
        (keeps_told h (List.mem_of_getElem? hp)).1 h' o
  | tick d => cases hs; exact .same _
  | env e =>
    obtain ⟨w', hw, rfl⟩ := Option.map_eq_some_iff.mp hs
    obtain ⟨s, he, rfl⟩ := Option.map_eq_some_iff.mp hw
    exact hsame (surroundings_same he).1.reservations

/-- A reservation never goes away, keeps its expiry, and does not leave a status other than held. -/
theorem kept_run (h : shopSystem.Reachable ok (freshShop n catalog) c)
    (h' : shopSystem.Reachable ok c c') {d : ReservationDoc}
    (hd : c.world.2.reservation o = some d) :
    ∃ d', c'.world.2.reservation o = some d' ∧ d'.expiresAt = d.expiresAt ∧
      (d.status ≠ .held → d' = d) := by
  induction h' with
  | init => exact ⟨d, hd, rfl, fun _ => rfl⟩
  | step hr _ hs ih =>
    obtain ⟨d₁, h1, hexpiry, hkept⟩ := ih
    have hcourse := course_step (h.trans hr) hs o
    rw [h1] at hcourse
    obtain ⟨d₂, h2, hexpiry₂, hkept₂⟩ := hcourse.kept
    refine ⟨d₂, h2, hexpiry₂.trans hexpiry, fun hne => ?_⟩
    obtain rfl := hkept hne
    exact hkept₂ hne

/-! ### The winner -/

/-- The updates that were answered with the reservation `o`: whose, and the status they gave it. -/
def marksOf (o : ObjectId) (log : List (Nat × Event apiSig Err)) : List (Nat × ReservationStatus) :=
  log.filterMap fun x => (marked x.2).bind fun m => if m.1 = o then some (x.1, m.2) else none

theorem mem_marksOf {log : List (Nat × Event apiSig Err)} {i : Nat} {s : ReservationStatus} :
    (i, s) ∈ marksOf o log ↔ ∃ e, (i, e) ∈ log ∧ marked e = some (o, s) := by
  simp only [marksOf, List.mem_filterMap, Option.bind_eq_some_iff]
  constructor
  · rintro ⟨⟨j, e⟩, hmem, ⟨o', s'⟩, he, h⟩
    split at h
    · rename_i ho
      cases h
      cases ho
      exact ⟨e, hmem, he⟩
    · cases h
  · rintro ⟨e, hmem, he⟩
    exact ⟨(i, e), hmem, (o, s), he, if_pos rfl⟩

/-- At most one update was answered with the reservation `o`, and `o` is what that update made it. -/
def Won (c : ShopConfig) (o : ObjectId) : Prop :=
  marksOf o c.log = [] ∨ ∃ i s, marksOf o c.log = [(i, s)] ∧ s ≠ .held ∧
    (c.world.2.reservation o).map (·.status) = some s

theorem Won.settled (h : Won c o)
    (hlog : marksOf o c'.log = marksOf o c.log)
    (hcourse : Course (c.world.2.reservation o) (c'.world.2.reservation o)) : Won c' o := by
  rcases h with h | ⟨i, s, h, hs, hstatus⟩
  · exact .inl (hlog.trans h)
  · obtain ⟨d, hd, rfl⟩ := Option.map_eq_some_iff.mp hstatus
    rw [hd] at hcourse
    obtain ⟨d', hd', -, hkept⟩ := hcourse.kept
    exact .inr ⟨i, _, hlog.trans h, hs, by rw [hd', hkept hs]; rfl⟩

/-- The document that an update is answered with matched it. -/
theorem answered_matches {now i : Nat} {f : ReservationFilter} {dst : ReservationStatus}
    {x : Fate Err Pick} {w w' : IdemKv × Shop} {e : ReservationDoc}
    (hx : shopSystem.store.exec now i (.inr (.reservationFindOneAndUpdate f dst)) x w =
      some (.ok (some e), w')) : ∃ d, e = { d with status := dst } ∧ f.matches d = true := by
  rcases Store.exec_cases (exec_inr hx).1 with ⟨q, a, -, hq, ha⟩ | ⟨e, -, -, he⟩ | ⟨e, q, a, -, -, he⟩
  · cases ha
    obtain ⟨⟨r, docs⟩, hr, h⟩ := Option.map_eq_some_iff.mp hq
    obtain ⟨rfl, -⟩ := Prod.mk.inj h
    rcases Collection.findOneAndUpdate_cases hr with ⟨d, -, hm, hd, -⟩ | ⟨hnone, -⟩
    · exact ⟨d, Option.some.inj hd, hm⟩
    · cases hnone
  · cases he
  · cases he

/-- The document that an update is answered with, before and after. -/
theorem update_answered {now i : Nat} {f : ReservationFilter} {dst : ReservationStatus}
    {x : Fate Err Pick} {w w' : IdemKv × Shop} {e : ReservationDoc} (hn : w.2.ReservationIds)
    (hx : shopSystem.store.exec now i (.inr (.reservationFindOneAndUpdate f dst)) x w =
      some (.ok (some e), w')) :
    ∃ d, e = { d with status := dst } ∧ f.matches d = true ∧ w.2.reservation d.id = some d ∧
      w'.2.reservation = Function.update w.2.reservation d.id (some e) := by
  rcases Store.exec_cases (exec_inr hx).1 with ⟨q, a, -, hq, ha⟩ | ⟨e, -, -, he⟩ | ⟨e, q, a, -, -, he⟩
  · cases ha
    rcases reservation_update hn hq with ⟨d, hd, hmatch, hheld, heq⟩ | ⟨hnone, -⟩
    · cases hd
      exact ⟨d, rfl, hmatch, hheld, heq⟩
    · cases hnone
  · cases he
  · cases he

theorem won (h : shopSystem.Reachable ok (freshShop n catalog) c) (o : ObjectId) : Won c o := by
  refine h.invariant (I := fun c => Won c o) (.inl rfl) ?_
  intro c a c' hr ih _ hs
  have hcourse := course_step hr hs o
  cases a with
  | arrive r =>
    obtain ⟨w', _, rfl⟩ := Option.map_eq_some_iff.mp hs
    exact ih.settled rfl hcourse
  | call i f =>
    obtain ⟨id, r, op, k, tr, out, w', hp, hx, rfl⟩ := System.callStep_eq_some hs
    cases hm : marked ⟨c.now, op, out⟩ with
    | none => exact ih.settled (by simp [marksOf, hm]) hcourse
    | some m =>
      by_cases ho : m.1 = o
      · subst ho
        unfold marked at hm
        split at hm
        · rename_i time f dst e heq
          cases heq
          cases hm
          have hmarking := (keeps_told hr (List.mem_of_getElem? hp)).1
          obtain ⟨d, rfl, hmatch, hd, heq⟩ := update_answered (reservationIds_reachable hr) hx
          have hdheld : d.status = .held := (matches_iff.mp hmatch).2.1.trans hmarking.1
          -- nobody has won it while it is held
          have hnone : marksOf d.id c.log = [] := by
            rcases ih with h | ⟨j, s, -, hs, hstatus⟩
            · exact h
            · rw [hd] at hstatus
              exact absurd ((Option.some.inj hstatus).symm.trans hdheld) hs
          refine .inr ⟨id, dst, by simp [marksOf, marked, ← hnone], dst_ne_held hmarking, ?_⟩
          rw [Shared.after_world, heq, Function.update_self]
          rfl
        · cases hm
      · exact ih.settled (by simp [marksOf, hm, ho]) hcourse
  | tick d => cases hs; exact ih.settled rfl hcourse
  | env e =>
    obtain ⟨w', _, rfl⟩ := Option.map_eq_some_iff.mp hs
    exact ih.settled rfl hcourse

/-! ### Confirms -/

/-- The call `t` read its clock as `τ` and sent the update that confirms `o`, which was answered
with the reservation or lost its answer. -/
def Confirmed (t : ShopThread) (o : ObjectId) (τ : Nat) : Prop :=
  ∃ id time out, t.req = .confirm id ∧ castObjectId id = some o ∧ out ≠ .ok none ∧
    ⟨time, .inr (.reservationFindOneAndUpdate ⟨some id, .held, .gt τ⟩ .confirmed), out⟩ ∈ t.trace ∧
    ⟨τ, .inr .dateNow, .ok τ⟩ ∈ t.trace

theorem Confirmed.clock {τ : Nat} (h : Confirmed t o τ) : ⟨τ, .inr .dateNow, .ok τ⟩ ∈ t.trace := by
  obtain ⟨id, time, out, -, -, -, -, hclock⟩ := h
  exact hclock

theorem Confirmed.later {τ : Nat} {t' : ShopThread} (h : Confirmed t o τ) (hreq : t'.req = t.req)
    (htr : t.trace <:+ t'.trace) : Confirmed t' o τ := by
  obtain ⟨id, time, out, hid, ho, hout, hupdate, hclock⟩ := h
  exact ⟨id, time, out, hreq.trans hid, ho, hout, htr.subset hupdate, htr.subset hclock⟩

theorem mem_log (h : shopSystem.Reachable ok (freshShop n catalog) c) {i : Nat}
    (ht : c.pool[i]? = some t) {e : Event apiSig Err} (he : e ∈ t.trace) : (i, e) ∈ c.log := by
  rw [(h.log_trace rfl rfl).2 i t ht] at he
  obtain ⟨⟨j, e⟩, hmem, rfl⟩ := List.mem_map.mp he
  obtain ⟨hlog, hj⟩ := List.mem_filter.mp hmem
  rwa [← of_decide_eq_true hj]

/-- What a clock answers is the time of the call. -/
theorem clock_read (h : shopSystem.Reachable ok (freshShop n catalog) c) (ht : t ∈ c.pool)
    {time τ : Nat} (he : ⟨time, .inr .dateNow, .ok τ⟩ ∈ t.trace) : time = τ ∧ τ ≤ c.now := by
  obtain ⟨i, hi⟩ := List.getElem?_of_mem ht
  obtain ⟨hle, f, w, w', hx⟩ := h.executed rfl _ (mem_log h hi he)
  rcases Store.exec_cases (exec_inr (o := .dateNow) hx).1 with ⟨q, a, -, hq, ha⟩ | ⟨e, -, -, he⟩ |
    ⟨e, q, a, -, -, he⟩
  · obtain ⟨rfl, -⟩ := Prod.mk.inj (Option.some.inj hq)
    obtain rfl := Except.ok.inj ha
    exact ⟨rfl, hle⟩
  · cases he
  · cases he

/-- Whoever moves a reservation has sent an update that matched it. -/
theorem mover (h : shopSystem.Reachable ok (freshShop n catalog) c) {a : ShopAct}
    (hs : shopSystem.step c a = some c') {d d' : ReservationDoc}
    (hd : c.world.2.reservation o = some d) (hd' : c'.world.2.reservation o = some d')
    (hne : d'.status ≠ d.status) :
    ∃ (i : Nat) (t t' : ShopThread) (f : ReservationFilter) (out : Except Err (Option ReservationDoc)),
      c.pool[i]? = some t ∧ c'.pool[i]? = some t' ∧ t'.req = t.req ∧
      t'.trace = ⟨c.now, .inr (.reservationFindOneAndUpdate f d'.status), out⟩ :: t.trace ∧
      out ≠ .ok none ∧ f.matches d = true ∧
      t.req.marking t.trace (.inr (.reservationFindOneAndUpdate f d'.status)) := by
  have hsame : c'.world.2.reservations ≠ c.world.2.reservations := by
    intro heq
    rw [Shop.reservation, heq, ← Shop.reservation, hd] at hd'
    exact hne (congrArg _ (Option.some.inj hd').symm)
  cases a with
  | arrive r =>
    obtain ⟨w', hw, rfl⟩ := Option.map_eq_some_iff.mp hs
    exact absurd ((accept_same hw).2.reservations fun he => by cases he) hsame
  | call i x =>
    obtain ⟨id, r, op, k, tr, out, w', hp, hx, rfl⟩ := System.callStep_eq_some hs
    have hmarking := (keeps_told h (List.mem_of_getElem? hp)).1
    cases op with
    | inl op => exact absurd (congrArg Shop.reservations (exec_inl (o := op) hx)) hsame
    | inr op =>
      rcases Store.exec_effect (exec_inr (o := op) hx).1 with ⟨-, q, a, h', hans⟩ | ⟨-, heq, -⟩
      · cases op with
        | reservationFindOneAndUpdate f dst =>
          rcases reservation_update (reservationIds_reachable h) h' with
            ⟨e, rfl, hmatch, he, heq⟩ | ⟨-, heq, -⟩
          · have hd' : w'.2.reservation o = some d' := hd'
            rw [heq] at hd'
            by_cases ho : o = e.id
            · subst ho
              rw [Function.update_self] at hd'
              cases hd'
              obtain rfl := Option.some.inj (he.symm.trans hd)
              have hlt := (List.getElem?_eq_some_iff.mp hp).1
              refine ⟨i, _, _, f, out, hp, List.getElem?_set_self hlt, rfl, rfl, ?_, hmatch, hmarking⟩
              rintro rfl
              cases hans _ rfl
            · rw [Function.update_of_ne ho, hd] at hd'
              exact absurd (congrArg _ (Option.some.inj hd').symm) hne
          · exact absurd (congrArg Shop.reservations heq) hsame
        | reservationCreate r =>
          obtain ⟨hnone, e, -, heq⟩ := reservation_create h'
          have hd' : w'.2.reservation o = some d' := hd'
          have ho : o ≠ a := by
            rintro rfl
            cases hd.symm.trans hnone
          rw [heq, Function.update_of_ne ho, hd] at hd'
          exact absurd (congrArg _ (Option.some.inj hd').symm) hne
        | _ => exact absurd ((shopStore_same h').reservations fun he => by cases he) hsame
      · exact absurd (congrArg Shop.reservations heq) hsame
  | tick d => cases hs; exact absurd rfl hsame
  | env e =>
    obtain ⟨w', hw, rfl⟩ := Option.map_eq_some_iff.mp hs
    obtain ⟨s, he, rfl⟩ := Option.map_eq_some_iff.mp hw
    exact absurd (surroundings_same he).1.reservations hsame

/-- A confirmed reservation was confirmed by a call that read its clock before the expiry. -/
theorem confirmed_in_time (h : shopSystem.Reachable ok (freshShop n catalog) c)
    {d : ReservationDoc} (hd : c.world.2.reservation o = some d) (hs : d.status = .confirmed) :
    ∃ (i : Nat) (t : ShopThread) (τ : Nat), c.pool[i]? = some t ∧ τ < d.expiresAt ∧ Confirmed t o τ := by
  let I : ShopConfig → Prop := fun c => ∀ d, c.world.2.reservation o = some d →
    d.status = .confirmed → ∃ (i : Nat) (t : ShopThread) (τ : Nat), c.pool[i]? = some t ∧ τ < d.expiresAt ∧ Confirmed t o τ
  refine h.invariant (I := I) (fun d hd => by cases hd) ?_ d hd hs
  clear d hd hs
  intro c a c' hr ih hok hs d' hd' hconf
  have hcourse := course_step hr hs o
  rw [hd'] at hcourse
  generalize hbefore : c.world.2.reservation o = r at hcourse
  cases hcourse with
  | same =>
    obtain ⟨i, t, τ, ht, hτ, hc⟩ := ih _ hbefore hconf
    have hlater : shopSystem.Reachable ok c c' := .step .init hok hs
    obtain ⟨t', ht', hreq, htr⟩ := (hlater.later.2 i).1 t ht
    exact ⟨i, t', τ, ht', hτ, hc.later hreq htr⟩
  | create hheld => cases hheld.symm.trans hconf
  | @move d s hheld =>
    obtain rfl : s = .confirmed := hconf
    obtain ⟨i, t, t', f, out, ht, ht', hreq, htr, hout, hmatch, hmarking⟩ :=
      mover hr hs hbefore hd' (fun heq => by cases heq.trans hheld)
    generalize hreq' : t.req = r at hmarking
    obtain ⟨-, hmarking⟩ := hmarking
    cases r with
    | confirm id =>
      obtain ⟨-, time, τ, rfl, htrace⟩ := hmarking
      obtain ⟨hid, -, hexpiry⟩ := matches_iff.mp hmatch
      have hclock : ⟨time, .inr .dateNow, .ok τ⟩ ∈ t.trace := by rw [htrace]; exact List.mem_cons_self ..
      obtain rfl := (clock_read hr (List.mem_of_getElem? ht) hclock).1
      have ho : d.id = o := ((reservation_eq_some (reservationIds_reachable hr)).mp hbefore).2
      refine ⟨i, t', time, ht', of_decide_eq_true hexpiry, id, c.now, out, hreq.trans hreq', ?_, hout,
        ?_, ?_⟩
      · rw [← ho]
        exact hid id rfl
      · rw [htr]
        exact List.mem_cons_self ..
      · rw [htr]
        exact List.mem_cons_of_mem _ hclock
    | _ => cases hmarking

/-- When a confirm has missed a reservation that was there before it, the reservation is no longer
held, or its expiry is no later than the clock of that confirm. -/
theorem missed (h₀ : shopSystem.Reachable ok (freshShop n catalog) c₀) {d₀ : ReservationDoc}
    (hd₀ : c₀.world.2.reservation o = some d₀) (h : shopSystem.Reachable ok c₀ c) {i : Nat}
    (hi : c₀.pool.length ≤ i) {id : String} {time τ : Nat} (ho : castObjectId id = some o)
    (hmem : (i, (⟨time, .inr (.reservationFindOneAndUpdate ⟨some id, .held, .gt τ⟩ .confirmed),
      .ok none⟩ : Event apiSig Err)) ∈ c.log) :
    ∃ d, c.world.2.reservation o = some d ∧ (d.status ≠ .held ∨ d.expiresAt ≤ τ) := by
  induction h with
  | init =>
    have := (h₀.log_trace rfl rfl).1 _ hmem
    omega
  | @step c c' a hr _ hs ih =>
    -- what was so before the step is so after it
    have hstep : (∃ d, c.world.2.reservation o = some d ∧ (d.status ≠ .held ∨ d.expiresAt ≤ τ)) →
        ∃ d, c'.world.2.reservation o = some d ∧ (d.status ≠ .held ∨ d.expiresAt ≤ τ) := by
      rintro ⟨d, hd, hlate⟩
      have hcourse := course_step (h₀.trans hr) hs o
      rw [hd] at hcourse
      obtain ⟨d', hd', hexpiry, hkept⟩ := hcourse.kept
      refine ⟨d', hd', hlate.imp (fun hne => ?_) fun hle => hexpiry.trans_le hle⟩
      rwa [hkept hne]
    cases a with
    | arrive r =>
      obtain ⟨w', _, rfl⟩ := Option.map_eq_some_iff.mp hs
      exact hstep (ih hmem)
    | call j x =>
      obtain ⟨m, r, op, k, tr, out, w', hp, hx, rfl⟩ := System.callStep_eq_some hs
      rcases List.mem_cons.mp hmem with heq | hold
      · cases heq
        refine hstep ?_
        obtain ⟨d, hd, -⟩ := kept_run h₀ hr hd₀
        have hids := reservationIds_reachable (h₀.trans hr)
        rcases Store.exec_cases (exec_inr hx).1 with ⟨q, a, -, hq, ha⟩ | ⟨e, -, -, he⟩ |
          ⟨e, q, a, -, -, he⟩
        · cases ha
          rcases reservation_update hids hq with ⟨e, he, -⟩ | ⟨-, -, hnone⟩
          · cases he
          · obtain ⟨hmem, hid⟩ := (reservation_eq_some hids).mp hd
            have hnot := mt matches_iff.mpr (Bool.eq_false_iff.mp (hnone d hmem))
            refine ⟨d, hd, ?_⟩
            by_contra hheld
            simp only [not_or, not_not, not_le] at hheld
            refine hnot ⟨fun id' hid' => ?_, hheld.1, decide_eq_true hheld.2⟩
            cases hid'
            rw [ho, hid]
        · cases he
        · cases he
      · exact hstep (ih hold)
    | tick d => cases hs; exact hstep (ih hmem)
    | env e =>
      obtain ⟨w', _, rfl⟩ := Option.map_eq_some_iff.mp hs
      exact hstep (ih hmem)

/-! ### Answers -/

/-- The call `t` reports that it gave the reservation `o` the status `s`: a confirm or a release by
its answer, a sweep by counting `o` among what it reclaimed. -/
def Reports (t : ShopThread) (o : ObjectId) (s : ReservationStatus) : Prop :=
  (∃ id pid units, t.req = .confirm id ∧ castObjectId id = some o ∧
    t.prog.result = some (.ok (.confirmed (.confirmed pid units))) ∧ s = .confirmed) ∨
  (∃ id pid units, t.req = .release id ∧ castObjectId id = some o ∧
    t.prog.result = some (.ok (.released (.released pid units))) ∧ s = .released) ∨
  ((t.req = .sweep ∨ ∃ worker, t.req = .tick worker) ∧ s = .expired ∧
    (∃ out, t.prog.result = some (.ok out)) ∧ ∃ e ∈ t.trace, marked e = some (o, .expired))

/-- The number that a sweep returns counts the reservations that its updates were answered with. -/
theorem swept_count (h : shopSystem.Reachable ok (freshShop n catalog) c) (ht : t ∈ c.pool)
    (hreq : t.req = .sweep) {reclaimed : Nat} (hres : t.prog.result = some (.ok (.swept reclaimed))) :
    reclaimed = (t.trace.filterMap marked).length := by
  have htold := told_of_result h ht hres
  rwa [hreq] at htold

theorem marked_of_reports (h : shopSystem.Reachable ok (freshShop n catalog) c) {i : Nat}
    (ht : c.pool[i]? = some t) {s : ReservationStatus} (hr : Reports t o s) :
    (i, s) ∈ marksOf o c.log := by
  have hmem := List.mem_of_getElem? ht
  -- an update by the id of `o` was answered with `o`
  have hanswer : ∀ {id f dst time d}, castObjectId id = some o → f.id = some id →
      ⟨time, .inr (.reservationFindOneAndUpdate f dst), .ok (some d)⟩ ∈ t.trace →
      (i, dst) ∈ marksOf o c.log := by
    intro id f dst time d ho hid he
    have hlog := mem_log h ht he
    obtain ⟨-, x, w, w', hx⟩ := h.executed rfl _ hlog
    obtain ⟨e, rfl, hmatch⟩ := answered_matches hx
    have hid : e.id = o :=
      Option.some.inj (((matches_iff.mp hmatch).1 id hid).symm.trans ho)
    exact mem_marksOf.mpr ⟨_, hlog, by rw [← hid]; rfl⟩
  rcases hr with ⟨id, pid, units, hreq, ho, hres, rfl⟩ | ⟨id, pid, units, hreq, ho, hres, rfl⟩ |
    ⟨-, rfl, -, e, he, hm⟩
  · have htold := told_of_result h hmem hres
    rw [hreq] at htold
    obtain ⟨time, τ, d, he⟩ := htold
    exact hanswer ho rfl he
  · have htold := told_of_result h hmem hres
    rw [hreq] at htold
    obtain ⟨time, d, he⟩ := htold
    exact hanswer ho rfl he
  · exact mem_marksOf.mpr ⟨e, mem_log h ht he, hm⟩

/-- **Answers agree with the outcome.** Of all calls that confirm, release or sweep a reservation one
at most reports a success, and the reservation is what that one says from then on. When a confirm
that started on an existing reservation is told `expired` and the reservation is confirmed at that
moment or later, it is by another confirm, whose clock was read before the expiry and before that
answer. -/
theorem answers_agree (h₀ : shopSystem.Reachable ok (freshShop n catalog) c₀)
    {d₀ : ReservationDoc} (hd₀ : d₀ ∈ c₀.world.2.reservations)
    (h : shopSystem.Reachable ok c₀ c) :
    (∀ (i j : Nat) (t u : ShopThread) (s s' : ReservationStatus), c.pool[i]? = some t →
      c.pool[j]? = some u → Reports t d₀.id s → Reports u d₀.id s' → i = j) ∧
    (∀ t ∈ c.pool, ∀ s, Reports t d₀.id s → ∀ c', shopSystem.Reachable ok c c' →
      ∃ d ∈ c'.world.2.reservations, d.id = d₀.id ∧ d.status = s) ∧
    ∀ (i : Nat) (t : ShopThread) (id : String), c₀.pool.length ≤ i → c.pool[i]? = some t →
      t.req = .confirm id → castObjectId id = some d₀.id →
      t.prog.result = some (.ok (.confirmed .expired)) → ∀ c', shopSystem.Reachable ok c c' →
      ∀ d ∈ c'.world.2.reservations, d.id = d₀.id → d.status = .confirmed →
      ∃ (j : Nat) (u u' : ShopThread) (τ : Nat), j ≠ i ∧ c.pool[j]? = some u ∧
        c'.pool[j]? = some u' ∧ ⟨τ, .inr .dateNow, .ok τ⟩ ∈ u.trace ∧ τ < d.expiresAt ∧
        Confirmed u' d₀.id τ := by
  have hc := h₀.trans h
  have hexists := (reservation_eq_some (reservationIds_reachable h₀)).mpr ⟨hd₀, rfl⟩
  refine ⟨fun i j t u s s' ht hu hr hr' => ?_, fun t ht s hr c' hc' => ?_, ?_⟩
  · have hi := marked_of_reports hc ht hr
    have hj := marked_of_reports hc hu hr'
    rcases won hc d₀.id with hnone | ⟨k, s₀, hone, -⟩
    · rw [hnone] at hi
      cases hi
    · rw [hone, List.mem_singleton] at hi hj
      cases hi
      cases hj
      rfl
  · obtain ⟨i, hi⟩ := List.getElem?_of_mem ht
    have hmark := marked_of_reports hc hi hr
    rcases won hc d₀.id with hnone | ⟨k, s₀, hone, hs₀, hstatus⟩
    · rw [hnone] at hmark
      cases hmark
    · rw [hone, List.mem_singleton] at hmark
      cases hmark
      obtain ⟨d, hd, rfl⟩ := Option.map_eq_some_iff.mp hstatus
      obtain ⟨d', hd', -, hkept⟩ := kept_run hc hc' hd
      obtain rfl := hkept hs₀
      obtain ⟨hmem, hid⟩ := (reservation_eq_some (reservationIds_reachable (hc.trans hc'))).mp hd'
      exact ⟨d', hmem, hid, rfl⟩
  · intro i t id hnew ht hreq ho hres c' hc' d hd hid hconf
    have hd := (reservation_eq_some (reservationIds_reachable (hc.trans hc'))).mpr ⟨hd, hid⟩
    have htold := told_of_result hc (List.mem_of_getElem? ht) hres
    rw [hreq] at htold
    obtain ⟨t₁, t₂, t₃, τ, e, htrace⟩ := htold
    -- the confirm that was told `expired` has confirmed nothing
    have hloser : ∀ τ', ¬Confirmed t d₀.id τ' := by
      rintro τ' ⟨id', time, out, -, -, hout, hupdate, -⟩
      rw [htrace] at hupdate
      rcases List.mem_cons.mp hupdate with heq | hupdate
      · cases heq
      · rcases List.mem_cons.mp hupdate with heq | hupdate
        · cases heq
          exact hout rfl
        · cases List.mem_singleton.mp hupdate
    have hother : ∀ {j : Nat} {u' : ShopThread} {τ' : Nat}, c'.pool[j]? = some u' →
        Confirmed u' d₀.id τ' → j ≠ i := by
      rintro j u' τ' hu' hu rfl
      obtain rfl := Option.some.inj (hu'.symm.trans (hc'.ended ht (by rw [hres]; exact Option.some_ne_none _)))
      exact hloser τ' hu
    have hmiss : ⟨t₂, .inr (.reservationFindOneAndUpdate ⟨some id, .held, .gt τ⟩ .confirmed),
        .ok none⟩ ∈ t.trace := by
      rw [htrace]
      exact List.mem_cons_of_mem _ (List.mem_cons_self ..)
    have hclock : ⟨t₁, .inr .dateNow, .ok τ⟩ ∈ t.trace := by
      rw [htrace]
      exact List.mem_cons_of_mem _ (List.mem_cons_of_mem _ (List.mem_singleton_self _))
    obtain ⟨d₁, hd₁, hlate⟩ := missed h₀ hexists h hnew ho (mem_log hc ht hmiss)
    obtain ⟨d', hd', hexpiry, hkept⟩ := kept_run hc hc' hd₁
    obtain rfl := Option.some.inj (hd'.symm.trans hd)
    by_cases hheld : d₁.status = .held
    · -- still held: whoever confirms it now has read its clock before
      obtain ⟨j, u', τ', hu', hτ', hconfirmed⟩ := confirmed_in_time (hc.trans hc') hd hconf
      have hexpired : d₁.expiresAt ≤ τ := hlate.resolve_left (not_not.mpr hheld)
      have hread := (clock_read hc (List.mem_of_getElem? ht) hclock).2
      have hbefore : ¬c.now ≤ τ' := by omega
      rcases (hc'.later.2 j).2 u' hu' _ hconfirmed.clock with hle | ⟨u, hu, -, hmem⟩
      · exact absurd hle hbefore
      · exact ⟨j, u, u', τ', hother hu' hconfirmed, hu, hu', hmem, hτ', hconfirmed⟩
    · obtain rfl := hkept hheld
      obtain ⟨j, u, τ', hu, hτ', hconfirmed⟩ := confirmed_in_time hc hd₁ hconf
      obtain ⟨u', hu', hreq', htr⟩ := (hc'.later.2 j).1 u hu
      have hconfirmed' := hconfirmed.later hreq' htr
      exact ⟨j, u, u', τ', hother hu' hconfirmed', hu, hu', hconfirmed.clock, hτ', hconfirmed'⟩

end Runs

/-! ## A confirm that is repeated -/

/-- The reservation `idB` of one unit. -/
def reserved : List ShopAct := .arrive (.reserve idA.toString 1 none) :: callsOf 0 8 idB

/-- It is confirmed twice, one call after the other. -/
def confirmedTwice : List ShopAct :=
  .arrive (.confirm idB.toString) :: callsOf 1 2 idB ++
    .arrive (.confirm idB.toString) :: callsOf 2 3 idB

theorem confirmed_again : ∃ c₀ c d₀ d t, shopSystem.Reachable (fun _ _ => True)
    (freshShop 0 (oneProduct 5)) c₀ ∧ shopSystem.Reachable (fun _ _ => True) c₀ c ∧
    c₀.pool.length = 1 ∧ c₀.world.2.reservations = [d₀] ∧ c.world.2.reservations = [d] ∧
    d₀.id = idB ∧ d.id = idB ∧ d.status = .confirmed ∧ c.pool[2]? = some t ∧
    t.req = .confirm idB.toString ∧ t.prog.result = some (.ok (.confirmed .expired)) := by
  have hrun : ((shopSystem.run (fun _ _ => true) (freshShop 0 (oneProduct 5)) reserved).bind
      fun c₀ => (shopSystem.run (fun _ _ => true) c₀ confirmedTwice).map fun c =>
        decide (c₀.pool.length = 1) && decide (c₀.world.2.reservations.map (·.id) = [idB]) &&
        decide (c.world.2.reservations.map (fun d => (d.id, d.status)) = [(idB, .confirmed)]) &&
        decide ((c.pool[2]?).map (fun t => (t.req, t.prog.result)) =
          some (.confirm idB.toString, some (.ok (.confirmed .expired))))) = some true := by decide
  obtain ⟨c₀, hc₀, hrun⟩ := Option.bind_eq_some_iff.mp hrun
  obtain ⟨c, hc, hrun⟩ := Option.map_eq_some_iff.mp hrun
  simp only [Bool.and_eq_true, decide_eq_true_eq] at hrun
  obtain ⟨⟨⟨hlen, hids⟩, hdocs⟩, hpool⟩ := hrun
  obtain ⟨d₀, hd₀, hid₀⟩ := List.map_eq_singleton_iff.mp hids
  obtain ⟨d, hd, hstatus⟩ := List.map_eq_singleton_iff.mp hdocs
  obtain ⟨t, ht, hends⟩ := Option.map_eq_some_iff.mp hpool
  obtain ⟨hid, hstatus⟩ := Prod.mk.inj hstatus
  obtain ⟨hreq, hres⟩ := Prod.mk.inj hends
  exact ⟨c₀, c, d₀, d, t, (System.Reachable.of_run hc₀).mono fun _ _ _ => trivial,
    (System.Reachable.of_run hc).mono fun _ _ _ => trivial, hlen, hd₀, hd, hid₀, hid, hstatus, ht,
    hreq, hres⟩

theorem answers_agree_again : ∃ c, shopSystem.Reachable (fun _ _ => True)
    (freshShop 0 (oneProduct 5)) c ∧ (∃ t, c.pool[2]? = some t ∧
      t.prog.result = some (.ok (.confirmed .expired))) ∧
    ∃ (j : Nat) (u : ShopThread) (τ : Nat), j ≠ 2 ∧ c.pool[j]? = some u ∧ Confirmed u idB τ := by
  obtain ⟨c₀, c, d₀, d, t, h₀, h, hlen, hd₀, hd, hid₀, hid, hstatus, ht, hreq, hres⟩ :=
    confirmed_again
  have hmem : d₀ ∈ c₀.world.2.reservations := by rw [hd₀]; exact List.mem_singleton_self _
  obtain ⟨j, u, u', τ, hj, -, hu', -, -, hconfirmed⟩ := (answers_agree h₀ hmem h).2.2 2 t _
    (by omega) ht hreq (by rw [hid₀, castObjectId_toString]) hres c .init d
    (by rw [hd]; exact List.mem_singleton_self _) (hid.trans hid₀.symm) hstatus
  rw [hid₀] at hconfirmed
  exact ⟨c, h₀.trans h, ⟨t, ht, hres⟩, j, u', τ, hj, hu', hconfirmed⟩

/-- The second confirm of a reservation is told `expired`, and the reservation is confirmed. -/
theorem expired_and_confirmed :
    ¬∀ (now : Nat) (catalog : ObjectId → Option ProductDoc) (c₀ c : ShopConfig) (d₀ : ReservationDoc),
      shopSystem.Reachable (fun _ _ => True) (freshShop now catalog) c₀ →
      d₀ ∈ c₀.world.2.reservations → shopSystem.Reachable (fun _ _ => True) c₀ c →
      ∀ (i : Nat) (t : ShopThread) (id : String), c₀.pool.length ≤ i → c.pool[i]? = some t →
        t.req = .confirm id → castObjectId id = some d₀.id →
        t.prog.result = some (.ok (.confirmed .expired)) →
        ∀ c', shopSystem.Reachable (fun _ _ => True) c c' →
        ∀ d ∈ c'.world.2.reservations, d.id = d₀.id → d.status ≠ .confirmed := by
  obtain ⟨c₀, c, d₀, d, t, h₀, h, hlen, hd₀, hd, hid₀, hid, hstatus, ht, hreq, hres⟩ :=
    confirmed_again
  intro hclaim
  exact hclaim 0 _ c₀ c d₀ h₀ (by rw [hd₀]; exact List.mem_singleton_self _) h 2 t _ (by omega) ht hreq
    (by rw [hid₀, castObjectId_toString]) hres c .init d
    (by rw [hd]; exact List.mem_singleton_self _) (hid.trans hid₀.symm) hstatus

end Flashkart
