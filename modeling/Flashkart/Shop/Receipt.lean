import Flashkart.Shop.Fidelity
import Flashkart.Shop.Holds
import Flashkart.Shop.Record

/-!
# Shop.Receipt

What an answer of `/buy` or `/reserve` is good for. The answer names an order or a hold; the work of
the request has inserted it, or the work of the request whose result is replayed.

* `Shop.Honours`     — the record that an answer names is there, and is as the answer says.
* `inserted_of_work` — the insert behind the result of a work.
* `answers_honoured` — every answer of 201 is honoured ever after.
-/

namespace Flashkart

open Async

/-- The record that the body names is there: it is the user's, and is what the body says. -/
def Shop.Honours (w : Shop) (user : ObjectId) : Body → Prop
  | .order orderId productId quantity _ => ∃ o d, orderId = o.toString ∧ w.order o = some d ∧
      d.userId = user ∧ castObjectId productId = some d.productId ∧ d.quantity = quantity
  | .reservation reservationId productId quantity expiresAt _ =>
    ∃ o d, reservationId = o.toString ∧ w.reservation o = some d ∧ d.userId = some user ∧
      castObjectId productId = some d.productId ∧ d.quantity = quantity ∧ d.expiresAt = expiresAt

/-- What a program does, with its calls listed, latest first. -/
abbrev Lists {S : Sig} {α : Type} (p : Prog S Err α) (l : List (Event S Err))
    (Q : Except Err α → List (Event S Err) → Prop) : Prop :=
  Follows (fun _ _ => True) List.cons p l Q

theorem lists_any {S : Sig} {α : Type} {l : List (Event S Err)} (p : Prog S Err α) :
    Lists p l fun _ l' => l <:+ l' := by
  induction p generalizing l with
  | ret a => exact List.suffix_refl _
  | throw e => exact List.suffix_refl _
  | call o k ih =>
    exact ⟨trivial, fun time out => (ih out).mono fun _ _ h => (List.suffix_cons _ _).trans h⟩

/-! ## The work -/

section Work

variable {user : ObjectId} {id : String} {q : Nat} {l own : List (Event shopSig Err)}

/-- The insert that a body tells of is among the calls. -/
def Inserted (user : ObjectId) (id : String) (q : Nat) (l : List (Event shopSig Err)) : Body → Prop
  | .order orderId productId quantity _ => productId = id ∧ quantity = q ∧ ∃ time price total o,
      orderId = o.toString ∧
        ⟨time, .orderCreate ⟨user, id, q, price, total, .pending⟩, .ok o⟩ ∈ l
  | .reservation reservationId productId quantity expiresAt _ => productId = id ∧ quantity = q ∧
      ∃ time pid o, castObjectId id = some pid ∧ reservationId = o.toString ∧
        ⟨time, .reservationCreate ⟨pid, some user, q, .held, expiresAt⟩, .ok o⟩ ∈ l

theorem lists_createReservation {expiresAt : Nat} :
    Lists (createReservation id q (some user.toString) expiresAt) l fun out l' => ∀ o, out = .ok o →
      ∃ time pid, castObjectId id = some pid ∧
        ⟨time, .reservationCreate ⟨pid, some user, q, .held, expiresAt⟩, .ok o⟩ ∈ l' := by
  simp only [createReservation, newObjectId, castObjectId_toString, Prog.bind_eq, Prog.map_eq,
    Prog.ret_bind]
  cases castObjectId id with
  | none => exact fun o he => by cases he
  | some pid =>
    refine follows_op.mpr ⟨trivial, fun time out o he => ?_⟩
    subst he
    exact ⟨time, pid, rfl, List.mem_cons_self⟩

theorem lists_reserve : Lists (reserve id q (some user.toString)) l fun out l' =>
    ∀ rid expiresAt remaining, out = .ok (.held rid expiresAt remaining) →
      Inserted user id q l' (.reservation rid id q expiresAt remaining) := by
  have hother : ∀ {out : Except Err ReserveResult} {l' : List (Event shopSig Err)},
      (∀ rid expiresAt remaining, out ≠ .ok (.held rid expiresAt remaining)) →
        ∀ rid expiresAt remaining, out = .ok (.held rid expiresAt remaining) →
          Inserted user id q l' (.reservation rid id q expiresAt remaining) :=
    fun h rid expiresAt remaining he => absurd he (h rid expiresAt remaining)
  refine follows_bind.mpr ((lists_any _).mono ?_)
  rintro (e | purchased) l' -
  · exact hother fun _ _ _ he => by cases he
  cases purchased with
  | soldOut => exact hother fun _ _ _ he => by cases he
  | notFound => exact hother fun _ _ _ he => by cases he
  | ok remaining =>
    refine follows_bind.mpr (follows_op.mpr ⟨trivial, fun time out => ?_⟩)
    cases out with
    | error e => exact hother fun _ _ _ he => by cases he
    | ok now =>
      refine follows_tryCatch.mpr (follows_bind.mpr (lists_createReservation.mono ?_))
      rintro (e | o) l₁ hcreated
      · refine follows_bind.mpr ((lists_any _).mono ?_)
        rintro (e' | n) l₂ -
        · exact hother fun _ _ _ he => by cases he
        · exact hother fun _ _ _ he => by cases he
      · refine follows_bind.mpr ((lists_any _).mono ?_)
        rintro (e' | u) l₂ hsuffix
        · refine follows_bind.mpr ((lists_any _).mono ?_)
          rintro (e'' | n) l₃ -
          · exact hother fun _ _ _ he => by cases he
          · exact hother fun _ _ _ he => by cases he
        · intro rid expiresAt remaining' he
          cases he
          obtain ⟨t, pid, hpid, hmem⟩ := hcreated o rfl
          exact ⟨rfl, rfl, t, pid, o, hpid, rfl, hsuffix.subset hmem⟩

theorem lists_work (e : Endpoint) : Lists (e.work user id q) l fun out l' => ∀ v, out = .ok v →
    v.status = 201 ∧ Inserted user id q l' v.body := by
  have herr : ∀ (err : Err) (l' : List (Event shopSig Err)) (v : StoredResult Body),
      Except.error err = .ok v → v.status = 201 ∧ Inserted user id q l' v.body :=
    fun _ _ _ he => by cases he
  cases e with
  | buy =>
    refine follows_bind.mpr ((lists_any _).mono ?_)
    rintro (err | (remaining | _ | _)) l' -
    · exact herr err _
    · refine follows_bind.mpr ((lists_any _).mono ?_)
      rintro (err | product) l₁ -
      · exact herr err _
      · refine follows_bind.mpr (follows_op.mpr ⟨trivial, fun time out => ?_⟩)
        cases out with
        | error err => exact herr err _
        | ok o =>
          refine follows_bind.mpr ((lists_any _).mono ?_)
          rintro (err | u) l₂ hsuffix
          · exact herr err _
          · intro v hv
            cases hv
            exact ⟨rfl, rfl, rfl, time, _, _, o, rfl, hsuffix.subset List.mem_cons_self⟩
    · exact herr _ _
    · exact herr _ _
  | reserve =>
    refine follows_bind.mpr (lists_reserve.mono ?_)
    rintro (err | (⟨rid, expiresAt, remaining⟩ | _ | _)) l' hreserved
    · exact herr err _
    · intro v hv
      cases hv
      exact ⟨rfl, hreserved _ _ _ rfl⟩
    · exact herr _ _
    · exact herr _ _

/-- A work that has returned has made the insert. -/
theorem inserted_of_work {e : Endpoint} {v : StoredResult Body}
    (h : Runs (e.work user id q) own (.ret v)) :
    v.status = 201 ∧ Inserted user id q own v.body := by
  have hwork := h.follows (lists_work (l := []) e) v rfl
  rwa [List.foldr_cons_nil] at hwork

end Work

/-! ## The wrapper -/

section Wrapper

variable {S : Sig} {T J : Type} {l : List (Event ((kvSig (Cell J)).sum S) Err)}
  {p₀ p : Prog S Err (StoredResult T)} {json : Json (StoredResult T) J} {key : String}

theorem lists_inr (h : Runs p₀ (ownCalls l) p) :
    Lists (p.inr : IdemProg J S (StoredResult T)) l fun out l' =>
      Runs p₀ (ownCalls l') (.ofExcept out) := by
  induction p generalizing l with
  | ret a => exact h
  | throw err => exact h
  | call o k ih =>
    refine ⟨trivial, fun time (out : Except Err (S.Ret o)) => ?_⟩
    have hnext : Runs p₀ (⟨time, o, out⟩ :: ownCalls l) (k out) := h.call time out
    exact ih out (l := ⟨time, .inr o, out⟩ :: l) hnext

/-- A result was read under the key. -/
def ReadUnder (json : Json (StoredResult T) J) (key : String)
    (l : List (Event ((kvSig (Cell J)).sum S) Err)) (v : StoredResult T) : Prop :=
  ∃ time j, v = json.parse j ∧ ⟨time, .inl (.get (idemKey key)), .ok (some (.result j))⟩ ∈ l

theorem lists_poll (deadline n : Nat) :
    Lists (poll json (idemKey key) deadline n : IdemProg J S (IdemResult (StoredResult T))) l
      fun out l' => ∀ x, out = .ok x → ReadUnder json key l' x.value := by
  have herr : ∀ (err : Err) (l' : List (Event ((kvSig (Cell J)).sum S) Err))
      (x : IdemResult (StoredResult T)), Except.error err = .ok x →
        ReadUnder json key l' x.value := fun _ _ _ h => by cases h
  induction n generalizing l with
  | zero => exact herr _ _
  | succ n ih =>
    have hagain : ∀ l, Lists (Idem.sleep POLL_INTERVAL_MS >>= fun _ =>
        poll json (idemKey key) deadline n : IdemProg J S (IdemResult (StoredResult T))) l
          fun out l' => ∀ x, out = .ok x → ReadUnder json key l' x.value := by
      intro l
      refine follows_bind.mpr ((lists_any _).mono ?_)
      rintro (err | u) l' -
      · exact herr _ _
      · exact ih
    refine follows_bind.mpr ((lists_any _).mono ?_)
    rintro (err | now) l' -
    · exact herr _ _
    · dsimp only
      split
      · refine follows_bind.mpr (follows_inl_op.mpr ⟨trivial, fun time out => ?_⟩)
        rcases out with err | (_ | (_ | j))
        · exact herr _ _
        · exact hagain _
        · exact hagain _
        · intro x hx
          cases hx
          exact ⟨time, j, rfl, List.mem_cons_self⟩
      · exact herr _ _

/-- What the wrapper returns is the result of `fn`, or it was read under the key. -/
theorem lists_withIdempotency (fn : Prog S Err (StoredResult T)) :
    Lists (withIdempotency json key fn) [] fun out l => ∀ x, out = .ok x →
      (∃ own, own <:+ ownCalls l ∧ Runs fn own (.ret x.value)) ∨ ReadUnder json key l x.value := by
  refine follows_bind.mpr (follows_inl_op.mpr ⟨trivial, fun time out => ?_⟩)
  rcases out with err | (_ | _)
  · exact fun x h => by cases h
  · refine follows_bind.mpr ((lists_any _).mono ?_)
    rintro (err | now) l -
    · exact fun x h => by cases h
    · exact (lists_poll _ _).mono fun out l' h x hx => .inr (h x hx)
  · -- the `catch` block throws, whatever led to it
    have hcatch : ∀ (err : Err) l, Lists (Idem.del (idemKey key) >>= fun _ => Prog.throw err :
        IdemProg J S (IdemResult (StoredResult T))) l fun out l' => ∀ x, out = .ok x →
          (∃ own, own <:+ ownCalls l' ∧ Runs fn own (.ret x.value)) ∨
            ReadUnder json key l' x.value := by
      intro err l
      refine follows_bind.mpr ((lists_any _).mono ?_)
      rintro (e | u) l' - <;> exact fun x h => by cases h
    refine follows_tryCatch.mpr (follows_bind.mpr ((lists_inr .start).mono ?_))
    rintro (err | v) l hruns
    · exact hcatch err l
    · refine follows_bind.mpr (follows_inl_op.mpr ⟨trivial, fun time out => ?_⟩)
      cases out with
      | error err => exact hcatch err _
      | ok u =>
        intro x hx
        cases hx
        exact .inl ⟨_, List.suffix_refl _, hruns⟩

end Wrapper

/-! ## The records -/

/-- What an insert has left behind, if this is the event of one. -/
def Shop.Landed (w : Shop) : Event apiSig Err → Prop
  | ⟨_, .inr (.orderCreate inp), .ok o⟩ => ∃ d, w.order o = some d ∧
      castObjectId inp.productId = some d.productId ∧ d.userId = inp.userId ∧
      d.quantity = inp.quantity
  | ⟨_, .inr (.reservationCreate inp), .ok o⟩ => ∃ d, w.reservation o = some d ∧
      d.productId = inp.productId ∧ d.userId = inp.userId ∧ d.quantity = inp.quantity ∧
      d.expiresAt = inp.expiresAt
  | _ => True

section Records

variable {ok : System.Guard apiSig Err ShopReq ShopRes (IdemKv × Shop) Pick ShopEnv} {n : Nat}
  {catalog : ObjectId → Option ProductDoc} {c c' : ShopConfig}

theorem landed_store {now i : Nat} {op : ShopOp} {q : Pick} {w w' : Shop} {a : op.Ret}
    (h : shopStore now i op q w = some (a, w')) : w'.Landed ⟨now, .inr op, .ok a⟩ := by
  cases op with
  | orderCreate inp =>
    simp only [shopStore] at h
    split at h
    · cases h
    · rename_i pid hpid
      split at h
      · cases h
      · rename_i hfresh
        cases h
        have hnot : q.oid ∉ w.orders.map (·.id) := fun h => hfresh (.inr h)
        refine ⟨⟨q.oid, inp.userId, pid, inp.quantity, inp.unitPricePaise, inp.totalPaise,
          inp.status, 0, none, now⟩, ?_, hpid, rfl, rfl⟩
        rw [Shop.order, Collection.lookup_concat hnot, Function.update_self]
  | reservationCreate inp =>
    simp only [shopStore] at h
    split at h
    · cases h
    · rename_i hfresh
      cases h
      have hnot : q.oid ∉ w.reservations.map (·.id) := fun h => hfresh (.inr h)
      refine ⟨⟨q.oid, inp.productId, inp.userId, inp.quantity, inp.status, inp.expiresAt⟩, ?_, rfl,
        rfl, rfl, rfl⟩
      rw [Shop.reservation, Collection.lookup_concat hnot, Function.update_self]
  | _ => trivial

theorem landed_call {now i : Nat} {op : apiSig.Op} {f : Fate Err Pick} {w w' : IdemKv × Shop}
    {out : Except Err (apiSig.Ret op)}
    (h : shopSystem.store.exec now i op f w = some (out, w')) : w'.2.Landed ⟨now, op, out⟩ := by
  cases op with
  | inl k => trivial
  | inr op =>
    have herr : ∀ e, w'.2.Landed ⟨now, .inr op, .error e⟩ := fun e => by cases op <;> trivial
    rcases Store.exec_cases (exec_inr (o := op) h).1 with
      ⟨q, a, -, hs, rfl⟩ | ⟨e, -, -, rfl⟩ | ⟨e, q, a, -, -, rfl⟩
    · exact landed_store hs
    · exact herr e
    · exact herr e

theorem landed_later (h : shopSystem.Reachable ok (freshShop n catalog) c)
    (h' : shopSystem.Reachable ok c c') {e : Event apiSig Err} (he : c.world.2.Landed e) :
    c'.world.2.Landed e := by
  obtain ⟨time, op, out⟩ := e
  cases op with
  | inl k => trivial
  | inr op =>
    cases out with
    | error err => cases op <;> trivial
    | ok a =>
      cases op with
      | orderCreate inp =>
        obtain ⟨d, hd, hproduct, huser, hqty⟩ := he
        obtain ⟨d', hd', hbecomes⟩ := becomes_reachable h h' hd
        have hsale := hbecomes.sale
        refine ⟨d', hd', ?_, (congrArg Sale.userId hsale).trans huser,
          (congrArg Sale.quantity hsale).trans hqty⟩
        rw [hproduct]
        exact congrArg some (congrArg Sale.productId hsale).symm
      | reservationCreate inp =>
        obtain ⟨d, hd, hrest⟩ := he
        obtain ⟨d', hd', hterms, -⟩ := kept_hold h h' hd
        refine ⟨d', hd', ?_⟩
        rw [hterms]
        exact hrest
      | _ => trivial

theorem landed (h : shopSystem.Reachable ok (freshShop n catalog) c) :
    ∀ t ∈ c.pool, ∀ e ∈ t.trace, c.world.2.Landed e := by
  have hall : shopSystem.Reachable (fun _ _ => True) (freshShop n catalog) c :=
    h.mono fun _ _ _ => trivial
  refine hall.established (K := fun e w => w.2.Landed e) rfl
    (fun _ _ _ _ _ _ _ hx => landed_call hx)
    fun c a c' e hr hs he => landed_later hr (.step .init trivial hs) he

end Records

/-! ## Answers -/

section Answers

variable {ok : System.Guard apiSig Err ShopReq ShopRes (IdemKv × Shop) Pick ShopEnv} {n : Nat}
  {catalog : ObjectId → Option ProductDoc} {c : ShopConfig} {t : ShopThread} {e : Endpoint}
  {r : BuyRequest} {resp : Response}

theorem lists_moneyRoute (e : Endpoint) (r : BuyRequest) :
    Lists (moneyRoute e.scope e.work r) [] fun out l => ∀ resp : Response, out = .ok resp →
      (∃ q own, own <:+ ownCalls l ∧
        Runs (e.work r.userId r.id q) own (.ret ⟨resp.status, resp.body⟩)) ∨
      isValidObjectId r.id = true ∧ ∃ rawKey,
        ReadUnder bodyJson (e.key r rawKey) l ⟨resp.status, resp.body⟩ := by
  unfold moneyRoute
  split
  · rename_i hid
    split
    · exact fun _ he => by cases he
    · rename_i q hq
      split
      · refine follows_bind.mpr ((lists_inr .start).mono ?_)
        rintro (err | v) l hruns
        · exact fun _ he => by cases he
        · intro resp he
          cases he
          exact .inl ⟨q, _, List.suffix_refl _, hruns⟩
      · rename_i rawKey hkey
        split
        · refine follows_bind.mpr ((lists_withIdempotency _).mono ?_)
          rintro (err | x) l hx
          · exact fun _ he => by cases he
          · intro resp he
            cases he
            rcases hx x rfl with ⟨own, hown, hruns⟩ | hread
            · exact .inl ⟨q, own, hown, hruns⟩
            · exact .inr ⟨hid, rawKey, hread⟩
        · exact fun _ he => by cases he
  · exact fun _ he => by cases he

/-- An answer is the result of a work for the same user and path string, done by somebody. -/
theorem work_behind (h : shopSystem.Reachable ok (freshShop n catalog) c) (ht : t ∈ c.pool)
    (hreq : t.req.endpoint = some (e, r)) (hres : t.prog.result = some (.ok (.response resp))) :
    ∃ u ∈ c.pool, ∃ q own, own <:+ ownCalls u.trace ∧
      Runs (e.work r.userId r.id q) own (.ret ⟨resp.status, resp.body⟩) := by
  have hprog : shopProg t.req = ShopRes.response <$> moneyRoute e.scope e.work r := by
    generalize t.req = req at hreq
    cases req with
    | postBuy r' => cases hreq; rfl
    | postReserve r' => cases hreq; rfl
    | _ => cases hreq
  have hruns := h.runs rfl t ht
  have hend : t.prog = .ret (.response resp) := by
    cases hp : t.prog with
    | ret a => rw [hp] at hres; cases hres; rfl
    | throw err => rw [hp] at hres; cases hres
    | call o k => rw [hp] at hres; cases hres
  rw [show shopSystem.prog t.req = _ from hprog, hend] at hruns
  have hlists : Lists (ShopRes.response <$> moneyRoute e.scope e.work r) []
      (fun out l => ∀ resp : Response, out = .ok (.response resp) →
        (∃ q own, own <:+ ownCalls l ∧
          Runs (e.work r.userId r.id q) own (.ret ⟨resp.status, resp.body⟩)) ∨
        isValidObjectId r.id = true ∧ ∃ rawKey,
          ReadUnder bodyJson (e.key r rawKey) l ⟨resp.status, resp.body⟩) := by
    refine follows_bind.mpr ((lists_moneyRoute e r).mono ?_)
    rintro (err | resp') l hl
    · exact fun _ he => by cases he
    · exact fun resp he => by cases he; exact hl resp' rfl
  have hlisted := hruns.follows hlists
  rw [List.foldr_cons_nil] at hlisted
  rcases hlisted resp rfl with ⟨q, own, hown, hwork⟩ | ⟨hid, rawKey, time, j, rfl, hev⟩
  · exact ⟨t, ht, q, own, hown, hwork⟩
  · obtain ⟨u, hu, e', r', q, rawKey', ⟨-, -, own, hown, hwork⟩, hid', -, hkey⟩ :=
      (sourced h).read t ht time _ _ hev
    have hsame : e.key r rawKey = e'.key r' rawKey' := by simpa [idemKey] using hkey
    obtain ⟨rfl, huser, hpath, -⟩ := key_injective hid hid' hsame
    rw [← huser, ← hpath] at hwork
    exact ⟨u, hu, q, own, hown, hwork⟩

/-- What a work has come to is there. -/
theorem honours_of_work (h : shopSystem.Reachable ok (freshShop n catalog) c) {u : ShopThread}
    (hu : u ∈ c.pool) {user : ObjectId} {id : String} {q : Nat} {v : StoredResult Body}
    {own : List (Event shopSig Err)} (hown : own <:+ ownCalls u.trace)
    (hwork : Runs (e.work user id q) own (.ret v)) :
    v.status = 201 ∧ v.body.productId = id ∧ c.world.2.Honours user v.body := by
  obtain ⟨hstatus, hins⟩ := inserted_of_work hwork
  have hmade : ∀ {time : Nat} {op : ShopOp} {out : Except Err op.Ret}, ⟨time, op, out⟩ ∈ own →
      c.world.2.Landed ⟨time, .inr op, out⟩ := by
    intro time op out hmem
    obtain ⟨rest, pre, heq⟩ := List.append_of_mem hmem
    obtain ⟨tr, htr, -⟩ := suffix_of_own (List.IsSuffix.trans ⟨rest, heq.symm⟩ hown)
    exact landed h u hu _ (htr.subset List.mem_cons_self)
  cases hbody : v.body with
  | order orderId productId quantity remaining =>
    rw [hbody] at hins
    obtain ⟨rfl, rfl, time, price, total, o, rfl, hmem⟩ := hins
    obtain ⟨d, hd, hproduct, huser, hqty⟩ := hmade hmem
    exact ⟨hstatus, rfl, o, d, rfl, hd, huser, hproduct, hqty⟩
  | reservation rid productId quantity expiresAt remaining =>
    rw [hbody] at hins
    obtain ⟨rfl, rfl, time, pid, o, hpid, rfl, hmem⟩ := hins
    obtain ⟨d, hd, hproduct, huser, hqty, hexpiry⟩ := hmade hmem
    exact ⟨hstatus, rfl, o, d, rfl, hd, huser, hpid.trans (congrArg some hproduct.symm), hqty,
      hexpiry⟩

/-- **An answer is honoured.** In every run, whatever fails: once a buy or a reserve is answered, if
only with a replay, the order or the hold that the answer names is there ever after, of the user who
asked and of the product of the path, with the quantity and the deadline of the answer. -/
theorem answers_honoured (h : shopSystem.Reachable ok (freshShop n catalog) c) (ht : t ∈ c.pool)
    (hreq : t.req.endpoint = some (e, r)) (hres : t.prog.result = some (.ok (.response resp))) :
    resp.status = 201 ∧ resp.body.productId = r.id ∧ c.world.2.Honours r.userId resp.body := by
  obtain ⟨u, hu, q, own, hown, hwork⟩ := work_behind h ht hreq hres
  exact honours_of_work h hu hown hwork

end Answers

/-- A buy that asks for two units under the key of an order of one is honoured by that order. -/
theorem answers_honoured_replay :
    ∃ c t resp d, shopSystem.Reachable (fun _ _ => True) (freshShop 0 (oneProduct 5)) c ∧
      t ∈ c.pool ∧ t.req = keyedBuy 2 ∧ t.prog.result = some (.ok (.response resp)) ∧
      resp.replay = some true ∧ c.world.2.order idB = some d ∧ d.userId = idC ∧
      d.quantity = 1 := by
  have hrun : (shopSystem.run (fun _ _ => true) (freshShop 0 (oneProduct 5)) (boughtTwice 2)).map
      (fun c => c.pool.map fun t => (t.req, t.prog.result)) =
      some [(keyedBuy 1, some (.ok (.response
          ⟨201, some false, .order idB.toString idA.toString 1 4⟩))),
        (keyedBuy 2, some (.ok (.response
          ⟨201, some true, .order idB.toString idA.toString 1 4⟩)))] := by decide
  obtain ⟨c, hc, hs⟩ := Option.map_eq_some_iff.mp hrun
  obtain ⟨t₀, ts, hpool, -, hts⟩ := List.map_eq_cons_iff.mp hs
  obtain ⟨t, rest, rfl, ht, -⟩ := List.map_eq_cons_iff.mp hts
  obtain ⟨hreq, hres⟩ := Prod.mk.inj ht
  have hr : shopSystem.Reachable (fun _ _ => True) _ c :=
    (System.Reachable.of_run hc).mono fun _ _ _ => trivial
  have hmem : t ∈ c.pool := by simp [hpool]
  obtain ⟨-, -, o, d, ho, hd, huser, -, hqty⟩ :=
    answers_honoured hr hmem (by rw [hreq]; rfl) hres
  obtain rfl : idB = o := ObjectId.toString_injective ho
  exact ⟨c, t, _, d, hr, hmem, hreq, hres, rfl, hd, huser, hqty⟩

end Flashkart
