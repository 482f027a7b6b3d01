import Flashkart.Shop.Frame

/-!
# Shop.Rules

Proof rules for the shop's programs, for any account of what a thread has done. `shopLogic` is a
logic whose invariant speaks of the shop's stores; a call is `Neutral` in it when neither the
invariant nor the account depends on the part of the stores the call writes. `safe_purchase`,
`safe_reserve` and `safe_moneyRoute` reduce a whole request to one fact a call.
-/

namespace Flashkart

open Async

variable {L G : Type} [AddCommMonoid G]

abbrev ShopLogic (L G : Type) : Type := Logic apiSig Err (IdemKv × Shop) Pick L G

/-- A call on the shop's stores, and what is known after it. -/
abbrev ShopCall (K : ShopLogic L G) (i : Nat) (l : L) (o : ShopOp)
    (R : Except Err o.Ret → L → Prop) : Prop :=
  K.Call i l (.inr o) R

/-- An account moves by the calls on the shop's stores only. -/
def shopPost (post : (o : ShopOp) → Except Err o.Ret → L → L) : Event apiSig Err → L → L
  | ⟨_, .inl _, _⟩, l => l
  | ⟨_, .inr o, out⟩, l => post o out l

def shopLogic (guard : (i : Nat) → L → G → Shop → apiSig.Op → Fate Err Pick → Prop)
    (inv : Shop → G → Prop) (post : (o : ShopOp) → Except Err o.Ret → L → L) (val : L → G) :
    ShopLogic L G where
  store := shopSystem.store
  guard := fun i l g s o f => guard i l g s.world.2 o f
  inv := fun s g => inv s.world.2 g
  post := shopPost post
  val := val

section Calls

variable {guard : (i : Nat) → L → G → Shop → apiSig.Op → Fate Err Pick → Prop}
  {inv : Shop → G → Prop} {post : (o : ShopOp) → Except Err o.Ret → L → L} {val : L → G}
  {i : Nat} {l : L} {o : ShopOp}

/-- What is to be shown of a call on the shop's stores. -/
theorem shop_call {R : Except Err o.Ret → L → Prop}
    (h : ∀ now w g f out w', inv w (val l + g) → guard i l g w (.inr o) f →
      shopStore.exec now i o f w = some (out, w') →
      inv w' (val (post o out l) + g) ∧ R out (post o out l)) :
    ShopCall (shopLogic guard inv post val) i l o R := by
  refine Logic.call_of (fun _ _ _ _ _ => trivial) fun s g f out w' hinv hg hx => ?_
  exact h s.now s.world.2 g f out w'.2 hinv hg (exec_inr hx).1

theorem neutral_shop (hinv : ∀ w w' g, SameExcept o.writes w w' → inv w g → inv w' g)
    (hpost : ∀ out l, post o out l = l) : (shopLogic guard inv post val).Neutral (.inr o) := by
  intro i l
  refine Logic.call_of (fun _ _ _ _ _ => trivial) fun s g f out w' h _ hx => ?_
  have hsame := exec_same (exec_inr (o := o) hx).1
  have hl : (shopLogic guard inv post val).post ⟨s.now, .inr o, out⟩ l = l := hpost out l
  rw [hl]
  exact ⟨hinv _ _ _ hsame h, rfl⟩

theorem neutral_kv (k : KvOp (Cell (StoredResult Body))) :
    (shopLogic guard inv post val).Neutral (.inl k) := by
  intro i l
  refine Logic.call_of (fun _ _ _ _ _ => trivial) fun s g f out w' h _ hx => ?_
  have hw := exec_inl (o := k) hx
  refine ⟨?_, rfl⟩
  show inv w'.2 (val l + g)
  rw [hw]
  exact h

/-- A request that only makes calls of which each is neutral leaves its account as it is. -/
theorem safe_of_may {r : ShopReq} (hr : r.purchases = false)
    (h : ∀ o, r.may o = true → (shopLogic guard inv post val).Neutral (.inr o)) :
    (shopLogic guard inv post val).Safe i (shopProg r) l fun out l' =>
      l' = l ∧ ∀ resp, out ≠ .ok (.response resp) := by
  obtain ⟨α, p, f, hp, hcalls, hf⟩ := shopProg_eq hr
  rw [hp, Prog.map_eq]
  have hneutral : (p.inr : ApiProg α).Calls (shopLogic guard inv post val).Neutral :=
    Prog.calls_inr (hcalls.mono h)
  refine Logic.safe_bind.mpr ((Logic.safe_of_neutral hneutral).mono ?_)
  rintro (e | a) l' rfl
  · exact ⟨rfl, fun _ => nofun⟩
  · exact ⟨rfl, fun resp hresp => hf a resp (Except.ok.inj hresp)⟩

end Calls

/-! ## Requests

`I` is what holds of an account that has taken nothing, `B` of one that has taken the units. -/

def Took (B I : L → Prop) : PurchaseResult → L → Prop
  | .ok _ => B
  | _ => I

/-- `Took`, where what holds afterwards depends on the number of units left. -/
def TookAt (B : Int → L → Prop) (I : L → Prop) : PurchaseResult → L → Prop
  | .ok remaining => B remaining
  | _ => I

theorem tookAt_const {B I : L → Prop} : TookAt (fun _ => B) I = Took B I := by
  funext r
  cases r <;> rfl

def Held (C I : L → Prop) : ReserveResult → L → Prop
  | .held .. => C
  | _ => I

/-- The answer a money endpoint gives for `qty` units under the path string `pid`. -/
def Served (pid : String) (qty : Nat) (C : L → Prop) (v : StoredResult Body) (l : L) : Prop :=
  v.status = 201 ∧ v.body.productId = pid ∧ v.body.quantity = qty ∧ C l

section Requests

open Logic

variable {K : ShopLogic L G} {i : Nat} {l : L} {pid : String} {qty : Nat} {I B C E F : L → Prop}

theorem neutral_keeps {o : ShopOp} (h : K.Neutral (.inr o)) (hC : C l) (hE : E l) :
    ShopCall K i l o (Ends (fun _ => C) E) := by
  refine (h i l).mono ?_
  rintro (e | a) l' rfl
  · exact hE
  · exact hC

theorem safe_inr_of_neutral {α : Type} {p : ShopProg α}
    (h : p.Calls fun o => K.Neutral (.inr o)) : K.Safe i p.inr l fun _ l' => l' = l :=
  safe_of_neutral (Prog.calls_inr h)

/-- An error of the publish is swallowed. -/
theorem safe_publishStockUpdate_of {r : Int} {reason : StockEventReason}
    (h : ShopCall K i l (.publishStockUpdate pid r reason) fun _ => B) :
    K.Safe i (publishStockUpdate pid r reason).inr l fun out l' => B l' ∧ out = .ok () := by
  rw [publishStockUpdate, Prog.inr_tryCatch]
  refine safe_tryCatch.mpr (h.mono ?_)
  rintro (e | u) l' hB
  · exact ⟨hB, rfl⟩
  · exact ⟨hB, rfl⟩

theorem safe_publishStockUpdate {r : Int} {reason : StockEventReason}
    (h : K.Neutral (.inr (.publishStockUpdate pid r reason))) :
    K.Safe i (publishStockUpdate pid r reason).inr l fun out l' => l' = l ∧ out = .ok () :=
  safe_publishStockUpdate_of (h i l)

/-- `purchase` takes stock by one script call, made up to twice, and announces what is left: `O`
holds in between. `E` holds after a script call that failed. -/
theorem safe_purchase_of {D : ProductDoc → Prop} {O B : Int → L → Prop} (hI : I l)
    (hbuy : ∀ l, I l → ShopCall K i l (.buyStock (stockKey pid) qty)
      (Ends (fun r => if r = -2 ∨ r = -1 then I else O r) E))
    (hfind : ∀ l, I l → ShopCall K i l (.productFindById pid) fun out l' =>
      I l' ∧ ∀ d, out = .ok (some d) → D d)
    (hnx : ∀ l d, I l → D d → ShopCall K i l (.setStockNx (stockKey pid) d.stock) fun _ => I)
    (hpub : ∀ r l, O r l →
      ShopCall K i l (.publishStockUpdate pid r .purchase) fun _ => B r) :
    K.Safe i (purchase pid qty).inr l (Ends (TookAt B I) fun l' => I l' ∨ E l') := by
  have hend : ∀ (r : Int) l', (if r = -2 ∨ r = -1 then I else O r) l' →
      K.Safe i (purchaseResult pid r).inr l' (Ends (TookAt B I) fun l' => I l' ∨ E l') := by
    intro r l' h
    unfold purchaseResult
    split
    · rename_i h2; rw [if_pos (.inl h2)] at h; exact h
    · rename_i h2
      split
      · rename_i h1; rw [if_pos (.inr h1)] at h; exact h
      · rename_i h1
        rw [if_neg (fun hr => hr.elim h2 h1)] at h
        rw [Prog.bind_eq, Prog.inr_bind]
        refine safe_bind.mpr ((safe_publishStockUpdate_of (hpub r l' h)).mono ?_)
        rintro out l'' ⟨hB, rfl⟩
        exact hB
  rw [purchase, Prog.bind_eq, Prog.inr_bind]
  refine .inr_op (hbuy l hI) ?_ fun e l' h => .inr h
  intro r l₁ hr
  by_cases h2 : r = -2
  · subst h2
    have h₁ : I l₁ := hr
    rw [if_pos rfl, Prog.bind_eq, Prog.inr_bind, primeFromMongo, Prog.bind_eq, Prog.inr_bind]
    refine safe_bind.mpr (.inr_op (hfind l₁ h₁) ?_ fun e l' h => .inl h.1)
    rintro product l₂ ⟨h₂, hD⟩
    cases product with
    | none => exact h₂
    | some d =>
      dsimp only
      split
      · rw [Prog.bind_eq, Prog.inr_bind]
        refine .inr_op (hnx l₂ d h₂ (hD d rfl)) ?_ fun e l' h => .inl h
        intro set l₃ h₃
        show K.Safe i (Prog.inr ((ShopOp.buyStock (stockKey pid) qty).call.bind _)) _ _
        rw [Prog.inr_bind]
        exact .inr_op (hbuy l₃ h₃) hend fun e l' h => .inr h
      · exact h₂
  · rw [if_neg h2]
    exact hend r l₁ hr

/-- `purchase`, where its announcement does not matter. -/
theorem safe_purchase {D : ProductDoc → Prop} (hI : I l)
    (hbuy : ∀ l, I l → ShopCall K i l (.buyStock (stockKey pid) qty)
      (Ends (fun r => if r = -2 ∨ r = -1 then I else B) E))
    (hfind : ∀ l, I l → ShopCall K i l (.productFindById pid) fun out l' =>
      I l' ∧ ∀ d, out = .ok (some d) → D d)
    (hnx : ∀ l d, I l → D d → ShopCall K i l (.setStockNx (stockKey pid) d.stock) fun _ => I)
    (hpub : ∀ r, K.Neutral (.inr (.publishStockUpdate pid r .purchase))) :
    K.Safe i (purchase pid qty).inr l (Ends (Took B I) fun l' => I l' ∨ E l') := by
  rw [← tookAt_const]
  refine safe_purchase_of hI hbuy hfind hnx fun r l hB => (hpub r i l).mono ?_
  rintro out l' rfl
  exact hB

/-- The stock `reserve` took is either in the record it created, which it announces once more (`C`
before, `D` after), or, by its `catch` block, given back (`F`). -/
theorem safe_reserve_of {uid : Option String} {B C : Int → L → Prop} {D : L → Prop}
    (hpurchase : K.Safe i (purchase pid qty).inr l (Ends (TookAt B I) fun l' => I l' ∨ E l'))
    (hnow : ∀ r l, B r l → ShopCall K i l .dateNow (Ends (fun _ => B r) F))
    (hcreate : ∀ r l p u t, B r l → castObjectId pid = some p →
      ShopCall K i l (.reservationCreate ⟨p, u, qty, .held, t⟩) (Ends (fun _ => C r) (B r)))
    (hpub : ∀ r l, C r l → ShopCall K i l (.publishStockUpdate pid r .reserve) fun _ => D)
    (hback : ∀ r l, B r l → ShopCall K i l (.incrby (stockKey pid) qty) fun _ => F) :
    K.Safe i (reserve pid qty uid).inr l (Ends (Held D I) fun l' => I l' ∨ E l' ∨ F l') := by
  rw [reserve, Prog.bind_eq, Prog.inr_bind]
  refine safe_bind.mpr (hpurchase.mono ?_)
  rintro (e | purchased) l₁ h
  · exact h.imp_right .inl
  cases purchased with
  | soldOut => exact h
  | notFound => exact h
  | ok remaining =>
    dsimp only
    rw [Prog.bind_eq, Prog.inr_bind]
    refine .inr_op (hnow remaining l₁ h) ?_ fun e l' h => .inr (.inr h)
    intro now l₂ h₂
    rw [Prog.inr_tryCatch]
    -- an error inside the `try` block leaves the stock taken
    have hbody : K.Safe i (Prog.inr (createReservation pid qty uid (now + RESERVATION_TTL_MS)))
        l₂ (Ends (fun _ => C remaining) (B remaining)) := by
      unfold createReservation newObjectId
      cases hcast : castObjectId pid with
      | none => exact h₂
      | some p =>
        cases uid with
        | none => exact safe_inr_op (hcreate remaining l₂ p none _ h₂ hcast)
        | some u =>
          simp only [Prog.bind_eq, Prog.ret_bind, Prog.map_eq]
          cases castObjectId u with
          | none => exact h₂
          | some u => exact safe_inr_op (hcreate remaining l₂ p (some u) _ h₂ hcast)
    refine safe_tryCatch.mpr ?_
    rw [Prog.bind_eq, Prog.inr_bind]
    refine safe_bind.mpr (hbody.mono ?_)
    rintro (e | id) l₃ h₃ <;> dsimp only at h₃ ⊢
    · rw [Prog.bind_eq, Prog.inr_bind]
      exact .inr_op (hback remaining l₃ h₃) (fun _ _ h => .inr (.inr h)) fun _ _ h => .inr (.inr h)
    · rw [Prog.bind_eq, Prog.inr_bind]
      refine safe_bind.mpr ((safe_publishStockUpdate_of (hpub remaining l₃ h₃)).mono ?_)
      rintro out l₄ ⟨hD, rfl⟩
      exact hD

/-- `reserve`, where its announcements do not matter. -/
theorem safe_reserve {uid : Option String}
    (hpurchase : K.Safe i (purchase pid qty).inr l (Ends (Took B I) fun l' => I l' ∨ E l'))
    (hnow : ∀ l, B l → ShopCall K i l .dateNow (Ends (fun _ => B) F))
    (hcreate : ∀ l p u t, B l → castObjectId pid = some p →
      ShopCall K i l (.reservationCreate ⟨p, u, qty, .held, t⟩) (Ends (fun _ => C) B))
    (hpub : ∀ r, K.Neutral (.inr (.publishStockUpdate pid r .reserve)))
    (hback : ∀ l, B l → ShopCall K i l (.incrby (stockKey pid) qty) fun _ => F) :
    K.Safe i (reserve pid qty uid).inr l (Ends (Held C I) fun l' => I l' ∨ E l' ∨ F l') := by
  rw [← tookAt_const] at hpurchase
  refine safe_reserve_of hpurchase (fun _ => hnow) (fun _ => hcreate) ?_ fun _ => hback
  intro r l hC
  refine (hpub r i l).mono ?_
  rintro out l' rfl
  exact hC

theorem safe_doReserve {uid : ObjectId}
    (h : K.Safe i (reserve pid qty (some uid.toString)).inr l
      (Ends (Held C I) fun l' => I l' ∨ E l')) :
    K.Safe i (doReserve uid pid qty).inr l (Ends (Served pid qty C) fun l' => I l' ∨ E l') := by
  rw [doReserve, Prog.bind_eq, Prog.inr_bind]
  refine safe_bind.mpr (h.mono ?_)
  rintro (e | r) l₁ h
  · exact h
  cases r with
  | held id t r => exact ⟨rfl, rfl, rfl, h⟩
  | soldOut => exact .inl h
  | notFound => exact .inl h

/-- The stock `doPurchase` took is in the order it created (`C`), if its calls go well. -/
theorem safe_doPurchase {uid : ObjectId}
    (hpurchase : K.Safe i (purchase pid qty).inr l (Ends (Took B I) fun l' => I l' ∨ E l'))
    (hfind : ∀ l, B l → ShopCall K i l (.productFindById pid) (Ends (fun _ => B) F))
    (hcreate : ∀ l price total, B l →
      ShopCall K i l (.orderCreate ⟨uid, pid, qty, price, total, .pending⟩) (Ends (fun _ => C) F))
    (hadd : ∀ oid, K.Neutral (.inr (.addJob .ordersProcess oid))) :
    K.Safe i (doPurchase uid pid qty).inr l
      (Ends (Served pid qty C) fun l' => I l' ∨ E l' ∨ F l') := by
  rw [doPurchase, Prog.bind_eq, Prog.inr_bind]
  refine safe_bind.mpr (hpurchase.mono ?_)
  rintro (e | purchased) l₁ h
  · exact h.imp_right .inl
  cases purchased with
  | soldOut => exact .inl h
  | notFound => exact .inl h
  | ok remaining =>
    dsimp only
    rw [Prog.bind_eq, Prog.inr_bind]
    refine .inr_op (hfind l₁ h) ?_ fun e l' h => .inr (.inr h)
    intro product l₂ h₂
    rw [Prog.bind_eq, Prog.inr_bind]
    refine .inr_op (hcreate l₂ _ _ h₂) ?_ fun e l' h => .inr (.inr h)
    intro oid l₃ hC
    rw [Prog.bind_eq, Prog.inr_bind, Prog.inr_tryCatch]
    refine safe_bind.mpr (safe_tryCatch.mpr ((hadd oid.toString i l₃).mono ?_))
    rintro (e | u) l₄ rfl <;> exact ⟨rfl, rfl, rfl, hC⟩

/-- The two ways to a response: the work was done by this request, or a stored result was
replayed and nothing done. -/
theorem safe_moneyRoute {scope : String} {req : BuyRequest}
    {work : ObjectId → String → Nat → ShopProg (StoredResult Body)} {C : Nat → L → Prop}
    (hI : I l) (hkv : ∀ k, K.Neutral (.inl k))
    (hwork : ∀ q, buyBodySchema req.body = some q →
      K.Safe i (work req.userId req.id q).inr l
        (Ends (Served req.id q (C q)) fun l' => I l' ∨ E l'))
    (hset : ∀ key (v : StoredResult Body) q l', C q l' →
      K.Call i l' (.inl (.set (idemKey key) (.result (bodyJson.stringify v)) RESULT_TTL_SECONDS))
        fun out l'' => l'' = l' ∧ ∀ e, out = .error e → F l') :
    K.Safe i (moneyRoute scope work req) l
      (Ends (fun r l' => (r.replay = some true ∧ I l') ∨ (r.replay ≠ some true ∧
          Served req.id r.body.quantity (C r.body.quantity) ⟨r.status, r.body⟩ l'))
        fun l' => I l' ∨ E l' ∨ F l') := by
  unfold moneyRoute
  split
  · split
    · exact .inl hI
    · rename_i q hq
      split
      · rw [Prog.bind_eq]
        refine safe_bind.mpr ((hwork q hq).mono ?_)
        rintro (e | v) l' h
        · exact h.imp_right .inl
        · obtain ⟨hs, hp, rfl, hC⟩ := h
          exact .inr ⟨by simp, hs, hp, rfl, hC⟩
      · split
        · refine safe_bind.mpr ((safe_withIdempotency (E := F) hkv (hwork q hq) ?_).mono ?_)
          · rintro v l' ⟨-, -, -, hC⟩
            exact hset _ v q l' hC
          · rintro (e | v) l' h
            · rcases h with rfl | ⟨_, h⟩ | h
              · exact .inl hI
              · exact h.imp_right .inl
              · exact .inr (.inr h)
            · by_cases hrep : v.replayed = true
              · simp only [hrep, if_true] at h
                subst h
                exact .inl ⟨by simp [hrep], hI⟩
              · simp only [hrep] at h
                obtain ⟨hs, hp, rfl, hC⟩ := h
                exact .inr ⟨by simpa using hrep, hs, hp, rfl, hC⟩
        · exact .inl hI
  · exact .inl hI

end Requests

end Flashkart
