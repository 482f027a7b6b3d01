import Flashkart.Async.Moments
import Flashkart.Async.Serial
import Flashkart.Shop.Jobs
import Flashkart.Shop.Oversell
import Flashkart.Wrap

/-!
# Shop.Listing

Whether what is sold is listed in the catalog, and sold at its price. The catalog may change at any
time. `purchase` looks at it on the way to create a counter only, and `/buy` reads the price after
it has the units.

* `asListed`       — a purchase that finds its counter is for a listed product, and the product is
  still there when its price is read.
* `sold_as_listed` — a run of such steps sells listed products only, at a price of the catalog.
* `same_paths`     — with and without a counter, a purchase ends in the same way just when the
  product is listed.
-/

namespace Flashkart

open Async

/-- The product is in the catalog, and active. -/
def Shop.lists (w : Shop) (o : ObjectId) : Bool := (w.products o).any (·.active)

/-- The script took the units. -/
def tookUnits : Event shopSig Err → Bool
  | ⟨_, .buyStock .., .ok r⟩ => r != -1 && r != -2
  | _ => false

/-- A purchase whose first script call finds the counter is for a listed product, and a product
that has been bought is in the catalog when its price is read. -/
def asListed (c : ShopConfig) : ShopAct → Bool
  | .call i (.answered _) =>
    (c.pool[i]?).all fun t =>
      match t.prog.next with
      | some (.inr (.buyStock key _)) =>
        !(ownCalls t.trace).isEmpty || (c.world.2.stock key).isNone ||
          (stockKeyProduct key).any c.world.2.lists
      | some (.inr (.productFindById id)) =>
        !(ownCalls t.trace).any tookUnits || ((castObjectId id).bind c.world.2.products).isSome
      | _ => true
  | _ => true

/-! ## What the programs do -/

section Programs

variable {ready : List (Event shopSig Err) → shopSig.Op → Prop} {own : List (Event shopSig Err)}
  {pid : String} {qty : Nat}

/-- How a purchase came by its units: its first script call found the counter, or it read the
product as active. -/
def Acquired (pid : String) (qty : Nat) (own : List (Event shopSig Err)) : Prop :=
  own.any tookUnits = true ∧
    ((∃ time r, [⟨time, .buyStock (stockKey pid) qty, .ok r⟩] <:+ own ∧ r ≠ -2) ∨
      ∃ time d rest, ⟨time, .productFindById pid, .ok (some d)⟩ :: rest <:+ own ∧ d.active = true)

theorem Acquired.suffix {own' : List (Event shopSig Err)} (h : Acquired pid qty own)
    (hs : own <:+ own') : Acquired pid qty own' := by
  obtain ⟨htook, h⟩ := h
  refine ⟨?_, ?_⟩
  · obtain ⟨e, he, htook⟩ := List.any_eq_true.mp htook
    exact List.any_eq_true.mpr ⟨e, hs.subset he, htook⟩
  · rcases h with ⟨time, r, h, hr⟩ | ⟨time, d, rest, h, hd⟩
    · exact .inl ⟨time, r, h.trans hs, hr⟩
    · exact .inr ⟨time, d, rest, h.trans hs, hd⟩

theorem follows_publish {remaining : Int} {reason : StockEventReason}
    (h : ∀ l o, purchaseMay o = true → ready l o) :
    Follows ready List.cons (publishStockUpdate pid remaining reason) own fun out own' =>
      out = .ok () ∧ own <:+ own' := by
  refine follows_tryCatch.mpr (follows_op.mpr ⟨h _ _ rfl, fun time out => ?_⟩)
  cases out with
  | error e => exact ⟨rfl, List.suffix_cons _ _⟩
  | ok u => exact ⟨rfl, List.suffix_cons _ _⟩

/-- The end of a purchase, from the answer of its last script call on. -/
theorem follows_purchaseResult {r : Int} (h : ∀ l o, purchaseMay o = true → ready l o)
    (hown : r ≠ -2 → r ≠ -1 → Acquired pid qty own) :
    Follows ready List.cons (purchaseResult pid r) own fun out own' =>
      ∀ n, out = .ok (.ok n) → Acquired pid qty own' := by
  unfold purchaseResult
  split
  · exact fun n hn => by cases hn
  · split
    · exact fun n hn => by cases hn
    · rename_i h2 h1
      refine follows_bind.mpr ((follows_publish h).mono ?_)
      rintro (e | u) own' ⟨hout, hs⟩
      · cases hout
      · exact fun n _ => (hown h2 h1).suffix hs

theorem follows_purchase (h : ∀ l o, purchaseMay o = true → ready l o) (pid : String) (qty : Nat) :
    Follows ready List.cons (purchase pid qty) [] fun out own =>
      ∀ n, out = .ok (.ok n) → Acquired pid qty own := by
  have herr : ∀ (e : Err) own n, Except.error e = Except.ok (PurchaseResult.ok n) →
      Acquired pid qty own := fun _ _ _ h => by cases h
  rw [purchase]
  refine follows_bind.mpr (follows_op.mpr ⟨h _ _ rfl, fun t₁ out => ?_⟩)
  cases out with
  | error e => exact herr e _
  | ok r₁ =>
    dsimp only
    split
    · -- the counter is missing
      refine follows_bind.mpr (follows_bind.mpr (follows_op.mpr ⟨h _ _ rfl, fun t₂ out => ?_⟩))
      rcases out with e | _ | d
      · exact herr e _
      · exact fun n hn => by cases hn
      · dsimp only
        split
        · rename_i hd
          refine follows_bind.mpr (follows_op.mpr ⟨h _ _ rfl, fun t₃ out => ?_⟩)
          cases out with
          | error e => exact herr e _
          | ok set =>
            refine follows_bind.mpr (follows_op.mpr ⟨h _ _ rfl, fun t₄ out => ?_⟩)
            cases out with
            | error e => exact herr e _
            | ok r₂ =>
              refine follows_purchaseResult h fun h2 h1 => ⟨?_, .inr ⟨t₂, d,
                [⟨t₁, .buyStock (stockKey pid) qty, .ok r₁⟩], ⟨[_, _], rfl⟩, hd⟩⟩
              simp [tookUnits, h1, h2]
        · exact fun n hn => by cases hn
    · rename_i hr
      refine follows_purchaseResult h fun h2 h1 => ⟨?_, .inl ⟨t₁, r₁, List.suffix_refl _, hr⟩⟩
      simp [tookUnits, h1, h2]

/-- Whatever a program does adds to its calls. -/
theorem follows_suffix {α : Type} (p : ShopProg α) :
    Follows (fun _ _ => True) List.cons p own fun _ own' => own <:+ own' := by
  induction p generalizing own with
  | ret a => exact List.suffix_refl _
  | throw e => exact List.suffix_refl _
  | call o k ih =>
    exact ⟨trivial, fun time out => (ih out).mono fun _ _ hs => (List.suffix_cons _ _).trans hs⟩

theorem follows_reserve (pid : String) (qty : Nat) (uid : Option String) :
    Follows (fun _ _ => True) List.cons (reserve pid qty uid) [] fun out own =>
      ∀ id expiresAt n, out = .ok (.held id expiresAt n) → Acquired pid qty own := by
  have herr : ∀ (e : Err) (own : List (Event shopSig Err)) id expiresAt n,
      Except.error e = Except.ok (ReserveResult.held id expiresAt n) → Acquired pid qty own :=
    fun _ _ _ _ _ h => by cases h
  refine follows_bind.mpr ((follows_purchase (fun _ _ _ => trivial) pid qty).mono
    fun out own hacq => ?_)
  rcases out with e | n | _ | _
  · exact herr e own
  · -- whatever follows, the units were acquired as the purchase says
    refine (follows_suffix _).mono fun out own' hs id expiresAt m _ => (hacq n rfl).suffix hs
  · exact fun id expiresAt n h => by cases h
  · exact fun id expiresAt n h => by cases h

/-- A buy after its purchase: the price is read, the order is made with it, and its job is added. -/
theorem follows_doPurchase_of {A : Type} {ready : A → ShopOp → Prop} {K : A → Prop}
    {post : Event shopSig Err → A → A} {l : A} {uid : ObjectId} {id : String} {qty : Nat}
    (hpurchase : Follows ready post (purchase id qty) l fun out l' => ∀ n, out = .ok (.ok n) → K l')
    (hfind : ∀ l, K l → ready l (.productFindById id))
    (hcreate : ∀ l time product, K l → ready (post ⟨time, .productFindById id, .ok product⟩ l)
      (.orderCreate ⟨uid, id, qty, (product.map (·.pricePaise)).getD 0,
        (product.map (·.pricePaise)).getD 0 * qty, .pending⟩))
    (hjob : ∀ l inp time oid, ready (post ⟨time, .orderCreate inp, .ok oid⟩ l)
      (.addJob .ordersProcess oid.toString)) :
    Follows ready post (doPurchase uid id qty) l fun _ _ => True := by
  rw [doPurchase]
  refine follows_bind.mpr (hpurchase.mono fun out l hpurchased => ?_)
  rcases out with e | n | _ | _
  · trivial
  · have hK := hpurchased n rfl
    refine follows_bind.mpr (follows_op.mpr ⟨hfind l hK, fun t₁ out => ?_⟩)
    cases out with
    | error e => trivial
    | ok product =>
      refine follows_bind.mpr (follows_op.mpr ⟨hcreate l t₁ product hK, fun t₂ out => ?_⟩)
      cases out with
      | error e => trivial
      | ok oid =>
        refine follows_bind.mpr (follows_tryCatch.mpr (follows_op.mpr
          ⟨hjob _ _ t₂ oid, fun _ out => ?_⟩))
        cases out <;> trivial
  · trivial
  · trivial

/-- The insert of `/buy` follows the read of its price, and the price is what was read. -/
def PriceRead (uid : ObjectId) (id : String) (qty : Nat) (own : List (Event shopSig Err)) :
    ShopOp → Prop
  | .orderCreate inp => ∃ time product before,
    own = ⟨time, .productFindById id, .ok product⟩ :: before ∧ before.any tookUnits = true ∧
      inp = ⟨uid, id, qty, (product.map (·.pricePaise)).getD 0,
        (product.map (·.pricePaise)).getD 0 * qty, .pending⟩
  | _ => True

theorem follows_doPurchase (uid : ObjectId) (id : String) (qty : Nat) :
    Follows (PriceRead uid id qty) List.cons (doPurchase uid id qty) [] fun _ _ => True := by
  have hmay : ∀ l o, purchaseMay o = true → PriceRead uid id qty l o := by
    intro l o ho
    cases o <;> trivial
  refine follows_doPurchase_of (K := fun own => own.any tookUnits = true)
    ((follows_purchase hmay id qty).mono fun out own hacq n h => (hacq n h).1)
    (fun _ _ => trivial) ?_ (fun _ _ _ _ => trivial)
  exact fun own time product htook => ⟨time, product, own, rfl, htook, rfl⟩

end Programs

/-! ## Runs -/

/-- The thread has begun the call `q`, and not ended it. -/
def Underway {β : Type} (q : ShopProg β) (t : ShopThread) : Prop :=
  ∃ p, Runs q (ownCalls t.trace) p ∧ p.result = none

/-- The call `q` of the thread has returned `b`. -/
def Returned {β : Type} (q : ShopProg β) (t : ShopThread) (b : β) : Prop :=
  ∃ own, own <:+ ownCalls t.trace ∧ Runs q own (.ret b)

section Runs

variable {now : Nat} {catalog : ObjectId → Option ProductDoc} {as : List ShopAct} {c : ShopConfig}
  {t : ShopThread} {i : Nat}

/-- The moment at which a call of the shop was made. -/
theorem moment_of_own {ok : ShopConfig → ShopAct → Bool}
    (h : shopSystem.run ok (freshShop now catalog) as = some c) (ht : c.pool[i]? = some t)
    {e : Event shopSig Err} {rest : List (Event shopSig Err)}
    (he : e :: rest <:+ ownCalls t.trace) :
    ∃ c₁ f u w, shopSystem.Moment ok (freshShop now catalog) as c₁ ∧ ok c₁ (.call i f) = true ∧
      c₁.pool[i]? = some u ∧ ownCalls u.trace = rest ∧ u.prog.next = some (.inr e.op) ∧
      shopStore.exec c₁.now u.id e.op f c₁.world.2 = some (e.out, w) := by
  obtain ⟨tr', hsuffix, hrest⟩ := suffix_of_own he
  obtain ⟨c₁, f, u, w, hmoment, hok, hu, -, htr, hnext, hx⟩ := System.run_event h rfl ht hsuffix
  exact ⟨c₁, f, u, w.2, hmoment, hok, hu, by rw [htr, hrest], hnext, (exec_inr hx).1⟩

/-- Who acquired units was under way when the product was listed. -/
theorem listed_of_acquired {β : Type} {q : ShopProg β} {b : β} {pid : String} {qty : Nat}
    {own : List (Event shopSig Err)}
    (h : shopSystem.run asListed (freshShop now catalog) as = some c) (ht : c.pool[i]? = some t)
    (hown : own <:+ ownCalls t.trace) (hruns : Runs q own (.ret b)) (hacq : Acquired pid qty own) :
    ∃ o c₁ u, shopSystem.Moment asListed (freshShop now catalog) as c₁ ∧ c₁.pool[i]? = some u ∧
      Underway q u ∧ castObjectId pid = some o ∧ c₁.world.2.lists o = true := by
  have hunderway : ∀ {e : Event shopSig Err} {u : ShopThread}, e :: ownCalls u.trace <:+ own →
      Underway q u := by
    intro e u hs
    obtain ⟨q', hq'⟩ := hruns.suffix hs
    obtain ⟨k, hk⟩ := hq'.at_call
    exact ⟨_, hk, rfl⟩
  rcases hacq.2 with ⟨time, r, hs, hr⟩ | ⟨time, d, rest, hs, hd⟩
  · obtain ⟨c₁, f, u, w, hmoment, hok, hu, hrest, hnext, hx⟩ := moment_of_own h ht (hs.trans hown)
    rcases Store.exec_cases hx with ⟨p, a, rfl, hx, ha⟩ | ⟨e, -, -, he⟩ | ⟨e, p, a, -, -, he⟩
    · obtain rfl := Except.ok.inj ha
      have hprimed : c₁.world.2.stock (stockKey pid) ≠ none := by
        intro hnone
        obtain ⟨hr', -⟩ := Prod.mk.inj (Option.some.inj hx)
        rw [BUY_LUA, hnone] at hr'
        exact hr hr'.symm
      simp only [asListed, hu, Option.all_some, hnext, hrest, List.isEmpty_nil, Bool.not_true,
        Bool.false_or, Bool.or_eq_true, Option.isNone_iff_eq_none, stockKeyProduct_stockKey] at hok
      obtain ⟨o, ho, hlists⟩ := (Option.any_eq_true _ _).mp (hok.resolve_left hprimed)
      exact ⟨o, c₁, u, hmoment, hu, hunderway (hrest ▸ hs), ho, hlists⟩
    · cases he
    · cases he
  · obtain ⟨c₁, f, u, w, hmoment, hok, hu, hrest, hnext, hx⟩ := moment_of_own h ht (hs.trans hown)
    rcases Store.exec_cases hx with ⟨p, a, rfl, hx, ha⟩ | ⟨e, -, -, he⟩ | ⟨e, p, a, -, -, he⟩
    · obtain rfl := Except.ok.inj ha
      obtain ⟨product, hfind, heq⟩ := Option.map_eq_some_iff.mp hx
      obtain ⟨rfl, rfl⟩ := Prod.mk.inj heq
      obtain ⟨o, ho, hproduct⟩ := Option.map_eq_some_iff.mp hfind
      refine ⟨o, c₁, u, hmoment, hu, hunderway (hrest ▸ hs), ho, ?_⟩
      rw [Shop.lists, hproduct]
      exact hd
    · cases he
    · cases he

/-! ### Orders -/

/-- The insert `inp` makes such an order; what is said here of an order never changes. -/
def OrderDoc.OfInput (d : OrderDoc) (inp : OrderInput) : Prop :=
  castObjectId inp.productId = some d.productId ∧ inp.userId = d.userId ∧
    inp.quantity = d.quantity ∧ inp.unitPricePaise = d.unitPricePaise ∧ inp.totalPaise = d.totalPaise

theorem orders_store {n i : Nat} {op : ShopOp} {q : Pick} {w w' : Shop} {a : op.Ret}
    (h : shopStore n i op q w = some (a, w')) {d' : OrderDoc} (hd' : d' ∈ w'.orders) :
    (∃ d ∈ w.orders, ∀ inp, d.OfInput inp → d'.OfInput inp) ∨
      ∃ inp, op = .orderCreate inp ∧ d'.OfInput inp := by
  cases op with
  | orderCreate inp =>
    simp only [shopStore] at h
    split at h
    · cases h
    · rename_i pid hpid
      split at h
      · cases h
      · cases h
        rcases List.mem_append.mp hd' with hd' | hd'
        · exact .inl ⟨d', hd', fun _ h => h⟩
        · rw [List.mem_singleton.mp hd']
          exact .inr ⟨inp, rfl, hpid, rfl, rfl, rfl, rfl⟩
  | orderSave id m =>
    cases h
    obtain ⟨d, hd, rfl⟩ := List.mem_map.mp hd'
    refine .inl ⟨d, hd, fun inp h => ?_⟩
    split
    · exact h
    · exact h
  | orderFindOneAndUpdate id src dst reason =>
    obtain ⟨⟨r, docs⟩, hr, h⟩ := Option.map_eq_some_iff.mp h
    cases h
    rcases Collection.findOneAndUpdate_cases hr with ⟨d, hd, -, -, rfl⟩ | ⟨-, rfl, -⟩
    · rcases List.mem_or_eq_of_mem_set hd' with hd' | rfl
      · exact .inl ⟨d', hd', fun _ h => h⟩
      · exact .inl ⟨d, List.mem_of_getElem? hd, fun _ h => h⟩
    · exact .inl ⟨d', hd', fun _ h => h⟩
  | _ =>
    rw [(shopStore_same h).orders (fun he => by cases he)] at hd'
    exact .inl ⟨d', hd', fun _ h => h⟩

/-- Every order was inserted by a call of some thread. -/
theorem inserted {ok : System.Guard apiSig Err ShopReq ShopRes (IdemKv × Shop) Pick ShopEnv}
    (h : shopSystem.Reachable ok (freshShop now catalog) c) {d : OrderDoc}
    (hd : d ∈ c.world.2.orders) :
    ∃ (i : Nat) (t : ShopThread) (time : Nat) (inp : OrderInput) (out : Except Err ObjectId),
      c.pool[i]? = some t ∧ d.OfInput inp ∧ ⟨time, .inr (.orderCreate inp), out⟩ ∈ t.trace := by
  let I : ShopConfig → Prop := fun c => ∀ d ∈ c.world.2.orders,
    ∃ (i : Nat) (t : ShopThread) (time : Nat) (inp : OrderInput) (out : Except Err ObjectId),
      c.pool[i]? = some t ∧ d.OfInput inp ∧ ⟨time, .inr (.orderCreate inp), out⟩ ∈ t.trace
  refine h.invariant (I := I) (fun d hd => by cases hd) ?_ d hd
  clear d hd
  intro c a c' hr ih hok hs d' hd'
  have hlater : shopSystem.Reachable ok c c' := .step .init hok hs
  -- an order of before the step, or one that differs from it in nothing said here
  have hold : ∀ {d}, d ∈ c.world.2.orders → (∀ inp, d.OfInput inp → d'.OfInput inp) →
      ∃ (i : Nat) (t : ShopThread) (time : Nat) (inp : OrderInput) (out : Except Err ObjectId),
        c'.pool[i]? = some t ∧ d'.OfInput inp ∧ ⟨time, .inr (.orderCreate inp), out⟩ ∈ t.trace := by
    intro d hd hsame
    obtain ⟨i, t, time, inp, out, ht, hinp, he⟩ := ih d hd
    obtain ⟨t', ht', -, htr⟩ := (hlater.later.2 i).1 t ht
    exact ⟨i, t', time, inp, out, ht', hsame inp hinp, htr.subset he⟩
  cases a with
  | arrive r =>
    obtain ⟨w', hw, rfl⟩ := Option.map_eq_some_iff.mp hs
    have hsame := (accept_same hw).2.orders fun he => by cases he
    exact hold (hsame ▸ hd') fun _ h => h
  | call j f =>
    obtain ⟨m, r, op, k, tr, out, w', hp, hx, rfl⟩ := System.callStep_eq_some hs
    rcases call_effect hx with heq | ⟨op, q, a, rfl, h'⟩
    · exact hold (congrArg Shop.orders heq ▸ hd') fun _ h => h
    · rcases orders_store h' hd' with ⟨d, hd, hsame⟩ | ⟨inp, rfl, hinp⟩
      · exact hold hd hsame
      · have hlt := (List.getElem?_eq_some_iff.mp hp).1
        exact ⟨j, _, c.now, inp, out, List.getElem?_set_self hlt, hinp, List.mem_cons_self ..⟩
  | tick d => cases hs; exact hold hd' fun _ h => h
  | env e =>
    obtain ⟨w', hw, rfl⟩ := Option.map_eq_some_iff.mp hs
    obtain ⟨s, he, rfl⟩ := Option.map_eq_some_iff.mp hw
    exact hold ((surroundings_same he).1.orders ▸ hd') fun _ h => h

theorem wraps_postBuy (r : BuyRequest) :
    ∃ qty, Wraps (doPurchase r.userId r.id qty) (shopProg (.postBuy r)) := by
  have hthrow : ∀ err : Err, ∃ qty, Wraps (doPurchase r.userId r.id qty)
      (ShopRes.response <$> (.throw err : ApiProg Response)) := fun _ => ⟨0, trivial⟩
  simp only [shopProg, postBuy, moneyRoute]
  split
  · split
    · exact hthrow _
    · rename_i qty _
      split
      · exact ⟨qty, wraps_bind (wraps_bind (wraps_inr _) fun _ _ => trivial) fun _ _ => trivial⟩
      · split
        · exact ⟨qty, wraps_bind (wraps_bind (wraps_withIdempotency _ _ _) fun _ _ => trivial)
            fun _ _ => trivial⟩
        · exact hthrow _
  · exact hthrow _

/-- Before it inserts an order a request has read the price. -/
theorem priceRead {ok : System.Guard apiSig Err ShopReq ShopRes (IdemKv × Shop) Pick ShopEnv}
    (h : shopSystem.Reachable ok (freshShop now catalog) c) (ht : t ∈ c.pool) {time : Nat}
    {inp : OrderInput} {out : Except Err ObjectId}
    (he : ⟨time, .inr (.orderCreate inp), out⟩ ∈ t.trace) :
    ∃ r qty own, t.req = .postBuy r ∧ own <:+ ownCalls t.trace ∧
      PriceRead r.userId r.id qty own (.orderCreate inp) := by
  have hmay : t.req.may (.orderCreate inp) = true := h.traces calls_shopProg rfl t ht _ he
  obtain ⟨tr', tr, htrace⟩ := List.append_of_mem he
  cases hreq : t.req with
  | postBuy r =>
    obtain ⟨qty, hwraps⟩ := wraps_postBuy r
    have hruns := h.runs rfl t ht
    rw [hreq] at hruns
    obtain ⟨q', hq', -⟩ := hwraps.runs hruns
    have hown : ownCalls ((⟨time, .inr (.orderCreate inp), out⟩ : Event apiSig Err) :: tr) <:+
        ownCalls t.trace := by
      rw [htrace]
      exact (List.suffix_append tr' _).filterMap _
    have hown : (⟨time, .orderCreate inp, out⟩ : Event shopSig Err) :: ownCalls tr <:+
        ownCalls t.trace := hown
    obtain ⟨q₁, hq₁⟩ := hq'.suffix hown
    obtain ⟨k, hk⟩ := hq₁.at_call
    have hready := hk.follows (follows_doPurchase r.userId r.id qty)
    rw [List.foldr_cons_nil] at hready
    exact ⟨r, qty, ownCalls tr, rfl, (List.suffix_cons _ _).trans hown, hready.1⟩
  | deliver j queue oid =>
    rw [hreq] at hmay
    cases queue <;> cases hmay
  | _ =>
    rw [hreq] at hmay
    cases hmay

/-! ### The two paths of a purchase -/

/-- A purchase that has the shop to itself can return `r`. -/
def Buys (w : Shop) (pid : String) (qty : Nat) (r : PurchaseResult) : Prop :=
  ∃ w', Exec shopStore 0 0 (purchase pid qty) w (.ok r) w'

/-- The shop as it would be without the counter of `pid`, its `units` being in the catalog. -/
def Shop.unprimed (w : Shop) (pid : String) (o : ObjectId) (units : Nat) : Shop :=
  { w with
    stock := Function.update w.stock (stockKey pid) none
    products := Function.update w.products o
      ((w.products o).map fun d => { d with stock := units }) }

/-- What a purchase of `qty` units comes to when there are `units`. -/
def takes (units qty : Nat) : PurchaseResult :=
  if units < qty then .soldOut else .ok (units - qty)

section Paths

variable {w : Shop} {pid : String} {o : ObjectId} {units qty : Nat} {r : PurchaseResult}

/-- A call that leaves the store no choice. -/
theorem exec_op {op : ShopOp} {k : op.Ret → ShopProg PurchaseResult} {a : op.Ret} {w₁ : Shop}
    (h : ∀ q, shopStore 0 0 op q w = some (a, w₁)) :
    (∃ w', Exec shopStore 0 0 (op.call.bind k) w (.ok r) w') ↔
      ∃ w', Exec shopStore 0 0 (k a) w₁ (.ok r) w' := by
  refine exists_congr fun w' => Exec.op_iff.trans ⟨?_, fun hk => ⟨⟨0, idA⟩, a, w₁, h _, hk⟩⟩
  rintro ⟨q, a', w₂, hx, hk⟩
  cases (h q).symm.trans hx
  exact hk

theorem exec_publish {remaining : Int} {reason : StockEventReason} {out : Except Err Unit}
    {w' : Shop} : Exec shopStore 0 0 (publishStockUpdate pid remaining reason) w out w' ↔
      out = .ok () ∧ w' = { w with outbox := w.outbox ++ [⟨pid, remaining, reason, 0⟩] } := by
  refine Exec.tryCatch_iff.trans ⟨?_, ?_⟩
  · rintro (⟨a, hcall, rfl⟩ | ⟨e, w₁, hcall, -⟩)
    · obtain ⟨q, a', w₁, hx, hret⟩ := Exec.call_iff.mp hcall
      cases hx
      exact ⟨rfl, (Exec.ret_iff.mp hret).2⟩
    · obtain ⟨q, a', w₁, hx, hret⟩ := Exec.call_iff.mp hcall
      cases (Exec.ret_iff.mp hret).1
  · rintro ⟨rfl, rfl⟩
    exact .inl ⟨(), Exec.call_iff.mpr ⟨⟨0, idA⟩, (), _, rfl, .ret⟩, rfl⟩

theorem exec_ret {b : PurchaseResult} :
    (∃ w', Exec shopStore 0 0 (.ret b : ShopProg PurchaseResult) w (.ok r) w') ↔ r = b := by
  simp only [Exec.ret_iff, Except.ok.injEq, exists_eq_right]

theorem exec_purchaseResult {v : Int} :
    (∃ w', Exec shopStore 0 0 (purchaseResult pid v) w (.ok r) w') ↔
      r = if v = -2 then .notFound else if v = -1 then .soldOut else .ok v := by
  unfold purchaseResult
  split
  · exact exec_ret
  · split
    · exact exec_ret
    · constructor
      · rintro ⟨w', h⟩
        rcases Exec.bind_iff.mp h with ⟨u, w₁, -, h⟩ | ⟨e, -, he⟩
        · exact exec_ret.mp ⟨w', h⟩
        · cases he
      · rintro rfl
        exact ⟨_, Exec.bind_iff.mpr (.inl ⟨(), _, exec_publish.mpr ⟨rfl, rfl⟩, .ret⟩)⟩

/-- The script on a counter that is there, and what follows its answer. -/
theorem exec_script {k : Int → ShopProg PurchaseResult}
    (h : w.stock (stockKey pid) = some (units : Int)) (hk : ∀ v, v ≠ -2 → k v = purchaseResult pid v) :
    (∃ w', Exec shopStore 0 0 ((ShopOp.buyStock (stockKey pid) qty).call.bind k) w (.ok r) w') ↔
      r = takes units qty := by
  rcases BUY_LUA_cases w.stock (stockKey pid) qty with ⟨hnone, -⟩ | ⟨n, hn, hlt, hlua⟩ |
    ⟨n, hn, hle, hlua⟩
  · rw [hnone] at h
    cases h
  · obtain rfl := Option.some.inj (hn.symm.trans h)
    have hx : ∀ q, shopStore 0 0 (.buyStock (stockKey pid) qty) q w = some (-1, w) := by
      intro q
      simp only [shopStore, hlua]
    rw [exec_op hx, hk _ (by omega), exec_purchaseResult, if_neg (by omega), if_pos rfl, takes,
      if_pos (by omega)]
  · obtain rfl := Option.some.inj (hn.symm.trans h)
    have hx : ∀ q, shopStore 0 0 (.buyStock (stockKey pid) qty) q w = some ((units - qty : Int),
        { w with stock := Function.update w.stock (stockKey pid) (some (units - qty)) }) := by
      intro q
      simp only [shopStore, hlua]
    rw [exec_op hx, hk _ (by omega), exec_purchaseResult, if_neg (by omega), if_neg (by omega),
      takes, if_neg (by omega)]

theorem buys_primed (h : w.stock (stockKey pid) = some (units : Int)) :
    Buys w pid qty r ↔ r = takes units qty := by
  rw [Buys, purchase]
  exact exec_script h fun v hv => if_neg hv

theorem buys_unprimed (ho : castObjectId pid = some o) :
    Buys (w.unprimed pid o units) pid qty r ↔
      r = if w.lists o then takes units qty else .notFound := by
  have hnone : (w.unprimed pid o units).stock (stockKey pid) = none := Function.update_self ..
  have hbuy : ∀ q, shopStore 0 0 (.buyStock (stockKey pid) qty) q (w.unprimed pid o units) =
      some (-2, w.unprimed pid o units) := by
    intro q
    simp only [shopStore, BUY_LUA, hnone]
  have hfind : ∀ q, shopStore 0 0 (.productFindById pid) q (w.unprimed pid o units) =
      some ((w.products o).map fun d => { d with stock := units }, w.unprimed pid o units) := by
    intro q
    simp only [shopStore, findByIdString, ho, Option.map_some, Shop.unprimed, Function.update_self]
  rw [Buys, purchase, Prog.bind_eq, exec_op hbuy, if_pos rfl, Prog.bind_eq, primeFromMongo,
    Prog.bind_eq, Prog.bind_assoc, exec_op hfind, Shop.lists]
  cases w.products o with
  | none => exact exec_ret
  | some d =>
    by_cases hd : d.active = true
    · -- the counter is created with the units of the catalog
      have hprime : ∀ q, shopStore 0 0 (.setStockNx (stockKey pid) units) q
          (w.unprimed pid o units) = some (true, { w.unprimed pid o units with
            stock := Function.update (w.unprimed pid o units).stock (stockKey pid)
              (some (units : Int)) }) := by
        intro q
        simp only [shopStore, hnone]
      simp only [Option.map_some, hd, if_true, Option.any_some, Prog.bind_eq]
      rw [Prog.bind_assoc, exec_op hprime]
      exact exec_script (Function.update_self ..) fun v hv => rfl
    · simp only [Option.map_some, hd, Option.any_some]
      exact exec_ret

/-- **The two paths.** A purchase that finds the counter and one that finds the same units in the
catalog end in the same way just when the product is listed. -/
theorem same_paths (ho : castObjectId pid = some o) (h : w.stock (stockKey pid) = some (units : Int)) :
    (∀ r, Buys w pid qty r ↔ Buys (w.unprimed pid o units) pid qty r) ↔ w.lists o = true := by
  simp only [buys_primed h, buys_unprimed ho]
  constructor
  · intro hsame
    by_contra hnot
    have heq := (hsame (takes units qty)).mp rfl
    rw [if_neg hnot] at heq
    unfold takes at heq
    split at heq <;> cases heq
  · intro hlists r
    rw [if_pos hlists]

end Paths

/-! ### The whole run -/

/-- At some moment of the call `q` of thread `i`, the product `pid` was listed. -/
def ListedDuring (ok : ShopConfig → ShopAct → Bool) (c₀ : ShopConfig) (as : List ShopAct) (i : Nat)
    (pid : String) {β : Type} (q : ShopProg β) : Prop :=
  ∃ o c₁ u, shopSystem.Moment ok c₀ as c₁ ∧ c₁.pool[i]? = some u ∧ Underway q u ∧
    castObjectId pid = some o ∧ c₁.world.2.lists o = true

/-- A run that sells listed products only, whichever way, and at a price of the catalog. -/
structure SoldAsListed (ok : ShopConfig → ShopAct → Bool) (c₀ : ShopConfig) (as : List ShopAct)
    (c : ShopConfig) : Prop where
  purchases : ∀ (i : Nat) (t : ShopThread) (pid : String) (qty : Nat) (n : Int),
    c.pool[i]? = some t → Returned (purchase pid qty) t (.ok n) →
    ListedDuring ok c₀ as i pid (purchase pid qty)
  reserves : ∀ (i : Nat) (t : ShopThread) (pid : String) (qty : Nat) (uid : Option String)
    (id : String) (expiresAt : Nat) (n : Int),
    c.pool[i]? = some t → Returned (reserve pid qty uid) t (.held id expiresAt n) →
    ListedDuring ok c₀ as i pid (reserve pid qty uid)
  orders : ∀ d ∈ c.world.2.orders, ∃ (i : Nat) (t : ShopThread) (r : BuyRequest) (time : Nat)
    (c₁ : ShopConfig) (u : ShopThread) (p : ProductDoc), c.pool[i]? = some t ∧
    t.req = .postBuy r ∧ castObjectId r.id = some d.productId ∧
    ⟨time, .inr (.productFindById r.id), .ok (some p)⟩ ∈ t.trace ∧
    shopSystem.Moment ok c₀ as c₁ ∧ c₁.pool[i]? = some u ∧ u.prog.result = none ∧
    c₁.world.2.products d.productId = some p ∧ d.unitPricePaise = p.pricePaise ∧
    d.totalPaise = d.unitPricePaise * d.quantity
  paths : ∀ (as₁ as₂ : List ShopAct) (i : Nat) (p : Pick) (c₁ : ShopConfig) (u : ShopThread)
    (pid : String) (qty units : Nat), as = as₁ ++ .call i (.answered p) :: as₂ →
    shopSystem.run ok c₀ as₁ = some c₁ → c₁.pool[i]? = some u → ownCalls u.trace = [] →
    u.prog.next = some (.inr (.buyStock (stockKey pid) qty)) →
    c₁.world.2.stock (stockKey pid) = some (units : Int) →
    ∃ o, castObjectId pid = some o ∧ ∀ r, Buys c₁.world.2 pid qty r ↔
      Buys (c₁.world.2.unprimed pid o units) pid qty r

/-- **Only listed products are sold, at their price.** This is so of every run in which no purchase
finds the counter of a product that is not listed, and no product that was bought is gone when its
price is read. -/
theorem sold_as_listed (h : shopSystem.run asListed (freshShop now catalog) as = some c) :
    SoldAsListed asListed (freshShop now catalog) as c where
  purchases := by
    rintro i t pid qty n ht ⟨own, hown, hruns⟩
    have hpurchase : Follows (fun _ _ => True) List.cons (purchase pid qty) [] fun out own =>
        ∀ n, out = .ok (.ok n) → Acquired pid qty own :=
      follows_purchase (fun _ _ _ => trivial) pid qty
    have hacq := hruns.follows hpurchase
    rw [List.foldr_cons_nil] at hacq
    exact listed_of_acquired h ht hown hruns (hacq n rfl)
  reserves := by
    rintro i t pid qty uid id expiresAt n ht ⟨own, hown, hruns⟩
    have hacq := hruns.follows (follows_reserve pid qty uid)
    rw [List.foldr_cons_nil] at hacq
    exact listed_of_acquired h ht hown hruns (hacq id expiresAt n rfl)
  orders := by
    intro d hd
    have hr := System.Reachable.of_run h
    obtain ⟨i, t, time, inp, out, ht, hinp, he⟩ := inserted hr hd
    obtain ⟨r, qty, own, hreq, hown, t₁, product, before, rfl, htook, rfl⟩ :=
      priceRead hr (List.mem_of_getElem? ht) he
    obtain ⟨tr', hread, -⟩ := suffix_of_own hown
    obtain ⟨c₁, f, u, w, hmoment, hok, hu, hbefore, hnext, hx⟩ := moment_of_own h ht hown
    rcases Store.exec_cases hx with ⟨q, a, rfl, hx, ha⟩ | ⟨e, -, -, he⟩ | ⟨e, q, a, -, -, he⟩
    · obtain rfl := Except.ok.inj ha
      obtain ⟨found, hfind, heq⟩ := Option.map_eq_some_iff.mp hx
      obtain ⟨rfl, rfl⟩ := Prod.mk.inj heq
      obtain ⟨o, ho, hproduct⟩ := Option.map_eq_some_iff.mp hfind
      obtain ⟨hpid, -, hqty, hunit, htotal⟩ := hinp
      obtain rfl : o = d.productId := Option.some.inj (ho.symm.trans hpid)
      -- the product is there when its price is read
      simp only [asListed, hu, Option.all_some, hnext, hbefore, htook, Bool.not_true, Bool.false_or,
        ho, Option.bind_some, Option.isSome_iff_exists] at hok
      obtain ⟨p, hp⟩ := hok
      rw [hp] at hproduct
      subst hproduct
      have hrunning : u.prog.result = none := by
        cases hprog : u.prog with
        | call op k => rfl
        | ret a => rw [hprog] at hnext; cases hnext
        | throw e => rw [hprog] at hnext; cases hnext
      refine ⟨i, t, r, t₁, c₁, u, p, ht, hreq, hpid, hread.subset (List.mem_cons_self ..), hmoment, hu,
        hrunning, hp, hunit.symm, ?_⟩
      rw [← htotal, ← hunit, ← hqty]
    · cases he
    · cases he
  paths := by
    rintro as₁ as₂ i p c₁ u pid qty units rfl hrun hu hown hnext hstock
    rw [System.run_append, hrun, Option.bind_some, System.run] at h
    have hok : asListed c₁ (.call i (.answered p)) = true := by
      by_contra hnot
      rw [if_neg hnot] at h
      cases h
    simp only [asListed, hu, Option.all_some, hnext, hown, List.isEmpty_nil, Bool.not_true,
      Bool.false_or, hstock, Option.isNone_some, stockKeyProduct_stockKey] at hok
    obtain ⟨o, ho, hlists⟩ := (Option.any_eq_true _ _).mp hok
    exact ⟨o, ho, (same_paths ho hstock).mpr hlists⟩

end Runs

/-- One unit is bought, the catalog document becomes `doc`, and another unit is bought. -/
def boughtAgain (doc : Option ProductDoc) : List ShopAct :=
  orderPlaced ++ .env (.catalog idA doc) ::
    .arrive (.postBuy ⟨idC, idA.toString, .missing, none⟩) :: callsOf 1 5 idC

theorem sold_as_listed_repriced : ∃ c,
    shopSystem.run asListed (freshShop 0 (oneProduct 5)) (boughtAgain (some ⟨idA, 150, 5, true⟩)) =
      some c ∧ c.world.2.orders.map (fun d => (d.unitPricePaise, d.totalPaise)) =
        [(100, 100), (150, 150)] ∧
    SoldAsListed asListed (freshShop 0 (oneProduct 5)) (boughtAgain (some ⟨idA, 150, 5, true⟩)) c := by
  have hrun : (shopSystem.run asListed (freshShop 0 (oneProduct 5))
      (boughtAgain (some ⟨idA, 150, 5, true⟩))).map (fun c => c.world.2.orders.map fun d =>
        (d.unitPricePaise, d.totalPaise)) = some [(100, 100), (150, 150)] := by decide
  obtain ⟨c, hc, horders⟩ := Option.map_eq_some_iff.mp hrun
  exact ⟨c, hc, horders, sold_as_listed hc⟩

/-- The product is deleted between two buys: the second finds the counter, and costs nothing. -/
theorem sold_unlisted :
    ¬∀ (now : Nat) (catalog : ObjectId → Option ProductDoc) (as : List ShopAct) (c : ShopConfig),
      shopSystem.run (fun _ _ => true) (freshShop now catalog) as = some c →
      SoldAsListed (fun _ _ => true) (freshShop now catalog) as c := by
  have hrun : (shopSystem.run (fun _ _ => true) (freshShop 0 (oneProduct 5)) (boughtAgain none)).map
      (fun c => c.world.2.orders.map fun d => (d.productId, d.unitPricePaise)) =
        some [(idA, 100), (idA, 0)] := by decide
  -- at no moment is the product in the catalog for nothing
  have hprice : ∀ bs ∈ (boughtAgain none).inits,
      (shopSystem.run (fun _ _ => true) (freshShop 0 (oneProduct 5)) bs).all (fun c =>
        (c.world.2.products idA).all fun p => p.pricePaise = 100) = true := by decide
  obtain ⟨c, hc, horders⟩ := Option.map_eq_some_iff.mp hrun
  intro hclaim
  obtain ⟨d₁, ds, hlist, -, hds⟩ := List.map_eq_cons_iff.mp horders
  obtain ⟨d, ds, rfl, hd, -⟩ := List.map_eq_cons_iff.mp hds
  obtain ⟨hpid, hunit⟩ := Prod.mk.inj hd
  obtain ⟨i, t, r, time, c₁, u, p, -, -, -, -, ⟨bs, hprefix, hbs⟩, -, -, hp, hprice', -⟩ :=
    (hclaim 0 _ _ c hc).orders d (by simp [hlist])
  have hall := hprice bs ((List.mem_inits _ _).mpr hprefix)
  rw [hpid] at hp
  rw [hbs, Option.all_some, hp, Option.all_some, decide_eq_true_eq] at hall
  rw [hunit, hall] at hprice'
  cases hprice'

end Flashkart
