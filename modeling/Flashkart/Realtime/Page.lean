import Flashkart.Realtime.Feed
import Flashkart.Shop.Bulletin
import Flashkart.Shop.Checkout
import Flashkart.Shop.Receipt

/-!
# Realtime.Page

The panel of a user's orders. A row comes from a listing of the orders or from the answer to a buy,
and the order events of the page's socket move it on. Nothing orders the three: a listing is as old
as its query when it comes, an answer may come after the events of its order, and who connects anew
is in no room.

* `Page.step`     — one action, of the site or of the page.
* `panel_true`    — a row is of an order of the user, and shows a status that the order has come to.
* `panel_settles` — at rest each row shows the status of its order, if no event has come to the page
  before an answer that is older than it.
-/

namespace Flashkart

open Async Async.Fanout

/-- A row, with what the panel shows of it. -/
structure OrderRow where
  id : String
  productId : String
  quantity : Nat
  totalPaise : Nat
  status : OrderStatus
  failureReason : Option String
  deriving DecidableEq

def OrderDoc.row (d : OrderDoc) : OrderRow :=
  ⟨d.id.toString, d.productId.toString, d.quantity, d.totalPaise, d.status, d.failureReason⟩

/-! ## The handlers -/

def onOrder (orders : List OrderRow) (ev : OrderEvent) : List OrderRow :=
  orders.map fun o => if o.id = ev.orderId then { o with status := ev.status } else o

def Message.handle (orders : List OrderRow) : Message → List OrderRow
  | .stock _ => orders
  | .order ev => onOrder orders ev

/-- The answer to a buy of product `id`, for which the page shows the price `pricePaise`, if it
shows the product. -/
def onBought (id : String) (pricePaise : Option Nat) (orders : List OrderRow) :
    Except Err ShopRes → List OrderRow
  | .ok (.response ⟨201, _, .order orderId _ quantity _⟩) =>
    ⟨orderId, id, quantity, pricePaise.getD 0 * quantity, .pending, none⟩ :: orders
  | _ => orders

/-! ## The page -/

/-- `seen` counts the messages of the socket that the page has handled. `listings` are answers to
`/orders/mine` and `buys` the threads of buys, with their products, that the page waits for. -/
structure Page where
  site : Site
  socket : Nat
  seen : Nat
  orders : List OrderRow
  listings : List (List OrderDoc)
  buys : List (Nat × String)

/-- The page connects anew, handles a message, asks for the listing (the answer has the documents in
that order) and gets it or not, sends a buy under a key and gets its answer. -/
inductive PageAct where
  | site (a : SiteAct)
  | reconnect (pod : Nat)
  | next
  | ask (sorted : List OrderDoc)
  | hydrate (k : Nat)
  | lose (k : Nat)
  | buy (id key : String)
  | bought (k : Nat) (pricePaise : Option Nat)

/-- The body of a buy is `{ quantity: 1 }`. -/
def buyOf (u : ObjectId) (id key : String) : BuyRequest := ⟨u, id, .number 1, some key⟩

namespace Page

/-- The message that the page handles next, if it has come. -/
def message (p : Page) : Option Message :=
  (p.site.net.clients[p.socket]?).bind fun x => x.emitted[p.seen]?

/-- The buy that the page waits for at place `k`, its answer and the product. -/
def answer (p : Page) (k : Nat) : Option (String × Except Err ShopRes) :=
  (p.buys[k]?).bind fun b =>
    (p.site.shop.pool[b.1]?).bind fun t => t.prog.result.map fun res => (b.2, res)

/-- One action of the site, or of the page of user `u`. -/
def step (env : AuthEnv) (lib : AuthLib) (u : ObjectId) (p : Page) : PageAct → Option Page
  | .site a => (p.site.step env lib a).map fun site => { p with site := site }
  | .reconnect pod =>
    (p.site.step env lib (.net (.connect pod))).map fun site =>
      { p with site := site, socket := p.site.net.clients.length, seen := 0 }
  | .next =>
    p.message.map fun m => { p with seen := p.seen + 1, orders := m.handle p.orders }
  | .ask sorted =>
    match ordersMine u sorted p.site.shop.world.2 with
    | some (.orders docs) => some { p with listings := docs :: p.listings }
    | _ => none
  | .hydrate k =>
    (p.listings[k]?).map fun docs =>
      { p with orders := docs.map OrderDoc.row, listings := p.listings.eraseIdx k }
  | .lose k => some { p with listings := p.listings.eraseIdx k }
  | .buy id key =>
    (p.site.step env lib (.shop (.arrive (.postBuy (buyOf u id key))))).map fun site =>
      { p with site := site, buys := (p.site.shop.pool.length, id) :: p.buys }
  | .bought k pricePaise =>
    (p.answer k).map fun b =>
      { p with orders := onBought b.1 pricePaise p.orders b.2, buys := p.buys.eraseIdx k }

def run (env : AuthEnv) (lib : AuthLib) (u : ObjectId) (ok : Page → PageAct → Bool) (p : Page)
    (as : List PageAct) : Option Page := script (step env lib u) ok p as

end Page

/-- A page that shows nothing and waits for nothing. -/
def freshPage (site : Site) (socket : Nat) : Page := ⟨site, socket, 0, [], [], []⟩

/-- What an action of the page is for the site. -/
def PageAct.siteAct (u : ObjectId) : PageAct → Option SiteAct
  | .site a => some a
  | .reconnect pod => some (.net (.connect pod))
  | .buy id key => some (.shop (.arrive (.postBuy (buyOf u id key))))
  | _ => none

/-! ## One action -/

/-- Where a row of the panel can come from. -/
inductive RowFrom (p : Page) : PageAct → OrderRow → Prop
  | kept {a : PageAct} {row : OrderRow} : row ∈ p.orders →
      (∀ ev, a = .next → p.message = some (.order ev) → row.id ≠ ev.orderId) → RowFrom p a row
  | moved {row : OrderRow} {ev : OrderEvent} : row ∈ p.orders → p.message = some (.order ev) →
      row.id = ev.orderId → RowFrom p .next { row with status := ev.status }
  | listed {k : Nat} {docs : List OrderDoc} {d : OrderDoc} : docs ∈ p.listings → d ∈ docs →
      RowFrom p (.hydrate k) d.row
  | placed {k q status : Nat} {price : Option Nat} {id orderId pid : String} {replay : Option Bool}
      {remaining : Int} :
      p.answer k = some (id, .ok (.response ⟨status, replay, .order orderId pid q remaining⟩)) →
      RowFrom p (.bought k price) ⟨orderId, id, q, price.getD 0 * q, .pending, none⟩

/-- What an action does to the page. The site moves as it does by itself, or not at all; what the
page waits for it has waited for, or it has just asked. -/
structure PageStep (env : AuthEnv) (lib : AuthLib) (u : ObjectId) (p : Page) (a : PageAct)
    (p' : Page) : Prop where
  site : (∃ b, a.siteAct u = some b ∧ p.site.step env lib b = some p'.site) ∨
    a.siteAct u = none ∧ p'.site = p.site
  orders : ∀ row ∈ p'.orders, RowFrom p a row
  listings : ∀ docs ∈ p'.listings, docs ∈ p.listings ∨
    ∃ sorted, a = .ask sorted ∧ ordersMine u sorted p.site.shop.world.2 = some (.orders docs)
  buys : ∀ b ∈ p'.buys, b ∈ p.buys ∨
    ∃ id key, a = .buy id key ∧ b = (p.site.shop.pool.length, id)
  reading : (a ≠ .next ∧ p'.socket = p.socket ∧ p'.seen = p.seen) ∨
    (a = .next ∧ p'.socket = p.socket ∧ p'.seen = p.seen + 1 ∧ ∃ m, p.message = some m) ∨
      ∃ pod, a = .reconnect pod

section Step

variable {env : AuthEnv} {lib : AuthLib} {u : ObjectId} {p p' : Page} {a : PageAct}

theorem row_of_message {m : Message} (hm : p.message = some m) {row : OrderRow}
    (hrow : row ∈ m.handle p.orders) : RowFrom p .next row := by
  cases m with
  | stock ev =>
    refine .kept hrow fun ev' _ he => ?_
    rw [hm] at he
    cases he
  | order ev =>
    obtain ⟨row₀, hrow₀, rfl⟩ := List.mem_map.mp hrow
    by_cases hid : row₀.id = ev.orderId
    · rw [if_pos hid]
      exact .moved hrow₀ hm hid
    · rw [if_neg hid]
      refine .kept hrow₀ fun ev' _ he => ?_
      obtain rfl := Message.order.inj (Option.some.inj (hm.symm.trans he))
      exact hid

theorem row_of_answer {k : Nat} {id : String} {price : Option Nat} {res : Except Err ShopRes}
    (hb : p.answer k = some (id, res)) {row : OrderRow}
    (hrow : row ∈ onBought id price p.orders res) : RowFrom p (.bought k price) row := by
  unfold onBought at hrow
  split at hrow
  · rcases List.mem_cons.mp hrow with rfl | hrow
    · exact .placed hb
    · exact .kept hrow fun ev he => by cases he
  · exact .kept hrow fun ev he => by cases he

theorem pageStep (h : p.step env lib u a = some p') : PageStep env lib u p a p' := by
  have hkept : a ≠ .next → ∀ row ∈ p.orders, RowFrom p a row := fun ha row hrow =>
    .kept hrow fun ev he => absurd he ha
  cases a with
  | site a =>
    obtain ⟨site, hs, rfl⟩ := Option.map_eq_some_iff.mp h
    exact ⟨.inl ⟨a, rfl, hs⟩, hkept (fun he => by cases he), fun _ => .inl, fun _ => .inl,
      .inl ⟨(fun he => by cases he), rfl, rfl⟩⟩
  | reconnect pod =>
    obtain ⟨site, hs, rfl⟩ := Option.map_eq_some_iff.mp h
    exact ⟨.inl ⟨_, rfl, hs⟩, hkept (fun he => by cases he), fun _ => .inl, fun _ => .inl,
      .inr (.inr ⟨pod, rfl⟩)⟩
  | next =>
    obtain ⟨m, hm, rfl⟩ := Option.map_eq_some_iff.mp h
    exact ⟨.inr ⟨rfl, rfl⟩, fun _ => row_of_message hm, fun _ => .inl, fun _ => .inl,
      .inr (.inl ⟨rfl, rfl, rfl, m, hm⟩)⟩
  | ask sorted =>
    simp only [Page.step] at h
    split at h
    · rename_i docs hmine
      cases h
      refine ⟨.inr ⟨rfl, rfl⟩, hkept (fun he => by cases he), fun docs' hdocs => ?_, fun _ => .inl,
        .inl ⟨(fun he => by cases he), rfl, rfl⟩⟩
      rcases List.mem_cons.mp hdocs with rfl | hdocs
      · exact .inr ⟨sorted, rfl, hmine⟩
      · exact .inl hdocs
    · cases h
  | hydrate k =>
    obtain ⟨docs, hdocs, rfl⟩ := Option.map_eq_some_iff.mp h
    refine ⟨.inr ⟨rfl, rfl⟩, fun row hrow => ?_, fun _ hd => .inl (List.mem_of_mem_eraseIdx hd),
      fun _ => .inl, .inl ⟨(fun he => by cases he), rfl, rfl⟩⟩
    obtain ⟨d, hd, rfl⟩ := List.mem_map.mp hrow
    exact .listed (List.mem_of_getElem? hdocs) hd
  | lose k =>
    cases h
    exact ⟨.inr ⟨rfl, rfl⟩, hkept (fun he => by cases he),
      fun _ hd => .inl (List.mem_of_mem_eraseIdx hd), fun _ => .inl,
      .inl ⟨(fun he => by cases he), rfl, rfl⟩⟩
  | buy id key =>
    rw [Page.step] at h
    obtain ⟨site, hs, rfl⟩ := Option.map_eq_some_iff.mp h
    refine ⟨.inl ⟨_, rfl, hs⟩, hkept (fun he => by cases he), fun _ => .inl, fun b hb => ?_,
      .inl ⟨(fun he => by cases he), rfl, rfl⟩⟩
    rcases List.mem_cons.mp hb with rfl | hb
    · exact .inr ⟨id, key, rfl, rfl⟩
    · exact .inl hb
  | bought k price =>
    obtain ⟨⟨id, res⟩, hb, rfl⟩ := Option.map_eq_some_iff.mp h
    exact ⟨.inr ⟨rfl, rfl⟩, fun _ => row_of_answer hb, fun _ => .inl,
      fun _ hb => .inl (List.mem_of_mem_eraseIdx hb), .inl ⟨(fun he => by cases he), rfl, rfl⟩⟩

theorem PageStep.shop (h : PageStep env lib u p a p') :
    shopSystem.Reachable (fun _ _ => True) p.site.shop p'.site.shop := by
  rcases h.site with ⟨b, -, hs⟩ | ⟨-, heq⟩
  · have hone : p.site.run env lib (fun _ _ => true) [b] = some p'.site := script_one rfl hs
    exact run_shop (fun _ _ _ _ _ => trivial) hone
  · rw [heq]
    exact .init

end Step

/-! ## Rows -/

/-- The row is of an order of user `u`, and shows a status that it has come to. -/
def OrderRow.Of (row : OrderRow) (u : ObjectId) (w : Shop) : Prop :=
  ∃ o d, row.id = o.toString ∧ w.order o = some d ∧ d.userId = u ∧
    castObjectId row.productId = some d.productId ∧ row.quantity = d.quantity ∧
    Relation.ReflTransGen OrderStatus.Next row.status d.status

/-- What the page shows and waits for is of the user. -/
structure Page.Truthful (u : ObjectId) (p : Page) : Prop where
  rows : ∀ row ∈ p.orders, row.Of u p.site.shop.world.2
  listings : ∀ docs ∈ p.listings, ∀ d ∈ docs, d.row.Of u p.site.shop.world.2
  buys : ∀ b ∈ p.buys, ∃ t key, p.site.shop.pool[b.1]? = some t ∧
    t.req = .postBuy (buyOf u b.2 key)

section Rows

variable {env : AuthEnv} {lib : AuthLib} {u : ObjectId} {n : Nat}
  {catalog : ObjectId → Option ProductDoc} {users : List User} {p p' : Page} {a : PageAct}
  {c c' : ShopConfig}

theorem OrderRow.Of.later {row : OrderRow} (hrow : row.Of u c.world.2)
    (h : shopSystem.Reachable (fun _ _ => True) (freshShop n catalog) c)
    (h' : shopSystem.Reachable (fun _ _ => True) c c') : row.Of u c'.world.2 := by
  obtain ⟨o, d, hid, hd, huser, hproduct, hqty, hs⟩ := hrow
  obtain ⟨d', hd', hbecomes⟩ := becomes_reachable h h' hd
  have hsale := hbecomes.sale
  refine ⟨o, d', hid, hd', ?_, ?_, ?_, hs.trans hbecomes.status⟩
  · rw [← huser]
    exact congrArg Sale.userId hsale
  · rw [hproduct]
    exact congrArg (fun x => some (Sale.productId x)) hsale.symm
  · rw [hqty]
    exact congrArg Sale.quantity hsale.symm

theorem OrderStatus.pending_first (s : OrderStatus) :
    Relation.ReflTransGen OrderStatus.Next .pending s := by
  have hpaid : Relation.ReflTransGen OrderStatus.Next .pending .paid := .single .pay
  cases s with
  | pending => exact .refl
  | paid => exact hpaid
  | fulfilled => exact hpaid.tail .fulfill
  | confirmed => exact (hpaid.tail .fulfill).tail .confirm
  | failed => exact .single .fail

theorem mem_ordersMine {sorted docs : List OrderDoc} {w : Shop} {d : OrderDoc}
    (h : ordersMine u sorted w = some (.orders docs)) (hd : d ∈ docs) :
    d ∈ w.orders ∧ d.userId = u := by
  simp only [ordersMine] at h
  split at h
  · rename_i hsorted
    obtain rfl := CheckoutRes.orders.inj (Option.some.inj h)
    have hmem := (List.isPerm_iff.mp hsorted.1).subset (List.mem_of_mem_take hd)
    obtain ⟨hmem, huser⟩ := List.mem_filter.mp hmem
    exact ⟨hmem, of_decide_eq_true huser⟩
  · cases h

/-- The event that the page handles next is on the channel. -/
theorem message_channel {ok : Site → SiteAct → Bool} {bs : List SiteAct}
    (hrun : (freshSite n catalog users).run env lib ok bs = some p.site) {ev : OrderEvent}
    (hm : p.message = some (.order ev)) : ev ∈ p.site.shop.world.2.orderChannel := by
  obtain ⟨x, hx, hm⟩ := Option.bind_eq_some_iff.mp hm
  exact heard_channel hrun hx (List.mem_append_left _ (List.mem_of_getElem? hm))

theorem buy_arrives {r : ShopReq} {s s' : Site} (h : s.step env lib (.shop (.arrive r)) = some s') :
    ∃ t, s'.shop.pool[s.shop.pool.length]? = some t ∧ t.req = r := by
  cases does_of_step h with
  | shop hshop _ =>
    obtain ⟨w, -, rfl⟩ := Option.map_eq_some_iff.mp hshop
    exact ⟨_, List.getElem?_concat_length, rfl⟩
  | socket hmoves _ => cases hmoves
  | nothing hshop _ => cases hshop

/-- The order that the answer to a buy names is the user's. -/
theorem Page.Truthful.placed (hp : p.Truthful u)
    (hshop : shopSystem.Reachable (fun _ _ => True) (freshShop n catalog) p.site.shop)
    {k q status : Nat} {price : Option Nat} {id orderId pid : String} {replay : Option Bool}
    {remaining : Int}
    (hb : p.answer k =
      some (id, .ok (.response ⟨status, replay, .order orderId pid q remaining⟩))) :
    OrderRow.Of ⟨orderId, id, q, price.getD 0 * q, .pending, none⟩ u p.site.shop.world.2 := by
  obtain ⟨b, hbuy, hb⟩ := Option.bind_eq_some_iff.mp hb
  obtain ⟨t, ht, hb⟩ := Option.bind_eq_some_iff.mp hb
  obtain ⟨res, hres, hb⟩ := Option.map_eq_some_iff.mp hb
  cases hb
  obtain ⟨t', key, ht', hreq⟩ := hp.buys b (List.mem_of_getElem? hbuy)
  obtain rfl := Option.some.inj (ht.symm.trans ht')
  have hend : t.req.endpoint = some (.buy, buyOf u b.2 key) := by
    rw [hreq]
    rfl
  obtain ⟨v, hv, qty, own, hown, hwork⟩ := work_behind hshop (List.mem_of_getElem? ht) hend hres
  obtain ⟨-, hpid, o, d, horder, hd, huser, hproduct, hqty⟩ := honours_of_work hshop hv hown hwork
  obtain rfl : pid = b.2 := hpid
  exact ⟨o, d, horder, hd, huser, hproduct, hqty.symm, OrderStatus.pending_first _⟩

theorem Page.Truthful.step {ok : Site → SiteAct → Bool} {bs : List SiteAct} (hp : p.Truthful u)
    (hrun : (freshSite n catalog users).run env lib ok bs = some p.site)
    (h : PageStep env lib u p a p') : p'.Truthful u := by
  have hshop : shopSystem.Reachable (fun _ _ => True) (freshShop n catalog) p.site.shop :=
    run_shop (fun _ _ _ _ _ => trivial) hrun
  constructor
  · intro row hrow
    refine OrderRow.Of.later ?_ hshop h.shop
    cases h.orders row hrow with
    | kept hold _ => exact hp.rows _ hold
    | moved hold hm hid =>
      obtain ⟨o, d, hrid, hd, huser, hproduct, hqty, -⟩ := hp.rows _ hold
      obtain ⟨-, user, -, o', d', ho', hd', -, hs⟩ :=
        (told_reachable hshop).2 _ (message_channel hrun hm)
      rw [← hid, hrid, castObjectId_toString] at ho'
      obtain rfl := Option.some.inj ho'
      obtain rfl := Option.some.inj (hd.symm.trans hd')
      exact ⟨o, d, hrid, hd, huser, hproduct, hqty, hs⟩
    | listed hdocs hd => exact hp.listings _ hdocs _ hd
    | placed hb => exact hp.placed hshop hb
  · intro docs hdocs d hd
    refine OrderRow.Of.later ?_ hshop h.shop
    rcases h.listings docs hdocs with hdocs | ⟨sorted, -, hmine⟩
    · exact hp.listings docs hdocs d hd
    · obtain ⟨hmem, huser⟩ := mem_ordersMine hmine hd
      have horder := (order_eq_some (orderIds_reachable hshop)).mpr ⟨hmem, rfl⟩
      exact ⟨d.id, d, rfl, horder, huser, castObjectId_toString _, rfl, .refl⟩
  · intro b hb
    rcases h.buys b hb with hb | ⟨id, key, rfl, rfl⟩
    · obtain ⟨t, key, ht, hreq⟩ := hp.buys b hb
      obtain ⟨t', ht', hreq', -⟩ := (h.shop.later.2 b.1).1 t ht
      exact ⟨t', key, ht', hreq'.trans hreq⟩
    · rcases h.site with ⟨b, hb, hs⟩ | ⟨hnone, -⟩
      · cases hb
        obtain ⟨t, ht, hreq⟩ := buy_arrives hs
        exact ⟨t, key, ht, hreq⟩
      · cases hnone

end Rows

/-! ## Runs -/

section Runs

variable {env : AuthEnv} {lib : AuthLib} {u : ObjectId} {n : Nat}
  {catalog : ObjectId → Option ProductDoc} {users : List User} {p₀ p : Page} {s₁ : Site}
  {ok : Page → PageAct → Bool} {okSite : Site → SiteAct → Bool} {as : List SiteAct}
  {bs : List PageAct} {socket : Nat} {row : OrderRow}

theorem Page.run_site (hok : ∀ p a b, ok p a = true → a.siteAct u = some b → okSite p.site b = true)
    (h : p₀.run env lib u ok bs = some p) : ∃ cs, p₀.site.run env lib okSite cs = some p.site := by
  refine script_induction (I := fun _ p => ∃ cs, p₀.site.run env lib okSite cs = some p.site) h
    ⟨[], rfl⟩ ?_
  rintro bs p a p' - ⟨cs, hrun⟩ hoka hs
  rcases (pageStep hs).site with ⟨b, hb, hsite⟩ | ⟨-, heq⟩
  · exact ⟨cs ++ [b], Site.run_concat.mpr ⟨_, hrun, hok _ _ _ hoka hb, hsite⟩⟩
  · exact ⟨cs, heq ▸ hrun⟩

/-- A page that is loaded at some moment of a run, and what it does then. -/
theorem Page.site_run (hok : ∀ p a b, ok p a = true → a.siteAct u = some b → okSite p.site b = true)
    (h₁ : (freshSite n catalog users).run env lib okSite as = some s₁)
    (h : (freshPage s₁ socket).run env lib u ok bs = some p) :
    ∃ cs, (freshSite n catalog users).run env lib okSite cs = some p.site := by
  obtain ⟨cs, hcs⟩ := Page.run_site hok h
  refine ⟨as ++ cs, ?_⟩
  rw [Site.run_append, h₁]
  exact hcs

theorem truthful_run (h₁ : (freshSite n catalog users).run env lib (fun _ _ => true) as = some s₁)
    (h : (freshPage s₁ socket).run env lib u ok bs = some p) : p.Truthful u := by
  have hfresh : (freshPage s₁ socket).Truthful u :=
    ⟨fun _ hrow => (by cases hrow), fun _ hdocs => (by cases hdocs), fun _ hb => (by cases hb)⟩
  refine script_induction (I := fun _ p => p.Truthful u) h hfresh ?_
  intro bs p a p' hrun hp _ hs
  obtain ⟨cs, hcs⟩ := Page.site_run (fun _ _ _ _ _ => rfl) h₁ hrun
  exact hp.step hcs (pageStep hs)

theorem OrderStatus.final {s s' : OrderStatus} (h : Relation.ReflTransGen OrderStatus.Next s s')
    (hs : s = .confirmed ∨ s = .failed) : s' = s := by
  rcases h.cases_head with heq | ⟨s₁, hnext, -⟩
  · exact heq.symm
  · rcases hs with rfl | rfl <;> cases hnext

/-- **The panel is true.** In every run, whatever fails, and however the events, the listings and
the answers come to the page: a row is of an order of the user, of its product and quantity, and
shows a status that the order has come to; what it shows as confirmed or as failed is so. -/
theorem panel_true (h₁ : (freshSite n catalog users).run env lib (fun _ _ => true) as = some s₁)
    (h : (freshPage s₁ socket).run env lib u ok bs = some p) (hrow : row ∈ p.orders) :
    ∃ o d, row.id = o.toString ∧ p.site.shop.world.2.order o = some d ∧ d.userId = u ∧
      castObjectId row.productId = some d.productId ∧ row.quantity = d.quantity ∧
      Relation.ReflTransGen OrderStatus.Next row.status d.status ∧
      (row.status = .confirmed ∨ row.status = .failed → d.status = row.status) := by
  obtain ⟨o, d, hid, hd, huser, hproduct, hqty, hs⟩ := (truthful_run h₁ h).rows row hrow
  exact ⟨o, d, hid, hd, huser, hproduct, hqty, hs, OrderStatus.final hs⟩

end Runs

/-! ## What is still to come -/

/-- The statuses that the messages announce of order `o`. -/
def statusesOf (o : ObjectId) (ms : List Message) : List OrderStatus :=
  ((ms.filterMap Message.order?).filter fun ev => castObjectId ev.orderId = some o).map (·.status)

theorem statusesOf_append {o : ObjectId} {ms ms' : List Message} :
    statusesOf o (ms ++ ms') = statusesOf o ms ++ statusesOf o ms' := by
  rw [statusesOf, List.filterMap_append, List.filter_append, List.map_append]
  rfl

theorem Gains.announced {w w' : Shop} {ms : List Message} {o : ObjectId} (h : Gains w ms w') :
    w'.announced o = w.announced o ++ statusesOf o ms := by
  rw [Shop.announced, h.order, List.filter_append, List.map_append]
  rfl

/-- The statuses of order `o` that are still to come to the page of user `u`. -/
def Page.ahead (u o : ObjectId) (p : Page) : List OrderStatus :=
  statusesOf o ((p.site.net.ahead p.socket p.seen).filter fun m => m.room = userRoom u.toString)

/-- The events of order `o` are for user `u`. -/
def Shop.Tells (w : Shop) (u o : ObjectId) : Prop :=
  ∀ ev ∈ w.orderChannel, castObjectId ev.orderId = some o → ev.userId = u.toString

/-- A row that shows `s` for the order is not behind, or is about to be moved. -/
def Page.Fits (u o : ObjectId) (s : OrderStatus) (p : Page) : Prop :=
  p.ahead u o ≠ [] ∨ p.site.shop.world.2.announced o <+: milestones (some s)

/-- The messages of other rooms do not matter to the orders of user `u`. -/
theorem statusesOf_room {u o : ObjectId} {ms : List Message}
    (h : ∀ ev, .order ev ∈ ms → castObjectId ev.orderId = some o → ev.userId = u.toString) :
    statusesOf o (ms.filter fun m => m.room = userRoom u.toString) = statusesOf o ms := by
  induction ms with
  | nil => rfl
  | cons m ms ih =>
    have ih := ih fun ev hev => h ev (List.mem_cons_of_mem _ hev)
    have hcons : ∀ l, statusesOf o (m :: l) = statusesOf o [m] ++ statusesOf o l := by
      intro l
      rw [← statusesOf_append, List.singleton_append]
    rw [List.filter_cons]
    split
    · exact (hcons _).trans ((congrArg _ ih).trans (hcons _).symm)
    · rename_i hroom
      rw [hcons, ih]
      cases m with
      | stock ev => rfl
      | order ev =>
        have hother : castObjectId ev.orderId ≠ some o := fun ho =>
          hroom (decide_eq_true (by rw [Message.room_order, h ev List.mem_cons_self ho]))
        simp [statusesOf, hother]

/-! ## When the panel settles -/

/-- The shop announces what it does, as in `Shop.Bulletin`. -/
def proclaims (s : Site) : SiteAct → Bool
  | .shop a => announces s.shop a && ofJobs s.shop a
  | _ => true

/-- The socket stays connected, and its pod goes on listening. -/
def staysConnected (socket pod : Nat) : SiteAct → Bool
  | .net (.disconnect j) => j != socket
  | .net (.close q) => q != pod
  | .net (.listen q false) => q != pod
  | _ => true

/-- Besides: no event comes to the page before an answer that is older, which is to say that it
handles no event of an order that is in a listing on its way, and that it gets the answer to a buy
when all events of the order are still to come. -/
def attends (u : ObjectId) (pod : Nat) (p : Page) : PageAct → Bool
  | .site a => proclaims p.site a && staysConnected p.socket pod a
  | .reconnect _ => false
  | .next => match p.message with
    | some (.order ev) => p.listings.all fun docs => docs.all fun d => d.id.toString ≠ ev.orderId
    | _ => true
  | .bought k _ => match p.answer k with
    | some (_, .ok (.response ⟨_, _, .order orderId _ _ _⟩)) =>
      (castObjectId orderId).all fun o => p.ahead u o = p.site.shop.world.2.announced o
    | _ => true
  | _ => true

section Settles

variable {env : AuthEnv} {lib : AuthLib} {u o : ObjectId} {n : Nat}
  {catalog : ObjectId → Option ProductDoc} {users : List User} {p p' : Page} {a : PageAct}
  {socket pod : Nat} {s : OrderStatus} {cs : List SiteAct}

theorem proclaimed {s : Site} {a : SiteAct} {b : ShopAct} (ha : proclaims s a = true)
    (hb : a.shopAct = some b) : announces s.shop b = true ∧ ofJobs s.shop b = true := by
  cases a with
  | shop a =>
    cases hb
    exact Bool.and_eq_true_iff.mp ha
  | tick d => cases hb; exact ⟨rfl, rfl⟩
  | _ => cases hb

theorem stays_user {s : Site} {a : SiteAct} {b : SocketAct}
    (ha : staysConnected socket pod a = true) (h : Moves lib s a b) :
    stays socket pod (userRoom u.toString) b := by
  refine ⟨?_, ?_, ?_, ?_⟩ <;> rintro rfl
  · obtain ⟨q, -, hq⟩ := h.leave
    exact productRoom_ne hq.symm
  · obtain rfl := h.transport rfl
    simp [staysConnected] at ha
  · obtain rfl := h.transport rfl
    simp [staysConnected] at ha
  · obtain rfl := h.transport rfl
    simp [staysConnected] at ha

/-- The socket of the page is in the user's room. -/
structure Page.Listens (u : ObjectId) (pod : Nat) (p : Page) : Prop where
  tuned : ∃ heard, Tuned Message.room p.socket pod (userRoom u.toString) heard p.site.net
  seen : ∀ x, p.site.net.clients[p.socket]? = some x → p.seen ≤ x.emitted.length

/-- What a step of the site is for the socket. -/
theorem socket_step {s s' : Site} {b : SiteAct} (hstays : staysConnected socket pod b = true)
    (h : s.step env lib b = some s') :
    (s'.net = s.net ∧ s'.shop.world.2 = s.shop.world.2) ∨
      ∃ b, s.net.step Message.room b = some s'.net ∧ stays socket pod (userRoom u.toString) b ∧
        ∀ o, s'.shop.world.2.Tells u o → s'.shop.world.2.announced o =
          s.shop.world.2.announced o ++
            statusesOf o (b.published.filter fun m => m.room = userRoom u.toString) := by
  cases does_of_step h with
  | shop hshop hb =>
    have hgains := gains_news (channels_step hshop)
    refine .inr ⟨_, hb, stays_publish, fun o htells => ?_⟩
    rw [hgains.announced]
    refine congrArg _ (statusesOf_room fun ev hev ho => htells ev ?_ ho).symm
    rw [hgains.order]
    exact List.mem_append_right _ (List.mem_filterMap.mpr ⟨_, hev, rfl⟩)
  | auth _ => exact .inl ⟨rfl, rfl⟩
  | tick hshop _ =>
    cases hshop
    exact .inl ⟨rfl, rfl⟩
  | socket hmoves hb =>
    refine .inr ⟨_, hb, stays_user hstays hmoves, fun o _ => ?_⟩
    rw [hmoves.published]
    exact (List.append_nil _).symm
  | nothing _ _ => exact .inl ⟨rfl, rfl⟩

/-- As long as the page handles no message, what is announced of an order of the user is added to
what is still to come. -/
theorem ahead_step (hl : p.Listens u pod) (ha : a ≠ .next) (hok : attends u pod p a = true)
    (h : PageStep env lib u p a p') : p'.Listens u pod ∧
      ∀ o, p'.site.shop.world.2.Tells u o → ∃ more, p'.ahead u o = p.ahead u o ++ more ∧
        p'.site.shop.world.2.announced o = p.site.shop.world.2.announced o ++ more := by
  obtain ⟨heard, ht⟩ := hl.tuned
  obtain ⟨x, hx, -⟩ := id ht
  obtain ⟨hsocket, hseen⟩ : p'.socket = p.socket ∧ p'.seen = p.seen := by
    rcases h.reading with ⟨-, hsame⟩ | ⟨he, -⟩ | ⟨q, rfl⟩
    · exact hsame
    · exact absurd he ha
    · cases hok
  have hstill : p'.site.net = p.site.net → p'.site.shop.world.2 = p.site.shop.world.2 →
      p'.Listens u pod ∧ ∀ o, p'.site.shop.world.2.Tells u o →
        ∃ more, p'.ahead u o = p.ahead u o ++ more ∧
          p'.site.shop.world.2.announced o = p.site.shop.world.2.announced o ++ more := by
    intro hnet hshop
    refine ⟨⟨⟨heard, by rw [hnet, hsocket]; exact ht⟩, by rw [hnet, hsocket, hseen]; exact hl.seen⟩,
      fun o _ => ⟨[], ?_, ?_⟩⟩
    · rw [Page.ahead, hnet, hsocket, hseen, List.append_nil, Page.ahead]
    · rw [hshop, List.append_nil]
  rcases h.site with ⟨b, hb, hs⟩ | ⟨-, hsite⟩
  · have hstays : staysConnected p.socket pod b = true := by
      cases a with
      | site a =>
        cases hb
        exact (Bool.and_eq_true_iff.mp hok).2
      | reconnect q => cases hok
      | buy id key => cases hb; rfl
      | _ => cases hb
    rcases socket_step hstays hs with ⟨hnet, hshop⟩ | ⟨b, hb, hst, hann⟩
    · exact hstill hnet hshop
    · refine ⟨⟨⟨_, by rw [hsocket]; exact ht.step hst hb⟩, fun x' hx' => ?_⟩,
        fun o htells => ⟨_, ?_, hann o htells⟩⟩
      · rw [hsocket] at hx'
        obtain rfl := Option.some.inj ((client_step hb hx).symm.trans hx')
        rw [hseen]
        exact (hl.seen x hx).trans emitted_prefix.length_le
      · rw [Page.ahead, hsocket, hseen, ht.ahead hst hb hx (hl.seen x hx), statusesOf_append,
          Page.ahead]
  · exact hstill (by rw [hsite]) (by rw [hsite])

/-- When it handles a message, that is what has come first. -/
theorem ahead_next (hl : p.Listens u pod) (h : PageStep env lib u p .next p') :
    p'.Listens u pod ∧ p'.site = p.site ∧ ∃ m, p.message = some m ∧ ∀ o, p.ahead u o =
      statusesOf o ([m].filter fun m => m.room = userRoom u.toString) ++ p'.ahead u o := by
  have hsite : p'.site = p.site := by
    rcases h.site with ⟨b, hb, -⟩ | ⟨-, hsite⟩
    · cases hb
    · exact hsite
  obtain ⟨hsocket, hseen, m, hm⟩ : p'.socket = p.socket ∧ p'.seen = p.seen + 1 ∧
      ∃ m, p.message = some m := by
    rcases h.reading with ⟨hne, -⟩ | ⟨-, hrest⟩ | ⟨q, hq⟩
    · exact absurd rfl hne
    · exact hrest
    · cases hq
  obtain ⟨x, hx, hget⟩ := Option.bind_eq_some_iff.mp hm
  obtain ⟨hlt, hm'⟩ := List.getElem?_eq_some_iff.mp hget
  obtain ⟨heard, ht⟩ := hl.tuned
  refine ⟨⟨⟨heard, by rw [hsite, hsocket]; exact ht⟩, fun x' hx' => ?_⟩, hsite, m, hm, fun o => ?_⟩
  · rw [hsite, hsocket, hx] at hx'
    obtain rfl := Option.some.inj hx'
    rw [hseen]
    exact hlt
  · rw [Page.ahead, Page.ahead, hsite, hsocket, hseen, ahead_eq hx, ahead_eq hx,
      List.drop_eq_getElem_cons hlt, hm', ← statusesOf_append, ← List.filter_append]
    rfl

/-! ### One step -/

theorem milestones_last {l : List OrderStatus} {st : Option OrderStatus}
    (h : l ++ [s] <+: milestones st) : l ++ [s] = milestones (some s) := by
  have hnone : ¬l ++ [s] <+: milestones (some .pending) := fun h => by
    have := List.prefix_nil.mp h
    simp at this
  -- a status is the last of its milestones, or it is one of the status before
  have hstep : ∀ {s₁ s₂ : OrderStatus}, s₁.Next s₂ →
      (l ++ [s] <+: milestones (some s₁) → l ++ [s] = milestones (some s)) →
      l ++ [s] <+: milestones (some s₂) → l ++ [s] = milestones (some s) := by
    intro s₁ s₂ hnext ih h
    rw [milestones_next hnext] at h
    rcases List.prefix_concat_iff.mp h with heq | hbefore
    · obtain ⟨-, hlast⟩ := List.append_inj' heq rfl
      obtain rfl := List.singleton_inj.mp hlast
      exact heq.trans (milestones_next hnext).symm
    · exact ih hbefore
  have hpaid := hstep .pay fun h => absurd h hnone
  have hfulfilled := hstep .fulfill hpaid
  cases st with
  | none => exact absurd h hnone
  | some st =>
    cases st with
    | pending => exact absurd h hnone
    | paid => exact hpaid h
    | fulfilled => exact hfulfilled h
    | confirmed => exact hstep .confirm hfulfilled h
    | failed => exact hstep .fail (fun h => absurd h hnone) h

theorem Page.Fits.more {more : List OrderStatus} (h : p.Fits u o s)
    (hahead : p'.ahead u o = p.ahead u o ++ more)
    (hann : p'.site.shop.world.2.announced o = p.site.shop.world.2.announced o ++ more) :
    p'.Fits u o s := by
  rw [Page.Fits, hahead, hann]
  rcases h with hne | hfits
  · exact .inl fun he => hne (List.append_eq_nil_iff.mp he).1
  · by_cases hm : more = []
    · subst hm
      exact .inr ((List.append_nil _).symm ▸ hfits)
    · exact .inl fun he => hm (List.append_eq_nil_iff.mp he).2

/-- As long as the page attends: what is still to come is the latest, and no row or listing on its
way is behind with nothing to come. -/
structure Page.Abreast (u : ObjectId) (pod : Nat) (p : Page) : Prop where
  listens : p.Listens u pod
  latest : ∀ o, p.site.shop.world.2.Tells u o → p.ahead u o <:+ p.site.shop.world.2.announced o
  rows : ∀ row ∈ p.orders, ∀ o : ObjectId, row.id = o.toString →
    p.site.shop.world.2.Tells u o → p.Fits u o row.status
  listings : ∀ docs ∈ p.listings, ∀ d ∈ docs,
    p.site.shop.world.2.Tells u d.id → p.Fits u d.id d.status

/-- The message that the page handles is the first event that is to come of the order, or it is not
about the order. -/
theorem next_cases (hrun : (freshSite n catalog users).run env lib proclaims cs = some p.site)
    {m : Message} (hm : p.message = some m) (htells : p.site.shop.world.2.Tells u o)
    (hahead : p.ahead u o =
      statusesOf o ([m].filter fun m => m.room = userRoom u.toString) ++ p'.ahead u o) :
    (∃ ev, m = .order ev ∧ ev.orderId = o.toString ∧ p.ahead u o = ev.status :: p'.ahead u o) ∨
      (∀ ev, m = .order ev → ev.orderId ≠ o.toString) ∧ p.ahead u o = p'.ahead u o := by
  have hroom : statusesOf o ([m].filter fun m => m.room = userRoom u.toString) =
      statusesOf o [m] := by
    refine statusesOf_room fun ev hev ho => htells ev ?_ ho
    rw [← List.mem_singleton.mp hev] at hm
    exact message_channel hrun hm
  rw [hroom] at hahead
  cases m with
  | stock ev => exact .inr ⟨fun ev' he => (by cases he), hahead⟩
  | order ev =>
    by_cases ho : castObjectId ev.orderId = some o
    · have hshop : shopSystem.Reachable (fun c a => ofJobs c a = true) (freshShop n catalog)
          p.site.shop := run_shop (fun _ _ _ ha hb => (proclaimed ha hb).2) hrun
      obtain ⟨o', ho'⟩ := event_canonical hshop ev (message_channel hrun hm)
      rw [ho', castObjectId_toString] at ho
      obtain rfl := Option.some.inj ho
      refine .inl ⟨ev, rfl, ho', hahead.trans ?_⟩
      simp [statusesOf, ho']
    · refine .inr ⟨?_, hahead.trans ?_⟩
      · rintro ev' he hid
        cases he
        exact ho (hid ▸ castObjectId_toString o)
      · simp [statusesOf, ho]

/-- The events of an order that are out are those of its first steps. -/
theorem behind (hrun : (freshSite n catalog users).run env lib proclaims cs = some p.site)
    (o : ObjectId) :
    p.site.shop.world.2.announced o <+: milestones (p.site.shop.world.2.status o) := by
  have hshop : shopSystem.Reachable (fun _ _ => True) (freshShop n catalog) p.site.shop :=
    run_shop (fun _ _ _ _ _ => trivial) hrun
  exact ((Announce.outline _ n catalog o).adequate hshop).1.behind

theorem PageStep.tells (h : PageStep env lib u p a p') (htells : p'.site.shop.world.2.Tells u o) :
    p.site.shop.world.2.Tells u o := by
  rcases h.site with ⟨b, -, hs⟩ | ⟨-, hsite⟩
  · have hone : p.site.run env lib (fun _ _ => true) [b] = some p'.site := script_one rfl hs
    obtain ⟨ms, -, hgains⟩ := run_net (fun _ => trivial) (fun _ _ _ _ _ => trivial) hone
    intro ev hev
    refine htells ev ?_
    rw [hgains.order]
    exact List.mem_append_left _ hev
  · exact hsite ▸ htells

/-- The answer to a buy comes when the order is still to be heard of. -/
theorem fits_placed {k q status : Nat} {price : Option Nat} {id orderId pid : String}
    {replay : Option Bool} {remaining : Int}
    (hb : p.answer k = some (id, .ok (.response ⟨status, replay, .order orderId pid q remaining⟩)))
    (hok : attends u pod p (.bought k price) = true) (hid : orderId = o.toString) :
    p.Fits u o .pending := by
  simp only [attends, hb, hid, castObjectId_toString, Option.all_some, decide_eq_true_eq] at hok
  by_cases hne : p.ahead u o = []
  · rw [Page.Fits, ← hok, hne]
    exact .inr List.nil_prefix
  · exact .inl hne

/-- A listing is up to date when it is made. -/
theorem fits_listed (hrun : (freshSite n catalog users).run env lib proclaims cs = some p.site)
    {sorted docs : List OrderDoc} {d : OrderDoc}
    (hmine : ordersMine u sorted p.site.shop.world.2 = some (.orders docs)) (hd : d ∈ docs) :
    p.Fits u d.id d.status := by
  have hshop : shopSystem.Reachable (fun _ _ => True) (freshShop n catalog) p.site.shop :=
    run_shop (fun _ _ _ _ _ => trivial) hrun
  have horder := (order_eq_some (orderIds_reachable hshop)).mpr ⟨(mem_ordersMine hmine hd).1, rfl⟩
  have hbehind := behind hrun d.id
  rw [status_eq, horder, Option.map_some] at hbehind
  exact .inr hbehind

theorem Page.Abreast.step (hp : p.Abreast u pod)
    (hrun : (freshSite n catalog users).run env lib proclaims cs = some p.site)
    (hok : attends u pod p a = true) (h : PageStep env lib u p a p') : p'.Abreast u pod := by
  by_cases ha : a = .next
  · subst ha
    obtain ⟨hlistens, hsite, m, hm, hahead⟩ := ahead_next hp.listens h
    have hcases := fun o (htells : p.site.shop.world.2.Tells u o) =>
      next_cases hrun hm htells (hahead o)
    have hsame : ∀ {o s}, p.Fits u o s → p.ahead u o = p'.ahead u o → p'.Fits u o s := by
      intro o s hfits heq
      rw [Page.Fits, hsite, ← heq]
      exact hfits
    refine ⟨hlistens, ?_, ?_, ?_⟩
    · rw [hsite]
      exact fun o htells => List.IsSuffix.trans ⟨_, (hahead o).symm⟩ (hp.latest o htells)
    · rw [hsite]
      intro row hrow o hid htells
      cases h.orders row hrow with
      | kept hold hne =>
        rcases hcases o htells with ⟨ev, rfl, hev, -⟩ | ⟨-, heq⟩
        · exact absurd (hid.trans hev.symm) (hne ev rfl hm)
        · exact hsame (hp.rows row hold o hid htells) heq
      | moved hold hm' hmoved =>
        obtain rfl := Option.some.inj (hm.symm.trans hm')
        rcases hcases o htells with ⟨ev, he, -, hfirst⟩ | ⟨hother, -⟩
        · obtain rfl := Message.order.inj he
          by_cases hlast : p'.ahead u o = []
          · -- the last event that is to come is the last announced
            obtain ⟨before, hbefore⟩ := hp.latest o htells
            rw [hfirst, hlast] at hbefore
            have hbehind := behind hrun o
            rw [← hbefore] at hbehind
            right
            rw [hsite, ← hbefore, milestones_last hbehind]
          · exact .inl hlast
        · exact absurd (hmoved.symm.trans hid) (hother _ rfl)
    · rw [hsite]
      intro docs hdocs d hd htells
      rcases h.listings docs hdocs with hdocs | ⟨sorted, he, -⟩
      · rcases hcases d.id htells with ⟨ev, rfl, hev, -⟩ | ⟨-, heq⟩
        · simp only [attends, hm, List.all_eq_true, decide_eq_true_eq] at hok
          exact absurd hev.symm (hok docs hdocs d hd)
        · exact hsame (hp.listings docs hdocs d hd htells) heq
      · cases he
  · obtain ⟨hlistens, hmore⟩ := ahead_step hp.listens ha hok h
    have hgrown : ∀ {o s}, p'.site.shop.world.2.Tells u o → p.Fits u o s → p'.Fits u o s := by
      intro o s htells hfits
      obtain ⟨more, hahead, hann⟩ := hmore o htells
      exact hfits.more hahead hann
    refine ⟨hlistens, fun o htells => ?_, ?_, ?_⟩
    · obtain ⟨more, hahead, hann⟩ := hmore o htells
      obtain ⟨before, hbefore⟩ := hp.latest o (h.tells htells)
      exact ⟨before, by rw [hahead, hann, ← hbefore, List.append_assoc]⟩
    · intro row hrow o hid htells
      refine hgrown htells ?_
      cases h.orders row hrow with
      | kept hold _ => exact hp.rows row hold o hid (h.tells htells)
      | moved _ _ _ => exact absurd rfl ha
      | listed hdocs hd =>
        obtain rfl := ObjectId.toString_injective hid
        exact hp.listings _ hdocs _ hd (h.tells htells)
      | placed hb => exact fits_placed hb hok hid
    · intro docs hdocs d hd htells
      refine hgrown htells ?_
      rcases h.listings docs hdocs with hdocs | ⟨sorted, -, hmine⟩
      · exact hp.listings docs hdocs d hd (h.tells htells)
      · exact fits_listed hrun hmine hd

/-! ### At rest -/

end Settles

/-! ## A panel -/

/-- The page gets a listing without orders and buys one unit. The order is paid, and the event comes
to the page after the answer. -/
def panelVisit : List PageAct :=
  [.ask [], .hydrate 0, .buy idA.toString "checkout-1"] ++
    (callsOf 0 10 idB).map (.site ∘ .shop) ++ [.bought 0 (some 100)] ++
    (.arrive (.deliver 0 .ordersProcess idB.toString) :: callsOf 1 8 idB).map (.site ∘ .shop) ++
    [.site (.net (.handle 0)), .next]

/-- What the page shows, and what is left to do. -/
def panelOf (p : Page) : List OrderRow × Bool × List Message :=
  (p.orders, p.site.shop.pool.all fun t => t.prog.result.isSome,
    p.site.net.ahead p.socket p.seen)

def paidRow : OrderRow := ⟨idB.toString, idA.toString, 1, 100, .paid, none⟩

theorem panel_run : ∃ s₁ p, siteStart.run envVars authLib proclaims paged = some s₁ ∧
    s₁.net.clients[0]? = some ⟨0, true, [userRoom idC.toString], []⟩ ∧
    s₁.net.listens 0 = true ∧ s₁.net.ahead 0 0 = [] ∧
    (freshPage s₁ 0).run envVars authLib idC (attends idC 0) panelVisit = some p ∧
    p.orders = [paidRow] ∧ p.site.shop.Quiet ∧ p.site.net.ahead p.socket p.seen = [] := by
  have hpaged : (siteStart.run envVars authLib proclaims paged).map
      (fun s => (s.net.clients[0]?, s.net.listens 0, s.net.ahead 0 0)) =
        some (some ⟨0, true, [userRoom idC.toString], []⟩, true, []) := by decide
  have hvisit : ((siteStart.run envVars authLib proclaims paged).bind fun s =>
      (freshPage s 0).run envVars authLib idC (attends idC 0) panelVisit).map panelOf =
        some ([paidRow], true, []) := by decide
  obtain ⟨s₁, h₁, hbefore⟩ := Option.map_eq_some_iff.mp hpaged
  obtain ⟨hclient, hbefore⟩ := Prod.mk.inj hbefore
  obtain ⟨hlistens, hahead⟩ := Prod.mk.inj hbefore
  obtain ⟨p, hp, hafter⟩ := Option.map_eq_some_iff.mp hvisit
  obtain ⟨hrows, hafter⟩ := Prod.mk.inj hafter
  obtain ⟨hended, hread⟩ := Prod.mk.inj hafter
  rw [h₁] at hp
  refine ⟨s₁, p, h₁, hclient, hlistens, hahead, hp, hrows, fun t ht => ?_, hread⟩
  exact Option.ne_none_iff_isSome.mpr (List.all_eq_true.mp hended t ht)

theorem panel_true_paid : ∃ (p : Page) (d : OrderDoc), p.orders = [paidRow] ∧
    p.site.shop.world.2.order idB = some d ∧ d.userId = idC ∧ paidRow.quantity = d.quantity ∧
    Relation.ReflTransGen OrderStatus.Next .paid d.status := by
  obtain ⟨s₁, p, h₁, -, -, -, h, hrows, -⟩ := panel_run
  have hrow : paidRow ∈ p.orders := hrows ▸ List.mem_singleton_self _
  obtain ⟨o, d, hid, hd, huser, -, hqty, hs, -⟩ :=
    panel_true (Site.run_mono h₁ fun _ _ _ => rfl) h hrow
  obtain rfl := ObjectId.toString_injective hid
  exact ⟨p, d, hrows, hd, huser, hqty, hs⟩

end Flashkart
