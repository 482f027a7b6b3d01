import Flashkart.Async.Fanout
import Flashkart.Async.Script
import Flashkart.Auth.Access
import Flashkart.Shop.Told

/-!
# Realtime.Socket

The sockets of the api's pods, and the whole site: the shop, the auth routes and the sockets, on one
clock.

* `Message.room`    — the room to which an event of one of the two channels is emitted.
* `subscribe`, `unsubscribe`, `subscribeOrders` — the handlers of what a client sends.
* `Site.step`       — one action of the site. What the shop puts on a channel goes to every pod that
  listens.
* `run_shop`, `run_auth`, `run_net` — a run of the site is one of each of its parts.
-/

namespace Flashkart

open Async Async.Fanout

/-! ## Rooms -/

/-- An event as it comes from `STOCK_CHANNEL` or from `ORDER_CHANNEL`. -/
inductive Message where
  | stock (ev : StockEvent)
  | order (ev : OrderEvent)
  deriving DecidableEq

def productRoom (productId : String) : String := "product:" ++ productId

def userRoom (userId : String) : String := "user:" ++ userId

namespace Message

def room : Message → String
  | .stock ev => productRoom ev.productId
  | .order ev => userRoom ev.userId

def stock? : Message → Option StockEvent
  | .stock ev => some ev
  | .order _ => none

def order? : Message → Option OrderEvent
  | .stock _ => none
  | .order ev => some ev

@[simp] theorem room_stock (ev : StockEvent) : (stock ev).room = productRoom ev.productId := rfl
@[simp] theorem room_order (ev : OrderEvent) : (order ev).room = userRoom ev.userId := rfl
@[simp] theorem stock?_stock (ev : StockEvent) : (stock ev).stock? = some ev := rfl
@[simp] theorem stock?_order (ev : OrderEvent) : (order ev).stock? = none := rfl
@[simp] theorem order?_stock (ev : StockEvent) : (stock ev).order? = none := rfl
@[simp] theorem order?_order (ev : OrderEvent) : (order ev).order? = some ev := rfl

end Message

theorem append_injective {p a b : String} (h : p ++ a = p ++ b) : a = b := by
  have hlist := congrArg String.toList h
  simp only [String.toList_append, List.append_cancel_left_eq] at hlist
  exact String.toList_inj.mp hlist

theorem productRoom_inj {p q : String} : productRoom p = productRoom q ↔ p = q :=
  ⟨append_injective, congrArg _⟩

theorem userRoom_inj {u v : String} : userRoom u = userRoom v ↔ u = v :=
  ⟨append_injective, congrArg _⟩

theorem productRoom_ne {p u : String} : productRoom p ≠ userRoom u := by
  intro h
  have hlist := congrArg String.toList h
  simp only [productRoom, userRoom, String.toList_append] at hlist
  cases hlist

/-! ## The handlers -/

/-- What a client sends along with an event: a string, or anything else. -/
inductive Payload where
  | string (s : String)
  | other
  deriving DecidableEq

/-- The `length` of a string, in UTF-16 code units. -/
def utf16Length (s : String) : Nat :=
  (s.toList.map fun c => if c.toNat < 0x10000 then 1 else 2).sum

abbrev SocketAct : Type := NetAct String Message

def subscribe (s : Nat) : Payload → Option SocketAct
  | .string productId =>
    if utf16Length productId > 64 then none else some (.join s (productRoom productId))
  | .other => none

def unsubscribe (s : Nat) : Payload → Option SocketAct
  | .string productId => some (.leave s (productRoom productId))
  | .other => none

/-- A token that does not verify joins no room. -/
def subscribeOrders (lib : AuthLib) (now : Nat) (w : AuthWorld) (s : Nat) :
    Payload → Option SocketAct
  | .string token =>
    match (verifyAccess token).exec (authStore lib) now s [""] w with
    | some (.ok (sub, _), _) => some (.join s (userRoom sub))
    | _ => none
  | .other => none

/-! ## The site -/

structure Site where
  shop : ShopConfig
  auth : AuthConfig
  net : Net String Message

/-- `net`: a pod starts or stops, its subscription goes down or up, or it takes the next message;
a socket connects or disconnects. -/
inductive SiteAct where
  | shop (a : ShopAct)
  | auth (a : AuthAct)
  | tick (d : Nat)
  | subscribe (s : Nat) (productId : Payload)
  | unsubscribe (s : Nat) (productId : Payload)
  | subscribeOrders (s : Nat) (token : Payload)
  | net (a : SocketAct)

/-- Nobody publishes but the shop, and rooms are joined and left by the handlers. -/
def transport : SocketAct → Bool
  | .publish _ | .join .. | .leave .. => false
  | _ => true

def passesTime {Req P Env : Type} : Act Err Req P Env → Bool
  | .tick _ => true
  | _ => false

/-- What is on the channels of `w'` and was not on those of `w`. -/
def Shop.news (w w' : Shop) : List Message :=
  (w'.stockChannel.drop w.stockChannel.length).map .stock ++
    (w'.orderChannel.drop w.orderChannel.length).map .order

namespace Site

def perform (s : Site) : Option SocketAct → Option Site
  | some a => (s.net.step Message.room a).map fun net => { s with net := net }
  | none => some s

def step (env : AuthEnv) (lib : AuthLib) (s : Site) : SiteAct → Option Site
  | .shop a =>
    if passesTime a then none
    else (shopSystem.step s.shop a).bind fun shop =>
      (s.net.step Message.room (.publish (s.shop.world.2.news shop.world.2))).map fun net =>
        { s with shop := shop, net := net }
  | .auth a =>
    if passesTime a then none
    else ((authSystem env lib).step s.auth a).map fun auth => { s with auth := auth }
  | .tick d =>
    (shopSystem.step s.shop (.tick d)).bind fun shop =>
      ((authSystem env lib).step s.auth (.tick d)).map fun auth =>
        { s with shop := shop, auth := auth }
  | .subscribe i productId => s.perform (Flashkart.subscribe i productId)
  | .unsubscribe i productId => s.perform (Flashkart.unsubscribe i productId)
  | .subscribeOrders i token =>
    s.perform (Flashkart.subscribeOrders lib s.auth.now s.auth.world i token)
  | .net a => if transport a then s.perform (some a) else none

/-- The actions one after the other; `none` when one of them cannot happen or is not let through
by `ok`. -/
def run (env : AuthEnv) (lib : AuthLib) (ok : Site → SiteAct → Bool) (s : Site)
    (as : List SiteAct) : Option Site :=
  as.foldlM (fun s a => if ok s a then s.step env lib a else none) s

end Site

def freshSite (now : Nat) (catalog : ObjectId → Option ProductDoc) (users : List User) : Site :=
  ⟨freshShop now catalog, freshAuth now users, .empty⟩

def SiteAct.shopAct : SiteAct → Option ShopAct
  | .shop a => some a
  | .tick d => some (.tick d)
  | _ => none

def SiteAct.authAct : SiteAct → Option AuthAct
  | .auth a => some a
  | .tick d => some (.tick d)
  | _ => none

/-- What an action does to the sockets, unless it publishes. -/
inductive Moves (lib : AuthLib) (s : Site) : SiteAct → SocketAct → Prop
  | subscribe {i : Nat} {p : Payload} {b : SocketAct} :
      subscribe i p = some b → Moves lib s (.subscribe i p) b
  | unsubscribe {i : Nat} {p : Payload} {b : SocketAct} :
      unsubscribe i p = some b → Moves lib s (.unsubscribe i p) b
  | subscribeOrders {i : Nat} {p : Payload} {b : SocketAct} :
      subscribeOrders lib s.auth.now s.auth.world i p = some b →
      Moves lib s (.subscribeOrders i p) b
  | net {b : SocketAct} : transport b = true → Moves lib s (.net b) b

/-- What a step does: it is one of the shop, with its news, one of the auth routes, time for both of
them, or something about the sockets, if anything. -/
inductive Does (env : AuthEnv) (lib : AuthLib) (s : Site) : SiteAct → Site → Prop
  | shop {a : ShopAct} {shop : ShopConfig} {net : Net String Message} :
      shopSystem.step s.shop a = some shop →
      s.net.step Message.room (.publish (s.shop.world.2.news shop.world.2)) = some net →
      Does env lib s (.shop a) { s with shop := shop, net := net }
  | auth {a : AuthAct} {auth : AuthConfig} : (authSystem env lib).step s.auth a = some auth →
      Does env lib s (.auth a) { s with auth := auth }
  | tick {d : Nat} {shop : ShopConfig} {auth : AuthConfig} :
      shopSystem.step s.shop (.tick d) = some shop →
      (authSystem env lib).step s.auth (.tick d) = some auth →
      Does env lib s (.tick d) { s with shop := shop, auth := auth }
  | socket {a : SiteAct} {b : SocketAct} {net : Net String Message} : Moves lib s a b →
      s.net.step Message.room b = some net → Does env lib s a { s with net := net }
  | nothing {a : SiteAct} : a.shopAct = none → a.authAct = none → Does env lib s a s

/-! ## One action -/

section Step

variable {env : AuthEnv} {lib : AuthLib} {s s' : Site} {a : SiteAct} {b : SocketAct} {i : Nat}
  {r : String}

theorem perform_does {o : Option SocketAct} (h : s.perform o = some s') (hshop : a.shopAct = none)
    (hauth : a.authAct = none) (hmoves : ∀ b, o = some b → Moves lib s a b) :
    Does env lib s a s' := by
  cases o with
  | none =>
    obtain rfl := Option.some.inj h
    exact .nothing hshop hauth
  | some b =>
    obtain ⟨net, hnet, rfl⟩ := Option.map_eq_some_iff.mp h
    exact .socket (hmoves b rfl) hnet

theorem does_of_step (h : s.step env lib a = some s') : Does env lib s a s' := by
  cases a with
  | shop b =>
    simp only [Site.step] at h
    split at h
    · cases h
    · obtain ⟨shop, hshop, h⟩ := Option.bind_eq_some_iff.mp h
      obtain ⟨net, hnet, rfl⟩ := Option.map_eq_some_iff.mp h
      exact .shop hshop hnet
  | auth b =>
    simp only [Site.step] at h
    split at h
    · cases h
    · obtain ⟨auth, hauth, rfl⟩ := Option.map_eq_some_iff.mp h
      exact .auth hauth
  | tick d => cases h; exact .tick rfl rfl
  | subscribe i p => exact perform_does h rfl rfl fun b hb => .subscribe hb
  | unsubscribe i p => exact perform_does h rfl rfl fun b hb => .unsubscribe hb
  | subscribeOrders i p => exact perform_does h rfl rfl fun b hb => .subscribeOrders hb
  | net b =>
    simp only [Site.step] at h
    split at h
    · rename_i htransport
      exact perform_does h rfl rfl fun b' hb => (Option.some.inj hb ▸ .net htransport)
    · cases h

theorem Moves.acts (h : Moves lib s a b) : a.shopAct = none ∧ a.authAct = none := by
  cases h <;> exact ⟨rfl, rfl⟩

theorem subscribe_eq_some {p : Payload} (h : subscribe i p = some b) :
    ∃ productId, p = .string productId ∧ utf16Length productId ≤ 64 ∧
      b = .join i (productRoom productId) := by
  cases p with
  | string productId =>
    simp only [subscribe] at h
    split at h
    · cases h
    · rename_i hlen
      cases h
      exact ⟨productId, rfl, Nat.le_of_not_lt hlen, rfl⟩
  | other => cases h

theorem unsubscribe_eq_some {p : Payload} (h : unsubscribe i p = some b) :
    ∃ productId, p = .string productId ∧ b = .leave i (productRoom productId) := by
  cases p with
  | string productId =>
    cases h
    exact ⟨productId, rfl, rfl⟩
  | other => cases h

theorem subscribeOrders_eq_some {now : Nat} {w : AuthWorld} {p : Payload}
    (h : subscribeOrders lib now w i p = some b) : ∃ token sub role w', p = .string token ∧
      Exec (authStore lib) now i (verifyAccess token) w (.ok (sub, role)) w' ∧
        b = .join i (userRoom sub) := by
  cases p with
  | string token =>
    simp only [subscribeOrders] at h
    split at h
    · rename_i sub role w' hexec
      cases h
      exact ⟨token, sub, role, w', rfl, .of_exec hexec, rfl⟩
    · cases h
  | other => cases h

theorem Moves.published (h : Moves lib s a b) : b.published = [] := by
  cases h with
  | subscribe hb =>
    obtain ⟨productId, -, -, rfl⟩ := subscribe_eq_some hb
    rfl
  | unsubscribe hb =>
    obtain ⟨productId, -, rfl⟩ := unsubscribe_eq_some hb
    rfl
  | subscribeOrders hb =>
    obtain ⟨token, sub, role, w', -, -, rfl⟩ := subscribeOrders_eq_some hb
    rfl
  | net htransport =>
    cases b with
    | publish ms => cases htransport
    | _ => rfl

/-- A room is joined for a product, or with a token of the user whose room it is. -/
theorem Moves.join (h : Moves lib s a (.join i r)) :
    (∃ productId, a = .subscribe i (.string productId) ∧ r = productRoom productId) ∨
      ∃ token sub role w', a = .subscribeOrders i (.string token) ∧ r = userRoom sub ∧
        Exec (authStore lib) s.auth.now i (verifyAccess token) s.auth.world
          (.ok (sub, role)) w' := by
  cases h with
  | subscribe hb =>
    obtain ⟨productId, rfl, -, heq⟩ := subscribe_eq_some hb
    cases heq
    exact .inl ⟨productId, rfl, rfl⟩
  | unsubscribe hb =>
    obtain ⟨productId, -, heq⟩ := unsubscribe_eq_some hb
    cases heq
  | subscribeOrders hb =>
    obtain ⟨token, sub, role, w', rfl, hexec, heq⟩ := subscribeOrders_eq_some hb
    cases heq
    exact .inr ⟨token, sub, role, w', rfl, rfl, hexec⟩
  | net htransport => cases htransport

/-- Only a product's room is left. -/
theorem Moves.leave (h : Moves lib s a (.leave i r)) :
    ∃ productId, a = .unsubscribe i (.string productId) ∧ r = productRoom productId := by
  cases h with
  | subscribe hb =>
    obtain ⟨productId, -, -, heq⟩ := subscribe_eq_some hb
    cases heq
  | unsubscribe hb =>
    obtain ⟨productId, rfl, heq⟩ := unsubscribe_eq_some hb
    cases heq
    exact ⟨productId, rfl, rfl⟩
  | subscribeOrders hb =>
    obtain ⟨token, sub, role, w', -, -, heq⟩ := subscribeOrders_eq_some hb
    cases heq
  | net htransport => cases htransport

/-- The rest is not in the hands of the clients. -/
theorem Moves.transport (h : Moves lib s a b) (hb : transport b = true) : a = .net b := by
  cases h with
  | subscribe hact =>
    obtain ⟨productId, -, -, rfl⟩ := subscribe_eq_some hact
    cases hb
  | unsubscribe hact =>
    obtain ⟨productId, -, rfl⟩ := unsubscribe_eq_some hact
    cases hb
  | subscribeOrders hact =>
    obtain ⟨token, sub, role, w', -, -, rfl⟩ := subscribeOrders_eq_some hact
    cases hb
  | net _ => rfl

end Step

/-! ## The channels -/

/-- What is on the channels stays there, and nothing comes between. -/
structure Appended (w w' : Shop) : Prop where
  stock : w.stockChannel <+: w'.stockChannel
  order : w.orderChannel <+: w'.orderChannel

theorem Appended.of_same {w w' : Shop} (hstock : w'.stockChannel = w.stockChannel)
    (horder : w'.orderChannel = w.orderChannel) : Appended w w' :=
  ⟨hstock ▸ List.prefix_rfl, horder ▸ List.prefix_rfl⟩

theorem channels_store {now i : Nat} {op : ShopOp} {q : Pick} {w w' : Shop} {x : op.Ret}
    (h : shopStore now i op q w = some (x, w')) : Appended w w' := by
  have hsame := shopStore_same h
  cases op with
  | publishStock ev => cases h; exact ⟨List.prefix_append _ _, List.prefix_rfl⟩
  | publishOrder ev => cases h; exact ⟨List.prefix_rfl, List.prefix_append _ _⟩
  | _ =>
    exact .of_same (hsame.stockChannel fun he => by cases he)
      (hsame.orderChannel fun he => by cases he)

theorem channels_step {c c' : ShopConfig} {a : ShopAct} (h : shopSystem.step c a = some c') :
    Appended c.world.2 c'.world.2 := by
  cases a with
  | arrive r =>
    obtain ⟨w', hw, rfl⟩ := Option.map_eq_some_iff.mp h
    have hsame := (accept_same hw).2
    exact .of_same (hsame.stockChannel fun he => by cases he)
      (hsame.orderChannel fun he => by cases he)
  | call i f =>
    obtain ⟨id, r, op, k, tr, out, w', -, hx, rfl⟩ := System.callStep_eq_some h
    rcases call_effect hx with heq | ⟨op, q, x, -, hstore⟩
    · exact .of_same (congrArg Shop.stockChannel heq) (congrArg Shop.orderChannel heq)
    · exact channels_store hstore
  | tick d => cases h; exact .of_same rfl rfl
  | env e =>
    obtain ⟨w', hw, rfl⟩ := Option.map_eq_some_iff.mp h
    obtain ⟨w, he, rfl⟩ := Option.map_eq_some_iff.mp hw
    cases e with
    | flush j =>
      obtain ⟨ev, -, heq⟩ := Option.map_eq_some_iff.mp he
      cases heq
      exact ⟨List.prefix_append _ _, List.prefix_rfl⟩
    | _ => cases he; exact .of_same rfl rfl

/-- The channels of `w'` are those of `w` and then what is in `ms`. -/
structure Gains (w : Shop) (ms : List Message) (w' : Shop) : Prop where
  stock : w'.stockChannel = w.stockChannel ++ ms.filterMap Message.stock?
  order : w'.orderChannel = w.orderChannel ++ ms.filterMap Message.order?

theorem Gains.append {w w' w'' : Shop} {ms ms' : List Message} (h : Gains w ms w')
    (h' : Gains w' ms' w'') : Gains w (ms ++ ms') w'' where
  stock := by rw [h'.stock, h.stock, List.filterMap_append, List.append_assoc]
  order := by rw [h'.order, h.order, List.filterMap_append, List.append_assoc]

theorem gains_news {w w' : Shop} (h : Appended w w') : Gains w (w.news w') w' := by
  have hstock : ∀ l : List StockEvent, (l.map Message.stock).filterMap Message.stock? = l ∧
      (l.map Message.stock).filterMap Message.order? = [] := fun l =>
    ⟨by rw [List.filterMap_map]; exact List.filterMap_some,
      by rw [List.filterMap_map]; exact List.filterMap_eq_nil_iff.mpr fun _ _ => rfl⟩
  have horder : ∀ l : List OrderEvent, (l.map Message.order).filterMap Message.order? = l ∧
      (l.map Message.order).filterMap Message.stock? = [] := fun l =>
    ⟨by rw [List.filterMap_map]; exact List.filterMap_some,
      by rw [List.filterMap_map]; exact List.filterMap_eq_nil_iff.mpr fun _ _ => rfl⟩
  constructor
  · rw [Shop.news, List.filterMap_append, (hstock _).1, (horder _).2, List.append_nil]
    exact (List.prefix_iff_eq_append.mp h.stock).symm
  · rw [Shop.news, List.filterMap_append, (hstock _).2, (horder _).1, List.nil_append]
    exact (List.prefix_iff_eq_append.mp h.order).symm

/-! ## Runs -/

section Runs

variable {env : AuthEnv} {lib : AuthLib} {ok : Site → SiteAct → Bool} {s₀ s s' : Site}
  {as bs : List SiteAct}

theorem Site.run_append : s₀.run env lib ok (as ++ bs) =
    (s₀.run env lib ok as).bind fun s => s.run env lib ok bs := script_append

theorem Site.run_concat {a : SiteAct} : s₀.run env lib ok (as ++ [a]) = some s' ↔
    ∃ s, s₀.run env lib ok as = some s ∧ ok s a = true ∧ s.step env lib a = some s' :=
  script_concat

theorem Site.run_mono {ok' : Site → SiteAct → Bool} (h : s₀.run env lib ok as = some s)
    (himp : ∀ s a, ok s a = true → ok' s a = true) : s₀.run env lib ok' as = some s :=
  script_mono h himp

/-- What holds at first and is kept by every action. -/
theorem Site.run_induction {I : List SiteAct → Site → Prop} (h : s₀.run env lib ok as = some s)
    (h0 : I [] s₀)
    (hstep : ∀ as s a s', s₀.run env lib ok as = some s → I as s → ok s a = true →
      s.step env lib a = some s' → I (as ++ [a]) s') : I as s := script_induction h h0 hstep

theorem run_shop {okShop : System.Guard apiSig Err ShopReq ShopRes (IdemKv × Shop) Pick ShopEnv}
    (hok : ∀ s a b, ok s a = true → a.shopAct = some b → okShop s.shop b)
    (h : s₀.run env lib ok as = some s) : shopSystem.Reachable okShop s₀.shop s.shop := by
  refine Site.run_induction (I := fun _ s => shopSystem.Reachable okShop s₀.shop s.shop) h .init ?_
  intro as s a s' _ hr hoka hs
  cases does_of_step hs with
  | shop hshop _ => exact .step hr (hok _ _ _ hoka rfl) hshop
  | auth _ => exact hr
  | tick hshop _ => exact .step hr (hok _ _ _ hoka rfl) hshop
  | socket _ _ => exact hr
  | nothing _ _ => exact hr

theorem run_auth (h : s₀.run env lib ok as = some s) :
    (authSystem env lib).run (fun _ _ => true) s₀.auth (as.filterMap SiteAct.authAct) =
      some s.auth := by
  refine Site.run_induction (I := fun as s => (authSystem env lib).run (fun _ _ => true) s₀.auth
    (as.filterMap SiteAct.authAct) = some s.auth) h rfl ?_
  intro as s a s' _ hr _ hs
  have hnone : a.authAct = none → s'.auth = s.auth → (authSystem env lib).run (fun _ _ => true)
      s₀.auth ((as ++ [a]).filterMap SiteAct.authAct) = some s'.auth := by
    intro hact heq
    rw [List.filterMap_append, List.filterMap_cons_none hact, List.filterMap_nil, List.append_nil,
      heq]
    exact hr
  have hsome : ∀ b, a.authAct = some b → (authSystem env lib).step s.auth b = some s'.auth →
      (authSystem env lib).run (fun _ _ => true) s₀.auth
        ((as ++ [a]).filterMap SiteAct.authAct) = some s'.auth := by
    intro b hact hstep
    rw [List.filterMap_append, List.filterMap_cons_some hact, List.filterMap_nil]
    exact System.run_concat.mpr ⟨s.auth, hr, rfl, hstep⟩
  cases does_of_step hs with
  | shop _ _ => exact hnone rfl rfl
  | auth hauth => exact hsome _ rfl hauth
  | tick _ hauth => exact hsome _ rfl hauth
  | socket hmoves _ => exact hnone hmoves.acts.2 rfl
  | nothing _ hact => exact hnone hact rfl

/-- What the sockets do in a run, and that it is what comes on the channels that they are given. -/
theorem run_net {okNet : SocketAct → Prop} (hpublish : ∀ ms, okNet (.publish ms))
    (hok : ∀ s a b, ok s a = true → Moves lib s a b → okNet b) (h : s₀.run env lib ok as = some s) :
    ∃ ms, Runs Message.room okNet s₀.net ms s.net ∧ Gains s₀.shop.world.2 ms s.shop.world.2 := by
  refine Site.run_induction (I := fun _ s => ∃ ms, Runs Message.room okNet s₀.net ms s.net ∧
    Gains s₀.shop.world.2 ms s.shop.world.2) h
    ⟨[], .refl, (List.append_nil _).symm, (List.append_nil _).symm⟩ ?_
  rintro as s a s' - ⟨ms, hr, hgains⟩ hoka hs
  cases does_of_step hs with
  | shop hshop hnet =>
    exact ⟨_, .step hr (hpublish _) hnet, hgains.append (gains_news (channels_step hshop))⟩
  | auth _ => exact ⟨ms, hr, hgains⟩
  | tick hshop _ =>
    cases hshop
    exact ⟨ms, hr, hgains⟩
  | socket hmoves hnet =>
    have hr' := hr.step (hok _ _ _ hoka hmoves) hnet
    rw [hmoves.published, List.append_nil] at hr'
    exact ⟨ms, hr', hgains⟩
  | nothing _ _ => exact ⟨ms, hr, hgains⟩

end Runs

end Flashkart
