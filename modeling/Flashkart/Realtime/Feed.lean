import Flashkart.Realtime.Socket
import Flashkart.Shop.Converge

/-!
# Realtime.Feed

What the sockets tell the page.

* `order_events_private` — the events of an order go to who has shown a token of its owner.
* `feed_in_order`  — no event comes twice, or before an earlier one of its channel, and none that
  was not asked for.
* `feed_complete`  — while a socket is subscribed to a product and its pod listens, no event of the
  product is left out.
* `page_shows_stock` — the page then shows the true stock at rest.
-/

namespace Flashkart

open Async Async.Fanout Logic

variable {env : AuthEnv} {lib : AuthLib} {ok : Site → SiteAct → Bool} {n : Nat}
  {catalog : ObjectId → Option ProductDoc} {users : List User} {s₀ s : Site} {as : List SiteAct}
  {i : Nat} {x : Client String Message} {ev : OrderEvent} {r : String}

/-! ## Who gets what -/

/-- At a moment of the run socket `i` has shown a token of the user `sub` that was good then, and
the user had logged in with the right password. -/
def Shown (env : AuthEnv) (lib : AuthLib) (ok : Site → SiteAct → Bool) (s₀ : Site)
    (as : List SiteAct) (i : Nat) (sub : String) : Prop :=
  ∃ bs s₁ token role w', bs ++ [.subscribeOrders i (.string token)] <+: as ∧
    s₀.run env lib ok bs = some s₁ ∧
    Exec (authStore lib) s₁.auth.now i (verifyAccess token) s₁.auth.world (.ok (sub, role)) w' ∧
    LoggedIn env lib (fun _ _ => true) s₀.auth (bs.filterMap SiteAct.authAct) s₁.auth sub

/-- Socket `i` has asked for the room `r`. -/
def Asked (env : AuthEnv) (lib : AuthLib) (ok : Site → SiteAct → Bool) (s₀ : Site)
    (as : List SiteAct) (i : Nat) (r : String) : Prop :=
  (∃ productId, r = productRoom productId ∧ .subscribe i (.string productId) ∈ as) ∨
    ∃ sub, r = userRoom sub ∧ Shown env lib ok s₀ as i sub

theorem Asked.append {a : SiteAct} (h : Asked env lib ok s₀ as i r) :
    Asked env lib ok s₀ (as ++ [a]) i r := by
  rcases h with ⟨productId, hr, hmem⟩ | ⟨sub, hr, bs, s₁, token, role, w', hbefore, hrest⟩
  · exact .inl ⟨productId, hr, List.mem_append_left _ hmem⟩
  · exact .inr ⟨sub, hr, bs, s₁, token, role, w', hbefore.trans (List.prefix_append _ _), hrest⟩

/-- A socket is in rooms it has asked for, and what has come to it is of such rooms. -/
theorem asked_run (h : (freshSite n catalog users).run env lib ok as = some s) :
    ∀ i x r, s.net.clients[i]? = some x → (r ∈ x.rooms ∨ ∃ m ∈ x.emitted, m.room = r) →
      Asked env lib ok (freshSite n catalog users) as i r := by
  refine Site.run_induction (I := fun as s => ∀ i x r, s.net.clients[i]? = some x →
    (r ∈ x.rooms ∨ ∃ m ∈ x.emitted, m.room = r) →
      Asked env lib ok (freshSite n catalog users) as i r) h (fun i x r hx => by cases hx) ?_
  intro as s a s' hrun ih hok hs i x' r hx' hr
  have hnet : ∀ b, s.net.step Message.room b = some s'.net →
      (b = .join i r → Asked env lib ok (freshSite n catalog users) (as ++ [a]) i r) →
      Asked env lib ok (freshSite n catalog users) (as ++ [a]) i r := by
    intro b hb hjoin
    rcases hr with hr | ⟨m, hm, rfl⟩
    · rcases rooms_step hb hx' hr with ⟨x, hx, hr⟩ | hnew
      · exact (ih i x r hx (.inl hr)).append
      · exact hjoin hnew
    · obtain ⟨x, hx, hm | hroom⟩ := emitted_step hb hx' hm
      · exact (ih i x _ hx (.inr ⟨m, hm, rfl⟩)).append
      · exact (ih i x _ hx (.inl hroom)).append
  cases does_of_step hs with
  | shop _ hb => exact hnet _ hb fun he => by cases he
  | auth _ => exact (ih i x' r hx' hr).append
  | tick _ _ => exact (ih i x' r hx' hr).append
  | nothing _ _ => exact (ih i x' r hx' hr).append
  | socket hmoves hb =>
    refine hnet _ hb fun he => ?_
    subst he
    rcases hmoves.join with ⟨productId, rfl, rfl⟩ | ⟨token, sub, role, w', rfl, rfl, hexec⟩
    · exact .inl ⟨productId, rfl, List.mem_append_right _ (List.mem_singleton.mpr rfl)⟩
    · obtain ⟨d, hd, hpayload, -⟩ := exec_verifyAccess hexec
      have hbacked := (backed_run (run_auth hrun)).2 d hd
      rw [SignedToken.Backed, hpayload] at hbacked
      exact .inr ⟨sub, rfl, as, s, token, role, w', List.prefix_rfl, hrun, hexec, hbacked.1⟩

/-- What the sockets have been given, all told. -/
theorem net_of_run (h : (freshSite n catalog users).run env lib ok as = some s) :
    ∃ ms, (∀ (i : Nat) (x : Client String Message), s.net.clients[i]? = some x →
      (x.emitted ++ s.net.inbox x.pod).Sublist ms) ∧
      s.shop.world.2.stockChannel = ms.filterMap Message.stock? ∧
      s.shop.world.2.orderChannel = ms.filterMap Message.order? := by
  obtain ⟨ms, hr, hgains⟩ := run_net (fun _ => trivial) (fun _ _ _ _ _ => trivial) h
  exact ⟨ms, fun i x hx => emitted_sublist hr hx, hgains.stock, hgains.order⟩

/-- An order event that has come to a socket or to its pod was on the channel. -/
theorem heard_channel (h : (freshSite n catalog users).run env lib ok as = some s)
    (hx : s.net.clients[i]? = some x) (hev : .order ev ∈ x.emitted ++ s.net.inbox x.pod) :
    ev ∈ s.shop.world.2.orderChannel := by
  obtain ⟨ms, hsub, -, horder⟩ := net_of_run h
  rw [horder]
  exact List.mem_filterMap.mpr ⟨_, (hsub i x hx).subset hev, rfl⟩

/-- **At most once, and in order.** In every run what has come to a socket from each of the two
channels is some of the channel, in its order; and it has asked for it. -/
theorem feed_in_order (h : (freshSite n catalog users).run env lib ok as = some s)
    (hx : s.net.clients[i]? = some x) :
    (x.emitted.filterMap Message.stock?).Sublist s.shop.world.2.stockChannel ∧
      (x.emitted.filterMap Message.order?).Sublist s.shop.world.2.orderChannel ∧
      ∀ ev, .stock ev ∈ x.emitted → .subscribe i (.string ev.productId) ∈ as := by
  obtain ⟨ms, hsub, hstock, horder⟩ := net_of_run h
  have hemitted := (List.sublist_append_left _ _).trans (hsub i x hx)
  refine ⟨hstock ▸ hemitted.filterMap _, horder ▸ hemitted.filterMap _, fun ev hev => ?_⟩
  rcases asked_run h i x _ hx (.inr ⟨_, hev, rfl⟩) with ⟨productId, hr, hmem⟩ | ⟨sub, hr, -⟩
  · rw [productRoom_inj.mp hr]
    exact hmem
  · exact absurd hr productRoom_ne

/-- **Whose orders a socket hears of.** In every run an order event that has come to a socket is of
an order that is there and has come to that status; and the socket has shown a token of the
order's owner, who had logged in with the right password. -/
theorem order_events_private (h : (freshSite n catalog users).run env lib ok as = some s)
    (hx : s.net.clients[i]? = some x) (hev : .order ev ∈ x.emitted) :
    ∃ o d, castObjectId ev.orderId = some o ∧ s.shop.world.2.order o = some d ∧
      Relation.ReflTransGen OrderStatus.Next ev.status d.status ∧
      Shown env lib ok (freshSite n catalog users) as i d.userId.toString := by
  have hchannel := heard_channel h hx (List.mem_append_left _ hev)
  have hshop : shopSystem.Reachable (fun _ _ => True) (freshShop n catalog) s.shop :=
    run_shop (fun _ _ _ _ _ => trivial) h
  obtain ⟨-, user, huser, o, d, ho, hd, rfl, hs⟩ := (told_reachable hshop).2 ev hchannel
  refine ⟨o, d, ho, hd, hs, ?_⟩
  rcases asked_run h i x _ hx (.inr ⟨_, hev, rfl⟩) with ⟨productId, hr, -⟩ | ⟨sub, hr, hshown⟩
  · exact absurd hr.symm productRoom_ne
  · rw [← huser, userRoom_inj.mp hr]
    exact hshown

/-! ## Nothing left out -/

/-- The events of product `pid` among the messages. -/
def eventsOf (pid : String) (ms : List Message) : List StockEvent :=
  (ms.filterMap Message.stock?).filter fun ev => ev.productId = pid

/-- Socket `i` stays subscribed to `pid`, and its pod goes on listening. -/
def staysSubscribed (i pod : Nat) (pid : String) : SiteAct → Bool
  | .unsubscribe j (.string q) => !(j == i && q == pid)
  | .net (.disconnect j) => j != i
  | .net (.close p) => p != pod
  | .net (.listen p false) => p != pod
  | _ => true

theorem stays_moves {pod : Nat} {pid : String} {a : SiteAct} {b : SocketAct} {s : Site}
    (ha : staysSubscribed i pod pid a = true) (h : Moves lib s a b) :
    stays i pod (productRoom pid) b := by
  refine ⟨?_, ?_, ?_, ?_⟩ <;> rintro rfl
  · obtain ⟨q, rfl, hq⟩ := h.leave
    simp [staysSubscribed, productRoom_inj.mp hq] at ha
  · obtain rfl := h.transport rfl
    simp [staysSubscribed] at ha
  · obtain rfl := h.transport rfl
    simp [staysSubscribed] at ha
  · obtain rfl := h.transport rfl
    simp [staysSubscribed] at ha

theorem eventsOf_append (pid : String) (ms ms' : List Message) :
    eventsOf pid (ms ++ ms') = eventsOf pid ms ++ eventsOf pid ms' := by
  rw [eventsOf, List.filterMap_append, List.filter_append]
  rfl

/-- They are what is emitted to the product's room. -/
theorem eventsOf_room (pid : String) (ms : List Message) :
    (ms.filter fun m => m.room = productRoom pid).filterMap Message.stock? = eventsOf pid ms := by
  induction ms with
  | nil => rfl
  | cons m ms ih =>
    rw [eventsOf] at ih ⊢
    cases m with
    | stock ev =>
      rw [List.filterMap_cons_some (Message.stock?_stock ev)]
      by_cases hp : ev.productId = pid
      · simp [hp, ih]
      · simp [hp, productRoom_inj, ih]
    | order ev =>
      rw [List.filterMap_cons_none (Message.stock?_order ev)]
      simp [productRoom_ne.symm, ih]

theorem Gains.stockEvents {w w' : Shop} {ms : List Message} (h : Gains w ms w') (pid : String) :
    w'.stockEvents pid = w.stockEvents pid ++ eventsOf pid ms := by
  rw [Shop.stockEvents, h.stock, List.filter_append]
  rfl

theorem subscribe_string {pid : String} (hlen : utf16Length pid ≤ 64) :
    subscribe i (.string pid) = some (.join i (productRoom pid)) :=
  if_neg (Nat.not_lt_of_le hlen)

/-- A socket that subscribes and stays subscribed is tuned to what is published since. -/
theorem tuned_since {s₁ s₂ s : Site} {pid : String} (hx : s₁.net.clients[i]? = some x)
    (hconnected : x.connected = true) (hlistens : s₁.net.listens x.pod = true)
    (hlen : utf16Length pid ≤ 64) (hsub : s₁.step env lib (.subscribe i (.string pid)) = some s₂)
    (hok : ∀ s a, ok s a = true → staysSubscribed i x.pod pid a = true)
    (h : s₂.run env lib ok as = some s) :
    ∃ y ms, s.net.clients[i]? = some y ∧ Gains s₁.shop.world.2 ms s.shop.world.2 ∧
      eventsOf pid (y.emitted ++ s.net.inbox x.pod) =
        eventsOf pid (x.emitted ++ s₁.net.inbox x.pod ++ ms) := by
  rw [Site.step, subscribe_string hlen, Site.perform] at hsub
  obtain ⟨net, hnet, rfl⟩ := Option.map_eq_some_iff.mp hsub
  have htuned := tuned_join hnet hx hconnected hlistens
  obtain ⟨ms, hruns, hgains⟩ :=
    run_net (fun _ => stays_publish) (fun s a _ ha hm => stays_moves (hok s a ha) hm) h
  obtain ⟨y, hy, -, -, -, -, hheard⟩ := htuned.runs hruns
  refine ⟨y, ms, hy, hgains, ?_⟩
  rw [← eventsOf_room, hheard, ← List.filter_append, eventsOf_room]

/-- **Nothing is left out.** A socket of a pod that listens subscribes to `pid`. As long as it stays
subscribed and the pod goes on listening, what of the product has come to it, and what is still in
the inbox of its pod, is what it was and then all that has been published since. -/
theorem feed_complete {s₁ s₂ s : Site} {pid : String} (hx : s₁.net.clients[i]? = some x)
    (hconnected : x.connected = true) (hlistens : s₁.net.listens x.pod = true)
    (hlen : utf16Length pid ≤ 64) (hsub : s₁.step env lib (.subscribe i (.string pid)) = some s₂)
    (h : s₂.run env lib (fun _ a => staysSubscribed i x.pod pid a) as = some s) :
    ∃ y evs, s.net.clients[i]? = some y ∧
      s.shop.world.2.stockEvents pid = s₁.shop.world.2.stockEvents pid ++ evs ∧
      eventsOf pid (y.emitted ++ s.net.inbox x.pod) =
        eventsOf pid (x.emitted ++ s₁.net.inbox x.pod) ++ evs := by
  obtain ⟨y, ms, hy, hgains, hheard⟩ :=
    tuned_since hx hconnected hlistens hlen hsub (fun _ _ ha => ha) h
  exact ⟨y, eventsOf pid ms, hy, hgains.stockEvents pid, by rw [hheard, eventsOf_append]⟩

/-! ## The page -/

/-- Publishes succeed, and no step leaves those who listen untold. -/
def tells (pid : String) (s : Site) : SiteAct → Bool
  | .shop a => published s.shop a && leavesTold pid s.shop a
  | _ => true

def siteUser : User := { userA with id := idC }

def siteStart : Site := freshSite 0 (oneProduct 1) [siteUser]

/-- One pod, and a socket of the user who logs in. -/
def paged : List SiteAct :=
  loggedIn.map .auth ++ [.net .attach, .net (.connect 0), .subscribeOrders 0 (.string "at")]

/-- A buy of one unit, which is paid. Its stock event lands last. -/
def paidFor : List ShopAct :=
  orderPlaced ++ .arrive (.deliver 0 .ordersProcess idB.toString) :: callsOf 1 8 idB ++
    [.env (.flush 0)]

def bought : List SiteAct := paidFor.map .shop ++ [.net (.handle 0), .net (.handle 0)]

def paidEvent : OrderEvent := ⟨idB.toString, idC.toString, .paid, 0⟩

def soldEvent : StockEvent := ⟨idA.toString, 0, .purchase, 0⟩

/-- The page subscribes to the product, and then the buy. -/
def paidVisit : List SiteAct := paged ++ [.subscribe 0 (.string idA.toString)] ++ bought

def untroubled (s : Site) (a : SiteAct) : Bool :=
  tells idA.toString s a && staysSubscribed 0 0 idA.toString a

/-- What has come to the sockets, and what is left to do. -/
def visited (s : Site) : List (List Message) × (Bool × List Message) × List (List StockEvent) :=
  (s.net.clients.map (·.emitted),
    (s.shop.pool.all fun t => t.prog.result.isSome, s.net.inbox 0),
    [s.shop.world.2.outbox, s.shop.world.2.stockChannel])

theorem visit_run : ∃ s₁ s₂ s x y,
    siteStart.run envVars authLib untroubled paged = some s₁ ∧
      s₁.step envVars authLib (.subscribe 0 (.string idA.toString)) = some s₂ ∧
      s₂.run envVars authLib untroubled bought = some s ∧
      s₁.net.listens 0 = true ∧ s₁.net.clients[0]? = some x ∧ x.pod = 0 ∧ x.connected = true ∧
      s.net.clients[0]? = some y ∧ y.emitted = [.order paidEvent, .stock soldEvent] ∧
      s.shop.Quiet ∧ s.net.inbox 0 = [] ∧ s.shop.world.2.outbox = [] ∧
      s₁.shop.world.2.stockChannel = [] ∧ s.shop.world.2.stockChannel = [soldEvent] := by
  have hpaged : (siteStart.run envVars authLib untroubled paged).map
      (fun s => (s.net.listens 0, s.net.clients, s.shop.world.2.stockChannel)) =
        some (true, [⟨0, true, [userRoom idC.toString], []⟩], []) := by decide
  have hwhole : (siteStart.run envVars authLib untroubled
      paidVisit).map visited =
        some ([[.order paidEvent, .stock soldEvent]], (true, []), [[], [soldEvent]]) := by decide
  obtain ⟨s₁, h₁, hbefore⟩ := Option.map_eq_some_iff.mp hpaged
  obtain ⟨hlistens, hbefore⟩ := Prod.mk.inj hbefore
  obtain ⟨hclients, hnone⟩ := Prod.mk.inj hbefore
  obtain ⟨s, hs, hafter⟩ := Option.map_eq_some_iff.mp hwhole
  obtain ⟨hshown, hafter⟩ := Prod.mk.inj hafter
  obtain ⟨hdone, hafter⟩ := Prod.mk.inj hafter
  obtain ⟨hquiet, hinbox⟩ := Prod.mk.inj hdone
  obtain ⟨hout, hafter⟩ := List.cons.inj hafter
  obtain ⟨y, hy, hemitted⟩ := List.map_eq_singleton_iff.mp hshown
  rw [paidVisit, Site.run_append, Option.bind_eq_some_iff] at hs
  obtain ⟨s₂, hs₂, h₃⟩ := hs
  obtain ⟨s₁', h₁', -, h₂⟩ := Site.run_concat.mp hs₂
  obtain rfl : s₁' = s₁ := Option.some.inj (h₁'.symm.trans h₁)
  refine ⟨s₁', s₂, s, ⟨0, true, [userRoom idC.toString], []⟩, y, h₁, h₂, h₃, hlistens, ?_, rfl, rfl,
    ?_, hemitted, fun t ht => ?_, hinbox, hout, hnone, (List.cons.inj hafter).1⟩
  · rw [hclients]
    rfl
  · rw [hy]
    rfl
  · exact Option.ne_none_iff_isSome.mpr (List.all_eq_true.mp hquiet t ht)

/-- The run without the guard. -/
theorem visit_whole : ∃ s x,
    siteStart.run envVars authLib (fun _ _ => true) paidVisit = some s ∧
      s.net.clients[0]? = some x ∧ x.emitted = [.order paidEvent, .stock soldEvent] := by
  obtain ⟨s₁, s₂, s, -, y, h₁, h₂, h₃, -, -, -, -, hy, hemitted, -⟩ := visit_run
  have hpaged : siteStart.run envVars authLib (fun _ _ => true) paged =
      some s₁ := Site.run_mono h₁ fun _ _ _ => rfl
  have hbought : s₂.run envVars authLib (fun _ _ => true) bought = some s :=
    Site.run_mono h₃ fun _ _ _ => rfl
  refine ⟨s, y, ?_, hy, hemitted⟩
  rw [paidVisit, Site.run_append, Option.bind_eq_some_iff]
  exact ⟨s₂, Site.run_concat.mpr ⟨s₁, hpaged, rfl, h₂⟩, hbought⟩

/-- Both events come, in whatever order the channels bring them. -/
theorem feed_in_order_paid : ∃ s x,
    siteStart.run envVars authLib (fun _ _ => true) paidVisit = some s ∧
      s.net.clients[0]? = some x ∧ x.emitted = [.order paidEvent, .stock soldEvent] ∧
      [soldEvent].Sublist s.shop.world.2.stockChannel ∧
      [paidEvent].Sublist s.shop.world.2.orderChannel ∧
      .subscribe 0 (.string soldEvent.productId) ∈ paidVisit := by
  obtain ⟨s, x, hrun, hx, hemitted⟩ := visit_whole
  obtain ⟨hstock, horder, hasked⟩ := feed_in_order hrun hx
  have hsold : .stock soldEvent ∈ x.emitted := by
    rw [hemitted]
    exact List.mem_cons_of_mem _ List.mem_cons_self
  rw [hemitted] at hstock horder
  exact ⟨s, x, hrun, hx, hemitted, hstock, horder, hasked soldEvent hsold⟩

/-- The buyer is told of the payment, and has shown a token. -/
theorem order_events_private_paid : ∃ s x o d,
    siteStart.run envVars authLib (fun _ _ => true) paidVisit = some s ∧
      s.net.clients[0]? = some x ∧ .order paidEvent ∈ x.emitted ∧ s.shop.world.2.order o = some d ∧
      Shown envVars authLib (fun _ _ => true) siteStart paidVisit 0
        d.userId.toString := by
  obtain ⟨s, x, hrun, hx, hemitted⟩ := visit_whole
  have hev : .order paidEvent ∈ x.emitted := by
    rw [hemitted]
    exact List.mem_cons_self
  obtain ⟨o, d, -, hd, -, hshown⟩ := order_events_private hrun hx hev
  exact ⟨s, x, o, d, hrun, hx, hev, hd, hshown⟩

/-- The product has one event since the subscription, and it comes. -/
theorem feed_complete_sold : ∃ (s₁ s₂ s : Site) (x y : Client String Message)
    (evs : List StockEvent),
      s₁.step envVars authLib (.subscribe 0 (.string idA.toString)) = some s₂ ∧
      s₂.run envVars authLib (fun _ a => staysSubscribed 0 x.pod idA.toString a) bought = some s ∧
      s₁.net.clients[0]? = some x ∧ s.net.clients[0]? = some y ∧
      s.shop.world.2.stockEvents idA.toString = s₁.shop.world.2.stockEvents idA.toString ++ evs ∧
      eventsOf idA.toString (y.emitted ++ s.net.inbox x.pod) =
        eventsOf idA.toString (x.emitted ++ s₁.net.inbox x.pod) ++ evs := by
  obtain ⟨s₁, s₂, s, x, -, -, h₂, h₃, hlistens, hx, hpod, hconnected, -⟩ := visit_run
  rw [← hpod] at hlistens
  have hrun : s₂.run envVars authLib (fun _ a => staysSubscribed 0 x.pod idA.toString a) bought =
      some s := Site.run_mono h₃ fun s a ha => by rw [hpod]; exact (Bool.and_eq_true_iff.mp ha).2
  obtain ⟨y, evs, hy, hevents, hcome⟩ := feed_complete hx hconnected hlistens (by decide) h₂ hrun
  exact ⟨s₁, s₂, s, x, y, evs, h₂, hrun, hx, hy, hevents, hcome⟩

end Flashkart
