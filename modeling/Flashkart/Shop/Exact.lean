import Flashkart.Async.Moments
import Flashkart.Shop.Compensation

/-!
# Shop.Exact

What the attempts at an order's process job have done to it in a run, by the effects of their calls:
the saves, the update that moved it to paid, the units given back.

* `Exact.Saved`, `Exact.Paid`, `Exact.Refunded` — the three books, each kept by every action.
* `compensated_exactly` — when the attempts are over, the order is failed and its units are given
  back once if `JOB_ATTEMPTS` attempts were made and none of them moved it to paid, and else it is
  paid and nothing was given back.
-/

namespace Flashkart

open Async Logic

/-- An attempt at a process job for `o`. -/
def ShopReq.attempts (o : ObjectId) : ShopReq → Bool
  | .deliver _ .ordersProcess oid => castObjectId oid = some o
  | _ => false

abbrev ShopEffect : Type := Executed apiSig ShopReq

namespace Exact

def saves (o : ObjectId) : ShopEffect → Bool
  | ⟨_, r, .inr (.orderSave ..), _⟩ => r.attempts o
  | _ => false

def pays (o : ObjectId) : ShopEffect → Bool
  | ⟨_, r, .inr (.orderFindOneAndUpdate _ .pending .paid _), d⟩ => r.attempts o && d.isSome
  | _ => false

/-- The counter that was added to, and what was added. -/
def refund (o : ObjectId) : ShopEffect → Option (String × Nat)
  | ⟨_, r, .inr (.incrby key n), _⟩ => if r.attempts o then some (key, n) else none
  | _ => none

/-- What an attempt for `o` has given back. -/
def credit (o : ObjectId) (a : Delivery) : Option (String × Nat) :=
  match a.stage with
  | .repaid d => if castObjectId a.orderId = some o then some d.units else none
  | _ => none

/-- Before the save. -/
def early : Delivery.Stage → Bool
  | .opened | .found _ => true
  | _ => false

variable {o : ObjectId} {n : Nat} {catalog : ObjectId → Option ProductDoc} {c c' : ShopConfig}
  {es : List ShopEffect}

/-! ## One call -/

theorem early_back {l : Option Delivery} {op : ShopOp} {out : Except Err op.Ret} {a' : Delivery}
    (hready : Delivery.ready l (.inr op)) (hl' : Delivery.post op out l = some a')
    (h : early a'.stage = true) :
    (∃ a, l = some a ∧ early a.stage = true) ∧ ∀ id n, op ≠ .orderSave id n := by
  obtain ⟨a, rfl, rfl⟩ := Option.map_eq_some_iff.mp hl'
  obtain ⟨job, oid, s⟩ := a
  have hkept : s.move op out = s → ∃ a, some (⟨job, oid, s⟩ : Delivery) = some a ∧
      early a.stage = true := fun he => ⟨_, rfl, he ▸ h⟩
  cases op with
  | orderFindById id =>
    cases s with
    | opened => exact ⟨⟨_, rfl, rfl⟩, fun _ _ he => by cases he⟩
    | _ => rcases out with e | (_ | d) <;> exact ⟨hkept rfl, fun _ _ he => by cases he⟩
  | orderSave id n => cases h
  | orderFindOneAndUpdate id src dst reason =>
    obtain ⟨-, rfl, ⟨rfl, rfl⟩ | ⟨rfl, rfl⟩⟩ := hready
    · rcases out with e | d <;> cases h
    · rcases out with e | (_ | d) <;> cases h
  | incrby key n =>
    obtain ⟨d, rfl, -, -⟩ := hready
    rcases out with e | r <;> cases h
  | moveToCompleted j => cases h
  | moveToFailed j =>
    rcases out with e | (_ | n)
    · cases h
    · cases h
    · simp only [Delivery.Stage.move] at h
      split at h <;> cases h
  | orderCreate inp => exact absurd hready id
  | _ => exact ⟨hkept rfl, fun _ _ he => by cases he⟩

/-- What a call of thread `i` comes to. -/
inductive Turn (c : ShopConfig) (i : Nat) (f : Fate Err Pick) (c' : ShopConfig) :
    List ShopEffect → Prop where
  | other {es : List ShopEffect} (t t' : ShopThread) (ht : c.pool[i]? = some t)
      (hset : c'.pool = c.pool.set i t') (hreq : t'.req = t.req)
      (haccount : Compensation.account t' = Compensation.account t)
      (hworld : c'.world.2 = c.world.2) (hes : ∀ e ∈ es, ∃ k, e.op = .inl k)
      (hthread : ∀ e ∈ es, e.thread = i ∧ e.req = t.req) : Turn c i f c' es
  | none (t t' : ShopThread) (op : ShopOp) (e : Err) (ht : c.pool[i]? = some t)
      (hset : c'.pool = c.pool.set i t') (hreq : t'.req = t.req)
      (hready : Delivery.ready (Compensation.account t) (.inr op)) (hnext : t.prog.next = some (.inr op))
      (haccount : Compensation.account t' = Delivery.post op (.error e) (Compensation.account t))
      (hworld : c'.world.2 = c.world.2)
      (hexec : shopStore.exec c.now i op f c.world.2 = some (.error e, c'.world.2)) : Turn c i f c' []
  | effect (t t' : ShopThread) (op : ShopOp) (out : Except Err op.Ret) (x : op.Ret) (q : Pick)
      (ht : c.pool[i]? = some t) (hset : c'.pool = c.pool.set i t') (hreq : t'.req = t.req)
      (hready : Delivery.ready (Compensation.account t) (.inr op)) (hnext : t.prog.next = some (.inr op))
      (haccount : Compensation.account t' = Delivery.post op out (Compensation.account t))
      (hstore : shopStore c.now i op q c.world.2 = some (x, c'.world.2))
      (hout : ∀ b, out = .ok b → b = x)
      (hexec : shopStore.exec c.now i op f c.world.2 = some (out, c'.world.2)) :
      Turn c i f c' [⟨i, t.req, .inr op, x⟩]

theorem turn {ok : System.Guard apiSig Err ShopReq ShopRes (IdemKv × Shop) Pick ShopEnv}
    (h : shopSystem.Reachable ok (freshShop n catalog) c) {i : Nat} {f : Fate Err Pick}
    (hs : shopSystem.callStep c i f = some c') :
    Turn c i f c' (shopSystem.effect c (.call i f)).toList := by
  obtain ⟨id, r, o, k, tr, out, w, hp, hx, rfl⟩ := System.callStep_eq_some hs
  obtain rfl : id = i := h.id_eq rfl i _ hp
  have hready := (h.follows rfl Delivery.follows_request _ (List.mem_of_getElem? hp)).1
  cases o with
  | inl key =>
    have hw : w.2 = c.world.2 := exec_inl hx
    have heffect : ∀ e ∈ (shopSystem.effect c (.call id f)).toList,
        (∃ k, e.op = .inl k) ∧ e.thread = id ∧ e.req = r := by
      intro e he
      rcases System.effect_call hp hx with ⟨-, p, x, -, heffect, -⟩ | ⟨-, -, heffect, -⟩
      · rw [heffect, Option.toList_some, List.mem_singleton] at he
        exact he ▸ ⟨⟨key, rfl⟩, rfl, rfl⟩
      · rw [heffect] at he
        cases he
    exact .other _ _ hp rfl rfl rfl hw (fun e he => (heffect e he).1) fun e he => (heffect e he).2
  | inr op =>
    have hexec := (exec_inr hx).1
    rcases System.effect_call hp hx with ⟨-, p, x, hstore, heffect, hout⟩ | ⟨-, rfl, heffect, e, rfl⟩
    · rw [heffect]
      exact .effect _ _ op out x p hp rfl rfl hready rfl rfl (Store.sum_inr (f := kvStore) hstore).1 hout hexec
    · rw [heffect]
      exact .none _ _ op e hp rfl rfl hready rfl rfl rfl hexec

/-! ## The saves -/

structure Saved (o : ObjectId) (c : ShopConfig) (es : List ShopEffect) : Prop where
  made : ∀ e ∈ es, ∃ t, c.pool[e.thread]? = some t ∧ t.req = e.req
  count : ∀ d, c.world.2.order o = some d → d.paymentAttempts = es.countP (saves o)
  early : ∀ i t a, c.pool[i]? = some t → Compensation.account t = some a → early a.stage = true →
    ∀ e ∈ es, saves o e = true → e.thread ≠ i
  once : ((es.filter (saves o)).map (·.thread)).Nodup

theorem saves_inl {e : ShopEffect} (h : ∃ k, e.op = .inl k) : saves o e = false := by
  obtain ⟨i, r, op, x⟩ := e
  obtain ⟨k, rfl⟩ := h
  rfl

theorem saves_other {i : Nat} {r : ShopReq} {op : ShopOp} {x : op.Ret}
    (h : ∀ id n, op ≠ .orderSave id n) : saves o ⟨i, r, .inr op, x⟩ = false := by
  cases op with
  | orderSave id n => exact absurd rfl (h id n)
  | _ => rfl

/-- An action with effects that are no save of `o`. -/
theorem Saved.other {fs : List ShopEffect} (h : Saved o c es)
    (hpool : ∀ (i : Nat) t, c.pool[i]? = some t → ∃ t', c'.pool[i]? = some t' ∧ t'.req = t.req)
    (hmade : ∀ e ∈ fs, ∃ t, c'.pool[e.thread]? = some t ∧ t.req = e.req)
    (hcount : ∀ d, c'.world.2.order o = some d → d.paymentAttempts = es.countP (saves o))
    (hearly : ∀ (i : Nat) t' a', c'.pool[i]? = some t' → Compensation.account t' = some a' →
      Exact.early a'.stage = true → c.pool.length ≤ i ∨ ∃ t a, c.pool[i]? = some t ∧
        Compensation.account t = some a ∧ Exact.early a.stage = true)
    (hnot : ∀ e ∈ fs, saves o e = false) : Saved o c' (es ++ fs) where
  made := by
    intro e he
    rcases List.mem_append.mp he with he | he
    · obtain ⟨t, ht, hreq⟩ := h.made e he
      obtain ⟨t', ht', hreq'⟩ := hpool _ t ht
      exact ⟨t', ht', hreq'.trans hreq⟩
    · exact hmade e he
  count := by
    intro d hd
    have hzero : fs.countP (saves o) = 0 :=
      List.countP_eq_zero.mpr fun e he => by rw [hnot e he]; exact Bool.false_ne_true
    rw [List.countP_append, hzero, hcount d hd, Nat.add_zero]
  early := by
    intro i t' a' ht' ha' hstage e he hsaves
    rcases List.mem_append.mp he with he | he
    · rcases hearly i t' a' ht' ha' hstage with hnew | ⟨t, a, ht, ha, hold⟩
      · obtain ⟨u, hu, -⟩ := h.made e he
        have hlt := (List.getElem?_eq_some_iff.mp hu).1
        omega
      · exact h.early i t a ht ha hold e he hsaves
    · rw [hnot e he] at hsaves
      cases hsaves
  once := by
    have hnil : fs.filter (saves o) = [] :=
      List.filter_eq_nil_iff.mpr fun e he => by rw [hnot e he]; exact Bool.false_ne_true
    rw [List.filter_append, hnil, List.append_nil]
    exact h.once

/-- A save of `o` by a thread that had not saved it. -/
theorem Saved.more {e : ShopEffect} (h : Saved o c es)
    (hpool : ∀ (i : Nat) t, c.pool[i]? = some t → ∃ t', c'.pool[i]? = some t' ∧ t'.req = t.req)
    (hmade : ∃ t, c'.pool[e.thread]? = some t ∧ t.req = e.req) (hsaves : saves o e = true)
    (hfirst : ∀ e' ∈ es, saves o e' = true → e'.thread ≠ e.thread)
    (hcount : ∀ d, c'.world.2.order o = some d → d.paymentAttempts = es.countP (saves o) + 1)
    (hearly : ∀ (i : Nat) t' a', c'.pool[i]? = some t' → Compensation.account t' = some a' →
      Exact.early a'.stage = true → i ≠ e.thread ∧ ∃ t a, c.pool[i]? = some t ∧
        Compensation.account t = some a ∧ Exact.early a.stage = true) : Saved o c' (es ++ [e]) where
  made := by
    intro e' he
    rcases List.mem_append.mp he with he | he
    · obtain ⟨t, ht, hreq⟩ := h.made e' he
      obtain ⟨t', ht', hreq'⟩ := hpool _ t ht
      exact ⟨t', ht', hreq'.trans hreq⟩
    · exact List.mem_singleton.mp he ▸ hmade
  count := by
    intro d hd
    rw [List.countP_append, List.countP_singleton, if_pos hsaves, hcount d hd]
  early := by
    intro i t' a' ht' ha' hstage e' he hsaves'
    obtain ⟨hne, t, a, ht, ha, hold⟩ := hearly i t' a' ht' ha' hstage
    rcases List.mem_append.mp he with he | he
    · exact h.early i t a ht ha hold e' he hsaves'
    · rw [List.mem_singleton.mp he]
      exact hne.symm
  once := by
    rw [List.filter_append, List.filter_cons_of_pos hsaves, List.filter_nil]
    refine Collection.nodup_concat h.once ?_
    intro hmem
    obtain ⟨e', he', heq⟩ := List.mem_map.mp hmem
    obtain ⟨hes, hsaves'⟩ := List.mem_filter.mp he'
    exact hfirst e' hes hsaves' heq

/-- A thread of the pool after a call of thread `i`. -/
theorem pool_set {i j : Nat} {t t' u : ShopThread} (ht : c.pool[i]? = some t)
    (hset : c'.pool = c.pool.set i t') (hu : c'.pool[j]? = some u) :
    (j = i ∧ u = t') ∨ (j ≠ i ∧ c.pool[j]? = some u) := by
  rw [hset] at hu
  by_cases hji : j = i
  · subst hji
    rw [List.getElem?_set_self (List.getElem?_eq_some_iff.mp ht).1] at hu
    exact .inl ⟨rfl, (Option.some.inj hu).symm⟩
  · rw [List.getElem?_set_ne fun he => hji he.symm] at hu
    exact .inr ⟨hji, hu⟩

theorem pool_kept {i : Nat} {t t' : ShopThread} (ht : c.pool[i]? = some t)
    (hset : c'.pool = c.pool.set i t') (hreq : t'.req = t.req) (j : Nat) (u : ShopThread)
    (hu : c.pool[j]? = some u) : ∃ u', c'.pool[j]? = some u' ∧ u'.req = u.req := by
  rw [hset]
  by_cases hji : i = j
  · subst hji
    obtain rfl := Option.some.inj (ht.symm.trans hu)
    exact ⟨t', List.getElem?_set_self (List.getElem?_eq_some_iff.mp ht).1, hreq⟩
  · exact ⟨u, by rw [List.getElem?_set_ne hji, hu], rfl⟩

theorem attempts_iff {r : ShopReq} :
    r.attempts o = true ↔ ∃ j oid, r = .deliver j .ordersProcess oid ∧ castObjectId oid = some o := by
  constructor
  · intro h
    cases r with
    | deliver j q oid =>
      cases q with
      | ordersProcess => exact ⟨j, oid, rfl, of_decide_eq_true h⟩
      | _ => cases h
    | _ => cases h
  · rintro ⟨j, oid, rfl, hid⟩
    exact decide_eq_true hid

theorem attempts_of_saves {e : ShopEffect} (h : saves o e = true) : e.req.attempts o = true := by
  obtain ⟨i, r, op, x⟩ := e
  rcases op with k | op
  · cases h
  · cases op with
    | orderSave id n => exact h
    | _ => cases h

/-- An order that was not there has no attempt. -/
theorem no_saves {ok : System.Guard apiSig Err ShopReq ShopRes (IdemKv × Shop) Pick ShopEnv}
    (h : shopSystem.Reachable ok (freshShop n catalog) c)
    (hmade : ∀ e ∈ es, ∃ t, c.pool[e.thread]? = some t ∧ t.req = e.req)
    (hnone : c.world.2.order o = none) : es.countP (saves o) = 0 := by
  rw [List.countP_eq_zero]
  intro e he hsaves
  obtain ⟨t, ht, hreq⟩ := hmade e he
  obtain ⟨j, oid, hdeliver, hid⟩ := attempts_iff.mp (attempts_of_saves hsaves)
  have hjob : c.world.2.JobOf o j :=
    ⟨oid, delivered_at h t (List.mem_of_getElem? ht) _ _ _ (hreq.trans hdeliver), hid⟩
  exact job_order h hjob (by rw [status_eq, hnone, Option.map_none])

/-- What a call that is no save of `o` leaves of the count. -/
theorem count_kept {ok : System.Guard apiSig Err ShopReq ShopRes (IdemKv × Shop) Pick ShopEnv}
    (h : shopSystem.Reachable ok (freshShop n catalog) c) (hsaved : Saved o c es) {now i : Nat}
    {op : ShopOp} {w' : Shop} (hmade : Made now i op c.world.2 w') (hop : ∀ n, op ≠ .orderSave o n)
    {d : OrderDoc} (hd : w'.order o = some d) : d.paymentAttempts = es.countP (saves o) := by
  have hn := orderIds_reachable h
  cases hold : c.world.2.order o with
  | none => rw [(order_born hn hmade hold hd).1, no_saves h hsaved.made hold]
  | some d₀ =>
    obtain ⟨d', hd', -, hsame, -⟩ := order_kept hn hmade hold
    obtain rfl := Option.some.inj (hd'.symm.trans hd)
    rw [hsame hop, hsaved.count d₀ hold]

/-- Where the account of a thread that is early was before a call. -/
theorem early_before {i : Nat} {t t' : ShopThread} {op : ShopOp} {out : Except Err op.Ret}
    (ht : c.pool[i]? = some t) (hset : c'.pool = c.pool.set i t')
    (hready : Delivery.ready (Compensation.account t) (.inr op))
    (haccount : Compensation.account t' = Delivery.post op out (Compensation.account t)) (j : Nat)
    (u' : ShopThread) (a' : Delivery) (hu' : c'.pool[j]? = some u')
    (ha' : Compensation.account u' = some a') (hstage : early a'.stage = true) :
    c.pool.length ≤ j ∨ ∃ u a, c.pool[j]? = some u ∧ Compensation.account u = some a ∧
      early a.stage = true := by
  rcases pool_set ht hset hu' with ⟨rfl, rfl⟩ | ⟨-, hu⟩
  · obtain ⟨⟨a, ha, hearly⟩, -⟩ := early_back hready (haccount.symm.trans ha') hstage
    exact .inr ⟨t, a, ht, ha, hearly⟩
  · exact .inr ⟨u', a', hu, ha', hstage⟩

theorem Saved.call
    (h : shopSystem.Reachable (fun c a => failuresSettled c a = true) (freshShop n catalog) c)
    (hsaved : Saved o c es) {i : Nat} {f : Fate Err Pick} {fs : List ShopEffect}
    (hturn : Turn c i f c' fs) : Saved o c' (es ++ fs) := by
  cases hturn with
  | other t t' ht hset hreq haccount hworld hes hthread =>
    refine hsaved.other (pool_kept ht hset hreq) (fun e he => ?_) (fun d hd => ?_)
      (fun j u' a' hu' ha' hstage => ?_) fun e he => saves_inl (hes e he)
    · obtain ⟨u, hu, hreq'⟩ := pool_kept ht hset hreq i t ht
      exact ⟨u, (hthread e he).1 ▸ hu, hreq'.trans (hthread e he).2.symm⟩
    · exact hsaved.count d (hworld ▸ hd)
    · rcases pool_set ht hset hu' with ⟨rfl, rfl⟩ | ⟨-, hu⟩
      · exact .inr ⟨t, a', ht, haccount ▸ ha', hstage⟩
      · exact .inr ⟨u', a', hu, ha', hstage⟩
  | none t t' op e ht hset hreq hready hnext haccount hworld hexec =>
    refine hsaved.other (pool_kept ht hset hreq) (fun e he => by cases he) (fun d hd => ?_)
      (early_before ht hset hready haccount) fun e he => by cases he
    exact hsaved.count d (hworld ▸ hd)
  | effect t t' op out x q ht hset hreq hready hnext haccount hstore hout hexec =>
    have hmade : ∀ e ∈ [(⟨i, t.req, .inr op, x⟩ : ShopEffect)],
        ∃ u, c'.pool[e.thread]? = some u ∧ u.req = e.req := by
      intro e he
      rw [List.mem_singleton.mp he]
      exact pool_kept ht hset hreq i t ht
    have hother : (∀ n, op ≠ .orderSave o n) → saves o ⟨i, t.req, .inr op, x⟩ = false →
        Saved o c' (es ++ [⟨i, t.req, .inr op, x⟩]) := fun hop hnot =>
      hsaved.other (pool_kept ht hset hreq) hmade
        (fun d hd => count_kept h hsaved (.inr ⟨q, x, hstore⟩) hop hd)
        (early_before ht hset hready haccount) fun e he => List.mem_singleton.mp he ▸ hnot
    by_cases hop : ∃ id m, op = .orderSave id m
    · obtain ⟨id, m, rfl⟩ := hop
      obtain ⟨a, ha⟩ : ∃ a, Compensation.account t = some a := by
        cases ha : Compensation.account t with
        | none => rw [ha] at hready; cases hready
        | some a => exact ⟨a, rfl⟩
      rw [ha] at hready
      obtain ⟨d, hstage, rfl, rfl⟩ := hready
      have hmem := List.mem_of_getElem? ht
      have hreq' := Compensation.req_of_account h hmem ha
      -- the order as it was read is the order as it is
      have hgood : Compensation.Good o c.world.2 a :=
        ((Compensation.outline n catalog o).adequate h).1.each a
          (System.mem_worth_of.mpr ⟨t, hmem, Compensation.mem_val.mpr ha⟩)
      simp only [Compensation.Good, hstage] at hgood
      obtain ⟨hid, hread⟩ := hgood
      by_cases hd : d.id = o
      · have hsaves : saves o ⟨i, t.req, .inr (.orderSave d.id (d.paymentAttempts + 1)), x⟩ = true :=
          attempts_iff.mpr ⟨_, _, hreq', hid.trans (congrArg some hd)⟩
        refine hsaved.more (pool_kept ht hset hreq) (pool_kept ht hset hreq i t ht) hsaves
          (hsaved.early i t a ht ha (by rw [hstage]; rfl)) (fun d' hd' => ?_)
          (fun j u' a' hu' ha' hearly => ?_)
        · rw [order_orderSave hstore] at hd'
          obtain ⟨d₀, hd₀, rfl⟩ := Option.map_eq_some_iff.mp hd'
          have hsame := hread hd
          rw [hd₀, Option.map_some] at hsame
          have hid₀ : d₀.id = d.id := (((order_eq_some (orderIds_reachable h)).mp hd₀).2).trans hd.symm
          rw [if_pos hid₀, ← hsaved.count d₀ hd₀, Option.some.inj hsame]
        · rcases pool_set ht hset hu' with ⟨rfl, rfl⟩ | ⟨hne, hu⟩
          · rw [haccount, ha] at ha'
            obtain rfl := Option.some.inj ha'
            cases hearly
          · exact ⟨hne, u', a', hu, ha', hearly⟩
      · have hnot : saves o ⟨i, t.req, .inr (.orderSave d.id (d.paymentAttempts + 1)), x⟩ = false := by
          rw [Bool.eq_false_iff]
          intro hsaves
          obtain ⟨j, oid, hdeliver, hoid⟩ := attempts_iff.mp hsaves
          rw [hreq'] at hdeliver
          cases hdeliver
          exact hd (Option.some.inj (hid.symm.trans hoid))
        exact hother (fun k he => hd (ShopOp.orderSave.inj he).1) hnot
    · refine hother (fun m he => hop ⟨o, m, he⟩) (saves_other fun id m he => hop ⟨id, m, he⟩)

theorem saved_run {as : List ShopAct}
    (h : shopSystem.run failuresSettled (freshShop n catalog) as = some c) (o : ObjectId) :
    Saved o c (shopSystem.effects (freshShop n catalog) as) := by
  refine System.run_effects (I := Saved o) h ?_ fun c es a c' hr ih _ hs => ?_
  · exact ⟨(fun e he => by cases he), (fun d hd => by cases hd), (fun i t a ht => by cases ht),
      List.nodup_nil⟩
  -- what is no call has no effect, and leaves the orders and the threads there are
  have hquiet : c'.world.2.orders = c.world.2.orders →
      (∀ (i : Nat) t, c.pool[i]? = some t → c'.pool[i]? = some t) →
      (∀ (i : Nat) t', c'.pool[i]? = some t' → c.pool.length ≤ i ∨ c.pool[i]? = some t') →
      Saved o c' (es ++ []) := by
    intro horders hkept hback
    refine ih.other (fun i t ht => ⟨t, hkept i t ht, rfl⟩) (fun e he => by cases he) (fun d hd => ?_)
      (fun i t' a' ht' ha' hstage => (hback i t' ht').imp_right fun ht => ⟨t', a', ht, ha', hstage⟩)
      fun e he => by cases he
    rw [Shop.order, horders] at hd
    exact ih.count d hd
  cases a with
  | arrive r =>
    obtain ⟨w, hacc, rfl⟩ := Option.map_eq_some_iff.mp hs
    refine hquiet ((accept_same hacc).2.orders fun he => by cases he) (fun i t ht => ?_)
      fun i t' ht' => ?_
    · rw [List.getElem?_append_left (List.getElem?_eq_some_iff.mp ht).1, ht]
    · rw [List.getElem?_append] at ht'
      split at ht'
      · exact .inr ht'
      · rename_i hge
        exact .inl (Nat.le_of_not_lt hge)
  | call i f => exact ih.call hr (turn hr hs)
  | tick k => cases hs; exact hquiet rfl (fun _ _ ht => ht) fun _ _ ht => .inr ht
  | env e =>
    obtain ⟨w, he, rfl⟩ := Option.map_eq_some_iff.mp hs
    obtain ⟨s, hsur, rfl⟩ := Option.map_eq_some_iff.mp he
    exact hquiet (surroundings_same hsur).1.orders (fun _ _ ht => ht) fun _ _ ht => .inr ht

/-! ## The update to paid -/

/-- Paid for, wherever it has got since. -/
def PaidFor (w : Shop) (o : ObjectId) : Prop :=
  ∃ s, w.status o = some s ∧ (s = .paid ∨ s = .fulfilled ∨ s = .confirmed)

theorem paidFor_congr {w w' : Shop} (h : w'.status o = w.status o) : PaidFor w' o ↔ PaidFor w o := by
  rw [PaidFor, h, PaidFor]

theorem paidFor_iff {w : Shop} {s : OrderStatus} (h : w.status o = some s) :
    PaidFor w o ↔ s = .paid ∨ s = .fulfilled ∨ s = .confirmed := by
  constructor
  · rintro ⟨s', hs', hpaid⟩
    obtain rfl := Option.some.inj (hs'.symm.trans h)
    exact hpaid
  · exact fun hpaid => ⟨s, h, hpaid⟩

theorem pays_other {i : Nat} {r : ShopReq} {op : ShopOp} {x : op.Ret}
    (h : ∀ id reason, op ≠ .orderFindOneAndUpdate id .pending .paid reason) :
    pays o ⟨i, r, .inr op, x⟩ = false := by
  cases op with
  | orderFindOneAndUpdate id src dst reason =>
    cases src with
    | pending =>
      cases dst with
      | paid => exact absurd rfl (h id reason)
      | _ => rfl
    | _ => rfl
  | _ => rfl

theorem pays_update {i : Nat} {id : String} {reason : Option String} {a : Delivery}
    {x : Option OrderDoc} :
    pays o ⟨i, .deliver a.job .ordersProcess a.orderId,
        .inr (.orderFindOneAndUpdate id .pending .paid reason), x⟩ = true ↔
      castObjectId a.orderId = some o ∧ x.isSome := by
  simp [pays, ShopReq.attempts]

/-- An order is paid for after a call when it was before, or the call was the update. -/
theorem pays_store {now i : Nat} {l : Option Delivery} {r : ShopReq} {op : ShopOp} {q : Pick}
    {x : op.Ret} {w w' : Shop} (hn : w.OrderIds) (hready : Delivery.ready l (.inr op))
    (hreq : ∀ a, l = some a → r = .deliver a.job .ordersProcess a.orderId)
    (h : shopStore now i op q w = some (x, w')) :
    PaidFor w' o ↔ PaidFor w o ∨ pays o ⟨i, r, .inr op, x⟩ = true := by
  by_cases hm : op.movesOrders = true
  · cases op with
    | orderCreate inp =>
      obtain ⟨hnone, hw'⟩ := status_orderCreate h
      have hpending : inp.status = .pending := by
        cases l with
        | none => exact of_decide_eq_true hready
        | some a => exact absurd hready id
      rw [pays_other fun _ _ he => by cases he]
      by_cases ho : o = x
      · rw [paidFor_iff (by rw [hw', ho, Function.update_self]), hpending]
        simp only [PaidFor, ho, hnone]
        simp
      · have hsame : w'.status o = w.status o := by rw [hw', Function.update_of_ne ho]
        rw [paidFor_congr hsame]
        simp
    | orderFindOneAndUpdate id src dst reason =>
      rcases status_findOneAndUpdate hn h with ⟨d, rfl, hid, hsrc, hw'⟩ | ⟨rfl, hw', -⟩
      · have hsame : o ≠ d.id → (PaidFor w' o ↔ PaidFor w o) := fun ho =>
          paidFor_congr (by rw [hw', Function.update_of_ne ho])
        have hself : o = d.id → w.status o = some src ∧ w'.status o = some dst := by
          rintro rfl
          exact ⟨hsrc, by rw [hw', Function.update_self]⟩
        cases l with
        | none =>
          have hstage : src ≠ .pending ∧ (src = .paid ∨ src = .fulfilled ∨ src = .confirmed) ∧
              (dst = .paid ∨ dst = .fulfilled ∨ dst = .confirmed) := by
            simp only [Delivery.ready, Delivery.besides, QueueName.stage, Bool.or_eq_true,
              decide_eq_true_eq, Prod.mk.injEq] at hready
            rcases hready with ⟨rfl, rfl⟩ | ⟨rfl, rfl⟩ <;> simp
          rw [pays_other (fun id reason he => hstage.1 (by cases he; rfl))]
          by_cases ho : o = d.id
          · obtain ⟨h1, h2⟩ := hself ho
            rw [paidFor_iff h1, paidFor_iff h2]
            simp [hstage.2]
          · rw [hsame ho]
            simp
        | some a =>
          obtain ⟨rfl, rfl, ⟨rfl, -⟩ | ⟨rfl, -⟩⟩ := hready
          · rw [hreq a rfl, pays_update]
            by_cases ho : o = d.id
            · obtain ⟨h1, h2⟩ := hself ho
              rw [paidFor_iff h1, paidFor_iff h2]
              simp [hid, ho]
            · rw [hsame ho]
              have hne : castObjectId a.orderId ≠ some o := by
                rw [hid]
                exact fun he => ho (Option.some.inj he).symm
              simp [hne]
          · rw [pays_other fun _ _ he => by cases he]
            by_cases ho : o = d.id
            · obtain ⟨h1, h2⟩ := hself ho
              rw [paidFor_iff h1, paidFor_iff h2]
              simp
            · rw [hsame ho]
              simp
      · have hnot : pays o ⟨i, r, .inr (.orderFindOneAndUpdate id src dst reason), none⟩ = false := by
          cases src <;> cases dst <;> simp [pays]
        rw [hnot, paidFor_congr (congrFun hw' o)]
        simp
    | _ => cases hm
  · have hsame : w'.status o = w.status o := by rw [status_other (by simpa using hm) h]
    have hnot : pays o ⟨i, r, .inr op, x⟩ = false := by
      apply pays_other
      rintro id reason rfl
      exact hm rfl
    rw [hnot, paidFor_congr hsame]
    simp

theorem pays_inl {e : ShopEffect} (h : ∃ k, e.op = .inl k) : pays o e = false := by
  obtain ⟨i, r, op, x⟩ := e
  obtain ⟨k, rfl⟩ := h
  rfl

theorem paid_run {as : List ShopAct}
    (h : shopSystem.run failuresSettled (freshShop n catalog) as = some c) (o : ObjectId) :
    PaidFor c.world.2 o ↔ ∃ e ∈ shopSystem.effects (freshShop n catalog) as, pays o e = true := by
  refine System.run_effects
    (I := fun c es => PaidFor c.world.2 o ↔ ∃ e ∈ es, pays o e = true) h ?_
    fun c es a c' hr ih _ hs => ?_
  · simp [PaidFor, freshShop, Config.init, Shop.fresh, Shop.status, Collection.lookup]
  -- what is done without a payment
  have hquiet : ∀ {fs : List ShopEffect}, c'.world.2.orders = c.world.2.orders →
      (∀ e ∈ fs, pays o e = false) →
      (PaidFor c'.world.2 o ↔ ∃ e ∈ es ++ fs, pays o e = true) := by
    intro fs horders hfs
    have hstatus : c'.world.2.status o = c.world.2.status o := by
      rw [Shop.status, horders, Shop.status]
    rw [paidFor_congr hstatus, ih]
    refine exists_congr fun e => ?_
    rw [List.mem_append]
    constructor
    · rintro ⟨he, hpays⟩
      exact ⟨.inl he, hpays⟩
    · rintro ⟨he | he, hpays⟩
      · exact ⟨he, hpays⟩
      · rw [hfs e he] at hpays
        cases hpays
  have hnil : ∀ e ∈ ([] : List ShopEffect), pays o e = false := fun e he => by cases he
  cases a with
  | arrive r =>
    obtain ⟨w, hacc, rfl⟩ := Option.map_eq_some_iff.mp hs
    exact hquiet ((accept_same hacc).2.orders fun he => by cases he) hnil
  | call i f =>
    have hturn := turn hr hs
    generalize (shopSystem.effect c (.call i f)).toList = fs at hturn ⊢
    cases hturn with
    | other t t' ht hset hreq haccount hworld hes hthread =>
      exact hquiet (by rw [hworld]) fun e he => pays_inl (hes e he)
    | none t t' op e ht hset hreq hready hnext haccount hworld hexec =>
      exact hquiet (by rw [hworld]) hnil
    | effect t t' op out x q ht hset hreq hready hnext haccount hstore hout hexec =>
      have hreq' := fun a => Compensation.req_of_account hr (List.mem_of_getElem? ht) (a := a)
      rw [pays_store (orderIds_reachable hr) hready hreq' hstore, ih]
      simp only [List.mem_append, List.mem_singleton, or_and_right, exists_or, exists_eq_left]
  | tick k => cases hs; exact hquiet rfl hnil
  | env e =>
    obtain ⟨w, he, rfl⟩ := Option.map_eq_some_iff.mp hs
    obtain ⟨s, hsur, rfl⟩ := Option.map_eq_some_iff.mp he
    exact hquiet (surroundings_same hsur).1.orders hnil

/-! ## The units given back -/

/-- What all attempts for `o` have given back. -/
def credits (o : ObjectId) (m : Multiset Delivery) : Multiset (String × Nat) :=
  m.filterMap (credit o)

theorem credits_val (l : Option Delivery) :
    credits o (Compensation.val l) = ((l.bind (credit o)).toList : Multiset (String × Nat)) := by
  cases l with
  | none => rfl
  | some a =>
    rw [credits, Compensation.val, Option.toList_some, Multiset.filterMap_coe, Option.bind_some]
    cases h : credit o a with
    | none => simp [h]
    | some x => simp [h]

/-- Only an `INCRBY` that is answered gives back. -/
theorem credit_same {a : Delivery} {op : ShopOp} {out : Except Err op.Ret}
    (hready : a.Ready op) (hop : (∃ key n, op = .incrby key n) → ∃ e, out = .error e) :
    credit o { a with stage := a.stage.move op out } = credit o a := by
  obtain ⟨job, oid, s⟩ := a
  cases op with
  | orderFindById id =>
    rcases out with e | (_ | d)
    · rfl
    · rfl
    · cases s with
      | opened =>
        simp only [credit, Delivery.Stage.move]
        split
        · rename_i he
          split at he <;> cases he
        · rfl
      | _ => rfl
  | orderSave id n =>
    obtain ⟨d, rfl, -, -⟩ := hready
    rfl
  | orderFindOneAndUpdate id src dst reason =>
    obtain ⟨-, rfl, ⟨rfl, rfl⟩ | ⟨rfl, rfl⟩⟩ := hready
    · rcases out with e | d <;> rfl
    · rcases out with e | (_ | d) <;> rfl
  | incrby key n =>
    obtain ⟨d, rfl, -, -⟩ := hready
    obtain ⟨e, rfl⟩ := hop ⟨key, n, rfl⟩
    rfl
  | moveToCompleted j =>
    obtain ⟨-, rfl⟩ := hready
    rfl
  | moveToFailed j =>
    have hs : ∀ d, s ≠ .repaid d := by
      rintro d rfl
      cases hready.2
    have hbefore : credit o ⟨job, oid, s⟩ = none := by
      cases s with
      | repaid d => exact absurd rfl (hs d)
      | _ => rfl
    rw [hbefore]
    rcases out with e | (_ | n)
    · rfl
    · rfl
    · simp only [credit, Delivery.Stage.move]
      split
      · rename_i he
        split at he <;> cases he
      · rfl
  | orderCreate inp => exact absurd hready id
  | _ => rfl

theorem refund_other {i : Nat} {r : ShopReq} {op : ShopOp} {x : op.Ret}
    (h : ∀ key n, op ≠ .incrby key n) : refund o ⟨i, r, .inr op, x⟩ = none := by
  cases op with
  | incrby key n => exact absurd rfl (h key n)
  | _ => rfl

theorem refund_inl {e : ShopEffect} (h : ∃ k, e.op = .inl k) : refund o e = none := by
  obtain ⟨i, r, op, x⟩ := e
  obtain ⟨k, rfl⟩ := h
  rfl

/-- What a call adds to the credit of its thread is what its effect gives back. -/
theorem credits_call
    (h : shopSystem.Reachable (fun c a => failuresSettled c a = true) (freshShop n catalog) c)
    {i : Nat} {f : Fate Err Pick} (hok : failuresSettled c (.call i f) = true)
    {t t' : ShopThread} {op : ShopOp} {out : Except Err op.Ret} {x : op.Ret}
    (ht : c.pool[i]? = some t) (hready : Delivery.ready (Compensation.account t) (.inr op))
    (hnext : t.prog.next = some (.inr op))
    (haccount : Compensation.account t' = Delivery.post op out (Compensation.account t))
    (hout : ∀ b, out = .ok b → b = x)
    (hexec : shopStore.exec c.now i op f c.world.2 = some (out, c'.world.2)) :
    credits o (Compensation.val (Compensation.account t')) =
      credits o (Compensation.val (Compensation.account t)) +
        (refund o ⟨i, t.req, .inr op, x⟩).toList := by
  have hmem := List.mem_of_getElem? ht
  rw [haccount, credits_val, credits_val]
  cases ha : Compensation.account t with
  | none =>
    have hnone : refund o ⟨i, t.req, .inr op, x⟩ = none := by
      cases op with
      | incrby key n =>
        refine if_neg fun hattempts => ?_
        obtain ⟨j, oid, hreq, -⟩ := attempts_iff.mp hattempts
        obtain ⟨s, hs⟩ := Compensation.account_deliver hreq
        rw [hs] at ha
        cases ha
      | _ => rfl
    rw [hnone]
    rfl
  | some a =>
    rw [ha] at hready
    rw [Delivery.post, Option.map_some, Option.bind_some, Option.bind_some]
    by_cases hop : ∃ key k, op = .incrby key k
    · obtain ⟨key, k, rfl⟩ := hop
      obtain ⟨d, hstage, rfl, rfl⟩ := hready
      have hreq := Compensation.req_of_account h hmem ha
      have hf : f.isAnswered = true := by
        have hs := (Compensation.assumed h hok ht hnext o).answered _ rfl (by rw [ha]; rfl) rfl
        exact hs
      obtain ⟨q, y, -, rfl⟩ := Compensation.answered_exec hf hexec
      obtain ⟨job, oid, s⟩ := a
      obtain rfl : s = .owing d := hstage
      rw [hreq]
      by_cases hid : castObjectId oid = some o
      · simp [credit, refund, ShopReq.attempts, Delivery.Stage.move, hid, OrderDoc.units]
      · simp [credit, refund, ShopReq.attempts, Delivery.Stage.move, hid]
    · rw [credit_same hready fun he => absurd he hop,
        refund_other fun key k he => hop ⟨key, k, he⟩]
      simp

theorem refunded_run {as : List ShopAct}
    (h : shopSystem.run failuresSettled (freshShop n catalog) as = some c) (o : ObjectId) :
    credits o (System.worth (Compensation.logic o) Delivery.first c.pool) =
      (shopSystem.effects (freshShop n catalog) as).filterMap (refund o) := by
  refine System.run_effects (I := fun c es =>
    credits o (System.worth (Compensation.logic o) Delivery.first c.pool) =
      (es.filterMap (refund o) : List (String × Nat))) h rfl fun c es a c' hr ih hok hs => ?_
  have hadd : ∀ (m m' : Multiset Delivery), credits o (m + m') = credits o m + credits o m' :=
    fun m m' => Multiset.filterMap_add _ _ _
  cases a with
  | arrive r =>
    obtain ⟨w, hacc, rfl⟩ := Option.map_eq_some_iff.mp hs
    have hnew : credits o (Compensation.val (Delivery.first c.pool.length r)) = 0 := by
      rw [credits_val]
      cases r with
      | deliver j q oid => cases q <;> rfl
      | _ => rfl
    rw [System.worth_append, hadd, ih]
    show credits o (Compensation.val (Delivery.first c.pool.length r)) + _ = _
    rw [hnew, zero_add]
    exact congrArg _ (congrArg _ (List.append_nil es).symm)
  | call i f =>
    have hturn := turn hr hs
    generalize (shopSystem.effect c (.call i f)).toList = fs at hturn ⊢
    rw [List.filterMap_append, ← Multiset.coe_add, ← ih]
    -- the account of thread `i` before and after
    have hsplit : ∀ t t' : ShopThread, c.pool[i]? = some t → c'.pool = c.pool.set i t' →
        credits o (Compensation.val (Compensation.account t')) =
          credits o (Compensation.val (Compensation.account t)) + (fs.filterMap (refund o)) →
        credits o (System.worth (Compensation.logic o) Delivery.first c'.pool) =
          credits o (System.worth (Compensation.logic o) Delivery.first c.pool) +
            (fs.filterMap (refund o)) := by
      intro t t' ht hset hval
      have hlt : i < c.pool.length := (List.getElem?_eq_some_iff.mp ht).1
      rw [hset, System.worth_split (List.getElem?_set_self hlt), List.eraseIdx_set_eq,
        System.worth_split ht, hadd, hadd]
      show credits o (Compensation.val (Compensation.account t')) + _ =
        credits o (Compensation.val (Compensation.account t)) + _ + _
      rw [hval, add_right_comm]
    cases hturn with
    | other t t' ht hset hreq haccount hworld hes hthread =>
      have hnil : fs.filterMap (refund o) = [] :=
        List.filterMap_eq_nil_iff.mpr fun e he => refund_inl (hes e he)
      refine hsplit t t' ht hset ?_
      rw [haccount, hnil]
      exact (add_zero _).symm
    | none t t' op e ht hset hreq hready hnext haccount hworld hexec =>
      refine hsplit t t' ht hset ?_
      rw [haccount, credits_val, credits_val]
      cases ha : Compensation.account t with
      | none => rfl
      | some a =>
        rw [ha] at hready
        rw [Delivery.post, Option.map_some, Option.bind_some, Option.bind_some,
          credit_same hready fun _ => ⟨e, rfl⟩]
        exact (add_zero _).symm
    | effect t t' op out x q ht hset hreq hready hnext haccount hstore hout hexec =>
      refine hsplit t t' ht hset ?_
      rw [credits_call hr hok ht hready hnext haccount hout hexec]
      refine congrArg _ (congrArg _ ?_)
      cases hrefund : refund o ⟨i, t.req, .inr op, x⟩ <;> simp [hrefund]
  | tick k =>
    cases hs
    exact ih.trans (congrArg _ (congrArg _ (List.append_nil es).symm))
  | env e =>
    obtain ⟨w, he, rfl⟩ := Option.map_eq_some_iff.mp hs
    exact ih.trans (congrArg _ (congrArg _ (List.append_nil es).symm))

theorem filterMap_eq_replicate {α β : Type} {f : α → Option β} {p : α → Bool} {x : β}
    {m : Multiset α} (h : ∀ a ∈ m, f a = if p a = true then some x else none) :
    m.filterMap f = Multiset.replicate (m.countP fun a => p a = true) x := by
  induction m using Multiset.induction_on with
  | empty => rfl
  | cons a m ih =>
    have ih := ih fun b hb => h b (Multiset.mem_cons_of_mem hb)
    have ha := h a (Multiset.mem_cons_self a m)
    by_cases hp : p a = true
    · rw [if_pos hp] at ha
      rw [Multiset.filterMap_cons_some _ _ _ ha, ih, Multiset.countP_cons_of_pos (p := fun a => p a = true) _ hp,
        Multiset.replicate_succ]
    · rw [if_neg hp] at ha
      rw [Multiset.filterMap_cons_none _ _ ha, ih, Multiset.countP_cons_of_neg (p := fun a => p a = true) _ hp]

end Exact

/-- Job `j` has ended, and so has every attempt at it. -/
structure JobOver (c : ShopConfig) (j : Nat) : Prop where
  ended : ∃ d, c.world.2.jobs[j]? = some d ∧ d.live = false
  handled : ∀ t ∈ c.pool, t.req.delivers j = true → t.prog.result ≠ none

/-- Every attempt at job `j` was made, and none of them moved `o` to paid. -/
def PaymentLost (c : ShopConfig) (es : List ShopEffect) (o : ObjectId) (j : Nat) : Prop :=
  attempts c j = JOB_ATTEMPTS ∧ ∀ e ∈ es, Exact.pays o e = false

/-- What is so of an order `d` with the process job `j` when all attempts are over. -/
structure CompensatedExactly (c : ShopConfig) (es : List ShopEffect) (d : OrderDoc) (j : Nat) : Prop where
  attempted : attempts c j ≤ JOB_ATTEMPTS
  saved : d.paymentAttempts = ((es.filter (Exact.saves d.id)).map (·.thread)).length ∧
    ((es.filter (Exact.saves d.id)).map (·.thread)).Nodup
  refunded : d.status = .failed ∧ es.filterMap (Exact.refund d.id) = [d.units] ↔
    PaymentLost c es d.id j
  kept : ¬PaymentLost c es d.id j → es.filterMap (Exact.refund d.id) = [] ∧
    ∃ e ∈ es, Exact.pays d.id e = true

namespace Exact

/-- When no attempt for `o` owes anything, what was given back is one order's units if it has
failed, and nothing else. -/
theorem refunds_eq {as : List ShopAct}
    (h : shopSystem.run failuresSettled (freshShop n catalog) as = some c) {d : OrderDoc}
    (hd : c.world.2.order o = some d)
    (hover : ∀ a ∈ System.worth (Compensation.logic o) Delivery.first c.pool,
      Compensation.For o a → a.stage.indebted = false) :
    (shopSystem.effects (freshShop n catalog) as).filterMap (refund o) =
      List.replicate (Compensation.failedBit (some d.status)) d.units := by
  have hinv := ((Compensation.outline n catalog o).adequate (.of_run h)).1
  have hcredit : ∀ a ∈ System.worth (Compensation.logic o) Delivery.first c.pool,
      credit o a = if Compensation.gives o a = true then some d.units else none := by
    intro a ha
    have hgood := hinv.each a ha
    have hdebt := hover a ha
    obtain ⟨job, oid, s⟩ := a
    by_cases hfor : castObjectId oid = some o
    · cases s with
      | owing d' => cases hdebt hfor
      | repaid d' =>
        have hunits := hgood hfor
        rw [hd, Option.map_some] at hunits
        simp [credit, Compensation.gives, hfor, Option.some.inj hunits]
      | _ => simp [credit, Compensation.gives]
    · cases s <;> simp [credit, Compensation.gives, hfor]
  have hall := refunded_run h o
  rw [credits, filterMap_eq_replicate hcredit, hinv.balance, status_eq, hd, Option.map_some] at hall
  exact List.perm_replicate.mp (Multiset.coe_eq_coe.mp
    (hall.symm.trans (Multiset.coe_replicate _ _).symm))

end Exact

/-- **Exactly once.** When the attempts at the process job of an order are over, it is failed and
its units were given back once just if all attempts were made and none of them moved it to paid. -/
theorem compensated_exactly {n : Nat} {catalog : ObjectId → Option ProductDoc} {as : List ShopAct}
    {c : ShopConfig} (h : shopSystem.run failuresSettled (freshShop n catalog) as = some c)
    {d : OrderDoc} (hd : d ∈ c.world.2.orders) {j : Nat} (hj : c.world.2.JobOf d.id j)
    (hover : JobOver c j) : CompensatedExactly c (shopSystem.effects (freshShop n catalog) as) d j := by
  have hr : shopSystem.Reachable (fun c a => failuresSettled c a = true) (freshShop n catalog) c :=
    .of_run h
  have horder : c.world.2.order d.id = some d := (order_eq_some (orderIds_reachable hr)).mpr ⟨hd, rfl⟩
  have hstatus : c.world.2.status d.id = some d.status := by rw [status_eq, horder, Option.map_some]
  have hinv := ((Compensation.outline n catalog d.id).adequate hr).1
  -- no attempt is left to do anything
  have hdone : ∀ a ∈ System.worth (Compensation.logic d.id) Delivery.first c.pool,
      Compensation.For d.id a → a.stage.indebted = false := by
    intro a ha hfor
    obtain ⟨t, ht, ha⟩ := System.mem_worth_of.mp ha
    have ha := Compensation.mem_val.mp ha
    have hsame : a.job = j := one_job hr ⟨a.orderId, Compensation.key_of_account hr ht ha, hfor⟩ hj
    have hdelivers : t.req.delivers j = true := by
      rw [Compensation.req_of_account hr ht ha]
      exact decide_eq_true hsame
    obtain ⟨r, hres⟩ := Option.ne_none_iff_exists'.mp (hover.handled t ht hdelivers)
    exact (Compensation.outline n catalog d.id).ended hr ht hres a ha
  have hrefunds := Exact.refunds_eq h horder hdone
  have hpaid := Exact.paid_run h d.id
  -- the job
  obtain ⟨dj, hdj, hlive⟩ := hover.ended
  obtain ⟨oid, hkey, hid⟩ := hj
  have hj : c.world.2.JobOf d.id j := ⟨oid, hkey, hid⟩
  obtain ⟨hq, hoid⟩ : dj.queue = .ordersProcess ∧ castObjectId dj.orderId = some d.id := by
    rw [Shop.jobKeys, List.getElem?_map, hdj, Option.map_some, Option.some.injEq, Prod.mk.injEq] at hkey
    exact ⟨hkey.1, hkey.2 ▸ hid⟩
  have hcounted := attempts_made (fun _ _ hok => Compensation.retries_of_settled hok) hr hdj hq
  have hpassed : c.world.2.Passed d.id := by
    cases hs : dj.state with
    | completed => exact hinv.completed j ⟨dj, hdj, hq, hoid, hs⟩
    | failed =>
      rcases hinv.expired j ⟨dj, hdj, hq, hoid, hs⟩ with hpassed | ⟨a, ha, hfor, hstage⟩
      · exact hpassed
      · have hdebt := hdone a ha hfor
        rw [hstage] at hdebt
        cases hdebt
    | _ => simp [Job.live, hs] at hlive
  have hfailed : d.status = .failed → PaymentLost c (shopSystem.effects (freshShop n catalog) as) d.id j := by
    intro hf
    obtain ⟨k, dk, hdk, hqk, hoidk, hsk⟩ := hinv.failed (hf ▸ hstatus)
    have hk : k = j := one_job hr ⟨dk.orderId, by
      rw [Shop.jobKeys, List.getElem?_map, hdk, Option.map_some, hqk], hoidk⟩ hj
    subst hk
    obtain rfl := Option.some.inj (hdj.symm.trans hdk)
    refine ⟨?_, fun e he => ?_⟩
    · rw [hcounted.attempts, hcounted.spent hsk, Job.unfailed, hsk]
      rfl
    · rw [Bool.eq_false_iff]
      intro hpays
      have hnot := (Exact.paidFor_iff hstatus).mp (hpaid.mpr ⟨e, he, hpays⟩)
      rw [hf] at hnot
      simp at hnot
  have hlost : ¬d.status = .failed → ∃ e ∈ shopSystem.effects (freshShop n catalog) as,
      Exact.pays d.id e = true := by
    intro hf
    obtain ⟨s, hs, hne⟩ := hpassed
    obtain rfl := Option.some.inj (hstatus.symm.trans hs)
    refine hpaid.mp ((Exact.paidFor_iff hstatus).mpr ?_)
    cases hst : d.status <;> simp [hst] at hne hf ⊢
  have hsaved := Exact.saved_run h d.id
  refine ⟨?_, ⟨?_, hsaved.once⟩, ⟨fun hf => hfailed hf.1, fun hl => ?_⟩, fun hnot => ?_⟩
  · rw [hcounted.attempts]
    by_cases hs : dj.state = .failed
    · rw [hcounted.spent hs, Job.unfailed, hs]
      exact le_rfl
    · have hmore := hcounted.retried hs
      have hone : dj.unfailed ≤ 1 := by
        unfold Job.unfailed
        split <;> simp
      omega
  · rw [List.length_map, hsaved.count d horder, List.countP_eq_length_filter]
  · by_cases hf : d.status = .failed
    · refine ⟨hf, ?_⟩
      rw [hrefunds, hf]
      rfl
    · obtain ⟨e, he, hpays⟩ := hlost hf
      rw [hl.2 e he] at hpays
      cases hpays
  · have hf : d.status ≠ .failed := fun hf => hnot (hfailed hf)
    refine ⟨?_, hlost hf⟩
    have hbit : Compensation.failedBit (some d.status) = 0 := if_neg fun he => hf (Option.some.inj he)
    rw [hrefunds, hbit]
    rfl

/-- Three attempts: the charge fails, the save fails, the charge fails. -/
def chargedInVain : List ShopAct :=
  orderPlaced ++
    .arrive (.deliver 0 .ordersProcess idB.toString) :: callsOf 1 2 idB ++
      .call 1 (.failed (.error "declined")) :: callsOf 1 1 idB ++
    .env (.promote 0) :: .arrive (.deliver 0 .ordersProcess idB.toString) :: callsOf 2 1 idB ++
      .call 2 (.failed (.error "not primary")) :: callsOf 2 1 idB ++
    .env (.promote 0) :: .arrive (.deliver 0 .ordersProcess idB.toString) :: callsOf 3 2 idB ++
      .call 3 (.failed (.error "declined")) :: callsOf 3 7 idB

theorem compensated_exactly_failed :
    ∃ c d, shopSystem.run failuresSettled (freshShop 0 (oneProduct 1)) chargedInVain = some c ∧
      d ∈ c.world.2.orders ∧ d.status = .failed ∧ d.paymentAttempts = 2 ∧
      CompensatedExactly c (shopSystem.effects (freshShop 0 (oneProduct 1)) chargedInVain) d 0 := by
  let ran := shopSystem.run failuresSettled (freshShop 0 (oneProduct 1)) chargedInVain
  have horders : ran.map (fun c => c.world.2.orders.map fun d => (d.id, d.status, d.paymentAttempts)) =
      some [(idB, .failed, 2)] := by decide
  have hjobs : ran.map (fun c => c.world.2.jobs.map fun d => (d.queue, d.orderId, d.live)) =
      some [(.ordersProcess, idB.toString, false)] := by decide
  have hpool : ran.map (fun c => c.pool.all fun t => t.prog.result.isSome) = some true := by decide
  obtain ⟨c, hc, horders⟩ := Option.map_eq_some_iff.mp horders
  rw [hc, Option.map_some, Option.some.injEq] at hjobs hpool
  obtain ⟨d, hd, hkey⟩ : ∃ d ∈ c.world.2.orders, (d.id, d.status, d.paymentAttempts) = (idB, .failed, 2) :=
    List.mem_map.mp (horders ▸ List.mem_singleton_self _)
  obtain ⟨hid, hkey⟩ := Prod.mk.inj hkey
  obtain ⟨hstatus, hattempts⟩ := Prod.mk.inj hkey
  obtain ⟨dj, hdj, hjob⟩ : ∃ dj, c.world.2.jobs[0]? = some dj ∧
      (dj.queue, dj.orderId, dj.live) = (.ordersProcess, idB.toString, false) := by
    have hfirst := congrArg (·[0]?) hjobs
    exact Option.map_eq_some_iff.mp (List.getElem?_map.symm.trans hfirst)
  obtain ⟨hq, hjob⟩ := Prod.mk.inj hjob
  obtain ⟨hoid, hlive⟩ := Prod.mk.inj hjob
  have hj : c.world.2.JobOf d.id 0 := by
    refine ⟨idB.toString, ?_, by rw [castObjectId_toString, hid]⟩
    rw [Shop.jobKeys, List.getElem?_map, hdj, Option.map_some, hq, hoid]
  have hover : JobOver c 0 := by
    refine ⟨⟨dj, hdj, hlive⟩, fun t ht _ hnone => ?_⟩
    have hall := List.all_eq_true.mp hpool t ht
    rw [hnone] at hall
    cases hall
  exact ⟨c, d, hc, hd, hstatus, hattempts, compensated_exactly hc hd hj hover⟩

end Flashkart
