import Flashkart.Attempt
import Flashkart.Shop.Frame

/-!
# Shop.Fidelity

What a replayed answer is the answer of. The key that `/buy` and `/reserve` hand to
`withIdempotency` is composed of the endpoint, the user, the path string of the product and the raw
key, and these can be read off it (`key_injective`): they are of fixed length, but for the raw key,
which comes last. The quantity is not in it.

A result is stored only by a request that has executed its work with it (`Stores`), and a result that
is read from Redis was stored there; so a replay is of a request with the same key.
-/

namespace Flashkart

open Async

inductive Endpoint where
  | buy
  | reserve
  deriving DecidableEq

def Endpoint.scope : Endpoint → String
  | .buy => "buy"
  | .reserve => "reserve"

/-- The function that the endpoint hands to `withIdempotency`. -/
def Endpoint.work : Endpoint → ObjectId → String → Nat → ShopProg (StoredResult Body)
  | .buy => doPurchase
  | .reserve => doReserve

/-- The key that the endpoint composes. -/
def Endpoint.key (e : Endpoint) (r : BuyRequest) (rawKey : String) : String :=
  e.scope ++ ":" ++ r.userId.toString ++ ":" ++ r.id ++ ":" ++ rawKey

def ShopReq.endpoint : ShopReq → Option (Endpoint × BuyRequest)
  | .postBuy r => some (.buy, r)
  | .postReserve r => some (.reserve, r)
  | _ => none

/-! ## The key -/

theorem length_toString (o : ObjectId) : o.toString.toList.length = 24 := o.wf.1

theorem length_of_valid {s : String} (h : isValidObjectId s = true) : s.toList.length = 24 :=
  ((isValidObjectId_iff s).mp h).1

/-- Everything in the key can be read off it. -/
theorem key_injective {e e' : Endpoint} {r r' : BuyRequest} {rawKey rawKey' : String}
    (hid : isValidObjectId r.id = true) (hid' : isValidObjectId r'.id = true)
    (h : e.key r rawKey = e'.key r' rawKey') :
    e = e' ∧ r.userId = r'.userId ∧ r.id = r'.id ∧ rawKey = rawKey' := by
  have hlist := congrArg String.toList h
  simp only [Endpoint.key, String.toList_append, List.append_assoc] at hlist
  have hscope : e = e' := by
    cases e <;> cases e' <;> first | rfl | (simp [Endpoint.scope] at hlist)
  subst hscope
  have hrest := List.append_cancel_left (List.append_cancel_left hlist)
  obtain ⟨huser, hrest⟩ := List.append_inj hrest (by rw [length_toString, length_toString])
  have hrest := List.append_cancel_left hrest
  obtain ⟨hpid, hrest⟩ := List.append_inj hrest (by rw [length_of_valid hid, length_of_valid hid'])
  have hrest := List.append_cancel_left hrest
  exact ⟨rfl, ObjectId.toString_injective (String.toList_injective huser),
    String.toList_injective hpid, String.toList_injective hrest⟩

/-! ## Executions -/

/-- The request has executed the work of endpoint `e` on `r` and `q` units, with the result `v`. -/
def Executes (req : ShopReq) (tr : List (Event apiSig Err)) (e : Endpoint) (r : BuyRequest) (q : Nat)
    (v : StoredResult Body) : Prop :=
  req.endpoint = some (e, r) ∧ buyBodySchema r.body = some q ∧
    ∃ own, own <:+ ownCalls tr ∧ Runs (e.work r.userId r.id q) own (.ret v)

/-- It has, under the key `k`. -/
def Stores (req : ShopReq) (tr : List (Event apiSig Err)) (k : String) (v : StoredResult Body) :
    Prop :=
  ∃ e r q rawKey, Executes req tr e r q v ∧ isValidObjectId r.id = true ∧ r.rawKey = some rawKey ∧
    k = idemKey (e.key r rawKey)

theorem ownCalls_suffix (ev : Event apiSig Err) (tr : List (Event apiSig Err)) :
    ownCalls tr <:+ ownCalls (ev :: tr) := by
  obtain ⟨time, o, out⟩ := ev
  cases o with
  | inl o => exact List.suffix_refl _
  | inr o => exact List.suffix_cons _ _

/-- What has been executed stays so. -/
theorem Stores.cons {req : ShopReq} {tr : List (Event apiSig Err)} {k : String}
    {v : StoredResult Body} (h : Stores req tr k v) (ev : Event apiSig Err) :
    Stores req (ev :: tr) k v := by
  obtain ⟨e, r, q, rawKey, ⟨hreq, hq, own, hown, hruns⟩, hrest⟩ := h
  exact ⟨e, r, q, rawKey, ⟨hreq, hq, own, hown.trans (ownCalls_suffix ev tr), hruns⟩, hrest⟩

/-- A program of which nothing is asked. -/
theorem follows_any {α : Type} (p : ShopProg α) :
    Follows (fun _ _ => True) (fun _ l => l) p () fun _ _ => True :=
  Follows.of_calls (p.calls_all fun _ _ => trivial)

/-- The work answers with the product and the quantity it was given. -/
theorem body_of_work {e : Endpoint} {uid : ObjectId} {id : String} {q : Nat}
    {own : List (Event shopSig Err)} {v : StoredResult Body}
    (h : Runs (e.work uid id q) own (.ret v)) : v.body.productId = id ∧ v.body.quantity = q := by
  have hwork : Follows (fun _ _ => True) (fun _ l => l) (e.work uid id q) () fun out _ =>
      ∀ v, out = .ok v → v.body.productId = id ∧ v.body.quantity = q := by
    have herr : ∀ (err : Err) (v : StoredResult Body), Except.error err = .ok v →
        v.body.productId = id ∧ v.body.quantity = q := fun _ _ h => by cases h
    cases e with
    | buy =>
      refine follows_bind.mpr ((follows_any _).mono fun out l _ => ?_)
      rcases out with err | (remaining | _ | _)
      · exact herr err
      · refine follows_bind.mpr ((follows_any _).mono fun out l _ => ?_)
        cases out with
        | error err => exact herr err
        | ok product =>
          refine follows_bind.mpr ((follows_any _).mono fun out l _ => ?_)
          cases out with
          | error err => exact herr err
          | ok orderId =>
            refine follows_bind.mpr ((follows_any _).mono fun out l _ => ?_)
            cases out with
            | error err => exact herr err
            | ok u => exact fun v hv => by cases hv; exact ⟨rfl, rfl⟩
      · exact herr _
      · exact herr _
    | reserve =>
      refine follows_bind.mpr ((follows_any _).mono fun out l _ => ?_)
      rcases out with err | (⟨rid, expiresAt, remaining⟩ | _ | _)
      · exact herr err
      · exact fun v hv => by cases hv; exact ⟨rfl, rfl⟩
      · exact herr _
      · exact herr _
  exact h.follows hwork v rfl

/-! ## What a request does with its key -/

/-- The calls of a request so far, latest first. -/
abbrev Doings : Type := ShopReq × List (Event apiSig Err)

def Doings.post (ev : Event apiSig Err) (l : Doings) : Doings := (l.1, ev :: l.2)

/-- A result is stored when it is that of the request's own execution. -/
def Doings.ready (l : Doings) : apiSig.Op → Prop
  | .inl (.set k c _) => ∃ v, c = .result v ∧ Stores l.1 l.2 k v
  | .inl (.setNx _ c _) => c = .pending
  | _ => True

/-- An answer that is marked as a replay is the result that was read under the request's key. -/
def Replays (l : Doings) (out : Except Err Response) : Prop :=
  ∀ resp, out = .ok resp → resp.replay = some true → ∃ e r rawKey time v,
    l.1.endpoint = some (e, r) ∧ isValidObjectId r.id = true ∧ r.rawKey = some rawKey ∧
    ⟨time, .inl (.get (idemKey (e.key r rawKey))), .ok (some (.result v))⟩ ∈ l.2 ∧
    v = ⟨resp.status, resp.body⟩

variable {req : ShopReq} {e : Endpoint} {r : BuyRequest} {q : Nat} {rawKey : String}

/-- Inside its work a request has made the calls of the work. -/
theorem follows_work {p₀ p : ShopProg (StoredResult Body)} {l : Doings}
    (h : Runs p₀ (ownCalls l.2) p) :
    Follows Doings.ready Doings.post (p.inr : ApiProg (StoredResult Body)) l fun out l' =>
      l'.1 = l.1 ∧ Runs p₀ (ownCalls l'.2) (.ofExcept out) := by
  induction p generalizing l with
  | ret a => exact ⟨rfl, h⟩
  | throw err => exact ⟨rfl, h⟩
  | call o k ih =>
    refine ⟨trivial, fun time (out : Except Err (shopSig.Ret o)) => ?_⟩
    have hnext : Runs p₀ (⟨time, o, out⟩ :: ownCalls l.2) (k out) := h.call time out
    exact ih out (l := Doings.post ⟨time, .inr o, out⟩ l) hnext

theorem follows_poll {key : String} (deadline n : Nat) {l : Doings} (hl : l.1 = req) :
    Follows Doings.ready Doings.post
      (poll bodyJson key deadline n : ApiProg (IdemResult (StoredResult Body))) l fun out l' =>
        l'.1 = req ∧ ∀ x, out = .ok x → ∃ time,
          ⟨time, .inl (.get key), .ok (some (.result x.value))⟩ ∈ l'.2 := by
  have herr : ∀ (err : Err) (l' : Doings), l'.1 = req → l'.1 = req ∧
      ∀ x : IdemResult (StoredResult Body), Except.error err = .ok x → ∃ time,
        ⟨time, .inl (.get key), .ok (some (.result x.value))⟩ ∈ l'.2 :=
    fun _ _ hl => ⟨hl, fun _ h => by cases h⟩
  induction n generalizing l with
  | zero => exact herr _ _ hl
  | succ n ih =>
    have hagain : ∀ l : Doings, l.1 = req → Follows Doings.ready Doings.post
        (Idem.sleep POLL_INTERVAL_MS >>= fun _ => poll bodyJson key deadline n :
          ApiProg (IdemResult (StoredResult Body))) l fun out l' =>
            l'.1 = req ∧ ∀ x, out = .ok x → ∃ time,
              ⟨time, .inl (.get key), .ok (some (.result x.value))⟩ ∈ l'.2 := by
      intro l hl
      refine follows_bind.mpr (follows_bind.mpr (follows_inl_op.mpr ⟨trivial, fun time out => ?_⟩))
      cases out with
      | error err => exact herr _ _ hl
      | ok t =>
        refine follows_inl_op.mpr ⟨trivial, fun time out => ?_⟩
        cases out with
        | error err => exact herr _ _ hl
        | ok u => exact ih hl
    refine follows_bind.mpr (follows_inl_op.mpr ⟨trivial, fun time out => ?_⟩)
    cases out with
    | error err => exact herr _ _ hl
    | ok now =>
      dsimp only
      split
      · refine follows_bind.mpr (follows_inl_op.mpr ⟨trivial, fun time' out => ?_⟩)
        rcases out with err | (_ | (_ | v))
        · exact herr _ _ hl
        · exact hagain _ hl
        · exact hagain _ hl
        · refine ⟨hl, fun x hx => ?_⟩
          cases hx
          exact ⟨time', List.mem_cons_self ..⟩
      · exact herr _ _ hl

/-- The wrapper around the work of `e` on `r`. -/
theorem follows_withIdempotency (hreq : req.endpoint = some (e, r))
    (hid : isValidObjectId r.id = true) (hq : buyBodySchema r.body = some q)
    (hkey : r.rawKey = some rawKey) :
    Follows Doings.ready Doings.post
      (withIdempotency bodyJson (e.key r rawKey) (e.work r.userId r.id q)) (req, []) fun out l' =>
        l'.1 = req ∧ ∀ x, out = .ok x → x.replayed = true → ∃ time,
          ⟨time, .inl (.get (idemKey (e.key r rawKey))), .ok (some (.result x.value))⟩ ∈ l'.2 := by
  have herr : ∀ (err : Err) (l' : Doings), l'.1 = req → l'.1 = req ∧
      ∀ x : IdemResult (StoredResult Body), Except.error err = .ok x → x.replayed = true → ∃ time,
        ⟨time, .inl (.get (idemKey (e.key r rawKey))), .ok (some (.result x.value))⟩ ∈ l'.2 :=
    fun _ _ hl => ⟨hl, fun _ h => by cases h⟩
  refine follows_bind.mpr (follows_inl_op.mpr ⟨rfl, fun time out => ?_⟩)
  rcases out with err | (_ | _)
  · exact herr _ _ rfl
  · -- another request has the key
    refine follows_bind.mpr (follows_inl_op.mpr ⟨trivial, fun time out => ?_⟩)
    cases out with
    | error err => exact herr _ _ rfl
    | ok now =>
      exact (follows_poll _ _ rfl).mono fun out l' h => ⟨h.1, fun x hx _ => h.2 x hx⟩
  · -- the `catch` block, whatever led to it
    have hcatch : ∀ (err : Err) (l : Doings), l.1 = req → Follows Doings.ready Doings.post
        (Idem.del (idemKey (e.key r rawKey)) >>= fun _ => Prog.throw err :
          ApiProg (IdemResult (StoredResult Body))) l fun out l' =>
            l'.1 = req ∧ ∀ x, out = .ok x → x.replayed = true → ∃ time,
              ⟨time, .inl (.get (idemKey (e.key r rawKey))), .ok (some (.result x.value))⟩ ∈
                l'.2 := by
      intro err l hl
      refine follows_bind.mpr (follows_inl_op.mpr ⟨trivial, fun time out => ?_⟩)
      cases out with
      | error err => exact herr _ _ hl
      | ok u => exact herr _ _ hl
    refine follows_tryCatch.mpr (follows_bind.mpr ((follows_work .start).mono ?_))
    rintro out l ⟨hl, hruns⟩
    cases out with
    | error err => exact hcatch _ _ hl
    | ok v =>
      have hstores : Stores l.1 l.2 (idemKey (e.key r rawKey)) v :=
        ⟨e, r, q, rawKey, ⟨hl ▸ hreq, hq, _, List.suffix_refl _, hruns⟩, hid, hkey, rfl⟩
      refine follows_bind.mpr (follows_inl_op.mpr ⟨⟨v, rfl, hstores⟩, fun time out => ?_⟩)
      cases out with
      | error err => exact hcatch _ _ hl
      | ok u => exact ⟨hl, fun x hx hrep => by cases hx; cases hrep⟩

theorem follows_moneyRoute (hreq : req.endpoint = some (e, r)) :
    Follows Doings.ready Doings.post (moneyRoute e.scope e.work r) (req, []) fun out l' =>
      l'.1 = req ∧ Replays l' out := by
  have herr : ∀ (err : Err) (l' : Doings), l'.1 = req → l'.1 = req ∧ Replays l' (.error err) :=
    fun _ _ hl => ⟨hl, fun _ h => by cases h⟩
  unfold moneyRoute
  split
  · rename_i hid
    split
    · exact herr _ _ rfl
    · rename_i q hq
      split
      · -- no key, no replay
        refine follows_bind.mpr ((follows_work .start).mono ?_)
        rintro (err | v) l ⟨hl, -⟩
        · exact herr _ _ hl
        · exact ⟨hl, fun resp hresp hrep => by cases hresp; cases hrep⟩
      · rename_i rawKey hkey
        split
        · refine follows_bind.mpr ((follows_withIdempotency hreq hid hq hkey).mono ?_)
          rintro (err | x) l ⟨hl, hread⟩
          · exact herr _ _ hl
          · refine ⟨hl, fun resp hresp hrep => ?_⟩
            cases hresp
            obtain ⟨time, hmem⟩ := hread x rfl (Option.some.inj hrep)
            exact ⟨e, r, rawKey, time, x.value, hl ▸ hreq, hid, hkey, hmem, rfl⟩
        · exact herr _ _ rfl
  · exact herr _ _ rfl

/-- What a request ends with, as far as this module goes. -/
def Answers (l : Doings) (out : Except Err ShopRes) : Prop :=
  ∀ resp, out = .ok (.response resp) → Replays l (.ok resp)

theorem follows_shopProg (req : ShopReq) :
    Follows Doings.ready Doings.post (shopProg req) (req, []) fun out l => Answers l out := by
  -- a request that is neither endpoint makes calls of the shop only, and answers otherwise
  have hother : ∀ {α : Type} (p : ShopProg α) (f : α → ShopRes), (∀ a resp, f a ≠ .response resp) →
      Follows Doings.ready Doings.post (f <$> p.inr : ApiProg ShopRes) (req, [])
        fun out l => Answers l out := by
    intro α p f hf
    have hcalls : (p.inr : ApiProg α).Calls fun o => ∀ l, Doings.ready l o :=
      Prog.calls_inr (p.calls_all fun _ _ => trivial)
    refine follows_bind.mpr ((Follows.of_calls hcalls).mono fun out l _ => ?_)
    cases out with
    | error err => exact fun resp h => by cases h
    | ok a => exact fun resp h => absurd (Except.ok.inj h) (hf a resp)
  have hmoney : ∀ {e : Endpoint} {r : BuyRequest}, req.endpoint = some (e, r) →
      Follows Doings.ready Doings.post
        (ShopRes.response <$> moneyRoute e.scope e.work r : ApiProg ShopRes) (req, [])
        fun out l => Answers l out := by
    intro e r hreq
    refine follows_bind.mpr ((follows_moneyRoute hreq).mono ?_)
    rintro (err | x) l ⟨-, hrep⟩
    · exact fun resp h => by cases h
    · exact fun resp h => by cases h; exact hrep
  cases req with
  | postBuy r => exact hmoney (e := .buy) rfl
  | postReserve r => exact hmoney (e := .reserve) rfl
  | reserve pid qty uid => exact hother _ _ fun a resp h => by cases h
  | confirm id => exact hother _ _ fun a resp h => by cases h
  | release id => exact hother _ _ fun a resp h => by cases h
  | sweep => exact hother _ _ fun a resp h => by cases h
  | tick n => exact hother _ _ fun a resp h => by cases h
  | deliver j q oid => exact hother _ _ fun a resp h => by cases h
  | compensate oid reason => exact hother _ _ fun a resp h => by cases h

/-! ## The whole run -/

variable {now : Nat} {catalog : ObjectId → Option ProductDoc} {c : ShopConfig} {t : ShopThread}

theorem account_doings (t : ShopThread) :
    t.account Doings.post (fun _ r => (r, [])) = (t.req, t.trace) := by
  unfold Thread.account
  induction t.trace with
  | nil => rfl
  | cons ev tr ih => rw [List.foldr_cons, ih]; rfl

/-- What `GET` answers is in Redis. -/
theorem kv_read {now i : Nat} {f : Fate Err Pick} {w w' : IdemKv × Shop} {key : String}
    {v : StoredResult Body}
    (h : (kvStore.sum shopStore).exec now i (.inl (.get key)) f w =
      some (.ok (some (.result v)), w')) :
    ∃ x, w.1 key = some x ∧ x.value = .result v := by
  obtain ⟨h, -⟩ := Store.exec_sum_inl (f := kvStore) (g := shopStore) (o := KvOp.get key) h
  rcases Store.exec_cases h with ⟨p, a, -, hx, ha⟩ | ⟨e, -, -, ha⟩ | ⟨e, p, a, -, -, ha⟩
  · simp only [kvStore, Option.some.injEq, Prod.mk.injEq] at hx
    obtain ⟨hx, -⟩ := hx
    obtain rfl := Except.ok.inj ha
    obtain ⟨x, hlive, hv⟩ := Option.map_eq_some_iff.mp hx
    exact ⟨x, (Kv.live_eq_some.mp hlive).1, hv⟩
  · cases ha
  · cases ha

/-- Whoever stores a result under a key has executed its work with it; and whoever reads one there
reads one that was stored. -/
structure Sourced (c : ShopConfig) : Prop where
  stored : ∀ k x v, c.world.1 k = some x → x.value = .result v →
    ∃ u ∈ c.pool, Stores u.req u.trace k v
  read : ∀ t ∈ c.pool, ∀ time k v,
    (⟨time, .inl (.get k), .ok (some (.result v))⟩ : Event apiSig Err) ∈ t.trace →
    ∃ u ∈ c.pool, Stores u.req u.trace k v

theorem sourced {ok : System.Guard apiSig Err ShopReq ShopRes (IdemKv × Shop) Pick ShopEnv}
    (h : shopSystem.Reachable ok (freshShop now catalog) c) : Sourced c := by
  refine h.invariant (I := Sourced) ⟨(fun k x v hx => by cases hx), (fun t ht => by cases ht)⟩ ?_
  intro c a c' hr ih _ hstep
  cases a with
  | arrive r =>
    simp only [System.step, Option.map_eq_some_iff] at hstep
    obtain ⟨w, hw, rfl⟩ := hstep
    have hkv : w.1 = c.world.1 := by
      cases r with
      | deliver j q oid =>
        obtain ⟨s, -, rfl⟩ := Option.map_eq_some_iff.mp hw
        rfl
      | _ => cases hw; rfl
    have hstill : ∀ {k v}, (∃ u ∈ c.pool, Stores u.req u.trace k v) →
        ∃ u ∈ c.pool ++ [⟨c.pool.length, r, shopProg r, []⟩], Stores u.req u.trace k v := by
      rintro k v ⟨u, hu, h⟩
      exact ⟨u, List.mem_append_left _ hu, h⟩
    constructor
    · intro k x v hk hv
      exact hstill (ih.stored k x v (by rw [← hkv]; exact hk) hv)
    · intro t ht time k v hmem
      rcases List.mem_append.mp ht with ht | ht
      · exact hstill (ih.read t ht time k v hmem)
      · rw [List.mem_singleton.mp ht] at hmem
        cases hmem
  | call j f =>
    obtain ⟨n, r, o, k, tr, out, w, hp, hx, rfl⟩ := System.callStep_eq_some hstep
    have hmem := List.mem_of_getElem? hp
    have hlt := (List.getElem?_eq_some_iff.mp hp).1
    -- nobody's executions are forgotten
    have hstill : ∀ {key v}, (∃ u ∈ c.pool, Stores u.req u.trace key v) →
        ∃ u ∈ c.pool.set j ⟨n, r, k out, ⟨c.now, o, out⟩ :: tr⟩, Stores u.req u.trace key v := by
      rintro key v ⟨u, hu, h⟩
      obtain ⟨m, hm⟩ := List.getElem?_of_mem hu
      by_cases hjm : j = m
      · subst hjm
        obtain rfl := Option.some.inj (hp.symm.trans hm)
        exact ⟨_, List.mem_of_getElem? (List.getElem?_set_self hlt), h.cons _⟩
      · exact ⟨u, List.mem_of_getElem? (by rw [List.getElem?_set_ne hjm, hm]), h⟩
    have hready : Doings.ready (r, tr) o := by
      have hfollows := hr.follows rfl (fun _ r => follows_shopProg r) _ hmem
      rw [account_doings] at hfollows
      exact hfollows.1
    have hstored : ∀ key x v, w.1 key = some x → x.value = .result v →
        (∃ u ∈ c.pool, Stores u.req u.trace key v) := by
      intro key x v hkey hv
      cases o with
      | inl o =>
        obtain ⟨hx, -⟩ := Store.exec_sum_inl (f := kvStore) (g := shopStore) (o := o) hx
        rcases Store.exec_effect hx with ⟨-, p, a, hx, -⟩ | ⟨-, hsame, -⟩
        · rcases kvStore_entry hx hkey with hold | ⟨ex, rfl⟩ | ⟨ex, rfl⟩
          · exact ih.stored key x v hold hv
          · obtain ⟨v', hval, hstores⟩ := hready
            rw [hv] at hval
            cases hval
            exact ⟨_, hmem, hstores⟩
          · rw [show x.value = .pending from hready] at hv
            cases hv
        · exact ih.stored key x v (hsame ▸ hkey) hv
      | inr o =>
        rw [(Store.exec_sum_inr hx).2] at hkey
        exact ih.stored key x v hkey hv
    constructor
    · exact fun key x v hkey hv => hstill (hstored key x v hkey hv)
    · intro t ht time key v hev
      rcases List.mem_or_eq_of_mem_set ht with ht | rfl
      · exact hstill (ih.read t ht time key v hev)
      · rcases List.mem_cons.mp hev with heq | hev
        · cases heq
          obtain ⟨x, hx, hv⟩ := kv_read hx
          exact hstill (ih.stored key x v hx hv)
        · exact hstill (ih.read _ hmem time key v hev)
  | tick d =>
    cases hstep
    exact ⟨ih.stored, ih.read⟩
  | env ev =>
    simp only [System.step, Option.map_eq_some_iff] at hstep
    obtain ⟨w, hw, rfl⟩ := hstep
    obtain ⟨s, -, rfl⟩ := Option.map_eq_some_iff.mp hw
    exact ⟨ih.stored, ih.read⟩

/-- **Replay fidelity.** In every run, whatever fails in it: an answer that is marked as a replay is
the result of an execution of the same endpoint for the same user, path string and raw key, and it
names that execution's product and quantity; and requests that differ in one of these use different
keys. -/
theorem replay_faithful (h : shopSystem.Reachable (fun _ _ => True) (freshShop now catalog) c) :
    (∀ t ∈ c.pool, ∀ e r resp, t.req.endpoint = some (e, r) →
      t.prog.result = some (.ok (.response resp)) → resp.replay = some true →
      ∃ u ∈ c.pool, ∃ r' q, Executes u.req u.trace e r' q ⟨resp.status, resp.body⟩ ∧
        r'.userId = r.userId ∧ r'.id = r.id ∧ r'.rawKey = r.rawKey ∧
        resp.body.productId = r.id ∧ resp.body.quantity = q) ∧
    ∀ (e e' : Endpoint) (r r' : BuyRequest) (rawKey rawKey' : String),
      isValidObjectId r.id = true → isValidObjectId r'.id = true →
      idemKey (e.key r rawKey) = idemKey (e'.key r' rawKey') →
      e = e' ∧ r.userId = r'.userId ∧ r.id = r'.id ∧ rawKey = rawKey' := by
  have hinj : ∀ {a b : String}, idemKey a = idemKey b → a = b := fun h => by simpa [idemKey] using h
  refine ⟨fun t ht e r resp hreq hres hreplay => ?_,
    fun e e' r r' rawKey rawKey' hid hid' hkey => key_injective hid hid' (hinj hkey)⟩
  -- the result was read under the request's key
  have hanswers : Replays (t.req, t.trace) (.ok resp) := by
    have hfollows := h.follows rfl (fun _ r => follows_shopProg r) t ht
    rw [account_doings] at hfollows
    cases hp : t.prog with
    | ret a =>
      rw [hp] at hfollows hres
      cases hres
      exact hfollows resp rfl
    | throw err => rw [hp] at hres; cases hres
    | call o k => rw [hp] at hres; cases hres
  obtain ⟨e', r₁, rawKey, time, v, hreq', hid, hkey, hev, rfl⟩ := hanswers resp rfl hreplay
  obtain ⟨rfl, rfl⟩ := Prod.mk.inj (Option.some.inj (hreq.symm.trans hreq'))
  -- and was stored there
  obtain ⟨u, hu, e'', r', q, rawKey', hexec, hid', hkey', heq⟩ := (sourced h).read t ht time _ _ hev
  obtain ⟨rfl, huser, hpid, rfl⟩ := key_injective hid hid' (hinj heq)
  obtain ⟨hprod, hqty⟩ := body_of_work hexec.2.2.choose_spec.2
  exact ⟨u, hu, r', q, hexec, huser.symm, hpid.symm, hkey'.trans hkey.symm, hprod.trans hpid.symm,
    hqty⟩

/-- A buy of `q` units of `idA` under the key `"checkout-1"`. -/
def keyedBuy (q : Nat) : ShopReq := .postBuy ⟨idC, idA.toString, .number q, some "checkout-1"⟩

/-- A buy of one unit, and then one of `q` under the same key. -/
def boughtTwice (q : Nat) : List ShopAct :=
  .arrive (keyedBuy 1) :: callsOf 0 10 idB ++ .arrive (keyedBuy q) :: callsOf 1 4 idB

theorem replay_faithful_twice :
    ∃ c, shopSystem.Reachable (fun _ _ => True) (freshShop 0 (oneProduct 5)) c ∧
      ∃ t ∈ c.pool, ∃ u ∈ c.pool, ∃ resp r' q, t.prog.result = some (.ok (.response resp)) ∧
        resp.replay = some true ∧ Executes u.req u.trace .buy r' q ⟨resp.status, resp.body⟩ := by
  have hrun : (shopSystem.run (fun _ _ => true) (freshShop 0 (oneProduct 5)) (boughtTwice 1)).map
      (fun c => c.pool.map fun t => (t.req, t.prog.result)) =
      some [(keyedBuy 1, some (.ok (.response
          ⟨201, some false, .order idB.toString idA.toString 1 4⟩))),
        (keyedBuy 1, some (.ok (.response
          ⟨201, some true, .order idB.toString idA.toString 1 4⟩)))] := by decide
  obtain ⟨c, hc, hs⟩ := Option.map_eq_some_iff.mp hrun
  obtain ⟨t₀, ts, hpool, -, hts⟩ := List.map_eq_cons_iff.mp hs
  obtain ⟨t, rest, rfl, ht, -⟩ := List.map_eq_cons_iff.mp hts
  obtain ⟨hreq, hres⟩ := Prod.mk.inj ht
  have hr : shopSystem.Reachable (fun _ _ => True) _ c :=
    (System.Reachable.of_run hc).mono fun _ _ _ => trivial
  have hmem : t ∈ c.pool := by simp [hpool]
  obtain ⟨u, hu, r', q, hexec, -⟩ :=
    (replay_faithful hr).1 t hmem .buy _ _ (by rw [hreq]; rfl) hres rfl
  exact ⟨c, hr, t, hmem, u, hu, _, r', q, hres, rfl, hexec⟩

/-- Two units are asked for under a key that has bought one, and the answer is the order of one. -/
theorem replay_of_other_quantity :
    ¬∀ (now : Nat) (catalog : ObjectId → Option ProductDoc) (c : ShopConfig),
      shopSystem.Reachable (fun _ _ => True) (freshShop now catalog) c →
      ∀ t ∈ c.pool, ∀ e r resp, t.req.endpoint = some (e, r) →
        t.prog.result = some (.ok (.response resp)) → resp.replay = some true →
        ∃ u ∈ c.pool, ∃ r' q, Executes u.req u.trace e r' q ⟨resp.status, resp.body⟩ ∧
          r'.userId = r.userId ∧ r'.id = r.id ∧ buyBodySchema r.body = some q := by
  have hrun : (shopSystem.run (fun _ _ => true) (freshShop 0 (oneProduct 5)) (boughtTwice 2)).map
      (fun c => c.pool.map fun t => (t.req, t.prog.result)) =
      some [(keyedBuy 1, some (.ok (.response
          ⟨201, some false, .order idB.toString idA.toString 1 4⟩))),
        (keyedBuy 2, some (.ok (.response
          ⟨201, some true, .order idB.toString idA.toString 1 4⟩)))] := by decide
  obtain ⟨c, hc, hs⟩ := Option.map_eq_some_iff.mp hrun
  obtain ⟨t₀, ts, hpool, -, hts⟩ := List.map_eq_cons_iff.mp hs
  obtain ⟨t, rest, rfl, ht, -⟩ := List.map_eq_cons_iff.mp hts
  obtain ⟨hreq, hres⟩ := Prod.mk.inj ht
  have hr : shopSystem.Reachable (fun _ _ => True) _ c :=
    (System.Reachable.of_run hc).mono fun _ _ _ => trivial
  intro h
  obtain ⟨u, -, r', q, hexec, -, -, hq⟩ := h 0 _ c hr t (by simp [hpool]) .buy
    ⟨idC, idA.toString, .number 2, some "checkout-1"⟩ _ (by rw [hreq]; rfl) hres rfl
  have hone := (body_of_work hexec.2.2.choose_spec.2).2
  have htwo : buyBodySchema (.number 2) = some 2 := by decide
  obtain rfl := Option.some.inj (htwo.symm.trans hq)
  cases hone

end Flashkart
