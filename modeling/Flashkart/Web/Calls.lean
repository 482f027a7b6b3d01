import Flashkart.Web.Session

/-!
# Web.Calls

Every call of a thread keeps the session. One lemma for each kind of call: `call_fetchApi` up to
`call_respond` for the page and the end of a handler, `call_verifyRefresh` up to `call_save` for
`/auth/refresh`, and `call_verifyAccess` for the API.

The calls of the page change no token, those of the server no call of the page.
-/

namespace Flashkart

open Async

variable {F : Family} {w w' : AppWorld} {n : Nat} {lib : AuthLib}

/-! ## The calls of the page -/

/-- The refreshes that are on their way stay so when a call moves on that is not one, or does not
arrive. -/
theorem refreshing_set {calls : List HttpCall} {k : Nat} {h h' : HttpCall}
    (hk : calls[k]? = some h) (hr : h.refreshing = true → h'.refreshing = true)
    (hp : ∃ x ∈ calls, x.refreshing = true) : ∃ x ∈ calls.set k h', x.refreshing = true := by
  obtain ⟨x, hx, hxr⟩ := hp
  obtain ⟨j, hj⟩ := List.mem_iff_getElem?.mp hx
  by_cases hkj : k = j
  · subst hkj
    rw [hk] at hj
    cases hj
    exact ⟨h', List.mem_of_getElem? (List.getElem?_set_self (List.getElem?_eq_some_iff.mp hk).1),
      hr hxr⟩
  · exact ⟨x, List.mem_of_getElem? ((List.getElem?_set_ne hkj).trans hj), hxr⟩

theorem sound_set {db : AuthDb} {calls : List HttpCall} {k : Nat} {h' : HttpCall}
    (hcalls : ∀ (j : Nat) x, calls[j]? = some x → SoundCall F db x) (hnew : SoundCall F db h') :
    ∀ (j : Nat) x, (calls.set k h')[j]? = some x → SoundCall F db x := by
  intro j x hx
  rw [List.getElem?_set] at hx
  split at hx
  · split at hx
    · cases hx
      exact hnew
    · cases hx
  · exact hcalls j x hx

theorem Extends.of_set {k : Nat} {h : HttpCall} {t : Transit} (hk : w.1.calls[k]? = some h)
    (hserved : ∀ m, h.transit = .served m → m = n)
    (hcalls : w'.1.calls = w.1.calls.set k { h with transit := t }) (hdb : w'.2 = w.2) :
    Extends n w w' := by
  refine ⟨fun d hd => by rw [hdb]; exact hd, fun j x hx => ?_⟩
  rw [hcalls]
  by_cases hkj : k = j
  · subst hkj
    rw [hk] at hx
    cases hx
    exact ⟨t, List.getElem?_set_self (List.getElem?_eq_some_iff.mp hk).1,
      fun m hm hs => absurd (hserved m hs) hm⟩
  · exact ⟨x.transit, (List.getElem?_set_ne hkj).trans hx, fun _ _ hs => hs⟩

theorem Extends.of_append {x : HttpCall} (hcalls : w'.1.calls = w.1.calls ++ [x])
    (hdb : w'.2 = w.2) : Extends n w w' := by
  refine ⟨fun d hd => by rw [hdb]; exact hd, fun j y hy => ⟨y.transit, ?_, fun _ _ hs => hs⟩⟩
  rw [hcalls]
  exact (List.getElem?_append_left (List.getElem?_eq_some_iff.mp hy).1).trans hy

/-- A call is sent. -/
theorem Session.send (h : Session F w) {b : Browser} {x : HttpCall} (hx : SoundCall F w.2.2 x)
    (hcookie : b.cookie = w.1.browser.cookie) (hpage : b.accessToken ≠ none ∧ b.me ≠ none) :
    Session F (⟨b, w.1.calls ++ [x]⟩, w.2) where
  texts := h.texts
  active := h.active
  entry := h.entry
  page := hpage
  calls := by
    intro j y hy
    rcases List.mem_append.mp (List.mem_of_getElem? hy) with hy | hy
    · obtain ⟨k, hk⟩ := List.mem_iff_getElem?.mp hy
      exact h.calls k y hk
    · rw [List.mem_singleton.mp hy]
      exact hx
  cookie := by rw [hcookie]; exact h.cookie
  newest := by
    rw [hcookie]
    exact h.newest.imp_right fun ⟨y, hy, hr⟩ => ⟨y, List.mem_append_left _ hy, hr⟩

/-- A call moves on, and the page stays as it is. -/
theorem Session.move (h : Session F w) {k : Nat} {x : HttpCall} {t : Transit}
    (hk : w.1.calls[k]? = some x) (hx : SoundCall F w.2.2 { x with transit := t })
    (hr : x.refreshing = true → ({ x with transit := t } : HttpCall).refreshing = true) :
    Session F (w.1.move k x t, w.2) where
  texts := h.texts
  active := h.active
  entry := h.entry
  page := h.page
  calls := sound_set h.calls hx
  cookie := h.cookie
  newest := h.newest.imp_right (refreshing_set hk hr)

/-- The page changes its state, and keeps its cookie. -/
theorem Session.browse (h : Session F w) {b : Browser} (hcookie : b.cookie = w.1.browser.cookie)
    (hpage : b.accessToken ≠ none ∧ b.me ≠ none) :
    Session F ({ w.1 with browser := b }, w.2) where
  texts := h.texts
  active := h.active
  entry := h.entry
  page := hpage
  calls := h.calls
  cookie := by rw [hcookie]; exact h.cookie
  newest := by rw [hcookie]; exact h.newest

/-- A call on the database forgets no token, and changes no user. -/
theorem Session.db (h : Session F w) {db : AuthDb} (htexts : db.Unambiguous)
    (hs : ∀ d ∈ w.2.2.signed, d ∈ db.signed) (hu : db.users = w.2.2.users) :
    Session F (w.1, w.2.1, db) where
  texts := htexts
  active := by
    have hactive := h.active
    simp only [AuthDb.active] at hactive ⊢
    rw [hu]
    exact hactive
  entry := h.entry
  page := h.page
  calls := fun k x hx => (h.calls k x hx).mono hs
  cookie := h.cookie.mono hs
  newest := by
    refine h.newest.imp_left ?_
    rintro ⟨t, e, hfrt, he, ht⟩
    exact ⟨t, e, hfrt, he, ht.mono hs⟩

/-- A refresh that is on its way saves its JTI. -/
theorem Session.save (h : Session F w) {e : Entry String} (hne : e.value ≠ "")
    (hr : ∃ x ∈ w.1.calls, x.refreshing = true) : Session F (w.1, w.2.1.put F.key e, w.2.2) where
  texts := h.texts
  active := h.active
  entry := ⟨e, Kv.put_eq_some.mpr (.inl ⟨rfl, rfl⟩), hne⟩
  page := h.page
  calls := h.calls
  cookie := h.cookie
  newest := .inr hr

/-! ## The logic -/

namespace Errand

/-- Whether the call reads the refresh token, or the active JTI. -/
def looksUp : appSig.Op → Bool
  | .inr (.inr (.jwtVerify ..)) | .inr (.inl (.get _)) => true
  | _ => false

/-- The access token has not expired. -/
def Valid (db : AuthDb) (now : Nat) (authorization : Option String) : Prop :=
  ∃ d ∈ db.signed, d.secret = .JWT_ACCESS_SECRET ∧ authorization = some d.token ∧ now < d.expiry

/-- A refresh reads a token, and then the active JTI, while its own is the active one, and the
access token of a request that is made again has not expired when it is read. -/
def Timely (F : Family) (now : Nat) (w : AppWorld) (o : appSig.Op) : Errand → Prop
  | .serving _ (.refresh frt) _ => looksUp o = true → Current F w.2 frt
  | .serving k (.api authorization) _ => looksUp o = true →
      (∃ h ∈ w.1.calls[k]?, h.retried = true) → Valid w.2.2 now authorization
  | _ => True

end Errand

namespace Page

instance : Std.Symm fun a b : Actor => a.1 ≠ b.1 := ⟨fun _ _ h => h.symm⟩

def logic (F : Family) (lib : AuthLib) : Logic appSig Err AppWorld String Actor (Multiset Actor) where
  store := webStore.sum (authStore lib)
  guard := fun _ l _ s o f =>
    f.isAnswered = true ∧ Alive F s.now s.world.2 ∧ l.2.Timely F s.now s.world o
  inv := fun s m => Session F s.world ∧ Bag (Fits F s.world) (fun a b => a.1 ≠ b.1) m
  post := Errand.post
  val := fun l => {l}

theorem call_of_keep {x : Errand} {o : appSig.Op}
    {R : Except Err (appSig.Ret o) → Actor → Prop}
    (h : ∀ now p a w w', Session F w → Fits F w (n, x) → Alive F now w.2 → x.Timely F now w o →
      webStore.sum (authStore lib) now n o p w = some (a, w') →
      Session F w' ∧ Extends n w w' ∧ Fits F w' (n, x.after o a) ∧ R (.ok a) (n, x.after o a)) :
    (logic F lib).Call n (n, x) o R := by
  refine Logic.call_of (fun _ _ _ _ _ => trivial) fun s g f out w' hinv hg hx => ?_
  obtain ⟨hs, hbag⟩ := hinv
  obtain ⟨hf, halive, htimely⟩ := hg
  obtain ⟨hfits, -, -⟩ := Bag.singleton_add.mp hbag
  rcases Store.exec_cases hx with ⟨p, a, rfl, ha, rfl⟩ | ⟨e, rfl, -, -⟩ | ⟨e, p, a, rfl, -, -⟩
  · obtain ⟨h1, h2, h3, h4⟩ := h s.now p a s.world w' hs hfits halive htimely ha
    exact ⟨⟨h1, hbag.step h3 fun y _ hy hne => ⟨hy.grow h2 (Ne.symm hne), hne⟩⟩, h4⟩
  · cases hf
  · cases hf

/-! The page. -/

theorem call_fetchApi : (logic F lib).Call n (n, .idle) (.inl (.fetchApi none)) fun out l =>
    ∃ k, out = .ok k ∧ l = (n, .idle) := by
  refine call_of_keep fun now p k w w' hs _ _ _ hx => ?_
  cases hx
  refine ⟨hs.send ⟨fun hr => ?_, fun res hres => ?_⟩ rfl hs.page, .of_append rfl rfl, trivial, _, rfl,
    rfl⟩
  · cases hr
  · cases hres

theorem call_retry {data : SessionData} : (logic F lib).Call n (n, .renewed data)
    (.inl (.fetchApi (some data))) fun out l => ∃ k, out = .ok k ∧ l = (n, .retries k) := by
  refine call_of_keep fun now p k w w' hs hfits _ _ hx => ?_
  cases hx
  obtain ⟨hne, haccess⟩ := hfits
  have htoken : truthy (some data.accessToken) = some data.accessToken := by
    simp [truthy, Option.filter, hne]
  refine ⟨hs.send ?_ rfl ⟨Option.some_ne_none _, Option.some_ne_none _⟩, .of_append rfl rfl,
    ⟨_, _, List.getElem?_concat_length, rfl, rfl⟩, _, rfl, rfl⟩
  exact ⟨fun _ => ⟨_, htoken, hne, haccess⟩, fun res hres => by cases hres⟩

theorem call_fetchRefresh {x : Errand} : (logic F lib).Call n (n, x) (.inl .fetchRefresh) fun out l =>
    ∃ k, out = .ok k ∧ l = (n, .refreshes k) := by
  refine call_of_keep fun now p k w w' hs _ _ _ hx => ?_
  cases hx
  refine ⟨hs.send ?_ rfl hs.page, .of_append rfl rfl,
    ⟨_, _, List.getElem?_concat_length, rfl⟩, _, rfl, rfl⟩
  exact ⟨hs.cookie, rfl, fun res hres => by cases hres⟩

/-- What a `response` waits for. -/
theorem response_arrived {now i k : Nat} {p : String} {web web' : Web} {res : HttpResponse}
    (h : webStore now i (.response k) p web = some (res, web')) :
    web' = web ∧ ∃ request retried, web.calls[k]? = some ⟨request, retried, .arrived res⟩ := by
  simp only [webStore] at h
  split at h
  · rename_i request retried res' hk
    cases h
    exact ⟨rfl, request, retried, hk⟩
  · cases h

theorem call_response {k : Nat} : (logic F lib).Call n (n, .idle) (.inl (.response k)) fun out l =>
    ∃ res, out = .ok res ∧ l = (n, .idle) := by
  refine call_of_keep fun now p res w w' hs _ _ _ hx => ?_
  obtain ⟨hx, hauth⟩ := Store.sum_inl hx
  obtain ⟨hweb, -⟩ := response_arrived hx
  obtain rfl : w' = w := Prod.ext hweb hauth
  have hidle : Errand.after (.inl (.response k)) res .idle = .idle := by cases res <;> rfl
  rw [hidle]
  exact ⟨hs, .refl _, trivial, res, rfl, rfl⟩

/-- A refresh that is answered renews the session. -/
theorem call_responseRefresh {k : Nat} : (logic F lib).Call n (n, .refreshes k) (.inl (.response k))
    fun out l => ∃ frt data, out = .ok (.session frt data) ∧ l = (n, .renewed data) := by
  refine call_of_keep fun now p res w w' hs hfits _ _ hx => ?_
  obtain ⟨hx, hauth⟩ := Store.sum_inl hx
  obtain ⟨hweb, request, retried, hk⟩ := response_arrived hx
  obtain rfl : w' = w := Prod.ext hweb hauth
  obtain ⟨h, frt, hk', hreq⟩ := hfits
  rw [hk] at hk'
  cases hk'
  obtain rfl : request = .refresh frt := hreq
  obtain ⟨-, -, hres⟩ := hs.calls k _ hk
  obtain ⟨cookie, data, rfl, -, hne, haccess⟩ := hres res rfl
  exact ⟨hs, .refl _, ⟨hne, haccess⟩, cookie, data, rfl, rfl⟩

/-- A request that was made again is not answered 401. -/
theorem call_responseRetry {k : Nat} : (logic F lib).Call n (n, .retries k) (.inl (.response k))
    fun out _ => ∃ res, out = .ok res ∧ res.code ≠ 401 := by
  refine call_of_keep fun now p res w w' hs hfits _ _ hx => ?_
  obtain ⟨hx, hauth⟩ := Store.sum_inl hx
  obtain ⟨hweb, request, retried, hk⟩ := response_arrived hx
  obtain rfl : w' = w := Prod.ext hweb hauth
  obtain ⟨h, authorization, hk', hreq, hr⟩ := hfits
  rw [hk] at hk'
  cases hk'
  obtain rfl : request = .api authorization := hreq
  obtain ⟨-, hres⟩ := hs.calls k _ hk
  obtain ⟨code, rfl, hcode⟩ := hres res rfl
  exact ⟨hs, .refl _, trivial, _, rfl, hcode hr⟩

theorem call_setSession {x : Errand} {data : SessionData} : (logic F lib).Call n (n, x)
    (.inl (.setSession (some data))) fun out l => out = .ok () ∧ l = (n, x) := by
  refine call_of_keep fun now p u w w' hs hfits _ _ hx => ?_
  cases hx
  refine ⟨hs.browse rfl ⟨Option.some_ne_none _, Option.some_ne_none _⟩, ⟨fun d hd => hd,
    fun j y hy => ⟨y.transit, hy, fun _ _ h => h⟩⟩, ?_, rfl, rfl⟩
  cases x <;> exact hfits

/-! The end of a handler. -/

/-- The answer of a handler says what it has seen. -/
def Answers (seen : Finding) : HttpRequest → HttpResponse → Prop
  | .api authorization, res => ∃ code, res = .status code ∧
      (code ≠ 401 ∨ seen.refused = true ∨ truthy authorization = none)
  | .refresh _, res => ∃ frt data jti, res = .session frt data ∧ seen.access = some data.accessToken ∧
      seen.token = some (frt.value, jti)

theorem call_respond {k : Nat} {request : HttpRequest} {seen : Finding} {res : HttpResponse}
    (hres : Answers seen request res) : (logic F lib).Call n (n, .serving k request seen)
      (.inl (.respond k res)) fun out l => out = .ok () ∧ l = (n, .idle) := by
  refine call_of_keep fun now p u w w' hs hfits _ _ hx => ?_
  obtain ⟨hx, hauth⟩ := Store.sum_inl hx
  obtain ⟨web', auth'⟩ := w'
  obtain rfl : auth' = w.2 := hauth
  obtain ⟨retried, hk, hpay, haccess, htoken, hrefused⟩ := hfits
  simp only [webStore, hk] at hx
  cases hx
  have hsound := hs.calls k _ hk
  refine ⟨hs.move hk ?_ ?_, .of_set hk (fun m hm => (Transit.served.inj hm).symm) rfl rfl, trivial,
    rfl, rfl⟩
  · cases request with
    | refresh frt =>
      obtain ⟨cookie, data, jti, rfl, ha, ht⟩ := hres
      obtain ⟨hne, htext⟩ := htoken _ _ ht
      obtain ⟨hne', htext'⟩ := haccess _ ha
      refine ⟨hsound.1, hsound.2.1, fun res hr => ?_⟩
      cases hr
      exact ⟨cookie, data, rfl, ⟨_, jti, rfl, hne, htext⟩, hne', htext'⟩
    | api authorization =>
      obtain ⟨code, rfl, hcode⟩ := hres
      refine ⟨hsound.1, fun res' hr' => ?_⟩
      cases hr'
      refine ⟨code, rfl, fun hr => ?_⟩
      obtain ⟨t, ht, hne, -⟩ := hsound.1 hr
      rcases hcode with hcode | href | htruthy
      · exact hcode
      · obtain rfl : retried = true := hr
        have hfirst := hrefused href
        cases hfirst
      · simp [ht, truthy, Option.filter, hne] at htruthy
  · cases request with
    | refresh frt => exact fun _ => rfl
    | api authorization => exact fun h => h

/-! The server. -/

theorem db_step {now : Nat} {p : String} {o : AuthOp} {a : o.Ret}
    (h : webStore.sum (authStore lib) now n (.inr (.inr o)) p w = some (a, w')) :
    ∃ db, authDbStore lib now n o p w.2.2 = some (a, db) ∧ w' = (w.1, w.2.1, db) := by
  obtain ⟨h, hweb⟩ := Store.sum_inr h
  obtain ⟨h, hkv⟩ := Store.sum_inr (f := kvStore) (g := authDbStore lib) h
  exact ⟨w'.2.2, h, Prod.ext hweb (Prod.ext hkv rfl)⟩

theorem kv_step {now : Nat} {p : String} {o : KvOp String} {a : o.Ret}
    (h : webStore.sum (authStore lib) now n (.inr (.inl o)) p w = some (a, w')) :
    ∃ kv, kvStore now n o p w.2.1 = some (a, kv) ∧ w' = (w.1, kv, w.2.2) := by
  obtain ⟨h, hweb⟩ := Store.sum_inr h
  obtain ⟨h, hdb⟩ := Store.sum_inl (f := kvStore) (g := authDbStore lib) h
  exact ⟨w'.2.1, h, Prod.ext hweb (Prod.ext rfl hdb)⟩

variable {k : Nat} {seen : Finding}

theorem call_verifyAccess {authorization : Option String} {t : String}
    (ht : truthy authorization = some t) :
    (logic F lib).Call n (n, .serving k (.api authorization) seen)
      (.inr (.inr (.jwtVerify t .JWT_ACCESS_SECRET))) fun out l =>
        ((∃ sub role, out = .ok (some (.access sub role))) ∧
          l = (n, .serving k (.api authorization) seen)) ∨
        ((∃ decoded, out = .ok decoded) ∧
          l = (n, .serving k (.api authorization) { seen with refused := true })) := by
  refine call_of_keep fun now p decoded w w' hs hfits _ htimely hx => ?_
  obtain ⟨db, hstep, rfl⟩ := db_step hx
  obtain ⟨hdecoded, rfl⟩ := Prod.mk.inj (Option.some.inj hstep)
  obtain ⟨hauth, -⟩ := Option.filter_eq_some_iff.mp ht
  have hfits' := hfits
  obtain ⟨retried, hk, hpay, haccess, htoken, hrefused⟩ := hfits
  -- the token of a request that is made again verifies
  have hverify : retried = true → ∃ sub role, decoded = some (.access sub role) := by
    rintro rfl
    obtain ⟨text, htext, -, sub, role, ex, hsigned⟩ := (hs.calls k _ hk).1 rfl
    obtain ⟨d, hd, hsecret, htok, hlt⟩ := htimely rfl ⟨_, hk, rfl⟩
    have hpayload : d.payload = .access sub role :=
      hs.texts d hd _ hsigned hsecret (Option.some.inj (htok.symm.trans htext))
    have hv := hs.texts.verify hd hlt
    rw [hsecret, hpayload, ← Option.some.inj (hauth.symm.trans htok)] at hv
    exact ⟨sub, role, hdecoded.symm.trans hv⟩
  have hfirst : (¬∃ sub role, decoded = some (.access sub role)) → retried = false :=
    fun hno => Bool.eq_false_iff.mpr fun hr => hno (hverify hr)
  have hseen : (∃ sub role, decoded = some (.access sub role)) ∨ (retried = false ∧
      Finding.afterDb (.jwtVerify t .JWT_ACCESS_SECRET) decoded seen = { seen with refused := true }) := by
    rcases decoded with _ | (⟨sub, role⟩ | q)
    · exact .inr ⟨hfirst (by rintro ⟨_, _, h⟩; cases h), rfl⟩
    · exact .inl ⟨sub, role, rfl⟩
    · exact .inr ⟨hfirst (by rintro ⟨_, _, h⟩; cases h), rfl⟩
  rcases hseen with ⟨sub, role, rfl⟩ | ⟨hr, hseen⟩
  · exact ⟨hs, .refl _, hfits', .inl ⟨⟨sub, role, rfl⟩, rfl⟩⟩
  · have hstage : Errand.after (.inr (.inr (.jwtVerify t .JWT_ACCESS_SECRET))) decoded
        (.serving k (.api authorization) seen) =
        .serving k (.api authorization) { seen with refused := true } := by
      rw [← hseen]
      rfl
    rw [hstage]
    exact ⟨hs, .refl _, ⟨retried, hk, hpay, haccess, htoken, fun _ => hr⟩, .inr ⟨⟨decoded, rfl⟩, rfl⟩⟩

/-- The token of a cookie that is current has not expired. -/
theorem Current.unexpired {t : String} {now : Nat} {w : AuthWorld} (h : Current F w (some t))
    (halive : Alive F now w) : ∃ e d, w.1.live now F.key = some e ∧ w.2.payload t = some (F.token e.value) ∧
      d ∈ w.2.signed ∧ d.secret = .JWT_REFRESH_SECRET ∧ d.token = t ∧
        d.payload = .refresh (F.token e.value) ∧ now < d.expiry := by
  obtain ⟨e, he, hpayload⟩ := h
  obtain ⟨hnow, hlt⟩ := halive e he
  obtain ⟨ex, hd⟩ := AuthDb.isToken_of_payload hpayload
  exact ⟨e, _, Kv.live_eq_some.mpr ⟨he, hnow⟩, hpayload, hd, rfl, rfl, rfl, hlt _ hd rfl rfl⟩

theorem call_verifyRefresh {t : String} : (logic F lib).Call n
    (n, .serving k (.refresh (some t)) seen) (.inr (.inr (.jwtVerify t .JWT_REFRESH_SECRET)))
    fun out l => ∃ p, F.Has p ∧ out = .ok (some (.refresh p)) ∧
      l = (n, .serving k (.refresh (some t)) { seen with payload := some p }) := by
  refine call_of_keep fun now p decoded w w' hs hfits halive htimely hx => ?_
  obtain ⟨db, hstep, rfl⟩ := db_step hx
  obtain ⟨hdecoded, rfl⟩ := Prod.mk.inj (Option.some.inj hstep)
  obtain ⟨e, d, -, -, hd, hsecret, htok, hpayload, hlt⟩ := Current.unexpired (htimely rfl) halive
  have hv := hs.texts.verify hd hlt
  rw [hsecret, htok, hpayload] at hv
  obtain rfl : decoded = some (.refresh (F.token e.value)) := hdecoded.symm.trans hv
  obtain ⟨retried, hk, -, haccess, htoken, hrefused⟩ := hfits
  refine ⟨hs, .refl _, ⟨retried, hk, fun p hp => ?_, haccess, htoken, hrefused⟩,
    F.token e.value, ⟨rfl, rfl⟩, rfl, rfl⟩
  cases hp
  obtain ⟨secret, text, payload, ex⟩ := d
  obtain rfl : secret = .JWT_REFRESH_SECRET := hsecret
  obtain rfl : text = t := htok
  obtain rfl : payload = .refresh (F.token e.value) := hpayload
  exact ⟨text, rfl, ex, hd⟩

theorem call_getActiveJti {frt : Option String} {p : RefreshPayload} (hp : F.Has p)
    (hseen : seen.payload = some p) : (logic F lib).Call n (n, .serving k (.refresh frt) seen)
      (.inr (.inl (.get (familyKey p.sub p.fam)))) fun out l =>
        p.jti ≠ "" ∧ out = .ok (some p.jti) ∧ l = (n, .serving k (.refresh frt) seen) := by
  refine call_of_keep fun now _ a w w' hs hfits halive htimely hx => ?_
  obtain ⟨kv, hstep, rfl⟩ := kv_step hx
  obtain ⟨rfl, rfl⟩ := Prod.mk.inj (Option.some.inj hstep)
  have hfits' := hfits
  obtain ⟨retried, hk, hpay, -⟩ := hfits
  obtain ⟨t, hreq, htext⟩ := hpay p hseen
  obtain rfl := HttpRequest.refresh.inj hreq
  obtain ⟨e, d, hlive, hpayload, -⟩ := Current.unexpired (htimely rfl) halive
  obtain ⟨e', he', hne⟩ := hs.entry
  obtain rfl : e = e' := Option.some.inj ((Kv.live_eq_some.mp hlive).1.symm.trans he')
  obtain rfl := hs.texts.token_inj htext (AuthDb.isToken_of_payload hpayload)
  refine ⟨hs, .refl _, hfits', hne, ?_, rfl⟩
  rw [hp.key_eq, hlive]
  rfl

theorem call_userFindById {request : HttpRequest} {p : RefreshPayload} (hp : F.Has p) :
    (logic F lib).Call n (n, .serving k request seen) (.inr (.inr (.userFindById p.sub)))
      fun out l => ∃ u : User, u.active = true ∧ out = .ok (some u) ∧
        l = (n, .serving k request seen) := by
  refine call_of_keep fun now _ a w w' hs hfits _ _ hx => ?_
  obtain ⟨db, hstep, rfl⟩ := db_step hx
  rw [hp.1] at hstep
  simp only [authDbStore, castObjectId_toString, Option.map_some, Option.some.injEq] at hstep
  obtain ⟨rfl, rfl⟩ := hstep
  have hactive := hs.active
  simp only [AuthDb.active, castObjectId_toString, Option.bind_some] at hactive
  obtain ⟨u, hu, hon⟩ := (Option.any_eq_true _ _).mp hactive
  exact ⟨hs, .refl _, hfits, u, hon, congrArg Except.ok hu, rfl⟩

theorem call_randomUUID {request : HttpRequest} : (logic F lib).Call n
    (n, .serving k request seen) (.inr (.inr .randomUUID)) fun out l =>
      ∃ s, s ≠ "" ∧ out = .ok s ∧ l = (n, .serving k request seen) := by
  refine call_of_keep fun now p s w w' hs hfits _ _ hx => ?_
  obtain ⟨db, hstep, rfl⟩ := db_step hx
  simp only [authDbStore] at hstep
  split at hstep
  · cases hstep
  · rename_i hnew
    cases hstep
    exact ⟨hs.db hs.texts (fun _ hd => hd) rfl, .of_web rfl fun _ hd => hd,
      Fits.keep hfits _ fun _ hd => hd, p, (not_or.mp hnew).1, rfl, rfl⟩

theorem call_signAccess {request : HttpRequest} {sub ttl : String} {role : Role} :
    (logic F lib).Call n (n, .serving k request seen)
      (.inr (.inr (.jwtSign (.access sub role) .JWT_ACCESS_SECRET ttl))) fun out l =>
        ∃ t, out = .ok t ∧ l = (n, .serving k request { seen with access := some t }) := by
  refine call_of_keep fun now p t w w' hs hfits _ _ hx => ?_
  obtain ⟨db, hstep, rfl⟩ := db_step hx
  obtain ⟨hne, hdb, htexts⟩ := jwtSign_eq hstep
  have hmono : ∀ d ∈ w.2.2.signed, d ∈ db.signed := hdb ▸ AuthDb.mem_sign
  refine ⟨hs.db (htexts hs.texts) hmono (hdb ▸ rfl), .of_web rfl hmono, ?_, t, rfl, rfl⟩
  obtain ⟨retried, hk, hpay, -, htoken, hrefused⟩ := Fits.keep hfits w.2.1 hmono
  refine ⟨retried, hk, hpay, fun a ha => ?_, htoken, hrefused⟩
  cases ha
  exact ⟨hne, sub, role, lib.expires now ttl, hdb ▸ List.mem_cons_self ..⟩

theorem call_signRefresh {request : HttpRequest} {p : RefreshPayload} {ttl : String}
    (hp : F.Has p) : (logic F lib).Call n (n, .serving k request seen)
      (.inr (.inr (.jwtSign (.refresh p) .JWT_REFRESH_SECRET ttl))) fun out l =>
        ∃ t, out = .ok t ∧ l = (n, .serving k request { seen with token := some (t, p.jti) }) := by
  refine call_of_keep fun now _ t w w' hs hfits _ _ hx => ?_
  obtain ⟨db, hstep, rfl⟩ := db_step hx
  obtain ⟨hne, hdb, htexts⟩ := jwtSign_eq hstep
  have hmono : ∀ d ∈ w.2.2.signed, d ∈ db.signed := hdb ▸ AuthDb.mem_sign
  refine ⟨hs.db (htexts hs.texts) hmono (hdb ▸ rfl), .of_web rfl hmono, ?_, t, rfl, rfl⟩
  obtain ⟨retried, hk, hpay, haccess, -, hrefused⟩ := Fits.keep hfits w.2.1 hmono
  refine ⟨retried, hk, hpay, haccess, fun a jti ha => ?_, hrefused⟩
  cases ha
  obtain ⟨sub, fam, jti⟩ := p
  obtain ⟨rfl, rfl⟩ := hp
  exact ⟨hne, lib.expires now ttl, hdb ▸ List.mem_cons_self ..⟩

theorem call_saveActiveJti {frt : Option String} {p : RefreshPayload} {jti : String} {ttl : Nat}
    (hp : F.Has p) (hjti : jti ≠ "") : (logic F lib).Call n (n, .serving k (.refresh frt) seen)
      (.inr (.inl (.set (familyKey p.sub p.fam) jti ttl))) fun out l =>
        out = .ok () ∧ l = (n, .serving k (.refresh frt) seen) := by
  refine call_of_keep fun now _ u w w' hs hfits _ _ hx => ?_
  obtain ⟨kv, hstep, rfl⟩ := kv_step hx
  rw [hp.key_eq] at hstep
  cases hstep
  have hfits' := hfits
  obtain ⟨retried, hk, -⟩ := hfits
  exact ⟨hs.save hjti ⟨_, List.mem_of_getElem? hk, rfl⟩, .of_web rfl fun _ hd => hd,
    Fits.keep hfits' _ fun _ hd => hd, rfl, rfl⟩

end Page

end Flashkart
